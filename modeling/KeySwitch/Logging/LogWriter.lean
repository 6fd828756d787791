import KeySwitch.Lib.Machine
import KeySwitch.Logging.Counters
import KeySwitch.Logging.LogFiles
import KeySwitch.Logging.LogLine

/-!
# The log's writer

Threads that log queue their lines without waiting; one thread writes them, first into the
files, then to the console. A full queue drops a line, and its sender counts that. The writer
reports the counters each minute, before it acknowledges a flush and before it ends.

A line and a report change only the console and the files (`write_wrote`, `report_told`);
`Stepped` is all that any step of the threads can do.
-/

namespace KeySwitch.Logging

open Data Lib

/-! ## The thread and its queue -/

/-- How many messages wait for the writer before new lines are dropped. -/
def QUEUE_CAPACITY : Nat := 1024

def REPORT_PERIOD : Duration := fromMillis 60000

/-- The writer's own records name the crate as their target. -/
def TARGET : List Char := "key_switch_rs::logging".toList

inductive WriterMsg
  | line (line : LogLine)
  /-- From now on, lines also go into these files. -/
  | attach (path : List Char) (folder : Folder)
  | flush

/-- A message accepted, what had been counted by then and the callbacks recorded. -/
structure Accepted where
  msg : WriterMsg
  bumped : Counter → Nat
  recorded : List UInt64

/-- What a line on the console is from. -/
inductive Origin
  | queued
  | report (snapshot : Snapshot)
  | notice (notice : Notice)

structure Entry where
  line : LogLine
  origin : Origin

/-- What the writer does once it has reported. -/
inductive Then
  | period (now : Instant)
  /-- Acknowledges the flush that was accepted as message `i`. -/
  | flush (i : Nat)
  | return

inductive WriterStage
  | looking
  | receiving (deadline : Instant)
  /-- Has the counters `rest` still to take. -/
  | taking (rest : List Counter) (taken : Counter → UInt64) (next : Then)
  | reported (next : Then)
  | ended

/-- The writer, its queue and the counters. -/
structure LogThread where
  now : Instant
  queue : List WriterMsg
  sent : List Accepted
  counters : Counters
  /-- How often each counter was bumped, and the callbacks recorded. -/
  bumped : Counter → Nat
  recorded : List UInt64
  /-- The lines dropped, and those of them that their senders have still to count. -/
  dropped : Nat
  owed : Nat
  stage : WriterStage
  nextReport : Instant
  files : Option (List Char × Writer)
  /-- The folder attached last, and how many entries the console had then. -/
  attached : Folder × Nat
  console : List Entry
  acked : List Nat
  /-- Whether every sender is gone. -/
  hungUp : Bool

/-- What the writer meets while it writes a line. -/
structure WriteEnv where
  fs : FileCalls
  noticeFs : FileCalls
  wall : SystemTime
  ioError : List Char

inductive LogAct
  | pass (elapsed : Duration)
  /-- `try_send` of a line, an attach or a flush. -/
  | send (msg : WriterMsg)
  /-- A sender whose line was dropped counts it. -/
  | countDropped
  | bump (counter : Counter)
  | record (took : Duration)
  | hangUp
  /-- The writer goes on, unless it waits in vain. -/
  | work (env : WriteEnv)
  /-- The writer has waited long enough. -/
  | timeout

/-- A text as the files get it. -/
def utf8 (text : List Char) : Text := (String.ofList text).toUTF8.toList

def WriteError.display (ioError : List Char) : WriteError → List Char
  | .rotate => "could not rotate, so daemon.log grows past its limit: ".toList ++ ioError
  | .write => "could not write: ".toList ++ ioError

/-- A record of the writer itself. -/
def writerLine (env : WriteEnv) (level : Level) (args : List Char) : LogLine :=
  .new env.wall level TARGET args

/-- What the console is told about the files at `path`. -/
def noticeLine (env : WriteEnv) (path : List Char) : Notice → LogLine
  | .worksAgain =>
    writerLine env .info ("log file ".toList ++ path ++ " works again".toList)
  | .failed error =>
    writerLine env .warn ("log file ".toList ++ path ++ ": ".toList ++ error.display env.ioError)

namespace LogThread

def new : LogThread :=
  { now := 0, queue := [], sent := [], counters := .new, bumped := fun _ => 0, recorded := [],
    dropped := 0, owed := 0, stage := .looking, nextReport := REPORT_PERIOD, files := none,
    attached := ⟨fun _ => none, 0⟩,
    console := [], acked := [], hungUp := false }

/-- Writes a line to the files first, then to the console, and then what it has to tell of
the files. -/
def write (env : WriteEnv) (entry : Entry) (w : LogThread) : LogThread :=
  match w.files with
  | none => { w with console := w.console ++ [entry] }
  | some (path, files) =>
    let (files, notice) := files.writeFiles MAX_FILE_BYTES
      (utf8 (noticeLine env path .worksAgain).fileText) env.fs env.noticeFs
      (utf8 entry.line.fileText)
    { w with
      files := some (path, files)
      console := w.console ++
        entry :: notice.toList.map fun notice => ⟨noticeLine env path notice, .notice notice⟩ }

/-- The report of a snapshot, if there is anything to report. -/
def report (env : WriteEnv) (snapshot : Snapshot) (w : LogThread) : LogThread :=
  match snapshot.summary with
  | none => w
  | some report =>
    w.write env ⟨writerLine env (if report.warns then .warn else .info) report.text.toList,
      .report snapshot⟩

def startReport (next : Then) (w : LogThread) : LogThread :=
  { w with stage := .taking Counter.ALL (fun _ => 0) next }

/-- What `recv_timeout` gives. -/
def receive (env : WriteEnv) (w : LogThread) : LogThread :=
  match w.queue with
  | .line line :: queue =>
    { w with queue := queue, stage := .looking }.write env ⟨line, .queued⟩
  | .attach path folder :: queue =>
    { w with
      queue := queue
      stage := .looking
      files := some (path, ⟨false, folder⟩)
      attached := (folder, w.console.length) }
  | .flush :: queue =>
    { w with queue := queue }.startReport (.flush (w.sent.length - w.queue.length))
  | [] => if w.hungUp then w.startReport .return else w

/-- `Writer::run`, one step of it. -/
def work (env : WriteEnv) (w : LogThread) : LogThread :=
  match w.stage with
  | .looking =>
    if w.nextReport ≤ w.now then w.startReport (.period w.now)
    else { w with stage := .receiving (w.now + (w.nextReport - w.now)) }
  | .receiving _ => w.receive env
  | .taking (counter :: rest) taken next =>
    { w with
      counters := w.counters.takeCount counter
      stage := .taking rest (Function.update taken counter (w.counters.counts counter)) next }
  | .taking [] taken next =>
    { w with counters := w.counters.takeLongest, stage := .reported next }.report env
      ⟨taken, w.counters.longestCallbackNs⟩
  | .reported (.period now) =>
    { w with
      nextReport := now + REPORT_PERIOD
      stage := .receiving (w.now + REPORT_PERIOD) }
  | .reported (.flush i) => { w with acked := w.acked ++ [i], stage := .looking }
  | .reported .return => { w with stage := .ended }
  | .ended => w

/-- One `try_send`: a line is dropped where the queue is full, the others try again. -/
def send (msg : WriterMsg) (w : LogThread) : LogThread :=
  if w.hungUp then w
  else if w.queue.length < QUEUE_CAPACITY then
    { w with
      queue := w.queue ++ [msg]
      sent := w.sent ++ [⟨msg, w.bumped, w.recorded⟩] }
  else
    match msg with
    | .line _ => { w with dropped := w.dropped + 1, owed := w.owed + 1 }
    | _ => w

def bump (counter : Counter) (w : LogThread) : LogThread :=
  { w with
    counters := w.counters.bump counter
    bumped := Function.update w.bumped counter (w.bumped counter + 1) }

def step (w : LogThread) : LogAct → LogThread
  | .pass elapsed => { w with now := w.now + elapsed }
  | .send msg => w.send msg
  | .countDropped =>
    if 0 < w.owed then { w with owed := w.owed - 1 }.bump .logLinesDropped else w
  -- Only senders of lines count dropped lines.
  | .bump counter => if counter = .logLinesDropped then w else w.bump counter
  | .record took =>
    { w with
      counters := w.counters.recordCallback took
      recorded := w.recorded ++ [Counters.nanos took] }
  | .hangUp => { w with hungUp := true }
  | .work env => w.work env
  | .timeout =>
    match w.stage with
    | .receiving deadline => if deadline ≤ w.now then { w with stage := .looking } else w
    | _ => w

end LogThread

/-! ## What the writer has said -/

def WriterMsg.line? : WriterMsg → Option LogLine
  | .line text => some text
  | _ => none

/-- The lines among the messages accepted. -/
def linesOf (messages : List Accepted) : List LogLine :=
  messages.filterMap fun message => message.msg.line?

namespace Entry

def queued? (entry : Entry) : Option LogLine :=
  match entry.origin with
  | .queued => some entry.line
  | _ => none

/-- The line that goes into the files too: all but what is said of the files themselves. -/
def filed? (entry : Entry) : Option LogLine :=
  match entry.origin with
  | .notice _ => none
  | _ => some entry.line

/-- What the entry reports of a counter. -/
def count (counter : Counter) (entry : Entry) : Nat :=
  match entry.origin with
  | .report snapshot => (snapshot.counts counter).toNat
  | _ => 0

end Entry

namespace Then

def flush? : Then → Option Nat
  | .flush i => some i
  | _ => none

/-- Whether the writer returns then. -/
def returns : Then → Bool
  | .return => true
  | _ => false

end Then

namespace WriterStage

/-- The flush that the writer answers next. -/
def flush? : WriterStage → Option Nat
  | taking _ _ next | reported next => next.flush?
  | _ => none

/-- What the writer has taken of a counter and not yet reported. -/
def inHand (counter : Counter) : WriterStage → Nat
  | taking _ taken _ => (taken counter).toNat
  | _ => 0

/-- The counters that the writer takes next. -/
def left : WriterStage → List Counter
  | taking rest _ _ => rest
  | _ => []

/-- Whether the writer ends, or makes its last report. -/
def ending : WriterStage → Bool
  | taking _ _ next | reported next => next.returns
  | ended => true
  | _ => false

/-- Whether the writer has made a report and acts on it. -/
def told : WriterStage → Bool
  | reported _ => true
  | _ => false

/-- Whether the writer is not at a report. -/
def calm : WriterStage → Bool
  | taking .. => false
  | reported next => next.flush?.isNone
  | _ => true

variable {stage : WriterStage}

theorem flush_of_calm (h : stage.calm = true) : stage.flush? = none := by
  cases stage with
  | taking => exact nomatch h
  | reported next => exact Option.isNone_iff_eq_none.mp h
  | _ => rfl

theorem inHand_of_calm (h : stage.calm = true) (counter : Counter) : stage.inHand counter = 0 := by
  cases stage with
  | taking => exact nomatch h
  | _ => rfl

theorem left_of_calm (h : stage.calm = true) : stage.left = [] := by
  cases stage with
  | taking => exact nomatch h
  | _ => rfl

end WriterStage

namespace LogThread

variable {w w' : LogThread}

/-- The lines of the queue that the writer wrote. -/
def written (w : LogThread) : List LogLine := w.console.filterMap Entry.queued?

/-- The lines written since the files were attached, the reports among them. -/
def filed (w : LogThread) : List LogLine :=
  (w.console.drop w.attached.2).filterMap Entry.filed?

/-- What the reports say of a counter, together. -/
def reported (w : LogThread) (counter : Counter) : Nat := (w.console.map (Entry.count counter)).sum

/-- A line written goes to the console, and notices of the files after it. -/
theorem write_frame (env : WriteEnv) (entry : Entry) (w : LogThread) :
    ∃ notices files, w.write env entry =
        { w with console := w.console ++ entry :: notices, files := files } ∧
      ∀ notice ∈ notices, ∃ told, notice.origin = .notice told := by
  unfold write
  split
  · exact ⟨[], w.files, rfl, fun _ h => absurd h List.not_mem_nil⟩
  · next path files hfiles =>
    refine ⟨_, _, rfl, fun notice h => ?_⟩
    obtain ⟨told, -, rfl⟩ := List.mem_map.mp h
    exact ⟨told, rfl⟩

theorem silent_notices {notices : List Entry}
    (h : ∀ notice ∈ notices, ∃ told, notice.origin = .notice told) :
    notices.filterMap Entry.queued? = [] ∧ notices.filterMap Entry.filed? = [] ∧
      ∀ counter, (notices.map (Entry.count counter)).sum = 0 := by
  induction notices with
  | nil => exact ⟨rfl, rfl, fun _ => rfl⟩
  | cons notice notices ih =>
    obtain ⟨told, horigin⟩ := h notice (List.mem_cons_self ..)
    obtain ⟨hlines, hfiled, hcounts⟩ :=
      ih fun other hother => h other (List.mem_cons_of_mem _ hother)
    have hline : notice.queued? = none := by
      unfold Entry.queued?
      rw [horigin]
    have hnone : notice.filed? = none := by
      unfold Entry.filed?
      rw [horigin]
    have hcount : ∀ counter, notice.count counter = 0 := by
      intro counter
      unfold Entry.count
      rw [horigin]
    refine ⟨by rw [List.filterMap_cons_none hline, hlines],
      by rw [List.filterMap_cons_none hnone, hfiled], fun counter => ?_⟩
    rw [List.map_cons, List.sum_cons, hcount, hcounts]

/-- What a line does to the files, once there are any. -/
inductive Put (line : LogLine) :
    Option (List Char × Writer) → Option (List Char × Writer) → Prop
  | unattached : Put line none none
  | attached (path : List Char) (files : Writer) (again : Text) (fs noticeFs : FileCalls) :
    Put line (some (path, files))
      (some (path, (files.writeFiles MAX_FILE_BYTES again fs noticeFs (utf8 line.fileText)).1))

theorem write_put (env : WriteEnv) (entry : Entry) (w : LogThread) :
    Put entry.line w.files (w.write env entry).files := by
  unfold write
  split
  · next hfiles =>
    show Put entry.line w.files w.files
    rw [hfiles]
    exact .unattached
  · next path files hfiles =>
    rw [hfiles]
    exact .attached path files _ _ _

/-- Only the console and the files change. -/
structure OnlyWrites (w w' : LogThread) : Prop where
  queue : w'.queue = w.queue
  sent : w'.sent = w.sent
  counters : w'.counters = w.counters
  bumped : w'.bumped = w.bumped
  recorded : w'.recorded = w.recorded
  dropped : w'.dropped = w.dropped
  owed : w'.owed = w.owed
  stage : w'.stage = w.stage
  acked : w'.acked = w.acked
  attached : w'.attached = w.attached
  hungUp : w'.hungUp = w.hungUp

/-- What a line written adds to what the writer has said. -/
structure Wrote (entry : Entry) (w w' : LogThread) : Prop where
  rest : OnlyWrites w w'
  console : w.console <+: w'.console
  written : w'.written = w.written ++ entry.queued?.toList
  filed : w.attached.2 ≤ w.console.length → w'.filed = w.filed ++ entry.filed?.toList
  put : Put entry.line w.files w'.files
  reported : ∀ counter, w'.reported counter = w.reported counter + entry.count counter
  self : entry ∈ w'.console

theorem write_wrote (env : WriteEnv) (entry : Entry) (w : LogThread) :
    Wrote entry w (w.write env entry) := by
  obtain ⟨notices, files, hwrite, hnotices⟩ := write_frame env entry w
  obtain ⟨hlines, hfiled, hcounts⟩ := silent_notices hnotices
  have hput := write_put env entry w
  rw [hwrite] at hput ⊢
  refine ⟨⟨rfl, rfl, rfl, rfl, rfl, rfl, rfl, rfl, rfl, rfl, rfl⟩, List.prefix_append _ _, ?_,
    fun hattached => ?_, hput, fun counter => ?_, ?_⟩
  · unfold written
    rw [List.filterMap_append, List.filterMap_cons, hlines]
    cases entry.queued? <;> rfl
  · unfold filed
    rw [List.drop_append_of_le_length hattached, List.filterMap_append, List.filterMap_cons, hfiled]
    cases entry.filed? <;> rfl
  · unfold reported
    rw [List.map_append, List.sum_append, List.map_cons, List.sum_cons, hcounts, Nat.add_zero]
  · exact List.mem_append_right _ (List.mem_cons_self ..)

/-- At most a line more, on the console and in the files. -/
def Fed (w w' : LogThread) : Prop :=
  (w'.filed = w.filed ∧ w'.files = w.files) ∨
    ∃ line, (w.attached.2 ≤ w.console.length → w'.filed = w.filed ++ [line]) ∧
      Put line w.files w'.files

/-- What a report adds. -/
structure Told (snapshot : Snapshot) (w w' : LogThread) : Prop where
  rest : OnlyWrites w w'
  console : w.console <+: w'.console
  written : w'.written = w.written
  fed : Fed w w'
  reported : ∀ counter,
    w'.reported counter = w.reported counter + (snapshot.counts counter).toNat
  slow : snapshot.slow = true → ∃ entry ∈ w'.console, entry.origin = .report snapshot

theorem report_told (env : WriteEnv) (snapshot : Snapshot) (w : LogThread) :
    Told snapshot w (w.report env snapshot) := by
  unfold report
  split
  · next hnone =>
    obtain ⟨hzero, hquick⟩ := Snapshot.summary_eq_none.mp hnone
    refine ⟨⟨rfl, rfl, rfl, rfl, rfl, rfl, rfl, rfl, rfl, rfl, rfl⟩, List.prefix_rfl, rfl,
      .inl ⟨rfl, rfl⟩, fun counter => ?_, fun hslow => absurd hslow (by simp [hquick])⟩
    rw [hzero counter]
    rfl
  · next report _ =>
    have hwrote := write_wrote env ⟨writerLine env (if report.warns then .warn else .info)
      report.text.toList, .report snapshot⟩ w
    exact ⟨hwrote.rest, hwrote.console, hwrote.written.trans (List.append_nil _),
      .inr ⟨_, hwrote.filed, hwrote.put⟩, hwrote.reported, fun _ => ⟨_, hwrote.self, rfl⟩⟩

/-! ## What a step can do -/

/-- A step at which nothing is queued, written or counted, and no report goes on. -/
structure Idle (w w' : LogThread) : Prop where
  queue : w'.queue = w.queue
  sent : w'.sent = w.sent
  console : w'.console = w.console
  files : w'.files = w.files
  attached : w'.attached = w.attached
  counters : w'.counters = w.counters
  bumped : w'.bumped = w.bumped
  recorded : w'.recorded = w.recorded
  dropped : w'.dropped = w.dropped
  owed : w'.owed = w.owed
  acked : w'.acked = w.acked
  stage : w'.stage = w.stage ∨ w.stage.calm = true ∧ w'.stage.calm = true

inductive Stepped (w : LogThread) : LogThread → Prop
  | idle {w' : LogThread} (h : Idle w w') : Stepped w w'
  | sent (msg : WriterMsg) :
    Stepped w
      { w with
        queue := w.queue ++ [msg]
        sent := w.sent ++ [⟨msg, w.bumped, w.recorded⟩] }
  | dropped : Stepped w { w with dropped := w.dropped + 1, owed := w.owed + 1 }
  | counted (howed : 0 < w.owed) :
    Stepped w ({ w with owed := w.owed - 1 }.bump .logLinesDropped)
  | bumped (counter : Counter) (h : counter ≠ .logLinesDropped) : Stepped w (w.bump counter)
  | recorded (took : Duration) :
    Stepped w
      { w with
        counters := w.counters.recordCallback took
        recorded := w.recorded ++ [Counters.nanos took] }
  | line {w' : LogThread} (text : LogLine) (queue : List WriterMsg)
    (hqueue : w.queue = .line text :: queue) (hcalm : w.stage.calm = true)
    (hwrote : Wrote ⟨text, .queued⟩ { w with queue := queue, stage := .looking } w') :
    Stepped w w'
  | attached (path : List Char) (folder : Folder) (queue : List WriterMsg)
    (hqueue : w.queue = .attach path folder :: queue) (hcalm : w.stage.calm = true) :
    Stepped w
      { w with
        queue := queue
        stage := .looking
        files := some (path, ⟨false, folder⟩)
        attached := (folder, w.console.length) }
  | flushed (queue : List WriterMsg) (hqueue : w.queue = .flush :: queue)
    (hcalm : w.stage.calm = true) :
    Stepped w ({ w with queue := queue }.startReport (.flush (w.sent.length - w.queue.length)))
  | began (next : Then) (hnext : next.flush? = none) (hcalm : w.stage.calm = true) :
    Stepped w (w.startReport next)
  | took (counter : Counter) (rest : List Counter) (taken : Counter → UInt64) (next : Then)
    (hstage : w.stage = .taking (counter :: rest) taken next) :
    Stepped w
      { w with
        counters := w.counters.takeCount counter
        stage := .taking rest (Function.update taken counter (w.counters.counts counter)) next }
  | told {w' : LogThread} (taken : Counter → UInt64) (next : Then)
    (hstage : w.stage = .taking [] taken next)
    (htold : Told ⟨taken, w.counters.longestCallbackNs⟩
      { w with counters := w.counters.takeLongest, stage := .reported next } w') :
    Stepped w w'
  | acked (i : Nat) (hstage : w.stage = .reported (.flush i)) :
    Stepped w { w with acked := w.acked ++ [i], stage := .looking }

theorem stepped_of_stage {stage : WriterStage} {nextReport : Instant} (hcalm : w.stage.calm = true)
    (hstage : stage.calm = true) : Stepped w { w with stage := stage, nextReport := nextReport } :=
  .idle ⟨rfl, rfl, rfl, rfl, rfl, rfl, rfl, rfl, rfl, rfl, rfl, .inr ⟨hcalm, hstage⟩⟩

theorem stepped_refl (w : LogThread) : Stepped w w :=
  .idle ⟨rfl, rfl, rfl, rfl, rfl, rfl, rfl, rfl, rfl, rfl, rfl, .inl rfl⟩

theorem receive_stepped (env : WriteEnv) (hcalm : w.stage.calm = true) :
    Stepped w (w.receive env) := by
  unfold receive
  split
  · next text queue hqueue => exact .line text queue hqueue hcalm (write_wrote env _ _)
  · next path folder queue hqueue => exact .attached path folder queue hqueue hcalm
  · next queue hqueue => exact .flushed queue hqueue hcalm
  · split
    · exact .began .return rfl hcalm
    · exact stepped_refl w

theorem work_stepped (env : WriteEnv) (w : LogThread) : Stepped w (w.work env) := by
  unfold work
  split
  · next hstage =>
    have hcalm : w.stage.calm = true := by rw [hstage]; rfl
    split
    · exact .began (.period w.now) rfl hcalm
    · exact stepped_of_stage hcalm rfl
  · next deadline hstage => exact receive_stepped env (by rw [hstage]; rfl)
  · next counter rest taken next hstage => exact .took counter rest taken next hstage
  · next taken next hstage => exact .told taken next hstage (report_told env _ _)
  · next now hstage => exact stepped_of_stage (by rw [hstage]; rfl) rfl
  · next i hstage => exact .acked i hstage
  · next hstage => exact stepped_of_stage (by rw [hstage]; rfl) rfl
  · exact stepped_refl w

theorem send_stepped (msg : WriterMsg) (w : LogThread) : Stepped w (w.send msg) := by
  unfold send
  split
  · exact stepped_refl w
  · split
    · exact .sent msg
    · cases msg with
      | line text => exact .dropped
      | attach path folder => exact stepped_refl w
      | flush => exact stepped_refl w

theorem step_stepped (w : LogThread) (act : LogAct) : Stepped w (w.step act) := by
  cases act with
  | pass elapsed => exact .idle ⟨rfl, rfl, rfl, rfl, rfl, rfl, rfl, rfl, rfl, rfl, rfl, .inl rfl⟩
  | send msg => exact send_stepped msg w
  | countDropped =>
    unfold step
    dsimp only
    split
    · next howed => exact .counted howed
    · exact stepped_refl w
  | bump counter =>
    unfold step
    dsimp only
    split
    · exact stepped_refl w
    · next hcounter => exact .bumped counter hcounter
  | record took => exact .recorded took
  | hangUp => exact .idle ⟨rfl, rfl, rfl, rfl, rfl, rfl, rfl, rfl, rfl, rfl, rfl, .inl rfl⟩
  | work env => exact work_stepped env w
  | timeout =>
    unfold step
    dsimp only
    split
    · next deadline hstage =>
      split
      · exact stepped_of_stage (by rw [hstage]; rfl) rfl
      · exact stepped_refl w
    · exact stepped_refl w

end LogThread

end KeySwitch.Logging
