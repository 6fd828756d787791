import KeySwitch.Data.Actions

/-!
# The macro runs of the action executor

A `Sequence` job becomes a run, which goes step after step until its next
`Delay` and yields; a `Paste` job is a run of one step, which the paste session
works. One paste tries at a time, the oldest first; while one waits, the jobs
fired after it are held, in order, and a `Paste` action fired meanwhile is
dropped.

What the executor cannot know is a world `W` of any type. A `Ctx` says how it
answers and how it changes: inside a runner call, inside a call of the paste
session, and before each read of the epoch or the clock (`drift`). The paste
session is a parameter too, with its state `S` and the state `A` of a paste
between its tries.

Jobs carry the number of their submission, and a log tells what became of each
and whether its epoch was live at each call made for it. The source keeps
neither; no function here reads them.
-/

namespace KeySwitch.Executor

open Data

/-! ## Jobs and runs -/

/-- How many slow actions wait for the executor before the next is dropped. -/
def QUEUE_CAPACITY : Nat := 32

/-- The window a macro's `Window(...)` steps act on; 0 is none. -/
abbrev TargetWindow := Int

/-- The latest `Instant`: seconds in 64 bits, and nanoseconds. -/
def INSTANT_MAX : Instant := (2 ^ 64 - 1) * 1000000000 + 999999999

/-- `Instant::checked_add`. -/
def checkedAdd (now : Instant) (after : Duration) : Option Instant :=
  if now + after ≤ INSTANT_MAX then some (now + after) else none

/-- One slow action, as the thread that fired it queued it. -/
structure Job where
  /-- The number of its submission. -/
  id : Nat
  action : BindAction
  target : TargetWindow
  /-- The epoch it fired in. -/
  epoch : Nat

/-- What a run walks. -/
inductive Body
  /-- A `Sequence`'s steps. -/
  | sequence (steps : List SequenceStep)
  /-- A `Paste` action: one step. -/
  | paste (spec : PasteSpec)

namespace Body

def isPaste : Body → Bool
  | sequence _ => false
  | paste _ => true

/-- The steps of the run, a `Paste` action's being its `Paste`. -/
def walked : Body → List SequenceStep
  | sequence steps => steps
  | paste spec => [.paste spec]

end Body

/-- When a run goes on. -/
inductive Resume
  /-- At the next poll: a run that has not started. -/
  | now
  /-- Once the clock reaches the deadline of its `Delay` or its paste's wait. -/
  | once (deadline : Instant)
  /-- Only by being cancelled: the deadline is past what `Instant` holds. -/
  | whenCancelled

namespace Resume

def deadline : Resume → Option Instant
  | once deadline => some deadline
  | _ => none

def isNow : Resume → Bool
  | now => true
  | _ => false

/-- After a `Delay`, whose deadline may be past what `Instant` holds. -/
def afterDelay : Option Instant → Resume
  | some deadline => once deadline
  | none => whenCancelled

theorem afterDelay_isNow (deadline : Option Instant) : (afterDelay deadline).isNow = false := by
  cases deadline <;> rfl

end Resume

structure Run (A : Type) where
  id : Nat
  body : Body
  /-- The index of the next step. -/
  next : Nat
  target : TargetWindow
  epoch : Nat
  resume : Resume
  /-- The state of the paste at the next step while it waits. -/
  attempt : Option A

/-- When the executor must poll again without a job or a wake. -/
inductive Next
  | idle
  | once (deadline : Instant)

/-- The runner calls of a `start` or a `poll`. -/
structure Calls where
  made : Nat
  panics : Nat
  droppedPastes : Nat

namespace Calls

def default : Calls := ⟨0, 0, 0⟩

/-- One more call, which may have panicked. -/
def call (c : Calls) (panicked : Bool) : Calls :=
  { c with made := c.made + 1, panics := c.panics + panicked.toNat }

end Calls

/-! ## The world -/

/-- What became of a try of a Paste: a `Done` leaves no state behind, a wait
keeps the state of the try. -/
inductive Tried (A : Type)
  | panicked
  | done
  | waitUntil (attempt : A) (deadline : Instant)

def Tried.isPanic {A : Type} : Tried A → Bool
  | panicked => true
  | _ => false

/-- The paste session: its state `S`, what it does to the world, and `none` where
a call panicked. `tick` and `restoreIfDue` answer whether they asked a port. -/
structure Session (W S A : Type) where
  attempt : S → Option A → PasteSpec → Nat → W → S × W × Tried A
  tick : S → Instant → W → S × W × Option Bool
  restoreIfDue : S → Instant → W → S × W × Option Bool
  giveUp : S → W → S × W
  restoreNow : S → W → S × W
  isPending : S → Bool
  next : S → Option Instant

/-- What the runs need from the executor for one `start` or `poll`. A runner call
answers whether it panicked. -/
structure Ctx (W S A : Type) where
  action : BindAction → W → W × Bool
  step : SequenceStep → TargetWindow → W → W × Bool
  session : Session W S A
  live : W → Nat → Bool
  now : W → Instant
  /-- What happens before the next read of the epoch or the clock. -/
  drift : W → W

/-! ## The log -/

/-- Why a job never began. -/
inductive Lost
  | epochEnded
  | secondPaste
  deriving DecidableEq

inductive Event
  /-- A plain action's runner call, or the first advance of a run. -/
  | began (job : Nat)
  | dropped (job : Nat) (why : Lost)
  /-- A runner action, a macro step or a paste try is begun; whether its job's
  epoch is live. -/
  | called (live : Bool)
  deriving DecidableEq

/-- The runs, oldest first, the held jobs, oldest first, and the paste session,
in their world. -/
structure Runs (W S A : Type) where
  active : List (Run A)
  held : List Job
  session : S
  world : W
  /-- The calls of every `start` and `poll` so far, added up. -/
  calls : Calls
  log : List Event

variable {W S A : Type}

namespace Runs

def new (session : S) (world : W) : Runs W S A := ⟨[], [], session, world, .default, []⟩

def record (r : Runs W S A) (event : Event) : Runs W S A := { r with log := r.log ++ [event] }

/-! ## Reads of the epoch and the clock -/

/-- Whether work fired in `epoch` may still run. -/
def isLive (ctx : Ctx W S A) (epoch : Nat) (r : Runs W S A) : Bool × Runs W S A :=
  let world := ctx.drift r.world
  (ctx.live world epoch, { r with world := world })

def readNow (ctx : Ctx W S A) (r : Runs W S A) : Instant × Runs W S A :=
  let world := ctx.drift r.world
  (ctx.now world, { r with world := world })

/-- A call for a job of `epoch` is begun. -/
def called (ctx : Ctx W S A) (epoch : Nat) (r : Runs W S A) : Runs W S A :=
  r.record (.called (ctx.live r.world epoch))

/-! ## Runner calls and paste tries -/

def runAction (ctx : Ctx W S A) (epoch : Nat) (action : BindAction) (r : Runs W S A) :
    Runs W S A :=
  let r := r.called ctx epoch
  let made := ctx.action action r.world
  { r with world := made.1, calls := r.calls.call made.2 }

/-- Runs one step of a macro; also whether it panicked. -/
def runStep (ctx : Ctx W S A) (epoch : Nat) (step : SequenceStep) (target : TargetWindow)
    (r : Runs W S A) : Bool × Runs W S A :=
  let r := r.called ctx epoch
  let made := ctx.step step target r.world
  (made.2, { r with world := made.1, calls := r.calls.call made.2 })

def tryPaste (ctx : Ctx W S A) (epoch : Nat) (attempt : Option A) (spec : PasteSpec)
    (r : Runs W S A) : Tried A × Runs W S A :=
  let r := r.called ctx epoch
  let made := ctx.session.attempt r.session attempt spec epoch r.world
  (made.2.2,
    { r with session := made.1, world := made.2.1, calls := r.calls.call made.2.2.isPanic })

/-! ## What waits -/

/-- Whether a `Paste` action waits or is held. -/
def pasteWaits (r : Runs W S A) : Bool :=
  r.active.any (fun run => run.body.isPaste) || r.held.any fun job => job.action.isPaste

/-- Whether the paste of a run waits between its tries. -/
def attemptWaits (r : Runs W S A) : Bool := r.active.any fun run => run.attempt.isSome

/-- Whether the executor may take another job from its queue. -/
def canTake (r : Runs W S A) : Bool := decide (r.held.length < QUEUE_CAPACITY)

/-- When the next poll is due. -/
def next (ctx : Ctx W S A) (r : Runs W S A) : Next :=
  match ((r.active.filterMap fun run => run.resume.deadline) ++
      (ctx.session.next r.session).toList).min? with
  | none => .idle
  | some deadline => .once deadline

/-! ## Starting a job -/

/-- Makes `job` a run, or runs it at once if it is no `Sequence` and no
`Paste`. -/
def begin (ctx : Ctx W S A) (job : Job) (r : Runs W S A) : Runs W S A :=
  let push := fun body => { r with
    active := r.active ++ [⟨job.id, body, 0, job.target, job.epoch, .now, none⟩] }
  match job.action with
  | .sequence steps => push (.sequence steps)
  | .paste spec => push (.paste spec)
  | action => (r.record (.began job.id)).runAction ctx job.epoch action

/-- Starts `job` unless its epoch is no longer live, or holds it while a paste
waits; a `Paste` fired while another one waits or is held is dropped and
counted. -/
def start (ctx : Ctx W S A) (job : Job) (r : Runs W S A) : Runs W S A :=
  let live := r.isLive ctx job.epoch
  let r := live.2
  if !live.1 then r.record (.dropped job.id .epochEnded)
  else if job.action.isPaste && r.pasteWaits then
    { r with calls := { r.calls with droppedPastes := r.calls.droppedPastes + 1 } }.record
      (.dropped job.id .secondPaste)
  else if r.attemptWaits then { r with held := r.held ++ [job] }
  else r.begin ctx job

end Runs

/-! ## Advancing a run -/

namespace Run

/-- The loop of `advance` over `steps`, the steps from `run.next` on: the run, if
it goes on later. At a Paste step it waits until `head`, the deadline of an
older run's paste, if there is one. -/
def walk (ctx : Ctx W S A) (head : Option Instant) :
    List SequenceStep → Run A → Runs W S A → Option (Run A) × Runs W S A
  | steps, run, r =>
    let live := r.isLive ctx run.epoch
    let r := live.2
    if !live.1 then (none, r)
    else
      match steps with
      | [] => (none, r)
      | .paste spec :: rest =>
        match head with
        | some deadline => (some { run with resume := .once deadline }, r)
        | none =>
          let made := r.tryPaste ctx run.epoch run.attempt spec
          match made.1 with
          | .panicked => (none, made.2)
          | .done => walk ctx head rest { run with next := run.next + 1, attempt := none } made.2
          | .waitUntil attempt deadline =>
            (some { run with attempt := some attempt, resume := .once deadline }, made.2)
      | .delay ms :: _ =>
        let now := r.readNow ctx
        let resume := Resume.afterDelay (checkedAdd now.1 (fromMillis ms))
        (some { run with next := run.next + 1, resume := resume }, now.2)
      | step :: rest =>
        let made := r.runStep ctx run.epoch step run.target
        if made.1 then (none, made.2)
        else walk ctx head rest { run with next := run.next + 1 } made.2

/-- Runs steps up to the next `Delay` or wait of a paste, or up to the run's end:
past its last step, its epoch no longer live, a step that panicked. -/
def advance (ctx : Ctx W S A) (head : Option Instant) (run : Run A) (r : Runs W S A) :
    Option (Run A) × Runs W S A :=
  run.walk ctx head (run.body.walked.drop run.next)
    (if run.resume.isNow then r.record (.began run.id) else r)

end Run

namespace Runs

/-- Whether the run goes on now. -/
def due (ctx : Ctx W S A) (run : Run A) (r : Runs W S A) : Bool × Runs W S A :=
  match run.resume with
  | .now => (true, r)
  | .once deadline =>
    let now := r.readNow ctx
    (decide (deadline ≤ now.1), now.2)
  | .whenCancelled => (false, r)

/-- The deadline of the oldest paste that waits. -/
def head (older : List (Run A)) : Option Instant :=
  older.findSome? fun run => if run.attempt.isSome then run.resume.deadline else none

/-- Advances each due run of `rest`, oldest first, and drops the runs that end;
`older` are the runs before them. -/
def advanceFrom (ctx : Ctx W S A) : List (Run A) → List (Run A) → Runs W S A → Runs W S A
  | older, [], r => { r with active := older }
  | older, run :: rest, r =>
    let due := r.due ctx run
    if due.1 then
      let advanced := run.advance ctx (head older) due.2
      match advanced.1 with
      | some run => advanceFrom ctx (older ++ [run]) rest advanced.2
      | none => advanceFrom ctx older rest advanced.2
    else advanceFrom ctx (older ++ [run]) rest due.2

/-- Makes `call`, a call of the paste session, if a restore waits, and counts it
only if it asked a port. A panic ends the session. -/
def sessionCall (ctx : Ctx W S A) (call : S → Instant → W → S × W × Option Bool)
    (r : Runs W S A) : Runs W S A :=
  if !ctx.session.isPending r.session then r
  else
    let now := r.readNow ctx
    let made := call now.2.session now.1 now.2.world
    match made.2.2 with
    | none =>
      let ended := ctx.session.giveUp made.1 made.2.1
      { now.2 with session := ended.1, world := ended.2, calls := now.2.calls.call true }
    | some asked =>
      { now.2 with
        session := made.1, world := made.2.1,
        calls := if asked then now.2.calls.call false else now.2.calls }

/-! ## A poll -/

/-- Drops every run that is no longer live; the ones that had not started are
lost. -/
def retainActive (ctx : Ctx W S A) : List (Run A) → Runs W S A → Runs W S A
  | [], r => { r with active := [] }
  | run :: rest, r =>
    let live := r.isLive ctx run.epoch
    if live.1 then
      let r := retainActive ctx rest live.2
      { r with active := run :: r.active }
    else
      retainActive ctx rest
        (if run.resume.isNow then live.2.record (.dropped run.id .epochEnded) else live.2)

/-- Drops every held job that is no longer live. -/
def retainHeld (ctx : Ctx W S A) : List Job → Runs W S A → Runs W S A
  | [], r => { r with held := [] }
  | job :: rest, r =>
    let live := r.isLive ctx job.epoch
    if live.1 then
      let r := retainHeld ctx rest live.2
      { r with held := job :: r.held }
    else retainHeld ctx rest (live.2.record (.dropped job.id .epochEnded))

/-- Starts the held jobs, oldest first, each advanced in this poll, until one
leaves its paste waiting. -/
def releaseHeld (ctx : Ctx W S A) : List Job → Runs W S A → Runs W S A
  | [], r => { r with held := [] }
  | job :: rest, r =>
    if r.attemptWaits then { r with held := job :: rest }
    else
      let first := r.active.length
      let r := { r with held := rest }.begin ctx job
      releaseHeld ctx rest (advanceFrom ctx (r.active.take first) (r.active.drop first) r)

/-- Drops the runs and held jobs that are no longer live, decides whether the
restore is due, advances each due run once, starts the held jobs once no paste
waits, and puts the clipboard back if that is due. -/
def poll (ctx : Ctx W S A) (r : Runs W S A) : Runs W S A :=
  let r := retainActive ctx r.active r
  let r := retainHeld ctx r.held r
  let r := r.sessionCall ctx ctx.session.tick
  let r := advanceFrom ctx [] r.active r
  let r := releaseHeld ctx r.held r
  r.sessionCall ctx ctx.session.restoreIfDue

/-- Drops every run that waits for a deadline, which nothing would wake without a
timer; a pending restore is tried at once. -/
def dropTimed (ctx : Ctx W S A) (r : Runs W S A) : Runs W S A :=
  let restored := ctx.session.restoreNow r.session r.world
  { r with
    active := r.active.filter fun run => run.resume.deadline.isNone
    session := restored.1
    world := restored.2 }

end Runs

end KeySwitch.Executor
