import KeySwitch.Executor.Loop
import KeySwitch.Executor.PasteSession
import KeySwitch.Lib.Mailbox

/-!
# The executor thread and the threads that submit to it

Every thread that fires a slow action calls `submit`: it reads the epoch, puts the job into
the queue and posts a wake. `cancel_pending` moves the epoch on and posts a wake, and `stop`
sets a flag before it does the same. The executor thread drains the queue, polls the runs
until a whole pass made no runner call, and waits for its timer and its messages at once.

`Act` is one atomic step of another thread, so that a call of `submit` is three of them with
anything in between. The executor's step is `Thread.go`. It reads what it shares with the
others many times, in the loop and inside `Runs`; at each read, and inside each runner call,
others may act (`Env`). A runner call may also take wakes out of the thread's message queue,
as a dialog that pumps messages does.
-/

namespace KeySwitch.Executor

open Data Lib

variable {V S A : Type}

/-! ## What the threads share -/

/-- A `submit` that has read the epoch and not called `try_send` yet. -/
structure Offer where
  action : BindAction
  target : TargetWindow
  epoch : Nat

/-- What the handles and the executor thread share, the channel and the thread's message
queue included, with the calls that are under way. -/
structure Shared where
  mail : Mailbox Job
  /-- Whether the executor thread still has its end of the channel. -/
  receiving : Bool
  /-- How often the epoch was moved on; the atomic holds it in 64 bits. -/
  moves : Nat
  stopping : Bool
  activeRuns : Nat
  offers : List Offer
  /-- Calls of `stop` that have set the flag and not moved the epoch yet. -/
  stops : Nat
  /-- The jobs queued so far, in order; the source keeps no such list. -/
  queued : List Job
  /-- The counters `executor_jobs_dropped`, `executor_unavailable` and `paste_dropped`. -/
  jobsDropped : Nat
  unavailable : Nat
  pasteDropped : Nat

/-- One atomic step of a thread that is not the executor's. -/
inductive Act
  /-- `submit` reads the epoch. -/
  | submit (action : BindAction) (target : TargetWindow)
  /-- The `i`-th of the submits under way calls `try_send`. -/
  | trySend (i : Nat)
  /-- A wake is posted that a call owes. -/
  | wake (accepted : Bool)
  | cancelPending
  /-- `stop` sets the flag. -/
  | stop
  /-- A `stop` that has set the flag calls `cancel_pending`. -/
  | stopCancels

namespace Shared

/-- At the start, with a queue of at least one job. -/
def new (capacity : Nat) : Shared :=
  ⟨.new (max capacity 1), true, 0, false, 0, [], 0, [], 0, 0, 0⟩

/-- The epoch as the atomic holds it. -/
def epoch (s : Shared) : Nat := s.moves % 2 ^ 64

/-- Whether work fired in `epoch` may still run. -/
def live (s : Shared) (epoch : Nat) : Bool := !s.stopping && s.epoch == epoch

/-- `cancel_pending` up to its wake. -/
def cancelPending (s : Shared) : Shared :=
  { s with moves := s.moves + 1, mail := s.mail.publish }

/-- The `try_send` of a submit, with what the submit does with its answer. -/
def trySend (s : Shared) (offer : Offer) : Shared :=
  if !s.receiving then
    if s.stopping then s else { s with unavailable := s.unavailable + 1 }
  else
    let job : Job := ⟨s.queued.length, offer.action, offer.target, offer.epoch⟩
    match s.mail.trySend job with
    | some mail => { s with mail := mail, queued := s.queued ++ [job] }
    | none => { s with jobsDropped := s.jobsDropped + 1 }

def act (s : Shared) : Act → Shared
  | .submit action target => { s with offers := s.offers ++ [⟨action, target, s.epoch⟩] }
  | .trySend i =>
    match s.offers[i]? with
    | none => s
    | some offer => { s with offers := s.offers.eraseIdx i }.trySend offer
  | .wake accepted => { s with mail := s.mail.post accepted }
  | .cancelPending => s.cancelPending
  | .stop => { s with stopping := true, stops := s.stops + 1 }
  | .stopCancels => if s.stops = 0 then s else { s with stops := s.stops - 1 }.cancelPending

/-- The executor's `PeekMessageW` takes `n` wakes. -/
def takeWakes (s : Shared) (n : Nat) : Shared := { s with mail := s.mail.takePosts n }

end Shared

/-- What the other threads may have done between `s` and `s'`. -/
def Moves (s s' : Shared) : Prop := ∃ acts : List Act, s' = acts.foldl Shared.act s

/-- As `Moves`, while this thread's messages were pumped. -/
inductive Pumps (s : Shared) : Shared → Prop
  | refl : Pumps s s
  | act {s' : Shared} (h : Pumps s s') (act : Act) : Pumps s (s'.act act)
  | take {s' : Shared} (h : Pumps s s') (taken : Nat) : Pumps s (s'.takeWakes taken)

/-! ## The rest of the world -/

/-- What the threads share, and everything else. -/
structure World (V : Type) where
  shared : Shared
  rest : V

/-- What the executor thread asks and calls. Between two of its reads other threads act. A
call that the loop counts as a runner call may pump messages; no other one does. -/
structure Env (V S A : Type) where
  action : BindAction → World V → World V × Bool
  step : SequenceStep → TargetWindow → World V → World V × Bool
  session : Session (World V) S A
  close : S → Instant → Instant → World V → S × World V × Closing
  abandon : S → World V → S × World V
  now : World V → Instant
  drift : World V → World V
  drift_moves : ∀ w, Moves w.shared (drift w).shared
  action_pumps : ∀ a w, Pumps w.shared (action a w).1.shared
  step_pumps : ∀ s t w, Pumps w.shared (step s t w).1.shared
  attempt_pumps : ∀ s a p e w, Pumps w.shared (session.attempt s a p e w).2.1.shared
  tick_pumps : ∀ s now w, Pumps w.shared (session.tick s now w).2.1.shared
  restoreIfDue_pumps : ∀ s now w, Pumps w.shared (session.restoreIfDue s now w).2.1.shared
  giveUp_pumps : ∀ s w, Pumps w.shared (session.giveUp s w).2.shared
  /-- A call of the session that asked no port pumps nothing. -/
  tick_moves : ∀ s now w, (session.tick s now w).2.2 = some false →
    Moves w.shared (session.tick s now w).2.1.shared
  restoreIfDue_moves : ∀ s now w, (session.restoreIfDue s now w).2.2 = some false →
    Moves w.shared (session.restoreIfDue s now w).2.1.shared
  /-- The clipboard calls of a restore take no posted message. -/
  restoreNow_moves : ∀ s w, Moves w.shared (session.restoreNow s w).2.shared
  close_pumps : ∀ s now u w, Pumps w.shared (close s now u w).2.1.shared
  abandon_pumps : ∀ s w, Pumps w.shared (abandon s w).2.shared

/-- What the runs need from the executor. -/
def Env.ctx (env : Env V S A) : Ctx (World V) S A where
  action := env.action
  step := env.step
  session := env.session
  live w epoch := w.shared.live epoch
  now := env.now
  drift := env.drift

/-! ## The executor thread -/

/-- Why the loop ended. -/
inductive End
  /-- A stop was asked for. -/
  | stopped
  /-- It ended on its own. -/
  | died
  deriving DecidableEq

/-- The loop's way out: a paste's restore is tried until `limit` first. -/
structure Ending where
  limit : Instant
  why : End

/-- How long a restore is tried as the executor ends. -/
def CLOSING_LIMIT : Duration := fromMillis 250

/-- Where the thread is. -/
inductive Place
  /-- In a pass that began when `base` runner calls had been made. -/
  | drain (base : Nat)
  /-- After a pass that made no call, before the timer is set. `drained` says whether the
  pass ended at an empty queue, and not at as many held jobs as a queue holds. -/
  | arm (next : Next) (drained : Bool)
  | waiting (drained : Bool)
  /-- In the closing mode, before the next try. -/
  | closing
  /-- After the loop; a thread that died counts the jobs still queued. -/
  | counting (why : End)
  /-- The thread has dropped its end of the channel. -/
  | gone

structure Thread (V S A : Type) where
  loop : Loop (World V) S A
  place : Place
  ending : Option Ending
  /-- The deadline the timer is set for. -/
  armed : Option Instant

/-- What ended a wait. -/
inductive Woke
  | timer
  | failed
  /-- A message; the pump takes `taken` wakes, and may meet a `WM_QUIT`. -/
  | message (taken : Nat) (quit : Bool)

/-- What Windows answers the thread in one step. -/
structure Answer where
  /-- Whether the timer could be set. -/
  set : Bool
  woke : Woke
  /-- The loop panics. -/
  panics : Bool

namespace Thread

def shared (t : Thread V S A) : Shared := t.loop.runs.world.shared

/-- `t` with what is shared changed. -/
def withShared (f : Shared → Shared) (t : Thread V S A) : Thread V S A :=
  { t with loop := { t.loop with runs := { t.loop.runs with
      world := { t.loop.runs.world with shared := f t.loop.runs.world.shared } } } }

/-- Others act before the next read. -/
def drifted (env : Env V S A) (t : Thread V S A) : Thread V S A :=
  { t with loop := { t.loop with runs := { t.loop.runs with
      world := env.drift t.loop.runs.world } } }

def new (capacity : Nat) (session : S) (rest : V) : Thread V S A :=
  ⟨.new session ⟨.new capacity, rest⟩, .drain 0, none, none⟩

/-- `Ending::new`, which reads the clock. -/
def endLoop (env : Env V S A) (why : End) (t : Thread V S A) : Thread V S A :=
  let t := t.drifted env
  { t with ending := some ⟨env.now t.loop.runs.world + CLOSING_LIMIT, why⟩, place := .closing }

/-- The thread leaves its loop: the paste session gets its last try, and no run is left. -/
def leave (env : Env V S A) (why : End) (t : Thread V S A) : Thread V S A :=
  let made := env.abandon t.loop.runs.session t.loop.runs.world
  let t := { t with loop := { t.loop with runs := { t.loop.runs with
    session := made.1, world := made.2 } } }
  { t.withShared fun s => { s with activeRuns := 0 } with place := .counting why }

/-- The next pass of the loop. -/
def pass (t : Thread V S A) : Thread V S A :=
  match t.ending with
  | some _ => { t with place := .closing }
  | none => { t.withShared fun s => { s with mail := s.mail.look } with
      place := .drain t.loop.runs.calls.made }

/-- The end of a pass: the last poll, with its report and the count of the runs. -/
def lastPoll (env : Env V S A) (base : Nat) (drained : Bool) (t : Thread V S A) :
    Thread V S A :=
  let t := { t with loop := t.loop.poll env.ctx }
  let t := t.withShared fun s => { s with
    pasteDropped := t.loop.runs.calls.droppedPastes, activeRuns := t.loop.runs.active.length }
  let t := t.drifted env
  if t.shared.stopping then t.endLoop env .stopped
  else if t.loop.runs.calls.made = base then
    { t with place := .arm (t.loop.runs.next env.ctx) drained }
  else t.pass

/-- One round of the loop over the queue: a job with its poll, or the end of the pass. -/
def drain (env : Env V S A) (base : Nat) (t : Thread V S A) : Thread V S A :=
  let t := t.drifted env
  if t.shared.stopping then t.endLoop env .stopped
  else if !t.loop.runs.canTake then t.lastPoll env base false
  else
    let t := t.drifted env
    match t.shared.mail.receive with
    | none => t.lastPoll env base true
    | some (job, mail) =>
      let t := t.withShared fun s => { s with mail := mail }
      { t with loop := (t.loop.start env.ctx job.action job.target job.epoch).poll env.ctx }

/-- `DelayTimer::arm` with what the loop does next. -/
def arm (env : Env V S A) (next : Next) (drained set : Bool) (t : Thread V S A) :
    Thread V S A :=
  let t := t.drifted env
  match next with
  | .idle => { t with armed := none, place := .waiting drained }
  | .once deadline =>
    if deadline ≤ env.now t.loop.runs.world then { t with armed := none }.pass
    else if t.armed = some deadline then { t with place := .waiting drained }
    else if set then { t with armed := some deadline, place := .waiting drained }
    else
      match t.ending with
      | some ending => { t with armed := none }.leave env ending.why
      | none =>
        let t := { t with
          loop := { t.loop with runs := t.loop.runs.dropTimed env.ctx }, armed := none }
        { t.withShared (fun s => { s with activeRuns := t.loop.runs.active.length }) with
          place := .waiting drained }

/-- The wait, and the pump after a message. -/
def wake (env : Env V S A) (woke : Woke) (t : Thread V S A) : Thread V S A :=
  match woke with
  | .timer => { t with armed := none }.pass
  | .failed => t.leave env .died
  | .message taken quit =>
    let t := (t.drifted env).withShared fun s => s.takeWakes taken
    if quit && t.ending.isNone then t.endLoop env .died else t.pass

/-- One try of the closing mode. -/
def close (env : Env V S A) (ending : Ending) (t : Thread V S A) : Thread V S A :=
  let t := t.drifted env
  let made := env.close t.loop.runs.session (env.now t.loop.runs.world) ending.limit
    t.loop.runs.world
  let t := { t with loop := { t.loop with runs := { t.loop.runs with
    session := made.1, world := made.2.1 } } }
  match made.2.2 with
  | .done => t.leave env ending.why
  | .retryAt deadline => { t with place := .arm (.once deadline) false }

/-- The epilogue: a thread that died counts the jobs still queued, one at a time, and then
the channel goes. -/
def count (env : Env V S A) (why : End) (t : Thread V S A) : Thread V S A :=
  let t := t.drifted env
  let last := t.withShared fun s => { s with receiving := false }
  match why with
  | .stopped => { last with place := .gone }
  | .died =>
    match t.shared.mail.receive with
    | none => { (t.drifted env).withShared (fun s => { s with receiving := false }) with
        place := .gone }
    | some (_, mail) => t.withShared fun s =>
        { s with mail := mail, unavailable := s.unavailable + 1 }

/-- The executor thread goes on. -/
def go (env : Env V S A) (answer : Answer) (t : Thread V S A) : Thread V S A :=
  if answer.panics then
    match t.place with
    | .counting _ => t
    | .gone => t
    | _ => t.leave env .died
  else
    match t.place with
    | .drain base => t.drain env base
    | .arm next drained => t.arm env next drained answer.set
    | .waiting _ => t.wake env answer.woke
    | .closing =>
      match t.ending with
      | some ending => t.close env ending
      | none => t
    | .counting why => t.count env why
    | .gone => t

end Thread

/-- One atomic step of another thread, or a step of the executor's. -/
inductive Happening
  | other (act : Act)
  | go (answer : Answer)

/-- The executor thread among the others, in any interleaving. -/
def system (env : Env V S A) : Machine (Thread V S A) Happening Unit where
  step t happening :=
    match happening with
    | .other act => (t.withShared fun s => s.act act, ())
    | .go answer => (t.go env answer, ())
  enabled _ _ := True

end KeySwitch.Executor
