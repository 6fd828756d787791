import KeySwitch.Engine.Holds

/-!
# The main thread's gesture timers

The daemon's main thread keeps the engine's timers in a queue and wakes for the
earliest with one waitable timer. A hook callback starts the timers of its
decision and moves the wake forward where one is due before it
(`GestureTimers.start`); between two waits the loop drops the stale timers and
sets the wake for the earliest one left (`GestureTimers.planWake`).

Windows may refuse any set and any cancel. What the timer is set for after a
refused set is unknown, so it may then signal at any time; a timer that was set
signals at the end of the time it was set for, or later. The deadline a set is
for is kept beside it: Windows knows only the time to wait, in units of 100 ns,
rounded up and cut to `LONGEST`.
-/

namespace KeySwitch.Hook.MainThread

open Data Lib Engine

variable {α : Type}

/-! ## The waitable timer -/

/-- The longest a timer is set for at once, about 24.8 days. -/
def LONGEST : Duration := fromMillis 0x7FFFFFFF

/-- `after` as the time `SetWaitableTimer` takes: negative, which means relative
to now, in units of 100 ns, rounded up, at least one and at most `LONGEST`. -/
def dueTime (after : Duration) : Int := -(max ((min after LONGEST + 99) / 100) 1 : Nat)

/-- What a waitable timer is set for. -/
inductive WaitableTimer
  /-- Nothing: it is new, was cancelled, or has signalled. -/
  | idle
  /-- The last set succeeded, for `deadline`, and it has not signalled since; it
  does at `due` at the earliest. -/
  | set (deadline due : Instant)
  /-- The last set failed. -/
  | unknown

/-- How one call to `SetWaitableTimer` goes: what the clock read before it, when
it takes effect, whether it succeeds. -/
structure SetAnswer where
  now : Instant
  since : Instant
  ok : Bool

namespace WaitableTimer

/-- Sets the timer to signal once `after` has passed, for `deadline`; also
whether that succeeded. -/
def setAfter (deadline : Instant) (after : Duration) (answer : SetAnswer) : WaitableTimer × Bool :=
  if answer.ok then (.set deadline (answer.since + 100 * (dueTime after).natAbs), true)
  else (.unknown, false)

/-- Stops the timer, unless that fails. -/
def cancel (timer : WaitableTimer) (ok : Bool) : WaitableTimer := if ok then .idle else timer

/-- Whether the timer may signal at `now`. -/
def maySignal (timer : WaitableTimer) (now : Instant) : Prop :=
  match timer with
  | idle => False
  | set _ due => due ≤ now
  | unknown => True

/-- The timer once it has signalled. -/
def signalled : WaitableTimer → WaitableTimer
  | unknown => unknown
  | _ => idle

end WaitableTimer

/-! ## The queue and its wake -/

/-- The queue of every timer the engine asked for, and one waitable timer set for
the earliest. -/
structure GestureTimers where
  queue : TimerQueue
  wake : WaitableTimer
  /-- The due time the waitable timer is set for, until it signals or is
  cancelled. -/
  armed : Option Instant

/-- What `planWake` did. -/
inductive Wake
  /-- The wake is set for the earliest timer, or no timer is queued. -/
  | wait
  /-- The earliest timer is due. -/
  | due
  /-- The waitable timer could not be set: every queued timer was forgotten, and
  `dropped` Holds with them. -/
  | failed (dropped : Nat)
  deriving DecidableEq

/-- What to do with the gesture timer. -/
inductive Plan
  | cancel
  | due
  | keep
  | arm (after : Duration) (deadline : Instant)

/-- The plan for a timer set for `armed` when the earliest queued deadline is
`next`. -/
def plan (armed next : Option Instant) (now : Instant) : Plan :=
  match next with
  | none => .cancel
  | some deadline =>
    if deadline ≤ now then .due
    else if armed = some deadline then .keep
    else .arm (deadline - now) deadline

namespace GestureTimers

def new : GestureTimers := ⟨.new, .idle, none⟩

/-- The wait took the timer's signal. -/
def fired (g : GestureTimers) : GestureTimers := { g with armed := none }

/-- Cancels the wake if one is set. -/
def cancel (g : GestureTimers) (ok : Bool) : GestureTimers :=
  if g.armed.isSome then { g with armed := none, wake := g.wake.cancel ok } else g

def retain (live : TimerToken → Bool) (g : GestureTimers) : GestureTimers :=
  { g with queue := g.queue.retain live }

/-- Queues `request` and, if it is due before the deadline the wake is set for,
sets the wake for it; `false`, with `request` taken out again, if that fails. -/
def start (answer : TimerRequest → SetAnswer) (g : GestureTimers) (request : TimerRequest) :
    GestureTimers × Bool :=
  let g := { g with queue := (g.queue.start request).1 }
  if g.armed.all fun armed => decide (request.due < armed) then
    let after := request.due - (answer request).now
    let done := WaitableTimer.setAfter request.due after (answer request)
    if done.2 then ({ g with wake := done.1, armed := some request.due }, true)
    else
      -- A failed set leaves the timer set for no deadline the loop can name.
      ({ queue := g.queue.retain fun queued => queued != request.token
         wake := done.1
         armed := none }, false)
  else (g, true)

/-- The gesture timers as the engine's scheduler, as Windows answers the sets. -/
def scheduler (answer : TimerRequest → SetAnswer) : Scheduler GestureTimers :=
  ⟨start answer, retain⟩

/-- Forgets `token`; the second part counts the Holds dropped so far. -/
def forgetOne (acc : Engine α × Nat) (token : TimerToken) : Engine α × Nat :=
  let forgotten := acc.1.forgetTimer token
  (forgotten.1, if forgotten.2 then acc.2 + 1 else acc.2)

/-- Forgets each of `tokens`; also how many Holds were dropped. -/
def forgetAll (e : Engine α) (tokens : List TimerToken) : Engine α × Nat :=
  tokens.foldl forgetOne (e, 0)

/-- Step 2 of the loop: drops the timers no entry waits for and sets the wake
for the earliest one left; if that fails, every queued timer is forgotten. -/
def planWake (g : GestureTimers) (e : Engine α) (now : Instant) (answer : SetAnswer)
    (cancelled : Bool) : (GestureTimers × Engine α) × Wake :=
  let g := g.retain e.isLive
  match plan g.armed g.queue.nextDue now with
  | .cancel => ((g.cancel cancelled, e), .wait)
  | .due => ((g, e), .due)
  | .keep => ((g, e), .wait)
  | .arm after deadline =>
    let done := WaitableTimer.setAfter deadline after answer
    if done.2 then (({ g with wake := done.1, armed := some deadline }, e), .wait)
    else
      let forgotten := forgetAll e (g.queue.pending.map TimerRequest.token)
      (({ queue := .new, wake := done.1, armed := none }, forgotten.1), .failed forgotten.2)

end GestureTimers

/-! ## The main state -/

/-- What the main thread owns: the engine and its gesture timers; with the last
time anything read the clock. -/
structure MainState (α : Type) where
  engine : Engine α
  timers : GestureTimers
  clock : Instant

/-- What runs on the main thread, or happens to its timer. -/
inductive Happening (α : Type)
  /-- A hook callback decides a key event and starts its timers. -/
  | event (event : KeyEvent) (bindings : List (Binding α)) (env : Env)
      (answer : TimerRequest → SetAnswer)
  /-- A hook callback sees one of the daemon's own injected events. -/
  | trackInjected (event : KeyEvent)
  | foregroundChanged
  | inputReturned
  | resyncIfDue (env : Env) (notes : Nat)
  /-- A request or an input signal resets the engine. -/
  | resetEngine (env : Env) (reason : ResetReason)
  /-- The drain takes a timer that is due. -/
  | takeDueTimer (now : Instant)
  | planWake (now : Instant) (answer : SetAnswer) (cancelled : Bool)
  /-- The waitable timer signals. -/
  | signal (now : Instant)
  /-- The wait returns with the signal. -/
  | fired

namespace MainState

def new : MainState α := ⟨.new, .new, 0⟩

/-- A call of the engine that asks for no timer. -/
def call (m : MainState α) (op : Op α) : MainState α := { m with engine := (m.engine.step op).1 }

/-- The callback for a key event, up to what it does with the decision; also how
many Holds were refused. -/
def decideEvent (m : MainState α) (event : KeyEvent) (bindings : List (Binding α)) (env : Env)
    (answer : TimerRequest → SetAnswer) : MainState α × Nat :=
  let decided := m.engine.onKey event bindings env
  let started :=
    startTimers (GestureTimers.scheduler answer) decided.1 decided.2.timers m.timers
  (⟨started.1, started.2.1, env.now⟩, started.2.2)

def resetEngine (m : MainState α) (env : Env) (reason : ResetReason) : MainState α :=
  let engine := m.engine.reset env reason
  { m with engine := engine, timers := m.timers.retain engine.isLive }

/-- The drain's look at the queue: a timer that is due is decided, and asks for
no timer itself. -/
def takeDueTimer (m : MainState α) (now : Instant) : MainState α :=
  match m.timers.queue.takeDue now with
  | (_, none) => m
  | (queue, some request) =>
    { m with
      engine := (m.engine.onTimer request.token).1
      timers := { m.timers with queue := queue } }

/-- One step; also what `planWake` answered, if it ran. -/
def step (m : MainState α) : Happening α → MainState α × Option Wake
  | .event event bindings env answer => ((m.decideEvent event bindings env answer).1, none)
  | .trackInjected event => (m.call (.trackInjected event), none)
  | .foregroundChanged => (m.call .foregroundChanged, none)
  | .inputReturned => (m.call .inputReturned, none)
  | .resyncIfDue env notes => (m.call (.resyncIfDue env notes), none)
  | .resetEngine env reason => (m.resetEngine env reason, none)
  | .takeDueTimer now => (m.takeDueTimer now, none)
  | .planWake now answer cancelled =>
    let planned := m.timers.planWake m.engine now answer cancelled
    (⟨planned.1.2, planned.1.1, now⟩, some planned.2)
  | .signal now =>
    ({ m with timers := { m.timers with wake := m.timers.wake.signalled }, clock := now }, none)
  | .fired => ({ m with timers := m.timers.fired }, none)

/-- What may happen. The clock does not go back, also from a reading to the set
it is for; the lists have terms a timer can be set for at once, as the loader's
are (10 s at most); a timer signals when it may; and numbers are left. -/
def admits (m : MainState α) : Happening α → Prop
  | .event event bindings env answer =>
    m.clock ≤ env.now ∧ (∀ request, env.now ≤ (answer request).now ∧
      (answer request).now ≤ (answer request).since) ∧
    (∀ b ∈ bindings, termOf b ≤ LONGEST) ∧ operations.enabled m.engine (.key event bindings env)
  | .planWake now answer _ => m.clock ≤ now ∧ now ≤ answer.since
  | .signal now => m.clock ≤ now ∧ m.timers.wake.maySignal now
  | _ => True

end MainState

/-- The main thread's machine, more free than its loop: callbacks, resets, drains
and plans may come in any order. -/
def mainThread : Machine (MainState α) (Happening α) (Option Wake) :=
  ⟨MainState.step, MainState.admits⟩

end KeySwitch.Hook.MainThread
