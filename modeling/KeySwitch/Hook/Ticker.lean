import KeySwitch.Hook.Decision

/-!
# The watchdog's passes

`Ticker` is the watchdog thread's state: the decision, the tick the timer is set
for, and whether it keeps the receiver of an answer the main thread owes. A `Wake`
is everything one turn of its loop meets: the clock, what the drain read, the
heartbeat, what the reply channel gives, and what the desktop check, the request
queue and the timer answer. `pass` is one turn, in the source's order: it counts
the batch, takes the answer, ticks if the tick is due, asks for the reinstall the
tick decided, and sets the timer.

The decision sees a pass as a few calls (`passCalls`); that they are all it sees is
`pass_watchdog`. What a pass does to the reply, the silence, the backoff and the
evidence is said once here, for the anti-loop rule.
-/

namespace KeySwitch.Hook

open Data Lib

/-- What `try_recv` on the reply gives. -/
inductive TryRecv
  | ok (outcome : ReinstallOutcome)
  | empty
  | disconnected
  deriving DecidableEq, Repr

/-- What one turn of the loop meets. -/
structure Wake where
  now : Instant
  /-- The timer signalled, and the wait took the signal. -/
  fired : Bool
  /-- The raw key events the drain read. -/
  keys : Nat
  /-- The drain left raw input queued. -/
  pending : Bool
  hookInstalled : Bool
  callbacks : UInt64
  recv : TryRecv
  /-- Whether keyboard input is on this desktop; `none` if the check fails. -/
  inputHere : Option Bool
  /-- The main thread's queue takes a request. -/
  accepts : Bool
  /-- The timer takes a new due time. -/
  timerSets : Bool
  deriving DecidableEq, Repr

/-- What a pass does outside the ticker. -/
inductive Effect
  | hookAnswered
  | sent (request : ReinstallRequest)
  | desktopCheckFailed
  | hiddenInput
  | timerSet (after : Duration)
  | timerNotSet
  | timerCancelled
  deriving DecidableEq, Repr

/-- The watchdog's state on its thread. -/
structure Ticker where
  watchdog : Watchdog
  /-- The tick the timer is set for. -/
  armed : Option Instant
  /-- It keeps the receiver of an answer. -/
  reply : Bool
  /-- The heartbeat at the last tick. -/
  seen : UInt64
  deriving DecidableEq, Repr

/-- What a pass met and did: the answer it took, its tick's verdict, whether it
dropped the evidence for another desktop, and its effects. -/
structure Passed where
  answer : Option TryRecv
  verdict : Option Verdict
  declined : Bool
  effects : List Effect
  deriving DecidableEq, Repr

/-- What to do with the tick timer. -/
inductive Plan
  | cancel
  | keep
  | arm (after : Duration) (due : Instant)
  deriving DecidableEq, Repr

/-- `plan` of the watchdog -/
def plan (armed next : Option Instant) (now : Instant) : Plan :=
  match next with
  | none => .cancel
  | some due => if armed = some due then .keep else .arm (due - now) due

/-- A tick is due by the clock. -/
def Watchdog.due (w : Watchdog) (now : Instant) : Bool :=
  match w.nextTick with
  | some next => decide (next ≤ now)
  | none => false

namespace Ticker

/-- `Ticker::new` -/
def new (now : Instant) (callbacks : UInt64) : Ticker where
  watchdog := Watchdog.new now callbacks
  armed := none
  reply := false
  seen := callbacks

/-- `Ticker::fired` -/
def fired (t : Ticker) : Ticker := { t with armed := none }

/-- The batch of a pass counts while the keyboard hook is installed. -/
def count (t : Ticker) (wake : Wake) : Ticker :=
  if 0 < wake.keys ∧ wake.hookInstalled then
    { t with watchdog := t.watchdog.rawBatch wake.keys wake.now }
  else t

/-- `Ticker::take_answer`, with what it took. -/
def takeAnswer (t : Ticker) (wake : Wake) : Ticker × Option TryRecv :=
  if t.reply then
    match wake.recv with
    | .ok outcome =>
      ({ t with reply := false, watchdog := t.watchdog.answered wake.now outcome },
        some (.ok outcome))
    | .empty => (t, none)
    | .disconnected =>
      ({ t with reply := false, watchdog := t.watchdog.notSent }, some .disconnected)
  else (t, none)

/-- The ticker at the moment a pass looks whether its tick is due. -/
def atTick (t : Ticker) (wake : Wake) : Ticker := ((t.count wake).takeAnswer wake).1

/-- `Ticker::ask`, with whether it declined. -/
def ask (t : Ticker) (wake : Wake) (request : ReinstallRequest) :
    Ticker × Bool × List Effect :=
  match wake.inputHere with
  | some true =>
    if wake.accepts then ({ t with reply := true }, false, [.sent request])
    else ({ t with watchdog := t.watchdog.notSent }, false, [])
  | some false => ({ t with watchdog := t.watchdog.declined wake.now }, true, [])
  | none => ({ t with watchdog := t.watchdog.declined wake.now }, true, [.desktopCheckFailed])

/-- What the tick of a pass decides. -/
def verdict (t : Ticker) (wake : Wake) : Verdict :=
  (t.watchdog.tick wake.now wake.callbacks wake.pending).2

/-- The ticker after the decision's tick. -/
def ticked (t : Ticker) (wake : Wake) : Ticker :=
  { t with
    watchdog := (t.watchdog.tick wake.now wake.callbacks wake.pending).1
    seen := wake.callbacks }

/-- The tick of a pass, with the request it decided. -/
def tick (t : Ticker) (wake : Wake) : Ticker × Bool × List Effect :=
  match t.verdict wake with
  | .reinstall request _ => (t.ticked wake).ask wake request
  | _ => (t.ticked wake, false, [])

/-- The effects of a pass whose tick is due, in the source's order. -/
def tickEffects (t : Ticker) (wake : Wake) : List Effect :=
  (if wake.callbacks ≠ t.seen then [Effect.hookAnswered] else []) ++ (t.tick wake).2.2 ++
    if 0 < (t.tick wake).1.watchdog.unseenAtLastTick then [Effect.hiddenInput] else []

/-- `Ticker::arm` -/
def arm (t : Ticker) (wake : Wake) : Ticker × List Effect :=
  match plan t.armed t.watchdog.nextTick wake.now with
  | .cancel =>
    if t.armed.isSome then ({ t with armed := none }, [.timerCancelled]) else (t, [])
  | .keep => (t, [])
  | .arm after next =>
    if wake.timerSets then ({ t with armed := some next }, [.timerSet after])
    else ({ t with armed := none }, [.timerNotSet])

/-- `Ticker::pass` -/
def pass (t : Ticker) (wake : Wake) : Ticker × Passed :=
  let answer := ((t.count wake).takeAnswer wake).2
  let t := t.atTick wake
  if t.watchdog.due wake.now then
    (((t.tick wake).1.arm wake).1,
      ⟨answer, some (t.verdict wake), (t.tick wake).2.1,
        t.tickEffects wake ++ ((t.tick wake).1.arm wake).2⟩)
  else ((t.arm wake).1, ⟨answer, none, false, (t.arm wake).2⟩)

/-- One turn of the loop: the timer's signal, if the wait took it, then the pass. -/
def turn (t : Ticker) (wake : Wake) : Ticker × Passed :=
  (if wake.fired then t.fired else t).pass wake

end Ticker

/-- The passes of the watchdog thread. -/
def ticker : Machine Ticker Wake Passed where
  step := Ticker.turn
  enabled _ _ := True

/-! ## What the decision sees of a pass -/

/-- The calls before the tick: the batch and the answer. -/
def callsBefore (reply : Bool) (wake : Wake) : List Call :=
  (if 0 < wake.keys ∧ wake.hookInstalled then [.rawBatch wake.keys wake.now] else []) ++
    if reply then
      match wake.recv with
      | .ok outcome => [.answered wake.now outcome]
      | .empty => []
      | .disconnected => [.notSent]
    else []

/-- The calls of a request that is asked for. -/
def askCalls (wake : Wake) : List Call :=
  match wake.inputHere with
  | some true => if wake.accepts then [] else [.notSent]
  | _ => [.declined wake.now]

/-- The calls of a tick. -/
def tickCalls (w : Watchdog) (wake : Wake) : List Call :=
  .tick wake.now wake.callbacks wake.pending ::
    if (w.tick wake.now wake.callbacks wake.pending).2.isReinstall then askCalls wake else []

namespace Watchdog

/-- The watchdog when a pass looks whether its tick is due. -/
def met (w : Watchdog) (reply : Bool) (wake : Wake) : Watchdog :=
  decision.run w (callsBefore reply wake)

/-- Every call of a pass. -/
def passCalls (w : Watchdog) (reply : Bool) (wake : Wake) : List Call :=
  callsBefore reply wake ++
    if (w.met reply wake).due wake.now then tickCalls (w.met reply wake) wake else []

end Watchdog

namespace Ticker

theorem atTick_watchdog (t : Ticker) (wake : Wake) :
    (t.atTick wake).watchdog = t.watchdog.met t.reply wake := by
  unfold atTick Watchdog.met callsBefore takeAnswer count
  by_cases hk : 0 < wake.keys ∧ wake.hookInstalled
  · rw [if_pos hk, if_pos hk]
    dsimp only
    split
    next => split <;> rfl
    next => rfl
  · rw [if_neg hk, if_neg hk]
    split
    next => split <;> rfl
    next => rfl

/-- A pass takes the answer if it keeps a receiver and something came. -/
theorem takeAnswer_eq (t : Ticker) (wake : Wake) :
    ((t.count wake).takeAnswer wake).2 =
        (if t.reply ∧ wake.recv ≠ .empty then some wake.recv else none) ∧
      (t.atTick wake).reply = (t.reply && decide (wake.recv = .empty)) := by
  have hr : (t.count wake).reply = t.reply := by
    unfold count
    split <;> rfl
  unfold atTick takeAnswer
  rw [hr]
  cases h : t.reply with
  | false => simpa using hr.trans h
  | true => cases hv : wake.recv <;> simp [hr, h]

theorem ask_watchdog (t : Ticker) (wake : Wake) (request : ReinstallRequest) :
    (t.ask wake request).1.watchdog = decision.run t.watchdog (askCalls wake) := by
  unfold ask askCalls
  cases wake.inputHere with
  | none => rfl
  | some here =>
    cases here with
    | false => rfl
    | true => cases wake.accepts <;> rfl

theorem tick_watchdog (t : Ticker) (wake : Wake) :
    (t.tick wake).1.watchdog = decision.run t.watchdog (tickCalls t.watchdog wake) := by
  unfold tick tickCalls verdict
  cases (t.watchdog.tick wake.now wake.callbacks wake.pending).2 with
  | reinstall request next => exact ask_watchdog (t.ticked wake) wake request
  | idle => rfl
  | tickAt next => rfl

/-- A request goes out when the decision asks, the desktop is this one and the queue
takes it. -/
def sends (t : Ticker) (wake : Wake) : Bool :=
  (t.verdict wake).isReinstall && decide (wake.inputHere = some true) && wake.accepts

theorem tick_reply (t : Ticker) (wake : Wake) :
    (t.tick wake).1.reply = (t.reply || t.sends wake) := by
  unfold tick sends ask
  cases t.verdict wake with
  | reinstall request next =>
    cases wake.inputHere with
    | none => simp [ticked, Verdict.isReinstall]
    | some here =>
      cases here with
      | false => simp [ticked, Verdict.isReinstall]
      | true => cases ha : wake.accepts <;> simp [ticked, Verdict.isReinstall]
  | idle => simp [ticked, Verdict.isReinstall]
  | tickAt next => simp [ticked, Verdict.isReinstall]

theorem tick_declined (t : Ticker) (wake : Wake) :
    (t.tick wake).2.1 = ((t.verdict wake).isReinstall && decide (wake.inputHere ≠ some true)) := by
  unfold tick ask
  cases t.verdict wake with
  | reinstall request next =>
    cases wake.inputHere with
    | none => simp [Verdict.isReinstall]
    | some here =>
      cases here with
      | false => simp [Verdict.isReinstall]
      | true => cases ha : wake.accepts <;> simp [Verdict.isReinstall]
  | idle => simp [Verdict.isReinstall]
  | tickAt next => simp [Verdict.isReinstall]

theorem arm_keeps (t : Ticker) (wake : Wake) :
    (t.arm wake).1.watchdog = t.watchdog ∧ (t.arm wake).1.reply = t.reply := by
  unfold arm
  split
  next => split <;> exact ⟨rfl, rfl⟩
  next => exact ⟨rfl, rfl⟩
  next => split <;> exact ⟨rfl, rfl⟩

/-- A pass whose tick is due. -/
theorem pass_due {t : Ticker} {wake : Wake}
    (h : (t.watchdog.met t.reply wake).due wake.now = true) :
    t.pass wake = ((((t.atTick wake).tick wake).1.arm wake).1,
      ⟨((t.count wake).takeAnswer wake).2, some ((t.atTick wake).verdict wake),
        ((t.atTick wake).tick wake).2.1,
        (t.atTick wake).tickEffects wake ++ (((t.atTick wake).tick wake).1.arm wake).2⟩) := by
  rw [← atTick_watchdog] at h
  unfold pass
  dsimp only
  rw [if_pos h]

/-- A pass whose tick is not due. -/
theorem pass_early {t : Ticker} {wake : Wake}
    (h : (t.watchdog.met t.reply wake).due wake.now = false) :
    t.pass wake = (((t.atTick wake).arm wake).1,
      ⟨((t.count wake).takeAnswer wake).2, none, false, ((t.atTick wake).arm wake).2⟩) := by
  rw [← atTick_watchdog] at h
  unfold pass
  dsimp only
  rw [h, if_neg Bool.false_ne_true]

/-- **A pass, as the decision sees it.** -/
theorem pass_watchdog (t : Ticker) (wake : Wake) :
    (t.pass wake).1.watchdog =
      decision.run t.watchdog (t.watchdog.passCalls t.reply wake) := by
  unfold Watchdog.passCalls
  rw [Machine.run_append, ← Watchdog.met]
  cases h : (t.watchdog.met t.reply wake).due wake.now with
  | true => rw [pass_due h, (arm_keeps _ wake).1, tick_watchdog, atTick_watchdog, if_pos rfl]
  | false =>
    rw [pass_early h, (arm_keeps _ wake).1, atTick_watchdog, if_neg Bool.false_ne_true]
    rfl

/-- The answer a pass takes. -/
theorem pass_answer (t : Ticker) (wake : Wake) :
    (t.pass wake).2.answer =
      if t.reply ∧ wake.recv ≠ .empty then some wake.recv else none := by
  rw [← (takeAnswer_eq t wake).1]
  cases h : (t.watchdog.met t.reply wake).due wake.now with
  | true => rw [pass_due h]
  | false => rw [pass_early h]

/-- The verdict of a pass is that of the decision's tick. -/
theorem pass_verdict (t : Ticker) (wake : Wake) :
    (t.pass wake).2.verdict =
      if (t.watchdog.met t.reply wake).due wake.now then
        some ((t.watchdog.met t.reply wake).tick wake.now wake.callbacks wake.pending).2
      else none := by
  cases h : (t.watchdog.met t.reply wake).due wake.now with
  | true =>
    rw [pass_due h, if_pos rfl]
    unfold verdict
    rw [atTick_watchdog]
  | false =>
    rw [pass_early h]
    rfl

/-- Whether the verdict asks and the request goes out. -/
def sent (verdict : Option Verdict) (wake : Wake) : Bool :=
  verdict.any Verdict.isReinstall && decide (wake.inputHere = some true) && wake.accepts

/-- A pass keeps the receiver of an answer that has not come, or of the request it
sends. -/
theorem pass_reply (t : Ticker) (wake : Wake) :
    (t.pass wake).1.reply =
      ((t.reply && decide (wake.recv = .empty)) || sent (t.pass wake).2.verdict wake) := by
  have hreply := (takeAnswer_eq t wake).2
  cases h : (t.watchdog.met t.reply wake).due wake.now with
  | true =>
    rw [pass_due h, (arm_keeps _ wake).2, tick_reply, hreply]
    rfl
  | false =>
    rw [pass_early h, (arm_keeps _ wake).2, hreply]
    simp [sent]

/-- A pass declines a request while keyboard input is on another desktop, or the
check fails. -/
theorem pass_declined (t : Ticker) (wake : Wake) :
    (t.pass wake).2.declined =
      ((t.pass wake).2.verdict.any Verdict.isReinstall &&
        decide (wake.inputHere ≠ some true)) := by
  cases h : (t.watchdog.met t.reply wake).due wake.now with
  | true =>
    rw [pass_due h, tick_declined]
    rfl
  | false =>
    rw [pass_early h]
    rfl

end Ticker

end KeySwitch.Hook
