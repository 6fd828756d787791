import KeySwitch.Data.Binding
import KeySwitch.Lib.Machine

/-!
# The watchdog's decision

`Watchdog` is the state machine that finds a keyboard hook Windows removed:
counts and instants in, "reinstall" or not out. `rawBatch` counts raw key
events, `tick` compares them with the heartbeat of the keyboard callback, and
`answered`, `notSent` and `declined` take what became of a request.

A tick names its parts as the source does: the callbacks it counts (`heard`),
the raw events of its interval (`arrived`), those of them the credit of earlier
callbacks explains (`explained`), and whether it asks (`decides`). What a tick
can do is said once, in the three equations of its account and the three of its
verdict; no later proof unfolds it.

The counters saturate as the source's do; the heartbeat is a 64-bit number that
wraps. An `Instant` counts nanoseconds.
-/

namespace KeySwitch.Hook

open Data Lib

/-- The silence a request needs at least. -/
def SILENCE : Duration := 1000000000
/-- How often the heartbeat is read while keys are typed. -/
def TICK : Duration := 250000000
/-- How long ticking goes on after the last raw key event. -/
def ACTIVE_FOR : Duration := 2000000000
/-- The silence doubles up to `SILENCE * 2 ^ 6`. -/
def MAX_BACKOFF_SHIFT : Nat := 6
/-- How many unexplained raw key events a request needs. -/
def MIN_EVIDENCE : Nat := 2

def U64_MAX : Nat := 2 ^ 64 - 1
def U32_MAX : Nat := 2 ^ 32 - 1

/-- `saturating_add` of a counter that holds at most `max`. -/
def saturatingAdd (max a b : Nat) : Nat := min (a + b) max

/-- What the watchdog asks the main thread. -/
structure ReinstallRequest where
  seen : UInt64
  silentFor : Duration
  attempt : Nat
  deriving DecidableEq, Repr

/-- What became of a request. -/
inductive ReinstallOutcome
  | reinstalled
  | failed
  | alive
  | notInstalled
  deriving DecidableEq, Repr

/-- What a tick decided. -/
inductive Verdict
  /-- Ticking stopped. -/
  | idle
  /-- Tick again at this instant. -/
  | tickAt (at_ : Instant)
  /-- Ask the main thread for `request`. -/
  | reinstall (request : ReinstallRequest) (nextTick : Instant)
  deriving DecidableEq, Repr

/-- Whether the verdict asks for a reinstall. -/
def Verdict.isReinstall : Verdict → Bool
  | .reinstall .. => true
  | _ => false

/-- The watchdog's state: counts and instants only. -/
structure Watchdog where
  /-- The heartbeat at the last tick. -/
  lastCallbacks : UInt64
  rawEvents : Nat
  rawAtLastTick : Nat
  /-- The callbacks counted that no raw event has matched yet. -/
  credit : Nat
  /-- Raw key events that no callback explained, each at least a tick old. -/
  evidence : Nat
  /-- Where the silence that a request needs starts. -/
  quietSince : Instant
  lastRawAt : Option Instant
  nextTick : Option Instant
  /-- A request waits for the main thread's answer. -/
  outstanding : Bool
  /-- Reinstalls and failed attempts since the last callback seen. -/
  attempts : Nat
  unseenAtLastTick : Nat
  deriving DecidableEq, Repr

namespace Watchdog

/-- `Watchdog::new` -/
def new (now : Instant) (callbacks : UInt64) : Watchdog where
  lastCallbacks := callbacks
  rawEvents := 0
  rawAtLastTick := 0
  credit := 0
  evidence := 0
  quietSince := now
  lastRawAt := none
  nextTick := none
  outstanding := false
  attempts := 0
  unseenAtLastTick := 0

/-- `Watchdog::raw_batch` -/
def rawBatch (w : Watchdog) (count : Nat) (now : Instant) : Watchdog :=
  if count = 0 then w
  else
    let w := { w with
      rawEvents := saturatingAdd U64_MAX w.rawEvents count
      lastRawAt := some now }
    if w.nextTick.isNone then
      { w with nextTick := some (now + TICK), quietSince := now, credit := 0 }
    else w

/-- `Watchdog::window` -/
def window (w : Watchdog) : Duration := SILENCE * 2 ^ min w.attempts MAX_BACKOFF_SHIFT

/-- `Watchdog::keeps_ticking` -/
def keepsTicking (w : Watchdog) (now : Instant) : Bool :=
  match w.lastRawAt with
  | none => w.outstanding
  | some lastRawAt =>
    w.outstanding || decide (now < lastRawAt + ACTIVE_FOR) ||
      (decide (MIN_EVIDENCE ≤ w.evidence) && decide (now < lastRawAt + w.window + TICK))

/-! ## A tick -/

/-- The callbacks a tick that reads `callbacks` counts: `answered` of the source. -/
def heard (w : Watchdog) (callbacks : UInt64) : Nat := (callbacks - w.lastCallbacks).toNat

/-- The raw events of the interval. -/
def arrived (w : Watchdog) : Nat := w.rawEvents - w.rawAtLastTick

/-- Those of them that the callbacks counted before explain. -/
def explained (w : Watchdog) : Nat := min w.arrived w.credit

def unexplained (w : Watchdog) : Nat := w.arrived - w.explained

/-- The credit that waits for raw input still queued. -/
def kept (w : Watchdog) (backlog : Bool) : Nat := if backlog then w.credit - w.explained else 0

/-- Whether a tick that counts no callback asks: `decide` of the source. It reads
the evidence before the interval's raw events count. -/
def decides (w : Watchdog) (now : Instant) : Bool :=
  !w.outstanding && decide (MIN_EVIDENCE ≤ w.evidence) &&
    decide (w.quietSince + w.window ≤ now)

/-- The request of a tick that asks. -/
def request (w : Watchdog) (now : Instant) (callbacks : UInt64) : ReinstallRequest where
  seen := callbacks
  silentFor := now - w.quietSince
  attempt := saturatingAdd U32_MAX w.attempts 1

/-- The tick's account: the callbacks and raw events of the interval are counted
and matched, and the decision is made. -/
def account (w : Watchdog) (now : Instant) (callbacks : UInt64) (backlog : Bool) :
    Watchdog × Option ReinstallRequest :=
  let read := { w with
    lastCallbacks := callbacks
    rawAtLastTick := w.rawEvents
    unseenAtLastTick := w.arrived - saturatingAdd U64_MAX w.credit (w.heard callbacks) }
  if 0 < w.heard callbacks then
    -- the baseline: the callback is alive
    ({ read with
      quietSince := now
      evidence := 0
      credit := saturatingAdd U64_MAX (w.kept backlog) (w.heard callbacks - w.unexplained)
      attempts := 0 }, none)
  else
    let read := { read with
      credit := w.kept backlog
      evidence := saturatingAdd U64_MAX w.evidence w.unexplained }
    if w.decides now then ({ read with outstanding := true }, some (w.request now callbacks))
    else (read, none)

/-- `Watchdog::tick` -/
def tick (w : Watchdog) (now : Instant) (callbacks : UInt64) (backlog : Bool) :
    Watchdog × Verdict :=
  match w.account now callbacks backlog with
  | (w, some request) =>
    ({ w with nextTick := some (now + TICK) }, .reinstall request (now + TICK))
  | (w, none) =>
    if w.keepsTicking now then ({ w with nextTick := some (now + TICK) }, .tickAt (now + TICK))
    else ({ w with nextTick := none }, .idle)

/-! ## What became of a request -/

/-- `Watchdog::start_over` -/
def startOver (w : Watchdog) (now : Instant) : Watchdog :=
  { w with evidence := 0, credit := 0, quietSince := now, rawAtLastTick := w.rawEvents }

/-- `Watchdog::answered` -/
def answered (w : Watchdog) (now : Instant) (outcome : ReinstallOutcome) : Watchdog :=
  let w := { w with outstanding := false }
  let w := match outcome with
    | .reinstalled | .failed => { w with attempts := saturatingAdd U32_MAX w.attempts 1 }
    | .alive | .notInstalled => w
  w.startOver now

/-- `Watchdog::not_sent` -/
def notSent (w : Watchdog) : Watchdog := { w with outstanding := false }

/-- `Watchdog::declined` -/
def declined (w : Watchdog) (now : Instant) : Watchdog :=
  { w with outstanding := false }.startOver now

/-! ## The parts of a tick -/

/-- A heartbeat other than the last tick's is what a tick counts a callback by. -/
theorem heard_eq_zero {w : Watchdog} {callbacks : UInt64} :
    w.heard callbacks = 0 ↔ callbacks = w.lastCallbacks := by
  unfold heard
  constructor
  · intro h
    have hz : callbacks - w.lastCallbacks = 0 := UInt64.toNat_inj.mp (by simpa using h)
    have hadd := UInt64.sub_add_cancel callbacks w.lastCallbacks
    rw [hz, UInt64.zero_add] at hadd
    exact hadd.symm
  · rintro rfl
    rw [UInt64.sub_self]
    rfl

theorem unexplained_eq (w : Watchdog) : w.unexplained = w.arrived - w.credit := by
  unfold unexplained explained
  omega

theorem decides_iff {w : Watchdog} {now : Instant} :
    w.decides now = true ↔
      w.outstanding = false ∧ MIN_EVIDENCE ≤ w.evidence ∧ w.quietSince + w.window ≤ now := by
  simp [decides, and_assoc]

/-! ## What a batch does -/

@[simp] theorem rawBatch_zero (w : Watchdog) (now : Instant) : w.rawBatch 0 now = w := if_pos rfl

/-- A batch read while ticking is only counted. -/
theorem rawBatch_ticking {w : Watchdog} {count : Nat} {due : Instant} (hc : count ≠ 0)
    (h : w.nextTick = some due) (now : Instant) :
    w.rawBatch count now = { w with
      rawEvents := saturatingAdd U64_MAX w.rawEvents count
      lastRawAt := some now } := by
  unfold rawBatch
  rw [if_neg hc]
  simp only [h, Option.isNone_some, Bool.false_eq_true, if_false]

/-- The first batch after idle starts the ticking and the silence. -/
theorem rawBatch_idle {w : Watchdog} {count : Nat} (hc : count ≠ 0) (h : w.nextTick = none)
    (now : Instant) :
    w.rawBatch count now = { w with
      rawEvents := saturatingAdd U64_MAX w.rawEvents count
      lastRawAt := some now
      nextTick := some (now + TICK)
      quietSince := now
      credit := 0 } := by
  unfold rawBatch
  rw [if_neg hc]
  simp only [h, Option.isNone_none, if_true]

/-- A batch leaves the account of the last tick alone. -/
theorem rawBatch_keeps (w : Watchdog) (count : Nat) (now : Instant) :
    (w.rawBatch count now).rawAtLastTick = w.rawAtLastTick ∧
      (w.rawBatch count now).lastCallbacks = w.lastCallbacks ∧
      (w.rawBatch count now).evidence = w.evidence ∧
      (w.rawBatch count now).outstanding = w.outstanding ∧
      (w.rawBatch count now).attempts = w.attempts := by
  by_cases hc : count = 0
  · rw [hc, rawBatch_zero]
    exact ⟨rfl, rfl, rfl, rfl, rfl⟩
  · cases hn : w.nextTick with
    | some due =>
      rw [rawBatch_ticking hc hn]
      exact ⟨rfl, rfl, rfl, rfl, rfl⟩
    | none =>
      rw [rawBatch_idle hc hn]
      exact ⟨rfl, rfl, rfl, rfl, rfl⟩

theorem rawBatch_rawEvents {w : Watchdog} {count : Nat} (hc : count ≠ 0) (now : Instant) :
    (w.rawBatch count now).rawEvents = saturatingAdd U64_MAX w.rawEvents count := by
  cases hn : w.nextTick with
  | some due => rw [rawBatch_ticking hc hn]
  | none => rw [rawBatch_idle hc hn]

/-! ## What a tick does -/

section tick

variable {w : Watchdog} {now : Instant} {callbacks : UInt64} {backlog : Bool}

/-- A tick asks exactly if it counts no callback and the decision says so. -/
theorem tick_asks {request : ReinstallRequest} {next : Instant}
    (h : (w.tick now callbacks backlog).2 = .reinstall request next) :
    w.heard callbacks = 0 ∧ w.decides now = true ∧ request = w.request now callbacks ∧
      next = now + TICK := by
  unfold tick account at h
  split at h
  next heq =>
    split at heq
    next => simp at heq
    next hz =>
      dsimp only at heq
      split at heq
      next hd =>
        simp only [Prod.mk.injEq, Option.some.injEq] at heq
        simp only [Verdict.reinstall.injEq] at h
        exact ⟨by omega, hd, by rw [← h.1, ← heq.2], h.2.symm⟩
      next => simp at heq
  next heq => split at h <;> simp at h

/-- **The tick that asks.** -/
theorem tick_isReinstall :
    (w.tick now callbacks backlog).2.isReinstall = true ↔
      w.heard callbacks = 0 ∧ w.decides now = true := by
  constructor
  · intro h
    cases hv : (w.tick now callbacks backlog).2 with
    | idle => simp [hv, Verdict.isReinstall] at h
    | tickAt => simp [hv, Verdict.isReinstall] at h
    | reinstall request next => exact ⟨(tick_asks hv).1, (tick_asks hv).2.1⟩
  · rintro ⟨hz, hd⟩
    simp [tick, account, hz, hd, Verdict.isReinstall]

/-- A tick leaves its account, and the time of the next tick unless it stops. -/
theorem tick_state : (w.tick now callbacks backlog).1 =
    { (w.account now callbacks backlog).1 with
      nextTick :=
        if (w.tick now callbacks backlog).2 = .idle then none else some (now + TICK) } := by
  unfold tick
  split
  next heq => simp [heq]
  next heq => split <;> simp [heq]

/-- A tick that counts a callback takes the baseline: what it leaves. -/
theorem tick_heard (h : 0 < w.heard callbacks) :
    (w.tick now callbacks backlog).1 = { w with
      lastCallbacks := callbacks
      rawAtLastTick := w.rawEvents
      unseenAtLastTick := w.arrived - saturatingAdd U64_MAX w.credit (w.heard callbacks)
      quietSince := now
      evidence := 0
      credit := saturatingAdd U64_MAX (w.kept backlog) (w.heard callbacks - w.unexplained)
      attempts := 0
      nextTick :=
        if (w.tick now callbacks backlog).2 = .idle then none else some (now + TICK) } := by
  rw [tick_state]
  unfold account
  simp only [if_pos h]

/-- A tick that counts no callback adds to the evidence: what it leaves. -/
theorem tick_silent (h : w.heard callbacks = 0) :
    (w.tick now callbacks backlog).1 = { w with
      rawAtLastTick := w.rawEvents
      unseenAtLastTick := w.arrived - saturatingAdd U64_MAX w.credit 0
      credit := w.kept backlog
      evidence := saturatingAdd U64_MAX w.evidence w.unexplained
      outstanding := w.outstanding || w.decides now
      nextTick :=
        if (w.tick now callbacks backlog).2 = .idle then none else some (now + TICK) } := by
  have hc : callbacks = w.lastCallbacks := heard_eq_zero.mp h
  rw [tick_state]
  unfold account
  rw [if_neg (by omega), h]
  dsimp only
  split
  next hd => simp only [hd, hc, Bool.or_true]
  next hd => simp only [hd, hc, Bool.or_false]

@[simp] theorem tick_rawEvents : (w.tick now callbacks backlog).1.rawEvents = w.rawEvents := by
  by_cases h : 0 < w.heard callbacks
  · rw [tick_heard h]
  · rw [tick_silent (by omega)]

/-- A tick has a request outstanding if one was, or if it asks. -/
theorem tick_outstanding : (w.tick now callbacks backlog).1.outstanding =
    (w.outstanding || (w.tick now callbacks backlog).2.isReinstall) := by
  have hasks := @tick_isReinstall w now callbacks backlog
  by_cases h : 0 < w.heard callbacks
  · have hno : (w.tick now callbacks backlog).2.isReinstall = false := by
      by_contra hre
      have := (hasks.mp (Bool.eq_true_of_not_eq_false hre)).1
      omega
    rw [hno, Bool.or_false, tick_heard h]
  · have hz : w.heard callbacks = 0 := by omega
    have hd : (w.tick now callbacks backlog).2.isReinstall = w.decides now := by
      rw [Bool.eq_iff_iff, hasks]
      exact ⟨And.right, fun hd => ⟨hz, hd⟩⟩
    rw [hd, tick_silent hz]

/-- A tick that counts a callback ends the run of attempts. -/
theorem tick_attempts : (w.tick now callbacks backlog).1.attempts =
    if 0 < w.heard callbacks then 0 else w.attempts := by
  by_cases h : 0 < w.heard callbacks
  · rw [tick_heard h, if_pos h]
  · rw [tick_silent (by omega), if_neg h]

/-- A tick that counts no callback and asks for nothing stops ticking exactly if
its account leaves nothing to wait for. -/
theorem tick_idle_iff :
    (w.tick now callbacks backlog).2 = .idle ↔
      ¬ (w.heard callbacks = 0 ∧ w.decides now = true) ∧
        (w.account now callbacks backlog).1.keepsTicking now = false := by
  rw [← @tick_isReinstall w now callbacks backlog]
  unfold tick
  split
  next => simp [Verdict.isReinstall]
  next heq =>
    rw [heq]
    split
    next hk => simp [hk]
    next hk => simp [Verdict.isReinstall, hk]

theorem account_lastRawAt : (w.account now callbacks backlog).1.lastRawAt = w.lastRawAt := by
  unfold account
  split
  next => rfl
  next =>
    dsimp only
    split <;> rfl

/-- A tick goes on while a request is outstanding. -/
theorem tick_ne_idle_of_outstanding (h : w.outstanding = true) :
    (w.tick now callbacks backlog).2 ≠ .idle := by
  intro hidle
  have hkeeps := (tick_idle_iff.mp hidle).2
  have hd : w.decides now = false := by simp [decides, h]
  have hout : (w.account now callbacks backlog).1.outstanding = true := by
    unfold account
    rw [hd]
    split <;> exact h
  unfold keepsTicking at hkeeps
  split at hkeeps <;> simp [hout] at hkeeps

/-- A tick goes on while a raw key event is recent. -/
theorem tick_ne_idle {last : Instant} (h : w.lastRawAt = some last)
    (hrecent : now < last + ACTIVE_FOR) : (w.tick now callbacks backlog).2 ≠ .idle := by
  intro hidle
  have hkeeps := (tick_idle_iff.mp hidle).2
  unfold keepsTicking at hkeeps
  rw [account_lastRawAt, h] at hkeeps
  simp [hrecent] at hkeeps

end tick

end Watchdog

/-! ## The calls of the watchdog thread -/

/-- One call of the decision. -/
inductive Call
  | rawBatch (count : Nat) (now : Instant)
  | tick (now : Instant) (callbacks : UInt64) (backlog : Bool)
  | answered (now : Instant) (outcome : ReinstallOutcome)
  | notSent
  | declined (now : Instant)
  deriving DecidableEq, Repr

/-- The instant the call is given. -/
def Call.now? : Call → Option Instant
  | .rawBatch _ now | .tick now _ _ | .answered now _ | .declined now => some now
  | .notSent => none

/-- What the call does, with a tick's verdict. -/
def Watchdog.call (w : Watchdog) : Call → Watchdog × Option Verdict
  | .rawBatch count now => (w.rawBatch count now, none)
  | .tick now callbacks backlog =>
    ((w.tick now callbacks backlog).1, some (w.tick now callbacks backlog).2)
  | .answered now outcome => (w.answered now outcome, none)
  | .notSent => (w.notSent, none)
  | .declined now => (w.declined now, none)

/-- **What asks for a reinstall**: only a tick that counts no callback and whose
decision says so. -/
theorem Watchdog.call_asks {w : Watchdog} {c : Call}
    (h : (w.call c).2.any Verdict.isReinstall = true) :
    ∃ now callbacks backlog, c = .tick now callbacks backlog ∧ w.heard callbacks = 0 ∧
      w.decides now = true := by
  cases c with
  | tick now callbacks backlog =>
    have hasks : (w.tick now callbacks backlog).2.isReinstall = true := h
    exact ⟨now, callbacks, backlog, rfl, tick_isReinstall.mp hasks⟩
  | rawBatch count now => simp [call] at h
  | answered now outcome => simp [call] at h
  | notSent => simp [call] at h
  | declined now => simp [call] at h

/-- The decision as a machine: any call may come. -/
def decision : Machine Watchdog Call (Option Verdict) where
  step := Watchdog.call
  enabled _ _ := True

end KeySwitch.Hook
