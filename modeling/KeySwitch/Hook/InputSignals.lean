import KeySwitch.Hook.GestureTimers

/-!
# Signals about where keyboard input is

The control window and the desktop-switch hook note that keyboard input left this
desktop or came back, one flag for each kind of signal. The next drain takes the
flags and answers them, the departures first: one of them resets the engine, which
then reads nothing until input is back; a return says that it is. The drain ends with
the read of the modifiers, if one is due.

The flags do not say which signal came last. A drain that finds a departure newer
than a return answers the return last, takes input for back and reads
(`departure_after_return`). In a run without such a drain no drain reads while the
latest signal or decided event says that input is away (`drain_reads_here`).
-/

namespace KeySwitch.Hook.MainThread

open Data Lib Engine

variable {α : Type}

/-! ## The signals -/

inductive InputSignal
  | sessionLocked
  | sessionUnlocked
  /-- A desktop switch while another desktop has input. -/
  | desktopSwitchedAway
  /-- A desktop switch while this desktop has input. -/
  | desktopSwitchedBack
  deriving DecidableEq, Repr

namespace InputSignal

/-- Every signal, in the order the main thread logs them. -/
def all : List InputSignal :=
  [sessionLocked, sessionUnlocked, desktopSwitchedAway, desktopSwitchedBack]

/-- The reset this signal asks for, if any. -/
def reset : InputSignal → Option ResetReason
  | sessionLocked | desktopSwitchedAway => some .inputLeft
  | sessionUnlocked | desktopSwitchedBack => none

/-- Whether this signal says that input came back to this desktop. -/
def inputReturned : InputSignal → Bool
  | sessionUnlocked | desktopSwitchedBack => true
  | sessionLocked | desktopSwitchedAway => false

/-- Whether this signal says that input left this desktop. -/
def departs (signal : InputSignal) : Bool := signal.reset.isSome

theorem mem_all (signal : InputSignal) : signal ∈ all := by
  cases signal <;> decide

end InputSignal

/-- The signals that wait for the drain: one flag for each. -/
structure PendingSignals where
  seen : InputSignal → Bool

namespace PendingSignals

def NONE : PendingSignals := ⟨fun _ => false⟩

/-- The signals noted, in the order of `InputSignal.all`. -/
def signals (p : PendingSignals) : List InputSignal := InputSignal.all.filter p.seen

/-- `note_input_signal`, up to the wake it posts. -/
def note (p : PendingSignals) (signal : InputSignal) : PendingSignals :=
  ⟨fun s => if s = signal then true else p.seen s⟩

theorem mem_signals (p : PendingSignals) (signal : InputSignal) :
    signal ∈ p.signals ↔ p.seen signal = true := by
  unfold signals
  rw [List.mem_filter]
  exact and_iff_right signal.mem_all

/-- Whether the flags hold a departure, or a return. -/
def left (p : PendingSignals) : Bool := p.signals.any InputSignal.departs
def returned (p : PendingSignals) : Bool := p.signals.any InputSignal.inputReturned

theorem note_any (p : PendingSignals) (signal : InputSignal) (f : InputSignal → Bool) :
    (p.note signal).signals.any f = (f signal || p.signals.any f) := by
  rw [Bool.eq_iff_iff, Bool.or_eq_true, List.any_eq_true, List.any_eq_true]
  constructor
  · rintro ⟨s, hs, hf⟩
    rw [mem_signals] at hs
    by_cases hnew : s = signal
    · exact Or.inl (hnew ▸ hf)
    · refine Or.inr ⟨s, (mem_signals p s).mpr ?_, hf⟩
      unfold note at hs
      dsimp only at hs
      rwa [if_neg hnew] at hs
  · rintro (hf | ⟨s, hs, hf⟩)
    · exact ⟨signal, (mem_signals _ _).mpr (if_pos rfl), hf⟩
    · rw [mem_signals] at hs
      refine ⟨s, (mem_signals _ _).mpr ?_, hf⟩
      unfold note
      dsimp only
      rw [hs, ite_self]

end PendingSignals

/-! ## The drain -/

namespace MainState

/-- `answer_input_signals`, but for its log. While remapping is off the signals are
dropped. -/
def answerInputSignals (m : MainState α) (env : Env) (enabled : Bool)
    (signals : List InputSignal) : MainState α :=
  if !enabled then m
  else
    let m :=
      match signals.findSome? InputSignal.reset with
      | some reason => m.resetEngine env reason
      | none => m
    if signals.any InputSignal.inputReturned then m.call .inputReturned else m

/-- `resync_if_due`; also whether it asked Windows. -/
def resyncIfDue (m : MainState α) (env : Env) (enabled : Bool) (notes : Nat) :
    MainState α × Bool :=
  if !enabled then (m, false)
  else
    let read := m.engine.resyncIfDue env notes
    ({ m with engine := read.1 }, read.2)

end MainState

/-- The main thread with the signals that wait for its drain. -/
structure Signalled (α : Type) where
  main : MainState α
  pending : PendingSignals

/-- What happens on the main thread between two drains, and a drain. -/
inductive Turn (α : Type)
  | note (signal : InputSignal)
  /-- A hook callback decides a key event. -/
  | event (event : KeyEvent) (bindings : List (Binding α)) (env : Env)
      (answer : TimerRequest → SetAnswer)
  /-- A hook callback sees one of the daemon's own injected events. -/
  | trackInjected (event : KeyEvent)
  | foregroundChanged
  | drain (env : Env) (notes : Nat)

namespace Signalled

/-- One turn, with remapping on; also whether it asked Windows for the modifiers. -/
def step (w : Signalled α) : Turn α → Signalled α × Bool
  | .note signal => ({ w with pending := w.pending.note signal }, false)
  | .event event bindings env answer =>
    ({ w with main := (w.main.decideEvent event bindings env answer).1 }, false)
  | .trackInjected event => ({ w with main := w.main.call (.trackInjected event) }, false)
  | .foregroundChanged => ({ w with main := w.main.call .foregroundChanged }, false)
  | .drain env notes =>
    let read := (w.main.answerInputSignals env true w.pending.signals).resyncIfDue env true notes
    (⟨read.1, .NONE⟩, read.2)

end Signalled

/-- The machine of these turns. -/
def turns : Machine (Signalled α) (Turn α) Bool := ⟨Signalled.step, fun _ _ => True⟩

/-- Whether the latest noted signal or decided event of a run is a departure. -/
def departed (run : List (Turn α)) : Bool :=
  run.foldl (fun gone turn =>
    match turn with
    | .note signal => signal.departs
    | .event _ _ _ _ => false
    | .trackInjected _ | .foregroundChanged | .drain _ _ => gone) false

/-- A batch that holds a departure and a return, the latest signal or decided event of
the run being a departure. -/
def StaleReturn (w : Signalled α) (run : List (Turn α)) : Prop :=
  w.pending.left = true ∧ w.pending.returned = true ∧ departed run = true

/-! ## What a drain does to the away flag -/

/-- The reset that a batch asks for. -/
theorem reset_signals (signals : List InputSignal) :
    signals.findSome? InputSignal.reset =
      if signals.any InputSignal.departs then some .inputLeft else none := by
  induction signals with
  | nil => rfl
  | cons signal signals ih =>
    rw [List.findSome?_cons, List.any_cons, ih]
    cases signal <;> rfl

/-- Answering a batch: a return says that input is back, else a departure that it is
away; without either nothing changes. -/
theorem answer_inputAway (m : MainState α) (env : Env) (p : PendingSignals) :
    (m.answerInputSignals env true p.signals).engine.resync.inputAway =
      (!p.returned && (p.left || m.engine.resync.inputAway)) := by
  have hreset := reset_signals p.signals
  unfold MainState.answerInputSignals
  rw [hreset]
  show _ = (!p.signals.any InputSignal.inputReturned &&
    (p.signals.any InputSignal.departs || m.engine.resync.inputAway))
  cases p.signals.any InputSignal.departs <;> cases p.signals.any InputSignal.inputReturned <;> rfl

/-- The away flag at the read that ends a drain. -/
theorem resyncIfDue_inputAway (e : Engine α) (env : Env) (notes : Nat) :
    (e.resyncIfDue env notes).1.resync.inputAway = e.resync.inputAway ∧
      (e.resync.inputAway = true → (e.resyncIfDue env notes).2 = false) := by
  have hplan : (e.resync.plan notes).1.inputAway = e.resync.inputAway ∧
      (e.resync.inputAway = true → (e.resync.plan notes).2 = .empty) := by
    unfold Resync.plan
    dsimp only
    split
    · split
      · exact ⟨rfl, fun _ => rfl⟩
      · next haway => exact ⟨rfl, fun h => absurd h haway⟩
    · split
      · exact ⟨rfl, fun _ => rfl⟩
      · next haway => exact ⟨rfl, fun h => absurd h haway⟩
  unfold Engine.resyncIfDue
  dsimp only
  constructor
  · rw [← hplan.1]
    split <;> rfl
  · intro haway
    rw [hplan.2 haway, if_pos (by decide)]

/-! ## Runs -/

/-- While the latest signal or decided event is a departure, it waits for the drain, or
the engine knows and no return waits. -/
def Knows (w : Signalled α) (run : List (Turn α)) : Prop :=
  departed run = true → w.pending.left = true ∨
    (w.main.engine.resync.inputAway = true ∧ w.pending.returned = false)

theorem departed_snoc (run : List (Turn α)) (turn : Turn α) :
    departed (run ++ [turn]) =
      match turn with
      | .note signal => signal.departs
      | .event _ _ _ _ => false
      | .trackInjected _ | .foregroundChanged | .drain _ _ => departed run := by
  unfold departed
  rw [List.foldl_append]
  cases turn <;> rfl

/-- A drain that answers no stale return takes what is known over to the engine: if
input is away it reads nothing. -/
theorem drain_knows {w : Signalled α} {run : List (Turn α)} (h : Knows w run)
    (hfresh : ¬StaleReturn w run) (hgone : departed run = true) (env : Env) (notes : Nat) :
    (w.step (.drain env notes)).2 = false ∧
      (w.step (.drain env notes)).1.main.engine.resync.inputAway = true := by
  have haway : (w.main.answerInputSignals env true w.pending.signals).engine.resync.inputAway =
      true := by
    rw [answer_inputAway]
    rcases h hgone with hleft | ⟨haway, hback⟩
    · have hback : w.pending.returned = false := by
        rw [Bool.eq_false_iff]
        exact fun hback => hfresh ⟨hleft, hback, hgone⟩
      rw [hback, hleft]
      rfl
    · rw [hback, haway, Bool.or_true]
      rfl
  have hread := resyncIfDue_inputAway
    (w.main.answerInputSignals env true w.pending.signals).engine env notes
  exact ⟨hread.2 haway, hread.1.trans haway⟩

/-- **One turn** keeps what is known, if it is no drain that answers a stale return. -/
theorem step_knows {w : Signalled α} {run : List (Turn α)} (h : Knows w run) (turn : Turn α)
    (hfresh : ∀ env notes, turn = .drain env notes → ¬StaleReturn w run) :
    Knows (w.step turn).1 (run ++ [turn]) := by
  intro hgone
  rw [departed_snoc] at hgone
  cases turn with
  | note signal =>
    dsimp only at hgone
    left
    show ((w.pending.note signal).signals.any InputSignal.departs) = true
    rw [PendingSignals.note_any, hgone, Bool.true_or]
  | event event bindings env answer => exact absurd hgone Bool.false_ne_true
  | trackInjected event =>
    rcases h hgone with hleft | ⟨haway, hback⟩
    · exact Or.inl hleft
    · refine Or.inr ⟨?_, hback⟩
      show (w.main.engine.resync.inputAway && !false) = true
      rw [haway]
      rfl
  | foregroundChanged => exact h hgone
  | drain env notes =>
    exact Or.inr ⟨(drain_knows h (hfresh env notes rfl) hgone env notes).2, rfl⟩

/-- A drain that answers a stale return takes input for back, whatever came last. -/
theorem stale_return_forgotten {w : Signalled α} {run : List (Turn α)} (h : StaleReturn w run)
    (env : Env) (notes : Nat) :
    (w.step (.drain env notes)).1.main.engine.resync.inputAway = false ∧
      departed (run ++ [.drain env notes]) = true := by
  have hback : (w.main.answerInputSignals env true w.pending.signals).engine.resync.inputAway =
      false := by
    rw [answer_inputAway, h.2.1]
    rfl
  refine ⟨(resyncIfDue_inputAway _ env notes).1.trans hback, ?_⟩
  rw [departed_snoc]
  exact h.2.2

/-- No drain of the run answers a stale return. -/
def NoStaleReturn (w : Signalled α) (run : List (Turn α)) : Prop :=
  ∀ before env notes after, run = before ++ .drain env notes :: after →
    ¬StaleReturn (turns.run w before) before

theorem run_knows {w : Signalled α} {run : List (Turn α)} (h : NoStaleReturn w run) :
    Knows (turns.run w run) run := by
  induction run using List.reverseRecOn with
  | nil => exact fun hgone => absurd hgone Bool.false_ne_true
  | append_singleton run turn ih =>
    have hbefore : NoStaleReturn w run := by
      rintro before env notes after rfl
      exact h before env notes (after ++ [turn]) (by simp)
    rw [turns.run_append]
    refine step_knows (ih hbefore) turn ?_
    rintro env notes rfl
    exact h run env notes [] rfl

/-- Noting signals sets their flags, in whatever order. -/
theorem notes_run (w : Signalled α) (signals : List InputSignal) :
    turns.run w (signals.map Turn.note) =
      { w with pending := ⟨fun s => decide (s ∈ signals) || w.pending.seen s⟩ } := by
  induction signals generalizing w with
  | nil => simp
  | cons signal signals ih =>
    rw [List.map_cons, turns.run_cons, ih]
    show ({ w with pending := _ } : Signalled α) = _
    congr 2
    funext s
    show (decide (s ∈ signals) || (if s = signal then true else w.pending.seen s)) = _
    by_cases hs : s = signal <;> simp [hs]

/-- What waits for the drain does not depend on the order of the notes. -/
theorem notes_perm (w : Signalled α) {signals signals' : List InputSignal}
    (h : signals.Perm signals') :
    turns.run w (signals.map Turn.note) = turns.run w (signals'.map Turn.note) := by
  rw [notes_run, notes_run]
  simp only [h.mem_iff]

/-- **No drain reads while input is known to be away**, in every run none of whose
drains answers a stale return. The order in which the signals of one batch were noted
never changes what the drain does. -/
theorem drain_reads_here {w : Signalled α} {run : List (Turn α)} (h : NoStaleReturn w run) :
    (∀ before env notes after, run = before ++ .drain env notes :: after →
      ((turns.run w before).step (.drain env notes)).2 = true → departed before = false) ∧
    ∀ (v : Signalled α) (signals signals' : List InputSignal) (env : Env) (notes : Nat),
      signals.Perm signals' →
        (turns.run v (signals.map Turn.note)).step (.drain env notes) =
          (turns.run v (signals'.map Turn.note)).step (.drain env notes) := by
  refine ⟨?_, fun v signals signals' env notes hperm => ?_⟩
  · rintro before env notes after rfl hreads
    rw [Bool.eq_false_iff]
    intro hgone
    have hbefore : NoStaleReturn w before := by
      rintro before' env' notes' after' rfl
      exact h before' env' notes' (after' ++ .drain env notes :: after) (by simp)
    have hno := drain_knows (run_knows hbefore) (h before env notes after rfl) hgone env notes
    rw [hno.1] at hreads
    exact absurd hreads (by decide)
  · rw [notes_perm v hperm]

/-- The session is locked and unlocked, and then a drain reads. -/
theorem drain_reads_here_unlocked :
    let env : Env := ⟨0, fun _ => false, ⟨none, none, id⟩⟩
    let w : Signalled Nat := ⟨.new, .NONE⟩
    ((turns.run w [.note .sessionLocked, .note .sessionUnlocked]).step (.drain env 0)).2 = true ∧
      departed ([.note .sessionLocked, .note .sessionUnlocked] : List (Turn Nat)) = false := by
  intro env w
  have hfresh : NoStaleReturn w [.note .sessionLocked, .note .sessionUnlocked, .drain env 0] := by
    rintro before env' notes after hsplit ⟨-, -, hgone⟩
    rcases before with _ | ⟨first, _ | ⟨second, _ | ⟨third, before⟩⟩⟩ <;> simp at hsplit
    obtain ⟨rfl, rfl, -⟩ := hsplit
    exact absurd hgone (by decide)
  have hreads : ((turns.run w [.note .sessionLocked, .note .sessionUnlocked]).step
      (.drain env 0)).2 = true := by decide
  exact ⟨hreads, (drain_reads_here hfresh).1 [.note .sessionLocked, .note .sessionUnlocked] env 0 []
    rfl hreads⟩

/-- `SessionUnlocked`, then `SessionLocked`, and a drain: it reads the modifiers, with
the session locked; and it does the same with the two the other way round. -/
theorem departure_after_return :
    let env : Env := ⟨0, fun _ => false, ⟨none, none, id⟩⟩
    let w : Signalled Nat := ⟨.new, .NONE⟩
    let unlockedThenLocked : List (Turn Nat) := [.note .sessionUnlocked, .note .sessionLocked]
    let lockedThenUnlocked : List (Turn Nat) := [.note .sessionLocked, .note .sessionUnlocked]
    departed unlockedThenLocked = true ∧
      ((turns.run w unlockedThenLocked).step (.drain env 0)).2 = true ∧
      departed lockedThenUnlocked = false ∧
      (turns.run w unlockedThenLocked).step (.drain env 0) =
        (turns.run w lockedThenUnlocked).step (.drain env 0) := by
  intro env w unlockedThenLocked lockedThenUnlocked
  refine ⟨rfl, by decide, rfl, ?_⟩
  have hsame := notes_perm w (List.Perm.swap InputSignal.sessionLocked .sessionUnlocked [])
  exact congrArg (fun v => v.step (.drain env 0)) hsame

end KeySwitch.Hook.MainThread
