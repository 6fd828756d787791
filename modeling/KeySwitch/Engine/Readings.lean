import KeySwitch.Engine.Cues

/-!
# What the cues tell of the calls

The calls of a run in the words of the source: which of them release the key of
a press, press it again, press another key, refuse its timer or reset. Each call
reads as its cue to the press says (`cueIn_reads`), so that what a life tells of
its cues is told of the calls.
-/

namespace KeySwitch.Engine

open Data Lib

variable {α : Type}

/-- The group of the arming's DoubleTap. -/
def Arming.window (a : Arming α) : Option GroupKey := a.double.map fun x => x.2.2

/-! ## The calls of a run -/

/-- A call of a run, with what it found and what it left. -/
abbrev Call (α : Type) := Moment (Provenance α) (Instant × Op α) (Decision (Marked α))

def timeOf (x : Call α) : Instant := x.input.1

/-- The gestures armed by the call `n` that this call fires. -/
def firedOf (n : Nat) (x : Call α) : List Gesture := x.output.fire.filterMap (markOf n)

def Releases (vk : VirtualKey) (x : Call α) : Prop :=
  ∃ bindings env, x.input.2 = .key ⟨vk, .up⟩ bindings env

/-- A first key-down of `vk`, and whether its group completes the window `double`. -/
def pressOf (vk : VirtualKey) (double : Option GroupKey) (x : Call α) : Option Bool :=
  match x.input.2 with
  | .key ⟨pressed, .down⟩ bindings env =>
    if pressed = vk ∧ x.before.engine.keys.isActive vk = false then
      some (double.any fun window => Gestures.completes
        (x.before.engine.groupAt vk (bindings.map (mark x.before.turn)) env) window)
    else none
  | _ => none

/-- A first key-down of another key. -/
def PressesOther (vk : VirtualKey) (x : Call α) : Prop :=
  ∃ other bindings env, x.input.2 = .key ⟨other, .down⟩ bindings env ∧ other ≠ vk ∧
    x.before.engine.keys.isActive other = false

/-- The timer of the arming `seq` could not be started. -/
def Refuses (vk : VirtualKey) (seq : Nat) (x : Call α) : Prop :=
  ∃ generation, x.input.2 = .forget ⟨generation, .gesture vk, seq⟩

def HandsBack (x : Call α) : Prop := ∃ token, x.input.2 = .timer token

def Resets (x : Call α) : Prop := ∃ env reason, x.input.2 = .reset env reason

/-! ## The cues of a call -/

/-- The cue that a call is to the press `a` of the call `n`. -/
def cueIn (n : Nat) (a : Arming (Marked α)) (x : Call α) : Instant × Cue :=
  (timeOf x, cueOf (markOf n) a x.before.engine (x.input.2.mark x.before.turn))

/-- A timer handed back is a due Hold, a window that closes, or nothing. -/
theorem cueOf_timer (tag : α → Option Gesture) (a : Arming α) (e : Engine α) (token : TimerToken) :
    cueOf tag a e (.timer token) = .nothing ∨ cueOf tag a e (.timer token) = .holdTimer ∨
      ∃ due, cueOf tag a e (.timer token) = .closed due := by
  unfold cueOf
  dsimp only
  split
  · exact Or.inl rfl
  · split
    · unfold Gestures.timerCue
      split
      · exact Or.inl rfl
      · split
        · exact Or.inr (Or.inl rfl)
        · exact Or.inr (Or.inr ⟨_, rfl⟩)
    · exact Or.inl rfl
    · exact Or.inl rfl

/-- A refused timer is the press's own, or nothing. -/
theorem cueOf_forget (tag : α → Option Gesture) (a : Arming α) (e : Engine α)
    (token : TimerToken) :
    cueOf tag a e (.forget token) = .nothing ∨
      (cueOf tag a e (.forget token) = .refused ∧ token.slot = .gesture a.vk ∧
        token.seq = a.seq) := by
  unfold cueOf
  dsimp only
  split
  · exact Or.inl rfl
  · split
    · next vk hslot =>
      unfold Gestures.forgetCue
      split
      · next hours => exact Or.inr ⟨rfl, by rw [hslot, hours.1], hours.2⟩
      · exact Or.inl rfl
    · exact Or.inl rfl
    · exact Or.inl rfl

/-- The call is no event of the press's key, and no reset. -/
structure Elsewhere (a : Arming (Marked α)) (x : Call α) : Prop where
  up : ¬ Releases a.vk x
  down : pressOf a.vk a.window x = none
  reset : ¬ Resets x

/-- What each cue tells of the call it was read off. -/
inductive ReadsAs (a : Arming (Marked α)) (x : Call α) : Cue → Prop
  | up {passed : Bool} (h : Releases a.vk x) (hdown : pressOf a.vk a.window x = none)
      (hreset : ¬ Resets x) : ReadsAs a x (.up passed)
  | down {completes : Bool} (hup : ¬ Releases a.vk x)
      (h : pressOf a.vk a.window x = some completes) (hreset : ¬ Resets x) :
      ReadsAs a x (.down completes)
  | other {ours passed : Bool} (h : PressesOther a.vk x) (hkey : Elsewhere a x) :
      ReadsAs a x (.other ours passed)
  | refused (h : Refuses a.vk a.seq x) (hkey : Elsewhere a x) : ReadsAs a x .refused
  | reset (h : Resets x) (hup : ¬ Releases a.vk x) (hdown : pressOf a.vk a.window x = none) :
      ReadsAs a x .reset
  | holdTimer (h : HandsBack x) (hkey : Elsewhere a x) : ReadsAs a x .holdTimer
  | closed {due : Instant} (h : HandsBack x) (hkey : Elsewhere a x) : ReadsAs a x (.closed due)
  | nothing (hkey : Elsewhere a x) : ReadsAs a x .nothing

/-- A call that is no key event or reset. -/
theorem elsewhere_of_op {a : Arming (Marked α)} {x : Call α}
    (hkey : ∀ event bindings env, x.input.2 ≠ .key event bindings env)
    (hreset : ∀ env reason, x.input.2 ≠ .reset env reason) : Elsewhere a x := by
  refine ⟨?_, ?_, ?_⟩
  · rintro ⟨bindings, env, h⟩
    exact hkey _ _ _ h
  · unfold pressOf
    split
    · next h => exact absurd h (hkey _ _ _)
    · rfl
  · rintro ⟨env, reason, h⟩
    exact hreset _ _ h

theorem key_reads (n : Nat) (a : Arming (Marked α)) {x : Call α} {event : KeyEvent}
    {bindings : List (Binding α)} {env : Env} (hop : x.input.2 = .key event bindings env) :
    ReadsAs a x (cueIn n a x).2 := by
  have hreset : ¬ Resets x := by
    rintro ⟨_, _, h⟩
    rw [hop] at h
    exact absurd h (by simp)
  have hcue : (cueIn n a x).2 = cueOf (markOf n) a x.before.engine
      (.key event (bindings.map (mark x.before.turn)) env) := by
    unfold cueIn
    rw [hop]
    rfl
  obtain ⟨vk, direction⟩ := event
  rw [hcue]
  unfold cueOf
  cases direction with
  | up =>
    have hdown : pressOf a.vk a.window x = none := by
      unfold pressOf
      rw [hop]
    dsimp only
    by_cases hvk : vk = a.vk
    · rw [if_pos hvk]
      exact .up ⟨bindings, env, by rw [hop, hvk]⟩ hdown hreset
    · rw [if_neg hvk]
      refine .nothing ⟨?_, hdown, hreset⟩
      rintro ⟨_, _, h⟩
      rw [hop] at h
      injection h with hevent
      injection hevent with hvk'
      exact hvk hvk'
  | down =>
    have hup : ¬ Releases a.vk x := by
      rintro ⟨_, _, h⟩
      rw [hop] at h
      injection h with hevent
      injection hevent with _ hdirection
      exact absurd hdirection (by simp)
    -- Both sides ask the same: is this the first key-down of the key, and what does it complete.
    have hpress : pressOf a.vk a.window x =
        if vk = a.vk ∧ x.before.engine.keys.isActive a.vk = false then
          some (Gestures.completesArming a
            (x.before.engine.groupAt a.vk (bindings.map (mark x.before.turn)) env))
        else none := by
      unfold pressOf Arming.window Gestures.completesArming
      rw [hop]
      cases a.double <;> rfl
    dsimp only
    cases hactive : x.before.engine.keys.isActive vk with
    | true =>
      refine .nothing ⟨hup, ?_, hreset⟩
      rw [hpress, if_neg]
      rintro ⟨hvk, hnot⟩
      rw [← hvk, hactive] at hnot
      exact absurd hnot (by simp)
    | false =>
      rw [if_neg Bool.false_ne_true]
      by_cases hvk : vk = a.vk
      · rw [if_pos hvk]
        subst hvk
        refine .down hup ?_ hreset
        rw [hpress, if_pos ⟨rfl, hactive⟩]
      · rw [if_neg hvk]
        refine .other ⟨vk, bindings, env, hop, hvk, hactive⟩ ⟨hup, ?_, hreset⟩
        rw [hpress, if_neg fun h => hvk h.1]

/-- Every call reads as its cue says. -/
theorem cueIn_reads (n : Nat) (a : Arming (Marked α)) (x : Call α) :
    ReadsAs a x (cueIn n a x).2 := by
  have hcue : (cueIn n a x).2 =
      cueOf (markOf n) a x.before.engine (x.input.2.mark x.before.turn) := rfl
  cases hop : x.input.2 with
  | key event bindings env => exact key_reads n a hop
  | timer token =>
    have hkey : Elsewhere a x := elsewhere_of_op (by simp [hop]) (by simp [hop])
    rw [hcue, hop]
    show ReadsAs a x (cueOf (markOf n) a x.before.engine (.timer token))
    rcases cueOf_timer (markOf n) a x.before.engine token with hcue | hcue | ⟨due, hcue⟩
    · rw [hcue]
      exact .nothing hkey
    · rw [hcue]
      exact .holdTimer ⟨token, hop⟩ hkey
    · rw [hcue]
      exact .closed ⟨token, hop⟩ hkey
  | forget token =>
    have hkey : Elsewhere a x := elsewhere_of_op (by simp [hop]) (by simp [hop])
    rw [hcue, hop]
    show ReadsAs a x (cueOf (markOf n) a x.before.engine (.forget token))
    rcases cueOf_forget (markOf n) a x.before.engine token with hcue | ⟨hcue, hslot, hseq⟩
    · rw [hcue]
      exact .nothing hkey
    · rw [hcue]
      obtain ⟨generation, slot, seq⟩ := token
      obtain rfl : slot = .gesture a.vk := hslot
      obtain rfl : seq = a.seq := hseq
      exact .refused ⟨generation, hop⟩ hkey
  | reset env reason =>
    rw [hcue, hop]
    refine .reset ⟨env, reason, hop⟩ ?_ ?_
    · rintro ⟨_, _, h⟩
      rw [hop] at h
      exact absurd h (by simp)
    · unfold pressOf
      rw [hop]
  | foregroundChanged =>
    rw [hcue, hop]
    exact .nothing (elsewhere_of_op (by simp [hop]) (by simp [hop]))
  | resyncIfDue env notes =>
    rw [hcue, hop]
    exact .nothing (elsewhere_of_op (by simp [hop]) (by simp [hop]))
  | inputReturned =>
    rw [hcue, hop]
    exact .nothing (elsewhere_of_op (by simp [hop]) (by simp [hop]))
  | trackInjected event =>
    rw [hcue, hop]
    exact .nothing (elsewhere_of_op (by simp [hop]) (by simp [hop]))

theorem isUp_cueIn (n : Nat) (a : Arming (Marked α)) (x : Call α) :
    Life.IsUp (cueIn n a x) ↔ Releases a.vk x := by
  have hreads := cueIn_reads n a x
  unfold Life.IsUp
  generalize (cueIn n a x).2 = cue at hreads ⊢
  cases hreads with
  | up h _ _ => exact ⟨fun _ => h, fun _ => ⟨_, rfl⟩⟩
  | down hup _ _ => exact ⟨fun ⟨_, h⟩ => absurd h (by simp), fun h => absurd h hup⟩
  | reset _ hup _ => exact ⟨fun ⟨_, h⟩ => absurd h (by simp), fun h => absurd h hup⟩
  | other _ hkey => exact ⟨fun ⟨_, h⟩ => absurd h (by simp), fun h => absurd h hkey.up⟩
  | refused _ hkey => exact ⟨fun ⟨_, h⟩ => absurd h (by simp), fun h => absurd h hkey.up⟩
  | holdTimer _ hkey => exact ⟨fun ⟨_, h⟩ => absurd h (by simp), fun h => absurd h hkey.up⟩
  | closed _ hkey => exact ⟨fun ⟨_, h⟩ => absurd h (by simp), fun h => absurd h hkey.up⟩
  | nothing hkey => exact ⟨fun ⟨_, h⟩ => absurd h (by simp), fun h => absurd h hkey.up⟩

/-- The first key-downs of the key are those that the cues tell of. -/
theorem down_cueIn (n : Nat) (a : Arming (Marked α)) (x : Call α) (completes : Bool) :
    (cueIn n a x).2 = .down completes ↔ pressOf a.vk a.window x = some completes := by
  have hreads := cueIn_reads n a x
  generalize (cueIn n a x).2 = cue at hreads ⊢
  cases hreads with
  | down _ h _ => rw [h]; simp
  | up _ hdown _ => rw [hdown]; simp
  | reset _ _ hdown => rw [hdown]; simp
  | other _ hkey => rw [hkey.down]; simp
  | refused _ hkey => rw [hkey.down]; simp
  | holdTimer _ hkey => rw [hkey.down]; simp
  | closed _ hkey => rw [hkey.down]; simp
  | nothing hkey => rw [hkey.down]; simp

theorem not_isDown_cueIn (n : Nat) (a : Arming (Marked α)) (x : Call α) :
    ¬ Life.IsDown (cueIn n a x) ↔ pressOf a.vk a.window x = none := by
  unfold Life.IsDown
  rw [Option.eq_none_iff_forall_ne_some, not_exists]
  exact forall_congr' fun completes => not_congr (down_cueIn n a x completes)

/-- A call that presses no other key, refuses no timer and resets nothing. -/
theorem alone_cueIn {n : Nat} {a : Arming (Marked α)} {x : Call α}
    (hother : ¬ PressesOther a.vk x) (hrefused : ¬ Refuses a.vk a.seq x) (hreset : ¬ Resets x) :
    Life.Alone (cueIn n a x) := by
  have hreads := cueIn_reads n a x
  unfold Life.Alone
  generalize (cueIn n a x).2 = cue at hreads ⊢
  cases hreads with
  | other h _ => exact absurd h hother
  | refused h _ => exact absurd h hrefused
  | reset h _ _ => exact absurd h hreset
  | _ => exact trivial

theorem refuses_of_cueIn {n : Nat} {a : Arming (Marked α)} {x : Call α}
    (h : (cueIn n a x).2 = .refused) : Refuses a.vk a.seq x := by
  have hreads := cueIn_reads n a x
  rw [h] at hreads
  cases hreads with
  | refused h _ => exact h

theorem cueIn_of_resets {n : Nat} {a : Arming (Marked α)} {x : Call α} (h : Resets x) :
    (cueIn n a x).2 = .reset := by
  obtain ⟨env, reason, h⟩ := h
  unfold cueIn
  rw [h]
  rfl

end KeySwitch.Engine
