import KeySwitch.Engine.Windows

/-!
# A decided key-up passes exactly if Windows has the key down

Here any event may go past the hook, and any reset may come at any time. The
engine's record, Windows' key state and the user's fingers drift apart, and
still a key-up the engine decides reaches Windows exactly if Windows has that
key down, so no key sticks there and no key-up comes alone.

What every history keeps is one implication, `UpIsOnRecord`: a key that is held
and up in Windows is on record as swallowed. The witness, the read of Windows'
key state at the key-up, does the rest.
-/

namespace KeySwitch.Engine

open Data Lib

variable {α : Type}

/-- The moves of these runs: anything, for physical keys. -/
def AnyMove : Move α → Prop
  | .key _ vk _ _ | .hidden _ vk => Physical vk
  | _ => True

/-- The record of a key-down or an auto-repeat that was swallowed. -/
def Swallowed (record : LastDown) : Prop := record = .suppressed ∨ record = .repeatSuppressed

/-- A key that is held and up in Windows is on record as swallowed. -/
def UpIsOnRecord (w : World α) : Prop :=
  ∀ v, Physical v → w.held v = true → w.windows v = false → Swallowed (w.engine.keys.lastDown v)

theorem upIsOnRecord_new : UpIsOnRecord (World.new : World α) :=
  fun _ _ h => absurd h (by simp [World.new])

/-- An operation between two events keeps the implication if it keeps every
swallowed record of a key that Windows has up. -/
theorem upIsOnRecord_of_records {w : World α} (hw : UpIsOnRecord w) {e : Engine α}
    (h : ∀ v, Physical v → w.windows v = false → Swallowed (w.engine.keys.lastDown v) →
      e.keys.lastDown v = w.engine.keys.lastDown v) :
    UpIsOnRecord { w with engine := e } := by
  intro v hv hheld hwin
  have hold := hw v hv hheld hwin
  dsimp only
  rw [h v hv hwin hold]
  exact hold

/-- A key event that the engine decides keeps it: what it swallows, it records. -/
theorem upIsOnRecord_key {w : World α} (hw : UpIsOnRecord w) (move : KeyMove) {vk : VirtualKey}
    (bindings : List (Binding α)) (scene : Scene) (hvk : Physical vk) :
    UpIsOnRecord (w.step (.key move vk bindings scene)).1 := by
  unfold World.step
  dsimp only
  intro v hv hheld hwin
  rw [World.apply_engine]
  by_cases hne : v = vk
  · subst hne
    rw [World.apply_held] at hheld
    rw [World.apply_windows] at hwin
    have hdown : move.direction = .down := by
      cases move
      · rfl
      · rfl
      · exact absurd hheld (by decide)
    have h := onKey_down_decided w.engine v bindings (w.env scene)
    rw [hdown] at hwin ⊢
    rcases h.own hv.1 with ⟨hs, _⟩ | ⟨_, hrec⟩
    · -- A key-down that passes leaves the key down in Windows.
      rw [hs, hheld] at hwin
      exact absurd hwin (by simp)
    · exact hrec
  · rw [World.apply_held_ne _ _ _ hne] at hheld
    rw [World.apply_windows_ne _ _ _ hne] at hwin
    have hold := hw v hv hheld hwin
    cases hdir : move.direction
    · rcases (onKey_down_decided w.engine vk bindings (w.env scene)).others v hne with
        hl | ⟨_, _, hl⟩
      · rw [hl, KeyState.clearReleasedModifiers_lastDown]
        exact hold
      · exact Or.inl hl
    · rw [(onKey_up_decided w.engine vk bindings (w.env scene)).others v hne]
      exact hold

/-- An event that goes past the hook leaves the key in Windows as the user has
it. -/
theorem upIsOnRecord_hidden {w : World α} (hw : UpIsOnRecord w) (move : KeyMove)
    (vk : VirtualKey) : UpIsOnRecord (w.step (.hidden move vk)).1 := by
  unfold World.step
  intro v hv hheld hwin
  rw [World.apply_engine]
  by_cases hne : v = vk
  · subst hne
    rw [World.apply_held] at hheld
    rw [World.apply_windows, hheld] at hwin
    exact absurd hwin (by simp)
  · rw [World.apply_held_ne _ _ _ hne] at hheld
    rw [World.apply_windows_ne _ _ _ hne] at hwin
    exact hw v hv hheld hwin

/-- A reset overwrites no swallowed record of a key that Windows has up. -/
theorem reset_records (w : World α) (reason : ResetReason) (scene : Scene) {v : VirtualKey}
    (hv : Physical v) (hwin : w.windows v = false)
    (hrec : Swallowed (w.engine.keys.lastDown v)) :
    (w.engine.reset (w.env scene) reason).keys.lastDown v = w.engine.keys.lastDown v := by
  rcases w.engine.reset_keys (w.env scene) reason with hk | hk | hk
  · rw [hk]
    have hup : KeyState.osHeld (w.env scene) v = false := by
      unfold KeyState.osHeld
      rw [World.env_osKeyDown, w.osKeyDown_physical hv.2, hwin, Bool.and_false]
    unfold KeyState.resyncFromOs
    rcases hrec with hrec | hrec <;> simp [hv.1, hup, hrec]
  · rw [hk]
  · rw [hk]
    rfl

/-- **Every move keeps the implication.** -/
theorem upIsOnRecord_step : (machine (AnyMove (α := α))).Invariant UpIsOnRecord := by
  rintro w move hw ⟨hallowed, _⟩
  cases move with
  | key m vk bindings scene => exact upIsOnRecord_key hw m bindings scene hallowed
  | hidden m vk => exact upIsOnRecord_hidden hw m vk
  | reset reason scene =>
    exact upIsOnRecord_of_records hw fun v hv hwin hrec => reset_records w reason scene hv hwin hrec
  | foregroundChanged => exact upIsOnRecord_of_records hw fun _ _ _ _ => rfl
  | resyncIfDue notes scene =>
    refine upIsOnRecord_of_records hw fun v _ _ _ => ?_
    rcases w.engine.resyncIfDue_keys (w.env scene) notes with hk | ⟨which, hk⟩
    · rw [hk]
    · rw [hk, KeyState.resyncModifiers_lastDown]
  | inputReturned => exact upIsOnRecord_of_records hw fun _ _ _ _ => rfl
  | timer token =>
    exact upIsOnRecord_of_records hw fun v _ _ _ => by rw [onTimer_keys]
  | forget token =>
    exact upIsOnRecord_of_records hw fun v _ _ _ => by rw [forgetTimer_keys]

/-- A key-up of a held key is swallowed exactly if Windows has the key up. -/
theorem keyUp_suppress {w : World α} (hw : UpIsOnRecord w) {vk : VirtualKey}
    (bindings : List (Binding α)) (scene : Scene) (hvk : Physical vk) (hheld : w.held vk = true) :
    (w.engine.onKey ⟨vk, .up⟩ bindings (w.env scene)).2.suppress = !w.windows vk := by
  have h := onKey_up_decided w.engine vk bindings (w.env scene)
  have hos : (w.env scene).osKeyDown vk = w.windows vk := w.osKeyDown_physical hvk.2
  cases hwin : w.windows vk
  · exact h.swallows hvk.1 (hos.trans hwin) (hw vk hvk hheld hwin)
  · exact h.passes (hos.trans hwin)

/-- **No key sticks in Windows and no decided key-up is an orphan.** Whatever
went past the hook, a key-up given to the engine is passed exactly if Windows
has the key down just before it, and Windows has the key up after it. -/
theorem key_up_follows_windows {moves : List (Move α)}
    (hlegal : (machine AnyMove).Legal World.new moves) {vk : VirtualKey}
    {x : Moment (World α) (Move α) (Option (Decision α))}
    (hx : x ∈ (machine AnyMove).trace World.new moves) (hup : x.input.IsKey .release vk) :
    (suppressed x = some false ↔ x.before.windows vk = true) ∧ x.after.windows vk = false := by
  obtain ⟨hw, henabled, hm⟩ := upIsOnRecord_step.trace upIsOnRecord_new hlegal x hx
  generalize x.before = w at hw henabled hm ⊢
  generalize x.input = move at henabled hm hup
  subst hm
  cases move with
  | key m v bindings scene =>
    obtain ⟨rfl, rfl⟩ := hup
    have hs := keyUp_suppress hw bindings scene henabled.1 henabled.2
    have houtput : suppressed ((machine AnyMove).moment w (.key .release v bindings scene)) =
        some !w.windows v := congrArg some hs
    refine ⟨?_, ?_⟩
    · rw [houtput]
      cases w.windows v <;> simp
    · have hafter : ((machine AnyMove).moment w (.key .release v bindings scene)).after.windows v =
          (bif !(w.engine.onKey ⟨v, .up⟩ bindings (w.env scene)).2.suppress then false
            else w.windows v) := World.apply_windows _ _ _ _
      rw [hafter, hs]
      cases w.windows v <;> rfl
  | _ => exact absurd hup id

/-- A press that goes past the hook, and the release that the engine decides. -/
theorem key_up_follows_windows_hidden :
    let m := machine (α := Unit) AnyMove
    let down := m.moment World.new (.hidden .press 0x41)
    let up := m.moment down.after (.key .release 0x41 [] ⟨0, ⟨none, none, id⟩⟩)
    (suppressed up = some false ↔ up.before.windows 0x41 = true) ∧
      up.after.windows 0x41 = false := by
  intro m down up
  have hvk : Physical 0x41 := ⟨by decide, by decide⟩
  have hlegal : m.Legal World.new [.hidden .press 0x41,
      .key .release 0x41 [] ⟨0, ⟨none, none, id⟩⟩] := ⟨⟨hvk, rfl⟩, ⟨hvk, rfl⟩, trivial⟩
  have hx : up ∈ m.trace World.new [.hidden .press 0x41,
      .key .release 0x41 [] ⟨0, ⟨none, none, id⟩⟩] :=
    List.mem_cons_of_mem _ List.mem_cons_self
  exact key_up_follows_windows hlegal hx (show _ ∧ _ from ⟨rfl, rfl⟩)

end KeySwitch.Engine
