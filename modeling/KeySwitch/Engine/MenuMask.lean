import KeySwitch.Engine.Windows

/-!
# The menu mask is asked for exactly when Windows would see a lone Alt or Win

A swallowed event under an Alt or Win key that Windows has down needs the mask
key, or the release of that key opens a menu. The engine decides this from its
own flags and records. They are exact here although key-ups may go past the
hook: whatever Windows has down is active and on record as passed (`Followed`),
and a flag that outlives its key is dropped by the check that comes before every
read of it.
-/

namespace KeySwitch.Engine

open Data Lib

variable {α : Type}

/-- The moves of these runs: a key-up may be hidden, a key-down may not, a
reset is a reload's, and no binding list has a `MaskOnly` blocker. -/
def UpsHiddenMove : Move α → Prop
  | .key _ vk bindings _ => vk ∉ GENERIC_MODIFIERS ∧ NoMaskOnly bindings
  | .hidden move vk => move = .release ∧ vk ∉ GENERIC_MODIFIERS
  | .reset reason _ => reason = .reloaded
  | _ => True

/-- The Alt and Win keys. -/
def ALT_WIN : List VirtualKey := [VK_LMENU, VK_RMENU, VK_LWIN, VK_RWIN]

/-- The engine follows every key-down, and may only miss key-ups. -/
structure Followed (w : World α) : Prop where
  windows : ∀ v, v < 256 → v ∉ GENERIC_MODIFIERS → w.windows v = true →
    w.engine.keys.active v = true ∧ w.engine.keys.lastDown v = .passed
  record : ∀ v, v < 256 → w.engine.keys.active v = true →
    w.engine.keys.lastDown v = .passed ∨ w.engine.keys.lastDown v = .suppressed
  generic : ∀ v, v ∈ GENERIC_MODIFIERS → w.engine.keys.active v = false
  owed : w.engine.maskOwed = false

theorem followed_new : Followed (World.new : World α) :=
  ⟨fun _ _ _ h => absurd h (by simp [World.new]),
    fun _ _ h => absurd h (by simp [World.new, Engine.new, KeyState.new]), fun _ _ => rfl, rfl⟩

/-- An operation that leaves the tables and the owed mask alone keeps
`Followed`. -/
theorem followed_of_keys {w : World α} (hw : Followed w) {e : Engine α}
    (hk : e.keys = w.engine.keys) (ho : e.maskOwed = w.engine.maskOwed) :
    Followed { w with engine := e } := by
  refine ⟨?_, ?_, ?_, ho.trans hw.owed⟩
  · intro v hv hg hwin
    dsimp only
    rw [hk]
    exact hw.windows v hv hg hwin
  · intro v hv hact
    dsimp only at hact ⊢
    rw [hk] at hact ⊢
    exact hw.record v hv hact
  · intro v hg
    dsimp only
    rw [hk]
    exact hw.generic v hg

theorem sided_generic : ∀ v ∈ GENERIC_MODIFIERS, ModifierSet.sided.contains v = false := by
  decide

/-- The check keeps every key that Windows has down. -/
theorem followed_check {w : World α} (hw : Followed w) (scene : Scene) (own : VirtualKey)
    {v : VirtualKey} (hv : v < 256) (hg : v ∉ GENERIC_MODIFIERS) (hwin : w.windows v = true) :
    (w.engine.keys.clearReleasedModifiers (w.env scene) own .all).active v = true := by
  rw [KeyState.clearReleasedModifiers_active, World.env_osKeyDown, w.osKeyDown_physical hg, hwin,
    (hw.windows v hv hg hwin).1]
  simp

/-- The check makes no key active. -/
theorem active_of_check {w : World α} {scene : Scene} {own v : VirtualKey}
    (h : (w.engine.keys.clearReleasedModifiers (w.env scene) own .all).active v = true) :
    w.engine.keys.active v = true := by
  rw [KeyState.clearReleasedModifiers_active, Bool.and_eq_true] at h
  exact h.1

/-- A decided key-down keeps `Followed`. -/
theorem followed_down {w : World α} (hw : Followed w) (move : KeyMove) {vk : VirtualKey}
    {bindings : List (Binding α)} (scene : Scene) (hvk : vk ∉ GENERIC_MODIFIERS)
    (hmask : NoMaskOnly bindings) (hdir : move.direction = .down) :
    Followed (w.step (.key move vk bindings scene)).1 := by
  unfold World.step
  dsimp only
  rw [hdir]
  have h := onKey_down_decided w.engine vk bindings (w.env scene)
  refine ⟨fun v hv hg hwin => ?_, fun v hv hact => ?_, fun v hg => ?_, ?_⟩
  · rw [World.apply_engine]
    by_cases hne : v = vk
    · subst hne
      refine ⟨by rw [h.active, if_pos ⟨rfl, hv⟩], ?_⟩
      rw [World.apply_windows] at hwin
      rcases h.own hv with ⟨_, hl⟩ | ⟨hs, _⟩
      · exact hl
      · -- Windows had the key down before, so its record is passed, and a
        -- repeat of it is not swallowed.
        rw [hs] at hwin
        have hpassed := h.afterPassed hv (followed_check hw scene v hv hg hwin)
          (by rw [KeyState.clearReleasedModifiers_lastDown]
              exact (hw.windows v hv hg hwin).2)
        exact hpassed.2
    · rw [World.apply_windows_ne _ _ _ hne] at hwin
      refine ⟨?_, ?_⟩
      · rw [h.active, if_neg fun hv' => hne hv'.1]
        exact followed_check hw scene vk hv hg hwin
      · have hold := (hw.windows v hv hg hwin).2
        rcases h.others v hne with hl | ⟨_, hp, _⟩
        · rw [hl, KeyState.clearReleasedModifiers_lastDown]
          exact hold
        · rw [KeyState.clearReleasedModifiers_lastDown] at hp
          exact absurd hold hp
  · rw [World.apply_engine] at hact ⊢
    by_cases hne : v = vk
    · subst hne
      cases hold : (w.engine.keys.clearReleasedModifiers (w.env scene) v .all).active v
      · rw [h.first hv hold]
        cases (w.engine.onKey ⟨v, .down⟩ bindings (w.env scene)).2.suppress <;> simp
      · rcases hw.record v hv (active_of_check hold) with hl | hl
        · exact Or.inl (h.afterPassed hv hold
            (by rw [KeyState.clearReleasedModifiers_lastDown, hl])).2
        · exact Or.inr (h.afterSwallowed hv hold
            (by rw [KeyState.clearReleasedModifiers_lastDown, hl])).2
    · rw [h.active, if_neg fun hv' => hne hv'.1] at hact
      rcases h.others v hne with hl | ⟨_, _, hl⟩
      · rw [hl, KeyState.clearReleasedModifiers_lastDown]
        exact hw.record v hv (active_of_check hact)
      · exact Or.inr hl
  · rw [World.apply_engine, h.active]
    have hne : v ≠ vk := fun he => hvk (he ▸ hg)
    rw [if_neg fun hv' => hne hv'.1, KeyState.clearReleasedModifiers_active, hw.generic v hg]
    rfl
  · exact (onKey_mask w.engine ⟨vk, .down⟩ hmask (w.env scene) hw.owed).2

/-- A decided key-up keeps `Followed`. -/
theorem followed_up {w : World α} (hw : Followed w) {vk : VirtualKey}
    {bindings : List (Binding α)} (scene : Scene) (hvk : vk ∉ GENERIC_MODIFIERS)
    (hmask : NoMaskOnly bindings) :
    Followed (w.step (.key .release vk bindings scene)).1 := by
  unfold World.step
  dsimp only [KeyMove.direction]
  have h := onKey_up_decided w.engine vk bindings (w.env scene)
  refine ⟨fun v hv hg hwin => ?_, fun v hv hact => ?_, fun v hg => ?_, ?_⟩
  · rw [World.apply_engine]
    have hne : v ≠ vk := by
      rintro rfl
      rw [World.apply_windows] at hwin
      -- The witness: a key-up that leaves the key down in Windows passes.
      cases hs : (w.engine.onKey ⟨v, .up⟩ bindings (w.env scene)).2.suppress
      · rw [hs] at hwin
        exact absurd hwin (by simp)
      · rw [hs] at hwin
        have hpass := h.passes ((w.osKeyDown_physical hvk).trans hwin)
        exact absurd (hs.symm.trans hpass) (by decide)
    rw [World.apply_windows_ne _ _ _ hne] at hwin
    obtain ⟨hact, hl⟩ := hw.windows v hv hg hwin
    refine ⟨?_, by rw [h.others v hne, hl]⟩
    rw [h.active, hact, World.env_osKeyDown, w.osKeyDown_physical hg, hwin]
    simp [hne]
  · rw [World.apply_engine] at hact ⊢
    rw [h.active, Bool.and_eq_true, Bool.and_eq_true] at hact
    have hne : v ≠ vk := by
      rintro rfl
      simp [hv] at hact
    rw [h.others v hne]
    exact hw.record v hv hact.1.1
  · rw [World.apply_engine, h.active, hw.generic v hg]
    rfl
  · exact (onKey_mask w.engine ⟨vk, .up⟩ hmask (w.env scene) hw.owed).2

/-- A key-up that goes past the hook keeps `Followed`: it only lets a flag
outlive its key. -/
theorem followed_hidden {w : World α} (hw : Followed w) (vk : VirtualKey) :
    Followed (w.step (.hidden .release vk)).1 := by
  unfold World.step
  refine ⟨fun v hv hg hwin => ?_, hw.record, hw.generic, hw.owed⟩
  by_cases hne : v = vk
  · subst hne
    rw [World.apply_windows] at hwin
    exact absurd hwin (by simp)
  · rw [World.apply_windows_ne _ _ _ hne] at hwin
    exact hw.windows v hv hg hwin

/-- A read of the modifiers keeps `Followed`: it drops no key that Windows has
down, and what it finds down is on record as passed. -/
theorem followed_resync {w : World α} (hw : Followed w) (notes : Nat) (scene : Scene) :
    Followed (w.step (.resyncIfDue notes scene)).1 := by
  unfold World.step
  rcases w.engine.resyncIfDue_keys (w.env scene) notes with hk | ⟨which, hk⟩
  · exact followed_of_keys hw hk (resyncIfDue_maskOwed _ _ _)
  · refine ⟨fun v hv hg hwin => ?_, fun v hv hact => ?_, fun v hg => ?_, ?_⟩
    · dsimp only
      rw [hk, KeyState.resyncModifiers_lastDown]
      obtain ⟨hact, hl⟩ := hw.windows v hv hg hwin
      refine ⟨?_, hl⟩
      rcases w.engine.keys.resyncModifiers_active (w.env scene) which v with h | ⟨_, h, _⟩
      · rw [h, hact]
      · rw [h, World.env_osKeyDown, w.osKeyDown_physical hg]
        exact hwin
    · dsimp only at hact ⊢
      rw [hk] at hact ⊢
      rw [KeyState.resyncModifiers_lastDown]
      rcases w.engine.keys.resyncModifiers_active (w.env scene) which v with h | ⟨_, h, hdrop⟩
      · rw [h] at hact
        exact hw.record v hv hact
      · by_cases hg : v ∈ GENERIC_MODIFIERS
        · -- A generic code is no sided one, so a read only ever drops it.
          rw [hdrop (sided_generic v hg)] at hact
          exact absurd hact (by decide)
        · rw [h, World.env_osKeyDown, w.osKeyDown_physical hg] at hact
          exact Or.inl (hw.windows v hv hg hact).2
    · dsimp only
      rw [hk]
      rcases w.engine.keys.resyncModifiers_active (w.env scene) which v with h | ⟨_, _, hdrop⟩
      · rw [h, hw.generic v hg]
      · exact hdrop (sided_generic v hg)
    · exact (resyncIfDue_maskOwed _ _ _).trans hw.owed

/-- **Every move keeps `Followed`.** -/
theorem followed_step : (machine (UpsHiddenMove (α := α))).Invariant Followed := by
  rintro w move hw ⟨hallowed, _⟩
  cases move with
  | key m vk bindings scene =>
    cases m with
    | release => exact followed_up hw scene hallowed.1 hallowed.2
    | _ => exact followed_down hw _ scene hallowed.1 hallowed.2 rfl
  | hidden m vk =>
    obtain ⟨rfl, -⟩ := hallowed
    exact followed_hidden hw vk
  | reset reason scene =>
    obtain rfl : reason = .reloaded := hallowed
    exact followed_of_keys hw rfl hw.owed.symm
  | foregroundChanged => exact followed_of_keys hw rfl rfl
  | resyncIfDue notes scene => exact followed_resync hw notes scene
  | inputReturned => exact followed_of_keys hw rfl rfl
  | timer token => exact followed_of_keys hw (onTimer_keys _ _) (onTimer_maskOwed _ _)
  | forget token => exact followed_of_keys hw (forgetTimer_keys _ _) (forgetTimer_maskOwed _ _)

/-! ## The mask of one event -/

theorem menu_codes : ∀ k ∈ ModifierSet.menu.codes, k ∈ GENERIC_MODIFIERS ∨ k ∈ ALT_WIN := by
  decide

theorem altWin_menu : ∀ k ∈ ALT_WIN, k ∈ ModifierSet.menu.codes ∧ k < 256 ∧
    k ∉ GENERIC_MODIFIERS ∧ k ∈ ModifierSet.all.codes := by
  decide

/-- What a swallowed event leaves active and not on record as swallowed among
the Alt and Win keys, Windows has down: the check before it dropped the rest. -/
theorem altWin_down {w : World α} (move : KeyMove) {vk : VirtualKey}
    (bindings : List (Binding α)) (scene : Scene)
    (hs : (w.engine.onKey ⟨vk, move.direction⟩ bindings (w.env scene)).2.suppress = true)
    {k : VirtualKey} (hk : k ∈ ALT_WIN)
    (hact : (w.engine.onKey ⟨vk, move.direction⟩ bindings (w.env scene)).1.keys.active k = true)
    (hrec : (w.engine.onKey ⟨vk, move.direction⟩ bindings (w.env scene)).1.keys.lastDown k =
      .passed) : w.windows k = true := by
  obtain ⟨hmenu, hlt, hg, hall⟩ := altWin_menu k hk
  have hos : (w.env scene).osKeyDown k = w.windows k := w.osKeyDown_physical hg
  cases hdir : move.direction
  · rw [hdir] at hs hact hrec
    have h := onKey_down_decided w.engine vk bindings (w.env scene)
    have hne : k ≠ vk := by
      rintro rfl
      rcases h.own hlt with ⟨hs', _⟩ | ⟨_, hl | hl⟩
      · exact absurd (hs.symm.trans hs') (by decide)
      · exact absurd (hrec.symm.trans hl) (by decide)
      · exact absurd (hrec.symm.trans hl) (by decide)
    have hpassed : w.engine.keys.lastDown k = .passed := by
      rcases h.others k hne with hl | ⟨_, _, hl⟩
      · rw [hl, KeyState.clearReleasedModifiers_lastDown] at hrec
        exact hrec
      · exact absurd (hrec.symm.trans hl) (by decide)
    rw [h.active, if_neg fun hv => hne hv.1, KeyState.clearReleasedModifiers_active, hos,
      hpassed, Bool.and_eq_true] at hact
    simpa [hall, hne] using hact.2
  · rw [hdir] at hs hact hrec
    have h := onKey_up_decided w.engine vk bindings (w.env scene)
    rw [h.active, Bool.and_eq_true, Bool.and_eq_true] at hact
    have hne : k ≠ vk := by
      rintro rfl
      simp [hlt] at hact
    rw [h.others k hne] at hrec
    simpa [hs, hmenu, hne, hrec, hos] using hact.2

/-- One event's mask, in a world the engine follows. -/
theorem mask_of_followed {w : World α} (hw : Followed w) (move : KeyMove) {vk : VirtualKey}
    {bindings : List (Binding α)} (scene : Scene)
    (hallowed : UpsHiddenMove (.key move vk bindings scene))
    (hafter : Followed (w.step (.key move vk bindings scene)).1) :
    let decided := w.engine.onKey ⟨vk, move.direction⟩ bindings (w.env scene)
    decided.2.mask = true ↔ decided.2.suppress = true ∧ ∃ k ∈ ALT_WIN, w.windows k = true := by
  intro decided
  have hmask : decided.2.mask = (decided.2.suppress && decided.1.keys.altOrWinDownInWindows) :=
    (onKey_mask w.engine ⟨vk, move.direction⟩ hallowed.2 (w.env scene) hw.owed).1
  rw [hmask, Bool.and_eq_true]
  refine and_congr_right fun hs => ?_
  unfold KeyState.altOrWinDownInWindows
  rw [List.any_eq_true]
  refine ⟨fun ⟨k, hk, hdown⟩ => ?_, fun ⟨k, hk, hwin⟩ => ?_⟩
  · rw [Bool.and_eq_true, KeyState.keyDownSwallowed] at hdown
    rcases menu_codes k hk with hg | hk'
    · exact absurd (hdown.1.symm.trans (hafter.generic k hg)) (by decide)
    · refine ⟨k, hk', altWin_down move bindings scene hs hk' hdown.1 ?_⟩
      rcases hafter.record k (altWin_menu k hk').2.1 hdown.1 with hl | hl
      · exact hl
      · have hsup : decided.1.keys.lastDown k = .suppressed := hl
        simp [hsup] at hdown
  · obtain ⟨hmenu, hlt, hg, -⟩ := altWin_menu k hk
    have hwin' : (w.step (.key move vk bindings scene)).1.windows k = true := by
      unfold World.step
      dsimp only
      by_cases hne : k = vk
      · subst hne
        rw [World.apply_windows]
        have hnot : (!(w.engine.onKey ⟨k, move.direction⟩ bindings (w.env scene)).2.suppress) =
            false := congrArg Bool.not hs
        rw [hnot]
        exact hwin
      · rw [World.apply_windows_ne _ _ _ hne]
        exact hwin
    obtain ⟨hact, hl⟩ := hafter.windows k hlt hg hwin'
    have hact' : decided.1.keys.active k = true := hact
    have hl' : decided.1.keys.lastDown k = .passed := hl
    exact ⟨k, hmenu, by rw [hact', KeyState.keyDownSwallowed, hl']; rfl⟩

/-- **The menu mask rule.** In a run where only key-ups may go past the hook,
the decision of a key event has the mask set exactly if the event is suppressed
and Windows has an Alt or Win key down at that moment. -/
theorem mask_iff_suppressed_under_alt_or_win {moves : List (Move α)}
    (hlegal : (machine UpsHiddenMove).Legal World.new moves)
    {x : Moment (World α) (Move α) (Option (Decision α))}
    (hx : x ∈ (machine UpsHiddenMove).trace World.new moves) {d : Decision α}
    (hd : x.output = some d) :
    d.mask = true ↔ d.suppress = true ∧ ∃ k ∈ ALT_WIN, x.before.windows k = true := by
  obtain ⟨hw, henabled, hm⟩ := followed_step.trace followed_new hlegal x hx
  generalize x.before = w at hw henabled hm ⊢
  generalize x.input = move at henabled hm
  subst hm
  have hafter := followed_step w move hw henabled
  cases move with
  | key m vk bindings scene =>
    obtain rfl := Option.some.inj hd
    exact mask_of_followed hw m scene henabled.1 hafter
  | _ => exact absurd hd (by simp [machine, World.step])

/-- A press of Alt that passes, and one of A that a binding swallows under it. -/
theorem mask_iff_suppressed_under_alt_or_win_altA :
    let m := machine (α := Unit) UpsHiddenMove
    let scene : Scene := ⟨0, ⟨none, none, id⟩⟩
    let alt : Move Unit := .key .press VK_LMENU [] scene
    let a : Move Unit := .key .press 0x41
      [⟨.combo ⟨[.anySide .alt, .key 0x41]⟩, (), true, .always, .immediate, false, false, none⟩]
      scene
    let down := m.moment (m.moment World.new alt).after a
    ∃ d, down.output = some d ∧
      (d.mask = true ↔ d.suppress = true ∧ ∃ k ∈ ALT_WIN, down.before.windows k = true) := by
  intro m scene alt a down
  have hlegal : m.Legal World.new [alt, a] := by
    refine ⟨⟨⟨by decide, fun b hb => ?_⟩, rfl⟩, ⟨⟨by decide, fun b hb => ?_⟩, rfl⟩, trivial⟩
    · exact absurd hb (by simp)
    · rw [List.mem_singleton] at hb
      rw [hb]
      decide
  have hx : down ∈ m.trace World.new [alt, a] := List.mem_cons_of_mem _ List.mem_cons_self
  exact ⟨_, rfl, mask_iff_suppressed_under_alt_or_win hlegal hx rfl⟩

end KeySwitch.Engine
