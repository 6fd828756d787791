import KeySwitch.Engine.Decide

/-!
# What a key event does to the key tables

A decision rewrites many things at once; this module says what it can do to the
two tables of `KeyState` and to `suppress` and `mask`, so that an invariant
about keys never looks into the walk over the bindings.

`Completed` is all a walk can do to the tables: suppress the record of a held
key whose key-down did not pass. `KeyDownDecided` and `KeyUpDecided` describe a
whole key event, from the tables it finds to the tables it leaves.
-/

namespace KeySwitch.Engine

open Data

variable {α : Type}

/-! ## Completions -/

/-- What completed chords and sequences can do to the tables. -/
structure Completed (ks ks' : KeyState) : Prop where
  active : ks'.active = ks.active
  lastDown : ∀ v, ks'.lastDown v = ks.lastDown v ∨
    (ks.active v = true ∧ ks.lastDown v ≠ .passed ∧ ks'.lastDown v = .suppressed)

theorem completed_refl (ks : KeyState) : Completed ks ks := ⟨rfl, fun _ => Or.inl rfl⟩

theorem completed_trans {ks₁ ks₂ ks₃ : KeyState} (h₁ : Completed ks₁ ks₂)
    (h₂ : Completed ks₂ ks₃) : Completed ks₁ ks₃ := by
  refine ⟨h₂.active.trans h₁.active, fun v => ?_⟩
  rcases h₁.lastDown v with h | ⟨ha, hp, h⟩
  · rcases h₂.lastDown v with h' | ⟨ha', hp', h'⟩
    · exact Or.inl (h'.trans h)
    · rw [h₁.active] at ha'
      rw [h] at hp'
      exact Or.inr ⟨ha', hp', h'⟩
  · rcases h₂.lastDown v with h' | ⟨_, _, h'⟩
    · exact Or.inr ⟨ha, hp, h'.trans h⟩
    · exact Or.inr ⟨ha, hp, h'⟩

theorem completed_markCompleted (ks : KeyState) (vk : VirtualKey) :
    Completed ks (ks.markCompleted vk) :=
  ⟨ks.markCompleted_active vk, ks.markCompleted_lastDown vk⟩

theorem completed_foldl (keys : List VirtualKey) (ks : KeyState) :
    Completed ks (keys.foldl KeyState.markCompleted ks) := by
  induction keys generalizing ks with
  | nil => exact completed_refl ks
  | cons k keys ih => exact completed_trans (completed_markCompleted ks k) (ih _)

/-! ## The walk over the bindings -/

/-- What visits of bindings can do to the tables and to the decision: a
completion, which asks for suppression, and asking for it in general. -/
structure Visited (acc acc' : Engine α × Decision α) : Prop where
  keys : Completed acc.1.keys acc'.1.keys
  suppress : acc.2.suppress = true → acc'.2.suppress = true
  asked : acc'.1.keys = acc.1.keys ∨ acc'.2.suppress = true

theorem visited_of_keys {acc acc' : Engine α × Decision α} (hk : acc'.1.keys = acc.1.keys)
    (hs : acc.2.suppress = true → acc'.2.suppress = true) : Visited acc acc' :=
  ⟨by rw [hk]; exact completed_refl _, hs, Or.inl hk⟩

theorem visited_trans {acc₁ acc₂ acc₃ : Engine α × Decision α} (h₁ : Visited acc₁ acc₂)
    (h₂ : Visited acc₂ acc₃) : Visited acc₁ acc₃ := by
  refine ⟨completed_trans h₁.keys h₂.keys, fun h => h₂.suppress (h₁.suppress h), ?_⟩
  rcases h₂.asked with hk | hs
  · rcases h₁.asked with hk' | hs'
    · exact Or.inl (hk.trans hk')
    · exact Or.inr (h₂.suppress hs')
  · exact Or.inr hs

theorem visitBlocker_visited (k : KeyDown α) (combo : KeyCombination) (mode : BlockerMode)
    (condition : Condition) (e : Engine α) (d : Decision α) :
    Visited (e, d) (visitBlocker k combo mode condition e d) := by
  unfold visitBlocker
  split
  · cases mode
    · exact visited_of_keys rfl fun _ => rfl
    · dsimp only
      split <;> exact visited_of_keys rfl id
  · exact visited_of_keys rfl id

theorem visitCombo_visited (k : KeyDown α) (index : Nat) (binding : Binding α) (e : Engine α)
    (d : Decision α) : Visited (e, d) (visitCombo k index binding e d) := by
  unfold visitCombo
  split
  · exact visited_of_keys rfl id
  · split
    · refine visited_of_keys rfl fun h => ?_
      dsimp only
      split
      · rfl
      · split <;> exact h
    · exact visited_of_keys rfl id

theorem visitSequence_visited (k : KeyDown α) (steps : List KeyCombination) (maxGap : Duration)
    (binding : Binding α) (e : Engine α) (d : Decision α) :
    Visited (e, d) (visitSequence k steps maxGap binding e d) := by
  unfold visitSequence
  split
  · exact visited_of_keys rfl id
  · dsimp only
    split
    · exact visited_of_keys rfl id
    · exact visited_of_keys rfl fun _ => rfl
    · exact ⟨completed_foldl _ _, fun _ => rfl, Or.inr rfl⟩

theorem visitChord_visited (k : KeyDown α) (chordKeys : List KeySpec) (window : Duration)
    (binding : Binding α) (e : Engine α) (d : Decision α) :
    Visited (e, d) (visitChord k chordKeys window binding e d) := by
  unfold visitChord
  split
  · exact visited_of_keys rfl id
  · dsimp only
    split
    · exact visited_of_keys rfl id
    · exact visited_of_keys rfl fun _ => rfl
    · exact visited_of_keys rfl fun _ => rfl
    · exact ⟨completed_foldl _ _, fun _ => rfl, Or.inr rfl⟩

theorem visit_visited (k : KeyDown α) (acc : Engine α × Decision α) (entry : Binding α × Nat) :
    Visited acc (visit k acc entry) := by
  refine visit_cases k acc entry ?_ ?_ ?_ ?_
  · exact fun combo mode _ => visitBlocker_visited k combo mode _ _ _
  · exact visitCombo_visited k _ _ _ _
  · exact fun steps maxGap => visitSequence_visited k steps maxGap _ _ _
  · exact fun keys window => visitChord_visited k keys window _ _ _

theorem visits_visited (k : KeyDown α) (entries : List (Binding α × Nat))
    (acc : Engine α × Decision α) : Visited acc (entries.foldl (visit k) acc) := by
  induction entries generalizing acc with
  | nil => exact visited_of_keys rfl id
  | cons entry entries ih => exact visited_trans (visit_visited k acc entry) (ih _)

/-- The walk changes the tables by completions only, and then asks for
suppression. -/
theorem walk_keys (e : Engine α) (k : KeyDown α) (bindings : List (Binding α)) :
    Completed e.keys (e.walk k bindings).1.keys ∧
      ((e.walk k bindings).1.keys = e.keys ∨ (e.walk k bindings).2.suppress = true) := by
  unfold walk
  have h := visits_visited k bindings.zipIdx
    (if k.wasRepeat then (e, .default) else e.firstKeyDown k bindings)
  have hk : (if k.wasRepeat then (e, .default) else e.firstKeyDown k bindings).1.keys = e.keys := by
    split <;> rfl
  have hkeys := h.keys
  have hasked := h.asked
  rw [hk] at hkeys hasked
  exact ⟨hkeys, hasked⟩

/-! ## The mask of a walk -/

/-- No auto-blocker of the list lets its hotkey through with the mask key. -/
def NoMaskOnly (bindings : List (Binding α)) : Prop :=
  ∀ b ∈ bindings, b.autoBlocker ≠ some .maskOnly

/-- What a visit leaves of the mask: asked for no more, owed no more. -/
def SameMask (acc acc' : Engine α × Decision α) : Prop :=
  acc'.2.mask = acc.2.mask ∧ acc'.1.maskOwed = acc.1.maskOwed

theorem visit_mask (k : KeyDown α) (acc : Engine α × Decision α) {entry : Binding α × Nat}
    (h : entry.1.autoBlocker ≠ some .maskOnly) : SameMask acc (visit k acc entry) := by
  refine visit_cases k acc entry (fun combo mode hmode => ?_) ?_ (fun steps maxGap => ?_)
    (fun keys window => ?_)
  · unfold visitBlocker
    split
    · cases mode
      · exact ⟨rfl, rfl⟩
      · exact absurd hmode h
    · exact ⟨rfl, rfl⟩
  · unfold visitCombo
    split
    · exact ⟨rfl, rfl⟩
    · split
      · dsimp only
        split <;> split <;> exact ⟨rfl, rfl⟩
      · exact ⟨rfl, rfl⟩
  · unfold visitSequence
    split
    · exact ⟨rfl, rfl⟩
    · dsimp only
      split <;> exact ⟨rfl, rfl⟩
  · unfold visitChord
    split
    · exact ⟨rfl, rfl⟩
    · dsimp only
      split <;> exact ⟨rfl, rfl⟩

/-- Without `MaskOnly` blockers the walk asks for no mask and owes none. -/
theorem walk_mask (e : Engine α) (k : KeyDown α) {bindings : List (Binding α)}
    (h : NoMaskOnly bindings) :
    (e.walk k bindings).2.mask = false ∧ (e.walk k bindings).1.maskOwed = e.maskOwed := by
  have hvisits : ∀ (entries : List (Binding α × Nat)) (acc : Engine α × Decision α),
      (∀ entry ∈ entries, entry.1.autoBlocker ≠ some .maskOnly) →
      SameMask acc (entries.foldl (visit k) acc) := by
    intro entries
    induction entries with
    | nil => exact fun _ _ => ⟨rfl, rfl⟩
    | cons entry entries ih =>
      intro acc hall
      have hfirst := visit_mask k acc (hall entry List.mem_cons_self)
      have hrest := ih (visit k acc entry) fun x hx => hall x (List.mem_cons_of_mem _ hx)
      exact ⟨hrest.1.trans hfirst.1, hrest.2.trans hfirst.2⟩
  have hall : ∀ entry ∈ bindings.zipIdx, entry.1.autoBlocker ≠ some .maskOnly :=
    fun entry hentry => h entry.1 (List.fst_mem_of_mem_zipIdx hentry)
  have hwalk := hvisits bindings.zipIdx
    (if k.wasRepeat then (e, .default) else e.firstKeyDown k bindings) hall
  unfold walk
  refine ⟨hwalk.1.trans ?_, hwalk.2.trans ?_⟩
  · split <;> rfl
  · split <;> rfl

/-! ## The record rule -/

/-- A key-down of `vk`, from the tables `ks` after the check of the modifiers to
the tables `ks'` it leaves, with `suppress` decided. A code without an entry
leaves the flags alone and has no record. -/
structure KeyDownDecided (vk : VirtualKey) (ks ks' : KeyState) (suppress : Bool) : Prop where
  active : ∀ v, ks'.active v = if v = vk ∧ vk < 256 then true else ks.active v
  /-- The record of any other key changes by a completion only. -/
  others : ∀ v, v ≠ vk → ks'.lastDown v = ks.lastDown v ∨
    (ks.active v = true ∧ ks.lastDown v ≠ .passed ∧ ks'.lastDown v = .suppressed)
  /-- A first key-down is recorded as decided. -/
  first : vk < 256 → ks.active vk = false →
    ks'.lastDown vk = if suppress then .suppressed else .passed
  /-- A repeat of a swallowed key-down is swallowed. -/
  afterSwallowed : vk < 256 → ks.active vk = true → ks.lastDown vk = .suppressed →
    suppress = true ∧ ks'.lastDown vk = .suppressed
  /-- A repeat of a key-down that passed passes. -/
  afterPassed : vk < 256 → ks.active vk = true → ks.lastDown vk = .passed →
    suppress = false ∧ ks'.lastDown vk = .passed
  /-- Whatever the event was, its record says what became of it. -/
  own : vk < 256 → (suppress = false ∧ ks'.lastDown vk = .passed) ∨
    (suppress = true ∧ (ks'.lastDown vk = .suppressed ∨ ks'.lastDown vk = .repeatSuppressed))

theorem followRecord_active (ks : KeyState) (vk : VirtualKey) (wasRepeat suppress : Bool) :
    (followRecord ks vk wasRepeat suppress).1.active = ks.active := by
  by_cases h : vk < 256
  · unfold followRecord
    simp only [ks.mark_lt h]
    split
    · split
      · rfl
      · split
        · rfl
        · split <;> rfl
    · split <;> rfl
  · unfold followRecord
    simp only [ks.mark_ge h]
    split
    · split
      · rfl
      · split
        · rfl
        · split <;> rfl
    · split <;> rfl

theorem followRecord_lastDown_ne (ks : KeyState) {vk v : VirtualKey} (hv : v ≠ vk)
    (wasRepeat suppress : Bool) :
    (followRecord ks vk wasRepeat suppress).1.lastDown v = ks.lastDown v := by
  by_cases h : vk < 256
  · unfold followRecord
    simp only [ks.mark_lt h]
    split
    · split
      · rfl
      · split
        · rfl
        · split <;> simp [hv]
    · split <;> simp [hv]
  · unfold followRecord
    simp only [ks.mark_ge h]
    split
    · split
      · rfl
      · split
        · rfl
        · split <;> rfl
    · split <;> rfl

/-- The record rule of a first key-down. -/
theorem followRecord_first (ks : KeyState) {vk : VirtualKey} (h : vk < 256) (suppress : Bool) :
    (followRecord ks vk false suppress).2 = suppress ∧
      (followRecord ks vk false suppress).1.lastDown vk =
        if suppress then .suppressed else .passed := by
  unfold followRecord
  simp only [ks.mark_lt h]
  cases suppress <;> simp

/-- The record rule of an auto-repeat, by the record it finds. -/
theorem followRecord_repeat (ks : KeyState) {vk : VirtualKey} (h : vk < 256) (suppress : Bool) :
    (ks.lastDown vk = .suppressed → followRecord ks vk true suppress = (ks, true)) ∧
    (ks.lastDown vk = .passed → followRecord ks vk true suppress = (ks, false)) ∧
    (ks.lastDown vk ≠ .suppressed → ks.lastDown vk ≠ .passed →
      (followRecord ks vk true suppress).2 = suppress ∧
      (followRecord ks vk true suppress).1.lastDown vk =
        if suppress then .repeatSuppressed else .passed) := by
  unfold followRecord
  simp only [ks.mark_lt h, ks.isBlocked_lt h, ks.isPassed_lt h]
  refine ⟨fun hr => ?_, fun hr => ?_, fun hs hp => ?_⟩
  · simp [hr]
  · simp [hr]
  · cases suppress <;> simp [hs, hp]

/-- The mask rule leaves the suppression as the record rule decided it. -/
@[simp] theorem maskIfSwallowedUnderAltOrWin_suppress (e : Engine α) (d : Decision α) :
    (e.maskIfSwallowedUnderAltOrWin d).suppress = d.suppress := by
  unfold maskIfSwallowedUnderAltOrWin
  split <;> rfl

theorem maskIfSwallowedUnderAltOrWin_mask (e : Engine α) (d : Decision α) :
    (e.maskIfSwallowedUnderAltOrWin d).mask =
      (d.mask || (d.suppress && e.keys.altOrWinDownInWindows)) := by
  unfold maskIfSwallowedUnderAltOrWin
  split
  · next h => simp [h]
  · next h => simp [Bool.eq_false_iff.mpr h]

theorem press_active (ks : KeyState) (vk v : VirtualKey) :
    (ks.press vk).2.active v = if v = vk ∧ vk < 256 then true else ks.active v := by
  by_cases h : vk < 256
  · rw [ks.press_lt h]
    simp [h]
  · rw [ks.press_ge h]
    simp [h]

/-- A whole key-down, its modifiers checked. -/
theorem onKeyDown_decided (e : Engine α) (vk : VirtualKey) (bindings : List (Binding α))
    (env : Env) :
    KeyDownDecided vk e.keys (e.onKeyDown vk bindings env).1.keys
      (e.onKeyDown vk bindings env).2.suppress := by
  unfold onKeyDown
  dsimp only
  rw [maskIfSwallowedUnderAltOrWin_suppress]
  have hwalk := walk_keys { e with keys := (e.keys.press vk).2 }
    ⟨vk, env, (e.keys.press vk).1, elect vk bindings (e.keys.press vk).2 env.foreground⟩ bindings
  generalize walk { e with keys := (e.keys.press vk).2 } _ bindings = walked at hwalk ⊢
  obtain ⟨hdone, -⟩ := hwalk
  dsimp only at hdone ⊢
  have hactive : ∀ v, walked.1.keys.active v =
      if v = vk ∧ vk < 256 then true else e.keys.active v :=
    fun v => by rw [hdone.active, press_active]
  -- A completion marks keys that are down and not passed, and nothing else touches a record.
  have hrecord : ∀ v, walked.1.keys.lastDown v = e.keys.lastDown v ∨
      ((e.keys.press vk).2.active v = true ∧ e.keys.lastDown v ≠ .passed ∧
        walked.1.keys.lastDown v = .suppressed) := by
    intro v
    have h := hdone.lastDown v
    rwa [KeyState.press_lastDown] at h
  refine ⟨fun v => ?_, fun v hv => ?_, fun h ha => ?_, fun h ha hl => ?_, fun h ha hl => ?_,
    fun h => ?_⟩
  · rw [followRecord_active]
    exact hactive v
  · rw [followRecord_lastDown_ne _ hv]
    rcases hrecord v with hl | ⟨ha, hp, hs⟩
    · exact Or.inl hl
    · rw [KeyState.press_active_ne _ hv] at ha
      exact Or.inr ⟨ha, hp, hs⟩
  · rw [e.keys.press_lt h]
    dsimp only
    rw [ha, (followRecord_first walked.1.keys h walked.2.suppress).1]
    exact (followRecord_first walked.1.keys h walked.2.suppress).2
  · have hl' : walked.1.keys.lastDown vk = .suppressed := by
      rcases hrecord vk with h' | h'
      · rw [h', hl]
      · exact h'.2.2
    rw [e.keys.press_lt h]
    dsimp only
    rw [ha, (followRecord_repeat walked.1.keys h walked.2.suppress).1 hl']
    exact ⟨rfl, hl'⟩
  · have hl' : walked.1.keys.lastDown vk = .passed := by
      rcases hrecord vk with h' | h'
      · rw [h', hl]
      · exact absurd hl h'.2.1
    rw [e.keys.press_lt h]
    dsimp only
    rw [ha, (followRecord_repeat walked.1.keys h walked.2.suppress).2.1 hl']
    exact ⟨rfl, hl'⟩
  · have hfirst := followRecord_first walked.1.keys h walked.2.suppress
    have hrepeat := followRecord_repeat walked.1.keys h walked.2.suppress
    cases (e.keys.press vk).1
    · rw [hfirst.1, hfirst.2]
      cases walked.2.suppress <;> simp
    · by_cases hs : walked.1.keys.lastDown vk = .suppressed
      · rw [hrepeat.1 hs]
        exact Or.inr ⟨rfl, Or.inl hs⟩
      · by_cases hp : walked.1.keys.lastDown vk = .passed
        · rw [hrepeat.2.1 hp]
          exact Or.inl ⟨rfl, hp⟩
        · rw [(hrepeat.2.2 hs hp).1, (hrepeat.2.2 hs hp).2]
          cases walked.2.suppress <;> simp

/-- Without `MaskOnly` blockers a key-down asks for the mask by the mask rule
alone. -/
theorem onKeyDown_mask (e : Engine α) (vk : VirtualKey) {bindings : List (Binding α)}
    (h : NoMaskOnly bindings) (env : Env) :
    (e.onKeyDown vk bindings env).2.mask =
        ((e.onKeyDown vk bindings env).2.suppress &&
          (e.onKeyDown vk bindings env).1.keys.altOrWinDownInWindows) ∧
      (e.onKeyDown vk bindings env).1.maskOwed = e.maskOwed := by
  unfold onKeyDown
  dsimp only
  rw [maskIfSwallowedUnderAltOrWin_mask, maskIfSwallowedUnderAltOrWin_suppress]
  have hwalk := walk_mask { e with keys := (e.keys.press vk).2 }
    ⟨vk, env, (e.keys.press vk).1, elect vk bindings (e.keys.press vk).2 env.foreground⟩ h
  rw [hwalk.1]
  exact ⟨Bool.false_or _, hwalk.2⟩

/-! ## A key-up -/

/-- A key-up of `vk`, from the tables it finds to the tables it leaves. -/
structure KeyUpDecided (vk : VirtualKey) (env : Env) (ks ks' : KeyState) (suppress : Bool) :
    Prop where
  /-- The key goes up; a swallowed key-up also drops the Alt and Win keys that
  Windows has up. -/
  active : ∀ v, ks'.active v = (ks.active v && !(v == vk && decide (vk < 256)) &&
    !(suppress && ModifierSet.menu.codes.contains v && v != vk && ks.lastDown v != .suppressed &&
      !env.osKeyDown v))
  others : ∀ v, v ≠ vk → ks'.lastDown v = ks.lastDown v
  own : vk < 256 → ks'.lastDown vk = .unknown
  /-- The witness: a key that Windows has down goes up there. -/
  passes : env.osKeyDown vk = true → suppress = false
  swallows : vk < 256 → env.osKeyDown vk = false →
    (ks.lastDown vk = .suppressed ∨ ks.lastDown vk = .repeatSuppressed) → suppress = true

theorem release_active (ks : KeyState) (vk v : VirtualKey) :
    (ks.release vk).active v = (ks.active v && !(v == vk && decide (vk < 256))) := by
  by_cases h : vk < 256
  · rw [ks.release_active_lt h]
    by_cases hv : v = vk <;> simp [hv, h]
  · by_cases hv : v = vk
    · subst hv
      simp [KeyState.release, slot_ge h, h]
    · rw [ks.release_active_ne hv]
      simp [hv]

theorem takeBlocked_active (ks : KeyState) (vk : VirtualKey) :
    (ks.takeBlocked vk).2.active = ks.active := by
  by_cases h : vk < 256
  · rw [ks.takeBlocked_lt h]
    rfl
  · rw [ks.takeBlocked_ge h]

theorem takeBlocked_lastDown_ne (ks : KeyState) {vk v : VirtualKey} (hv : v ≠ vk) :
    (ks.takeBlocked vk).2.lastDown v = ks.lastDown v := by
  by_cases h : vk < 256
  · rw [ks.takeBlocked_lt h]
    simp [hv]
  · rw [ks.takeBlocked_ge h]

/-- A whole key-up. -/
theorem onKeyUp_decided (e : Engine α) (vk : VirtualKey) (env : Env) :
    KeyUpDecided vk env e.keys (e.onKeyUp vk env).1.keys (e.onKeyUp vk env).2.suppress := by
  unfold onKeyUp
  dsimp only
  rw [maskIfSwallowedUnderAltOrWin_suppress]
  dsimp only
  generalize hswallow : (((e.keys.release vk).takeBlocked vk).1 ||
    ((e.gestures.release vk env.now
      ((e.keys.release vk).isPassed vk) e.ids.nextSeq.1).2.gestureBound
      && !(e.keys.release vk).isPassed vk)) = swallow
  have hne : ∀ v, v ≠ vk →
      ((e.keys.release vk).takeBlocked vk).2.lastDown v = e.keys.lastDown v := by
    intro v hv
    rw [takeBlocked_lastDown_ne _ hv, KeyState.release_lastDown]
  refine ⟨fun v => ?_, fun v hv => ?_, fun h => ?_, fun hos => ?_, fun h hos hl => ?_⟩
  · cases hs : (swallow && !env.osKeyDown vk)
    · simp [takeBlocked_active, release_active]
    · rw [if_pos rfl, KeyState.clearReleasedModifiers_active, takeBlocked_active, release_active]
      by_cases hv : v = vk
      · subst hv
        simp
      · rw [hne v hv, Bool.true_and]
  · split
    · rw [KeyState.clearReleasedModifiers_lastDown]
      exact hne v hv
    · exact hne v hv
  · have htaken : ((e.keys.release vk).takeBlocked vk).2.lastDown vk = .unknown := by
      rw [KeyState.takeBlocked_lt _ h]
      simp
    split
    · rw [KeyState.clearReleasedModifiers_lastDown]
      exact htaken
    · exact htaken
  · rw [hos]
    exact Bool.and_false _
  · rw [← hswallow, KeyState.takeBlocked_lt _ h, KeyState.release_lastDown, hos]
    rcases hl with hl | hl <;> simp [hl]

theorem onKeyUp_mask (e : Engine α) (vk : VirtualKey) (env : Env) :
    (e.onKeyUp vk env).2.mask =
        ((e.onKeyUp vk env).2.suppress && (e.onKeyUp vk env).1.keys.altOrWinDownInWindows) ∧
      (e.onKeyUp vk env).1.maskOwed = e.maskOwed := by
  unfold onKeyUp
  dsimp only
  rw [maskIfSwallowedUnderAltOrWin_mask, maskIfSwallowedUnderAltOrWin_suppress]
  exact ⟨Bool.false_or _, rfl⟩

/-! ## A whole key event -/

/-- A decided key-down: the check of the modifiers, then the key-down. -/
theorem onKey_down_decided (e : Engine α) (vk : VirtualKey) (bindings : List (Binding α))
    (env : Env) :
    KeyDownDecided vk (e.keys.clearReleasedModifiers env vk .all)
      (e.onKey ⟨vk, .down⟩ bindings env).1.keys (e.onKey ⟨vk, .down⟩ bindings env).2.suppress :=
  onKeyDown_decided
    { e with
      maskOwed := false, resync := e.resync.event vk true,
      keys := e.keys.clearReleasedModifiers env vk .all }
    vk bindings env

theorem onKey_up_decided (e : Engine α) (vk : VirtualKey) (bindings : List (Binding α))
    (env : Env) :
    KeyUpDecided vk env e.keys (e.onKey ⟨vk, .up⟩ bindings env).1.keys
      (e.onKey ⟨vk, .up⟩ bindings env).2.suppress :=
  onKeyUp_decided { e with maskOwed := false, resync := e.resync.event vk true } vk env

/-- Without `MaskOnly` blockers and with no mask owed, an event asks for the
mask by the mask rule alone, and owes none. -/
theorem onKey_mask (e : Engine α) (event : KeyEvent) {bindings : List (Binding α)}
    (h : NoMaskOnly bindings) (env : Env) (howed : e.maskOwed = false) :
    (e.onKey event bindings env).2.mask =
        ((e.onKey event bindings env).2.suppress &&
          (e.onKey event bindings env).1.keys.altOrWinDownInWindows) ∧
      (e.onKey event bindings env).1.maskOwed = false := by
  unfold onKey
  dsimp only
  rw [howed, Bool.or_false]
  cases event.direction
  · exact onKeyDown_mask _ event.vk h env
  · exact onKeyUp_mask _ event.vk env

/-! ## The other operations -/

@[simp] theorem onTimer_keys (e : Engine α) (token : TimerToken) :
    (e.onTimer token).1.keys = e.keys := by
  unfold onTimer
  split
  · rfl
  · split <;> rfl

@[simp] theorem onTimer_maskOwed (e : Engine α) (token : TimerToken) :
    (e.onTimer token).1.maskOwed = e.maskOwed := by
  unfold onTimer
  split
  · rfl
  · split <;> rfl

@[simp] theorem forgetTimer_keys (e : Engine α) (token : TimerToken) :
    (e.forgetTimer token).1.keys = e.keys := by
  unfold forgetTimer
  split
  · rfl
  · split <;> rfl

@[simp] theorem forgetTimer_maskOwed (e : Engine α) (token : TimerToken) :
    (e.forgetTimer token).1.maskOwed = e.maskOwed := by
  unfold forgetTimer
  split
  · rfl
  · split <;> rfl

/-- A drain reads some set of modifiers, or nothing. -/
theorem resyncIfDue_keys (e : Engine α) (env : Env) (notes : Nat) :
    (e.resyncIfDue env notes).1.keys = e.keys ∨
      ∃ which, (e.resyncIfDue env notes).1.keys = e.keys.resyncModifiers env which := by
  unfold resyncIfDue
  dsimp only
  split
  · exact Or.inl rfl
  · exact Or.inr ⟨_, rfl⟩

@[simp] theorem resyncIfDue_maskOwed (e : Engine α) (env : Env) (notes : Nat) :
    (e.resyncIfDue env notes).1.maskOwed = e.maskOwed := by
  unfold resyncIfDue
  dsimp only
  split <;> rfl

/-- A reset reads every key from Windows, keeps the tables or releases every
key. -/
theorem reset_keys (e : Engine α) (env : Env) (reason : ResetReason) :
    (e.reset env reason).keys = e.keys.resyncFromOs env ∨
      (e.reset env reason).keys = e.keys ∨ (e.reset env reason).keys = e.keys.releaseAll := by
  cases reason
  · exact Or.inl rfl
  · exact Or.inr (Or.inl rfl)
  · exact Or.inr (Or.inr rfl)
  · exact Or.inl rfl

end KeySwitch.Engine
