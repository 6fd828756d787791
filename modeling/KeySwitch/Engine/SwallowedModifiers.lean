import KeySwitch.Engine.OnlyWinner

/-!
# A swallowed key stays held until its own event

Windows never saw a key-down that was swallowed, so that it has the key up for as
long as the user holds it. Everything that reads the modifiers from Windows spares
such a key: the check of a key event, the main thread's read between events, and the
daemon's own injected events. Completed chords and sequences only ever write the
record it has. `SwallowedHeld` says that the engine has a code held with its key-down
on record as suppressed; a step of the engine keeps it unless it is the code's own
key-up or one of the three resets that rebuild or release the keys, and each of these
ends it.

For a code that is no modifier the same holds, and less could go wrong, so that the
results are for any code.
-/

namespace KeySwitch.Engine

open Data Lib

variable {α : Type}

/-- A code that is held, its key-down on record as suppressed. -/
structure SwallowedHeld (e : Engine α) (c : VirtualKey) : Prop where
  held : e.keys.isActive c = true
  swallowed : e.keys.isBlocked c = true

/-- A call that ends that: the code's own key-up, and every reset but `Reloaded`. -/
def Ends (c : VirtualKey) : Op α → Prop
  | .key event _ _ => event = ⟨c, .up⟩
  | .reset _ reason => reason ≠ .reloaded
  | _ => False

/-- A call that is no event of `c` and no reset but `Reloaded`. -/
def Spares (c : VirtualKey) : Op α → Prop
  | .key event _ _ => event.vk ≠ c
  | .reset _ reason => reason = .reloaded
  | _ => True

theorem not_ends_of_spares {c : VirtualKey} {op : Op α} (h : Spares c op) : ¬Ends c op := by
  cases op with
  | key event bindings env =>
    intro hends
    exact h (congrArg KeyEvent.vk hends)
  | reset env reason => exact fun hends => hends h
  | timer | forget | foregroundChanged | resyncIfDue | inputReturned | trackInjected => exact id

theorem swallowedHeld_iff {e : Engine α} {c : VirtualKey} :
    SwallowedHeld e c ↔ c < 256 ∧ e.keys.active c = true ∧ e.keys.lastDown c = .suppressed := by
  by_cases hc : c < 256
  · constructor
    · rintro ⟨hheld, hswallowed⟩
      rw [KeyState.isActive_lt _ hc] at hheld
      rw [KeyState.isBlocked_lt _ hc, beq_iff_eq] at hswallowed
      exact ⟨hc, hheld, hswallowed⟩
    · rintro ⟨-, hheld, hswallowed⟩
      refine ⟨?_, ?_⟩
      · rw [KeyState.isActive_lt _ hc]
        exact hheld
      · rw [KeyState.isBlocked_lt _ hc, hswallowed]
        rfl
  · constructor
    · rintro ⟨hheld, -⟩
      rw [KeyState.isActive_ge _ hc] at hheld
      exact absurd hheld (by decide)
    · exact fun h => absurd h.1 hc

/-! ## One call -/

/-- The check of a key event spares a swallowed key. -/
theorem check_spares {ks : KeyState} {c : VirtualKey} (h : ks.lastDown c = .suppressed) (env : Env)
    (own : VirtualKey) (among : ModifierSet) :
    (ks.clearReleasedModifiers env own among).active c = ks.active c := by
  rw [KeyState.clearReleasedModifiers_active, h]
  simp

theorem key_swallowedHeld {e : Engine α} {c : VirtualKey} (h : SwallowedHeld e c)
    {event : KeyEvent} (hevent : event ≠ ⟨c, .up⟩) (bindings : List (Binding α)) (env : Env) :
    SwallowedHeld (e.onKey event bindings env).1 c := by
  rw [swallowedHeld_iff] at h ⊢
  obtain ⟨hc, hheld, hswallowed⟩ := h
  obtain ⟨vk, direction⟩ := event
  refine ⟨hc, ?_⟩
  cases direction with
  | down =>
    have hdown := e.onKey_down_decided vk bindings env
    have hchecked := check_spares hswallowed env vk .all
    constructor
    · rw [hdown.active]
      split
      · rfl
      · rw [hchecked]
        exact hheld
    · by_cases hown : c = vk
      · subst hown
        refine (hdown.afterSwallowed hc ?_ ?_).2
        · rw [hchecked]
          exact hheld
        · rw [KeyState.clearReleasedModifiers_lastDown]
          exact hswallowed
      · -- A completion writes the record it has already.
        rcases hdown.others c hown with hsame | hcompleted
        · rw [hsame, KeyState.clearReleasedModifiers_lastDown]
          exact hswallowed
        · exact hcompleted.2.2
  | up =>
    have hne : c ≠ vk := by
      rintro rfl
      exact hevent rfl
    have hup := e.onKey_up_decided vk bindings env
    constructor
    · rw [hup.active, hheld, hswallowed]
      simp [hne]
    · rw [hup.others c hne]
      exact hswallowed

theorem trackInjected_swallowedHeld {e : Engine α} {c : VirtualKey} (h : SwallowedHeld e c)
    (event : KeyEvent) : SwallowedHeld (e.trackInjected event) c := by
  rw [swallowedHeld_iff] at h ⊢
  obtain ⟨hc, hheld, hswallowed⟩ := h
  refine ⟨hc, ?_, ?_⟩
  · show (e.keys.trackInjected event).active c = true
    unfold KeyState.trackInjected
    split
    · exact hheld
    · split
      · exact hheld
      · next hfree =>
        have hne : c ≠ event.vk := by
          rintro rfl
          exact hfree (by unfold KeyState.keyDownSwallowed; rw [hswallowed]; rfl)
        rw [KeyState.setActive_active, if_neg hne]
        exact hheld
  · show (e.keys.trackInjected event).lastDown c = .suppressed
    rw [KeyState.trackInjected_lastDown]
    exact hswallowed

theorem resyncIfDue_swallowedHeld {e : Engine α} {c : VirtualKey} (h : SwallowedHeld e c)
    (env : Env) (notes : Nat) : SwallowedHeld (e.resyncIfDue env notes).1 c := by
  rw [swallowedHeld_iff] at h ⊢
  obtain ⟨hc, hheld, hswallowed⟩ := h
  rcases e.resyncIfDue_keys env notes with hkeys | ⟨which, hkeys⟩
  · rw [hkeys]
    exact ⟨hc, hheld, hswallowed⟩
  · rw [hkeys, KeyState.resyncModifiers_lastDown]
    rcases e.keys.resyncModifiers_active env which c with hsame | hread
    · rw [hsame]
      exact ⟨hc, hheld, hswallowed⟩
    · exact absurd hswallowed hread.1

/-- **One call** keeps a swallowed key held, unless it is one that ends it. -/
theorem step_swallowedHeld {e : Engine α} {c : VirtualKey} (h : SwallowedHeld e c) {op : Op α}
    (hop : ¬Ends c op) : SwallowedHeld (e.step op).1 c := by
  have hsame : ∀ {e' : Engine α}, e'.keys = e.keys → SwallowedHeld e' c := by
    intro e' hkeys
    exact ⟨by rw [hkeys]; exact h.held, by rw [hkeys]; exact h.swallowed⟩
  cases op with
  | key event bindings env => exact key_swallowedHeld h hop bindings env
  | timer token => exact hsame (e.onTimer_keys token)
  | forget token => exact hsame (e.forgetTimer_keys token)
  | reset env reason =>
    have hreloaded : reason = .reloaded := Decidable.not_not.mp hop
    subst hreloaded
    exact hsame rfl
  | foregroundChanged => exact hsame rfl
  | resyncIfDue env notes => exact resyncIfDue_swallowedHeld h env notes
  | inputReturned => exact hsame rfl
  | trackInjected event => exact trackInjected_swallowedHeld h event

/-- The calls that end it do: the key is up, or on record as passed. -/
theorem ends_swallowedHeld (e : Engine α) {c : VirtualKey} {op : Op α} (hop : Ends c op) :
    ¬SwallowedHeld (e.step op).1 c := by
  rw [swallowedHeld_iff]
  rintro ⟨hc, hheld, hswallowed⟩
  cases op with
  | key event bindings env =>
    obtain rfl : event = ⟨c, .up⟩ := hop
    have hown := (e.onKey_up_decided c bindings env).own hc
    exact absurd (hown.symm.trans hswallowed) (by decide)
  | reset env reason =>
    have hrebuilt : ∀ {e' : Engine α}, e'.keys = e.keys.resyncFromOs env →
        e'.keys.active c = true → e'.keys.lastDown c = .suppressed → False := by
      intro e' hkeys hactive hrecord
      rw [hkeys] at hactive hrecord
      unfold KeyState.resyncFromOs at hactive hrecord
      dsimp only at hactive hrecord
      rw [if_pos hc] at hactive hrecord
      rw [if_pos hactive] at hrecord
      exact absurd hrecord (by decide)
    cases reason with
    | remappingSwitched => exact hrebuilt rfl hheld hswallowed
    | reloaded => exact hop rfl
    | inputLeft => exact absurd hheld (by simp [Engine.step, Engine.reset, KeyState.releaseAll])
    | hookReinstalled => exact hrebuilt rfl hheld hswallowed
  | timer | forget | foregroundChanged | resyncIfDue | inputReturned | trackInjected => exact hop

/-! ## The auto-repeat -/

/-- A stage of a walk that has armed nothing since `e`. -/
structure NothingArmed (e : Engine α) (acc : Engine α × Decision α) : Prop where
  gestures : acc.1.gestures = e.gestures
  chords : acc.1.chords = e.chords
  sequences : acc.1.sequences = e.sequences
  ids : acc.1.ids = e.ids
  timers : acc.2.timers = []

theorem visit_repeat_armsNothing {e : Engine α} {k : KeyDown α} (hrepeat : k.wasRepeat = true)
    {acc : Engine α × Decision α} (h : NothingArmed e acc) (entry : Binding α × Nat) :
    NothingArmed e (visit k acc entry) := by
  refine visit_cases k acc entry (fun combo mode _ => ?_) ?_ (fun steps maxGap => ?_)
    fun keys window => ?_
  · unfold visitBlocker
    split
    · cases mode with
      | swallow => exact ⟨h.gestures, h.chords, h.sequences, h.ids, h.timers⟩
      | maskOnly => exact h
    · exact h
  · unfold visitCombo
    split
    · exact h
    · split
      · refine ⟨h.gestures, h.chords, h.sequences, h.ids, ?_⟩
        dsimp only
        split <;> split <;> exact h.timers
      · exact h
  · unfold visitSequence
    rw [hrepeat, Bool.true_or, if_pos rfl]
    exact h
  · unfold visitChord
    rw [hrepeat, Bool.true_or, if_pos rfl]
    exact h

/-- An auto-repeat arms nothing. -/
theorem walk_repeat_armsNothing (e : Engine α) {k : KeyDown α} (hrepeat : k.wasRepeat = true)
    (bindings : List (Binding α)) : NothingArmed e (e.walk k bindings) := by
  have hfold : ∀ (entries : List (Binding α × Nat)) (acc : Engine α × Decision α),
      NothingArmed e acc → NothingArmed e (entries.foldl (visit k) acc) := by
    intro entries
    induction entries with
    | nil => exact fun _ h => h
    | cons entry entries ih => exact fun acc h => ih _ (visit_repeat_armsNothing hrepeat h entry)
  unfold walk
  rw [if_pos hrepeat]
  exact hfold _ _ ⟨rfl, rfl, rfl, rfl, rfl⟩

/-- What the next key-down of a swallowed held code is: an auto-repeat that is
suppressed, arms nothing and fires nothing but an `Immediate` winner with
`repeat`. -/
structure RepeatOnly (e : Engine α) (c : VirtualKey) (bindings : List (Binding α)) (env : Env)
    (decided : Engine α × Decision α) : Prop where
  isRepeat : ((e.keys.clearReleasedModifiers env c .all).press c).1 = true
  suppressed : decided.2.suppress = true
  nothingArmed : NothingArmed e decided
  fires : decided.2.fire = repeatFire (elect c bindings (e.heldAt c env) env.foreground)

theorem keyDown_repeatOnly {e : Engine α} {c : VirtualKey} (h : SwallowedHeld e c)
    (bindings : List (Binding α)) (env : Env) :
    RepeatOnly e c bindings env (e.onKey ⟨c, .down⟩ bindings env) := by
  have hrepeat : ((e.keys.clearReleasedModifiers env c .all).press c).1 = true := by
    rw [KeyState.press_wasActive, check_isActive]
    exact h.held
  refine ⟨hrepeat, ?_, ?_, onKey_repeat_fire e c bindings env h.held⟩
  · obtain ⟨hc, hheld, hswallowed⟩ := swallowedHeld_iff.mp h
    refine ((e.onKey_down_decided c bindings env).afterSwallowed hc ?_ ?_).1
    · rw [check_spares hswallowed]
      exact hheld
    · rw [KeyState.clearReleasedModifiers_lastDown]
      exact hswallowed
  · have hwalk := walk_repeat_armsNothing
      { e with maskOwed := false, resync := e.resync.event c true, keys := e.heldAt c env }
      (k := ⟨c, env, ((e.keys.clearReleasedModifiers env c .all).press c).1,
        elect c bindings (e.heldAt c env) env.foreground⟩) hrepeat bindings
    refine ⟨hwalk.gestures, hwalk.chords, hwalk.sequences, hwalk.ids, ?_⟩
    show (onKeyDown _ c bindings env).2.timers = []
    unfold onKeyDown
    dsimp only
    rw [maskIfSwallowedUnderAltOrWin_timers]
    exact hwalk.timers

/-! ## Runs -/

theorem run_swallowedHeld {e : Engine α} {c : VirtualKey} (h : SwallowedHeld e c)
    {ops : List (Op α)} (hops : ∀ op ∈ ops, ¬Ends c op) :
    SwallowedHeld (operations.run e ops) c := by
  induction ops generalizing e with
  | nil => exact h
  | cons op ops ih =>
    exact ih (step_swallowedHeld h (hops op List.mem_cons_self))
      fun op' hop' => hops op' (List.mem_cons_of_mem _ hop')

/-- **A swallowed modifier survives everything but its own events.** After any calls
that spare it the code is held with its key-down on record as suppressed, and its
next key-down is only an auto-repeat, which leaves it so; and the calls that end this
are exactly its key-up and the resets that rebuild or release the keys. -/
theorem swallowed_modifier_survives {e : Engine α} {c : VirtualKey} (h : SwallowedHeld e c)
    {ops : List (Op α)} (hops : ∀ op ∈ ops, Spares c op) :
    let after := operations.run e ops
    SwallowedHeld after c ∧
      (∀ bindings env, RepeatOnly after c bindings env (after.onKey ⟨c, .down⟩ bindings env) ∧
        SwallowedHeld (after.onKey ⟨c, .down⟩ bindings env).1 c) ∧
      ∀ op, ¬SwallowedHeld (after.step op).1 c ↔ Ends c op := by
  intro after
  have hafter : SwallowedHeld after c :=
    run_swallowedHeld h fun op hop => not_ends_of_spares (hops op hop)
  refine ⟨hafter, fun bindings env => ⟨keyDown_repeatOnly hafter bindings env, ?_⟩, fun op => ?_⟩
  · refine key_swallowedHeld hafter ?_ bindings env
    intro hsame
    have hdirection : KeyDirection.down = .up := congrArg KeyEvent.direction hsame
    exact absurd hdirection (by decide)
  · constructor
    · intro hended
      by_contra hop
      exact hended (step_swallowedHeld hafter hop)
    · exact ends_swallowedHeld after

/-- `LShift` swallowed and held, then `A` and a read of Windows with `LShift` up
there, an injected key-up of `LShift`, the foreground and a reload. -/
theorem swallowed_modifier_survives_lshift :
    let e : Engine Nat :=
      { new with keys := (KeyState.new.setActive VK_LSHIFT true).setLastDown VK_LSHIFT .suppressed }
    let env : Env := ⟨0, fun _ => false, ⟨none, none, id⟩⟩
    let ops : List (Op Nat) :=
      [.key ⟨0x41, .down⟩ [] env, .foregroundChanged, .resyncIfDue env 0,
        .trackInjected ⟨VK_LSHIFT, .up⟩, .reset env .reloaded]
    SwallowedHeld (operations.run e ops) VK_LSHIFT ∧
      ((operations.run e ops).onKey ⟨VK_LSHIFT, .down⟩ [] env).2.suppress = true := by
  intro e env ops
  have hops : ∀ op ∈ ops, Spares VK_LSHIFT op := by simp [ops, Spares]
  have hsurvives := swallowed_modifier_survives (e := e) ⟨by decide, by decide⟩ hops
  exact ⟨hsurvives.1, (hsurvives.2.1 [] env).1.suppressed⟩

end KeySwitch.Engine
