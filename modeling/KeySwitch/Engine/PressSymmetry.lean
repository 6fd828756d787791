import KeySwitch.Engine.Windows

/-!
# Every physical press is handled whole

When the engine sees every key event, a press is passed or suppressed as one:
its key-down, its auto-repeats and its key-up share one fate, whatever the
bindings do in between, across reloads, foreground changes, reads of the
modifiers and timers.

The invariant `Whole` ties the three views of a key together: a held key is
active in the engine, and its record says what Windows has: swallowed and up,
or passed and down. A walk can still mark a record as completed, but only one
that is suppressed already, or the one of the key being pressed, which the
record rule then overwrites.
-/

namespace KeySwitch.Engine

open Data Lib

variable {α : Type}

/-- The moves of these runs: no hidden event, and no reset but a reload's. -/
def SeenMove : Move α → Prop
  | .key _ vk _ _ => Physical vk
  | .hidden _ _ => False
  | .reset reason _ => reason = .reloaded
  | _ => True

/-- The engine, Windows and the user agree on every key, up to what the engine
swallowed. -/
structure Whole (w : World α) : Prop where
  down : ∀ v, Physical v → w.held v = true → w.engine.keys.active v = true ∧
    ((w.engine.keys.lastDown v = .suppressed ∧ w.windows v = false) ∨
      (w.engine.keys.lastDown v = .passed ∧ w.windows v = true))
  up : ∀ v, Physical v → w.held v = false →
    w.engine.keys.active v = false ∧ w.windows v = false

theorem whole_new : Whole (World.new : World α) :=
  ⟨fun _ _ h => absurd h (by simp [World.new]), fun _ _ _ => ⟨rfl, rfl⟩⟩

/-- A move that leaves the tables, Windows and the held keys alone keeps
`Whole`. -/
theorem whole_of_keys {w : World α} (hw : Whole w) {e : Engine α}
    (h : e.keys = w.engine.keys) : Whole { w with engine := e } := by
  refine ⟨fun v hv hheld => ?_, fun v hv hheld => ?_⟩
  · dsimp only
    rw [h]
    exact hw.down v hv hheld
  · dsimp only
    rw [h]
    exact hw.up v hv hheld

/-- The check before a key-down drops no physical key: one that Windows has up
was swallowed. -/
theorem whole_check {w : World α} (hw : Whole w) (scene : Scene) (own : VirtualKey)
    {v : VirtualKey} (hv : Physical v) :
    (w.engine.keys.clearReleasedModifiers (w.env scene) own .all).active v =
      w.engine.keys.active v := by
  rw [KeyState.clearReleasedModifiers_active, World.env_osKeyDown, w.osKeyDown_physical hv.2]
  cases hheld : w.held v
  · rw [(hw.up v hv hheld).1]
    rfl
  · rcases (hw.down v hv hheld).2 with ⟨hl, _⟩ | ⟨_, hwin⟩
    · simp [hl]
    · simp [hwin]

/-- The tables a key-down finds: those of the world, for a physical key. -/
theorem whole_down {w : World α} (hw : Whole w) {vk : VirtualKey} (bindings : List (Binding α))
    (scene : Scene) (hvk : Physical vk) :
    let decided := w.engine.onKey ⟨vk, .down⟩ bindings (w.env scene)
    (∀ v, Physical v → v ≠ vk → decided.1.keys.active v = w.engine.keys.active v ∧
      (w.held v = true → decided.1.keys.lastDown v = w.engine.keys.lastDown v)) ∧
    decided.1.keys.active vk = true ∧
    (w.held vk = false →
      decided.1.keys.lastDown vk = if decided.2.suppress then .suppressed else .passed) ∧
    (w.held vk = true → decided.2.suppress = (!w.windows vk) ∧
      decided.1.keys.lastDown vk = w.engine.keys.lastDown vk) := by
  intro decided
  have h : KeyDownDecided vk (w.engine.keys.clearReleasedModifiers (w.env scene) vk .all)
      decided.1.keys decided.2.suppress :=
    onKey_down_decided w.engine vk bindings (w.env scene)
  refine ⟨fun v hv hne => ⟨?_, fun hheld => ?_⟩, ?_, fun hheld => ?_, fun hheld => ?_⟩
  · rw [h.active, if_neg fun hv' => hne hv'.1]
    exact whole_check hw scene vk hv
  · rcases h.others v hne with hl | ⟨_, hp, hs⟩
    · rw [hl, KeyState.clearReleasedModifiers_lastDown]
    · -- A completion marks a held key's record only if it is swallowed already.
      rw [KeyState.clearReleasedModifiers_lastDown] at hp
      rcases (hw.down v hv hheld).2 with ⟨hl, _⟩ | ⟨hl, _⟩
      · rw [hs, hl]
      · exact absurd hl hp
  · rw [h.active, if_pos ⟨rfl, hvk.1⟩]
  · have ha : (w.engine.keys.clearReleasedModifiers (w.env scene) vk .all).active vk = false := by
      rw [whole_check hw scene vk hvk]
      exact (hw.up vk hvk hheld).1
    exact h.first hvk.1 ha
  · obtain ⟨hact, hrec⟩ := hw.down vk hvk hheld
    have ha : (w.engine.keys.clearReleasedModifiers (w.env scene) vk .all).active vk = true := by
      rw [whole_check hw scene vk hvk]
      exact hact
    rcases hrec with ⟨hl, hwin⟩ | ⟨hl, hwin⟩
    · obtain ⟨hs, hl'⟩ := h.afterSwallowed hvk.1 ha
        (by rw [KeyState.clearReleasedModifiers_lastDown, hl])
      rw [hs, hl', hl, hwin]
      exact ⟨rfl, rfl⟩
    · obtain ⟨hs, hl'⟩ := h.afterPassed hvk.1 ha
        (by rw [KeyState.clearReleasedModifiers_lastDown, hl])
      rw [hs, hl', hl, hwin]
      exact ⟨rfl, rfl⟩

/-- The key-up of a held key is swallowed exactly if Windows has the key up. -/
theorem whole_up_suppress {w : World α} (hw : Whole w) {vk : VirtualKey}
    (bindings : List (Binding α)) (scene : Scene) (hvk : Physical vk) (hheld : w.held vk = true) :
    (w.engine.onKey ⟨vk, .up⟩ bindings (w.env scene)).2.suppress = !w.windows vk := by
  have h := onKey_up_decided w.engine vk bindings (w.env scene)
  rcases (hw.down vk hvk hheld).2 with ⟨hl, hwin⟩ | ⟨_, hwin⟩
  · rw [hwin]
    refine h.swallows hvk.1 ?_ (Or.inl hl)
    rw [World.env_osKeyDown, w.osKeyDown_physical hvk.2, hwin]
  · rw [hwin]
    refine h.passes ?_
    rw [World.env_osKeyDown, w.osKeyDown_physical hvk.2, hwin]

/-- A swallowed key-up's check drops no physical key either. -/
theorem whole_up_active {w : World α} (hw : Whole w) {vk : VirtualKey}
    (bindings : List (Binding α)) (scene : Scene) {v : VirtualKey} (hv : Physical v)
    (hne : v ≠ vk) :
    (w.engine.onKey ⟨vk, .up⟩ bindings (w.env scene)).1.keys.active v =
      w.engine.keys.active v := by
  rw [(onKey_up_decided w.engine vk bindings (w.env scene)).active, World.env_osKeyDown,
    w.osKeyDown_physical hv.2]
  cases hheld : w.held v
  · rw [(hw.up v hv hheld).1]
    rfl
  · rcases (hw.down v hv hheld).2 with ⟨hl, _⟩ | ⟨_, hwin⟩
    · simp [hl, hne]
    · simp [hwin, hne]

/-- A key event of `vk` keeps `Whole`. -/
theorem whole_key {w : World α} (hw : Whole w) (move : KeyMove) {vk : VirtualKey}
    (bindings : List (Binding α)) (scene : Scene) (hvk : Physical vk)
    (halt : w.Alternates move vk) : Whole (w.step (.key move vk bindings scene)).1 := by
  unfold World.step
  dsimp only
  refine ⟨fun v hv hheld => ?_, fun v hv hheld => ?_⟩
  · -- The keys held after the move: the key itself, pressed or repeated, and those held before.
    by_cases hne : v = vk
    · subst hne
      rw [World.apply_held] at hheld
      rw [World.apply_windows, World.apply_engine]
      cases move
      · obtain ⟨-, hact, hfirst, -⟩ := whole_down hw bindings scene hvk
        refine ⟨hact, ?_⟩
        have hrec := hfirst halt
        dsimp only [KeyMove.direction]
        cases hs : (w.engine.onKey ⟨v, .down⟩ bindings (w.env scene)).2.suppress
        · rw [hs] at hrec
          exact Or.inr ⟨hrec, rfl⟩
        · rw [hs] at hrec
          exact Or.inl ⟨hrec, (hw.up v hv halt).2⟩
      · obtain ⟨-, hact, -, hrep⟩ := whole_down hw bindings scene hvk
        refine ⟨hact, ?_⟩
        obtain ⟨hs, hl⟩ := hrep halt
        dsimp only [KeyMove.direction]
        rw [hs, hl]
        rcases (hw.down v hv halt).2 with ⟨hl, hwin⟩ | ⟨hl, hwin⟩
        · rw [hwin]
          exact Or.inl ⟨hl, rfl⟩
        · rw [hwin]
          exact Or.inr ⟨hl, rfl⟩
      · exact absurd hheld (by decide)
    · rw [World.apply_held_ne _ _ _ hne] at hheld
      rw [World.apply_windows_ne _ _ _ hne, World.apply_engine]
      have hold := hw.down v hv hheld
      cases move with
      | release =>
        rw [KeyMove.direction, whole_up_active hw bindings scene hv hne,
          (onKey_up_decided w.engine vk bindings (w.env scene)).others v hne]
        exact hold
      | _ =>
        obtain ⟨hothers, -⟩ := whole_down hw bindings scene hvk
        obtain ⟨hact, hrec⟩ := hothers v hv hne
        rw [KeyMove.direction, hact, hrec hheld]
        exact hold
  · -- The keys up after the move: the key itself if let go, and those up before.
    by_cases hne : v = vk
    · subst hne
      rw [World.apply_held] at hheld
      cases move with
      | release =>
        rw [World.apply_windows, World.apply_engine]
        have h := onKey_up_decided w.engine v bindings (w.env scene)
        refine ⟨?_, ?_⟩
        · rw [KeyMove.direction, h.active]
          simp [hv.1]
        · rw [KeyMove.direction, whole_up_suppress hw bindings scene hv halt]
          cases w.windows v <;> rfl
      | _ => exact absurd hheld (by decide)
    · rw [World.apply_held_ne _ _ _ hne] at hheld
      rw [World.apply_windows_ne _ _ _ hne, World.apply_engine]
      have hold := hw.up v hv hheld
      refine ⟨?_, hold.2⟩
      cases move with
      | release =>
        rw [KeyMove.direction, whole_up_active hw bindings scene hv hne]
        exact hold.1
      | _ =>
        obtain ⟨hothers, -⟩ := whole_down hw bindings scene hvk
        rw [KeyMove.direction, (hothers v hv hne).1]
        exact hold.1

/-- A read of the modifiers keeps `Whole`: Windows says what the record says. -/
theorem whole_resync {w : World α} (hw : Whole w) (notes : Nat) (scene : Scene) :
    Whole { w with engine := (w.engine.resyncIfDue (w.env scene) notes).1 } := by
  rcases w.engine.resyncIfDue_keys (w.env scene) notes with hk | ⟨which, hk⟩
  · exact whole_of_keys hw hk
  · have hsame : ∀ v, Physical v →
        (w.engine.resyncIfDue (w.env scene) notes).1.keys.active v =
          w.engine.keys.active v := by
      intro v hv
      rw [hk]
      rcases w.engine.keys.resyncModifiers_active (w.env scene) which v with h | ⟨hs, hos, _⟩
      · exact h
      · rw [hos, World.env_osKeyDown, w.osKeyDown_physical hv.2]
        cases hheld : w.held v
        · rw [(hw.up v hv hheld).1, (hw.up v hv hheld).2]
        · obtain ⟨hact, hrec⟩ := hw.down v hv hheld
          rcases hrec with ⟨hl, _⟩ | ⟨_, hwin⟩
          · exact absurd hl hs
          · rw [hact, hwin]
    refine ⟨fun v hv hheld => ?_, fun v hv hheld => ?_⟩
    · dsimp only
      rw [hsame v hv, hk, KeyState.resyncModifiers_lastDown]
      exact hw.down v hv hheld
    · dsimp only
      rw [hsame v hv]
      exact hw.up v hv hheld

/-- **Every move the engine may see keeps `Whole`.** -/
theorem whole_step : (machine (SeenMove (α := α))).Invariant Whole := by
  rintro w move hw ⟨hallowed, halt⟩
  cases move with
  | key m vk bindings scene => exact whole_key hw m bindings scene hallowed halt
  | hidden m vk => exact absurd hallowed id
  | reset reason scene =>
    obtain rfl : reason = .reloaded := hallowed
    exact whole_of_keys hw rfl
  | foregroundChanged => exact whole_of_keys hw rfl
  | resyncIfDue notes scene => exact whole_resync hw notes scene
  | inputReturned => exact whole_of_keys hw rfl
  | timer token => exact whole_of_keys hw (onTimer_keys _ token)
  | forget token => exact whole_of_keys hw (forgetTimer_keys _ token)

/-! ## The fate of one press -/

/-- A press leaves the key down in Windows exactly if it was passed. -/
theorem press_windows {w : World α} (hw : Whole w) {vk : VirtualKey} (hvk : Physical vk)
    {move : Move α} (hmove : move.IsKey .press vk)
    (henabled : (machine SeenMove).enabled w move) :
    suppressed ((machine SeenMove).moment w move) = some !(w.step move).1.windows vk := by
  cases move with
  | key m v bindings scene =>
    obtain ⟨rfl, rfl⟩ := hmove
    have hup := (hw.up v hvk henabled.2).2
    have hwin : (w.step (.key .press v bindings scene)).1.windows v =
        !(w.engine.onKey ⟨v, .down⟩ bindings (w.env scene)).2.suppress := by
      unfold World.step
      dsimp only
      rw [World.apply_windows]
      dsimp only [KeyMove.direction]
      cases (w.engine.onKey ⟨v, .down⟩ bindings (w.env scene)).2.suppress
      · rfl
      · exact hup
    rw [hwin, Bool.not_not]
    rfl
  | _ => exact absurd hmove id

/-- A repeat or the release of a held key follows what Windows has. -/
theorem follow_windows {w : World α} (hw : Whole w) {vk : VirtualKey} (hvk : Physical vk)
    {move : Move α} (hmove : move.IsKey .autoRepeat vk ∨ move.IsKey .release vk)
    (henabled : (machine SeenMove).enabled w move) :
    suppressed ((machine SeenMove).moment w move) = some !w.windows vk := by
  cases move with
  | key m v bindings scene =>
    rcases hmove with ⟨rfl, rfl⟩ | ⟨rfl, rfl⟩
    · obtain ⟨-, -, -, hrep⟩ := whole_down hw bindings scene hvk
      exact congrArg some (hrep henabled.2).1
    · exact congrArg some (whole_up_suppress hw bindings scene hvk henabled.2)
  | _ => rcases hmove with h | h <;> exact absurd h id

/-- Nothing but a press or a release of a key moves Windows' state of it. -/
theorem windows_stays {w : World α} (hw : Whole w) {vk : VirtualKey} (hvk : Physical vk)
    {move : Move α} (hpress : ¬move.IsKey .press vk) (hrelease : ¬move.IsKey .release vk)
    (henabled : (machine SeenMove).enabled w move) :
    (w.step move).1.windows vk = w.windows vk := by
  cases move with
  | key m v bindings scene =>
    unfold World.step
    dsimp only
    by_cases hne : vk = v
    · subst hne
      cases m with
      | press => exact absurd ⟨rfl, rfl⟩ hpress
      | release => exact absurd ⟨rfl, rfl⟩ hrelease
      | autoRepeat =>
        obtain ⟨-, -, -, hrep⟩ := whole_down hw bindings scene hvk
        rw [World.apply_windows, KeyMove.direction, (hrep henabled.2).1]
        cases w.windows vk <;> rfl
    · exact World.apply_windows_ne _ _ _ hne
  | hidden m v => exact absurd henabled.1 id
  | _ => rfl

/-- **Every physical press is handled whole.** In a run where the engine sees
every key event, a press of `vk` and every repeat and the release that come
before its next press or release have one fate. -/
theorem press_handled_whole {moves : List (Move α)}
    (hlegal : (machine SeenMove).Legal World.new moves) {vk : VirtualKey} (hvk : Physical vk)
    {pre mid post : List (Moment (World α) (Move α) (Option (Decision α)))}
    {down event : Moment (World α) (Move α) (Option (Decision α))}
    (htrace : (machine SeenMove).trace World.new moves = pre ++ down :: (mid ++ event :: post))
    (hdown : down.input.IsKey .press vk)
    (hmid : ∀ x ∈ mid, ¬x.input.IsKey .press vk ∧ ¬x.input.IsKey .release vk)
    (hevent : event.input.IsKey .autoRepeat vk ∨ event.input.IsKey .release vk) :
    ∃ fate, suppressed down = some fate ∧ suppressed event = some fate := by
  have hall := whole_step.trace whole_new hlegal
  rw [htrace] at hall
  obtain ⟨hwdown, hedown, hmdown⟩ := hall down (by simp)
  obtain ⟨hwevent, heevent, hmevent⟩ := hall event (by simp)
  obtain ⟨_, _, ks, -, -, -, hrest⟩ := Machine.trace_split htrace
  obtain ⟨js, i, _, -, hmidtrace, hievent, -⟩ := Machine.trace_split hrest.symm
  have hstays : event.before.windows vk = down.after.windows vk := by
    rw [hievent]
    refine Machine.stays (f := fun w : World α => w.windows vk) fun x hx => ?_
    rw [← hmidtrace] at hx
    obtain ⟨hw, he, hm⟩ := hall x (by simp [hx])
    rw [hm]
    exact windows_stays hw hvk (hmid x hx).1 (hmid x hx).2 he
  refine ⟨!down.after.windows vk, ?_, ?_⟩
  · rw [hmdown]
    exact press_windows hwdown hvk hdown hedown
  · rw [hmevent, ← hstays]
    exact follow_windows hwevent hvk hevent heevent

/-- An event of A, with one binding, which swallows it. -/
def eventOfA (move : KeyMove) : Move Unit :=
  .key move 0x41 [⟨.combo ⟨[.key 0x41]⟩, (), true, .always, .immediate, false, false, none⟩]
    ⟨0, ⟨none, none, id⟩⟩

theorem press_handled_whole_eventOfA :
    let m := machine (α := Unit) SeenMove
    let down := m.moment World.new (eventOfA .press)
    let again := m.moment down.after (eventOfA .autoRepeat)
    let up := m.moment again.after (eventOfA .release)
    ∃ fate, suppressed down = some fate ∧ suppressed up = some fate := by
  intro m down again up
  have hvk : Physical 0x41 := ⟨by decide, by decide⟩
  have hlegal : m.Legal World.new [eventOfA .press, eventOfA .autoRepeat, eventOfA .release] :=
    ⟨⟨hvk, rfl⟩, ⟨hvk, rfl⟩, ⟨hvk, rfl⟩, trivial⟩
  have hinput : ∀ move, (eventOfA move).IsKey move 0x41 := fun _ => ⟨rfl, rfl⟩
  have hmid : ∀ x ∈ [again], ¬x.input.IsKey .press 0x41 ∧ ¬x.input.IsKey .release 0x41 := by
    intro x hx
    rw [List.mem_singleton] at hx
    rw [hx]
    refine ⟨fun h => ?_, fun h => ?_⟩
    · exact absurd (show KeyMove.autoRepeat = .press from h.1) (by decide)
    · exact absurd (show KeyMove.autoRepeat = .release from h.1) (by decide)
  have htrace : m.trace World.new [eventOfA .press, eventOfA .autoRepeat, eventOfA .release] =
      [] ++ down :: ([again] ++ up :: []) := by
    rw [Machine.trace_cons, Machine.trace_cons, Machine.trace_cons]
    rfl
  exact press_handled_whole hlegal hvk htrace (hinput .press) hmid (Or.inr (hinput .release))

end KeySwitch.Engine
