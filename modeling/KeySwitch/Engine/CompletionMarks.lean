import KeySwitch.Engine.KeyUps
import KeySwitch.Engine.Ops

/-!
# Completion marks are redundant where every key-down is seen

A completed chord or sequence marks its keys, so that their key-ups are swallowed.
`Unmarked` is the engine without those marks: the two arms of a completion no longer
call `markCompleted`, and nothing else differs.

A mark changes the record of a held key that is neither passed nor suppressed. Where
the engine sees every key-down there is no such key but the one being pressed:

> `OnRecord`: a key that is held, and a sided modifier that Windows has down, is on
> record as passed or as suppressed.

The key being pressed gets its record at the end of its event, and until then nothing
reads the records: the matching reads the held flags only. So a walk without marks is
the walk with them but for the records (`Unmarked.walk_eq`), the record rule makes the
tables equal again (`followRecord_unmarked`), and two whole runs are the same
(`marks_redundant`).
-/

namespace KeySwitch.Engine

open Data Lib

variable {α : Type}

/-! ## The engine without the marks -/

namespace Unmarked

/-- `visitSequence`, without the marks of a completion. -/
def visitSequence (k : KeyDown α) (steps : List KeyCombination) (maxGap : Duration)
    (binding : Binding α) (e : Engine α) (d : Decision α) : Engine α × Decision α :=
  if k.wasRepeat || !binding.condition.evaluate k.env.foreground then (e, d)
  else
    let next := e.ids.nextSeq
    let fed := e.sequences.onKeyDown e.keys binding.action steps maxGap k.env.now next.1
    let e := { e with ids := next.2, sequences := fed.1 }
    match fed.2 with
    | .notMatching => (e, d)
    | .advanced due => (e, d.swallow.pushTimer (next.2.request .sequence next.1 due))
    | .completed action _ => (e, d.swallow.push action)

/-- `visitChord`, without the marks of a completion. -/
def visitChord (k : KeyDown α) (chordKeys : List KeySpec) (window : Duration)
    (binding : Binding α) (e : Engine α) (d : Decision α) : Engine α × Decision α :=
  if k.wasRepeat || !binding.condition.evaluate k.env.foreground then (e, d)
  else
    let next := e.ids.nextSeq
    let fed := e.chords.onKeyDown k.vk binding.action chordKeys window k.env.now next.1
    let e := { e with ids := next.2, chords := fed.1 }
    match fed.2 with
    | .notInChord => (e, d)
    | .pending => (e, d.swallow)
    | .started due => (e, d.swallow.pushTimer (next.2.request .chord next.1 due))
    | .completed action _ => (e, d.swallow.push action)

def visit (k : KeyDown α) (acc : Engine α × Decision α) (entry : Binding α × Nat) :
    Engine α × Decision α :=
  match entry.1.kind with
  | .combo combo =>
    match entry.1.autoBlocker with
    | some mode => visitBlocker k combo mode entry.1.condition acc.1 acc.2
    | none => visitCombo k entry.2 entry.1 acc.1 acc.2
  | .sequence steps maxGap => visitSequence k steps maxGap entry.1 acc.1 acc.2
  | .chord keys window => visitChord k keys window entry.1 acc.1 acc.2

def walk (e : Engine α) (k : KeyDown α) (bindings : List (Binding α)) :
    Engine α × Decision α :=
  bindings.zipIdx.foldl (visit k)
    (if k.wasRepeat then (e, .default) else e.firstKeyDown k bindings)

def onKeyDown (e : Engine α) (vk : VirtualKey) (bindings : List (Binding α)) (env : Env) :
    Engine α × Decision α :=
  let pressed := e.keys.press vk
  let winner := elect vk bindings pressed.2 env.foreground
  let walked := walk { e with keys := pressed.2 } ⟨vk, env, pressed.1, winner⟩ bindings
  let record := followRecord walked.1.keys vk pressed.1 walked.2.suppress
  let e := { walked.1 with keys := record.1 }
  (e, e.maskIfSwallowedUnderAltOrWin { walked.2 with suppress := record.2 })

def onKey (e : Engine α) (event : KeyEvent) (bindings : List (Binding α)) (env : Env) :
    Engine α × Decision α :=
  let owed := e.maskOwed
  let e := { e with maskOwed := false, resync := e.resync.event event.vk true }
  let decided :=
    match event.direction with
    | .down =>
      onKeyDown { e with keys := e.keys.clearReleasedModifiers env event.vk .all }
        event.vk bindings env
    | .up => e.onKeyUp event.vk env
  (decided.1, { decided.2 with mask := decided.2.mask || owed })

/-- The call `op`: only a key-down differs. -/
def step (e : Engine α) : Op α → Engine α × Decision α
  | .key event bindings env => onKey e event bindings env
  | op => e.step op

end Unmarked

/-! ## Runs in which every key-down is seen -/

/-- The engine, and what Windows has down. -/
structure Observed (α : Type) where
  engine : Engine α
  windows : VirtualKey → Bool

/-- A new engine with every key up. -/
def Observed.new : Observed α := ⟨.new, fun _ => false⟩

/-- A call into the engine, or a key-up that goes past it. -/
inductive Occurrence (α : Type)
  | call (op : Op α)
  | keyUpHidden (vk : VirtualKey)

/-- Windows' key state after a call: an event that was not suppressed reaches it. -/
def windowsAfter (windows : VirtualKey → Bool) : Op α → Decision α → VirtualKey → Bool
  | .key event _ _, d => fun v =>
    if v = event.vk ∧ d.suppress = false then event.direction == .down else windows v
  | .trackInjected event, _ => fun v => if v = event.vk then event.direction == .down else windows v
  | _, _ => windows

/-- What Windows answers about a sided modifier is its key state; about any other code,
the generic ones among them, it may answer anything. -/
def Answers (windows : VirtualKey → Bool) (env : Env) : Prop :=
  ∀ v ∈ ModifierSet.sided.codes, env.osKeyDown v = windows v

instance (windows : VirtualKey → Bool) (env : Env) : Decidable (Answers windows env) :=
  inferInstanceAs (Decidable (∀ v ∈ ModifierSet.sided.codes, _))

/-- The calls of these runs: Windows answers from its key state, and no modifier event
is injected. -/
def Seen (windows : VirtualKey → Bool) : Occurrence α → Prop
  | .call (.key _ _ env) | .call (.reset env _) | .call (.resyncIfDue env _) => Answers windows env
  | .call (.trackInjected event) => ModifierSet.all.contains event.vk = false
  | _ => True

instance (windows : VirtualKey → Bool) (h : Occurrence α) : Decidable (Seen windows h) := by
  cases h with
  | call op => cases op <;> unfold Seen <;> infer_instance
  | keyUpHidden vk => exact inferInstanceAs (Decidable True)

/-- The engine of the step `calls`, beside Windows. -/
def observed (calls : Engine α → Op α → Engine α × Decision α) :
    Machine (Observed α) (Occurrence α) (Option (Decision α)) where
  step s
    | .call op =>
      let decided := calls s.engine op
      (⟨decided.1, windowsAfter s.windows op decided.2⟩, some decided.2)
    | .keyUpHidden vk => (⟨s.engine, fun v => if v = vk then false else s.windows v⟩, none)
  enabled s h := Seen s.windows h

instance (calls : Engine α → Op α → Engine α × Decision α) (s : Observed α) (h : Occurrence α) :
    Decidable ((observed calls).enabled s h) :=
  inferInstanceAs (Decidable (Seen s.windows h))

/-! ## A walk without marks -/

/-- The engine with other records of its key-downs. -/
def withRecords (e : Engine α) (lastDown : VirtualKey → LastDown) : Engine α :=
  { e with keys := ⟨e.keys.active, lastDown⟩ }

theorem foldl_markCompleted_withRecords (e : Engine α) (keys : List VirtualKey)
    (lastDown : VirtualKey → LastDown) :
    withRecords { e with keys := keys.foldl KeyState.markCompleted e.keys } lastDown =
      withRecords e lastDown := by
  show { e with keys := ⟨(keys.foldl KeyState.markCompleted e.keys).active, lastDown⟩ } = _
  rw [(completed_foldl keys e.keys).active]
  rfl

namespace Unmarked

/-- A visit without marks is the visit but for the records, whatever they are: no
visit reads them. -/
theorem visit_eq (k : KeyDown α) (e : Engine α) (d : Decision α) (entry : Binding α × Nat)
    (lastDown : VirtualKey → LastDown) :
    visit k (withRecords e lastDown, d) entry =
      (withRecords (Engine.visit k (e, d) entry).1 lastDown, (Engine.visit k (e, d) entry).2) := by
  unfold visit Engine.visit
  cases entry.1.kind with
  | combo combo =>
    cases entry.1.autoBlocker with
    | none =>
      show visitCombo k entry.2 entry.1 (withRecords e lastDown) d = _
      unfold visitCombo
      have hadmits : (k.winner.any fun w =>
          w.admits entry.2 entry.1 k.vk (withRecords e lastDown).keys) =
            k.winner.any fun w => w.admits entry.2 entry.1 k.vk e.keys := rfl
      dsimp only
      rw [hadmits]
      split
      · rfl
      · split <;> rfl
    | some mode =>
      show visitBlocker k combo mode entry.1.condition (withRecords e lastDown) d = _
      unfold visitBlocker
      have hmatches : blockerMatches combo k.vk (withRecords e lastDown).keys k.env.osKeyDown =
          blockerMatches combo k.vk e.keys k.env.osKeyDown := rfl
      dsimp only
      rw [hmatches]
      split
      · cases mode with
        | swallow => rfl
        | maskOnly =>
          dsimp only
          split <;> rfl
      · rfl
  | sequence steps maxGap =>
    show visitSequence k steps maxGap entry.1 (withRecords e lastDown) d = _
    unfold visitSequence Engine.visitSequence
    have hfed : (withRecords e lastDown).sequences.onKeyDown (withRecords e lastDown).keys
        entry.1.action steps maxGap k.env.now (withRecords e lastDown).ids.nextSeq.1 =
          e.sequences.onKeyDown e.keys entry.1.action steps maxGap k.env.now e.ids.nextSeq.1 := rfl
    dsimp only
    rw [hfed]
    split
    · rfl
    · cases (e.sequences.onKeyDown e.keys entry.1.action steps maxGap k.env.now
        e.ids.nextSeq.1).2 with
      | notMatching => rfl
      | advanced due => rfl
      | completed action keys =>
        refine Prod.ext (foldl_markCompleted_withRecords { e with
          ids := e.ids.nextSeq.2, sequences := _ } keys lastDown).symm rfl
  | chord keys window =>
    show visitChord k keys window entry.1 (withRecords e lastDown) d = _
    unfold visitChord Engine.visitChord
    have hfed : (withRecords e lastDown).chords.onKeyDown k.vk entry.1.action keys window k.env.now
        (withRecords e lastDown).ids.nextSeq.1 =
          e.chords.onKeyDown k.vk entry.1.action keys window k.env.now e.ids.nextSeq.1 := rfl
    dsimp only
    rw [hfed]
    split
    · rfl
    · cases (e.chords.onKeyDown k.vk entry.1.action keys window k.env.now e.ids.nextSeq.1).2 with
      | notInChord => rfl
      | pending => rfl
      | started due => rfl
      | completed action seen =>
        refine Prod.ext (foldl_markCompleted_withRecords { e with
          ids := e.ids.nextSeq.2, chords := _ } seen lastDown).symm rfl

theorem visits_eq (k : KeyDown α) (entries : List (Binding α × Nat)) (e : Engine α)
    (d : Decision α) (lastDown : VirtualKey → LastDown) :
    entries.foldl (visit k) (withRecords e lastDown, d) =
      (withRecords (entries.foldl (Engine.visit k) (e, d)).1 lastDown,
        (entries.foldl (Engine.visit k) (e, d)).2) := by
  induction entries generalizing e d with
  | nil => rfl
  | cons entry entries ih =>
    rw [List.foldl_cons, visit_eq, ih]
    rfl

/-- A walk without marks is the walk but for the records, which it leaves alone. -/
theorem walk_eq (e : Engine α) (k : KeyDown α) (bindings : List (Binding α)) :
    walk e k bindings =
      (withRecords (e.walk k bindings).1 e.keys.lastDown, (e.walk k bindings).2) := by
  unfold walk Engine.walk
  cases hrepeat : k.wasRepeat with
  | true => exact visits_eq k bindings.zipIdx e .default e.keys.lastDown
  | false =>
    exact visits_eq k bindings.zipIdx (e.firstKeyDown k bindings).1
      (e.firstKeyDown k bindings).2 e.keys.lastDown

end Unmarked

/-! ## The record rule after it -/

/-- The record rule gives the same from tables that differ in the record of the key
alone, if the key-down is a first one and swallowed. -/
theorem followRecord_unmarked {ks ks' : KeyState} {vk : VirtualKey} {wasRepeat suppress : Bool}
    (hactive : ks'.active = ks.active) (hothers : ∀ v, v ≠ vk → ks'.lastDown v = ks.lastDown v)
    (hown : ks'.lastDown vk = ks.lastDown vk ∨
      (wasRepeat = false ∧ suppress = true ∧ vk < 256)) :
    followRecord ks' vk wasRepeat suppress = followRecord ks vk wasRepeat suppress := by
  rcases hown with hown | ⟨rfl, rfl, hvk⟩
  · have hlast : ks'.lastDown = ks.lastDown := by
      funext v
      by_cases hv : v = vk
      · rw [hv, hown]
      · exact hothers v hv
    have heq : ks' = ks := by
      cases ks
      cases ks'
      cases hactive
      cases hlast
      rfl
    rw [heq]
  · have hset : ks'.setLastDown vk .suppressed = ks.setLastDown vk .suppressed := by
      unfold KeyState.setLastDown
      have hlast : (fun i => if i = vk then LastDown.suppressed else ks'.lastDown i) =
          fun i => if i = vk then LastDown.suppressed else ks.lastDown i := by
        funext v
        by_cases hv : v = vk
        · rw [if_pos hv, if_pos hv]
        · rw [if_neg hv, if_neg hv, hothers v hv]
      rw [hactive, hlast]
    show (ks'.markBlocked vk, true) = (ks.markBlocked vk, true)
    rw [(ks'.mark_lt hvk).1, (ks.mark_lt hvk).1, hset]

/-! ## Every held key has a record -/

/-- What a key event that was seen leaves on record: where its key-down went. -/
def Told (record : LastDown) : Prop := record = .passed ∨ record = .suppressed

/-- A key that is held, and a sided modifier that Windows has down, is on record. -/
structure OnRecord (ks : KeyState) (windows : VirtualKey → Bool) : Prop where
  held : ∀ v, ks.active v = true → v < 256 ∧ Told (ks.lastDown v)
  down : ∀ v ∈ ModifierSet.sided.codes, windows v = true → Told (ks.lastDown v)

theorem onRecord_new : OnRecord KeyState.new fun _ => false :=
  ⟨fun _ h => absurd h (by simp [KeyState.new]), fun _ _ h => absurd h (by simp)⟩

/-- Releasing keys keeps it. -/
theorem onRecord_release {ks ks' : KeyState} {windows : VirtualKey → Bool}
    (h : OnRecord ks windows) (hlast : ks'.lastDown = ks.lastDown)
    (hactive : ∀ v, ks'.active v = true → ks.active v = true) : OnRecord ks' windows := by
  refine ⟨fun v hv => ?_, fun v hv hdown => ?_⟩
  · rw [hlast]
    exact h.held v (hactive v hv)
  · rw [hlast]
    exact h.down v hv hdown

/-- The check before a key-down releases keys only. -/
theorem onRecord_check {ks : KeyState} {windows : VirtualKey → Bool} (h : OnRecord ks windows)
    (env : Env) (vk : VirtualKey) : OnRecord (ks.clearReleasedModifiers env vk .all) windows := by
  refine onRecord_release h (ks.clearReleasedModifiers_lastDown env vk .all) fun v hv => ?_
  rw [ks.clearReleasedModifiers_active, Bool.and_eq_true] at hv
  exact hv.1

/-- What a completion marks is the key being pressed, and nothing else. -/
theorem completed_onRecord {ks ks' : KeyState} {windows : VirtualKey → Bool} {vk : VirtualKey}
    (h : OnRecord ks windows) (hdone : Completed (ks.press vk).2 ks') (v : VirtualKey)
    (hv : v ≠ vk ∨ ¬vk < 256 ∨ ks.active vk = true) : ks'.lastDown v = ks.lastDown v := by
  rcases hdone.lastDown v with hsame | ⟨hactive, hpassed, hmarked⟩
  · rw [hsame, KeyState.press_lastDown]
  · rw [KeyState.press_lastDown] at hpassed
    have hheld : ks.active v = true := by
      rw [press_active] at hactive
      by_cases hpressed : v = vk ∧ vk < 256
      · obtain ⟨rfl, hlt⟩ := hpressed
        rcases hv with hv | hv | hv
        · exact absurd rfl hv
        · exact absurd hlt hv
        · exact hv
      · rwa [if_neg hpressed] at hactive
    rcases (h.held v hheld).2 with hrecord | hrecord
    · exact absurd hrecord hpassed
    · rw [hmarked, hrecord]

namespace Unmarked

/-- **A key-down without marks is the key-down.** -/
theorem onKeyDown_eq {e : Engine α} {windows : VirtualKey → Bool} (h : OnRecord e.keys windows)
    (vk : VirtualKey) (bindings : List (Binding α)) (env : Env) :
    onKeyDown e vk bindings env = e.onKeyDown vk bindings env := by
  unfold onKeyDown Engine.onKeyDown
  dsimp only
  rw [walk_eq]
  have hwalk := walk_keys { e with keys := (e.keys.press vk).2 }
    ⟨vk, env, (e.keys.press vk).1, elect vk bindings (e.keys.press vk).2 env.foreground⟩ bindings
  generalize Engine.walk { e with keys := (e.keys.press vk).2 } _ bindings = walked at hwalk ⊢
  obtain ⟨hdone, hasked⟩ := hwalk
  dsimp only at hdone hasked
  have hrecord : followRecord (withRecords walked.1 (e.keys.press vk).2.lastDown).keys vk
      (e.keys.press vk).1 walked.2.suppress =
        followRecord walked.1.keys vk (e.keys.press vk).1 walked.2.suppress := by
    refine followRecord_unmarked rfl (fun v hv => ?_) ?_
    · show (e.keys.press vk).2.lastDown v = walked.1.keys.lastDown v
      rw [completed_onRecord h hdone v (Or.inl hv), KeyState.press_lastDown]
    · show (e.keys.press vk).2.lastDown vk = walked.1.keys.lastDown vk ∨ _
      by_cases hmarks : ¬vk < 256 ∨ e.keys.active vk = true
      · rw [completed_onRecord h hdone vk (Or.inr hmarks), KeyState.press_lastDown]
        exact Or.inl rfl
      · -- The first key-down of this press: what is marked is swallowed as well.
        have hvk : vk < 256 := Decidable.byContradiction fun hge => hmarks (Or.inl hge)
        have hup : e.keys.active vk = false := Bool.eq_false_iff.mpr fun hon => hmarks (Or.inr hon)
        rcases hasked with hkeys | hsuppress
        · rw [hkeys]
          exact Or.inl rfl
        · rw [e.keys.press_lt hvk]
          exact Or.inr ⟨hup, hsuppress, hvk⟩
  rw [hrecord]
  rfl

/-- Every call is the same with and without the marks. -/
theorem step_eq {e : Engine α} {windows : VirtualKey → Bool} (h : OnRecord e.keys windows)
    (op : Op α) : step e op = e.step op := by
  cases op with
  | key event bindings env =>
    show onKey e event bindings env = e.onKey event bindings env
    unfold onKey Engine.onKey
    cases event.direction with
    | up => rfl
    | down =>
      dsimp only
      rw [onKeyDown_eq (onRecord_check h env event.vk)]
  | _ => rfl

end Unmarked

/-! ## What every call keeps -/

theorem sided_codes {v : VirtualKey} (h : ModifierSet.sided.contains v = true) :
    v ∈ ModifierSet.sided.codes := by
  unfold ModifierSet.contains ModifierSet.bit at h
  split at h <;> first | decide | exact absurd h (by decide)

theorem sided_lt : ∀ v ∈ ModifierSet.sided.codes, v < 256 := by decide

theorem all_contains_sided :
    ∀ v ∈ ModifierSet.sided.codes, ModifierSet.all.contains v = true := by decide

/-- A key-down leaves its own key on record. -/
theorem keyDown_told {vk : VirtualKey} {ks ks' : KeyState} {suppress : Bool}
    {windows : VirtualKey → Bool} (h : OnRecord ks windows)
    (hdecided : KeyDownDecided vk ks ks' suppress) (hvk : vk < 256) : Told (ks'.lastDown vk) := by
  cases hactive : ks.active vk with
  | false =>
    rw [hdecided.first hvk hactive]
    cases suppress
    · exact Or.inl rfl
    · exact Or.inr rfl
  | true =>
    rcases (h.held vk hactive).2 with hpassed | hsuppressed
    · exact Or.inl (hdecided.afterPassed hvk hactive hpassed).2
    · exact Or.inr (hdecided.afterSwallowed hvk hactive hsuppressed).2

theorem onRecord_keyDown {vk : VirtualKey} {ks ks' : KeyState} {suppress : Bool}
    {windows windows' : VirtualKey → Bool} (h : OnRecord ks windows)
    (hdecided : KeyDownDecided vk ks ks' suppress)
    (hwindows : ∀ v, v ≠ vk → windows' v = windows v) : OnRecord ks' windows' := by
  have hothers : ∀ v, v ≠ vk → Told (ks.lastDown v) → Told (ks'.lastDown v) := by
    intro v hv htold
    rcases hdecided.others v hv with hsame | ⟨-, -, hsuppressed⟩
    · rw [hsame]
      exact htold
    · exact Or.inr hsuppressed
  refine ⟨fun v hactive => ?_, fun v hv hdown => ?_⟩
  · rw [hdecided.active v] at hactive
    by_cases hpressed : v = vk ∧ vk < 256
    · rw [hpressed.1]
      exact ⟨hpressed.2, keyDown_told h hdecided hpressed.2⟩
    · rw [if_neg hpressed] at hactive
      obtain ⟨hlt, htold⟩ := h.held v hactive
      exact ⟨hlt, hothers v (fun heq => hpressed ⟨heq, heq ▸ hlt⟩) htold⟩
  · by_cases hne : v = vk
    · rw [hne]
      exact keyDown_told h hdecided (hne ▸ sided_lt v hv)
    · rw [hwindows v hne] at hdown
      exact hothers v hne (h.down v hv hdown)

theorem onRecord_keyUp {vk : VirtualKey} {env : Env} {ks ks' : KeyState} {suppress : Bool}
    {windows windows' : VirtualKey → Bool} (h : OnRecord ks windows)
    (hanswers : Answers windows env) (hdecided : KeyUpDecided vk env ks ks' suppress)
    (hothers : ∀ v, v ≠ vk → windows' v = windows v)
    (hown : windows' vk = bif suppress then windows vk else false) : OnRecord ks' windows' := by
  refine ⟨fun v hactive => ?_, fun v hv hdown => ?_⟩
  · rw [hdecided.active v] at hactive
    simp only [Bool.and_eq_true] at hactive
    obtain ⟨⟨hheld, hother⟩, -⟩ := hactive
    obtain ⟨hlt, htold⟩ := h.held v hheld
    have hne : v ≠ vk := by
      rintro rfl
      simp [hlt] at hother
    rw [hdecided.others v hne]
    exact ⟨hlt, htold⟩
  · by_cases hne : v = vk
    · subst hne
      rw [hown] at hdown
      cases suppress with
      | false => exact absurd hdown (by simp)
      | true =>
        have hos : env.osKeyDown v = true := (hanswers v hv).trans hdown
        exact absurd (hdecided.passes hos) (by simp)
    · rw [hothers v hne] at hdown
      rw [hdecided.others v hne]
      exact h.down v hv hdown

/-- The main thread's read: a modifier it takes as held is one that Windows has
down. -/
theorem onRecord_read {ks : KeyState} {windows : VirtualKey → Bool} (h : OnRecord ks windows)
    {env : Env} (hanswers : Answers windows env) (which : ModifierSet) :
    OnRecord (ks.resyncModifiers env which) windows := by
  refine ⟨fun v hactive => ?_, fun v hv hdown => ?_⟩
  · rw [KeyState.resyncModifiers_lastDown]
    rcases ks.resyncModifiers_active env which v with hsame | ⟨-, hos, hsided⟩
    · rw [hsame] at hactive
      exact h.held v hactive
    · have hcode : v ∈ ModifierSet.sided.codes := by
        refine sided_codes (Bool.not_eq_false _ ▸ fun hother => ?_)
        rw [hsided hother] at hactive
        exact absurd hactive (by simp)
      rw [hos, hanswers v hcode] at hactive
      exact ⟨sided_lt v hcode, h.down v hcode hactive⟩
  · rw [KeyState.resyncModifiers_lastDown]
    exact h.down v hv hdown

/-- The rebuild from Windows records every key it finds down as passed. -/
theorem onRecord_rebuild {ks : KeyState} {windows : VirtualKey → Bool} (h : OnRecord ks windows)
    {env : Env} (hanswers : Answers windows env) : OnRecord (ks.resyncFromOs env) windows := by
  refine ⟨fun v hactive => ?_, fun v hv hdown => ?_⟩
  · unfold KeyState.resyncFromOs at hactive ⊢
    dsimp only at hactive ⊢
    by_cases hlt : v < 256
    · rw [if_pos hlt] at hactive ⊢
      rw [if_pos hactive]
      exact ⟨hlt, Or.inl rfl⟩
    · rw [if_neg hlt] at hactive
      exact absurd (h.held v hactive).1 hlt
  · have hheld : KeyState.osHeld env v = true := by
      have hcode : ∀ v ∈ ModifierSet.sided.codes, (1 ≤ v ∧ v ≤ 254) ∧
          MOUSE_BUTTONS.contains v = false ∧
          (ModifierSet.all.without ModifierSet.sided).contains v = false := by decide
      obtain ⟨hrange, hmouse, hgeneric⟩ := hcode v hv
      unfold KeyState.osHeld
      rw [hmouse, hgeneric, hanswers v hv, hdown]
      simp [hrange]
    unfold KeyState.resyncFromOs
    dsimp only
    rw [if_pos (sided_lt v hv), if_pos hheld]
    exact Or.inl rfl

/-- Whether every held key of the engine is on record. -/
def AllOnRecord (s : Observed α) : Prop := OnRecord s.engine.keys s.windows

/-- **Every call that was seen, and every key-up that was not, keeps the records.** -/
theorem allOnRecord_step : (observed (α := α) Engine.step).Invariant AllOnRecord := by
  rintro ⟨e, windows⟩ occurrence h hseen
  cases occurrence with
  | keyUpHidden vk =>
    -- Windows has one code less down.
    refine ⟨h.held, fun v hv hdown => h.down v hv ?_⟩
    by_cases hne : v = vk
    · exact absurd ((if_pos hne).symm.trans hdown) (by simp)
    · exact (if_neg hne).symm.trans hdown
  | call op =>
    cases op with
    | key event bindings env =>
      obtain ⟨vk, direction⟩ := event
      cases direction with
      | down =>
        have hchecked := onRecord_check h env vk
        exact onRecord_keyDown hchecked (onKey_down_decided e vk bindings env)
          fun v hv => if_neg fun hown => hv hown.1
      | up =>
        refine onRecord_keyUp h hseen (onKey_up_decided e vk bindings env)
          (fun v hv => if_neg fun hown => hv hown.1) ?_
        show (if vk = vk ∧ (e.onKey ⟨vk, .up⟩ bindings env).2.suppress = false then _ else _) = _
        cases (e.onKey ⟨vk, .up⟩ bindings env).2.suppress
        · exact if_pos ⟨rfl, rfl⟩
        · exact if_neg (by simp)
    | timer token =>
      show OnRecord (e.onTimer token).1.keys windows
      rw [onTimer_keys]
      exact h
    | forget token =>
      show OnRecord (e.forgetTimer token).1.keys windows
      rw [forgetTimer_keys]
      exact h
    | reset env reason =>
      show OnRecord (e.reset env reason).keys windows
      rcases e.reset_keys env reason with hkeys | hkeys | hkeys
      · rw [hkeys]
        exact onRecord_rebuild h hseen
      · rw [hkeys]
        exact h
      · rw [hkeys]
        exact onRecord_release h rfl fun v hv => absurd hv (by simp [KeyState.releaseAll])
    | foregroundChanged => exact h
    | resyncIfDue env notes =>
      show OnRecord (e.resyncIfDue env notes).1.keys windows
      rcases e.resyncIfDue_keys env notes with hkeys | ⟨which, hkeys⟩
      · rw [hkeys]
        exact h
      · rw [hkeys]
        exact onRecord_read h hseen which
    | inputReturned => exact h
    | trackInjected event =>
      -- No injected input of a modifier is seen, and other injected input changes no flag.
      have hother : ModifierSet.all.contains event.vk = false := hseen
      have hkeys : (e.trackInjected event).keys = e.keys := by
        show e.keys.trackInjected event = e.keys
        unfold KeyState.trackInjected
        rw [hother]
        rfl
      show OnRecord (e.trackInjected event).keys _
      rw [hkeys]
      refine ⟨h.held, fun v hv hdown => h.down v hv ?_⟩
      have hne : v ≠ event.vk := by
        rintro rfl
        exact absurd (all_contains_sided _ hv) (by simp [hother])
      exact (if_neg hne).symm.trans hdown

/-! ## Two runs -/

/-- **The completion marks are redundant.** In a run in which the engine sees every
key-down and no modifier is injected, the engine without the marks decides the same at
every event, and is in the same state after it. -/
theorem marks_redundant {occurrences : List (Occurrence α)}
    (hseen : (observed Engine.step).Legal Observed.new occurrences) :
    (observed Unmarked.step).trace Observed.new occurrences =
      (observed Engine.step).trace Observed.new occurrences := by
  refine allOnRecord_step.trace_eq (fun s occurrence h _ => ?_) onRecord_new hseen
  cases occurrence with
  | keyUpHidden vk => rfl
  | call op =>
    show (_, some _) = (_, some _)
    rw [Unmarked.step_eq h op]

/-- The chord of `LShift` and `J`, completed, with the key-up of `LShift` hidden before
the main thread reads the modifiers. -/
theorem marks_redundant_lshift :
    let chord : Binding Unit :=
      ⟨.chord [.key VK_LSHIFT, .key 0x4A] (fromMillis 100), (), true, .always, .immediate, false,
        false, none⟩
    let env : Env := ⟨0, fun _ => false, ⟨none, none, id⟩⟩
    let occurrences : List (Occurrence Unit) :=
      [.call (.key ⟨VK_LSHIFT, .down⟩ [chord] env), .call (.key ⟨0x4A, .down⟩ [chord] env),
        .keyUpHidden VK_LSHIFT, .call (.resyncIfDue env 1), .call (.key ⟨0x4A, .up⟩ [chord] env)]
    (observed Unmarked.step).trace Observed.new occurrences =
      (observed Engine.step).trace Observed.new occurrences := by
  intro chord env occurrences
  have hseen : (observed Engine.step).Legal Observed.new occurrences := by decide +kernel
  exact marks_redundant hseen

end KeySwitch.Engine
