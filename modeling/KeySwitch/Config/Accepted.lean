import KeySwitch.Config.Hotkeys

/-!
# What loads

An entry loads as a binding exactly if `Loads` says so: it names its keys in one of the three
ways, each name and each timing can be read, and it sets no flag that its kind of binding
would ignore. A file loads exactly if each of its entries does (`config_loads`), and gives
their bindings in the order of the file, then the auto-blockers.

Every binding that was loaded then has what the engine and the executor take for granted
(`Checked`): combinations of distinct keys, chords of keys that do not overlap, timings in
range, pastes that can be sent.
-/

namespace KeySwitch.Config

open Data Lib

variable (rd : Reading)

/-! ## When an entry loads -/

/-- A timing that a config may set. -/
def InRange (ms : Nat) : Prop := TIMING_MIN ≤ ms ∧ ms ≤ TIMING_MAX

/-- A text names a combination. -/
def Names (s : String) (c : KeyCombination) : Prop := parseCombo rd.quoted rd.lowercase s = .ok c

/-- What triggers the binding of an entry. -/
inductive KindOf (raw : RawBinding) : BindingKind → Prop
  | keys {s : String} {c : KeyCombination} (hkeys : raw.keys = some s)
      (hsequence : raw.sequence = none) (hchord : raw.chord = none) (h : Names rd s c) :
      KindOf raw (.combo c)
  | sequence {seq : SequenceSpec} {steps : List KeyCombination} (hkeys : raw.keys = none)
      (hsequence : raw.sequence = some seq) (hchord : raw.chord = none)
      (htwo : 2 ≤ seq.steps.length) (h : List.Forall₂ (Names rd) seq.steps steps)
      (hgap : InRange seq.maxGapMs) : KindOf raw (.sequence steps (fromMillis seq.maxGapMs))
  | chord {chord : ChordSpec} {specs : List KeySpec} (hkeys : raw.keys = none)
      (hsequence : raw.sequence = none) (hchord : raw.chord = some chord)
      (htwo : 2 ≤ chord.keys.length)
      (h : List.Forall₂ (fun k spec => KeySpec.parse rd.lowercase k = some spec) chord.keys specs)
      (hapart : specs.Pairwise fun a b => a.overlaps b = false)
      (hwindow : InRange chord.windowMs) : KindOf raw (.chord specs (fromMillis chord.windowMs))

/-- The trigger of an entry. -/
inductive TriggerOf : RawTrigger → Trigger → Prop
  | immediate : TriggerOf .immediate .immediate
  | tap {ms : Nat} (h : InRange ms) : TriggerOf (.tap ms) (.tap ms)
  | hold {ms : Nat} (h : InRange ms) : TriggerOf (.hold ms) (.hold ms)
  | doubleTap {ms : Nat} (h : InRange ms) : TriggerOf (.doubleTap ms) (.doubleTap ms)

/-- The entry `raw` loads as the binding `b`. -/
structure Loads (raw : RawBinding) (b : LoadedBinding BindAction) : Prop where
  kind : KindOf rd raw b.kind
  action : rawActionToBindAction rd raw.action = .ok b.action
  trigger : TriggerOf raw.trigger b.trigger
  /-- Sequences and chords have no deferred trigger and no extra modifiers. -/
  plain : isCombo b.kind = false → b.trigger.isImmediate = true ∧ raw.allowExtraModifiers = false
  /-- What never fires on an auto-repeat is not asked to. -/
  repeatHonoured : raw.repeats = some true → isCombo b.kind = true ∧ b.trigger.isImmediate = true
  blockDefault : b.blockDefault = raw.blockDefault.getD (blocksByDefault b.kind b.trigger)
  blockOriginalCombo : b.blockOriginalCombo = rawBlockerToMode raw.blockOriginalCombo
  condition : b.condition = rawConditionToCondition raw.when
  allowExtraModifiers : b.allowExtraModifiers = raw.allowExtraModifiers
  repeats : b.repeats = raw.repeats.getD (repeatsByDefault b.action)
  autoBlocker : b.autoBlocker = none

variable {rd}

theorem checkTimingMs_eq_ok {written : String} {ms ms' : Nat} :
    checkTimingMs written ms = .ok ms' ↔ InRange ms ∧ ms' = ms := by
  unfold checkTimingMs InRange
  split
  · next h => exact ⟨fun heq => ⟨h, (Except.ok.inj heq).symm⟩, fun heq => congrArg _ heq.2.symm⟩
  · next h => exact ⟨fun heq => (nomatch heq), fun heq => absurd heq.1 h⟩

theorem rawTriggerToTrigger_eq_ok {raw : RawTrigger} {trigger : Trigger} :
    rawTriggerToTrigger raw = .ok trigger ↔ TriggerOf raw trigger := by
  constructor
  · intro h
    cases raw with
    | immediate => exact Except.ok.inj h ▸ .immediate
    | tap ms =>
      obtain ⟨ms', hms, rfl⟩ := map_eq_ok.mp h
      obtain ⟨hrange, rfl⟩ := checkTimingMs_eq_ok.mp hms
      exact .tap hrange
    | hold ms =>
      obtain ⟨ms', hms, rfl⟩ := map_eq_ok.mp h
      obtain ⟨hrange, rfl⟩ := checkTimingMs_eq_ok.mp hms
      exact .hold hrange
    | doubleTap ms =>
      obtain ⟨ms', hms, rfl⟩ := map_eq_ok.mp h
      obtain ⟨hrange, rfl⟩ := checkTimingMs_eq_ok.mp hms
      exact .doubleTap hrange
  · intro h
    cases h with
    | immediate => rfl
    | tap hrange => exact map_eq_ok.mpr ⟨_, checkTimingMs_eq_ok.mpr ⟨hrange, rfl⟩, rfl⟩
    | hold hrange => exact map_eq_ok.mpr ⟨_, checkTimingMs_eq_ok.mpr ⟨hrange, rfl⟩, rfl⟩
    | doubleTap hrange => exact map_eq_ok.mpr ⟨_, checkTimingMs_eq_ok.mpr ⟨hrange, rfl⟩, rfl⟩

/-! ### The three kinds -/

theorem sequenceSpecToKind_eq_ok {seq : SequenceSpec} {kind : BindingKind} :
    sequenceSpecToKind rd seq = .ok kind ↔ ∃ steps, 2 ≤ seq.steps.length ∧
      List.Forall₂ (Names rd) seq.steps steps ∧ InRange seq.maxGapMs ∧
      kind = .sequence steps (fromMillis seq.maxGapMs) := by
  have hsteps : ∀ steps, seq.steps.zipIdx.mapM (sequenceStep rd) = .ok steps ↔
      List.Forall₂ (Names rd) seq.steps steps := by
    intro steps
    rw [mapM_eq_ok, ← forall₂_zipIdx (R := Names rd)]
    exact ⟨fun h => h.imp fun _ _ => mapError_eq_ok.mp,
      fun h => h.imp fun _ _ => mapError_eq_ok.mpr⟩
  unfold sequenceSpecToKind
  split
  · next hfew =>
    constructor
    · exact fun h => nomatch h
    · rintro ⟨steps, htwo, -⟩
      omega
  · next htwo =>
    simp only [bind_eq_ok, hsteps, checkTimingMs_eq_ok]
    constructor
    · rintro ⟨steps, hnames, ms, ⟨hrange, rfl⟩, h⟩
      exact ⟨steps, by omega, hnames, hrange, (Except.ok.inj h).symm⟩
    · rintro ⟨steps, -, hnames, hrange, rfl⟩
      exact ⟨steps, hnames, _, ⟨hrange, rfl⟩, rfl⟩

/-- The keys of a chord are read one after the other, each apart from those before. -/
theorem chordKeys_eq_ok {entries : List (String × Nat)} {specs all : List KeySpec}
    (hspecs : specs.Pairwise fun a b => a.overlaps b = false) :
    chordKeys rd entries specs = .ok all ↔ ∃ new, all = specs ++ new ∧
      List.Forall₂ (fun entry spec => KeySpec.parse rd.lowercase entry.1 = some spec) entries new ∧
      all.Pairwise fun a b => a.overlaps b = false := by
  induction entries generalizing specs with
  | nil =>
    constructor
    · intro h
      obtain rfl := Except.ok.inj h
      exact ⟨[], (List.append_nil _).symm, .nil, hspecs⟩
    · rintro ⟨new, rfl, hnew, -⟩
      rw [List.forall₂_nil_left_iff.mp hnew, List.append_nil]
      rfl
  | cons entry rest ih =>
    obtain ⟨k, i⟩ := entry
    unfold chordKeys
    split
    · next hnone =>
      constructor
      · exact fun h => nomatch h
      · rintro ⟨new, -, hnew, -⟩
        cases hnew with
        | cons hhead _ => exact nomatch hnone.symm.trans hhead
    · next spec hspec =>
      split
      · next j hj =>
        -- It overlaps an earlier key.
        obtain ⟨hlt, hover, -⟩ := List.findIdx?_eq_some_iff_getElem.mp hj
        constructor
        · exact fun h => nomatch h
        · rintro ⟨new, rfl, hnew, hapart⟩
          cases hnew with
          | @cons _ spec' _ _ hhead _ =>
            obtain rfl := Option.some.inj (hspec.symm.trans hhead)
            have hpair := (List.pairwise_append.mp hapart).2.2 _ (List.getElem_mem hlt) _
              List.mem_cons_self
            rw [hpair] at hover
            exact absurd hover Bool.false_ne_true
      · next hfree =>
        have hapart : (specs ++ [spec]).Pairwise fun a b => a.overlaps b = false := by
          refine List.pairwise_append.mpr ⟨hspecs, List.pairwise_singleton _ _, fun a ha b hb => ?_⟩
          rw [List.mem_singleton.mp hb]
          exact List.findIdx?_eq_none_iff.mp hfree a ha
        rw [ih hapart]
        constructor
        · rintro ⟨new, rfl, hnew, hall⟩
          exact ⟨spec :: new, List.append_assoc .., .cons hspec hnew, hall⟩
        · rintro ⟨new, rfl, hnew, hall⟩
          cases hnew with
          | @cons _ spec' _ new' hhead htail =>
            obtain rfl := Option.some.inj (hspec.symm.trans hhead)
            exact ⟨new', List.append_cons .., htail, hall⟩

theorem chordSpecToKind_eq_ok {chord : ChordSpec} {kind : BindingKind} :
    chordSpecToKind rd chord = .ok kind ↔ ∃ specs, 2 ≤ chord.keys.length ∧
      List.Forall₂ (fun k spec => KeySpec.parse rd.lowercase k = some spec) chord.keys specs ∧
      (specs.Pairwise fun a b => a.overlaps b = false) ∧ InRange chord.windowMs ∧
      kind = .chord specs (fromMillis chord.windowMs) := by
  have hkeys : ∀ specs, chordKeys rd chord.keys.zipIdx [] = .ok specs ↔
      List.Forall₂ (fun k spec => KeySpec.parse rd.lowercase k = some spec) chord.keys specs ∧
        specs.Pairwise fun a b => a.overlaps b = false := by
    intro specs
    rw [chordKeys_eq_ok List.Pairwise.nil, ← forall₂_zipIdx]
    constructor
    · rintro ⟨new, rfl, hnew, hapart⟩
      exact ⟨hnew, hapart⟩
    · exact fun ⟨hnew, hapart⟩ => ⟨specs, rfl, hnew, hapart⟩
  unfold chordSpecToKind
  split
  · next hfew =>
    constructor
    · exact fun h => nomatch h
    · rintro ⟨specs, htwo, -⟩
      omega
  · next htwo =>
    simp only [bind_eq_ok, hkeys, checkTimingMs_eq_ok]
    constructor
    · rintro ⟨specs, ⟨hnames, hapart⟩, ms, ⟨hrange, rfl⟩, h⟩
      exact ⟨specs, by omega, hnames, hapart, hrange, (Except.ok.inj h).symm⟩
    · rintro ⟨specs, -, hnames, hapart, hrange, rfl⟩
      exact ⟨specs, ⟨hnames, hapart⟩, _, ⟨hrange, rfl⟩, rfl⟩

theorem rawBindingToKind_eq_ok {raw : RawBinding} {kind : BindingKind} :
    rawBindingToKind rd raw = .ok kind ↔ KindOf rd raw kind := by
  constructor
  · intro h
    unfold rawBindingToKind at h
    split at h
    · exact nomatch h
    · next s hkeys hsequence hchord =>
      obtain ⟨c, hc, rfl⟩ := map_eq_ok.mp h
      exact .keys hkeys hsequence hchord hc
    · next seq hkeys hsequence hchord =>
      obtain ⟨steps, htwo, hnames, hgap, rfl⟩ := sequenceSpecToKind_eq_ok.mp h
      exact .sequence hkeys hsequence hchord htwo hnames hgap
    · next chord hkeys hsequence hchord =>
      obtain ⟨specs, htwo, hnames, hapart, hwindow, rfl⟩ := chordSpecToKind_eq_ok.mp h
      exact .chord hkeys hsequence hchord htwo hnames hapart hwindow
    · exact nomatch h
  · intro h
    unfold rawBindingToKind
    cases h with
    | keys hkeys hsequence hchord h =>
      rw [hkeys, hsequence, hchord]
      exact map_eq_ok.mpr ⟨_, h, rfl⟩
    | sequence hkeys hsequence hchord htwo h hgap =>
      rw [hkeys, hsequence, hchord]
      exact sequenceSpecToKind_eq_ok.mpr ⟨_, htwo, h, hgap, rfl⟩
    | chord hkeys hsequence hchord htwo h hapart hwindow =>
      rw [hkeys, hsequence, hchord]
      exact chordSpecToKind_eq_ok.mpr ⟨_, htwo, h, hapart, hwindow, rfl⟩

/-- **An entry loads exactly if it passes every check**, in whatever order they are made. -/
theorem rawBindingToBinding_eq_ok {raw : RawBinding} {index : Nat}
    {b : LoadedBinding BindAction} :
    rawBindingToBinding rd (raw, index) = .ok b ↔ Loads rd raw b := by
  unfold rawBindingToBinding
  rw [mapError_eq_ok]
  unfold convertBinding
  simp only [bind_eq_ok, rawBindingToKind_eq_ok, rawTriggerToTrigger_eq_ok]
  constructor
  · rintro ⟨kind, hkind, action, haction, trigger, htrigger, h⟩
    split at h
    · exact nomatch h
    · next hdeferred =>
      split at h
      · exact nomatch h
      · next hextra =>
        split at h
        · exact nomatch h
        · next hrepeat =>
          obtain rfl := Except.ok.inj h
          refine ⟨hkind, haction, htrigger, fun hother => ?_, fun hasked => ?_, rfl, rfl, rfl, rfl,
            rfl, rfl⟩
          · have hother : isCombo kind = false := hother
            rw [hother] at hdeferred hextra
            exact ⟨by simpa using hdeferred, by simpa using hextra⟩
          · rw [hasked] at hrepeat
            have hhonoured : isCombo kind = true ∧ trigger.isImmediate = true := by
              simpa using hrepeat
            exact hhonoured
  · intro h
    refine ⟨_, h.kind, _, h.action, _, h.trigger, ?_⟩
    have hdeferred : (!isCombo b.kind && !b.trigger.isImmediate) = false := by
      cases hkind : isCombo b.kind with
      | true => rfl
      | false => rw [(h.plain hkind).1]; rfl
    have hextra : (!isCombo b.kind && raw.allowExtraModifiers) = false := by
      cases hkind : isCombo b.kind with
      | true => rfl
      | false => rw [(h.plain hkind).2]; rfl
    have hrepeat : (raw.repeats == some true && !(isCombo b.kind && b.trigger.isImmediate)) =
        false := by
      cases hasked : raw.repeats == some true with
      | false => rfl
      | true =>
        obtain ⟨hkind, himmediate⟩ := h.repeatHonoured (beq_iff_eq.mp hasked)
        rw [hkind, himmediate]
        rfl
    simp only [hdeferred, hextra, hrepeat, Bool.false_eq_true, if_false]
    obtain ⟨⟨kind, action, blockDefault, condition, trigger, extra, repeats, blocker⟩, original⟩ :=
      b
    rw [← h.blockDefault, ← h.blockOriginalCombo, ← h.condition, ← h.allowExtraModifiers,
      ← h.repeats, ← h.autoBlocker]

/-! ## What was loaded -/

/-- A paste that can be sent: a text that the clipboard can hold, and a keystroke with a key
besides modifiers. -/
structure PasteChecked (spec : PasteSpec) : Prop where
  text : ∃ text : String, text.toList ≠ [] ∧ Char.ofNat 0 ∉ text.toList ∧
    spec.units = clipboardText text
  once : spec.keys.Nodup
  payload : ∃ key ∈ spec.keys, isModifier key = false
  delay : ∃ ms, RESTORE_DELAY_MIN ≤ ms ∧ ms ≤ RESTORE_DELAY_MAX ∧ spec.restoreDelay = fromMillis ms

def StepChecked : SequenceStep → Prop
  | .paste spec => PasteChecked spec
  | .pressCombo keys => keys ≠ [] ∧ keys.Nodup
  | _ => True

def ActionChecked : BindAction → Prop
  | .sequence steps => ∀ step ∈ steps, StepChecked step
  | .text text => text.toList ≠ []
  | .paste spec => PasteChecked spec
  | _ => True

/-- A duration that is a timing of a config. -/
def Timed (d : Duration) : Prop := ∃ ms, InRange ms ∧ d = fromMillis ms

def KindChecked : BindingKind → Prop
  | .combo c => Combines c
  | .sequence steps maxGap => 2 ≤ steps.length ∧ (∀ step ∈ steps, Combines step) ∧ Timed maxGap
  | .chord keys window =>
    2 ≤ keys.length ∧ (keys.Pairwise fun a b => a.overlaps b = false) ∧ Timed window

def TriggerChecked : Trigger → Prop
  | .immediate => True
  | .tap ms => InRange ms
  | .hold ms => InRange ms
  | .doubleTap ms => InRange ms

/-- What every binding of a loaded list has. -/
structure Checked (b : LoadedBinding BindAction) : Prop where
  kind : KindChecked b.kind
  action : ActionChecked b.action
  trigger : TriggerChecked b.trigger
  plain : isCombo b.kind = false → b.trigger.isImmediate = true ∧ b.allowExtraModifiers = false

/-! ### Keys and texts -/

theorem names_combines {s : String} {c : KeyCombination} (h : Names rd s c) : Combines c := by
  obtain ⟨keys, hkeys, rfl⟩ := map_eq_ok.mp h
  exact fromKeys_combines (named_of_parseSegments hkeys).1

/-- The key list of a keystroke has each key once, and there is one. -/
theorem parseKeyList_nodup {s : String} {keys : List VirtualKey}
    (h : parseKeyList rd s = .ok keys) : keys ≠ [] ∧ keys.Nodup := by
  obtain ⟨parsed, hparsed, rfl⟩ := map_eq_ok.mp h
  have hne := (named_of_parseSegments hparsed).1
  have hfold : ∀ (parsed deduped : List VirtualKey), deduped.Nodup →
      (parsed.foldl (fun deduped key =>
        if deduped.contains key then deduped else deduped ++ [key]) deduped).Nodup ∧
      (deduped ≠ [] ∨ parsed ≠ [] → parsed.foldl (fun deduped key =>
        if deduped.contains key then deduped else deduped ++ [key]) deduped ≠ []) := by
    intro parsed
    induction parsed with
    | nil => exact fun deduped hnodup => ⟨hnodup, fun h => h.resolve_right fun h => h rfl⟩
    | cons key parsed ih =>
      intro deduped hnodup
      rw [List.foldl_cons]
      split
      · next hmem =>
        obtain ⟨hrest, hany⟩ := ih deduped hnodup
        refine ⟨hrest, fun _ => hany (.inl ?_)⟩
        exact List.ne_nil_of_mem (List.contains_iff_mem.mp hmem)
      · next hnew =>
        have hfresh : key ∉ deduped := by simpa using hnew
        obtain ⟨hrest, hany⟩ := ih (deduped ++ [key])
          (List.nodup_append.mpr ⟨hnodup, List.nodup_singleton key, fun a ha b hb hab => by
            rw [List.mem_singleton.mp hb] at hab
            exact hfresh (hab ▸ ha)⟩)
        exact ⟨hrest, fun _ => hany (.inl (by simp))⟩
  obtain ⟨hnodup, hany⟩ := hfold parsed [] List.nodup_nil
  exact ⟨hany (.inr hne), hnodup⟩

theorem newPasteSpec_checked {text : String} {keys : List VirtualKey} {ms : Nat}
    {spec : PasteSpec} (hkeys : keys.Nodup) (h : newPasteSpec rd text keys ms = .ok spec) :
    PasteChecked spec := by
  unfold newPasteSpec at h
  by_cases htext : text.toList.isEmpty = true
  · rw [if_pos htext] at h
    exact nomatch h
  rw [if_neg htext] at h
  by_cases hnul : text.toList.contains (Char.ofNat 0) = true
  · rw [if_pos hnul] at h
    exact nomatch h
  rw [if_neg hnul] at h
  by_cases hpayload : keys.all isModifier = true
  · rw [if_pos hpayload] at h
    exact nomatch h
  rw [if_neg hpayload] at h
  by_cases hrange : RESTORE_DELAY_MIN ≤ ms ∧ ms ≤ RESTORE_DELAY_MAX
  · rw [if_neg (not_not.mpr hrange)] at h
    obtain rfl := Except.ok.inj h
    refine ⟨⟨text, by simpa using htext, by simpa using hnul, rfl⟩, hkeys, by simpa using hpayload,
      ⟨ms, hrange.1, hrange.2, rfl⟩⟩
  · rw [if_pos hrange] at h
    exact nomatch h

theorem rawPasteToSpec_checked {raw : RawPaste} {spec : PasteSpec}
    (h : rawPasteToSpec rd raw = .ok spec) : PasteChecked spec := by
  unfold rawPasteToSpec at h
  dsimp only at h
  obtain ⟨keys, hkeys, h⟩ := bind_eq_ok.mp h
  exact newPasteSpec_checked (parseKeyList_nodup (mapError_eq_ok.mp hkeys)).2
    (mapError_eq_ok.mp h)

theorem rawStepToStep_checked {raw : RawStep} {step : SequenceStep}
    (h : rawStepToStep rd raw = .ok step) : StepChecked step := by
  cases raw with
  | window kind => exact Except.ok.inj h ▸ trivial
  | delay ms => exact Except.ok.inj h ▸ trivial
  | text text => exact Except.ok.inj h ▸ trivial
  | launch exe args => exact Except.ok.inj h ▸ trivial
  | openUrl url => exact Except.ok.inj h ▸ trivial
  | media key => exact Except.ok.inj h ▸ trivial
  | paste raw =>
    obtain ⟨spec, hspec, rfl⟩ := map_eq_ok.mp h
    exact rawPasteToSpec_checked hspec
  | key name =>
    unfold rawStepToStep at h
    dsimp only at h
    split at h
    · exact Except.ok.inj h ▸ trivial
    · exact nomatch h
  | combo combo =>
    unfold rawStepToStep at h
    obtain ⟨keys, hkeys, h⟩ := bind_eq_ok.mp h
    split at h
    · exact nomatch h
    · exact Except.ok.inj h ▸ parseKeyList_nodup (mapError_eq_ok.mp hkeys)

theorem rawActionToBindAction_checked {raw : RawAction} {action : BindAction}
    (h : rawActionToBindAction rd raw = .ok action) : ActionChecked action := by
  cases raw with
  | switchLanguage => exact Except.ok.inj h ▸ trivial
  | switchLanguageBackward => exact Except.ok.inj h ▸ trivial
  | toggleCapsLock => exact Except.ok.inj h ▸ trivial
  | doNothing => exact Except.ok.inj h ▸ trivial
  | launch exe args => exact Except.ok.inj h ▸ trivial
  | openUrl url => exact Except.ok.inj h ▸ trivial
  | media key => exact Except.ok.inj h ▸ trivial
  | pressKey key =>
    unfold rawActionToBindAction at h
    dsimp only at h
    split at h
    · exact Except.ok.inj h ▸ trivial
    · exact nomatch h
  | postMessage msg wparam lparam =>
    cases msg with
    | code code => exact Except.ok.inj h ▸ trivial
    | name name =>
      unfold rawActionToBindAction at h
      dsimp only at h
      split at h
      · exact Except.ok.inj h ▸ trivial
      · exact nomatch h
  | sequence steps =>
    obtain ⟨converted, hconverted, rfl⟩ := map_eq_ok.mp h
    intro step hstep
    obtain ⟨entry, -, hentry⟩ := forall₂_mem_right (mapM_eq_ok.mp hconverted) hstep
    exact rawStepToStep_checked (mapError_eq_ok.mp hentry)
  | text text =>
    unfold rawActionToBindAction at h
    dsimp only at h
    split at h
    · exact nomatch h
    · next hne =>
      obtain rfl := Except.ok.inj h
      exact fun hempty => hne (List.isEmpty_iff.mpr hempty)
  | paste raw =>
    obtain ⟨spec, hspec, rfl⟩ := map_eq_ok.mp h
    exact rawPasteToSpec_checked hspec

theorem kindOf_checked {raw : RawBinding} {kind : BindingKind} (h : KindOf rd raw kind) :
    KindChecked kind := by
  cases h with
  | keys _ _ _ hnames => exact names_combines hnames
  | sequence _ _ _ htwo hnames hgap =>
    refine ⟨hnames.length_eq ▸ htwo, fun step hstep => ?_, _, hgap, rfl⟩
    obtain ⟨s, -, hs⟩ := forall₂_mem_right hnames hstep
    exact names_combines hs
  | chord _ _ _ htwo hnames hapart hwindow =>
    exact ⟨hnames.length_eq ▸ htwo, hapart, _, hwindow, rfl⟩

theorem triggerOf_checked {raw : RawTrigger} {trigger : Trigger} (h : TriggerOf raw trigger) :
    TriggerChecked trigger := by
  cases h with
  | immediate => trivial
  | tap h => exact h
  | hold h => exact h
  | doubleTap h => exact h

theorem loads_checked {raw : RawBinding} {b : LoadedBinding BindAction} (h : Loads rd raw b) :
    Checked b := by
  refine ⟨kindOf_checked h.kind, rawActionToBindAction_checked h.action,
    triggerOf_checked h.trigger, fun hother => ?_⟩
  obtain ⟨himmediate, hextra⟩ := h.plain hother
  exact ⟨himmediate, h.allowExtraModifiers.trans hextra⟩

/-! ## The whole file -/

section File

variable {P : Type} {fromStr : List Char → Except P RawConfig}
  {registry : SystemFunction → List (Option String)}

/-- The bindings of the entries, in order: `parseRonStr` has them, or a message. -/
theorem collect_loads {raw : List RawBinding} {users : List (LoadedBinding BindAction)} :
    collect (rawBindingToBinding rd) raw.zipIdx = (users, []) ↔
      List.Forall₂ (Loads rd) raw users := by
  rw [collect_clean, ← forall₂_zipIdx (R := Loads rd)]
  exact ⟨fun h => h.imp fun _ _ => rawBindingToBinding_eq_ok.mp,
    fun h => h.imp fun _ _ => rawBindingToBinding_eq_ok.mpr⟩

theorem wellBuilt_of_loads (registry : SystemFunction → List (Option String))
    {raw : List RawBinding}
    {users : List (LoadedBinding BindAction)} (h : List.Forall₂ (Loads rd) raw users) :
    WellBuilt (getSystemCombination rd registry) users := by
  refine ⟨fun action hotkey hhotkey => (hotkey_combines registry hhotkey).2,
    fun b hb combo hcombo => ?_⟩
  obtain ⟨entry, -, hloads⟩ := forall₂_mem_right h hb
  have hkind := (loads_checked hloads).kind
  rw [Binding.combination_eq_some.mp hcombo] at hkind
  exact hkind.2

variable (rd) in
/-- What a file that loads gives. -/
structure LoadedFrom (registry : SystemFunction → List (Option String)) (raw : RawConfig)
    (users blockers : List (LoadedBinding BindAction)) (parsed : ParsedConfig) : Prop where
  /-- A binding for each entry, in the order of the file. -/
  entries : List.Forall₂ (Loads rd) raw.bindings users
  /-- Then the auto-blockers they ask for. -/
  bindings : parsed.bindings = users ++ blockers
  asked : Blockers .doNothing (getSystemCombination rd registry) users blockers
  warnings : parsed.warnings =
    (if users.isEmpty then ["config contains no bindings"] else []) ++
      duplicateWarnings raw.bindings users ++
      users.zipIdx.filterMap (warningOf KeySpec.display (getSystemCombination rd registry) blockers)
  checked : ∀ b ∈ parsed.bindings, Checked b

/-- An auto-blocker is a plain binding of its hotkey. -/
theorem blocker_checked {users : List (LoadedBinding BindAction)}
    {b : LoadedBinding BindAction}
    (hb : b ∈ blockersFor .doNothing (getSystemCombination rd registry) users) : Checked b := by
  unfold blockersFor blockersOf at hb
  obtain ⟨hotkey, hblocked, hb⟩ := List.mem_flatMap.mp hb
  obtain ⟨mode, -, rfl⟩ := List.mem_map.mp hb
  obtain ⟨ask, hask, rfl⟩ := mem_hotkeysOf (List.mem_filter.mp hblocked).1
  obtain ⟨asker, -, -, -, hhotkey, -⟩ := mem_asksOf.mp hask
  exact ⟨hotkey_combines registry hhotkey, trivial, trivial, fun hother => (nomatch hother)⟩

theorem parseRonStr_of_loads (registry : SystemFunction → List (Option String))
    {raw : RawConfig} {text : List Char} {users : List (LoadedBinding BindAction)}
    (hraw : fromStr (stripBom text) = .ok raw)
    (h : List.Forall₂ (Loads rd) raw.bindings users) :
    ∃ parsed, parseRonStr rd fromStr (getSystemCombination rd registry) text = .ok parsed ∧
      LoadedFrom rd registry raw users
        (blockersFor .doNothing (getSystemCombination rd registry) users) parsed := by
  have hbuilt := wellBuilt_of_loads registry h
  have hcollect := collect_loads.mpr h
  unfold parseRonStr
  rw [hraw]
  dsimp only
  rw [hcollect]
  simp only [List.isEmpty_nil, Bool.not_true, Bool.false_eq_true, if_false]
  refine ⟨_, rfl, h, ?_, blockersFor_exact hbuilt, ?_, fun b hb => ?_⟩
  · rw [expandWithAutoBlockers_eq _ _ hbuilt]
  · rw [expandWithAutoBlockers_eq _ _ hbuilt]
  · rw [expandWithAutoBlockers_eq _ _ hbuilt] at hb
    rcases List.mem_append.mp hb with hb | hb
    · obtain ⟨entry, -, hloads⟩ := forall₂_mem_right h hb
      exact loads_checked hloads
    · exact blocker_checked hb

/-- What `parseRonStr` accepts, `collect` read without a failure. -/
theorem loads_of_parseRonStr {text : List Char} {parsed : ParsedConfig}
    (h : parseRonStr rd fromStr (getSystemCombination rd registry) text = .ok parsed) :
    ∃ raw users, fromStr (stripBom text) = .ok raw ∧
      List.Forall₂ (Loads rd) raw.bindings users := by
  unfold parseRonStr at h
  split at h
  · exact nomatch h
  · next raw hraw =>
    dsimp only at h
    split at h
    · exact nomatch h
    · next hclean =>
      have hnone : (collect (rawBindingToBinding rd) raw.bindings.zipIdx).2 = [] := by
        simpa using hclean
      exact ⟨raw, _, hraw, collect_loads.mp (Prod.ext rfl hnone)⟩

/-- What loads, it gives, with the auto-blockers asked for. -/
theorem loadedFrom_of_parseRonStr {text : List Char} {parsed : ParsedConfig}
    (h : parseRonStr rd fromStr (getSystemCombination rd registry) text = .ok parsed) :
    ∃ raw users blockers, fromStr (stripBom text) = .ok raw ∧
      LoadedFrom rd registry raw users blockers parsed := by
  obtain ⟨raw, users, hraw, hloads⟩ := loads_of_parseRonStr h
  obtain ⟨parsed', h', hfrom⟩ := parseRonStr_of_loads registry hraw hloads
  obtain rfl := Except.ok.inj (h.symm.trans h')
  exact ⟨raw, users, _, hraw, hfrom⟩

/-- When a text loads, and as what. -/
structure LoadsExactly (rd : Reading) (fromStr : List Char → Except P RawConfig)
    (registry : SystemFunction → List (Option String)) (text : List Char) : Prop where
  loaded : ∀ parsed, parseRonStr rd fromStr (getSystemCombination rd registry) text = .ok parsed →
    ∃ raw users blockers, fromStr (stripBom text) = .ok raw ∧
      LoadedFrom rd registry raw users blockers parsed
  accepted : (∃ parsed, parseRonStr rd fromStr (getSystemCombination rd registry) text =
      .ok parsed) ↔
    ∃ raw, fromStr (stripBom text) = .ok raw ∧ ∀ entry ∈ raw.bindings, ∃ b, Loads rd entry b

/-- **A config loads exactly if each of its entries passes every check**, and gives their
bindings in the order of the file and then exactly the auto-blockers that they ask for. Each
binding of the list keeps what the rest of the program takes for granted. -/
theorem config_loads (rd : Reading) (fromStr : List Char → Except P RawConfig)
    (registry : SystemFunction → List (Option String)) (text : List Char) :
    LoadsExactly rd fromStr registry text := by
  refine ⟨fun parsed h => ?_, fun ⟨parsed, h⟩ => ?_, fun ⟨raw, hraw, hall⟩ => ?_⟩
  · exact loadedFrom_of_parseRonStr h
  · obtain ⟨raw, users, hraw, hloads⟩ := loads_of_parseRonStr h
    refine ⟨raw, hraw, fun entry hentry => ?_⟩
    obtain ⟨b, -, hb⟩ := forall₂_mem_right hloads.flip hentry
    exact ⟨b, hb⟩
  · obtain ⟨users, hloads⟩ : ∃ users, List.Forall₂ (Loads rd) raw.bindings users := by
      clear hraw
      generalize raw.bindings = entries at hall
      induction entries with
      | nil => exact ⟨[], .nil⟩
      | cons entry rest ih =>
        obtain ⟨b, hb⟩ := hall entry List.mem_cons_self
        obtain ⟨users, husers⟩ := ih fun e he => hall e (List.mem_cons_of_mem _ he)
        exact ⟨b :: users, .cons hb husers⟩
    obtain ⟨parsed, h, -⟩ := parseRonStr_of_loads registry hraw hloads
    exact ⟨parsed, h⟩

end File

end KeySwitch.Config
