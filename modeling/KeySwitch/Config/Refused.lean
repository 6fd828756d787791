import KeySwitch.Config.Accepted

/-!
# What is refused, and why

A file that does not load gives one message for each entry that is no binding, in the order of
the file. A message begins with the number and the keys of its entry, and says of one of its
fields what is wrong with it: `Complaint` lists what a message can say, each with what has to
be so (`config_refused`).
-/

namespace KeySwitch.Config

open Data Lib

variable (rd : Reading)

/-! ## What a message can say -/

/-- Of a text that should be names of keys with `+` between them. -/
inductive SegmentsComplaint {α : Type} (parse : String → Option α) (s : String) : String → Prop
  | empty (h : trim s.toList = []) : SegmentsComplaint parse s "combo is empty"
  | stray {segment : List Char} (h : segment ∈ (trim s.toList).splitOn '+')
      (hempty : trim segment = []) :
      SegmentsComplaint parse s ("empty segment in combo " ++ rd.quoted s ++ " (stray '+'?)")
  | unknown {segment : List Char} (h : segment ∈ (trim s.toList).splitOn '+')
      (hname : parse (String.ofList (trim segment)) = none) :
      SegmentsComplaint parse s ("unknown key " ++ rd.quoted (String.ofList (trim segment))
        ++ " in combo " ++ rd.quoted s)

/-- Of a timing, as the file writes it. -/
def outOfRange (written : String) : String :=
  written ++ " is out of range: timings are " ++ toString TIMING_MIN ++ " to "
    ++ toString TIMING_MAX ++ " ms"

/-- Of the keys of an entry. -/
inductive KindComplaint (raw : RawBinding) : String → Prop
  | unset (hkeys : raw.keys = none) (hsequence : raw.sequence = none) (hchord : raw.chord = none) :
      KindComplaint raw
        "binding has none of `keys` / `sequence` / `chord` set — must specify exactly one"
  | several (h : 2 ≤ raw.keys.isSome.toNat + raw.sequence.isSome.toNat + raw.chord.isSome.toNat) :
      KindComplaint raw
        "binding has multiple of `keys` / `sequence` / `chord` set — must be exactly one"
  | keys {s e : String} (h : raw.keys = some s)
      (he : SegmentsComplaint rd (KeySpec.parse rd.lowercase) s e) : KindComplaint raw e
  | fewSteps {seq : SequenceSpec} (h : raw.sequence = some seq) (hfew : seq.steps.length < 2) :
      KindComplaint raw
        "Sequence must have at least 2 steps; for a single combo use plain `keys: \"...\"`"
  | step {seq : SequenceSpec} {i : Nat} {s e : String} (h : raw.sequence = some seq)
      (hs : seq.steps[i]? = some s) (he : SegmentsComplaint rd (KeySpec.parse rd.lowercase) s e) :
      KindComplaint raw ("Sequence step #" ++ toString i ++ ": " ++ e)
  | gap {seq : SequenceSpec} (h : raw.sequence = some seq) (hout : ¬InRange seq.maxGapMs) :
      KindComplaint raw (outOfRange ("max_gap_ms: " ++ toString seq.maxGapMs))
  | fewKeys {chord : ChordSpec} (h : raw.chord = some chord) (hfew : chord.keys.length < 2) :
      KindComplaint raw "Chord must have at least 2 keys; a single key is not a chord"
  | unknownKey {chord : ChordSpec} {i : Nat} {k : String} (h : raw.chord = some chord)
      (hk : chord.keys[i]? = some k) (hname : KeySpec.parse rd.lowercase k = none) :
      KindComplaint raw ("Chord key #" ++ toString i ++ ": unknown key name " ++ rd.quoted k)
  | overlap {chord : ChordSpec} {i j : Nat} {k k' : String} {spec spec' : KeySpec}
      (h : raw.chord = some chord) (hlt : j < i) (hk : chord.keys[i]? = some k)
      (hk' : chord.keys[j]? = some k') (hspec : KeySpec.parse rd.lowercase k = some spec)
      (hspec' : KeySpec.parse rd.lowercase k' = some spec') (hover : spec'.overlaps spec = true) :
      KindComplaint raw ("Chord key #" ++ toString i ++ ": duplicate " ++ rd.quoted k
        ++ " (overlaps key #" ++ toString j ++ ")")
  | window {chord : ChordSpec} (h : raw.chord = some chord) (hout : ¬InRange chord.windowMs) :
      KindComplaint raw (outOfRange ("window_ms: " ++ toString chord.windowMs))

/-- Of a paste. -/
inductive PasteComplaint (raw : RawPaste) : String → Prop
  | keys {e : String}
      (he : SegmentsComplaint rd (parseVk rd.lowercase) (raw.keys.getD DEFAULT_KEYS) e) :
      PasteComplaint raw ("Paste: keys " ++ rd.quoted (raw.keys.getD DEFAULT_KEYS) ++ ": " ++ e)
  | empty (h : raw.text.toList = []) : PasteComplaint raw "Paste: empty"
  | nul (h : Char.ofNat 0 ∈ raw.text.toList) : PasteComplaint raw
      "Paste: the text contains the character U+0000, which ends a text on the clipboard"
  | modifiers {keys : List VirtualKey} (h : parseKeyList rd (raw.keys.getD DEFAULT_KEYS) = .ok keys)
      (hall : ∀ key ∈ keys, isModifier key = true) :
      PasteComplaint raw ("Paste: keys " ++ rd.quoted ("+".intercalate (keys.map vkName))
        ++ " has no key besides modifiers")
  | delay {ms : Nat} (h : raw.restoreDelay.getD DEFAULT_RESTORE_DELAY_MS = ms)
      (hout : ¬(RESTORE_DELAY_MIN ≤ ms ∧ ms ≤ RESTORE_DELAY_MAX)) :
      PasteComplaint raw ("Paste: restore_delay: " ++ toString ms ++ " is out of range: "
        ++ toString RESTORE_DELAY_MIN ++ " to " ++ toString RESTORE_DELAY_MAX ++ " ms")

/-- Of a macro step. -/
inductive StepComplaint : RawStep → String → Prop
  | paste {raw : RawPaste} {e : String} (h : PasteComplaint rd raw e) : StepComplaint (.paste raw) e
  | key {name : String} (h : parseVk rd.lowercase name = none) :
      StepComplaint (.key name) ("Key: unknown key " ++ rd.quoted name)
  | combo {combo e : String} (h : SegmentsComplaint rd (parseVk rd.lowercase) combo e) :
      StepComplaint (.combo combo) ("Combo " ++ rd.quoted combo ++ ": " ++ e)

/-- Of the action of an entry. -/
inductive ActionComplaint : RawAction → String → Prop
  | pressKey {key : String} (h : parseVk rd.lowercase key = none) :
      ActionComplaint (.pressKey key) ("PressKey: unknown key " ++ rd.quoted key)
  | message {name : String} {wparam : Nat} {lparam : Int} (h : parseWmName rd name = none) :
      ActionComplaint (.postMessage (.name name) wparam lparam)
        ("PostMessage: unknown WM_* name " ++ rd.quoted name
          ++ " (use a numeric code if it is not in the built-in table)")
  | step {steps : List RawStep} {i : Nat} {step : RawStep} {e : String}
      (h : steps[i]? = some step) (he : StepComplaint rd step e) :
      ActionComplaint (.sequence steps) ("step #" ++ toString i ++ ": " ++ e)
  | text : ActionComplaint (.text "") "Text: empty"
  | paste {raw : RawPaste} {e : String} (h : PasteComplaint rd raw e) :
      ActionComplaint (.paste raw) e

/-- The term of a deferred trigger, with how the file writes it. -/
def RawTrigger.term : RawTrigger → Option (Nat × String)
  | .immediate => none
  | .tap ms => some (ms, "Tap(" ++ toString ms ++ ")")
  | .hold ms => some (ms, "Hold(" ++ toString ms ++ ")")
  | .doubleTap ms => some (ms, "DoubleTap(" ++ toString ms ++ ")")

/-- What the message about an entry says, and why. -/
inductive Complaint (raw : RawBinding) : String → Prop
  | kind {e : String} (h : KindComplaint rd raw e) : Complaint raw e
  | action {e : String} (h : ActionComplaint rd raw.action e) : Complaint raw e
  | term {ms : Nat} {written : String} (h : raw.trigger.term = some (ms, written))
      (hout : ¬InRange ms) : Complaint raw (outOfRange written)
  | deferred {kind : BindingKind} {trigger : Trigger} (hkind : KindOf rd raw kind)
      (hother : isCombo kind = false) (htrigger : TriggerOf raw.trigger trigger)
      (hdeferred : trigger.isImmediate = false) :
      Complaint raw ("Sequence/Chord cannot use a deferred trigger (" ++ debugTrigger trigger
        ++ "); only `Immediate` (the default) is valid for these kinds")
  | extra {kind : BindingKind} (hkind : KindOf rd raw kind) (hother : isCombo kind = false)
      (h : raw.allowExtraModifiers = true) :
      Complaint raw "`allow_extra_modifiers` applies only to `keys` bindings"
  | repeats {kind : BindingKind} {trigger : Trigger} (hkind : KindOf rd raw kind)
      (htrigger : TriggerOf raw.trigger trigger) (h : raw.repeats = some true)
      (hother : (isCombo kind && trigger.isImmediate) = false) :
      Complaint raw
        "`repeat: true` applies only to `keys` bindings with the `Immediate` trigger"

variable {rd}

/-! ## Every message is one of these -/

theorem segments_complaint {α : Type} {parse : String → Option α} {s e : String}
    (h : parseSegments rd.quoted parse s = .error e) : SegmentsComplaint rd parse s e := by
  unfold parseSegments at h
  dsimp only at h
  split at h
  · next hempty => exact Except.error.inj h ▸ .empty (List.isEmpty_iff.mp hempty)
  · obtain ⟨segment, hmem, hsegment⟩ := mapM_eq_error h
    unfold parseSegment at hsegment
    dsimp only at hsegment
    split at hsegment
    · next hempty => exact Except.error.inj hsegment ▸ .stray hmem (List.isEmpty_iff.mp hempty)
    · split at hsegment
      · exact nomatch hsegment
      · next hnone => exact Except.error.inj hsegment ▸ .unknown hmem hnone

theorem combo_complaint {s e : String} (h : parseCombo rd.quoted rd.lowercase s = .error e) :
    SegmentsComplaint rd (KeySpec.parse rd.lowercase) s e := segments_complaint (map_eq_error.mp h)

theorem keyList_complaint {s e : String} (h : parseKeyList rd s = .error e) :
    SegmentsComplaint rd (parseVk rd.lowercase) s e := segments_complaint (map_eq_error.mp h)

theorem checkTimingMs_eq_error {written e : String} {ms : Nat} :
    checkTimingMs written ms = .error e ↔ ¬InRange ms ∧ e = outOfRange written := by
  unfold checkTimingMs InRange outOfRange
  split
  · next h => exact ⟨fun heq => (nomatch heq), fun heq => absurd h heq.1⟩
  · next h => exact ⟨fun heq => ⟨h, (Except.error.inj heq).symm⟩, fun heq => congrArg _ heq.2.symm⟩

theorem sequence_complaint {raw : RawBinding} {seq : SequenceSpec} {e : String}
    (hseq : raw.sequence = some seq) (h : sequenceSpecToKind rd seq = .error e) :
    KindComplaint rd raw e := by
  unfold sequenceSpecToKind at h
  split at h
  · next hfew => exact Except.error.inj h ▸ .fewSteps hseq hfew
  · rcases bind_eq_error.mp h with h | ⟨steps, -, h⟩
    · obtain ⟨entry, hmem, hentry⟩ := mapM_eq_error h
      obtain ⟨e, he, rfl⟩ := mapError_eq_error.mp hentry
      exact .step hseq (List.mk_mem_zipIdx_iff_getElem?.mp hmem) (combo_complaint he)
    · rcases bind_eq_error.mp h with h | ⟨ms, -, h⟩
      · obtain ⟨hout, rfl⟩ := checkTimingMs_eq_error.mp h
        exact .gap hseq hout
      · exact nomatch h

/-- The keys `before` were read as `specs`, and then one cannot follow them. -/
theorem chordKeys_complaint {raw : RawBinding} {chord : ChordSpec} {e : String}
    (hchord : raw.chord = some chord) (rest : List String) :
    ∀ (before : List String) (specs : List KeySpec), chord.keys = before ++ rest →
      List.Forall₂ (fun k spec => KeySpec.parse rd.lowercase k = some spec) before specs →
      chordKeys rd (rest.zipIdx before.length) specs = .error e → KindComplaint rd raw e := by
  induction rest with
  | nil => exact fun _ _ _ _ h => nomatch h
  | cons k rest ih =>
    intro before specs hkeys hspecs h
    have hk : chord.keys[before.length]? = some k := by
      rw [hkeys, List.getElem?_append_right (Nat.le_refl _), Nat.sub_self]
      rfl
    rw [List.zipIdx_cons] at h
    unfold chordKeys at h
    split at h
    · next hnone => exact Except.error.inj h ▸ .unknownKey hchord hk hnone
    · next spec hspec =>
      split at h
      · next j hj =>
        obtain ⟨hlt, hover, -⟩ := List.findIdx?_eq_some_iff_getElem.mp hj
        have hbefore : j < before.length := hspecs.length_eq ▸ hlt
        have hk' : chord.keys[j]? = some before[j] := by
          rw [hkeys, List.getElem?_append_left hbefore]
          exact List.getElem?_eq_getElem hbefore
        exact Except.error.inj h ▸ .overlap hchord hbefore hk hk' hspec
          (hspecs.get hbefore hlt) hover
      · have hnext := ih (before ++ [k]) (specs ++ [spec]) (by rw [hkeys, List.append_cons])
          (List.rel_append hspecs (.cons hspec .nil))
        rw [List.length_append] at hnext
        exact hnext h

theorem chord_complaint {raw : RawBinding} {chord : ChordSpec} {e : String}
    (hchord : raw.chord = some chord) (h : chordSpecToKind rd chord = .error e) :
    KindComplaint rd raw e := by
  unfold chordSpecToKind at h
  split at h
  · next hfew => exact Except.error.inj h ▸ .fewKeys hchord hfew
  · rcases bind_eq_error.mp h with h | ⟨specs, -, h⟩
    · exact chordKeys_complaint hchord chord.keys [] [] rfl .nil h
    · rcases bind_eq_error.mp h with h | ⟨ms, -, h⟩
      · obtain ⟨hout, rfl⟩ := checkTimingMs_eq_error.mp h
        exact .window hchord hout
      · exact nomatch h

theorem kind_complaint {raw : RawBinding} {e : String} (h : rawBindingToKind rd raw = .error e) :
    KindComplaint rd raw e := by
  unfold rawBindingToKind at h
  split at h
  · next hkeys hsequence hchord => exact Except.error.inj h ▸ .unset hkeys hsequence hchord
  · next s hkeys hsequence hchord => exact .keys hkeys (combo_complaint (map_eq_error.mp h))
  · next seq hkeys hsequence hchord => exact sequence_complaint hsequence h
  · next chord hkeys hsequence hchord => exact chord_complaint hchord h
  · next hnone hkeys hsequence hchord =>
    refine Except.error.inj h ▸ .several ?_
    cases h₁ : raw.keys <;> cases h₂ : raw.sequence <;> cases h₃ : raw.chord <;> simp_all

theorem paste_complaint {raw : RawPaste} {e : String} (h : rawPasteToSpec rd raw = .error e) :
    PasteComplaint rd raw e := by
  unfold rawPasteToSpec at h
  dsimp only at h
  rcases bind_eq_error.mp h with h | ⟨keys, hkeys, h⟩
  · obtain ⟨e, he, rfl⟩ := mapError_eq_error.mp h
    exact .keys (keyList_complaint he)
  · have hkeys := mapError_eq_ok.mp hkeys
    obtain ⟨e, he, rfl⟩ := mapError_eq_error.mp h
    unfold newPasteSpec at he
    by_cases htext : raw.text.toList.isEmpty = true
    · rw [if_pos htext] at he
      exact Except.error.inj he ▸ .empty (List.isEmpty_iff.mp htext)
    rw [if_neg htext] at he
    by_cases hnul : raw.text.toList.contains (Char.ofNat 0) = true
    · rw [if_pos hnul] at he
      exact Except.error.inj he ▸ .nul (List.contains_iff_mem.mp hnul)
    rw [if_neg hnul] at he
    by_cases hall : keys.all isModifier = true
    · rw [if_pos hall] at he
      exact Except.error.inj he ▸ .modifiers hkeys (List.all_eq_true.mp hall)
    rw [if_neg hall] at he
    by_cases hrange : RESTORE_DELAY_MIN ≤ raw.restoreDelay.getD DEFAULT_RESTORE_DELAY_MS ∧
        raw.restoreDelay.getD DEFAULT_RESTORE_DELAY_MS ≤ RESTORE_DELAY_MAX
    · rw [if_neg (not_not.mpr hrange)] at he
      exact nomatch he
    · rw [if_pos hrange] at he
      exact Except.error.inj he ▸ .delay rfl hrange

theorem step_complaint {raw : RawStep} {e : String} (h : rawStepToStep rd raw = .error e) :
    StepComplaint rd raw e := by
  cases raw with
  | window kind => exact nomatch h
  | delay ms => exact nomatch h
  | text text => exact nomatch h
  | launch exe args => exact nomatch h
  | openUrl url => exact nomatch h
  | media key => exact nomatch h
  | paste raw => exact .paste (paste_complaint (map_eq_error.mp h))
  | key name =>
    unfold rawStepToStep at h
    dsimp only at h
    split at h
    · exact nomatch h
    · next hnone => exact Except.error.inj h ▸ .key hnone
  | combo combo =>
    unfold rawStepToStep at h
    rcases bind_eq_error.mp h with h | ⟨keys, hkeys, h⟩
    · obtain ⟨e, he, rfl⟩ := mapError_eq_error.mp h
      exact .combo (keyList_complaint he)
    · -- A combination that was read has a key, so that it is never empty.
      have hne := (parseKeyList_nodup (mapError_eq_ok.mp hkeys)).1
      rw [if_neg (by simpa using hne)] at h
      exact nomatch h

theorem action_complaint {raw : RawAction} {e : String}
    (h : rawActionToBindAction rd raw = .error e) : ActionComplaint rd raw e := by
  cases raw with
  | switchLanguage => exact nomatch h
  | switchLanguageBackward => exact nomatch h
  | toggleCapsLock => exact nomatch h
  | doNothing => exact nomatch h
  | launch exe args => exact nomatch h
  | openUrl url => exact nomatch h
  | media key => exact nomatch h
  | pressKey key =>
    unfold rawActionToBindAction at h
    dsimp only at h
    split at h
    · exact nomatch h
    · next hnone => exact Except.error.inj h ▸ .pressKey hnone
  | postMessage msg wparam lparam =>
    cases msg with
    | code code => exact nomatch h
    | name name =>
      unfold rawActionToBindAction at h
      dsimp only at h
      split at h
      · exact nomatch h
      · next hnone => exact Except.error.inj h ▸ .message hnone
  | sequence steps =>
    obtain ⟨entry, hmem, hentry⟩ := mapM_eq_error (map_eq_error.mp h)
    obtain ⟨e, he, rfl⟩ := mapError_eq_error.mp hentry
    exact .step (List.mk_mem_zipIdx_iff_getElem?.mp hmem) (step_complaint he)
  | text text =>
    unfold rawActionToBindAction at h
    dsimp only at h
    split at h
    · next hempty =>
      obtain rfl : text = "" := by simpa using hempty
      exact Except.error.inj h ▸ .text
    · exact nomatch h
  | paste raw => exact .paste (paste_complaint (map_eq_error.mp h))

theorem trigger_complaint {raw : RawTrigger} {e : String}
    (h : rawTriggerToTrigger raw = .error e) :
    ∃ ms written, raw.term = some (ms, written) ∧ ¬InRange ms ∧ e = outOfRange written := by
  cases raw with
  | immediate => exact nomatch h
  | tap ms => exact ⟨ms, _, rfl, checkTimingMs_eq_error.mp (map_eq_error.mp h)⟩
  | hold ms => exact ⟨ms, _, rfl, checkTimingMs_eq_error.mp (map_eq_error.mp h)⟩
  | doubleTap ms => exact ⟨ms, _, rfl, checkTimingMs_eq_error.mp (map_eq_error.mp h)⟩

theorem binding_complaint {raw : RawBinding} {e : String} (h : convertBinding rd raw = .error e) :
    Complaint rd raw e := by
  unfold convertBinding at h
  rcases bind_eq_error.mp h with h | ⟨kind, hkind, h⟩
  · exact .kind (kind_complaint h)
  rcases bind_eq_error.mp h with h | ⟨action, -, h⟩
  · exact .action (action_complaint h)
  rcases bind_eq_error.mp h with h | ⟨trigger, htrigger, h⟩
  · obtain ⟨ms, written, hterm, hout, rfl⟩ := trigger_complaint h
    exact .term hterm hout
  have hkind := rawBindingToKind_eq_ok.mp hkind
  have htrigger := rawTriggerToTrigger_eq_ok.mp htrigger
  dsimp only at h
  split at h
  · next hdeferred =>
    rw [Bool.and_eq_true, Bool.not_eq_true', Bool.not_eq_true'] at hdeferred
    exact Except.error.inj h ▸ .deferred hkind hdeferred.1 htrigger hdeferred.2
  · split at h
    · next hextra =>
      rw [Bool.and_eq_true, Bool.not_eq_true'] at hextra
      exact Except.error.inj h ▸ .extra hkind hextra.1 hextra.2
    · split at h
      · next hrepeat =>
        rw [Bool.and_eq_true, beq_iff_eq, Bool.not_eq_true'] at hrepeat
        exact Except.error.inj h ▸ .repeats hkind htrigger hrepeat.1 hrepeat.2
      · exact nomatch h

/-! ## The whole file -/

variable (rd) in
/-- The message about an entry that is no binding. -/
def messageOf (entry : RawBinding × Nat) : Option String := failure (rawBindingToBinding rd entry)

variable (rd) in
/-- The messages `errors` about the entries of a file. -/
structure Refusal (raw : RawConfig) (errors : List String) : Prop where
  /-- In the order of the file. -/
  messages : errors = raw.bindings.zipIdx.filterMap (messageOf rd)
  atLeastOne : errors ≠ []
  /-- There is none about an entry that could load. -/
  silent : ∀ entry ∈ raw.bindings.zipIdx, messageOf rd entry = none ↔ ∃ b, Loads rd entry.1 b
  /-- Each names its entry and says what is wrong with it. -/
  reasons : ∀ entry ∈ raw.bindings.zipIdx, ∀ message ∈ messageOf rd entry, ∃ e,
    message = errPrefix entry.1 entry.2 ++ ": " ++ e ∧ Complaint rd entry.1 e

theorem messageOf_none {entry : RawBinding × Nat} :
    messageOf rd entry = none ↔ ∃ b, Loads rd entry.1 b := by
  unfold messageOf
  constructor
  · intro h
    cases hread : rawBindingToBinding rd entry with
    | ok b => exact ⟨b, rawBindingToBinding_eq_ok.mp hread⟩
    | error e =>
      rw [hread] at h
      exact nomatch h
  · rintro ⟨b, hb⟩
    have hread : rawBindingToBinding rd (entry.1, entry.2) = .ok b :=
      rawBindingToBinding_eq_ok.mpr hb
    rw [hread]
    rfl

/-- When a text is refused, and with which messages. -/
structure RefusesExactly {P : Type} (rd : Reading) (fromStr : List Char → Except P RawConfig)
    (registry : SystemFunction → List (Option String)) (text : List Char) : Prop where
  shape : ∀ source, parseRonStr rd fromStr (getSystemCombination rd registry) text =
    .error (.parse source) ↔ fromStr (stripBom text) = .error source
  entries : ∀ errors, parseRonStr rd fromStr (getSystemCombination rd registry) text =
    .error (.bindings errors) ↔ ∃ raw, fromStr (stripBom text) = .ok raw ∧ Refusal rd raw errors

/-- **A config is refused with one message for each entry that is no binding**, in the order
of the file, each with the number and the keys of its entry and a reason that is so. -/
theorem config_refused {P : Type} (rd : Reading) (fromStr : List Char → Except P RawConfig)
    (registry : SystemFunction → List (Option String)) (text : List Char) :
    RefusesExactly rd fromStr registry text := by
  refine ⟨fun source => ?_, fun errors => ?_⟩
  · unfold parseRonStr
    cases hraw : fromStr (stripBom text) with
    | error source' =>
      constructor
      · exact fun h => congrArg _ (ConfigError.parse.inj (Except.error.inj h))
      · exact fun h => Except.error.inj h ▸ rfl
    | ok raw =>
      constructor
      · intro h
        dsimp only at h
        split at h
        · exact nomatch Except.error.inj h
        · exact nomatch h
      · exact fun h => nomatch h
  · have hmessages : ∀ raw : RawConfig,
        (collect (rawBindingToBinding rd) raw.bindings.zipIdx).2 =
          raw.bindings.zipIdx.filterMap (messageOf rd) := by
      intro raw
      rw [collect_eq]
      rfl
    have hreasons : ∀ raw : RawConfig, ∀ entry ∈ raw.bindings.zipIdx,
        ∀ message ∈ messageOf rd entry, ∃ e,
          message = errPrefix entry.1 entry.2 ++ ": " ++ e ∧ Complaint rd entry.1 e := by
      intro raw entry _ message hmessage
      have herror := failure_eq_some.mp hmessage
      obtain ⟨e, he, rfl⟩ := mapError_eq_error.mp herror
      exact ⟨e, rfl, binding_complaint he⟩
    unfold parseRonStr
    cases hraw : fromStr (stripBom text) with
    | error source =>
      constructor
      · exact fun h => nomatch Except.error.inj h
      · exact fun ⟨raw, h, _⟩ => nomatch h
    | ok raw =>
      dsimp only
      rw [hmessages]
      constructor
      · intro h
        split at h
        · next hsome =>
          obtain rfl := ConfigError.bindings.inj (Except.error.inj h)
          exact ⟨raw, rfl, rfl, by simpa using hsome, fun _ _ => messageOf_none, hreasons raw⟩
        · exact nomatch h
      · rintro ⟨raw', h, hrefusal⟩
        obtain rfl := Except.ok.inj h
        have hsome := hrefusal.atLeastOne
        rw [hrefusal.messages] at hsome ⊢
        rw [if_pos (by simpa using hsome)]

end KeySwitch.Config
