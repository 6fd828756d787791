import KeySwitch.Config.Schema
import KeySwitch.Lib.Checks

/-!
# From a config file to the bindings

The loader reads the text, makes a binding of each entry and appends the auto-blockers. An
entry that cannot be a binding gives one message, of the first check it fails; the file is
refused with all of them. What loads may still be warned about: a list with no binding, and a
binding that repeats an earlier one.

`Reading` is what the checks use of the standard library. The deserializer and the hotkeys of
Windows are parameters.
-/

namespace KeySwitch.Config

open Data Lib

/-- The Unicode tables, and how a message quotes a text. -/
structure Reading where
  quoted : String → String
  lowercase : Lowercase
  toUppercase : Char → List Char

variable (rd : Reading)

/-! ## Names and texts -/

/-- The messages a config may name. -/
def WM_NAMES : List (String × Nat) :=
  [("WM_CLOSE", 0x0010), ("WM_QUIT", 0x0012), ("WM_DESTROY", 0x0002), ("WM_COMMAND", 0x0111),
    ("WM_SYSCOMMAND", 0x0112), ("WM_INPUTLANGCHANGEREQUEST", 0x0050), ("WM_KEYDOWN", 0x0100),
    ("WM_KEYUP", 0x0101), ("WM_SYSKEYDOWN", 0x0104), ("WM_SYSKEYUP", 0x0105),
    ("WM_HOTKEY", 0x0312)]

def parseWmName (name : String) : Option Nat :=
  let normalized := (name.toList.filter fun c => !isWhitespace c).flatMap rd.toUppercase
  (WM_NAMES.find? fun entry => entry.1.toList == normalized).map Prod.snd

/-- The keys a `Combo` step or a paste sends, each once, in their order. -/
def parseKeyList (s : String) : Except String (List VirtualKey) :=
  (parseSegments rd.quoted (parseVk rd.lowercase) s).map fun keys =>
    keys.foldl (fun deduped key => if deduped.contains key then deduped else deduped ++ [key]) []

/-- The keys of an entry as the file writes them. -/
def formatRawBindingKeys (raw : RawBinding) : String :=
  match raw.keys with
  | some s => s
  | none =>
    match raw.sequence with
    | some seq => "Sequence[" ++ " → ".intercalate seq.steps ++ "]"
    | none =>
      match raw.chord with
      | some chord => "Chord[" ++ "+".intercalate chord.keys ++ "]"
      | none => "<unset>"

/-! ## Timings -/

/-- Every timing of a binding is 1 to 10000 ms. -/
def TIMING_MIN : Nat := 1
def TIMING_MAX : Nat := 10000

/-- `ms` if it is in range; `written` is the value as the file spells it. -/
def checkTimingMs (written : String) (ms : Nat) : Except String Nat :=
  if TIMING_MIN ≤ ms ∧ ms ≤ TIMING_MAX then .ok ms
  else
    .error (written ++ " is out of range: timings are " ++ toString TIMING_MIN ++ " to "
      ++ toString TIMING_MAX ++ " ms")

def rawTriggerToTrigger : RawTrigger → Except String Trigger
  | .immediate => .ok .immediate
  | .tap ms => (checkTimingMs ("Tap(" ++ toString ms ++ ")") ms).map .tap
  | .hold ms => (checkTimingMs ("Hold(" ++ toString ms ++ ")") ms).map .hold
  | .doubleTap ms => (checkTimingMs ("DoubleTap(" ++ toString ms ++ ")") ms).map .doubleTap

/-- A trigger as a message shows it. -/
def debugTrigger : Trigger → String
  | .immediate => "Immediate"
  | .tap ms => "Tap(" ++ toString ms ++ ")"
  | .hold ms => "Hold(" ++ toString ms ++ ")"
  | .doubleTap ms => "DoubleTap(" ++ toString ms ++ ")"

/-! ## What triggers a binding -/

def sequenceStep (entry : String × Nat) : Except String KeyCombination :=
  (parseCombo rd.quoted rd.lowercase entry.1).mapError fun e =>
    "Sequence step #" ++ toString entry.2 ++ ": " ++ e

def sequenceSpecToKind (seq : SequenceSpec) : Except String BindingKind := do
  if seq.steps.length < 2 then
    .error "Sequence must have at least 2 steps; for a single combo use plain `keys: \"...\"`"
  let parsed ← seq.steps.zipIdx.mapM (sequenceStep rd)
  let maxGapMs ← checkTimingMs ("max_gap_ms: " ++ toString seq.maxGapMs) seq.maxGapMs
  .ok (.sequence parsed (fromMillis maxGapMs))

/-- The keys of a chord, read after `specs`. -/
def chordKeys : List (String × Nat) → List KeySpec → Except String (List KeySpec)
  | [], specs => .ok specs
  | (k, i) :: rest, specs =>
    match KeySpec.parse rd.lowercase k with
    | none => .error ("Chord key #" ++ toString i ++ ": unknown key name " ++ rd.quoted k)
    | some spec =>
      match specs.findIdx? fun s => s.overlaps spec with
      | some j =>
        .error ("Chord key #" ++ toString i ++ ": duplicate " ++ rd.quoted k
          ++ " (overlaps key #" ++ toString j ++ ")")
      | none => chordKeys rest (specs ++ [spec])

def chordSpecToKind (chord : ChordSpec) : Except String BindingKind := do
  if chord.keys.length < 2 then
    .error "Chord must have at least 2 keys; a single key is not a chord"
  let specs ← chordKeys rd chord.keys.zipIdx []
  let windowMs ← checkTimingMs ("window_ms: " ++ toString chord.windowMs) chord.windowMs
  .ok (.chord specs (fromMillis windowMs))

def rawBindingToKind (raw : RawBinding) : Except String BindingKind :=
  match raw.keys, raw.sequence, raw.chord with
  | none, none, none =>
    .error "binding has none of `keys` / `sequence` / `chord` set — must specify exactly one"
  | some s, none, none => (parseCombo rd.quoted rd.lowercase s).map .combo
  | none, some seq, none => sequenceSpecToKind rd seq
  | none, none, some chord => chordSpecToKind rd chord
  | _, _, _ =>
    .error "binding has multiple of `keys` / `sequence` / `chord` set — must be exactly one"

/-! ## Conditions -/

mutual

def rawConditionToCondition : RawCondition → Condition
  | .always => .always
  | .appEquals s => .appEquals s
  | .titleContains s => .titleContains s
  | .titleEquals s => .titleEquals s
  | .not inner => .not (rawConditionToCondition inner)
  | .and parts => .and (rawConditionsToConditions parts)
  | .or parts => .or (rawConditionsToConditions parts)

def rawConditionsToConditions : List RawCondition → List Condition
  | [] => []
  | part :: parts => rawConditionToCondition part :: rawConditionsToConditions parts

end

def rawBlockerToMode : RawBlockOriginalCombo → Option BlockerMode
  | .on => some .swallow
  | .off => none
  | .maskOnly => some .maskOnly

/-! ## Actions -/

def mediaKeyRefToKey : MediaKeyRef → MediaKey
  | .playPause => .playPause
  | .stop => .stop
  | .next => .next
  | .previous => .previous
  | .volumeUp => .volumeUp
  | .volumeDown => .volumeDown
  | .volumeMute => .volumeMute

def rawWindowKindToOp : RawWindowKind → WindowOp
  | .minimize => .minimize
  | .maximize => .maximize
  | .restore => .restore
  | .close => .close

def DEFAULT_KEYS : String := "Ctrl+V"
def DEFAULT_RESTORE_DELAY_MS : Nat := 500
/-- The `restore_delay` a config may set. -/
def RESTORE_DELAY_MIN : Nat := 50
def RESTORE_DELAY_MAX : Nat := 5000

/-- `PasteSpec::new`: the spec, or the tail of the message. -/
def newPasteSpec (text : String) (keys : List VirtualKey) (restoreDelayMs : Nat) :
    Except String PasteSpec := do
  if text.toList.isEmpty then .error "empty"
  if text.toList.contains (Char.ofNat 0) then
    .error "the text contains the character U+0000, which ends a text on the clipboard"
  if keys.all isModifier then
    .error ("keys " ++ rd.quoted ("+".intercalate (keys.map vkName))
      ++ " has no key besides modifiers")
  if ¬(RESTORE_DELAY_MIN ≤ restoreDelayMs ∧ restoreDelayMs ≤ RESTORE_DELAY_MAX) then
    .error ("restore_delay: " ++ toString restoreDelayMs ++ " is out of range: "
      ++ toString RESTORE_DELAY_MIN ++ " to " ++ toString RESTORE_DELAY_MAX ++ " ms")
  .ok ⟨clipboardText text, keys, fromMillis restoreDelayMs⟩

def rawPasteToSpec (raw : RawPaste) : Except String PasteSpec := do
  let keysText := raw.keys.getD DEFAULT_KEYS
  let keys ← (parseKeyList rd keysText).mapError fun e =>
    "Paste: keys " ++ rd.quoted keysText ++ ": " ++ e
  (newPasteSpec rd raw.text keys (raw.restoreDelay.getD DEFAULT_RESTORE_DELAY_MS)).mapError
    fun tail => "Paste: " ++ tail

def rawStepToStep : RawStep → Except String SequenceStep
  | .delay ms => .ok (.delay ms)
  | .text text => .ok (.typeText text)
  | .paste raw => (rawPasteToSpec rd raw).map .paste
  | .key name =>
    match parseVk rd.lowercase name with
    | some vk => .ok (.pressKey vk)
    | none => .error ("Key: unknown key " ++ rd.quoted name)
  | .combo combo => do
    let keys ← (parseKeyList rd combo).mapError fun e =>
      "Combo " ++ rd.quoted combo ++ ": " ++ e
    if keys.isEmpty then .error ("Combo " ++ rd.quoted combo ++ ": empty")
    .ok (.pressCombo keys)
  | .window kind => .ok (.window (rawWindowKindToOp kind))
  | .launch exe args => .ok (.launch exe args)
  | .openUrl url => .ok (.openUrl url)
  | .media key => .ok (.media (mediaKeyRefToKey key))

def macroStep (entry : RawStep × Nat) : Except String SequenceStep :=
  (rawStepToStep rd entry.1).mapError fun e => "step #" ++ toString entry.2 ++ ": " ++ e

def rawActionToBindAction : RawAction → Except String BindAction
  | .switchLanguage => .ok .switchLanguage
  | .switchLanguageBackward => .ok .switchLanguageBackward
  | .toggleCapsLock => .ok .toggleCapsLock
  | .doNothing => .ok .doNothing
  | .pressKey key =>
    match parseVk rd.lowercase key with
    | some vk => .ok (.pressKey vk)
    | none => .error ("PressKey: unknown key " ++ rd.quoted key)
  | .postMessage msg wparam lparam =>
    match msg with
    | .code code => .ok (.postMessage code wparam lparam)
    | .name name =>
      match parseWmName rd name with
      | some code => .ok (.postMessage code wparam lparam)
      | none =>
        .error ("PostMessage: unknown WM_* name " ++ rd.quoted name
          ++ " (use a numeric code if it is not in the built-in table)")
  | .sequence steps => (steps.zipIdx.mapM (macroStep rd)).map .sequence
  | .launch exe args => .ok (.launch exe args)
  | .openUrl url => .ok (.openUrl url)
  | .text text => if text.toList.isEmpty then .error "Text: empty" else .ok (.text text)
  | .paste raw => (rawPasteToSpec rd raw).map .paste
  | .media key => .ok (.media (mediaKeyRefToKey key))

/-- Whether a binding with the action fires again on every auto-repeat by default. -/
def repeatsByDefault : BindAction → Bool
  | .pressKey _ => true
  | .media .volumeUp => true
  | .media .volumeDown => true
  | _ => false

/-! ## Bindings -/

def isCombo : BindingKind → Bool
  | .combo _ => true
  | _ => false

/-- The `block_default` of a binding whose entry does not set it. -/
def blocksByDefault (kind : BindingKind) (trigger : Trigger) : Bool :=
  match kind with
  | .combo combo => trigger.isImmediate || !combo.isModifierOnly
  | _ => true

/-- `raw_binding_to_binding` but for the prefix of its messages. -/
def convertBinding (raw : RawBinding) : Except String (LoadedBinding BindAction) := do
  let kind ← rawBindingToKind rd raw
  let action ← rawActionToBindAction rd raw.action
  let trigger ← rawTriggerToTrigger raw.trigger
  if !isCombo kind && !trigger.isImmediate then
    .error ("Sequence/Chord cannot use a deferred trigger (" ++ debugTrigger trigger
      ++ "); only `Immediate` (the default) is valid for these kinds")
  if !isCombo kind && raw.allowExtraModifiers then
    .error "`allow_extra_modifiers` applies only to `keys` bindings"
  let honoursRepeat := isCombo kind && trigger.isImmediate
  if raw.repeats == some true && !honoursRepeat then
    .error "`repeat: true` applies only to `keys` bindings with the `Immediate` trigger"
  .ok
    { kind := kind
      action := action
      blockDefault := raw.blockDefault.getD (blocksByDefault kind trigger)
      blockOriginalCombo := rawBlockerToMode raw.blockOriginalCombo
      condition := rawConditionToCondition raw.when
      trigger := trigger
      allowExtraModifiers := raw.allowExtraModifiers
      repeats := raw.repeats.getD (repeatsByDefault action)
      autoBlocker := none }

/-- What the messages about an entry begin with. -/
def errPrefix (raw : RawBinding) (index : Nat) : String :=
  "binding #" ++ toString index ++ " [" ++ formatRawBindingKeys raw ++ "]"

def rawBindingToBinding (entry : RawBinding × Nat) : Except String (LoadedBinding BindAction) :=
  (convertBinding rd entry.1).mapError fun e => errPrefix entry.1 entry.2 ++ ": " ++ e

/-! ## The file -/

/-- Why a call about the config file failed. -/
inductive IoKind
  | notFound
  | alreadyExists
  | other
  deriving DecidableEq

/-- What a call about the config file is about. -/
inductive Place
  | file
  | folder
  deriving DecidableEq

/-- Why there are no bindings. -/
inductive ConfigError (P : Type)
  /-- The file, or a folder on its path, does not exist. -/
  | missing
  | io (place : Place) (kind : IoKind)
  /-- The text does not have the shape of a config. -/
  | parse (source : P)
  /-- The messages about the entries that are no bindings. -/
  | bindings (errors : List String)

/-- A config that loads. -/
structure ParsedConfig where
  bindings : List (LoadedBinding BindAction)
  warnings : List String

/-- The message about the binding `later`, which repeats `earlier`. -/
def duplicateWarning (raw : List RawBinding) (later earlier : Nat) : String :=
  let keys := fun index => (raw[index]?.map formatRawBindingKeys).getD ""
  "binding #" ++ toString later ++ " [" ++ keys later ++ "] duplicates binding #"
    ++ toString earlier ++ " [" ++ keys earlier ++ "]; remove one of them"

/-- One message for every binding that repeats an earlier one, with the first such one. -/
def duplicateWarnings (raw : List RawBinding) (bindings : List (LoadedBinding BindAction)) :
    List String :=
  bindings.zipIdx.filterMap fun entry =>
    ((bindings.take entry.2).findIdx? fun other => entry.1.duplicates other.toBinding).map
      (duplicateWarning raw entry.2)

/-- The byte order mark that some editors begin a file with. -/
def BOM : Char := Char.ofNat 0xFEFF

def stripBom (text : List Char) : List Char :=
  match text with
  | [] => []
  | c :: rest => if c = BOM then rest else c :: rest

/-- The bindings a config text gives, and the warnings about them. `fromStr` is the
deserializer of the schema. -/
def parseRonStr {P : Type} (fromStr : List Char → Except P RawConfig)
    (sys : SystemCombination BindAction) (text : List Char) :
    Except (ConfigError P) ParsedConfig :=
  match fromStr (stripBom text) with
  | .error source => .error (.parse source)
  | .ok raw =>
    let converted := collect (rawBindingToBinding rd) raw.bindings.zipIdx
    if !converted.2.isEmpty then .error (.bindings converted.2)
    else
      let userBindings := converted.1
      let warnings :=
        (if userBindings.isEmpty then ["config contains no bindings"] else []) ++
          duplicateWarnings raw.bindings userBindings
      let expanded := expandWithAutoBlockers .doNothing KeySpec.display userBindings sys warnings
      .ok ⟨expanded.1, expanded.2⟩

end KeySwitch.Config
