import KeySwitch.Config.Loader

/-!
# The Windows hotkeys

An auto-blocker is for the hotkey that Windows has for the same function as the action. The
registry says which one: the first of the function's values that names a combination, or turns
the hotkey off, decides, and without one the hotkey is the one Windows starts with.

A value is `none` here if it is missing or cannot be read as a text.
-/

namespace KeySwitch.Config

open Data

inductive SystemFunction
  | switchLanguage
  | switchLanguageBackward
  | lockWorkstation
  | showDesktop
  | taskManager
  | toggleCapsLock
  deriving DecidableEq, Repr

/-- What a registry value says about a hotkey. -/
inductive HotkeySetting
  | combo (combination : KeyCombination)
  /-- The hotkey is off. -/
  | disabled
  | unknown

variable (rd : Reading)

/-- Either Win key with `key`. -/
def winWith (key : VirtualKey) : KeyCombination :=
  (KeyCombination.new (.anySide .win)).withKey (.ofVk key)

def charToVk (ch : Char) : Option VirtualKey :=
  if 'A' ≤ ch ∧ ch ≤ 'Z' then some ch.toNat else none

def parseLanguageHotkey (value : String) : HotkeySetting :=
  let trimmed := trim value.toList
  if trimmed = ['1'] then .combo (.fromKeys [.ofVk VK_MENU, .ofVk VK_SHIFT])
  else if trimmed = ['2'] then .combo (.fromKeys [.ofVk VK_CONTROL, .ofVk VK_SHIFT])
  else if trimmed = ['3'] then .disabled
  else if trimmed = ['4'] then .combo (.new (.ofVk VK_OEM_3))
  else .unknown

def parseWinKeyCombo (value : String) : HotkeySetting :=
  match (trim value.toList).flatMap rd.toUppercase with
  | [ch] =>
    match charToVk ch with
    | some vk => .combo (winWith vk)
    | none => .unknown
  | _ => .unknown

/-- How the values of a function are read, if it has any. -/
def registryParser : SystemFunction → Option (String → HotkeySetting)
  | .switchLanguage => some parseLanguageHotkey
  | .switchLanguageBackward => some parseLanguageHotkey
  | .lockWorkstation => some (parseWinKeyCombo rd)
  | .showDesktop => some (parseWinKeyCombo rd)
  | .taskManager => none
  | .toggleCapsLock => none

def getDefaultCombination : SystemFunction → Option KeyCombination
  | .switchLanguage => some (.fromKeys [.ofVk VK_MENU, .ofVk VK_SHIFT])
  | .switchLanguageBackward => some (.fromKeys [.ofVk VK_MENU, .ofVk VK_SHIFT])
  | .lockWorkstation => some (winWith 0x4C)
  | .showDesktop => some (winWith 0x44)
  | .taskManager => some (.fromKeys [.ofVk VK_CONTROL, .ofVk VK_SHIFT, .ofVk VK_ESCAPE])
  | .toggleCapsLock => none

/-- The first of `values` that decides: a combination, or that the hotkey is off. -/
def decideHotkey (parser : String → HotkeySetting) :
    List (Option String) → Option (Option KeyCombination)
  | [] => none
  | none :: values => decideHotkey parser values
  | some value :: values =>
    match parser value with
    | .combo combination => some (some combination)
    | .disabled => some none
    | .unknown => decideHotkey parser values

/-- The hotkey of `function`, given its registry values in order. -/
def hotkeyFromValues (function : SystemFunction) (values : List (Option String)) :
    Option KeyCombination :=
  match (registryParser rd function).bind fun parser => decideHotkey parser values with
  | some decided => decided
  | none => getDefaultCombination function

def toSystemFunction : BindAction → Option SystemFunction
  | .switchLanguage => some .switchLanguage
  | .switchLanguageBackward => some .switchLanguageBackward
  | .toggleCapsLock => some .toggleCapsLock
  | _ => none

/-- The hotkey of an action's function, with the registry as it is. -/
def getSystemCombination (registry : SystemFunction → List (Option String)) :
    SystemCombination BindAction :=
  fun action => (toSystemFunction action).bind fun function =>
    hotkeyFromValues rd function (registry function)

/-! ## Every hotkey is a combination -/

/-- A combination that names a key, and none twice. -/
def Combines (c : KeyCombination) : Prop := c.keys ≠ [] ∧ c.Distinct

theorem withKey_ne_nil (c : KeyCombination) (key : KeySpec) : (c.withKey key).keys ≠ [] := by
  unfold KeyCombination.withKey
  split
  · next h =>
    intro hnil
    rw [hnil] at h
    exact absurd h (by simp)
  · exact List.append_ne_nil_of_right_ne_nil _ (List.cons_ne_nil _ _)

theorem fromKeys_combines {keys : List KeySpec} (h : keys ≠ []) :
    Combines (KeyCombination.fromKeys keys) := by
  refine ⟨?_, KeyCombination.fromKeys_distinct keys⟩
  obtain ⟨front, last, rfl⟩ := (List.eq_nil_or_concat keys).resolve_left h
  unfold KeyCombination.fromKeys
  rw [List.concat_eq_append, List.foldl_append]
  exact withKey_ne_nil _ _

theorem new_combines (key : KeySpec) : Combines (KeyCombination.new key) :=
  ⟨List.cons_ne_nil _ _, KeyCombination.new_distinct key⟩

theorem winWith_combines (key : VirtualKey) : Combines (winWith key) :=
  ⟨withKey_ne_nil _ _, KeyCombination.withKey_distinct (KeyCombination.new_distinct _) _⟩

variable {rd}

theorem parser_combines {function : SystemFunction} {parser : String → HotkeySetting}
    (h : registryParser rd function = some parser) {value : String} {c : KeyCombination}
    (hc : parser value = .combo c) : Combines c := by
  have hlanguage : ∀ {c}, parseLanguageHotkey value = .combo c → Combines c := by
    intro c hc
    unfold parseLanguageHotkey at hc
    dsimp only at hc
    repeat' split at hc
    · exact HotkeySetting.combo.inj hc ▸ fromKeys_combines (List.cons_ne_nil _ _)
    · exact HotkeySetting.combo.inj hc ▸ fromKeys_combines (List.cons_ne_nil _ _)
    · exact nomatch hc
    · exact HotkeySetting.combo.inj hc ▸ new_combines _
    · exact nomatch hc
  have hwin : ∀ {c}, parseWinKeyCombo rd value = .combo c → Combines c := by
    intro c hc
    unfold parseWinKeyCombo at hc
    split at hc
    · split at hc
      · exact HotkeySetting.combo.inj hc ▸ winWith_combines _
      · exact nomatch hc
    · exact nomatch hc
  cases function with
  | switchLanguage => exact hlanguage (Option.some.inj h ▸ hc)
  | switchLanguageBackward => exact hlanguage (Option.some.inj h ▸ hc)
  | lockWorkstation => exact hwin (Option.some.inj h ▸ hc)
  | showDesktop => exact hwin (Option.some.inj h ▸ hc)
  | taskManager => exact nomatch h
  | toggleCapsLock => exact nomatch h

theorem decideHotkey_combines {parser : String → HotkeySetting}
    (hparser : ∀ {value c}, parser value = .combo c → Combines c)
    {values : List (Option String)} {c : KeyCombination}
    (h : decideHotkey parser values = some (some c)) : Combines c := by
  induction values with
  | nil => exact nomatch h
  | cons value values ih =>
    cases value with
    | none => exact ih h
    | some value =>
      unfold decideHotkey at h
      split at h
      · next hc =>
        obtain rfl := Option.some.inj (Option.some.inj h)
        exact hparser hc
      · exact nomatch Option.some.inj h
      · exact ih h

/-- **Whatever the registry says, a hotkey is a combination of distinct keys.** -/
theorem hotkey_combines (registry : SystemFunction → List (Option String)) {action : BindAction}
    {hotkey : KeyCombination} (h : getSystemCombination rd registry action = some hotkey) :
    Combines hotkey := by
  obtain ⟨function, -, h⟩ := Option.bind_eq_some_iff.mp h
  unfold hotkeyFromValues at h
  split at h
  · next decided hdecided =>
    subst h
    obtain ⟨parser, hparser, hvalue⟩ := Option.bind_eq_some_iff.mp hdecided
    exact decideHotkey_combines (parser_combines hparser) hvalue
  · cases function with
    | switchLanguage => exact Option.some.inj h ▸ fromKeys_combines (List.cons_ne_nil _ _)
    | switchLanguageBackward =>
      exact Option.some.inj h ▸ fromKeys_combines (List.cons_ne_nil _ _)
    | lockWorkstation => exact Option.some.inj h ▸ winWith_combines _
    | showDesktop => exact Option.some.inj h ▸ winWith_combines _
    | taskManager => exact Option.some.inj h ▸ fromKeys_combines (List.cons_ne_nil _ _)
    | toggleCapsLock => exact nomatch h

end KeySwitch.Config
