import KeySwitch.Data.KeySpec
import KeySwitch.Lib.Decimal

/-!
# Key names

A config names keys by text: `"A"`, `"F5"`, `"Num 7"`, `"Left Ctrl"`. `parseVk` reads a
name in the form it is matched in, without whitespace and in lower case, by one table after
the other: single characters, function keys, numpad digits, named keys.

`Documented` is the grammar the parser's documentation lists. It has the numbers of the
function keys and of the numpad digits as plain decimals. The parser reads them with the
general integer parser, which also takes a plus sign and leading zeros, so it agrees with
the grammar on every name but these (`key_names`).

Lower case is the one of the standard library, a table of which only its ASCII part
matters here.
-/

namespace KeySwitch.Data

open Lib

abbrev VK_BACK : VirtualKey := 0x08
abbrev VK_TAB : VirtualKey := 0x09
abbrev VK_RETURN : VirtualKey := 0x0D
abbrev VK_PAUSE : VirtualKey := 0x13
abbrev VK_CAPITAL : VirtualKey := 0x14
abbrev VK_ESCAPE : VirtualKey := 0x1B
abbrev VK_SPACE : VirtualKey := 0x20
abbrev VK_PRIOR : VirtualKey := 0x21
abbrev VK_NEXT : VirtualKey := 0x22
abbrev VK_END : VirtualKey := 0x23
abbrev VK_HOME : VirtualKey := 0x24
abbrev VK_LEFT : VirtualKey := 0x25
abbrev VK_UP : VirtualKey := 0x26
abbrev VK_RIGHT : VirtualKey := 0x27
abbrev VK_DOWN : VirtualKey := 0x28
abbrev VK_SNAPSHOT : VirtualKey := 0x2C
abbrev VK_INSERT : VirtualKey := 0x2D
abbrev VK_DELETE : VirtualKey := 0x2E
abbrev VK_0 : VirtualKey := 0x30
abbrev VK_A : VirtualKey := 0x41
abbrev VK_NUMPAD0 : VirtualKey := 0x60
abbrev VK_F1 : VirtualKey := 0x70
abbrev VK_NUMLOCK : VirtualKey := 0x90
abbrev VK_SCROLL : VirtualKey := 0x91
abbrev VK_VOLUME_MUTE : VirtualKey := 0xAD
abbrev VK_VOLUME_DOWN : VirtualKey := 0xAE
abbrev VK_VOLUME_UP : VirtualKey := 0xAF
abbrev VK_MEDIA_NEXT_TRACK : VirtualKey := 0xB0
abbrev VK_MEDIA_PREV_TRACK : VirtualKey := 0xB1
abbrev VK_MEDIA_STOP : VirtualKey := 0xB2
abbrev VK_MEDIA_PLAY_PAUSE : VirtualKey := 0xB3
abbrev VK_OEM_1 : VirtualKey := 0xBA
abbrev VK_OEM_PLUS : VirtualKey := 0xBB
abbrev VK_OEM_COMMA : VirtualKey := 0xBC
abbrev VK_OEM_MINUS : VirtualKey := 0xBD
abbrev VK_OEM_PERIOD : VirtualKey := 0xBE
abbrev VK_OEM_2 : VirtualKey := 0xBF
abbrev VK_OEM_3 : VirtualKey := 0xC0
abbrev VK_OEM_4 : VirtualKey := 0xDB
abbrev VK_OEM_5 : VirtualKey := 0xDC
abbrev VK_OEM_6 : VirtualKey := 0xDD
abbrev VK_OEM_7 : VirtualKey := 0xDE

/-! ## The form names are matched in -/

/-- `char::is_whitespace`: the characters with the property White_Space. -/
def isWhitespace (c : Char) : Bool :=
  let n := c.toNat
  (9 ≤ n && n ≤ 13) || n == 0x20 || n == 0x85 || n == 0xA0 || n == 0x1680 ||
    (0x2000 ≤ n && n ≤ 0x200A) || n == 0x2028 || n == 0x2029 || n == 0x202F || n == 0x205F ||
    n == 0x3000

/-- `char::to_lowercase`, which may give more than one character. -/
structure Lowercase where
  lower : Char → List Char
  ascii : ∀ c : Char, c.toNat < 128 → lower c = [c.toLower]

/-- The lower case of ASCII, every other character its own. -/
def Lowercase.asciiOnly : Lowercase := ⟨fun c => [c.toLower], fun _ _ => rfl⟩

/-- The form key names are matched in: whitespace stripped, lowercase. -/
def normalizeKeyName (m : Lowercase) (name : String) : List Char :=
  (name.toList.filter fun c => !isWhitespace c).flatMap m.lower

/-! ## The tables -/

/-- The keys of the punctuation characters. -/
def PUNCTUATION : List (Char × VirtualKey) :=
  [('`', VK_OEM_3), ('-', VK_OEM_MINUS), ('=', VK_OEM_PLUS), (',', VK_OEM_COMMA),
    ('.', VK_OEM_PERIOD), (';', VK_OEM_1), ('/', VK_OEM_2), ('[', VK_OEM_4), (']', VK_OEM_6),
    ('\\', VK_OEM_5), ('\'', VK_OEM_7)]

/-- The named keys and modifier aliases. -/
def NAMED : List (List String × VirtualKey) :=
  [(["shift"], VK_SHIFT),
    (["lshift", "leftshift"], VK_LSHIFT),
    (["rshift", "rightshift"], VK_RSHIFT),
    (["ctrl", "control"], VK_CONTROL),
    (["lctrl", "leftctrl", "leftcontrol"], VK_LCONTROL),
    (["rctrl", "rightctrl", "rightcontrol"], VK_RCONTROL),
    (["alt", "menu"], VK_MENU),
    (["lalt", "leftalt"], VK_LMENU),
    (["ralt", "rightalt"], VK_RMENU),
    (["win", "super", "lwin", "leftwin"], VK_LWIN),
    (["rwin", "rightwin"], VK_RWIN),
    (["capslock", "caps"], VK_CAPITAL),
    (["tab"], VK_TAB),
    (["esc", "escape"], VK_ESCAPE),
    (["enter", "return"], VK_RETURN),
    (["space", "spacebar"], VK_SPACE),
    (["backspace", "back"], VK_BACK),
    (["del", "delete"], VK_DELETE),
    (["ins", "insert"], VK_INSERT),
    (["home"], VK_HOME),
    (["end"], VK_END),
    (["pageup", "pgup"], VK_PRIOR),
    (["pagedown", "pgdn"], VK_NEXT),
    (["up", "uparrow"], VK_UP),
    (["down", "downarrow"], VK_DOWN),
    (["left", "leftarrow"], VK_LEFT),
    (["right", "rightarrow"], VK_RIGHT),
    (["numlock"], VK_NUMLOCK),
    (["scrolllock", "scroll"], VK_SCROLL),
    (["pause", "break"], VK_PAUSE),
    (["prtsc", "printscreen", "prtscn"], VK_SNAPSHOT),
    (["mediaplaypause", "playpause"], VK_MEDIA_PLAY_PAUSE),
    (["mediastop"], VK_MEDIA_STOP),
    (["medianext", "nexttrack"], VK_MEDIA_NEXT_TRACK),
    (["mediaprev", "mediaprevious", "prevtrack"], VK_MEDIA_PREV_TRACK),
    (["volumeup", "volup"], VK_VOLUME_UP),
    (["volumedown", "voldown"], VK_VOLUME_DOWN),
    (["volumemute", "volmute", "mute"], VK_VOLUME_MUTE)]

/-! ## The parser -/

def singleCharVk (ch : Char) : Option VirtualKey :=
  if ch.isAlpha then some (VK_A + (ch.toUpper.toNat - 'A'.toNat))
  else if ch.isDigit then some (VK_0 + (ch.toNat - '0'.toNat))
  else PUNCTUATION.lookup ch

/-- The key of a name of one character. -/
def singleForm : List Char → Option VirtualKey
  | [ch] => singleCharVk ch
  | _ => none

/-- `str::strip_prefix`. -/
def stripPrefix : List Char → List Char → Option (List Char)
  | [], name => some name
  | _, [] => none
  | c :: start, d :: name => if c = d then stripPrefix start name else none

/-- The number after `start`, read with `str::parse::<u16>`, if it is one of `first` to
`last`. -/
def numberAfter (start : String) (first last : Nat) (name : List Char) : Option Nat :=
  (stripPrefix start.toList name).bind fun rest =>
    (readNat (2 ^ 16) rest).bind fun n => if first ≤ n && n ≤ last then some n else none

/-- The key of a named key or an alias. -/
def namedVk (name : List Char) : Option VirtualKey :=
  (NAMED.find? fun row => row.1.any fun known => known.toList == name).map Prod.snd

/-- The key of a name in the form it is matched in. -/
def parseNormalized (name : List Char) : Option VirtualKey :=
  if name.isEmpty then none
  else
    match singleForm name with
    | some vk => some vk
    | none =>
      match numberAfter "f" 1 24 name with
      | some n => some (VK_F1 + n - 1)
      | none =>
        match numberAfter "numpad" 0 9 name with
        | some n => some (VK_NUMPAD0 + n)
        | none =>
          match numberAfter "num" 0 9 name with
          | some n => some (VK_NUMPAD0 + n)
          | none => namedVk name

/-- The key of a config name. -/
def parseVk (m : Lowercase) (name : String) : Option VirtualKey :=
  parseNormalized (normalizeKeyName m name)

namespace KeySpec

/-- `From<VIRTUAL_KEY>`: the generic modifier codes are either side. -/
def ofVk (vk : VirtualKey) : KeySpec :=
  if vk = VK_SHIFT then anySide .shift
  else if vk = VK_CONTROL then anySide .ctrl
  else if vk = VK_MENU then anySide .alt
  else key vk

/-- The trigger key of a config name: `"Win"` and `"Super"` are either Win key. -/
def parse (m : Lowercase) (name : String) : Option KeySpec :=
  if ["win", "super"].any fun known => known.toList == normalizeKeyName m name then
    some (anySide .win)
  else (parseVk m name).map ofVk

end KeySpec

example : parseVk .asciiOnly "Caps Lock" = some VK_CAPITAL := by rfl

/-! ## The documented grammar -/

/-- The forms of a key name, and the key each stands for. -/
inductive Documented : List Char → VirtualKey → Prop
  | letter {c : Char} (h : c.isAlpha = true) :
    Documented [c] (VK_A + (c.toUpper.toNat - 'A'.toNat))
  | digit {n : Nat} (h : n < 10) : Documented (Nat.toDigits 10 n) (VK_0 + n)
  | punctuation {c : Char} {vk : VirtualKey} (h : (c, vk) ∈ PUNCTUATION) : Documented [c] vk
  | function {n : Nat} (hfirst : 1 ≤ n) (hlast : n ≤ 24) :
    Documented ("f".toList ++ Nat.toDigits 10 n) (VK_F1 + n - 1)
  | numpad {start : String} {n : Nat} (hstart : start = "num" ∨ start = "numpad") (h : n ≤ 9) :
    Documented (start.toList ++ Nat.toDigits 10 n) (VK_NUMPAD0 + n)
  | named {row : List String × VirtualKey} {name : String} (hrow : row ∈ NAMED)
      (hname : name ∈ row.1) : Documented name.toList row.2

/-- The forms with a number: what stands before it, and its range. -/
def NUMBERED : List (String × Nat × Nat) := [("f", 1, 24), ("numpad", 0, 9), ("num", 0, 9)]

/-- A function key or numpad digit whose number has a plus sign or leading zeros. -/
def Padded (name : List Char) : Prop :=
  ∃ form ∈ NUMBERED, ∃ plus zeros n, form.2.1 ≤ n ∧ n ≤ form.2.2 ∧ (plus = true ∨ 0 < zeros) ∧
    name = form.1.toList ++ signed plus zeros n

/-! ## What the tables read -/

theorem stripPrefix_eq_some {start name rest : List Char} :
    stripPrefix start name = some rest ↔ name = start ++ rest := by
  induction start generalizing name with
  | nil =>
    unfold stripPrefix
    exact Option.some_inj
  | cons c start ih =>
    cases name with
    | nil => exact ⟨fun h => absurd h (by simp [stripPrefix]), fun h => absurd h (by simp)⟩
    | cons d name =>
      unfold stripPrefix
      split
      · next hsame =>
        subst hsame
        rw [ih, List.cons_append]
        exact ⟨fun h => congrArg (c :: ·) h, fun h => (List.cons.inj h).2⟩
      · next hne =>
        exact ⟨fun h => absurd h (by simp), fun h => absurd (List.cons.inj h).1.symm hne⟩

theorem numberAfter_eq_some {start : String} {first last n : Nat} {name : List Char}
    (hlast : last < 2 ^ 16) : numberAfter start first last name = some n ↔
      first ≤ n ∧ n ≤ last ∧ ∃ plus zeros, name = start.toList ++ signed plus zeros n := by
  unfold numberAfter
  constructor
  · intro h
    obtain ⟨rest, hstrip, h⟩ := Option.bind_eq_some_iff.mp h
    obtain ⟨number, hread, h⟩ := Option.bind_eq_some_iff.mp h
    split at h
    · next hrange =>
      obtain rfl := Option.some.inj h
      rw [Bool.and_eq_true, decide_eq_true_eq, decide_eq_true_eq] at hrange
      obtain ⟨-, plus, zeros, rfl⟩ := readNat_eq_some.mp hread
      exact ⟨hrange.1, hrange.2, plus, zeros, stripPrefix_eq_some.mp hstrip⟩
    · exact absurd h (by simp)
  · intro h
    obtain ⟨hfirst, hle, plus, zeros, rfl⟩ := h
    have hread : readNat (2 ^ 16) (signed plus zeros n) = some n :=
      readNat_eq_some.mpr ⟨Nat.lt_of_le_of_lt hle hlast, plus, zeros, rfl⟩
    rw [stripPrefix_eq_some.mpr rfl, Option.bind_some, hread, Option.bind_some,
      if_pos (by simp [hfirst, hle])]

theorem namedVk_eq_some {name : List Char} {vk : VirtualKey} (h : namedVk name = some vk) :
    ∃ row ∈ NAMED, ∃ known ∈ row.1, known.toList = name ∧ row.2 = vk := by
  unfold namedVk at h
  obtain ⟨row, hfind, hvk⟩ := Option.map_eq_some_iff.mp h
  have hany := List.find?_some hfind
  obtain ⟨known, hknown, hname⟩ := List.any_eq_true.mp hany
  exact ⟨row, List.mem_of_find?_eq_some hfind, known, hknown, eq_of_beq hname, hvk⟩

theorem documented_of_singleForm {name : List Char} {vk : VirtualKey}
    (h : singleForm name = some vk) : Documented name vk := by
  unfold singleForm at h
  split at h
  · next ch =>
    unfold singleCharVk at h
    split at h
    · next halpha =>
      obtain rfl := Option.some.inj h
      exact .letter halpha
    · split at h
      · next hdigit =>
        obtain rfl := Option.some.inj h
        obtain ⟨hlt, hchar⟩ := digitChar_of_isDigit hdigit
        have hdocumented := Documented.digit hlt
        rw [Nat.toDigits_of_lt_base hlt, hchar] at hdocumented
        exact hdocumented
      · obtain ⟨before, after, hsplit, -⟩ := List.lookup_eq_some_iff.mp h
        exact .punctuation (hsplit ▸ List.mem_append_right _ List.mem_cons_self)
  · exact absurd h (by simp)

/-- A number after `start` is written as documented, or padded. -/
theorem documented_or_padded {form : String × Nat × Nat} (hform : form ∈ NUMBERED)
    {name : List Char} {n : Nat} {vk : VirtualKey}
    (h : numberAfter form.1 form.2.1 form.2.2 name = some n)
    (hdocumented : form.2.1 ≤ n → n ≤ form.2.2 →
      Documented (form.1.toList ++ Nat.toDigits 10 n) vk) :
    Documented name vk ∨ Padded name := by
  have hbound : ∀ form ∈ NUMBERED, form.2.2 < 2 ^ 16 := by decide
  obtain ⟨hfirst, hlast, plus, zeros, rfl⟩ := (numberAfter_eq_some (hbound form hform)).mp h
  by_cases hplain : plus = false ∧ zeros = 0
  · obtain ⟨rfl, rfl⟩ := hplain
    exact .inl (hdocumented hfirst hlast)
  · refine .inr ⟨form, hform, plus, zeros, n, hfirst, hlast, ?_, rfl⟩
    cases plus with
    | true => exact .inl rfl
    | false => exact .inr (Nat.pos_of_ne_zero fun hzero => hplain ⟨rfl, hzero⟩)

/-- What the parser accepts is documented, but for padded numbers. -/
theorem documented_of_parse {name : List Char} {vk : VirtualKey}
    (h : parseNormalized name = some vk) : Documented name vk ∨ Padded name := by
  unfold parseNormalized at h
  split at h
  · exact absurd h (by simp)
  · split at h
    · next hsingle =>
      obtain rfl := Option.some.inj h
      exact .inl (documented_of_singleForm hsingle)
    · split at h
      · next n hnumber =>
        obtain rfl := Option.some.inj h
        have hform : ("f", 1, 24) ∈ NUMBERED := by decide
        exact documented_or_padded hform hnumber .function
      · split at h
        · next n hnumber =>
          obtain rfl := Option.some.inj h
          have hform : ("numpad", 0, 9) ∈ NUMBERED := by decide
          exact documented_or_padded hform hnumber fun _ => .numpad (.inr rfl)
        · split at h
          · next n hnumber =>
            obtain rfl := Option.some.inj h
            have hform : ("num", 0, 9) ∈ NUMBERED := by decide
            exact documented_or_padded hform hnumber fun _ => .numpad (.inl rfl)
          · obtain ⟨row, hrow, known, hknown, rfl, rfl⟩ := namedVk_eq_some h
            exact .inl (.named hrow hknown)

/-! ## What it accepts -/

/-- The parser reads every documented form as its key. -/
theorem parse_of_documented {name : List Char} {vk : VirtualKey} (h : Documented name vk) :
    parseNormalized name = some vk := by
  cases h with
  | @letter c halpha =>
    have hsingle : singleForm [c] = some (VK_A + (c.toUpper.toNat - 'A'.toNat)) := by
      show singleCharVk c = _
      unfold singleCharVk
      rw [if_pos halpha]
    unfold parseNormalized
    rw [hsingle]
    rfl
  | @digit n hlt =>
    have hall : ∀ n < 10, parseNormalized (Nat.toDigits 10 n) = some (VK_0 + n) := by
      decide +kernel
    exact hall n hlt
  | @punctuation c _ hmem =>
    have hall : ∀ entry ∈ PUNCTUATION, parseNormalized [entry.1] = some entry.2 := by
      decide +kernel
    exact hall _ hmem
  | @function n hfirst hlast =>
    have hall : ∀ n ≤ 24, 1 ≤ n →
        parseNormalized ("f".toList ++ Nat.toDigits 10 n) = some (VK_F1 + n - 1) := by
      decide +kernel
    exact hall n hlast hfirst
  | @numpad start n hstart hle =>
    have hall : ∀ n ≤ 9, ∀ start ∈ ["num", "numpad"],
        parseNormalized (start.toList ++ Nat.toDigits 10 n) = some (VK_NUMPAD0 + n) := by
      decide +kernel
    exact hall n hle start (by simpa using hstart)
  | @named row name hrow hname =>
    have hall : ∀ row ∈ NAMED, ∀ name ∈ row.1, parseNormalized name.toList = some row.2 := by
      decide +kernel
    exact hall row hrow name hname

/-- A padded name is read as the key of its number. -/
theorem parse_of_padded {name : List Char} (h : Padded name) :
    ∃ vk, parseNormalized name = some vk := by
  obtain ⟨form, hform, plus, zeros, n, hfirst, hlast, -, rfl⟩ := h
  have hbound : ∀ form ∈ NUMBERED, form.2.2 < 2 ^ 16 := by decide
  have hnumber : numberAfter form.1 form.2.1 form.2.2 (form.1.toList ++ signed plus zeros n) =
      some n :=
    (numberAfter_eq_some (hbound form hform)).mpr ⟨hfirst, hlast, plus, zeros, rfl⟩
  have hsome : ∀ name,
      (∃ form ∈ NUMBERED, ∃ n, numberAfter form.1 form.2.1 form.2.2 name = some n) →
      name ≠ [] → ∃ vk, parseNormalized name = some vk := by
    intro name hsome hne
    obtain ⟨form, hform, n, hnumber⟩ := hsome
    unfold parseNormalized
    rw [if_neg (by simpa using hne)]
    split
    · exact ⟨_, rfl⟩
    · split
      · exact ⟨_, rfl⟩
      · split
        · exact ⟨_, rfl⟩
        · split
          · exact ⟨_, rfl⟩
          · next hf _ hnumpad _ hnum =>
            -- One of the three reads a number.
            simp only [NUMBERED, List.mem_cons, List.not_mem_nil, or_false] at hform
            rcases hform with rfl | rfl | rfl
            · exact absurd (hf.symm.trans hnumber) (by simp)
            · exact absurd (hnumpad.symm.trans hnumber) (by simp)
            · exact absurd (hnum.symm.trans hnumber) (by simp)
  refine hsome _ ⟨form, hform, n, hnumber⟩ ?_
  unfold signed
  simp [Nat.toDigits_ne_nil]

/-- A name is not padded where each number it is read as, written plainly, gives it back. -/
theorem not_padded_of_plain {name : List Char}
    (hplain : ∀ form ∈ NUMBERED, (numberAfter form.1 form.2.1 form.2.2 name).all (fun n =>
      name == form.1.toList ++ Nat.toDigits 10 n) = true) : ¬Padded name := by
  have hbound : ∀ form ∈ NUMBERED, form.2.2 < 2 ^ 16 := by decide
  intro hpadded
  obtain ⟨form, hform, plus, zeros, n, hfirst, hlast, hpad, rfl⟩ := hpadded
  have hread : numberAfter form.1 form.2.1 form.2.2 (form.1.toList ++ signed plus zeros n) =
      some n :=
    (numberAfter_eq_some (hbound form hform)).mpr ⟨hfirst, hlast, plus, zeros, rfl⟩
  have hname := hplain form hform
  rw [hread] at hname
  obtain ⟨rfl, rfl, -⟩ := signed_eq_toDigits (List.append_cancel_left (eq_of_beq hname))
  rcases hpad with hplus | hzeros
  · exact absurd hplus Bool.false_ne_true
  · exact absurd hzeros (Nat.lt_irrefl 0)

/-- One character is no start of a numbered name and a number. -/
theorem not_padded_char (c : Char) : ¬Padded [c] := by
  intro hpadded
  obtain ⟨form, hform, plus, zeros, n, -, -, -, hname⟩ := hpadded
  have hlength := congrArg List.length hname
  have hstart : ∀ form ∈ NUMBERED, 1 ≤ form.1.toList.length := by simp [NUMBERED]
  have hnumber : 1 ≤ (signed plus zeros n).length := by
    unfold signed
    have := @Nat.length_toDigits_pos 10 n
    rw [List.length_append, List.length_append]
    omega
  have := hstart form hform
  rw [List.length_append, List.length_singleton] at hlength
  omega

/-- In a documented form a number is written plainly. -/
theorem Documented.plain {name : List Char} {vk : VirtualKey} (h : Documented name vk) :
    ¬Padded name := by
  cases h with
  | letter halpha => exact not_padded_char _
  | @digit n hlt =>
    rw [Nat.toDigits_of_lt_base hlt]
    exact not_padded_char _
  | punctuation hmem => exact not_padded_char _
  | @function n hfirst hlast =>
    have hall : ∀ n ≤ 24, ∀ form ∈ NUMBERED,
        (numberAfter form.1 form.2.1 form.2.2 ("f".toList ++ Nat.toDigits 10 n)).all (fun m =>
          "f".toList ++ Nat.toDigits 10 n == form.1.toList ++ Nat.toDigits 10 m) = true := by
      decide +kernel
    exact not_padded_of_plain (hall n hlast)
  | @numpad start n hstart hle =>
    have hall : ∀ n ≤ 9, ∀ start ∈ ["num", "numpad"], ∀ form ∈ NUMBERED,
        (numberAfter form.1 form.2.1 form.2.2 (start.toList ++ Nat.toDigits 10 n)).all (fun m =>
          start.toList ++ Nat.toDigits 10 n == form.1.toList ++ Nat.toDigits 10 m) = true := by
      decide +kernel
    exact not_padded_of_plain (hall n hle start (by simpa using hstart))
  | @named row name hrow hname =>
    have hall : ∀ row ∈ NAMED, ∀ name ∈ row.1, ∀ form ∈ NUMBERED,
        (numberAfter form.1 form.2.1 form.2.2 name.toList).all (fun n =>
          name.toList == form.1.toList ++ Nat.toDigits 10 n) = true := by
      decide +kernel
    exact not_padded_of_plain (hall row hrow name hname)

/-! ## The parser and its documentation -/

/-- The parser of key names agrees with its documentation on `name`. -/
def ParsesAsDocumented (m : Lowercase) (name : String) : Prop :=
  ∀ vk, parseVk m name = some vk ↔ Documented (normalizeKeyName m name) vk

/-- **Key names are parsed by their documented grammar, but for the numbers that the
integer parser takes besides plain ones**: with a plus sign or leading zeros. -/
theorem key_names (m : Lowercase) (name : String) :
    ParsesAsDocumented m name ↔ ¬Padded (normalizeKeyName m name) := by
  constructor
  · intro h hpadded
    obtain ⟨vk, hparse⟩ := parse_of_padded hpadded
    exact ((h vk).mp hparse).plain hpadded
  · intro hplain vk
    constructor
    · intro h
      rcases documented_of_parse h with hdocumented | hpadded
      · exact hdocumented
      · exact absurd hpadded hplain
    · exact parse_of_documented

/-- `F+1`, a typo of the keys F and 1, is read as F1, by both parsers. -/
theorem key_names_fPlus1 : ¬ParsesAsDocumented .asciiOnly "F+1" ∧
    parseVk .asciiOnly "F+1" = some VK_F1 ∧
    KeySpec.parse .asciiOnly "F+1" = some (.key VK_F1) := by
  refine ⟨fun h => ?_, by decide +kernel, by decide +kernel⟩
  have hparse : parseVk .asciiOnly "F+1" = some VK_F1 := by decide +kernel
  refine ((h VK_F1).mp hparse).plain ⟨("f", 1, 24), by decide, true, 0, 1, by decide, by decide,
    .inl rfl, by decide +kernel⟩

/-! ## The names that are shown -/

/-- The names of the keys that no range names. -/
def NAMES : List (VirtualKey × String) :=
  [(VK_SHIFT, "Shift"), (VK_LSHIFT, "LShift"), (VK_RSHIFT, "RShift"), (VK_CONTROL, "Ctrl"),
    (VK_LCONTROL, "LCtrl"), (VK_RCONTROL, "RCtrl"), (VK_MENU, "Alt"), (VK_LMENU, "LAlt"),
    (VK_RMENU, "RAlt"), (VK_LWIN, "Win"), (VK_RWIN, "RWin"), (VK_CAPITAL, "CapsLock"),
    (VK_TAB, "Tab"), (VK_ESCAPE, "Esc"), (VK_RETURN, "Enter"), (VK_SPACE, "Space"),
    (VK_BACK, "Backspace"), (VK_DELETE, "Delete"), (VK_INSERT, "Insert"), (VK_HOME, "Home"),
    (VK_END, "End"), (VK_PRIOR, "PageUp"), (VK_NEXT, "PageDown"), (VK_UP, "Up"),
    (VK_DOWN, "Down"), (VK_LEFT, "Left"), (VK_RIGHT, "Right"), (VK_OEM_3, "`"),
    (VK_OEM_MINUS, "-"), (VK_OEM_PLUS, "="), (VK_OEM_COMMA, ","), (VK_OEM_PERIOD, "."),
    (VK_OEM_1, ";"), (VK_OEM_2, "/"), (VK_OEM_4, "["), (VK_OEM_5, "\\"), (VK_OEM_6, "]"),
    (VK_OEM_7, "'"), (VK_NUMLOCK, "NumLock"), (VK_SCROLL, "ScrollLock"), (VK_PAUSE, "Pause"),
    (VK_SNAPSHOT, "PrtSc"), (VK_MEDIA_PLAY_PAUSE, "MediaPlayPause"),
    (VK_MEDIA_STOP, "MediaStop"), (VK_MEDIA_NEXT_TRACK, "MediaNext"),
    (VK_MEDIA_PREV_TRACK, "MediaPrev"), (VK_VOLUME_UP, "VolumeUp"),
    (VK_VOLUME_DOWN, "VolumeDown"), (VK_VOLUME_MUTE, "VolumeMute")]

/-- The name of a code, as the daemon shows it. -/
def vkName (vk : VirtualKey) : String :=
  if VK_A ≤ vk && vk ≤ VK_A + 25 then String.singleton (Char.ofNat ('A'.toNat + (vk - VK_A)))
  else if VK_0 ≤ vk && vk ≤ VK_0 + 9 then
    String.singleton (Char.ofNat ('0'.toNat + (vk - VK_0)))
  else if VK_F1 ≤ vk && vk ≤ VK_F1 + 23 then "F" ++ toString (vk - VK_F1 + 1)
  else if VK_NUMPAD0 ≤ vk && vk ≤ VK_NUMPAD0 + 9 then "Num" ++ toString (vk - VK_NUMPAD0)
  else
    match NAMES.lookup vk with
    | some name => name
    | none => "VK(" ++ toString vk ++ ")"

/-- The config name that means either key of the pair. -/
def Modifier.name : Modifier → String
  | shift => "Shift"
  | ctrl => "Ctrl"
  | alt => "Alt"
  | win => "Win"

/-- A trigger key as it is shown: the left Win key by its own name. -/
def KeySpec.display : KeySpec → String
  | anySide m => m.name
  | key vk => if vk = VK_LWIN then "LWin" else vkName vk

/-! ## Names of keys that a config can name -/

/-- The codes that names stand for. -/
def KEYS : List VirtualKey :=
  (List.range 26).map (VK_A + ·) ++ (List.range 10).map (VK_0 + ·) ++
    PUNCTUATION.map Prod.snd ++ (List.range 24).map (VK_F1 + ·) ++
    (List.range 10).map (VK_NUMPAD0 + ·) ++ NAMED.map Prod.snd

/-- The trigger keys that names stand for. -/
def SPECS : List KeySpec := .anySide .win :: KEYS.map KeySpec.ofVk

theorem mem_keys_iff {vk : VirtualKey} :
    vk ∈ KEYS ↔ (∃ n < 26, VK_A + n = vk) ∨ (∃ n < 10, VK_0 + n = vk) ∨
      (∃ entry ∈ PUNCTUATION, entry.2 = vk) ∨ (∃ n < 24, VK_F1 + n = vk) ∨
      (∃ n < 10, VK_NUMPAD0 + n = vk) ∨ ∃ row ∈ NAMED, row.2 = vk := by
  unfold KEYS
  simp only [List.mem_append, List.mem_map, List.mem_range, or_assoc]

theorem mem_keys_function {n : Nat} (hfirst : 1 ≤ n) (hlast : n ≤ 24) : VK_F1 + n - 1 ∈ KEYS := by
  have hcode : VK_F1 + (n - 1) = VK_F1 + n - 1 := (Nat.add_sub_assoc hfirst VK_F1).symm
  have hlt : n - 1 < 24 := by omega
  exact mem_keys_iff.mpr (.inr (.inr (.inr (.inl ⟨n - 1, hlt, hcode⟩))))

theorem mem_keys_numpad {n : Nat} (hlast : n ≤ 9) : VK_NUMPAD0 + n ∈ KEYS :=
  mem_keys_iff.mpr (.inr (.inr (.inr (.inr (.inl ⟨n, Nat.lt_succ_of_le hlast, rfl⟩)))))

/-- The letters are codes in a row. -/
theorem mem_keys_letter {c : Char} (h : c.isAlpha = true) :
    VK_A + (c.toUpper.toNat - 'A'.toNat) ∈ KEYS := by
  have hlt : c.toUpper.toNat - 'A'.toNat < 26 := by
    show c.toUpper.val.toNat - 65 < 26
    unfold Char.toUpper
    split
    · next hlower =>
      have hfirst : 97 ≤ c.val.toNat := UInt32.le_iff_toNat_le.mp hlower.1
      have hlast : c.val.toNat ≤ 122 := UInt32.le_iff_toNat_le.mp hlower.2
      have hshift : (c.val + ('A'.val - 'a'.val)).toNat = (c.val.toNat + (2 ^ 32 - 32)) % 2 ^ 32 :=
        UInt32.toNat_add _ _
      dsimp only
      omega
    · next hlower =>
      have hcase : (c.isUpper || c.isLower) = true := h
      rcases (Bool.or_eq_true ..).mp hcase with hupper | hlower'
      · have hlast : c.val.toNat ≤ 90 := UInt32.le_iff_toNat_le.mp (of_decide_eq_true hupper).2
        omega
      · obtain ⟨hfirst, hlast⟩ := (Bool.and_eq_true ..).mp hlower'
        exact absurd ⟨of_decide_eq_true hfirst, of_decide_eq_true hlast⟩ hlower
  exact mem_keys_iff.mpr (.inl ⟨_, hlt, rfl⟩)

theorem Documented.mem_keys {name : List Char} {vk : VirtualKey} (h : Documented name vk) :
    vk ∈ KEYS := by
  cases h with
  | letter halpha => exact mem_keys_letter halpha
  | @digit n hlt =>
    exact mem_keys_iff.mpr (.inr (.inl ⟨n, hlt, rfl⟩))
  | @punctuation c _ hmem =>
    exact mem_keys_iff.mpr (.inr (.inr (.inl ⟨_, hmem, rfl⟩)))
  | function hfirst hlast => exact mem_keys_function hfirst hlast
  | numpad hstart hle => exact mem_keys_numpad hle
  | @named row name hrow hname =>
    exact mem_keys_iff.mpr (.inr (.inr (.inr (.inr (.inr ⟨row, hrow, rfl⟩)))))

theorem mem_keys_of_parse {name : List Char} {vk : VirtualKey}
    (h : parseNormalized name = some vk) : vk ∈ KEYS := by
  unfold parseNormalized at h
  split at h
  · exact absurd h (by simp)
  · split at h
    · next hsingle =>
      obtain rfl := Option.some.inj h
      exact (documented_of_singleForm hsingle).mem_keys
    · split at h
      · next n hnumber =>
        obtain rfl := Option.some.inj h
        obtain ⟨hfirst, hlast, -⟩ := (numberAfter_eq_some (by decide)).mp hnumber
        exact mem_keys_function hfirst hlast
      · split at h
        · next n hnumber =>
          obtain rfl := Option.some.inj h
          exact mem_keys_numpad ((numberAfter_eq_some (by decide)).mp hnumber).2.1
        · split at h
          · next n hnumber =>
            obtain rfl := Option.some.inj h
            exact mem_keys_numpad ((numberAfter_eq_some (by decide)).mp hnumber).2.1
          · obtain ⟨row, hrow, known, hknown, rfl, rfl⟩ := namedVk_eq_some h
            exact (Documented.named hrow hknown).mem_keys

theorem KeySpec.mem_specs {m : Lowercase} {name : String} {key : KeySpec}
    (h : KeySpec.parse m name = some key) : key ∈ SPECS := by
  unfold KeySpec.parse at h
  split at h
  · obtain rfl := Option.some.inj h
    exact List.mem_cons_self
  · obtain ⟨vk, hvk, rfl⟩ := Option.map_eq_some_iff.mp h
    exact List.mem_cons_of_mem _ (List.mem_map_of_mem (mem_keys_of_parse hvk))

/-- A character of a shown name: ASCII, no whitespace and no plus sign. -/
def isPlain (c : Char) : Bool := decide (c.toNat < 128) && !isWhitespace c && c != '+'

/-- Plain names are matched in lower case. -/
theorem normalizeKeyName_plain (m : Lowercase) {name : String}
    (h : ∀ c ∈ name.toList, isPlain c = true) :
    normalizeKeyName m name = name.toList.map Char.toLower := by
  unfold normalizeKeyName
  have hplain : ∀ c ∈ name.toList, c.toNat < 128 ∧ isWhitespace c = false := by
    intro c hc
    have hc := h c hc
    unfold isPlain at hc
    simp only [Bool.and_eq_true, decide_eq_true_eq, Bool.not_eq_true'] at hc
    exact hc.1
  rw [List.filter_eq_self.mpr fun c hc => by rw [(hplain c hc).2]; rfl]
  generalize name.toList = text at hplain
  induction text with
  | nil => rfl
  | cons c text ih =>
    obtain ⟨hc, htext⟩ := List.forall_mem_cons.mp hplain
    rw [List.flatMap_cons, m.ascii c hc.1, ih htext]
    rfl

/-- Whether a key is shown as a plain name that is read as this key. -/
def KeySpec.shownAsRead (key : KeySpec) : Bool :=
  let name := key.display.toList
  let normalized := name.map Char.toLower
  name.all isPlain && !name.isEmpty &&
    decide ((if ["win", "super"].any fun known => known.toList == normalized then
        some (.anySide .win)
      else (parseNormalized normalized).map KeySpec.ofVk) = some key)

/-- Every key that a name stands for is shown as it is read. -/
theorem specs_shownAsRead : SPECS.all KeySpec.shownAsRead = true := by
  decide +kernel

/-- A shown name is plain and not empty. -/
theorem KeySpec.display_plain {key : KeySpec} (h : key ∈ SPECS) :
    (∀ c ∈ key.display.toList, isPlain c = true) ∧ key.display.toList ≠ [] := by
  have hshown := List.all_eq_true.mp specs_shownAsRead key h
  unfold KeySpec.shownAsRead at hshown
  simp only [Bool.and_eq_true, List.all_eq_true, Bool.not_eq_true'] at hshown
  exact ⟨hshown.1.1, List.isEmpty_eq_false_iff.mp hshown.1.2⟩

/-- **Every key that a name stands for is shown as a name that stands for it.** -/
theorem KeySpec.parse_display (m : Lowercase) {key : KeySpec} (h : key ∈ SPECS) :
    KeySpec.parse m key.display = some key := by
  have hshown := List.all_eq_true.mp specs_shownAsRead key h
  unfold KeySpec.shownAsRead at hshown
  simp only [Bool.and_eq_true, decide_eq_true_eq] at hshown
  unfold KeySpec.parse parseVk
  rw [normalizeKeyName_plain m (KeySpec.display_plain h).1]
  exact hshown.2

end KeySwitch.Data
