import KeySwitch.Config.AutoBlockers
import KeySwitch.Data.KeyNames

/-!
# Combinations in a config

A config writes a combination as the names of its keys with `+` between them. `parseCombo`
splits the text at every `+` and reads each part as a key name; a key that is named twice
counts once, where it stood first.

Messages show a combination the same way, by `displayKeys` with the names of `KeySpec.display`.
These names come from a table of their own, and the two tables agree: what `parseCombo` reads
is shown as a text that reads back as the same keys in the same order (`combo_names`).

The parameter `quoted` is how a message quotes a text.
-/

namespace KeySwitch.Config

open Data

/-! ## The parser -/

/-- `str::trim`. -/
def trim (text : List Char) : List Char :=
  ((text.dropWhile isWhitespace).reverse.dropWhile isWhitespace).reverse

/-- The key of one segment of `s`. -/
def parseSegment (quoted : String → String) (parse : String → Option α) (s : String)
    (rawSegment : List Char) : Except String α :=
  let segment := trim rawSegment
  if segment.isEmpty then
    .error ("empty segment in combo " ++ quoted s ++ " (stray '+'?)")
  else
    match parse (String.ofList segment) with
    | some key => .ok key
    | none =>
      .error ("unknown key " ++ quoted (String.ofList segment) ++ " in combo " ++ quoted s)

/-- Splits `s` into segments at `+` and parses each with `parse`. -/
def parseSegments (quoted : String → String) (parse : String → Option α) (s : String) :
    Except String (List α) :=
  let trimmed := trim s.toList
  if trimmed.isEmpty then .error "combo is empty"
  else (trimmed.splitOn '+').mapM (parseSegment quoted parse s)

/-- The trigger keys of a binding or of a sequence step. -/
def parseCombo (quoted : String → String) (m : Lowercase) (s : String) :
    Except String KeyCombination :=
  (parseSegments quoted (KeySpec.parse m) s).map KeyCombination.fromKeys

/-! ## What is parsed -/

/-- A list is read without an error exactly if each of its entries is. -/
theorem mapM_eq_ok {ε α β : Type} {f : α → Except ε β} {xs : List α} {ys : List β} :
    xs.mapM f = .ok ys ↔ List.Forall₂ (fun x y => f x = .ok y) xs ys := by
  induction xs generalizing ys with
  | nil =>
    rw [List.mapM_nil, List.forall₂_nil_left_iff]
    exact ⟨fun h => (Except.ok.inj h).symm, fun h => h ▸ rfl⟩
  | cons x xs ih =>
    rw [List.mapM_cons]
    cases hx : f x with
    | error e =>
      constructor
      · intro h
        exact absurd h (by simp [bind, Except.bind])
      · intro h
        cases h with
        | cons hhead _ => exact absurd (hx.symm.trans hhead) (by simp)
    | ok y =>
      cases hxs : xs.mapM f with
      | error e =>
        constructor
        · intro h
          exact absurd h (by simp [bind, Except.bind])
        · intro h
          cases h with
          | cons _ htail => exact absurd (hxs.symm.trans (ih.mpr htail)) (by simp)
      | ok ys' =>
        constructor
        · intro h
          obtain rfl := Except.ok.inj h
          exact .cons hx (ih.mp hxs)
        · intro h
          cases h with
          | cons hhead htail =>
            obtain rfl := Except.ok.inj (hx.symm.trans hhead)
            obtain rfl := Except.ok.inj (hxs.symm.trans (ih.mpr htail))
            rfl

section Segments

variable {α : Type} {quoted : String → String} {parse : String → Option α} {s : String}

theorem trim_eq_self {text : List Char} (h : ∀ c ∈ text, isWhitespace c = false) :
    trim text = text := by
  have hdrop : ∀ text : List Char, (∀ c ∈ text, isWhitespace c = false) →
      text.dropWhile isWhitespace = text := by
    intro text h
    cases text with
    | nil => rfl
    | cons c text =>
      rw [List.dropWhile_cons, h c List.mem_cons_self]
      rfl
  unfold trim
  rw [hdrop text h, hdrop _ fun c hc => h c (List.mem_reverse.mp hc), List.reverse_reverse]

/-- A segment is read as a key that its trimmed text names. -/
theorem parse_of_parseSegment {rawSegment : List Char} {key : α}
    (h : parseSegment quoted parse s rawSegment = .ok key) :
    parse (String.ofList (trim rawSegment)) = some key := by
  unfold parseSegment at h
  dsimp only at h
  split at h
  · exact absurd h (by simp)
  · split at h
    · next hparse =>
      obtain rfl := Except.ok.inj h
      exact hparse
    · exact absurd h (by simp)

/-- There is a key, and every key is named by some text. -/
theorem named_of_parseSegments {keys : List α} (h : parseSegments quoted parse s = .ok keys) :
    keys ≠ [] ∧ ∀ key ∈ keys, ∃ segment, parse segment = some key := by
  unfold parseSegments at h
  dsimp only at h
  split at h
  · exact absurd h (by simp)
  · have hall := mapM_eq_ok.mp h
    constructor
    · intro hempty
      subst hempty
      exact absurd (List.forall₂_nil_right_iff.mp hall) (List.splitOn_ne_nil _ _)
    · intro key hkey
      obtain ⟨hlength, hsegments⟩ := List.forall₂_iff_get.mp hall
      obtain ⟨i, hi, rfl⟩ := List.getElem_of_mem hkey
      exact ⟨_, parse_of_parseSegment (hsegments i (hlength ▸ hi) hi)⟩

/-- A plain name is a segment of its own, without a `+`. -/
theorem plain_segment {text : List Char} (h : ∀ c ∈ text, isPlain c = true) :
    (∀ c ∈ text, isWhitespace c = false) ∧ '+' ∉ text := by
  constructor
  · intro c hc
    have hplain := h c hc
    unfold isPlain at hplain
    simp only [Bool.and_eq_true, Bool.not_eq_true'] at hplain
    exact hplain.1.2
  · intro hplus
    exact absurd (h _ hplus) (by decide)

/-- What is joined has the characters of the parts and of what joins them. -/
theorem mem_intercalate {sep c : Char} {parts : List (List Char)}
    (h : c ∈ [sep].intercalate parts) : c = sep ∨ ∃ part ∈ parts, c ∈ part := by
  induction parts with
  | nil => exact absurd h (by simp)
  | cons first parts ih =>
    cases parts with
    | nil =>
      rw [List.intercalate_singleton] at h
      exact .inr ⟨first, List.mem_cons_self, h⟩
    | cons second parts =>
      rw [List.intercalate_cons_cons, List.mem_append, List.mem_append, List.mem_singleton] at h
      rcases h with (hfirst | hsep) | hrest
      · exact .inr ⟨first, List.mem_cons_self, hfirst⟩
      · exact .inl hsep
      · rcases ih hrest with hsep | ⟨part, hpart, hc⟩
        · exact .inl hsep
        · exact .inr ⟨part, List.mem_cons_of_mem _ hpart, hc⟩

/-- **Names joined with `+` are read as the keys they name**, where each is plain and not
empty. -/
theorem parseSegments_intercalate {name : α → String} {keys : List α} (hne : keys ≠ [])
    (h : ∀ key ∈ keys, (∀ c ∈ (name key).toList, isPlain c = true) ∧ (name key).toList ≠ [] ∧
      parse (name key) = some key) :
    parseSegments quoted parse ("+".intercalate (keys.map name)) = .ok keys := by
  have htext : ("+".intercalate (keys.map name)).toList =
      ['+'].intercalate (keys.map fun key => (name key).toList) := by
    rw [String.toList_intercalate, List.map_map]
    rfl
  have hsplit : ("+".intercalate (keys.map name)).toList.splitOn '+' =
      keys.map fun key => (name key).toList := by
    rw [htext]
    refine List.splitOn_intercalate '+' ?_ (by simpa using hne)
    intro part hpart
    obtain ⟨key, hkey, rfl⟩ := List.mem_map.mp hpart
    exact (plain_segment (h key hkey).1).2
  -- The text has no whitespace to trim, and it is not empty.
  have htrim : trim ("+".intercalate (keys.map name)).toList =
      ("+".intercalate (keys.map name)).toList := by
    refine trim_eq_self fun c hc => ?_
    rw [htext] at hc
    rcases mem_intercalate hc with rfl | ⟨part, hpart, hc⟩
    · decide
    · obtain ⟨key, hkey, rfl⟩ := List.mem_map.mp hpart
      exact (plain_segment (h key hkey).1).1 c hc
  have hsome : ("+".intercalate (keys.map name)).toList ≠ [] := by
    intro hempty
    rw [hempty, List.splitOn_nil] at hsplit
    have hname : [] ∈ keys.map fun key => (name key).toList := by
      rw [← hsplit]
      exact List.mem_singleton_self _
    obtain ⟨key, hkey, hname⟩ := List.mem_map.mp hname
    exact (h key hkey).2.1 hname
  unfold parseSegments
  dsimp only
  rw [htrim, if_neg (by simpa using hsome), hsplit, mapM_eq_ok, List.forall₂_map_left_iff,
    List.forall₂_same]
  intro key hkey
  obtain ⟨hplain, hname, hparse⟩ := h key hkey
  unfold parseSegment
  dsimp only
  rw [trim_eq_self (plain_segment hplain).1, if_neg (by simpa using hname), String.ofList_toList,
    hparse]

end Segments

/-! ## A key counts where it stands first -/

section FirstAppearance

open KeyCombination

theorem fromKeys_snoc (keys : List KeySpec) (key : KeySpec) :
    fromKeys (keys ++ [key]) = (fromKeys keys).withKey key := by
  unfold fromKeys
  rw [List.foldl_append]
  rfl

theorem mem_fromKeys {keys : List KeySpec} {key : KeySpec} :
    key ∈ (fromKeys keys).keys ↔ key ∈ keys := by
  induction keys using List.reverseRecOn with
  | nil => exact Iff.rfl
  | append_singleton keys last ih =>
    rw [fromKeys_snoc, List.mem_append, List.mem_singleton, ← ih]
    unfold withKey
    split
    · next hknown =>
      rw [List.contains_iff_mem] at hknown
      constructor
      · intro hkey
        exact .inl hkey
      · intro hkey
        rcases hkey with hkey | rfl
        · exact hkey
        · exact hknown
    · rw [List.mem_append, List.mem_singleton]

/-- The keys stand in the order in which they first appear. -/
theorem fromKeys_ordered (keys : List KeySpec) :
    (fromKeys keys).keys.Pairwise fun a b => keys.idxOf a < keys.idxOf b := by
  induction keys using List.reverseRecOn with
  | nil => exact .nil
  | append_singleton keys last ih =>
    have hbefore : (fromKeys keys).keys.Pairwise fun a b =>
        (keys ++ [last]).idxOf a < (keys ++ [last]).idxOf b := by
      refine ih.imp_of_mem fun {a b} ha hb hlt => ?_
      rw [List.idxOf_append_of_mem (mem_fromKeys.mp ha),
        List.idxOf_append_of_mem (mem_fromKeys.mp hb)]
      exact hlt
    rw [fromKeys_snoc]
    unfold withKey
    split
    · exact hbefore
    · next hnew =>
      have habsent : last ∉ keys := by
        rw [List.contains_iff_mem, mem_fromKeys] at hnew
        exact hnew
      refine List.pairwise_append.mpr ⟨hbefore, List.pairwise_singleton _ _, ?_⟩
      intro a ha b hb
      rw [List.mem_singleton.mp hb, List.idxOf_append_of_mem (mem_fromKeys.mp ha),
        List.idxOf_append_of_notMem habsent]
      exact Nat.lt_add_right _ (List.idxOf_lt_length_of_mem (mem_fromKeys.mp ha))

/-- Keys without a duplicate stay as they are. -/
theorem fromKeys_of_nodup {keys : List KeySpec} (h : keys.Nodup) : fromKeys keys = ⟨keys⟩ := by
  induction keys using List.reverseRecOn with
  | nil => rfl
  | append_singleton keys last ih =>
    obtain ⟨hkeys, -, hlast⟩ := List.nodup_append.mp h
    have hnew : last ∉ keys := by
      intro hmem
      exact hlast last hmem last (List.mem_singleton_self last) rfl
    rw [fromKeys_snoc, ih hkeys]
    unfold withKey
    rw [if_neg (by simpa using hnew)]

end FirstAppearance

/-! ## Printing and parsing -/

/-- What is shown of a combination that `s` is read as. -/
structure ShownAsParsed (quoted : String → String) (m : Lowercase) (s : String)
    (c : KeyCombination) : Prop where
  /-- No key twice. -/
  distinct : c.keys.Nodup
  /-- The keys of the segments, in the order in which they first appear. -/
  ordered : ∃ keys, parseSegments quoted (KeySpec.parse m) s = .ok keys ∧
    (∀ key, key ∈ c.keys ↔ key ∈ keys) ∧
    c.keys.Pairwise fun a b => keys.idxOf a < keys.idxOf b
  /-- The text that is shown reads back as the same keys in the same order. -/
  readBack : parseCombo quoted m (displayKeys KeySpec.display c) = .ok c
  /-- Each key is shown without a `+`, by a name of it alone. -/
  names : ∀ key ∈ c.keys, '+' ∉ key.display.toList ∧ KeySpec.parse m key.display = some key ∧
    parseCombo quoted m key.display = .ok ⟨[key]⟩
  /-- The two readings of the left Win key's code are shown apart. -/
  win : ∀ key ∈ c.keys, (key.display = "Win" ↔ key = .anySide .win) ∧
    (key.display = "LWin" ↔ key = .key VK_LWIN)

/-- Keys that names stand for are shown as a text that reads back as these keys. -/
theorem parseSegments_display (quoted : String → String) (m : Lowercase) {c : KeyCombination}
    (hne : c.keys ≠ []) (h : ∀ key ∈ c.keys, key ∈ SPECS) :
    parseSegments quoted (KeySpec.parse m) (displayKeys KeySpec.display c) = .ok c.keys := by
  refine parseSegments_intercalate hne fun key hkey => ?_
  obtain ⟨hplain, hname⟩ := KeySpec.display_plain (h key hkey)
  exact ⟨hplain, hname, KeySpec.parse_display m (h key hkey)⟩

/-- The two Win names among the names shown. -/
theorem win_shown : ∀ key ∈ SPECS, (key.display = "Win" ↔ key = .anySide .win) ∧
    (key.display = "LWin" ↔ key = .key VK_LWIN) := by
  decide +kernel

/-- **A combination that was read is shown as a text that reads back as the same keys in
the same order**, each by a name of its own. -/
theorem combo_names (quoted : String → String) (m : Lowercase) {s : String} {c : KeyCombination}
    (h : parseCombo quoted m s = .ok c) : ShownAsParsed quoted m s c := by
  have hparsed : ∃ keys, parseSegments quoted (KeySpec.parse m) s = .ok keys ∧
      KeyCombination.fromKeys keys = c := by
    unfold parseCombo at h
    cases hkeys : parseSegments quoted (KeySpec.parse m) s with
    | error e =>
      rw [hkeys] at h
      exact absurd h (by simp [Except.map])
    | ok keys =>
      rw [hkeys] at h
      exact ⟨keys, rfl, Except.ok.inj h⟩
  obtain ⟨keys, hkeys, rfl⟩ := hparsed
  obtain ⟨hne, hnamed⟩ := named_of_parseSegments hkeys
  have hspecs : ∀ key ∈ (KeyCombination.fromKeys keys).keys, key ∈ SPECS := by
    intro key hkey
    obtain ⟨segment, hsegment⟩ := hnamed key (mem_fromKeys.mp hkey)
    exact KeySpec.mem_specs hsegment
  have hsome : (KeyCombination.fromKeys keys).keys ≠ [] := by
    obtain ⟨key, hkey⟩ := List.exists_mem_of_ne_nil keys hne
    exact List.ne_nil_of_mem (mem_fromKeys.mpr hkey)
  have hdistinct := KeyCombination.fromKeys_distinct keys
  -- A combo of distinct named keys is read back from its display, whether whole or one key of it.
  have hreadBack : ∀ c : KeyCombination, c.keys.Nodup → c.keys ≠ [] →
      (∀ key ∈ c.keys, key ∈ SPECS) →
      parseCombo quoted m (displayKeys KeySpec.display c) = .ok c := by
    intro c hnodup hne hall
    unfold parseCombo
    rw [parseSegments_display quoted m hne hall]
    exact congrArg Except.ok (fromKeys_of_nodup hnodup)
  refine ⟨hdistinct, ⟨keys, hkeys, fun _ => mem_fromKeys, fromKeys_ordered keys⟩,
    hreadBack _ hdistinct hsome hspecs, ?_, fun key hkey => win_shown key (hspecs key hkey)⟩
  intro key hkey
  have hspec := hspecs key hkey
  refine ⟨(plain_segment (KeySpec.display_plain hspec).1).2, KeySpec.parse_display m hspec, ?_⟩
  refine hreadBack ⟨[key]⟩ (List.nodup_singleton key) (List.cons_ne_nil _ _) ?_
  intro other hother
  rw [List.mem_singleton.mp hother]
  exact hspec

/-- Either Win key, then the left one, with Ctrl named twice. -/
theorem combo_names_wins :
    parseCombo id .asciiOnly " ctrl + Win+LWin+Control" =
      .ok ⟨[.anySide .ctrl, .anySide .win, .key VK_LWIN]⟩ ∧
    ShownAsParsed id .asciiOnly " ctrl + Win+LWin+Control"
      ⟨[.anySide .ctrl, .anySide .win, .key VK_LWIN]⟩ := by
  have hparse : parseCombo id .asciiOnly " ctrl + Win+LWin+Control" =
      .ok ⟨[.anySide .ctrl, .anySide .win, .key VK_LWIN]⟩ := by
    rfl
  exact ⟨hparse, combo_names id .asciiOnly hparse⟩

end KeySwitch.Config
