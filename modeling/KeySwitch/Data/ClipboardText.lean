import KeySwitch.Lib.Lines
import Mathlib.Algebra.Group.Nat.Defs

/-!
# Text as the clipboard wants it

A phrase goes to the clipboard in UTF-16, each line ended by CR LF, and one NUL at the
end. `clipboardText` writes a lone CR and a lone LF as CR LF and keeps a CR LF, one unit
at a time: all it remembers is whether the unit before was a CR. What it writes is the
lines of the text joined with CR LF (`clipboardText_lines`).
-/

namespace KeySwitch.Data

open Lib

def CR : UInt16 := 0x0D
def LF : UInt16 := 0x0A

/-- The UTF-16 units of a character. -/
def encodeUtf16 (c : Char) : List UInt16 :=
  if c.toNat < 0x10000 then [c.toNat.toUInt16]
  else
    [(0xD800 + (c.toNat - 0x10000) / 0x400).toUInt16,
      (0xDC00 + (c.toNat - 0x10000) % 0x400).toUInt16]

/-- The UTF-16 units of a text. -/
def utf16 (text : String) : List UInt16 := text.toList.flatMap encodeUtf16

/-- The units so far, and whether the last one read was a CR; one more unit. -/
def pushUnit (state : List UInt16 × Bool) (unit : UInt16) : List UInt16 × Bool :=
  let units := state.1
  let afterCr := state.2
  let units :=
    if unit = LF then if afterCr then units ++ [LF] else units ++ [CR, LF]
    else if unit = CR then (if afterCr then units ++ [LF] else units) ++ [CR]
    else (if afterCr then units ++ [LF] else units) ++ [unit]
  (units, unit == CR)

/-- `text` as `CF_UNICODETEXT` wants it. -/
def clipboardText (text : String) : List UInt16 :=
  let read := (utf16 text).foldl pushUnit ([], false)
  (if read.2 then read.1 ++ [LF] else read.1) ++ [0]

/-! ## What it writes -/

theorem CR_ne_LF : CR ≠ LF := by decide

/-- What is written for `units`, after a CR or not, without the NUL. -/
def written (afterCr : Bool) (units : List UInt16) : List UInt16 :=
  let read := units.foldl pushUnit ([], afterCr)
  if read.2 then read.1 ++ [LF] else read.1

/-- What one unit adds does not depend on the units before. -/
theorem pushUnit_append (before units : List UInt16) (afterCr : Bool) (unit : UInt16) :
    pushUnit (before ++ units, afterCr) unit =
      (before ++ (pushUnit (units, afterCr) unit).1, (pushUnit (units, afterCr) unit).2) := by
  unfold pushUnit
  cases afterCr <;> by_cases hlf : unit = LF <;> by_cases hcr : unit = CR <;>
    simp [hlf, hcr, CR_ne_LF]

theorem foldl_pushUnit (before units text : List UInt16) (afterCr : Bool) :
    text.foldl pushUnit (before ++ units, afterCr) =
      (before ++ (text.foldl pushUnit (units, afterCr)).1,
        (text.foldl pushUnit (units, afterCr)).2) := by
  induction text generalizing units afterCr with
  | nil => rfl
  | cons unit text ih =>
    rw [List.foldl_cons, List.foldl_cons, pushUnit_append]
    exact ih _ _

theorem written_cons (afterCr : Bool) (unit : UInt16) (units : List UInt16) :
    written afterCr (unit :: units) =
      (pushUnit ([], afterCr) unit).1 ++ written (unit == CR) units := by
  unfold written
  have hfold := foldl_pushUnit (pushUnit ([], afterCr) unit).1 [] units (unit == CR)
  rw [List.append_nil] at hfold
  have hstate : pushUnit ([], afterCr) unit =
      ((pushUnit ([], afterCr) unit).1, unit == CR) := rfl
  rw [List.foldl_cons, hstate, hfold]
  dsimp only
  split
  · rw [List.append_assoc]
  · rfl

/-- After a CR, its LF is written first, and an LF read is that one. -/
theorem written_afterCr (units : List UInt16) : written true units =
    LF :: written false (if units.head? = some LF then units.tail else units) := by
  cases units with
  | nil => rfl
  | cons unit units =>
    rw [written_cons]
    by_cases hlf : unit = LF
    · subst hlf
      rfl
    · have hhead : (unit :: units).head? ≠ some LF := fun h => hlf (Option.some.inj h)
      rw [if_neg hhead, written_cons]
      unfold pushUnit
      by_cases hcr : unit = CR
      · simp [hcr, CR_ne_LF]
      · simp [hlf, hcr]

/-- **It writes the lines of the text, each break as CR LF.** -/
theorem written_lines (units : List UInt16) :
    written false units = join CR LF (lines CR LF units) := by
  refine lines_cases (P := fun units => written false units = join CR LF (lines CR LF units)) CR LF
    rfl ?_ ?_ ?_ units
  · intro units ih
    rw [lines_pair, join_nil_cons (lines_ne_nil _), ← ih, written_cons]
    show CR :: written true (LF :: units) = _
    rw [written_afterCr]
    rfl
  · intro unit units hunit halone ih
    rw [lines_break hunit halone, join_nil_cons (lines_ne_nil _), ← ih, written_cons]
    rcases hunit with rfl | rfl
    · show CR :: written true units = _
      rw [written_afterCr, if_neg (halone rfl)]
    · rfl
  · intro unit units hunit ih
    rw [lines_other _ hunit, join_pushLine (lines_ne_nil _), ← ih, written_cons]
    have hcr : (unit == CR) = false := by simpa using hunit.1
    rw [hcr]
    unfold pushUnit
    simp [hunit.1, hunit.2]

theorem clipboardText_lines (text : String) :
    clipboardText text = join CR LF (lines CR LF (utf16 text)) ++ [0] := by
  rw [← written_lines]
  rfl

/-! ## Text and units -/

theorem toUInt16_ne {n m : Nat} (hn : n < 2 ^ 16) (hm : m < 2 ^ 16) (h : n ≠ m) :
    n.toUInt16 ≠ m.toUInt16 := by
  intro heq
  apply h
  have hnat : (UInt16.ofNat n).toNat = (UInt16.ofNat m).toNat := congrArg UInt16.toNat heq
  rwa [UInt16.toNat_ofNat_of_lt' hn, UInt16.toNat_ofNat_of_lt' hm] at hnat

/-- CR and LF are one unit each, and no unit of another character. -/
theorem encodeUtf16_keeps : KeepsBreaks '\r' '\n' CR LF encodeUtf16 := by
  refine ⟨by decide, by decide, fun c hc => ?_⟩
  have hnat : c.toNat ≠ 0x0D ∧ c.toNat ≠ 0x0A :=
    ⟨fun h => hc.1 (Char.toNat_inj.mp h), fun h => hc.2 (Char.toNat_inj.mp h)⟩
  have hlt : c.toNat < 0x110000 := by
    rcases c.valid with hlow | ⟨-, hhigh⟩
    · exact Nat.lt_trans hlow (by decide)
    · exact hhigh
  have hunit : ∀ n < 2 ^ 16, n ≠ 0x0D ∧ n ≠ 0x0A →
      n.toUInt16 ≠ CR ∧ n.toUInt16 ≠ LF := fun n hn hne =>
    ⟨toUInt16_ne hn (by decide) hne.1, toUInt16_ne hn (by decide) hne.2⟩
  unfold encodeUtf16
  split
  · next hsmall =>
    exact ⟨free_cons.mpr ⟨hunit _ hsmall hnat, free_nil⟩, List.cons_ne_nil _ _⟩
  · -- A surrogate is neither.
    refine ⟨free_cons.mpr ⟨hunit _ ?_ ?_, free_cons.mpr ⟨hunit _ ?_ ?_, free_nil⟩⟩,
      List.cons_ne_nil _ _⟩
    · omega
    · omega
    · omega
    · omega

/-- `text` with every break written as CR LF. -/
def normalText (text : String) : String :=
  String.ofList (join '\r' '\n' (lines '\r' '\n' text.toList))

theorem utf16_normalText (text : String) :
    utf16 (normalText text) = join CR LF (lines CR LF (utf16 text)) := by
  unfold utf16 normalText
  rw [String.toList_ofList, join_flatMap encodeUtf16_keeps,
    lines_flatMap encodeUtf16_keeps CR_ne_LF]

/-- What a text becomes for the clipboard. -/
structure ClipboardText (text : String) (units : List UInt16) : Prop where
  /-- One NUL is appended. -/
  ended : units = units.dropLast ++ [0]
  /-- Every CR is followed by an LF, every LF follows a CR. -/
  paired : Paired CR LF units
  /-- The lines, and so all other units in their order, are those of the text. -/
  same : pairLines CR LF units.dropLast = lines CR LF (utf16 text)
  /-- The output is a text again, and changes no more. -/
  fixed : (∃ again, utf16 again = units.dropLast) ∧
    ∀ again, utf16 again = units.dropLast → clipboardText again = units

/-- **Normalising a text for the clipboard keeps its lines and ends each with CR LF.** -/
theorem clipboard_text (text : String) : ClipboardText text (clipboardText text) := by
  have hfree := @lines_free _ CR LF _ (utf16 text)
  have hlines := clipboardText_lines text
  have hbody : (clipboardText text).dropLast = join CR LF (lines CR LF (utf16 text)) := by
    rw [hlines, List.dropLast_concat]
  refine ⟨?_, ?_, ?_, ⟨normalText text, ?_⟩, fun again hagain => ?_⟩
  · rw [hbody]
    exact hlines
  · rw [hlines]
    exact (join_paired CR_ne_LF hfree).snoc (by decide)
  · rw [hbody, pairLines_join (lines_ne_nil _) hfree]
  · rw [hbody, utf16_normalText]
  · rw [clipboardText_lines, hagain, hbody, lines_join (lines_ne_nil _) hfree, hlines]

end KeySwitch.Data
