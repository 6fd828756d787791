import Mathlib.Algebra.Group.Nat.Defs
import Mathlib.Data.List.Basic

/-!
# Numbers of a fixed width

A number written with leading zeros to a fixed width compares as a text as it does as a
number (`padded_lt`), and so does a text of several of them, from the first to the last
(`append_lt`): the order of the texts is the lexicographic order of the fields.
-/

namespace KeySwitch.Lib

/-- The last `width` decimal digits of `n`. -/
def digits : Nat → Nat → List Char
  | 0, _ => []
  | width + 1, n => digits width (n / 10) ++ [Nat.digitChar (n % 10)]

/-- `n` with leading zeros, to at least `width` digits. -/
def padded (width n : Nat) : List Char := (Nat.toDigits 10 n).leftpad width '0'

/-! ## Texts of one length -/

section Texts

variable {a b c d : List Char}

/-- Where the first fields have one length, they decide, or the rest does. -/
theorem append_lt (h : a.length = b.length) : a ++ c < b ++ d ↔ a < b ∨ a = b ∧ c < d := by
  induction a generalizing b with
  | nil =>
    obtain rfl := List.length_eq_zero_iff.mp h.symm
    simp
  | cons x a ih =>
    cases b with
    | nil => exact absurd h (by simp)
    | cons y b =>
      have hlength : a.length = b.length := by simpa using h
      rw [List.cons_append, List.cons_append, List.cons_lt_cons_iff, List.cons_lt_cons_iff,
        ih hlength]
      constructor
      · rintro (hlt | ⟨rfl, hlt | ⟨rfl, hlt⟩⟩)
        · exact .inl (.inl hlt)
        · exact .inl (.inr ⟨rfl, hlt⟩)
        · exact .inr ⟨rfl, hlt⟩
      · rintro ((hlt | ⟨rfl, hlt⟩) | ⟨hsame, hlt⟩)
        · exact .inl hlt
        · exact .inr ⟨rfl, .inl hlt⟩
        · obtain ⟨rfl, rfl⟩ := List.cons.inj hsame
          exact .inr ⟨rfl, .inr ⟨rfl, hlt⟩⟩

end Texts

/-! ## Digits -/

theorem digitChar_lt : ∀ a < 10, ∀ b < 10, [Nat.digitChar a] < [Nat.digitChar b] ↔ a < b := by
  decide

theorem digits_length (width n : Nat) : (digits width n).length = width := by
  induction width generalizing n with
  | zero => rfl
  | succ width ih => rw [digits, List.length_append, ih, List.length_singleton]

theorem digits_inj {width a b : Nat} (ha : a < 10 ^ width) (hb : b < 10 ^ width) :
    digits width a = digits width b ↔ a = b := by
  induction width generalizing a b with
  | zero =>
    have hzero : a = 0 ∧ b = 0 := by omega
    rw [hzero.1, hzero.2]
    exact ⟨fun _ => rfl, fun _ => rfl⟩
  | succ width ih =>
    rw [Nat.pow_succ] at ha hb
    constructor
    · intro h
      obtain ⟨hfirst, hlast⟩ := List.append_inj' h rfl
      have htens : a / 10 = b / 10 := (ih (by omega) (by omega)).mp hfirst
      have hone : ¬ a % 10 < b % 10 ∧ ¬ b % 10 < a % 10 := by
        rw [← digitChar_lt _ (by omega) _ (by omega), ← digitChar_lt _ (by omega) _ (by omega),
          hlast]
        exact ⟨List.lt_irrefl _, List.lt_irrefl _⟩
      omega
    · exact fun h => h ▸ rfl

theorem digits_lt {width a b : Nat} (ha : a < 10 ^ width) (hb : b < 10 ^ width) :
    digits width a < digits width b ↔ a < b := by
  induction width generalizing a b with
  | zero =>
    have hzero : a = 0 ∧ b = 0 := by omega
    rw [hzero.1, hzero.2]
    exact ⟨fun h => absurd h (List.lt_irrefl _), fun h => absurd h (Nat.lt_irrefl 0)⟩
  | succ width ih =>
    rw [Nat.pow_succ] at ha hb
    have htens : a / 10 < 10 ^ width ∧ b / 10 < 10 ^ width := by omega
    rw [digits, digits, append_lt (by rw [digits_length, digits_length]), ih htens.1 htens.2,
      digits_inj htens.1 htens.2, digitChar_lt _ (by omega) _ (by omega)]
    omega

theorem padded_eq {width n : Nat} (h : n < 10 ^ (width + 1)) :
    padded (width + 1) n = digits (width + 1) n := by
  have hleft : ∀ k, List.replicate k '0' = digits k 0 := by
    intro k
    induction k with
    | zero => rfl
    | succ k ih =>
      rw [List.replicate_succ', ih]
      rfl
  unfold padded List.leftpad
  induction width generalizing n with
  | zero =>
    rw [Nat.toDigits_of_lt_base (by omega)]
    show [n.digitChar] = [(n % 10).digitChar]
    rw [Nat.mod_eq_of_lt (by omega)]
  | succ width ih =>
    by_cases hsmall : n < 10
    · rw [Nat.toDigits_of_lt_base hsmall, hleft, digits, Nat.div_eq_of_lt hsmall,
        Nat.mod_eq_of_lt hsmall]
      rfl
    · have hlength : (Nat.toDigits 10 (n / 10) ++ [(n % 10).digitChar]).length =
          (Nat.toDigits 10 (n / 10)).length + 1 := by simp
      rw [Nat.toDigits_of_base_le (by omega) (by omega), hlength, Nat.add_sub_add_right,
        ← List.append_assoc, ih (by rw [Nat.pow_succ] at h; omega)]
      rfl

theorem padded_length {width n : Nat} (h : n < 10 ^ (width + 1)) :
    (padded (width + 1) n).length = width + 1 := by
  rw [padded_eq h, digits_length]

/-- Numbers of one width compare as texts as they do as numbers. -/
theorem padded_lt {width a b : Nat} (ha : a < 10 ^ (width + 1)) (hb : b < 10 ^ (width + 1)) :
    padded (width + 1) a < padded (width + 1) b ↔ a < b := by
  rw [padded_eq ha, padded_eq hb, digits_lt ha hb]

theorem padded_inj {width a b : Nat} (ha : a < 10 ^ (width + 1)) (hb : b < 10 ^ (width + 1)) :
    padded (width + 1) a = padded (width + 1) b ↔ a = b := by
  rw [padded_eq ha, padded_eq hb, digits_inj ha hb]

/-- A number before the rest of two texts. -/
theorem padded_append_lt {width a b : Nat} (ha : a < 10 ^ (width + 1)) (hb : b < 10 ^ (width + 1))
    {c d : List Char} : padded (width + 1) a ++ c < padded (width + 1) b ++ d ↔
      a < b ∨ a = b ∧ c < d := by
  rw [append_lt (by rw [padded_length ha, padded_length hb]), padded_lt ha hb, padded_inj ha hb]

end KeySwitch.Lib
