import Mathlib.Data.List.Induction

/-!
# Decimal numbers as text

A reader of decimal numbers takes the digits of a number with any zeros before them, and
often a plus sign before these; `Nat.toDigits 10` writes a number without either. A text of
digits is its value's own digits after some zeros (`digits_eq`), and only the text written
without sign and zeros is the number's own (`signed_eq_toDigits`).

`readNat` is such a reader, for numbers below a bound.
-/

namespace KeySwitch.Lib

/-- The digits of a number as text, after a plus sign if `plus` and `zeros` zeros. -/
def signed (plus : Bool) (zeros n : Nat) : List Char :=
  (if plus then ['+'] else []) ++ (List.replicate zeros '0' ++ Nat.toDigits 10 n)

/-- Whether a text is digits, at least one. -/
def isNumber (text : List Char) : Bool := !text.isEmpty && text.all Char.isDigit

/-- The number a text of digits stands for, after a plus sign or not, if it is below
`bound`. -/
def readNat (bound : Nat) (text : List Char) : Option Nat :=
  let digits :=
    match text with
    | '+' :: rest => rest
    | _ => text
  if isNumber digits && Nat.ofDigitChars 10 digits 0 < bound then
    some (Nat.ofDigitChars 10 digits 0)
  else none

theorem digitChar_of_isDigit {c : Char} (h : c.isDigit = true) :
    c.toNat - 48 < 10 ∧ Nat.digitChar (c.toNat - 48) = c := by
  have hrange : 48 ≤ c.toNat ∧ c.toNat ≤ 57 := by
    unfold Char.isDigit at h
    rw [Bool.and_eq_true, decide_eq_true_eq, decide_eq_true_eq] at h
    exact ⟨h.1, h.2⟩
  have hlt : c.toNat - 48 < 10 := by omega
  refine ⟨hlt, Char.toNat_inj.mp ?_⟩
  rw [Nat.toNat_digitChar_of_lt_ten hlt]
  omega

/-- **Digits are their value's own after some zeros.** -/
theorem digits_eq {text : List Char} (hne : text ≠ []) (h : ∀ c ∈ text, c.isDigit = true) :
    ∃ zeros, text = List.replicate zeros '0' ++ Nat.toDigits 10 (Nat.ofDigitChars 10 text 0) := by
  induction text using List.reverseRecOn with
  | nil => exact absurd rfl hne
  | append_singleton text c ih =>
    obtain ⟨hlt, hchar⟩ := digitChar_of_isDigit (h c (by simp))
    have hlast : Nat.toDigits 10 (c.toNat - 48) = [c] := by
      rw [Nat.toDigits_of_lt_base hlt, hchar]
    have hvalue : Nat.ofDigitChars 10 (text ++ [c]) 0 =
        10 * Nat.ofDigitChars 10 text 0 + (c.toNat - 48) := by
      rw [Nat.ofDigitChars_append]
      rfl
    rw [hvalue]
    by_cases hnil : text = []
    · subst hnil
      refine ⟨0, ?_⟩
      rw [Nat.ofDigitChars_nil, Nat.mul_zero, Nat.zero_add, hlast]
      rfl
    · obtain ⟨zeros, htext⟩ := ih hnil fun d hd => h d (List.mem_append_left _ hd)
      by_cases hzero : Nat.ofDigitChars 10 text 0 = 0
      · -- All the digits before the last one are zeros.
        rw [hzero, Nat.toDigits_zero] at htext
        rw [hzero, Nat.mul_zero, Nat.zero_add, hlast]
        refine ⟨zeros + 1, ?_⟩
        rw [List.replicate_succ']
        exact congrArg (· ++ [c]) htext
      · refine ⟨zeros, ?_⟩
        rw [← Nat.toDigits_append_toDigits (by decide) (Nat.pos_of_ne_zero hzero) hlt, hlast,
          ← List.append_assoc, ← htext]

theorem ofDigitChars_padded (zeros n : Nat) :
    Nat.ofDigitChars 10 (List.replicate zeros '0' ++ Nat.toDigits 10 n) 0 = n := by
  rw [Nat.ofDigitChars_append, Nat.ofDigitChars_replicate_zero, Nat.mul_zero,
    Nat.ofDigitChars_ten_toDigits]

theorem isDigit_of_toDigits {n : Nat} {c : Char} (h : c ∈ Nat.toDigits 10 n) : c.isDigit = true :=
  Nat.isDigit_of_mem_toDigits (by decide) (by decide) h

theorem isNumber_padded (zeros n : Nat) :
    isNumber (List.replicate zeros '0' ++ Nat.toDigits 10 n) = true := by
  unfold isNumber
  rw [Bool.and_eq_true, List.all_eq_true]
  refine ⟨?_, fun c hc => ?_⟩
  · simp [Nat.toDigits_ne_nil]
  · rcases List.mem_append.mp hc with hc | hc
    · rw [List.eq_of_mem_replicate hc]
      rfl
    · exact isDigit_of_toDigits hc

theorem padded_ne_plus {zeros n : Nat} {rest : List Char} :
    List.replicate zeros '0' ++ Nat.toDigits 10 n ≠ '+' :: rest := by
  intro h
  have hmem : '+' ∈ List.replicate zeros '0' ++ Nat.toDigits 10 n := h ▸ List.mem_cons_self
  rcases List.mem_append.mp hmem with hmem | hmem
  · exact absurd (List.eq_of_mem_replicate hmem) (by decide)
  · exact absurd (isDigit_of_toDigits hmem) (by decide)

/-- Only the text without sign and zeros is a number's own. -/
theorem signed_eq_toDigits {plus : Bool} {zeros n m : Nat}
    (h : signed plus zeros n = Nat.toDigits 10 m) : plus = false ∧ zeros = 0 ∧ n = m := by
  unfold signed at h
  cases plus with
  | true =>
    have hdigits : List.replicate 0 '0' ++ Nat.toDigits 10 m =
        '+' :: (List.replicate zeros '0' ++ Nat.toDigits 10 n) := h.symm
    exact absurd hdigits padded_ne_plus
  | false =>
    have hvalue := congrArg (fun text => Nat.ofDigitChars 10 text 0) h
    have hlength := congrArg List.length h
    have hsame : n = m := by
      simpa [ofDigitChars_padded] using hvalue
    subst hsame
    simp at hlength
    exact ⟨rfl, hlength, rfl⟩

/-- What the reader reads: the numbers below the bound, after any sign and zeros. -/
theorem readNat_eq_some {bound n : Nat} {text : List Char} :
    readNat bound text = some n ↔ n < bound ∧ ∃ plus zeros, text = signed plus zeros n := by
  have hread : ∀ digits : List Char,
      (if isNumber digits && Nat.ofDigitChars 10 digits 0 < bound then
      some (Nat.ofDigitChars 10 digits 0) else none) = some n ↔
      n < bound ∧ ∃ zeros, digits = List.replicate zeros '0' ++ Nat.toDigits 10 n := by
    intro digits
    constructor
    · intro h
      split at h
      · next hnumber =>
        obtain rfl := Option.some.inj h
        rw [Bool.and_eq_true, decide_eq_true_eq] at hnumber
        unfold isNumber at hnumber
        rw [Bool.and_eq_true, List.all_eq_true] at hnumber
        exact ⟨hnumber.2, digits_eq (by simpa using hnumber.1.1) hnumber.1.2⟩
      · exact absurd h (by simp)
    · intro h
      obtain ⟨hlt, zeros, rfl⟩ := h
      rw [isNumber_padded, ofDigitChars_padded, Bool.true_and, if_pos (decide_eq_true hlt)]
  unfold readNat
  split
  · next rest =>
    refine (hread rest).trans (and_congr_right fun _ => ⟨fun h => ?_, fun h => ?_⟩)
    · obtain ⟨zeros, rfl⟩ := h
      exact ⟨true, zeros, rfl⟩
    · obtain ⟨plus, zeros, htext⟩ := h
      cases plus with
      | true => exact ⟨zeros, (List.cons.inj htext).2⟩
      | false => exact absurd htext.symm padded_ne_plus
  · next hplus =>
    refine (hread text).trans (and_congr_right fun _ => ⟨fun h => ?_, fun h => ?_⟩)
    · obtain ⟨zeros, rfl⟩ := h
      exact ⟨false, zeros, rfl⟩
    · obtain ⟨plus, zeros, htext⟩ := h
      cases plus with
      | true => exact absurd htext (hplus _)
      | false => exact ⟨zeros, htext⟩

end KeySwitch.Lib
