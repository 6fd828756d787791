import Mathlib.Logic.Function.Basic

/-!
# Numbered places

Things are kept in numbered places, of which some may be empty; the highest place holds the
oldest. `listed` reads the places below a number, oldest first, and passes over the empty
ones. `moveUp` moves what one place holds to the next.

A move into an empty place changes nothing in the list (`listed_moveUp`), a move into the
last place drops what it held (`listed_moveUp_last`), and what is put into place 0 is the
newest (`listed_update_zero`).
-/

namespace KeySwitch.Lib

/-- Numbered places, each empty or with one content. -/
abbrev Places (α : Type) := Nat → Option α

namespace Places

variable {α : Type} {p q : Places α} {i n : Nat}

/-- What place `i` holds goes to the next place. -/
def moveUp (p : Places α) (i : Nat) : Places α :=
  Function.update (Function.update p (i + 1) (p i)) i none

/-- The contents of the places below `n`, the highest place first. -/
def listed (p : Places α) : Nat → List α
  | 0 => []
  | n + 1 => (p n).toList ++ listed p n

theorem moveUp_same (p : Places α) (i : Nat) : p.moveUp i i = none := by
  unfold moveUp
  rw [Function.update_self]

theorem moveUp_next (p : Places α) (i : Nat) : p.moveUp i (i + 1) = p i := by
  unfold moveUp
  rw [Function.update_of_ne (Nat.succ_ne_self i), Function.update_self]

theorem moveUp_of_ne {j : Nat} (hsame : j ≠ i) (hnext : j ≠ i + 1) : p.moveUp i j = p j := by
  unfold moveUp
  rw [Function.update_of_ne hsame, Function.update_of_ne hnext]

theorem listed_congr (h : ∀ j < n, p j = q j) : listed p n = listed q n := by
  induction n with
  | zero => rfl
  | succ n ih =>
    unfold listed
    rw [h n (Nat.lt_succ_self n), ih fun j hj => h j (Nat.lt_succ_of_lt hj)]

/-- A move into the last place drops what the place held. -/
theorem listed_moveUp_last (p : Places α) (i : Nat) :
    listed p (i + 2) = (p (i + 1)).toList ++ listed (p.moveUp i) (i + 2) := by
  have hbelow : listed (p.moveUp i) i = listed p i :=
    listed_congr fun j hj => moveUp_of_ne (by omega) (by omega)
  unfold listed listed
  rw [moveUp_next, moveUp_same, hbelow]
  rfl

/-- A move into an empty place leaves the list as it is. -/
theorem listed_moveUp (hempty : p (i + 1) = none) (hlt : i + 1 < n) :
    listed (p.moveUp i) n = listed p n := by
  induction n with
  | zero => omega
  | succ n ih =>
    by_cases hlast : n = i + 1
    · subst hlast
      have hmoved := listed_moveUp_last p i
      rw [hempty] at hmoved
      exact hmoved.symm
    · unfold listed
      rw [ih (by omega), moveUp_of_ne (by omega) (by omega)]

/-- What is put into place 0 comes last. -/
theorem listed_update_zero (p : Places α) (x : Option α) (n : Nat) :
    listed (Function.update p 0 x) (n + 1) =
      listed (Function.update p 0 none) (n + 1) ++ x.toList := by
  induction n with
  | zero =>
    unfold listed listed
    rw [Function.update_self, Function.update_self]
    simp
  | succ n ih =>
    have hstep : ∀ q : Places α, listed q (n + 2) = (q (n + 1)).toList ++ listed q (n + 1) :=
      fun _ => rfl
    rw [hstep, hstep, ih, List.append_assoc, Function.update_of_ne (Nat.succ_ne_zero n),
      Function.update_of_ne (Nat.succ_ne_zero n)]

/-- What place 0 holds comes last. -/
theorem listed_zero (p : Places α) (n : Nat) :
    listed p (n + 1) = listed (Function.update p 0 none) (n + 1) ++ (p 0).toList := by
  rw [← listed_update_zero, Function.update_eq_self]

end Places

end KeySwitch.Lib
