import Mathlib.Algebra.Group.Nat.Defs
import Mathlib.Data.Nat.Init

/-!
# Arithmetic that says when it leaves its type

Unsigned integers of `w` bits as natural numbers, with operations that give nothing
where the result is no such integer: past `2 ^ w`, or below zero. A computation that
gives a result has left the type nowhere.
-/

namespace KeySwitch.Lib

/-- `n` as an integer of `w` bits. -/
def fits (w n : Nat) : Option Nat := if n < 2 ^ w then some n else none

/-- `a + b` of `w` bits. -/
def addFits (w a b : Nat) : Option Nat := fits w (a + b)

/-- `a * b` of `w` bits. -/
def mulFits (w a b : Nat) : Option Nat := fits w (a * b)

/-- `a - b`, not below zero. -/
def subFits (a b : Nat) : Option Nat := if b ≤ a then some (a - b) else none

theorem addFits_eq {w a b : Nat} (h : a + b < 2 ^ w) : addFits w a b = some (a + b) := if_pos h

theorem mulFits_eq {w a b : Nat} (h : a * b < 2 ^ w) : mulFits w a b = some (a * b) := if_pos h

theorem subFits_eq {a b : Nat} (h : b ≤ a) : subFits a b = some (a - b) := if_pos h

end KeySwitch.Lib
