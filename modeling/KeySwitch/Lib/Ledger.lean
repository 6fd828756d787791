import Mathlib.Data.List.Range
import Mathlib.Data.List.Perm.Basic

/-!
# A line of tickets

Tickets are numbered as they are issued. Each enters the line, at its end, or is
turned away; those in the line are served from its front, or leave it and are
lost. `line` is the tickets served and then the ones that wait, both in order,
and `lost` the others: a `Ledger` says that of the first `n` tickets each is in
exactly one of the two, once, and that the line is in the order of issue.

The three rules are all that can happen to a ticket. Serving one is none of
them: it moves the mark between the served and the waiting, and the line is the
same.
-/

namespace KeySwitch.Lib

structure Ledger (n : Nat) (line lost : List Nat) : Prop where
  ordered : line.Pairwise (· < ·)
  total : (line ++ lost).Perm (List.range n)

namespace Ledger

variable {n : Nat} {line lost : List Nat}

theorem empty : Ledger 0 [] [] := ⟨List.Pairwise.nil, by simp⟩

theorem lt_of_mem (h : Ledger n line lost) {i : Nat} (hi : i ∈ line) : i < n :=
  List.mem_range.mp (h.total.subset (List.mem_append_left _ hi))

/-- The next ticket enters the line. -/
theorem enter (h : Ledger n line lost) : Ledger (n + 1) (line ++ [n]) lost := by
  refine ⟨List.pairwise_append.mpr ⟨h.ordered, List.pairwise_singleton _ _, ?_⟩, ?_⟩
  · intro i hi j hj
    rw [List.mem_singleton.mp hj]
    exact h.lt_of_mem hi
  · rw [List.range_succ, List.append_assoc, List.singleton_append]
    exact (List.perm_middle.trans (List.perm_append_singleton n _).symm).trans
      (h.total.append_right [n])

/-- The next ticket is turned away. -/
theorem turnAway (h : Ledger n line lost) : Ledger (n + 1) line (lost ++ [n]) := by
  refine ⟨h.ordered, ?_⟩
  rw [List.range_succ, ← List.append_assoc]
  exact h.total.append_right [n]

/-- Some tickets leave the line. -/
theorem leave (h : Ledger n line lost) {line' gone : List Nat} (hsub : line'.Sublist line)
    (hgone : (line' ++ gone).Perm line) : Ledger n line' (lost ++ gone) := by
  refine ⟨h.ordered.sublist hsub, ?_⟩
  have hmove : (line' ++ (lost ++ gone)).Perm (line' ++ gone ++ lost) := by
    rw [List.append_assoc]
    exact List.perm_append_comm.append_left line'
  exact (hmove.trans (hgone.append_right lost)).trans h.total

/-- The order in which tickets were lost does not matter. -/
theorem perm_lost (h : Ledger n line lost) {lost' : List Nat} (hlost : lost'.Perm lost) :
    Ledger n line lost' :=
  ⟨h.ordered, (hlost.append_left line).trans h.total⟩

end Ledger

end KeySwitch.Lib
