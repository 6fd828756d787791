import Mathlib.Data.List.Basic

/-!
# A stable sort by a number

`sortDown f` puts what has the larger number first, and keeps the order of what has the same.
That says all of it: the result is the `buckets` of the list, one number after the other from
the largest down. So an element can be taken out before the sort or after it
(`sortDown_removed`), and what stood before it with no smaller number still does.
-/

namespace KeySwitch.Lib

variable {α : Type} (f : α → Nat)

/-- Sorts a list by `f`, the larger first; stable. -/
def sortDown (l : List α) : List α := l.mergeSort fun a b => decide (f b ≤ f a)

/-- What has a number of at most `n`, number by number from `n` down, each in the order of
the list. -/
def buckets (l : List α) : Nat → List α
  | 0 => l.filter fun a => f a == 0
  | n + 1 => (l.filter fun a => f a == n + 1) ++ buckets l n

variable {f}

/-! ## A sorted list is its buckets -/

/-- What is largest stands in front. -/
theorem sorted_split {n : Nat} : ∀ {l : List α}, (l.Pairwise fun a b => f b ≤ f a) →
    (∀ a ∈ l, f a ≤ n + 1) →
    l = (l.filter fun a => f a == n + 1) ++ l.filter fun a => decide (f a ≤ n)
  | [], _, _ => rfl
  | a :: l, hsorted, hle => by
    obtain ⟨hfirst, hrest⟩ := List.pairwise_cons.mp hsorted
    have hla := hle a List.mem_cons_self
    by_cases ha : f a = n + 1
    · have hno : ¬f a ≤ n := by omega
      have ih := sorted_split hrest fun b hb => hle b (List.mem_cons_of_mem _ hb)
      rw [List.filter_cons_of_pos (by simpa using ha), List.filter_cons_of_neg (by simpa using hno),
        List.cons_append]
      exact congrArg (a :: ·) ih
    · have hno : ∀ b ∈ a :: l, f b ≤ n := by
        intro b hb
        rcases List.mem_cons.mp hb with rfl | hb
        · omega
        · have hb' := hfirst b hb
          omega
      rw [List.filter_eq_nil_iff.mpr fun b hb => by have := hno b hb; simp; omega,
        List.filter_eq_self.mpr fun b hb => by simpa using hno b hb]
      rfl

theorem buckets_filter {l : List α} {n : Nat} : ∀ {m : Nat}, m ≤ n →
    buckets f (l.filter fun a => decide (f a ≤ n)) m = buckets f l m
  | 0, _ => by
    show List.filter _ (List.filter _ _) = List.filter _ _
    rw [List.filter_filter]
    refine List.filter_congr fun a _ => ?_
    rw [Bool.eq_iff_iff]
    simp only [Bool.and_eq_true, beq_iff_eq, decide_eq_true_eq]
    omega
  | m + 1, hle => by
    show List.filter _ (List.filter _ _) ++ _ = List.filter _ _ ++ _
    rw [List.filter_filter, buckets_filter (by omega)]
    congr 1
    refine List.filter_congr fun a _ => ?_
    rw [Bool.eq_iff_iff]
    simp only [Bool.and_eq_true, beq_iff_eq, decide_eq_true_eq]
    omega

theorem sorted_eq_buckets : ∀ {n : Nat} {l : List α}, (l.Pairwise fun a b => f b ≤ f a) →
    (∀ a ∈ l, f a ≤ n) → l = buckets f l n
  | 0, l, _, hle => by
    refine (List.filter_eq_self.mpr fun a ha => ?_).symm
    have ha := hle a ha
    rw [beq_iff_eq]
    omega
  | n + 1, l, hsorted, hle => by
    have hrest := sorted_eq_buckets (hsorted.filter fun a => decide (f a ≤ n))
      fun a ha => of_decide_eq_true (List.mem_filter.mp ha).2
    rw [buckets_filter (Nat.le_refl n)] at hrest
    show l = (l.filter fun a => f a == n + 1) ++ buckets f l n
    rw [← hrest]
    exact sorted_split hsorted hle

/-! ## The sort -/

theorem sortDown_perm (f : α → Nat) (l : List α) : (sortDown f l).Perm l := List.mergeSort_perm _ _

theorem mem_sortDown {a : α} {l : List α} : a ∈ sortDown f l ↔ a ∈ l := (sortDown_perm f l).mem_iff

theorem sortDown_le_trans (a b c : α) (hab : decide (f b ≤ f a) = true)
    (hbc : decide (f c ≤ f b) = true) : decide (f c ≤ f a) = true := by
  rw [decide_eq_true_eq] at hab hbc ⊢
  omega

theorem sortDown_le_total (a b : α) : (decide (f b ≤ f a) || decide (f a ≤ f b)) = true := by
  rw [Bool.or_eq_true, decide_eq_true_eq, decide_eq_true_eq]
  omega

theorem sortDown_sorted (f : α → Nat) (l : List α) :
    (sortDown f l).Pairwise fun a b => f b ≤ f a := by
  have hsorted : (sortDown f l).Pairwise fun a b => decide (f b ≤ f a) = true :=
    List.pairwise_mergeSort sortDown_le_trans sortDown_le_total l
  exact hsorted.imp fun h => of_decide_eq_true h

/-- The order of what has the same number is kept. -/
theorem filter_sortDown (f : α → Nat) (l : List α) (n : Nat) :
    ((sortDown f l).filter fun a => f a == n) = l.filter fun a => f a == n := by
  have hsame : (l.filter fun a => f a == n).Pairwise fun a b => decide (f b ≤ f a) = true := by
    refine List.pairwise_iff_forall_sublist.mpr fun {a b} hab => ?_
    have ha := (List.mem_filter.mp (hab.subset List.mem_cons_self)).2
    have hb := (List.mem_filter.mp (hab.subset (List.mem_cons_of_mem _ List.mem_cons_self))).2
    rw [beq_iff_eq] at ha hb
    rw [decide_eq_true_eq]
    omega
  have hkept : (l.filter fun a => f a == n).Sublist (sortDown f l) :=
    List.sublist_mergeSort sortDown_le_trans sortDown_le_total hsame List.filter_sublist
  have hfiltered := hkept.filter fun a => f a == n
  rw [List.filter_filter] at hfiltered
  simp only [Bool.and_self] at hfiltered
  have hlength := ((sortDown_perm f l).filter fun a => f a == n).length_eq
  exact (hfiltered.eq_of_length hlength.symm).symm

theorem buckets_congr {l l' : List α}
    (h : ∀ n, (l.filter fun a => f a == n) = l'.filter fun a => f a == n) :
    ∀ n, buckets f l n = buckets f l' n
  | 0 => h 0
  | n + 1 => by
    show _ ++ _ = _ ++ _
    rw [h (n + 1), buckets_congr h n]

/-- **The sorted list is the buckets of the list.** -/
theorem sortDown_eq_buckets {l : List α} {n : Nat} (hle : ∀ a ∈ l, f a ≤ n) :
    sortDown f l = buckets f l n := by
  have hsorted := sorted_eq_buckets (sortDown_sorted f l) fun a ha => hle a (mem_sortDown.mp ha)
  exact hsorted.trans (buckets_congr (filter_sortDown f l) n)

/-! ## Without one element -/

/-- The buckets below an element's number do not have it. -/
theorem buckets_skip {as bs : List α} {b : α} : ∀ {n : Nat}, n < f b →
    buckets f (as ++ b :: bs) n = buckets f (as ++ bs) n
  | 0, hlt => by
    have hne : ¬f b = 0 := by omega
    show List.filter _ _ = List.filter _ _
    rw [List.filter_append, List.filter_append, List.filter_cons_of_neg (by simpa using hne)]
  | n + 1, hlt => by
    have hne : ¬f b = n + 1 := by omega
    show List.filter _ _ ++ _ = List.filter _ _ ++ _
    rw [List.filter_append, List.filter_append, List.filter_cons_of_neg (by simpa using hne),
      buckets_skip (by omega)]

/-- An element stands in its bucket behind what stood before it with its number. -/
theorem buckets_removed (as bs : List α) (b : α) : ∀ {n : Nat}, f b ≤ n →
    ∃ xs ys, buckets f (as ++ b :: bs) n = xs ++ b :: ys ∧ buckets f (as ++ bs) n = xs ++ ys ∧
      ∀ a ∈ as, f b ≤ f a → f a ≤ n → a ∈ xs
  | 0, hle => by
    have hzero : f b = 0 := by omega
    refine ⟨as.filter fun a => f a == 0, bs.filter fun a => f a == 0, ?_, ?_, ?_⟩
    · show List.filter _ _ = _
      rw [List.filter_append, List.filter_cons_of_pos (by simpa using hzero)]
    · exact List.filter_append ..
    · intro a ha _ hle
      exact List.mem_filter.mpr ⟨ha, by simpa using hle⟩
  | n + 1, hle => by
    by_cases hb : f b = n + 1
    · refine ⟨as.filter fun a => f a == n + 1,
        (bs.filter fun a => f a == n + 1) ++ buckets f (as ++ bs) n, ?_, ?_, ?_⟩
      · show List.filter _ _ ++ _ = _
        rw [List.filter_append, List.filter_cons_of_pos (by simpa using hb),
          buckets_skip (by omega), List.append_assoc, List.cons_append]
      · show List.filter _ _ ++ _ = _
        rw [List.filter_append, List.append_assoc]
      · intro a ha hge hle
        have heq : f a = n + 1 := by omega
        exact List.mem_filter.mpr ⟨ha, by simpa using heq⟩
    · obtain ⟨xs, ys, hwith, hwithout, hbefore⟩ := buckets_removed as bs b
        (show f b ≤ n by omega)
      refine ⟨((as ++ bs).filter fun a => f a == n + 1) ++ xs, ys, ?_, ?_, ?_⟩
      · show List.filter _ _ ++ _ = _
        rw [hwith, List.filter_append, List.filter_cons_of_neg (by simpa using hb),
          ← List.filter_append, List.append_assoc]
      · show List.filter _ _ ++ _ = _
        rw [hwithout, List.append_assoc]
      · intro a ha hge hle
        by_cases htop : f a = n + 1
        · exact List.mem_append_left _
            (List.mem_filter.mpr ⟨List.mem_append_left _ ha, by simpa using htop⟩)
        · exact List.mem_append_right _ (hbefore a ha hge (by omega))

theorem exists_bound : ∀ l : List α, ∃ n, ∀ a ∈ l, f a ≤ n
  | [] => ⟨0, fun a ha => absurd ha List.not_mem_nil⟩
  | a :: l => by
    obtain ⟨n, hn⟩ := exists_bound l
    refine ⟨max (f a) n, fun b hb => ?_⟩
    rcases List.mem_cons.mp hb with rfl | hb
    · exact Nat.le_max_left ..
    · exact Nat.le_trans (hn b hb) (Nat.le_max_right ..)

/-- **An element can be taken out before the sort or after it**, and what stood before it
with no smaller number still does. -/
theorem sortDown_removed (f : α → Nat) (as bs : List α) (b : α) :
    ∃ xs ys, sortDown f (as ++ b :: bs) = xs ++ b :: ys ∧ sortDown f (as ++ bs) = xs ++ ys ∧
      ∀ a ∈ as, f b ≤ f a → a ∈ xs := by
  obtain ⟨n, hn⟩ := exists_bound (f := f) (as ++ b :: bs)
  have hwithout : ∀ a ∈ as ++ bs, f a ≤ n := by
    intro a ha
    rcases List.mem_append.mp ha with ha | ha
    · exact hn a (List.mem_append_left _ ha)
    · exact hn a (List.mem_append_right _ (List.mem_cons_of_mem _ ha))
  rw [sortDown_eq_buckets hn, sortDown_eq_buckets hwithout]
  obtain ⟨xs, ys, h, h', hbefore⟩ := buckets_removed as bs b
    (hn b (List.mem_append_right _ List.mem_cons_self))
  exact ⟨xs, ys, h, h', fun a ha hge => hbefore a ha hge (hn a (List.mem_append_left _ ha))⟩

end KeySwitch.Lib
