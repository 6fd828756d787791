import KeySwitch.Lib.FirstBest
import Mathlib.Data.List.Perm.Basic

/-!
# Taking the first best out until none is left

A queue is emptied of its candidates by taking the first best one out, again and again.
`Drains` is one such run. Over a total preorder it is a stable sort of the candidates
that leaves the other elements alone: what comes out are the candidates (`drains_perm`),
best first (`drains_sorted`), elements that are as good as each other in the order they
had (`drains_stable`), and what stays are the others in theirs (`drains_left`).

A vector searched with its indices is the same (`firstBest_zipIdx`).
-/

namespace KeySwitch.Lib

variable {β : Type} {cand : β → Bool} {ge : β → β → Bool}

/-- The candidates of a list taken out one after the other, and what is left. -/
inductive Drains (cand : β → Bool) (ge : β → β → Bool) : List β → List β → List β → Prop
  | stop {l : List β} (h : ∀ x ∈ l, cand x = false) : Drains cand ge l [] l
  | take {as bs out left : List β} {b : β} (h : IsFirstBest cand ge as b bs)
      (rest : Drains cand ge (as ++ bs) out left) : Drains cand ge (as ++ b :: bs) (b :: out) left

theorem drains_left {l out left : List β} (h : Drains cand ge l out left) :
    left = l.filter fun x => !cand x := by
  induction h with
  | stop h => exact (List.filter_eq_self.mpr fun x hx => by simp [h x hx]).symm
  | take h _ ih =>
    rw [ih, List.filter_append, List.filter_append, List.filter_cons_of_neg]
    simp [h.stands]

theorem drains_perm {l out left : List β} (h : Drains cand ge l out left) :
    out.Perm (l.filter cand) := by
  induction h with
  | stop h =>
    rw [List.filter_eq_nil_iff.mpr fun x hx => by simp [h x hx]]
  | take h _ ih =>
    rw [List.filter_append, List.filter_cons_of_pos h.stands]
    refine ((ih.cons _).trans ?_)
    rw [List.filter_append]
    exact List.perm_middle.symm

/-- What comes out is a candidate of the list. -/
theorem mem_of_drains {l out left : List β} (h : Drains cand ge l out left) {x : β}
    (hx : x ∈ out) : x ∈ l ∧ cand x = true :=
  List.mem_filter.mp ((drains_perm h).mem_iff.mp hx)

theorem drains_sorted (hge : TotalPreorder ge) {l out left : List β}
    (h : Drains cand ge l out left) : out.Pairwise fun a b => ge a b = true := by
  induction h with
  | stop h => exact .nil
  | @take as bs out left b hbest rest ih =>
    refine List.pairwise_cons.mpr ⟨fun x hx => ?_, ih⟩
    obtain ⟨hmem, hcand⟩ := mem_of_drains rest hx
    rcases List.mem_append.mp hmem with hmem | hmem
    · -- Not as good as `b`, so `b` is at least as good.
      have hworse := hbest.before x hmem hcand
      rcases hge.total b x with hgood | hgood
      · exact hgood
      · rw [hworse] at hgood
        exact absurd hgood (by decide)
    · exact hbest.after x hmem hcand

/-- Elements that are as good as each other come out in the order they had. -/
theorem drains_stable {tie : β → Bool}
    (htie : ∀ x y, tie x = true → tie y = true → ge x y = true) {l out left : List β}
    (h : Drains cand ge l out left) : out.filter tie = (l.filter cand).filter tie := by
  induction h with
  | @stop l h =>
    have hnone : l.filter cand = [] := List.filter_eq_nil_iff.mpr fun x hx => by simp [h x hx]
    rw [hnone]
  | @take as bs out left b hbest rest ih =>
    rw [List.filter_append, List.filter_cons_of_pos hbest.stands, List.filter_append]
    rw [List.filter_append, List.filter_append] at ih
    cases hb : tie b with
    | false =>
      rw [List.filter_cons_of_neg (by simp [hb]), List.filter_cons_of_neg (by simp [hb])]
      exact ih
    | true =>
      -- Before the best there is no candidate of its class.
      have hnone : (as.filter cand).filter tie = [] := by
        rw [List.filter_eq_nil_iff]
        intro a ha htied
        obtain ⟨hmem, hcand⟩ := List.mem_filter.mp ha
        have hgood := htie a b htied hb
        rw [hbest.before a hmem hcand] at hgood
        exact absurd hgood (by decide)
      rw [hnone, List.nil_append] at ih ⊢
      rw [List.filter_cons_of_pos hb, List.filter_cons_of_pos hb, ih]

/-! ## A vector searched with its indices -/

theorem zipIdx_split {l : List β} {as bs : List (β × Nat)} {b : β} {i : Nat}
    (h : l.zipIdx = as ++ (b, i) :: bs) :
    l = as.map Prod.fst ++ b :: bs.map Prod.fst ∧ i = (as.map Prod.fst).length := by
  have hl : l = (as ++ (b, i) :: bs).map Prod.fst := by
    rw [← h, List.zipIdx_map_fst]
  refine ⟨by rw [hl, List.map_append, List.map_cons], ?_⟩
  have hat : l.zipIdx[as.length]? = some (b, i) := by
    rw [h, List.getElem?_append_right (Nat.le_refl _), Nat.sub_self]
    rfl
  rw [List.getElem?_zipIdx] at hat
  obtain ⟨x, -, hpair⟩ := Option.map_eq_some_iff.mp hat
  rw [List.length_map]
  exact (Prod.mk.inj hpair).2.symm.trans (Nat.zero_add _)

/-- The first best entry of a vector with its indices is the first best element. -/
theorem firstBest_zipIdx (hge : TotalPreorder ge) {l : List β} {b : β} {i : Nat}
    (h : firstBest (fun e => cand e.1) (fun e e' => ge e.1 e'.1) l.zipIdx = some (b, i)) :
    ∃ as bs, l = as ++ b :: bs ∧ i = as.length ∧ IsFirstBest cand ge as b bs := by
  have hge' : TotalPreorder fun e e' : β × Nat => ge e.1 e'.1 :=
    ⟨fun x y => hge.total x.1 y.1, fun x y z => hge.trans x.1 y.1 z.1⟩
  rcases firstBest_cases (fun e : β × Nat => cand e.1) hge' l.zipIdx with
    ⟨hnone, -⟩ | ⟨as, e, bs, hsplit, hsome, hbest⟩
  · rw [hnone] at h
    exact absurd h (by simp)
  · obtain rfl := Option.some.inj (hsome.symm.trans h)
    obtain ⟨hl, hi⟩ := zipIdx_split hsplit
    refine ⟨_, _, hl, hi, hbest.stands, fun a ha hcand => ?_, fun c hc hcand => ?_⟩
    · obtain ⟨e, he, rfl⟩ := List.mem_map.mp ha
      exact hbest.before e he hcand
    · obtain ⟨e, he, rfl⟩ := List.mem_map.mp hc
      exact hbest.after e he hcand

theorem firstBest_zipIdx_none (hge : TotalPreorder ge) {l : List β}
    (h : firstBest (fun e : β × Nat => cand e.1) (fun e e' => ge e.1 e'.1) l.zipIdx = none) :
    ∀ x ∈ l, cand x = false := by
  have hge' : TotalPreorder fun e e' : β × Nat => ge e.1 e'.1 :=
    ⟨fun x y => hge.total x.1 y.1, fun x y z => hge.trans x.1 y.1 z.1⟩
  rcases firstBest_cases (fun e : β × Nat => cand e.1) hge' l.zipIdx with
    ⟨-, hno⟩ | ⟨as, e, bs, hsplit, hsome, hbest⟩
  · intro x hx
    obtain ⟨i, hi, rfl⟩ := List.mem_iff_getElem.mp hx
    exact hno (l[i], i) (List.mk_mem_zipIdx_iff_getElem?.mpr (List.getElem?_eq_getElem hi))
  · rw [hsome] at h
    exact absurd h (by simp)

end KeySwitch.Lib
