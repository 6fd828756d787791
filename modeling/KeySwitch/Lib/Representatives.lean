import Mathlib.Data.Multiset.Bind

/-!
# One representative of each class

A loop over a list that keeps an element unless it has kept one equal to it ends with
one element of each class, the first. Where equality is an equivalence, the kept
elements cover the list (`representatives_cover`), no two of them are equal
(`representatives_pairwise`), and another order of the list keeps the same classes
(`representatives_rel`).
-/

namespace KeySwitch.Lib

variable {β : Type} (eq : β → β → Bool)

/-- One turn of the loop. -/
def keepStep (kept : List β) (x : β) : List β :=
  if kept.any fun y => eq y x then kept else kept ++ [x]

/-- By equality, the loop keeps what it has not kept yet. -/
theorem keepStep_beq [BEq β] [LawfulBEq β] (kept : List β) (x : β) :
    keepStep (fun a b => a == b) kept x = if kept.contains x then kept else kept ++ [x] := by
  have hcontains : kept.contains x = kept.any fun a => a == x := by
    rw [List.contains_eq_any_beq]
    congr 1
    funext a
    exact Bool.beq_comm
  unfold keepStep
  rw [hcontains]

/-- The elements kept of a list. -/
def representatives (l : List β) : List β := l.foldl (keepStep eq) []

theorem representatives_snoc (l : List β) (x : β) :
    representatives eq (l ++ [x]) = keepStep eq (representatives eq l) x := by
  unfold representatives
  rw [List.foldl_append]
  rfl

theorem representatives_subset {l : List β} {y : β} (h : y ∈ representatives eq l) : y ∈ l := by
  induction l using List.reverseRecOn with
  | nil => exact h
  | append_singleton l x ih =>
    rw [representatives_snoc] at h
    unfold keepStep at h
    split at h
    · exact List.mem_append_left _ (ih h)
    · rcases List.mem_append.mp h with h | h
      · exact List.mem_append_left _ (ih h)
      · exact List.mem_append_right _ h

variable {eq} {r : β → β → Prop}

/-- Every element of the list has a representative. -/
theorem representatives_cover (hr : Equivalence r) {l : List β}
    (heq : ∀ x ∈ l, ∀ y ∈ l, eq x y = true ↔ r x y) :
    ∀ x ∈ l, ∃ y ∈ representatives eq l, r y x := by
  induction l using List.reverseRecOn with
  | nil => exact fun x hx => absurd hx List.not_mem_nil
  | append_singleton l z ih =>
    have hbefore := ih fun x hx y hy =>
      heq x (List.mem_append_left _ hx) y (List.mem_append_left _ hy)
    intro x hx
    rw [representatives_snoc]
    unfold keepStep
    split
    · next hany =>
      rcases List.mem_append.mp hx with hx | hx
      · exact hbefore x hx
      · rw [List.mem_singleton.mp hx]
        obtain ⟨y, hy, hyz⟩ := List.any_eq_true.mp hany
        have hyl := List.mem_append_left [z] (representatives_subset eq hy)
        exact ⟨y, hy, (heq y hyl z (by simp)).mp hyz⟩
    · rcases List.mem_append.mp hx with hx | hx
      · obtain ⟨y, hy, hyx⟩ := hbefore x hx
        exact ⟨y, List.mem_append_left _ hy, hyx⟩
      · rw [List.mem_singleton.mp hx]
        exact ⟨z, by simp, hr.refl z⟩

/-- No two representatives are of one class. -/
theorem representatives_pairwise {l : List β}
    (heq : ∀ x ∈ l, ∀ y ∈ l, eq x y = true ↔ r x y) :
    (representatives eq l).Pairwise fun x y => ¬r x y := by
  induction l using List.reverseRecOn with
  | nil => exact List.Pairwise.nil
  | append_singleton l z ih =>
    have hbefore := ih fun x hx y hy =>
      heq x (List.mem_append_left _ hx) y (List.mem_append_left _ hy)
    rw [representatives_snoc]
    unfold keepStep
    split
    · exact hbefore
    · next hany =>
      refine List.pairwise_append.mpr ⟨hbefore, List.pairwise_singleton _ _, ?_⟩
      intro x hx y hy hxy
      rw [List.mem_singleton.mp hy] at hxy
      have hxl := List.mem_append_left [z] (representatives_subset eq hx)
      exact hany (List.any_eq_true.mpr ⟨x, hx, (heq x hxl z (by simp)).mpr hxy⟩)

/-- Two lists without two elements of one class, each with a member of every class of
the other, match up. -/
theorem rel_of_classes (hr : Equivalence r) {as bs : List β}
    (has : as.Pairwise fun x y => ¬r x y) (hbs : bs.Pairwise fun x y => ¬r x y)
    (hab : ∀ a ∈ as, ∃ b ∈ bs, r a b) (hba : ∀ b ∈ bs, ∃ a ∈ as, r a b) :
    Multiset.Rel r (as : Multiset β) (bs : Multiset β) := by
  induction as generalizing bs with
  | nil =>
    have hnone : bs = [] := by
      rw [List.eq_nil_iff_forall_not_mem]
      intro b hb
      obtain ⟨a, ha, -⟩ := hba b hb
      exact absurd ha List.not_mem_nil
    rw [hnone]
    exact Multiset.Rel.zero
  | cons a as ih =>
    obtain ⟨b, hb, hmatch⟩ := hab a List.mem_cons_self
    obtain ⟨bs₁, bs₂, rfl⟩ := List.append_of_mem hb
    obtain ⟨haas, has⟩ := List.pairwise_cons.mp has
    have hperm : ((bs₁ ++ b :: bs₂ : List β) : Multiset β) = b ::ₘ ((bs₁ ++ bs₂ : List β)) :=
      Multiset.coe_eq_coe.mpr List.perm_middle
    have hmiddle : (∀ c ∈ bs₁ ++ bs₂, ¬r b c) ∧ (bs₁ ++ bs₂).Pairwise fun x y => ¬r x y := by
      rw [List.pairwise_middle fun hxy hyx => hxy (hr.symm hyx)] at hbs
      exact List.pairwise_cons.mp hbs
    rw [hperm]
    refine Multiset.Rel.cons hmatch (ih has hmiddle.2 (fun x hx => ?_) fun y hy => ?_)
    · obtain ⟨y, hy, hxy⟩ := hab x (List.mem_cons_of_mem _ hx)
      refine ⟨y, ?_, hxy⟩
      rcases List.mem_append.mp hy with hy | hy
      · exact List.mem_append_left _ hy
      · rcases List.mem_cons.mp hy with rfl | hy
        · exact absurd (hr.trans hmatch (hr.symm hxy)) (haas x hx)
        · exact List.mem_append_right _ hy
    · obtain ⟨x, hx, hxy⟩ := hba y (by simpa using Or.imp_right Or.inr (List.mem_append.mp hy))
      rcases List.mem_cons.mp hx with rfl | hx
      · exact absurd (hr.trans (hr.symm hmatch) hxy) (hmiddle.1 y hy)
      · exact ⟨x, hx, hxy⟩

/-- The classes kept do not depend on the order of the list. -/
theorem representatives_rel (hr : Equivalence r) {l l' : List β} (hperm : l.Perm l')
    (heq : ∀ x ∈ l, ∀ y ∈ l, eq x y = true ↔ r x y) :
    Multiset.Rel r (representatives eq l : Multiset β) (representatives eq l' : Multiset β) := by
  have heq' : ∀ x ∈ l', ∀ y ∈ l', eq x y = true ↔ r x y := fun x hx y hy =>
    heq x (hperm.symm.subset hx) y (hperm.symm.subset hy)
  refine rel_of_classes hr (representatives_pairwise heq) (representatives_pairwise heq') ?_ ?_
  · intro a ha
    have ha' := hperm.subset (representatives_subset eq ha)
    obtain ⟨b, hb, hba⟩ := representatives_cover hr heq' a ha'
    exact ⟨b, hb, hr.symm hba⟩
  · intro b hb
    have hb' := hperm.symm.subset (representatives_subset eq hb)
    exact representatives_cover hr heq b hb'

end KeySwitch.Lib
