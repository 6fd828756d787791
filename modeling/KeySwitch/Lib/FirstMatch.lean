import Mathlib.Data.List.Nodup
import Mathlib.Data.List.Perm.Subperm

/-!
# The first element of a list that passes a test

A vector searched with `position` and changed at the index found is, as a list,
`find?` with `eraseP` or `modifyFirst` under the same test. All three see the
list split at one element (`find?_split`), so a proof about such an operation
splits the list once and computes.
-/

namespace KeySwitch.Lib

variable {β γ κ : Type}

/-- Changes the first element that passes `test`. -/
def modifyFirst (test : β → Bool) (f : β → β) : List β → List β
  | [] => []
  | a :: as => if test a then f a :: as else a :: modifyFirst test f as

/-- Where the first match of a list is, and what `eraseP` and `modifyFirst` make
of it. -/
theorem find?_split {test : β → Bool} {l : List β} {p : β} (h : l.find? test = some p) :
    ∃ as bs, l = as ++ p :: bs ∧ (∀ a ∈ as, test a = false) ∧ test p = true ∧
      l.eraseP test = as ++ bs ∧ ∀ f, modifyFirst test f l = as ++ f p :: bs := by
  induction l with
  | nil => simp at h
  | cons a l ih =>
    by_cases ha : test a
    · rw [List.find?_cons_of_pos ha] at h
      obtain rfl := Option.some.inj h
      exact ⟨[], l, rfl, by simp, ha, List.eraseP_cons_of_pos ha,
        fun f => by simp [modifyFirst, ha]⟩
    · rw [List.find?_cons_of_neg ha] at h
      obtain ⟨as, bs, rfl, has, hp, herase, hmodify⟩ := ih h
      refine ⟨a :: as, bs, rfl, ?_, hp, ?_, fun f => ?_⟩
      · intro x hx
        rcases List.mem_cons.mp hx with rfl | hx
        · exact Bool.eq_false_iff.mpr ha
        · exact has x hx
      · rw [List.eraseP_cons_of_neg ha, herase]
        rfl
      · have hrest := hmodify f
        simp only [modifyFirst, ha, Bool.false_eq_true, if_false, hrest, List.cons_append]

/-- The changed list holds the old elements and the change of the one found. -/
theorem mem_modifyFirst {test : β → Bool} {f : β → β} {l : List β} {p x : β}
    (hfound : l.find? test = some p) (h : x ∈ modifyFirst test f l) : x ∈ l ∨ x = f p := by
  obtain ⟨as, bs, rfl, -, -, -, hmodify⟩ := find?_split hfound
  rw [hmodify] at h
  rcases List.mem_append.mp h with h | h
  · exact Or.inl (List.mem_append_left _ h)
  · rcases List.mem_cons.mp h with rfl | h
    · exact Or.inr rfl
    · exact Or.inl (List.mem_append_right _ (List.mem_cons_of_mem _ h))

/-- The converse: an element with no match before it is the one found. -/
theorem find?_middle {test : β → Bool} {as bs : List β} {p : β}
    (has : ∀ a ∈ as, test a = false) (hp : test p = true) :
    (as ++ p :: bs).find? test = some p ∧ (as ++ p :: bs).eraseP test = as ++ bs := by
  have hnone : as.find? test = none := by
    rw [List.find?_eq_none]
    intro a ha
    simp [has a ha]
  refine ⟨?_, ?_⟩
  · rw [List.find?_append, hnone, List.find?_cons_of_pos hp]
    rfl
  · rw [List.eraseP_append_right _ (fun a ha => by simp [has a ha]), List.eraseP_cons_of_pos hp]

/-- In a list with distinct keys, the element found is the only one with its
key. -/
theorem notMem_split {key : β → κ} {as bs : List β} {p : β}
    (h : ((as ++ p :: bs).map key).Nodup) : ∀ x ∈ as ++ bs, key x ≠ key p := by
  rw [List.map_append, List.map_cons, List.nodup_middle, List.nodup_cons] at h
  intro x hx heq
  rw [← List.map_append] at h
  exact h.1 (heq ▸ List.mem_map_of_mem hx)

theorem nodup_split {key : β → κ} {as bs : List β} {p : β}
    (h : ((as ++ p :: bs).map key).Nodup) : ((as ++ bs).map key).Nodup := by
  rw [List.map_append, List.map_cons, List.nodup_middle, List.nodup_cons] at h
  rw [List.map_append]
  exact h.2

/-- Adding one element under a new key keeps the keys distinct. -/
theorem nodup_snoc {key : β → κ} {l : List β} {p : β} (h : (l.map key).Nodup)
    (hp : ∀ x ∈ l, key x ≠ key p) : ((l ++ [p]).map key).Nodup := by
  rw [List.map_append, List.map_singleton, List.nodup_append]
  refine ⟨h, List.nodup_singleton _, ?_⟩
  intro a ha b hb
  obtain ⟨x, hx, rfl⟩ := List.mem_map.mp ha
  rw [List.mem_singleton.mp hb]
  exact hp x hx

/-! ## Under a second test -/

section Marked

variable {test marked : β → Bool} {l : List β} {p : β}

variable (marked) in
/-- Where the element found is not marked, the marked ones stay as they are. -/
theorem filter_eraseP_unmarked (h : l.find? test = some p) (hp : marked p = false) :
    (l.eraseP test).filter marked = l.filter marked := by
  obtain ⟨as, bs, rfl, -, -, herase, -⟩ := find?_split h
  rw [herase, List.filter_append, List.filter_append,
    List.filter_cons_of_neg (by simp [hp])]

/-- Where it is the one marked element, none is left. -/
theorem filter_eraseP_marked (h : l.find? test = some p) (hp : l.filter marked = [p]) :
    (l.eraseP test).filter marked = [] := by
  have hmarked : marked p = true := (List.mem_filter.mp (hp ▸ List.mem_singleton_self p)).2
  obtain ⟨as, bs, rfl, -, -, herase, -⟩ := find?_split h
  rw [List.filter_append, List.filter_cons_of_pos hmarked] at hp
  have hlength := congrArg List.length hp
  simp only [List.length_append, List.length_cons, List.length_nil] at hlength
  rw [herase, List.filter_append, List.append_eq_nil_iff]
  exact ⟨List.length_eq_zero_iff.mp (by omega), List.length_eq_zero_iff.mp (by omega)⟩

variable (marked) in
theorem filter_modifyFirst_unmarked {f : β → β} (h : l.find? test = some p)
    (hp : marked p = false) (hf : marked (f p) = false) :
    (modifyFirst test f l).filter marked = l.filter marked := by
  obtain ⟨as, bs, rfl, -, -, -, hmodify⟩ := find?_split h
  rw [hmodify, List.filter_append, List.filter_append, List.filter_cons_of_neg (by simp [hf]),
    List.filter_cons_of_neg (by simp [hp])]

theorem filter_modifyFirst_marked {f : β → β} (h : l.find? test = some p)
    (hp : l.filter marked = [p]) (hf : marked (f p) = true) :
    (modifyFirst test f l).filter marked = [f p] := by
  have hnone := filter_eraseP_marked h hp
  obtain ⟨as, bs, rfl, -, -, herase, hmodify⟩ := find?_split h
  rw [herase, List.filter_append, List.append_eq_nil_iff] at hnone
  rw [hmodify, List.filter_append, List.filter_cons_of_pos hf, hnone.1, hnone.2]
  rfl

end Marked

end KeySwitch.Lib
