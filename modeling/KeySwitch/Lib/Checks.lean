import Mathlib.Data.List.Forall2

/-!
# Reading with checks

A reader makes a value of an input or says why it cannot, in `Except`. Readers are put
together in three ways: one after the other, over a list until the first failure, and over a
list with every failure kept (`collect`). For each there is a rule that says when it succeeds
and one that says where it failed.
-/

namespace KeySwitch.Lib

variable {ε ε' α β γ : Type}

theorem bind_eq_ok {x : Except ε α} {f : α → Except ε β} {b : β} :
    x >>= f = .ok b ↔ ∃ a, x = .ok a ∧ f a = .ok b := by
  cases x with
  | error e => exact ⟨fun h => absurd h (by simp [bind, Except.bind]), fun ⟨_, h, _⟩ => (nomatch h)⟩
  | ok a =>
    constructor
    · exact fun h => ⟨a, rfl, h⟩
    · rintro ⟨a', ha, h⟩
      obtain rfl := Except.ok.inj ha
      exact h

theorem bind_eq_error {x : Except ε α} {f : α → Except ε β} {e : ε} :
    x >>= f = .error e ↔ x = .error e ∨ ∃ a, x = .ok a ∧ f a = .error e := by
  cases x with
  | error e' =>
    constructor
    · exact fun h => .inl (congrArg _ (Except.error.inj h))
    · rintro (h | ⟨a, h, -⟩)
      · exact congrArg _ (Except.error.inj h)
      · nomatch h
  | ok a =>
    constructor
    · exact fun h => .inr ⟨a, rfl, h⟩
    · rintro (h | ⟨a', ha, h⟩)
      · nomatch h
      · obtain rfl := Except.ok.inj ha
        exact h

theorem map_eq_ok {x : Except ε α} {f : α → β} {b : β} :
    x.map f = .ok b ↔ ∃ a, x = .ok a ∧ f a = b := by
  cases x with
  | error e => exact ⟨fun h => (nomatch h), fun ⟨_, h, _⟩ => (nomatch h)⟩
  | ok a =>
    constructor
    · exact fun h => ⟨a, rfl, Except.ok.inj h⟩
    · rintro ⟨a', ha, rfl⟩
      obtain rfl := Except.ok.inj ha
      rfl

theorem map_eq_error {x : Except ε α} {f : α → β} {e : ε} :
    x.map f = .error e ↔ x = .error e := by
  cases x with
  | error e' => exact ⟨fun h => congrArg _ (Except.error.inj h), fun h => h ▸ rfl⟩
  | ok a => exact ⟨fun h => (nomatch h), fun h => (nomatch h)⟩

theorem mapError_eq_ok {x : Except ε α} {f : ε → ε'} {a : α} :
    x.mapError f = .ok a ↔ x = .ok a := by
  cases x with
  | error e => exact ⟨fun h => (nomatch h), fun h => (nomatch h)⟩
  | ok a' => exact ⟨fun h => congrArg _ (Except.ok.inj h), fun h => h ▸ rfl⟩

theorem mapError_eq_error {x : Except ε α} {f : ε → ε'} {e' : ε'} :
    x.mapError f = .error e' ↔ ∃ e, x = .error e ∧ f e = e' := by
  cases x with
  | error e =>
    constructor
    · exact fun h => ⟨e, rfl, Except.error.inj h⟩
    · rintro ⟨e₁, he, rfl⟩
      obtain rfl := Except.error.inj he
      rfl
  | ok a => exact ⟨fun h => (nomatch h), fun ⟨_, h, _⟩ => (nomatch h)⟩

/-! ## Until the first failure -/

/-- A list was read up to an entry that cannot be read. -/
theorem mapM_eq_error {f : α → Except ε β} {xs : List α} {e : ε} (h : xs.mapM f = .error e) :
    ∃ x ∈ xs, f x = .error e := by
  induction xs with
  | nil => exact nomatch h
  | cons x xs ih =>
    rw [List.mapM_cons, bind_eq_error] at h
    rcases h with h | ⟨y, -, h⟩
    · exact ⟨x, List.mem_cons_self, h⟩
    · rcases bind_eq_error.mp h with h | ⟨ys, -, h⟩
      · obtain ⟨x', hx', he⟩ := ih h
        exact ⟨x', List.mem_cons_of_mem _ hx', he⟩
      · exact nomatch h

/-- The numbers of the entries are not looked at. -/
theorem forall₂_zipIdx {R : α → β → Prop} {xs : List α} {ys : List β} :
    List.Forall₂ (fun x y => R x.1 y) xs.zipIdx ys ↔ List.Forall₂ R xs ys := by
  rw [← List.forall₂_map_left_iff, List.zipIdx_map_fst]

/-- What was read, was read of some entry. -/
theorem forall₂_mem_right {R : α → β → Prop} {xs : List α} {ys : List β}
    (h : List.Forall₂ R xs ys) {y : β} (hy : y ∈ ys) : ∃ x ∈ xs, R x y := by
  induction h with
  | nil => exact absurd hy List.not_mem_nil
  | @cons x y' xs ys hhead _ ih =>
    rcases List.mem_cons.mp hy with rfl | hy
    · exact ⟨x, List.mem_cons_self, hhead⟩
    · obtain ⟨x', hx', hR⟩ := ih hy
      exact ⟨x', List.mem_cons_of_mem _ hx', hR⟩

/-! ## With every failure -/

/-- What could be read of a list, and why the rest could not. -/
def collect (f : α → Except ε β) (xs : List α) : List β × List ε :=
  xs.foldl (fun acc x =>
    match f x with
    | .ok b => (acc.1 ++ [b], acc.2)
    | .error e => (acc.1, acc.2 ++ [e])) ([], [])

def failure : Except ε α → Option ε
  | .ok _ => none
  | .error e => some e

theorem failure_eq_some {x : Except ε α} {e : ε} : failure x = some e ↔ x = .error e := by
  cases x with
  | error e' =>
    exact ⟨fun h => congrArg _ (Option.some.inj h), fun h => congrArg _ (Except.error.inj h)⟩
  | ok a => exact ⟨fun h => (nomatch h), fun h => (nomatch h)⟩

/-- Both lists are in the order of the inputs. -/
theorem collect_eq (f : α → Except ε β) (xs : List α) :
    collect f xs = (xs.filterMap fun x => (f x).toOption, xs.filterMap fun x => failure (f x)) := by
  have hfold : ∀ (xs : List α) (bs : List β) (es : List ε),
      xs.foldl (fun (acc : List β × List ε) x =>
        match f x with
        | .ok b => (acc.1 ++ [b], acc.2)
        | .error e => (acc.1, acc.2 ++ [e])) (bs, es) =
      (bs ++ xs.filterMap fun x => (f x).toOption, es ++ xs.filterMap fun x => failure (f x)) := by
    intro xs
    induction xs with
    | nil => exact fun bs es => by rw [List.foldl_nil, List.filterMap_nil, List.filterMap_nil,
        List.append_nil, List.append_nil]
    | cons x xs ih =>
      intro bs es
      rw [List.foldl_cons]
      cases hx : f x with
      | ok b =>
        dsimp only
        rw [ih, List.filterMap_cons_some (b := b) (by rw [hx]; rfl),
          List.filterMap_cons_none (by rw [hx]; rfl), List.append_assoc, List.singleton_append]
      | error e =>
        dsimp only
        rw [ih, List.filterMap_cons_none (by rw [hx]; rfl),
          List.filterMap_cons_some (b := e) (by rw [hx]; rfl), List.append_assoc,
          List.singleton_append]
  unfold collect
  rw [hfold, List.nil_append, List.nil_append]

/-- Nothing fails exactly if every entry is read, and then each is. -/
theorem collect_clean {f : α → Except ε β} {xs : List α} {bs : List β} :
    collect f xs = (bs, []) ↔ List.Forall₂ (fun x b => f x = .ok b) xs bs := by
  rw [collect_eq]
  induction xs generalizing bs with
  | nil =>
    rw [List.forall₂_nil_left_iff]
    exact ⟨fun h => (Prod.mk.inj h).1.symm, fun h => h ▸ rfl⟩
  | cons x xs ih =>
    cases hx : f x with
    | error e =>
      rw [List.filterMap_cons_some (f := fun x => failure (f x)) (b := e) (by rw [hx]; rfl)]
      constructor
      · intro h
        exact nomatch (Prod.mk.inj h).2
      · intro h
        cases h with
        | cons hhead _ => exact nomatch hx.symm.trans hhead
    | ok b =>
      rw [List.filterMap_cons_some (f := fun x => (f x).toOption) (b := b) (by rw [hx]; rfl),
        List.filterMap_cons_none (f := fun x => failure (f x)) (by rw [hx]; rfl)]
      constructor
      · intro h
        obtain ⟨hbs, herrors⟩ := Prod.mk.inj h
        obtain rfl := hbs
        exact .cons hx (ih.mp (Prod.ext rfl herrors))
      · intro h
        cases h with
        | cons hhead htail =>
          obtain rfl := Except.ok.inj (hx.symm.trans hhead)
          obtain ⟨hrest, herrors⟩ := Prod.mk.inj (ih.mpr htail)
          rw [hrest, herrors]

end KeySwitch.Lib
