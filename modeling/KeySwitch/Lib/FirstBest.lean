import Mathlib.Data.List.Induction

/-!
# The first best element of a list

A loop that keeps the best candidate so far, and replaces it only by one that it
does not equal or exceed, ends with the first of the greatest candidates. Over a
total preorder that is one split of the list (`firstBest_eq_some`): no candidate
before the result is as good, and none after it is better. So taking other
elements out of the list leaves the result.
-/

namespace KeySwitch.Lib

variable {β : Type}

/-- One turn of the loop: `cand` says which elements compete, `ge` which of two is
at least as good. -/
def bestStep (cand : β → Bool) (ge : β → β → Bool) (best : Option β) (x : β) : Option β :=
  if cand x && !(best.any fun b => ge b x) then some x else best

/-- The first best candidate of a list. -/
def firstBest (cand : β → Bool) (ge : β → β → Bool) (l : List β) : Option β :=
  l.foldl (bestStep cand ge) none

/-- Being at least as good is total and transitive. -/
structure TotalPreorder (ge : β → β → Bool) : Prop where
  total : ∀ x y, ge x y = true ∨ ge y x = true
  trans : ∀ x y z, ge x y = true → ge y z = true → ge x z = true

/-- `b` is the first best candidate of a list: where it stands, and what stands
around it. -/
structure IsFirstBest (cand : β → Bool) (ge : β → β → Bool) (as : List β) (b : β) (bs : List β) :
    Prop where
  stands : cand b = true
  before : ∀ a ∈ as, cand a = true → ge a b = false
  after : ∀ c ∈ bs, cand c = true → ge b c = true

variable {cand : β → Bool} {ge : β → β → Bool}

/-- One more element: it is the best now, or the best stays. -/
theorem isFirstBest_snoc (hge : TotalPreorder ge) {as bs : List β} {b : β}
    (h : IsFirstBest cand ge as b bs) (x : β) :
    bestStep cand ge (some b) x = some b ∧ IsFirstBest cand ge as b (bs ++ [x]) ∨
      bestStep cand ge (some b) x = some x ∧ IsFirstBest cand ge (as ++ b :: bs) x [] := by
  unfold bestStep
  rw [Option.any_some]
  by_cases hcand : cand x = true
  · by_cases hbetter : ge b x = true
    · refine Or.inl ⟨by simp [hbetter], h.stands, h.before, fun c hc hcc => ?_⟩
      rcases List.mem_append.mp hc with hc | hc
      · exact h.after c hc hcc
      · rw [List.mem_singleton.mp hc]
        exact hbetter
    · have hworse : ge b x = false := Bool.eq_false_iff.mpr hbetter
      refine Or.inr ⟨by simp [hcand, hworse], hcand, fun a ha hac => ?_, by simp⟩
      -- Nothing before is as good as `x`, or `b` would be too.
      rw [Bool.eq_false_iff]
      intro hax
      rcases List.mem_append.mp ha with ha | ha
      · have hxb : ge x b = true := (hge.total x b).resolve_right hbetter
        have hab := hge.trans a x b hax hxb
        rw [h.before a ha hac] at hab
        exact absurd hab (by decide)
      · rcases List.mem_cons.mp ha with rfl | ha
        · exact hbetter hax
        · exact hbetter (hge.trans b a x (h.after a ha hac) hax)
  · refine Or.inl ⟨by simp [hcand], h.stands, h.before, fun c hc hcc => ?_⟩
    rcases List.mem_append.mp hc with hc | hc
    · exact h.after c hc hcc
    · rw [List.mem_singleton.mp hc] at hcc
      exact absurd hcc hcand

/-- What the loop has found once it has gone over a list. -/
theorem firstBest_cases (cand : β → Bool) (hge : TotalPreorder ge) (l : List β) :
    (firstBest cand ge l = none ∧ ∀ x ∈ l, cand x = false) ∨
      ∃ as b bs, l = as ++ b :: bs ∧ firstBest cand ge l = some b ∧
        IsFirstBest cand ge as b bs := by
  induction l using List.reverseRecOn with
  | nil => exact Or.inl ⟨rfl, by simp⟩
  | append_singleton l x ih =>
    have hlast : firstBest cand ge (l ++ [x]) = bestStep cand ge (firstBest cand ge l) x := by
      unfold firstBest
      rw [List.foldl_append]
      rfl
    rw [hlast]
    rcases ih with ⟨hnone, hno⟩ | ⟨as, b, bs, rfl, hsome, hbest⟩
    · rw [hnone]
      cases hcand : cand x with
      | false =>
        refine Or.inl ⟨by simp [bestStep, hcand], fun y hy => ?_⟩
        rcases List.mem_append.mp hy with hy | hy
        · exact hno y hy
        · rw [List.mem_singleton.mp hy]
          exact hcand
      | true =>
        refine Or.inr ⟨l, x, [], rfl, by simp [bestStep, hcand], hcand, fun a ha hac => ?_, by simp⟩
        rw [hno a ha] at hac
        exact absurd hac (by decide)
    · rw [hsome]
      rcases isFirstBest_snoc hge hbest x with ⟨hstep, hbest⟩ | ⟨hstep, hbest⟩
      · exact Or.inr ⟨as, b, bs ++ [x], by simp, hstep, hbest⟩
      · exact Or.inr ⟨as ++ b :: bs, x, [], rfl, hstep, hbest⟩

theorem firstBest_none {l : List β} (h : ∀ x ∈ l, cand x = false) :
    firstBest cand ge l = none := by
  unfold firstBest
  induction l with
  | nil => rfl
  | cons x l ih =>
    have hx : bestStep cand ge none x = none := by
      unfold bestStep
      rw [h x List.mem_cons_self]
      rfl
    rw [List.foldl_cons, hx]
    exact ih fun y hy => h y (List.mem_cons_of_mem _ hy)

/-- **The loop finds an element exactly where it is the first best.** -/
theorem firstBest_of_split {as bs : List β} {b : β} (h : IsFirstBest cand ge as b bs) :
    firstBest cand ge (as ++ b :: bs) = some b := by
  have hkeep : ∀ bs : List β, (∀ c ∈ bs, cand c = true → ge b c = true) →
      bs.foldl (bestStep cand ge) (some b) = some b := by
    intro bs
    induction bs with
    | nil => exact fun _ => rfl
    | cons c bs ih =>
      intro hafter
      have hc : bestStep cand ge (some b) c = some b := by
        unfold bestStep
        rw [Option.any_some]
        cases hcand : cand c with
        | false => rfl
        | true =>
          rw [hafter c List.mem_cons_self hcand]
          rfl
      rw [List.foldl_cons, hc]
      exact ih fun c' hc' => hafter c' (List.mem_cons_of_mem _ hc')
  -- Whatever was best before `b` is worse than `b`.
  have hbefore : ∀ (as : List β) (best : Option β), (∀ a ∈ as, cand a = true → ge a b = false) →
      (∀ x ∈ best, ge x b = false) →
      ∀ x ∈ as.foldl (bestStep cand ge) best, ge x b = false := by
    intro as
    induction as with
    | nil => exact fun best _ hbest => hbest
    | cons a as ih =>
      intro best has hbest
      rw [List.foldl_cons]
      refine ih _ (fun a' ha' => has a' (List.mem_cons_of_mem _ ha')) fun x hx => ?_
      unfold bestStep at hx
      split at hx
      · next hnew =>
        obtain rfl := Option.some.inj hx
        rw [Bool.and_eq_true] at hnew
        exact has a List.mem_cons_self hnew.1
      · exact hbest x hx
  unfold firstBest
  rw [List.foldl_append, List.foldl_cons]
  have hworse := hbefore as none h.before (by simp)
  generalize as.foldl (bestStep cand ge) none = best at hworse ⊢
  have hstep : bestStep cand ge best b = some b := by
    unfold bestStep
    cases best with
    | none =>
      rw [h.stands]
      rfl
    | some x =>
      rw [h.stands, Option.any_some, hworse x rfl]
      rfl
  rw [hstep]
  exact hkeep bs h.after

/-- Elements taken out around the first best leave it the first best. -/
theorem isFirstBest_sublist {as as' bs bs' : List β} {b : β} (h : IsFirstBest cand ge as b bs)
    (has : as'.Sublist as) (hbs : bs'.Sublist bs) : IsFirstBest cand ge as' b bs' :=
  ⟨h.stands, fun a ha => h.before a (has.subset ha), fun c hc => h.after c (hbs.subset hc)⟩

/-- A loop passes over elements it does nothing for. -/
theorem foldl_filter_idle {σ : Type} {f : σ → β → σ} {keep : β → Bool} {l : List β}
    (h : ∀ x ∈ l, keep x = false → ∀ s, f s x = s) (s : σ) :
    (l.filter keep).foldl f s = l.foldl f s := by
  induction l generalizing s with
  | nil => rfl
  | cons x l ih =>
    have hrest := fun s => ih (fun y hy => h y (List.mem_cons_of_mem _ hy)) s
    cases hkeep : keep x with
    | true => rw [List.filter_cons_of_pos hkeep, List.foldl_cons, List.foldl_cons, hrest]
    | false =>
      rw [List.filter_cons_of_neg (by simp [hkeep]), List.foldl_cons,
        h x List.mem_cons_self hkeep s, hrest]

end KeySwitch.Lib
