import Mathlib.Data.List.Chain
import Mathlib.Data.List.Infix

/-!
# Attempts made of the latest things that happened

Things happen one after another, and some of them together complete a goal. An
attempt is a list of the latest things: `join` says which attempt one more thing
belongs to, a last part of the attempt so far with that thing, and `done` whether
the attempt is complete with it. A completed attempt leaves nothing open.

`openAttempt` is what is open after a history, `completes` whether one more thing
completes it. An attempt is the last part of its history (`openAttempt_suffix`),
and none reaches back over a completion (`openAttempt_after`).

Two kinds of attempt follow. One collects within a window from its first thing
(`joinWithin`); one runs through numbered steps, each soon after the one before
(`joinInOrder`).
-/

namespace KeySwitch.Lib

variable {D : Type}

/-! ## Attempts in general -/

section Attempts

variable {join : List D → D → List D} {done : List D → D → Bool}

/-- Whether `d` completes its attempt. -/
def completes (join : List D → D → List D) (done : List D → D → Bool) (attempt : List D) (d : D) :
    Bool :=
  done (join attempt d) d

/-- What is open after `d`. -/
def nextAttempt (join : List D → D → List D) (done : List D → D → Bool) (attempt : List D) (d : D) :
    List D :=
  if completes join done attempt d then [] else join attempt d

/-- What is open after a history that found `attempt` open. -/
def openAttempt (join : List D → D → List D) (done : List D → D → Bool) (attempt ds : List D) :
    List D :=
  ds.foldl (nextAttempt join done) attempt

/-- Which things of a history complete their attempts. -/
def completions (join : List D → D → List D) (done : List D → D → Bool) (attempt : List D) :
    List D → List Bool
  | [] => []
  | d :: ds =>
    completes join done attempt d :: completions join done (nextAttempt join done attempt d) ds

/-- Joining keeps a last part of what is there. -/
def JoinsLast (join : List D → D → List D) : Prop := ∀ attempt d, join attempt d <:+ attempt ++ [d]

/-- Each thing of a history completes or not by what was open before it. -/
theorem completions_append (attempt ds es : List D) :
    completions join done attempt (ds ++ es) =
      completions join done attempt ds ++
        completions join done (openAttempt join done attempt ds) es := by
  induction ds generalizing attempt with
  | nil => rfl
  | cons d ds ih =>
    rw [List.cons_append, completions, completions, ih]
    rfl

theorem completions_length (attempt ds : List D) :
    (completions join done attempt ds).length = ds.length := by
  induction ds generalizing attempt with
  | nil => rfl
  | cons d ds ih => rw [completions, List.length_cons, List.length_cons, ih]

/-- What each thing of a history comes to, where it comes to what completing or not
gives. -/
theorem completions_split {β : Type} {give : Bool → β} {fed : List (D × β)} {attempt : List D}
    (h : fed.map Prod.snd = (completions join done attempt (fed.map Prod.fst)).map give)
    {pre post : List (D × β)} {d : D} {out : β} (hsplit : fed = pre ++ (d, out) :: post) :
    out = give (completes join done (openAttempt join done attempt (pre.map Prod.fst)) d) := by
  rw [hsplit, List.map_append, List.map_append, List.map_cons, List.map_cons, completions_append,
    List.map_append, completions, List.map_cons] at h
  have hlength : (pre.map Prod.snd).length =
      ((completions join done attempt (pre.map Prod.fst)).map give).length := by
    rw [List.length_map, List.length_map, completions_length, List.length_map]
  exact (List.cons.inj (List.append_inj h hlength).2).1

/-- **An attempt consists of the last things of its history.** -/
theorem openAttempt_suffix (hjoin : JoinsLast join) (attempt ds : List D) :
    openAttempt join done attempt ds <:+ attempt ++ ds := by
  induction ds generalizing attempt with
  | nil =>
    rw [List.append_nil]
    exact List.suffix_refl _
  | cons d ds ih =>
    have hnext : nextAttempt join done attempt d <:+ attempt ++ [d] := by
      unfold nextAttempt
      split
      · exact List.nil_suffix
      · exact hjoin attempt d
    obtain ⟨before, hbefore⟩ := hnext
    refine (ih (nextAttempt join done attempt d)).trans ⟨before, ?_⟩
    rw [← List.append_assoc, hbefore, List.append_assoc]
    rfl

theorem join_suffix (hjoin : JoinsLast join) (ds : List D) (d : D) :
    join (openAttempt join done [] ds) d <:+ ds ++ [d] := by
  have hsuffix : openAttempt join done [] ds <:+ [] ++ ds := openAttempt_suffix hjoin [] ds
  obtain ⟨before, hbefore⟩ := hsuffix
  refine (hjoin _ d).trans ⟨before, ?_⟩
  rw [← List.append_assoc, hbefore]
  rfl

/-- **A completed attempt leaves nothing behind**: what is open later has begun
after it. -/
theorem openAttempt_after (hjoin : JoinsLast join) {attempt pre : List D} {d : D}
    (h : completes join done (openAttempt join done attempt pre) d = true) (post : List D) :
    openAttempt join done attempt (pre ++ d :: post) <:+ post := by
  have hnone : openAttempt join done attempt (pre ++ d :: post) =
      openAttempt join done [] post := by
    unfold openAttempt
    rw [List.foldl_append, List.foldl_cons]
    congr 1
    exact if_pos h
  rw [hnone]
  exact openAttempt_suffix hjoin [] post

end Attempts

/-! ## Everything within one window -/

section Window

variable {time : D → Nat} {window : Nat} {covers : List D → Bool}

/-- Whether the window of an attempt is open at `now`. -/
def opensTo (time : D → Nat) (window : Nat) (attempt : List D) (now : Nat) : Bool :=
  attempt.head?.any fun first => now < time first + window

/-- `d` joins the attempt whose window is open, or opens one. -/
def joinWithin (time : D → Nat) (window : Nat) (attempt : List D) (d : D) : List D :=
  if opensTo time window attempt (time d) then attempt ++ [d] else [d]

/-- An attempt is complete when all is there, within the window of the first. -/
def doneWithin (time : D → Nat) (window : Nat) (covers : List D → Bool) (attempt : List D) (d : D) :
    Bool :=
  opensTo time window attempt (time d) && covers attempt

theorem joinWithin_last : JoinsLast (joinWithin time window) := by
  intro attempt d
  unfold joinWithin
  split
  · exact List.suffix_refl _
  · exact List.suffix_append _ _

/-- **An attempt that is completed lies in one window**, and all is there. -/
theorem joinWithin_window {ds : List D} {d : D}
    (hsorted : (ds ++ [d]).Pairwise fun x y => time x ≤ time y)
    (h : completes (joinWithin time window) (doneWithin time window covers)
      (openAttempt (joinWithin time window) (doneWithin time window covers) [] ds) d = true) :
    ∃ used first, used <:+ ds ++ [d] ∧ used.head? = some first ∧ covers used = true ∧
      ∀ x ∈ used, time first ≤ time x ∧ time x < time first + window := by
  have hsuffix : joinWithin time window (openAttempt (joinWithin time window)
      (doneWithin time window covers) [] ds) d <:+ ds ++ [d] :=
    join_suffix joinWithin_last ds d
  generalize hused : joinWithin time window
    (openAttempt (joinWithin time window) (doneWithin time window covers) [] ds) d = used at hsuffix
  have hdone : doneWithin time window covers used d = true := hused ▸ h
  unfold doneWithin opensTo at hdone
  rw [Bool.and_eq_true] at hdone
  have hlast : ∀ x ∈ used, time x ≤ time d := by
    intro x hx
    rcases List.mem_append.mp (hsuffix.subset hx) with hx | hx
    · exact (List.pairwise_append.mp hsorted).2.2 x hx d (List.mem_singleton_self d)
    · rw [List.mem_singleton.mp hx]
  cases used with
  | nil => exact absurd hdone.1 (by simp)
  | cons first rest =>
    have hopen : time d < time first + window := by simpa using hdone.1
    have hpairs := hsorted.sublist hsuffix.sublist
    refine ⟨_, first, hsuffix, rfl, hdone.2, fun x hx =>
      ⟨?_, Nat.lt_of_le_of_lt (hlast x hx) hopen⟩⟩
    rcases List.mem_cons.mp hx with rfl | hx
    · exact Nat.le_refl _
    · exact (List.pairwise_cons.mp hpairs).1 x hx

end Window

/-! ## Step after step -/

section Steps

variable {time : D → Nat} {gap : Nat} {fits : Nat → D → Bool} {n : Nat}

/-- Whether the next step of an attempt may still come at `now`. -/
def waitsAt (time : D → Nat) (gap : Nat) (attempt : List D) (now : Nat) : Bool :=
  attempt.getLast?.any fun last => now < time last + gap

/-- `d` takes the next step of the attempt, or else the first step of a new one. -/
def joinInOrder (time : D → Nat) (gap : Nat) (fits : Nat → D → Bool) (attempt : List D) (d : D) :
    List D :=
  if waitsAt time gap attempt (time d) && fits attempt.length d then attempt ++ [d]
  else if fits 0 d then [d]
  else []

/-- An attempt is complete with its `n`-th step. -/
def doneSteps (n : Nat) (attempt : List D) (_ : D) : Bool := attempt.length == n

/-- The things of an attempt take the steps in order, each less than `gap` after the
one before. -/
structure TakesSteps (time : D → Nat) (gap : Nat) (fits : Nat → D → Bool) (attempt : List D) :
    Prop where
  fits : ∀ (j : Nat) d, attempt[j]? = some d → fits j d = true
  soon : attempt.IsChain fun x y => time y < time x + gap

theorem joinInOrder_next {attempt : List D} {d : D}
    (hwaits : waitsAt time gap attempt (time d) = true)
    (hfits : fits attempt.length d = true) :
    joinInOrder time gap fits attempt d = attempt ++ [d] := by
  unfold joinInOrder
  rw [hwaits, hfits]
  rfl

theorem joinInOrder_fresh {attempt : List D} {d : D}
    (hidle : waitsAt time gap attempt (time d) = false) (hfits : fits 0 d = true) :
    joinInOrder time gap fits attempt d = [d] := by
  unfold joinInOrder
  rw [hidle, hfits]
  rfl

theorem joinInOrder_last : JoinsLast (joinInOrder time gap fits) := by
  intro attempt d
  unfold joinInOrder
  split
  · exact List.suffix_refl _
  · split
    · exact List.suffix_append _ _
    · exact List.nil_suffix

theorem takesSteps_nil : TakesSteps time gap fits [] :=
  ⟨fun _ _ h => absurd h (by simp), List.isChain_nil⟩

theorem takesSteps_single {d : D} (h : fits 0 d = true) : TakesSteps time gap fits [d] := by
  refine ⟨fun j x hx => ?_, List.isChain_singleton d⟩
  cases j with
  | zero =>
    obtain rfl : d = x := by simpa using hx
    exact h
  | succ j => exact absurd hx (by simp)

/-- Taking the next step in time is taking one more step. -/
theorem takesSteps_snoc {attempt : List D} {d : D} (hne : attempt ≠ []) :
    TakesSteps time gap fits (attempt ++ [d]) ↔
      TakesSteps time gap fits attempt ∧ waitsAt time gap attempt (time d) = true ∧
        fits attempt.length d = true := by
  have hchain : (attempt ++ [d]).IsChain (fun x y => time y < time x + gap) ↔
      attempt.IsChain (fun x y => time y < time x + gap) ∧
        waitsAt time gap attempt (time d) = true := by
    rw [List.isChain_append]
    unfold waitsAt
    rw [List.getLast?_eq_some_getLast hne]
    simp
  constructor
  · rintro ⟨hfits, hsoon⟩
    obtain ⟨hchain', hwaits⟩ := hchain.mp hsoon
    refine ⟨⟨fun j x hx => hfits j x ?_, hchain'⟩, hwaits, hfits attempt.length d (by simp)⟩
    rw [List.getElem?_append_left (List.getElem?_eq_some_iff.mp hx).1]
    exact hx
  · rintro ⟨⟨hfits, hsoon⟩, hwaits, hlast⟩
    refine ⟨fun j x hx => ?_, hchain.mpr ⟨hsoon, hwaits⟩⟩
    rcases Nat.lt_trichotomy j attempt.length with hlt | rfl | hgt
    · rw [List.getElem?_append_left hlt] at hx
      exact hfits j x hx
    · obtain rfl : d = x := by simpa using hx
      exact hlast
    · rw [List.getElem?_append_right (Nat.le_of_lt hgt)] at hx
      have hnone := List.getElem?_eq_some_iff.mp hx
      have hlength : j - attempt.length < 1 := hnone.1
      omega

theorem joinInOrder_takes {attempt : List D} (h : TakesSteps time gap fits attempt) (d : D) :
    TakesSteps time gap fits (joinInOrder time gap fits attempt d) := by
  unfold joinInOrder
  split
  · next hnext =>
    rw [Bool.and_eq_true] at hnext
    refine (takesSteps_snoc ?_).mpr ⟨h, hnext.1, hnext.2⟩
    rintro rfl
    exact absurd hnext.1 (by simp [waitsAt])
  · split
    · next hfirst => exact takesSteps_single hfirst
    · exact takesSteps_nil

theorem openAttempt_takes {attempt : List D} (h : TakesSteps time gap fits attempt) (ds : List D) :
    TakesSteps time gap fits
      (openAttempt (joinInOrder time gap fits) (doneSteps n) attempt ds) := by
  induction ds generalizing attempt with
  | nil => exact h
  | cons d ds ih =>
    refine ih ?_
    unfold nextAttempt
    split
    · exact takesSteps_nil
    · exact joinInOrder_takes h d

/-- **A completed attempt is the latest `n` things**, and they take the steps in
order. -/
theorem joinInOrder_steps {ds : List D} {d : D}
    (h : completes (joinInOrder time gap fits) (doneSteps n)
      (openAttempt (joinInOrder time gap fits) (doneSteps n) [] ds) d = true) :
    ∃ used, used <:+ ds ++ [d] ∧ used.length = n ∧ TakesSteps time gap fits used :=
  ⟨_, join_suffix joinInOrder_last ds d, beq_iff_eq.mp h, joinInOrder_takes
    (openAttempt_takes takesSteps_nil ds) d⟩

/-- Two completions are at least `n` things apart. -/
theorem completions_apart {pre mid : List D} {d d' : D}
    (h : completes (joinInOrder time gap fits) (doneSteps n)
      (openAttempt (joinInOrder time gap fits) (doneSteps n) [] pre) d = true)
    (h' : completes (joinInOrder time gap fits) (doneSteps n)
      (openAttempt (joinInOrder time gap fits) (doneSteps n) [] (pre ++ d :: mid)) d' = true) :
    n ≤ mid.length + 1 := by
  have hafter := openAttempt_after joinInOrder_last h mid
  have hlast : JoinsLast (joinInOrder time gap fits) := joinInOrder_last
  have hjoin := hlast
    (openAttempt (joinInOrder time gap fits) (doneSteps n) [] (pre ++ d :: mid)) d'
  have hlength := hjoin.length_le
  rw [List.length_append, List.length_singleton] at hlength
  have hdone := beq_iff_eq.mp h'
  have hle := hafter.length_le
  omega

/-- **Things that take all steps in order complete an attempt**, wherever none
waits when the first of them comes. -/
theorem completes_of_steps {attempt before : List D} {d : D}
    (hidle : ∀ first ∈ (before ++ [d]).head?, waitsAt time gap attempt (time first) = false)
    (hsteps : TakesSteps time gap fits (before ++ [d])) (hlength : before.length + 1 = n)
    (htwo : 2 ≤ n) :
    completes (joinInOrder time gap fits) (doneSteps n)
      (openAttempt (joinInOrder time gap fits) (doneSteps n) attempt before) d = true := by
  -- After some of the steps, these are what is open.
  have hopen : ∀ taken rest : List D, taken ≠ [] → before = taken ++ rest →
      openAttempt (joinInOrder time gap fits) (doneSteps n) attempt taken = taken := by
    intro taken
    induction taken using List.reverseRecOn with
    | nil => exact fun _ hne _ => absurd rfl hne
    | append_singleton taken x ih =>
      intro rest _ hsplit
      have hbegun : TakesSteps time gap fits (taken ++ [x]) := by
        refine ⟨fun j y hy => hsteps.fits j y ?_, ?_⟩
        · rw [hsplit, List.append_assoc,
            List.getElem?_append_left (List.getElem?_eq_some_iff.mp hy).1]
          exact hy
        · have hchain := hsteps.soon
          rw [hsplit, List.append_assoc] at hchain
          exact hchain.left_of_append
      have hshort : (taken ++ [x]).length < n := by
        have hlen := congrArg List.length hsplit
        rw [List.length_append] at hlen
        omega
      have hjoin : joinInOrder time gap fits
          (openAttempt (joinInOrder time gap fits) (doneSteps n) attempt taken) x =
            taken ++ [x] := by
        by_cases hne : taken = []
        · subst hne
          refine joinInOrder_fresh (hidle x ?_) (hbegun.fits 0 x rfl)
          rw [hsplit]
          rfl
        · obtain ⟨-, hwaits, hfits⟩ := (takesSteps_snoc hne).mp hbegun
          rw [ih (x :: rest) hne (by rw [hsplit]; simp), joinInOrder_next hwaits hfits]
      have hsnoc : openAttempt (joinInOrder time gap fits) (doneSteps n) attempt (taken ++ [x]) =
          nextAttempt (joinInOrder time gap fits) (doneSteps n)
            (openAttempt (joinInOrder time gap fits) (doneSteps n) attempt taken) x := by
        unfold openAttempt
        rw [List.foldl_append]
        rfl
      rw [hsnoc]
      unfold nextAttempt completes
      rw [hjoin, if_neg]
      simp only [doneSteps, beq_iff_eq]
      omega
  have hne : before ≠ [] := by
    rintro rfl
    simp at hlength
    omega
  unfold completes
  rw [hopen before [] hne (List.append_nil _).symm]
  obtain ⟨-, hwaits, hfits⟩ := (takesSteps_snoc hne).mp hsteps
  rw [joinInOrder_next hwaits hfits]
  unfold doneSteps
  rw [List.length_append, List.length_singleton, hlength]
  exact beq_self_eq_true n

end Steps

end KeySwitch.Lib
