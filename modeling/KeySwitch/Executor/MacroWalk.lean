import KeySwitch.Executor.MacroSteps

/-!
# Macros from their start to their end

`Walk` is what becomes of one macro over any calls: the steps it has reached are its first
steps, in order and each once; the step after a `Delay` is reached no earlier than the `Delay`
asks for, and never if its deadline is past what an `Instant` holds; after a panic comes
nothing; and the macro's run is over only past its last step or after a panic.

It is kept by every visit (`Walk.visit`), whatever the other runs do, so it holds over every
run of starts and polls in which the clock does not go back and the epoch stays live
(`macro_walk`). The runs stand in the order in which they were started, which is the order in
which a poll visits them.
-/

namespace KeySwitch.Executor

open Data Lib

variable {W S A : Type}

/-! ## One macro -/

/-- The first steps of a macro, in order. -/
structure InOrder (steps : List SequenceStep) (reached : List StepReached) : Prop where
  /-- Each is the step of its place, and no other is. -/
  step : ∀ (i : Nat) (entry : StepReached), reached[i]? = some entry →
    entry.index = i ∧ steps[i]? = some entry.step
  /-- Nothing comes after a panic. -/
  panic : ∀ (i : Nat) (entry : StepReached), reached[i]? = some entry →
    entry.panicked = true → i + 1 = reached.length
  /-- After a `Delay` its time has passed, and its deadline was an `Instant`. -/
  delay : ∀ (i : Nat) (entry later : StepReached) (ms : Nat), reached[i]? = some entry →
    reached[i + 1]? = some later → entry.step = .delay ms →
    entry.clock + fromMillis ms ≤ INSTANT_MAX ∧ entry.clock + fromMillis ms ≤ later.clock

/-- What became of a macro: the steps it reached, and its run if it is not over. -/
structure Walk (steps : List SequenceStep) (reached : List StepReached) (run : Option (Run A)) :
    Prop extends InOrder steps reached where
  /-- It ends past its last step or with a step that panicked. -/
  ended : run = none → reached.length = steps.length ∨
    ∃ last, reached.getLast? = some last ∧ last.panicked = true
  /-- It goes on with the next step: it has not started, or it waits for the last `Delay`. -/
  goesOn : ∀ r, run = some r → r.next = reached.length ∧
    (∀ entry ∈ reached, entry.panicked = false) ∧
    (reached = [] ∧ r.resume = .now ∨ ∃ last ms, reached.getLast? = some last ∧
      last.step = .delay ms ∧ r.resume = .afterDelay (checkedAdd last.clock (fromMillis ms)))

/-- Before the next step is reached, at `t` or later. -/
structure Ready (steps : List SequenceStep) (reached : List StepReached) (t : Instant) : Prop
    extends InOrder steps reached where
  noPanic : ∀ entry ∈ reached, entry.panicked = false
  passed : ∀ last ms, reached.getLast? = some last → last.step = .delay ms →
    last.clock + fromMillis ms ≤ INSTANT_MAX ∧ last.clock + fromMillis ms ≤ t

section OneMacro

variable {steps : List SequenceStep} {reached : List StepReached} {entry : StepReached}
  {t : Instant}

theorem InOrder.length_le (h : InOrder steps reached) : reached.length ≤ steps.length := by
  cases hlast : reached.length with
  | zero => exact Nat.zero_le _
  | succ n =>
    have hlt : n < reached.length := by omega
    obtain ⟨-, hstep⟩ := h.step n _ (List.getElem?_eq_getElem hlt)
    exact (List.getElem?_eq_some_iff.mp hstep).1

theorem getElem?_snoc {α : Type} {xs : List α} {x y : α} {i : Nat} :
    (xs ++ [x])[i]? = some y ↔ xs[i]? = some y ∨ i = xs.length ∧ x = y := by
  rcases Nat.lt_trichotomy i xs.length with hlt | rfl | hgt
  · rw [List.getElem?_append_left hlt]
    constructor
    · intro h
      exact .inl h
    · intro h
      rcases h with h | ⟨rfl, -⟩
      · exact h
      · exact absurd hlt (Nat.lt_irrefl _)
  · rw [List.getElem?_concat_length, List.getElem?_eq_none (Nat.le_refl _)]
    simp
  · rw [@List.getElem?_eq_none _ (xs ++ [x]) i (by rw [List.length_append]; exact hgt),
      List.getElem?_eq_none (Nat.le_of_lt hgt)]
    have hne : i ≠ xs.length := by omega
    simp [hne]

/-- One more step. -/
theorem Ready.snoc (h : Ready steps reached t) (hindex : entry.index = reached.length)
    (hstep : steps[reached.length]? = some entry.step) (hclock : t ≤ entry.clock) :
    InOrder steps (reached ++ [entry]) := by
  refine ⟨?_, ?_, ?_⟩
  · intro i e he
    rcases getElem?_snoc.mp he with he | ⟨rfl, rfl⟩
    · exact h.step i e he
    · exact ⟨hindex, hstep⟩
  · intro i e he hpanicked
    rcases getElem?_snoc.mp he with he | ⟨rfl, rfl⟩
    · rw [h.noPanic e (List.mem_of_getElem? he)] at hpanicked
      exact absurd hpanicked Bool.false_ne_true
    · rw [List.length_append, List.length_singleton]
  · intro i e later ms he hlater hdelay
    rcases getElem?_snoc.mp hlater with hlater | ⟨hlast, rfl⟩
    · have hlt : i < reached.length := by
        have := (List.getElem?_eq_some_iff.mp hlater).1
        omega
      rw [List.getElem?_append_left hlt] at he
      exact h.delay i e later ms he hlater hdelay
    · -- The new step is the one after the last `Delay`.
      rcases getElem?_snoc.mp he with he | ⟨hi, -⟩
      · have hgetLast : reached.getLast? = some e := by
          rw [List.getLast?_eq_getElem?, ← hlast]
          exact he
        obtain ⟨hfits, hpassed⟩ := h.passed e ms hgetLast hdelay
        exact ⟨hfits, Nat.le_trans hpassed hclock⟩
      · omega

/-- **A stretch carries a macro on.** -/
theorem Ready.stretch {job index : Nat} {rest : List SequenceStep} {more : List StepReached}
    {resume : Option Resume} {t' : Instant} (run : Run A)
    (hstretch : Stretch job index rest t more resume t') (h : Ready steps reached t)
    (hindex : index = reached.length) (hrest : rest = steps.drop reached.length) :
    Walk steps (reached ++ more) (resume.map fun resume =>
      { run with next := reached.length + more.length, resume := resume }) := by
  induction hstretch generalizing reached with
  | ended hle =>
    have hall : reached.length = steps.length := by
      have := h.length_le
      have := List.drop_eq_nil_iff.mp hrest.symm
      omega
    rw [List.append_nil]
    exact ⟨h.toInOrder, fun _ => .inl hall, fun r hr => absurd hr (by simp)⟩
  | @panicked index step rest t clock t' hstep hle hle' =>
    have hnext : steps[reached.length]? = some step := by
      rw [← List.head?_drop, ← hrest]
      rfl
    have hsnoc := @Ready.snoc steps reached ⟨job, index, step, clock, true⟩ t h hindex hnext hle
    refine ⟨hsnoc, fun _ => .inr ⟨_, List.getLast?_concat, rfl⟩, fun r hr => absurd hr (by simp)⟩
  | @delayed index ms rest t clock t' hle hle' =>
    have hnext : steps[reached.length]? = some (.delay ms) := by
      rw [← List.head?_drop, ← hrest]
      rfl
    have hsnoc :=
      @Ready.snoc steps reached ⟨job, index, .delay ms, clock, false⟩ t h hindex hnext hle
    refine ⟨hsnoc, fun hr => absurd hr (by simp), fun r hr => ?_⟩
    obtain rfl := Option.some.inj hr
    refine ⟨(List.length_append).symm, ?_, .inr ⟨_, ms, List.getLast?_concat, rfl, rfl⟩⟩
    intro entry hentry
    rcases List.mem_append.mp hentry with hentry | hentry
    · exact h.noPanic entry hentry
    · rw [List.mem_singleton.mp hentry]
  | @step index step rest t clock t' more resume hstep hle hmore ih =>
    have hnext : steps[reached.length]? = some step := by
      rw [← List.head?_drop, ← hrest]
      rfl
    have hsnoc := @Ready.snoc steps reached ⟨job, index, step, clock, false⟩ t h hindex hnext hle
    have hready : Ready steps (reached ++ [⟨job, index, step, clock, false⟩]) clock := by
      refine ⟨hsnoc, ?_, ?_⟩
      · intro entry hentry
        rcases List.mem_append.mp hentry with hentry | hentry
        · exact h.noPanic entry hentry
        · rw [List.mem_singleton.mp hentry]
      · intro last ms hlast hdelay
        rw [List.getLast?_concat] at hlast
        obtain rfl := Option.some.inj hlast
        -- What the runner gets is no `Delay`.
        have hgiven : givesStep (.delay ms) = true := hdelay ▸ hstep
        exact absurd hgiven Bool.false_ne_true
    have hwalk := ih hready (by rw [List.length_append, hindex]; rfl) (by
      rw [List.length_append, List.length_singleton, ← List.drop_drop, ← hrest]
      rfl)
    rw [List.append_assoc, List.length_append, List.length_singleton] at hwalk
    rw [List.length_cons]
    have hlength : reached.length + 1 + more.length = reached.length + (more.length + 1) := by
      omega
    rw [hlength] at hwalk
    exact hwalk

/-- **Every visit carries a macro on.** -/
theorem Walk.visit {run : Run A} {more : List StepReached} {after : Option (Run A)} {t' : Instant}
    (h : Walk steps reached (some run)) (hbody : run.body.walked = steps)
    (hvisit : Visit run t more after t') : Walk steps (reached ++ more) after := by
  obtain ⟨hnext, hnoPanic, hresume⟩ := h.goesOn run rfl
  cases hvisit with
  | early _ _ _ _ =>
    rw [List.append_nil]
    exact h
  | never _ _ =>
    rw [List.append_nil]
    exact h
  | @advanced now t t' more resume after hle hdue hstretch hafter =>
    have hready : Ready steps reached now := by
      refine ⟨h.toInOrder, hnoPanic, fun last ms hlast hdelay => ?_⟩
      rcases hresume with ⟨hnone, -⟩ | ⟨last', ms', hlast', hdelay', hresume⟩
      · rw [hnone] at hlast
        exact absurd hlast (by simp)
      · -- The run waited for this `Delay`, and its deadline is reached.
        obtain rfl := Option.some.inj (hlast'.symm.trans hlast)
        obtain rfl := SequenceStep.delay.inj (hdelay'.symm.trans hdelay)
        rw [hresume] at hdue
        unfold checkedAdd at hdue
        by_cases hfits : last'.clock + fromMillis ms' ≤ INSTANT_MAX
        · rw [if_pos hfits] at hdue
          rcases hdue with hnow | ⟨deadline, hdeadline, hreached⟩
          · exact absurd hnow (by simp [Resume.afterDelay])
          · obtain rfl := Resume.once.inj hdeadline
            exact ⟨hfits, hreached⟩
        · rw [if_neg hfits] at hdue
          rcases hdue with hnow | ⟨deadline, hdeadline, -⟩
          · exact absurd hnow (by simp [Resume.afterDelay])
          · exact absurd hdeadline (by simp [Resume.afterDelay])
    have hwalk := hready.stretch run hstretch hnext (by rw [hbody, hnext])
    rw [hafter, hnext]
    exact hwalk

end OneMacro

/-! ## One round -/

section OneRound

/-- What a stretch reaches is of its job, at clocks that go on from `t` to `t'`. -/
theorem Stretch.entries {job index : Nat} {steps : List SequenceStep} {t t' : Instant}
    {reached : List StepReached} {resume : Option Resume}
    (h : Stretch job index steps t reached resume t') :
    t ≤ t' ∧ (∀ entry ∈ reached, entry.job = job ∧ t ≤ entry.clock ∧ entry.clock ≤ t') ∧
      reached.Pairwise (fun a b => a.clock ≤ b.clock) ∧ ∀ r ∈ resume, r.isNow = false := by
  induction h with
  | ended h => exact ⟨h, by simp, .nil, by simp⟩
  | panicked _ h h' =>
    exact ⟨Nat.le_trans h h', by simp [h, h'], List.pairwise_singleton _ _, by simp⟩
  | delayed h h' =>
    exact ⟨Nat.le_trans h h', by simp [h, h'], List.pairwise_singleton _ _, by
      simp [Resume.afterDelay_isNow]⟩
  | step _ h _ ih =>
    obtain ⟨hle, hentries, hsorted, hresume⟩ := ih
    refine ⟨Nat.le_trans h hle, ?_, List.pairwise_cons.mpr ⟨?_, hsorted⟩, hresume⟩
    · intro entry hentry
      rcases List.mem_cons.mp hentry with rfl | hentry
      · exact ⟨rfl, h, hle⟩
      · obtain ⟨hjob, hafter, hbefore⟩ := hentries entry hentry
        exact ⟨hjob, Nat.le_trans h hafter, hbefore⟩
    · intro entry hentry
      exact (hentries entry hentry).2.1

/-- What a visit leaves of a run is the same run, which has started. -/
structure Continues (run run' : Run A) : Prop where
  id : run'.id = run.id
  body : run'.body = run.body
  epoch : run'.epoch = run.epoch
  attempt : run'.attempt = run.attempt
  started : run'.resume.isNow = false

theorem Visit.entries {run : Run A} {t t' : Instant} {reached : List StepReached}
    {after : Option (Run A)} (h : Visit run t reached after t') :
    t ≤ t' ∧ (∀ entry ∈ reached, entry.job = run.id ∧ t ≤ entry.clock ∧ entry.clock ≤ t') ∧
      reached.Pairwise (fun a b => a.clock ≤ b.clock) ∧ ∀ run' ∈ after, Continues run run' := by
  cases h with
  | early hresume _ h h' =>
    refine ⟨Nat.le_trans h h', by simp, .nil, fun run' hrun' => ?_⟩
    obtain rfl := Option.mem_some_iff.mp hrun'
    exact ⟨rfl, rfl, rfl, rfl, by rw [hresume]; rfl⟩
  | never hresume h =>
    refine ⟨h, by simp, .nil, fun run' hrun' => ?_⟩
    obtain rfl := Option.mem_some_iff.mp hrun'
    exact ⟨rfl, rfl, rfl, rfl, by rw [hresume]; rfl⟩
  | advanced h _ hstretch hafter =>
    obtain ⟨hle, hentries, hsorted, hresume⟩ := hstretch.entries
    refine ⟨Nat.le_trans h hle, fun entry hentry => ?_, hsorted, fun run' hrun' => ?_⟩
    · obtain ⟨hjob, hafter, hbefore⟩ := hentries entry hentry
      exact ⟨hjob, Nat.le_trans h hafter, hbefore⟩
    · rw [hafter] at hrun'
      obtain ⟨resume, hsome, rfl⟩ := Option.map_eq_some_iff.mp (Option.mem_def.mp hrun')
      exact ⟨rfl, rfl, rfl, rfl, hresume resume hsome⟩

theorem Visits.entries {runs left : List (Run A)} {t t' : Instant} {reached : List StepReached}
    (h : Visits runs t reached left t') :
    t ≤ t' ∧ (∀ entry ∈ reached, (∃ run ∈ runs, entry.job = run.id) ∧ t ≤ entry.clock ∧
        entry.clock ≤ t') ∧
      reached.Pairwise (fun a b => a.clock ≤ b.clock) ∧
      (∀ run' ∈ left, ∃ run ∈ runs, Continues run run') ∧
      (left.map Run.id).Sublist (runs.map Run.id) := by
  induction h with
  | nil h => exact ⟨h, by simp, .nil, by simp, .slnil⟩
  | @cons run rest left t₁ t₂ t₃ reached reached' after hvisit _ ih =>
    obtain ⟨hle, hentries, hsorted, hafter⟩ := hvisit.entries
    obtain ⟨hle', hentries', hsorted', hleft, hids⟩ := ih
    refine ⟨Nat.le_trans hle hle', ?_, List.pairwise_append.mpr ⟨hsorted, hsorted', ?_⟩, ?_, ?_⟩
    · intro entry hentry
      rcases List.mem_append.mp hentry with hentry | hentry
      · obtain ⟨hjob, hfrom, hto⟩ := hentries entry hentry
        exact ⟨⟨run, List.mem_cons_self, hjob⟩, hfrom, Nat.le_trans hto hle'⟩
      · obtain ⟨⟨other, hother, hjob⟩, hfrom, hto⟩ := hentries' entry hentry
        exact ⟨⟨other, List.mem_cons_of_mem _ hother, hjob⟩, Nat.le_trans hle hfrom, hto⟩
    · intro a ha b hb
      exact Nat.le_trans (hentries a ha).2.2 (hentries' b hb).2.1
    · intro run' hrun'
      rcases List.mem_append.mp hrun' with hrun' | hrun'
      · exact ⟨run, List.mem_cons_self, hafter run' (Option.mem_toList.mp hrun')⟩
      · obtain ⟨other, hother, hcontinues⟩ := hleft run' hrun'
        exact ⟨other, List.mem_cons_of_mem _ hother, hcontinues⟩
    · rw [List.map_append, List.map_cons]
      cases after with
      | none => exact hids.cons run.id
      | some run' =>
        have hid : run'.id = run.id := (hafter run' rfl).id
        show (run'.id :: left.map Run.id).Sublist _
        rw [hid]
        exact hids.cons_cons run.id

/-- The part of a history that is `job`'s. -/
def ofJob (job : Nat) (history : List StepReached) : List StepReached :=
  history.filter fun entry => entry.job == job

/-- The run of `job`, if it is not over. -/
def runOf (job : Nat) (runs : List (Run A)) : Option (Run A) := runs.find? fun run => run.id == job

theorem ofJob_append (job : Nat) (history history' : List StepReached) :
    ofJob job (history ++ history') = ofJob job history ++ ofJob job history' :=
  List.filter_append ..

theorem ofJob_eq_nil {job : Nat} {history : List StepReached}
    (h : ∀ entry ∈ history, entry.job ≠ job) :
    ofJob job history = [] :=
  List.filter_eq_nil_iff.mpr fun entry hentry => by simpa using h entry hentry

theorem runOf_eq_none {job : Nat} {runs : List (Run A)} (h : ∀ run ∈ runs, run.id ≠ job) :
    runOf job runs = none :=
  List.find?_eq_none.mpr fun run hrun => by simpa using h run hrun

theorem runOf_cons_self {run : Run A} {job : Nat} (h : run.id = job) (runs : List (Run A)) :
    runOf job (run :: runs) = some run :=
  List.find?_cons_of_pos (by simpa using h)

theorem runOf_cons_other {run : Run A} {job : Nat} (h : run.id ≠ job) (runs : List (Run A)) :
    runOf job (run :: runs) = runOf job runs :=
  List.find?_cons_of_neg (by simpa using h)

theorem runOf_append {job : Nat} (runs runs' : List (Run A)) :
    runOf job (runs ++ runs') = (runOf job runs).or (runOf job runs') :=
  List.find?_append

/-- **In a round each macro has a visit of its own**, or none if its run is over. -/
theorem Visits.job {runs left : List (Run A)} {t t' : Instant} {reached : List StepReached}
    (h : Visits runs t reached left t') (hids : runs.Pairwise fun a b => a.id < b.id) (job : Nat) :
    runOf job runs = none ∧ ofJob job reached = [] ∧ runOf job left = none ∨
      ∃ run t₁ t₂, runOf job runs = some run ∧
        Visit run t₁ (ofJob job reached) (runOf job left) t₂ := by
  induction h with
  | nil h => exact .inl ⟨rfl, rfl, rfl⟩
  | @cons run rest left t₁ t₂ t₃ reached reached' after hvisit hrest ih =>
    obtain ⟨hfirst, hids⟩ := List.pairwise_cons.mp hids
    obtain ⟨-, hentries, -, hafter⟩ := hvisit.entries
    obtain ⟨-, hentries', -, hleft, -⟩ := hrest.entries
    by_cases hjob : run.id = job
    · -- No other run has its number.
      have hothers : ∀ run' ∈ left, run'.id ≠ job := by
        intro run' hrun' hid
        obtain ⟨other, hother, hcontinues⟩ := hleft run' hrun'
        have := hfirst other hother
        rw [← hcontinues.id, hid, hjob] at this
        exact absurd this (Nat.lt_irrefl _)
      have hnone : ofJob job reached' = [] := by
        refine ofJob_eq_nil fun entry hentry hid => ?_
        obtain ⟨⟨other, hother, hentryJob⟩, -, -⟩ := hentries' entry hentry
        have := hfirst other hother
        omega
      have hall : ofJob job reached = reached :=
        List.filter_eq_self.mpr fun entry hentry => by
          rw [(hentries entry hentry).1, hjob]
          exact beq_self_eq_true job
      have hlast : runOf job (after.toList ++ left) = after := by
        cases after with
        | none => exact runOf_eq_none hothers
        | some run' =>
          have hid : run'.id = job := ((hafter run' rfl).id).trans hjob
          exact runOf_cons_self hid left
      refine .inr ⟨run, t₁, t₂, runOf_cons_self hjob rest, ?_⟩
      rw [ofJob_append, hall, hnone, List.append_nil, hlast]
      exact hvisit
    · -- The visit of the first run is another macro's, so the rest of the round decides.
      have hnone : ofJob job reached = [] := by
        refine ofJob_eq_nil fun entry hentry hid => hjob ?_
        rw [← (hentries entry hentry).1]
        exact hid
      have hlefts : runOf job (after.toList ++ left) = runOf job left := by
        cases after with
        | none => rfl
        | some run' =>
          have hid : run'.id ≠ job := by
            rw [(hafter run' rfl).id]
            exact hjob
          exact runOf_cons_other hid left
      rw [runOf_cons_other hjob, hlefts, ofJob_append, hnone, List.nil_append]
      exact ih hids

end OneRound

/-! ## Every run -/

/-- The steps that a call reaches; a macro that is started reaches its first in a poll. -/
def Loop.reached (s : Loop W S A) : Call W S A → List StepReached
  | .start _ _ _ _ => []
  | .poll ctx => s.runs.pollReached ctx

/-- The steps that are reached in a run of calls. -/
def history (s : Loop W S A) (cs : List (Call W S A)) : List StepReached :=
  ((calls W S A).trace s cs).flatMap fun x => x.before.reached x.input

/-- The macros that were started, by the numbers of their jobs. -/
def macros (cs : List (Call W S A)) : List (List SequenceStep) :=
  cs.filterMap fun
    | .start _ (.sequence steps) _ _ => some steps
    | _ => none

/-- A start of a macro without a Paste step, or a poll, in an epoch that stays live. -/
def MacroCall (clock : W → Instant) (epoch : Nat) (session : S) : Call W S A → Prop
  | .start ctx action _ firedIn => OneEpoch clock epoch session ctx ∧ firedIn = epoch ∧
    ∃ steps, action = .sequence steps ∧ ∀ spec, SequenceStep.paste spec ∉ steps
  | .poll ctx => OneEpoch clock epoch session ctx

/-- What a poll does with the runs. -/
structure PollRound (clock : W → Instant) (ctx : Ctx W S A)
    (x : Moment (Loop W S A) (Call W S A) Unit) : Prop where
  /-- Older runs stand first. -/
  oldestFirst : x.before.runs.active.Pairwise fun a b => a.id < b.id
  /-- Each is visited once, in this order, and goes on for one stretch at most. -/
  visits : Visits x.before.runs.active (clock x.before.runs.world)
    (x.before.runs.pollReached ctx) x.after.runs.active (clock x.after.runs.world)
  /-- The runner gets the steps that are reached, and no others. -/
  gave : Gave ctx (x.before.runs.pollReached ctx) x.before.runs x.after.runs
  /-- Every run that is left has started, and the next poll is due at the earliest deadline. -/
  started : ∀ run ∈ x.after.runs.active, run.resume.isNow = false
  next : Earliest x.after.runs.active (x.after.runs.next ctx)

/-- Between two calls: the macros started and the steps reached so far. -/
structure Walks (clock : W → Instant) (epoch : Nat) (session : S)
    (started : List (List SequenceStep)) (s : Loop W S A) (reached : List StepReached) : Prop where
  submitted : s.submitted = started.length
  held : s.runs.held = []
  session : s.runs.session = session
  oldestFirst : s.runs.active.Pairwise fun a b => a.id < b.id
  known : ∀ run ∈ s.runs.active, IsMacro epoch run ∧ started[run.id]? = some run.body.walked
  jobs : ∀ entry ∈ reached, entry.job < started.length ∧ entry.clock ≤ clock s.runs.world
  sorted : reached.Pairwise fun a b => a.clock ≤ b.clock
  walks : ∀ (job : Nat) (steps : List SequenceStep), started[job]? = some steps →
    Walk steps (ofJob job reached) (runOf job s.runs.active)

section EveryRun

variable {clock : W → Instant} {epoch : Nat} {session : S} {started : List (List SequenceStep)}
  {s : Loop W S A} {reached : List StepReached} {ctx : Ctx W S A}

theorem walks_new (clock : W → Instant) (epoch : Nat) (session : S) (world : W) :
    Walks clock epoch session [] (Loop.new session world : Loop W S A) [] where
  submitted := rfl
  held := rfl
  session := rfl
  oldestFirst := .nil
  known := by simp [Loop.new, Runs.new]
  jobs := by simp
  sorted := .nil
  walks := by simp

/-- A macro that is started is a run that has not begun. -/
theorem start_sequence (h : OneEpoch clock epoch session ctx) {steps : List SequenceStep}
    (target : TargetWindow) (hwaits : s.runs.attemptWaits = false) :
    s.start ctx (.sequence steps) target epoch =
      ⟨{ (s.runs.isLive ctx epoch).2 with
          active := s.runs.active ++
            [⟨s.submitted, .sequence steps, 0, target, epoch, .now, none⟩] },
        s.submitted + 1⟩ := by
  have hlive : (s.runs.isLive ctx epoch).1 = true := h.live _
  have hwaits' : (s.runs.isLive ctx epoch).2.attemptWaits = false := hwaits
  unfold Loop.start Runs.start
  dsimp only
  rw [hlive, hwaits']
  rfl

/-- **A start adds one macro**, which has reached nothing. -/
theorem Walks.start (hs : Walks clock epoch session started s reached)
    (h : OneEpoch clock epoch session ctx) {steps : List SequenceStep}
    (hpaste : ∀ spec, SequenceStep.paste spec ∉ steps) (target : TargetWindow) :
    Walks clock epoch session (started ++ [steps])
      (s.start ctx (.sequence steps) target epoch) reached := by
  have hwaits : s.runs.attemptWaits = false := by
    unfold Runs.attemptWaits
    rw [List.any_eq_false]
    intro run hrun
    rw [(hs.known run hrun).1.attempt]
    exact Bool.false_ne_true
  have hlt : ∀ run ∈ s.runs.active, run.id < s.submitted := by
    intro run hrun
    rw [hs.submitted]
    exact (List.getElem?_eq_some_iff.mp (hs.known run hrun).2).1
  -- The new run stands after the others, with the number of the next job.
  rw [start_sequence h target hwaits]
  refine ⟨?_, hs.held, hs.session, ?_, ?_, ?_, hs.sorted, ?_⟩
  · rw [List.length_append, hs.submitted]
    rfl
  · refine List.pairwise_append.mpr ⟨hs.oldestFirst, List.pairwise_singleton _ _, ?_⟩
    intro run hrun fresh hfresh
    rw [List.mem_singleton.mp hfresh]
    exact hlt run hrun
  · intro run hrun
    rcases List.mem_append.mp hrun with hrun | hrun
    · obtain ⟨hkind, hsteps⟩ := hs.known run hrun
      exact ⟨hkind, getElem?_snoc.mpr (.inl hsteps)⟩
    · rw [List.mem_singleton.mp hrun]
      exact ⟨⟨rfl, rfl, hpaste⟩, getElem?_snoc.mpr (.inr ⟨hs.submitted, rfl⟩)⟩
  · intro entry hentry
    obtain ⟨hjob, hclock⟩ := hs.jobs entry hentry
    rw [List.length_append]
    exact ⟨Nat.lt_add_right _ hjob, Nat.le_trans hclock (h.drift _)⟩
  · intro job steps' hjob
    rcases getElem?_snoc.mp hjob with hold | ⟨rfl, rfl⟩
    · -- A macro started before has another number, and its run is found as before.
      have hne : s.submitted ≠ job := by
        have := (List.getElem?_eq_some_iff.mp hold).1
        have := hs.submitted
        omega
      rw [runOf_append, runOf_cons_other hne]
      show Walk _ _ ((runOf job s.runs.active).or none)
      rw [Option.or_none]
      exact hs.walks job steps' hold
    · -- No step of the new macro is reached yet.
      have hnone : ofJob started.length reached = [] :=
        ofJob_eq_nil fun entry hentry => Nat.ne_of_lt (hs.jobs entry hentry).1
      have hrun : runOf started.length (s.runs.active ++
          [(⟨s.submitted, .sequence steps, 0, target, epoch, .now, none⟩ : Run A)]) =
          some ⟨s.submitted, .sequence steps, 0, target, epoch, .now, none⟩ := by
        have hold : runOf started.length s.runs.active = none :=
          runOf_eq_none fun run hrun => by
            have := hlt run hrun
            have := hs.submitted
            omega
        rw [runOf_append, hold, Option.none_or]
        exact runOf_cons_self hs.submitted []
      rw [hnone, hrun]
      refine ⟨⟨by simp, by simp, by simp⟩, fun h => absurd h (by simp), fun r hr => ?_⟩
      obtain rfl := Option.some.inj hr
      exact ⟨rfl, by simp, .inl ⟨rfl, rfl⟩⟩

/-- **A poll is a round, and carries every macro on.** -/
theorem Walks.poll (hs : Walks clock epoch session started s reached)
    (h : OneEpoch clock epoch session ctx) :
    Walks clock epoch session started (s.poll ctx) (reached ++ s.runs.pollReached ctx) ∧
      PollRound clock ctx ⟨s, .poll ctx, (), s.poll ctx⟩ := by
  obtain ⟨left, hleft, hvisits, hgave⟩ :=
    poll_round h hs.held hs.session fun run hrun => (hs.known run hrun).1
  rw [List.nil_append] at hleft
  rw [← hleft] at hvisits
  obtain ⟨hle, hentries, hsorted, hcontinues, hids⟩ := hvisits.entries
  have hsession : (s.runs.poll ctx).session = session := hgave.session.trans hs.session
  refine ⟨⟨hs.submitted, hgave.held.trans hs.held, hsession, ?_, ?_, ?_, ?_, ?_⟩,
    ⟨hs.oldestFirst, hvisits, hgave, ?_, next_earliest h hsession⟩⟩
  · have hbefore : (s.runs.active.map Run.id).Pairwise (· < ·) :=
      List.pairwise_map.mpr hs.oldestFirst
    exact List.pairwise_map.mp (hbefore.sublist hids)
  · intro run' hrun'
    obtain ⟨run, hrun, hsame⟩ := hcontinues run' hrun'
    obtain ⟨hkind, hsteps⟩ := hs.known run hrun
    refine ⟨⟨hsame.epoch.trans hkind.epoch, hsame.attempt.trans hkind.attempt, ?_⟩, ?_⟩
    · rw [hsame.body]
      exact hkind.noPaste
    · rw [hsame.id, hsame.body]
      exact hsteps
  · intro entry hentry
    rcases List.mem_append.mp hentry with hentry | hentry
    · obtain ⟨hjob, hclock⟩ := hs.jobs entry hentry
      exact ⟨hjob, Nat.le_trans hclock hle⟩
    · obtain ⟨⟨run, hrun, hjob⟩, -, hclock⟩ := hentries entry hentry
      rw [hjob]
      exact ⟨(List.getElem?_eq_some_iff.mp (hs.known run hrun).2).1, hclock⟩
  · refine List.pairwise_append.mpr ⟨hs.sorted, hsorted, fun a ha b hb => ?_⟩
    exact Nat.le_trans (hs.jobs a ha).2 (hentries b hb).2.1
  · -- A macro whose run is over stays as it is; the visit of another carries it on.
    intro job steps hjob
    have hwalk := hs.walks job steps hjob
    rw [ofJob_append]
    rcases hvisits.job hs.oldestFirst job with ⟨hrun, hnone, hlater⟩ | ⟨run, t₁, t₂, hrun, hvisit⟩
    · show Walk steps _ (runOf job (s.runs.poll ctx).active)
      rw [hnone, List.append_nil, hlater, ← hrun]
      exact hwalk
    · rw [hrun] at hwalk
      have hmem : run ∈ s.runs.active := List.mem_of_find?_eq_some hrun
      have hid : run.id = job := by simpa using List.find?_some hrun
      refine hwalk.visit ?_ hvisit
      have hsteps := (hs.known run hmem).2
      rw [hid, hjob] at hsteps
      exact (Option.some.inj hsteps).symm
  · intro run' hrun'
    obtain ⟨run, -, hsame⟩ := hcontinues run' hrun'
    exact hsame.started

/-- The steps reached and the macros started, over one more call. -/
theorem history_snoc (s : Loop W S A) (cs : List (Call W S A)) (c : Call W S A) :
    history s (cs ++ [c]) = history s cs ++ ((calls W S A).run s cs).reached c := by
  unfold history
  rw [Machine.trace_append, List.flatMap_append]
  exact congrArg (_ ++ ·) (List.append_nil _)

theorem macros_snoc (cs : List (Call W S A)) (c : Call W S A) :
    macros (cs ++ [c]) = macros cs ++ macros [c] := List.filterMap_append ..

/-- **Every macro is walked from its first step, in order and each step once, to its end or
its first panic**, whatever the other macros do, however long the runner's calls take, and
whenever polls come. No step after a `Delay` is early, a poll advances each run by at most one
stretch, older runs first, and asks to be woken at the earliest deadline. -/
theorem macro_walk (clock : W → Instant) (epoch : Nat) (session : S) (world : W)
    (cs : List (Call W S A)) (h : ∀ c ∈ cs, MacroCall clock epoch session c) :
    let s := Loop.new session world
    (∀ (job : Nat) (steps : List SequenceStep), (macros cs)[job]? = some steps →
        Walk steps (ofJob job (history s cs))
          (runOf job ((calls W S A).run s cs).runs.active)) ∧
      (∀ entry ∈ history s cs, entry.job < (macros cs).length) ∧
      (history s cs).Pairwise (fun a b => a.clock ≤ b.clock) ∧
      ∀ x ∈ (calls W S A).trace s cs, ∀ ctx, x.input = .poll ctx → PollRound clock ctx x := by
  intro s
  -- By induction on the calls from the first: the last one starts a macro or polls.
  have hall : Walks clock epoch session (macros cs) ((calls W S A).run s cs) (history s cs) ∧
      ∀ x ∈ (calls W S A).trace s cs, ∀ ctx, x.input = .poll ctx → PollRound clock ctx x := by
    induction cs using List.reverseRecOn with
    | nil => exact ⟨walks_new clock epoch session world, fun x hx => absurd hx List.not_mem_nil⟩
    | append_singleton cs c ih =>
      obtain ⟨hwalks, hrounds⟩ := ih fun c hc => h c (List.mem_append_left _ hc)
      have hc := h c (List.mem_append_right _ (List.mem_singleton_self c))
      rw [Machine.run_append, history_snoc, macros_snoc, Machine.trace_append]
      generalize (calls W S A).run s cs = before at hwalks ⊢
      cases c with
      | start ctx action target firedIn =>
        obtain ⟨hone, rfl, steps, rfl, hpaste⟩ := hc
        refine ⟨?_, fun x hx ctx' hinput => ?_⟩
        · show Walks clock firedIn session (macros cs ++ [steps]) _ (history s cs ++ [])
          rw [List.append_nil]
          exact hwalks.start hone hpaste target
        · rcases List.mem_append.mp hx with hx | hx
          · exact hrounds x hx ctx' hinput
          · obtain rfl := List.mem_singleton.mp hx
            exact absurd hinput (by simp)
      | poll ctx =>
        obtain ⟨hlater, hround⟩ := hwalks.poll hc
        refine ⟨?_, fun x hx ctx' hinput => ?_⟩
        · show Walks clock epoch session (macros cs ++ []) _ _
          rw [List.append_nil]
          exact hlater
        · rcases List.mem_append.mp hx with hx | hx
          · exact hrounds x hx ctx' hinput
          · obtain rfl := List.mem_singleton.mp hx
            obtain rfl := Call.poll.inj hinput
            exact hround
  obtain ⟨hwalks, hrounds⟩ := hall
  exact ⟨hwalks.walks, fun entry hentry => (hwalks.jobs entry hentry).1, hwalks.sorted, hrounds⟩

end EveryRun

/-- A world that is a clock: a text takes 5 ms to type, a media key panics. -/
def clockCtx : Ctx Instant Unit Unit where
  action _ w := (w, false)
  step step _ w := (w + fromMillis 5, step matches .media _)
  session :=
    { attempt := fun _ _ _ _ w => ((), w, .panicked)
      tick := fun _ _ w => ((), w, some false)
      restoreIfDue := fun _ _ w => ((), w, some false)
      giveUp := fun _ w => ((), w)
      restoreNow := fun _ w => ((), w)
      isPending := fun _ => false
      next := fun _ => none }
  live _ _ := true
  now w := w
  drift w := w + fromMillis 1

/-- Two macros; the second panics in its second stretch. -/
def twoMacros : List (Call Instant Unit Unit) :=
  [.start clockCtx (.sequence [.typeText "a", .delay 20, .typeText "b"]) 0 0,
    .start clockCtx (.sequence [.delay 1, .media .stop, .typeText "c"]) 0 0] ++
    List.replicate 9 (.poll clockCtx)

theorem macro_walk_two :
    (history (Loop.new () 0) twoMacros).map (fun entry => (entry.job, entry.index)) =
        [(0, 0), (0, 1), (1, 0), (1, 1), (0, 2)] ∧
      Walk [.delay 1, .media .stop, .typeText "c"] (ofJob 1 (history (Loop.new () 0) twoMacros))
        (runOf 1 ((calls Instant Unit Unit).run (Loop.new () 0) twoMacros).runs.active) := by
  have hone : OneEpoch id 0 () clockCtx :=
    ⟨fun _ => rfl, fun w => Nat.le_add_right w _, fun _ _ w => Nat.le_add_right w _,
      fun _ => rfl, rfl, rfl⟩
  have hcalls : ∀ c ∈ twoMacros, MacroCall id 0 () c := by
    intro c hc
    rcases List.mem_append.mp hc with hc | hc
    · simp only [List.mem_cons, List.not_mem_nil, or_false] at hc
      rcases hc with rfl | rfl
      · exact ⟨hone, rfl, _, rfl, by simp⟩
      · exact ⟨hone, rfl, _, rfl, by simp⟩
    · rw [List.eq_of_mem_replicate hc]
      exact hone
  exact ⟨by decide +kernel, (macro_walk id 0 () 0 twoMacros hcalls).1 1 _ rfl⟩

end KeySwitch.Executor
