import KeySwitch.Executor.Loop

/-!
# The steps of macros, one poll at a time

`StepReached` is a step that a run reaches: one it gives to the runner, or a `Delay` that it
waits for from there on. `pollReached` tells the steps that a poll reaches, by the recursion
of the poll itself; the daemon keeps no such list.

A `Stretch` is what one advance does: the steps from where the run stands, one after the
other, up to its next `Delay`, a step that panicked, or its end. A `Visit` is what a poll does
with one run, and `Visits` with all of them, oldest first, each visited once. A poll of macros
without Paste steps is such a round of visits (`poll_rounds`), as long as the epoch lives, and
the runner gets the steps that the round reaches and no others.
-/

namespace KeySwitch.Executor

open Data

variable {W S A : Type}

/-! ## The steps a poll reaches -/

/-- Whether a run gives the step to its runner. -/
def givesStep : SequenceStep → Bool
  | .delay _ | .paste _ => false
  | _ => true

/-- A step a run reached. -/
structure StepReached where
  job : Nat
  /-- The index of the step in its macro. -/
  index : Nat
  step : SequenceStep
  /-- When the step is begun; of a `Delay`, the time its deadline is counted from. -/
  clock : Instant
  panicked : Bool

/-- The steps of `reached` that the runner got. -/
def given (reached : List StepReached) : List SequenceStep :=
  (reached.map StepReached.step).filter givesStep

namespace Run

/-- The steps that `walk` reaches. -/
def walkReached (ctx : Ctx W S A) (head : Option Instant) :
    List SequenceStep → Run A → Runs W S A → List StepReached
  | steps, run, r =>
    let live := r.isLive ctx run.epoch
    let r := live.2
    if !live.1 then []
    else
      match steps with
      | [] => []
      | .paste spec :: rest =>
        match head with
        | some _ => []
        | none =>
          let made := r.tryPaste ctx run.epoch run.attempt spec
          match made.1 with
          | .done =>
            walkReached ctx head rest { run with next := run.next + 1, attempt := none } made.2
          | _ => []
      | .delay ms :: _ => [⟨run.id, run.next, .delay ms, (r.readNow ctx).1, false⟩]
      | step :: rest =>
        let made := r.runStep ctx run.epoch step run.target
        ⟨run.id, run.next, step, ctx.now r.world, made.1⟩ ::
          if made.1 then []
          else walkReached ctx head rest { run with next := run.next + 1 } made.2

def advanceReached (ctx : Ctx W S A) (head : Option Instant) (run : Run A) (r : Runs W S A) :
    List StepReached :=
  run.walkReached ctx head (run.body.walked.drop run.next)
    (if run.resume.isNow then r.record (.began run.id) else r)

end Run

namespace Runs

def advanceFromReached (ctx : Ctx W S A) :
    List (Run A) → List (Run A) → Runs W S A → List StepReached
  | _, [], _ => []
  | older, run :: rest, r =>
    let due := r.due ctx run
    if due.1 then
      let advanced := run.advance ctx (head older) due.2
      run.advanceReached ctx (head older) due.2 ++
        match advanced.1 with
        | some run => advanceFromReached ctx (older ++ [run]) rest advanced.2
        | none => advanceFromReached ctx older rest advanced.2
    else advanceFromReached ctx (older ++ [run]) rest due.2

def releaseHeldReached (ctx : Ctx W S A) : List Job → Runs W S A → List StepReached
  | [], _ => []
  | job :: rest, r =>
    if r.attemptWaits then []
    else
      let first := r.active.length
      let r := { r with held := rest }.begin ctx job
      advanceFromReached ctx (r.active.take first) (r.active.drop first) r ++
        releaseHeldReached ctx rest (advanceFrom ctx (r.active.take first) (r.active.drop first) r)

/-- The steps that `poll` reaches, in order. -/
def pollReached (ctx : Ctx W S A) (r : Runs W S A) : List StepReached :=
  let r := retainActive ctx r.active r
  let r := retainHeld ctx r.held r
  let r := r.sessionCall ctx ctx.session.tick
  let reached := advanceFromReached ctx [] r.active r
  let r := advanceFrom ctx [] r.active r
  reached ++ releaseHeldReached ctx r.held r

end Runs

/-! ## What a poll is for -/

/-- An advance from step `index` on, at a clock between `t` and `t'`: the steps it reaches, and
when the run goes on, if it does. -/
inductive Stretch (job : Nat) :
    Nat → List SequenceStep → Instant → List StepReached → Option Resume → Instant → Prop
  /-- Past the last step. -/
  | ended {index : Nat} {t t' : Instant} (h : t ≤ t') : Stretch job index [] t [] none t'
  | panicked {index : Nat} {step : SequenceStep} {rest : List SequenceStep} {t clock t' : Instant}
      (hstep : givesStep step = true) (h : t ≤ clock) (h' : clock ≤ t') :
    Stretch job index (step :: rest) t [⟨job, index, step, clock, true⟩] none t'
  | delayed {index ms : Nat} {rest : List SequenceStep} {t clock t' : Instant} (h : t ≤ clock)
      (h' : clock ≤ t') :
    Stretch job index (.delay ms :: rest) t [⟨job, index, .delay ms, clock, false⟩]
      (some (.afterDelay (checkedAdd clock (fromMillis ms)))) t'
  | step {index : Nat} {step : SequenceStep} {rest : List SequenceStep} {t clock t' : Instant}
      {reached : List StepReached} {resume : Option Resume} (hstep : givesStep step = true)
      (h : t ≤ clock) (hrest : Stretch job (index + 1) rest clock reached resume t') :
    Stretch job index (step :: rest) t (⟨job, index, step, clock, false⟩ :: reached) resume t'

/-- What a poll does with a run: the steps the run reaches, and the run if it is not over. -/
inductive Visit (run : Run A) : Instant → List StepReached → Option (Run A) → Instant → Prop
  /-- Its deadline is not reached. -/
  | early {deadline now t t' : Instant} (hresume : run.resume = .once deadline)
      (hearly : now < deadline) (h : t ≤ now) (h' : now ≤ t') : Visit run t [] (some run) t'
  /-- Its deadline is past what an `Instant` holds. -/
  | never {t t' : Instant} (hresume : run.resume = .whenCancelled) (h : t ≤ t') :
    Visit run t [] (some run) t'
  /-- It has not started or its deadline is reached, and it goes on for one stretch. -/
  | advanced {now t t' : Instant} {reached : List StepReached} {resume : Option Resume}
      {after : Option (Run A)} (h : t ≤ now)
      (hdue : run.resume = .now ∨ ∃ deadline, run.resume = .once deadline ∧ deadline ≤ now)
      (hstretch : Stretch run.id run.next (run.body.walked.drop run.next) now reached resume t')
      (hafter : after = resume.map fun resume =>
        { run with next := run.next + reached.length, resume := resume }) :
    Visit run t reached after t'

/-- Runs visited one after the other, each once: the steps they reach, and those that are
left. -/
inductive Visits : List (Run A) → Instant → List StepReached → List (Run A) → Instant → Prop
  | nil {t t' : Instant} (h : t ≤ t') : Visits [] t [] [] t'
  | cons {run : Run A} {rest left : List (Run A)} {t₁ t₂ t₃ : Instant}
      {reached reached' : List StepReached} {after : Option (Run A)}
      (hvisit : Visit run t₁ reached after t₂) (hrest : Visits rest t₂ reached' left t₃) :
    Visits (run :: rest) t₁ (reached ++ reached') (after.toList ++ left) t₃

/-- `next` is the earliest deadline of the runs, and idle if none has one. -/
def Earliest (runs : List (Run A)) : Next → Prop
  | .idle => ∀ run ∈ runs, run.resume.deadline = none
  | .once deadline => (∃ run ∈ runs, run.resume.deadline = some deadline) ∧
    ∀ run ∈ runs, ∀ other, run.resume.deadline = some other → deadline ≤ other

/-! ## The world of macros -/

/-- A `ctx` whose clock is `clock` and never goes back, and in which `epoch` stays live; the
paste session is idle. -/
structure OneEpoch (clock : W → Instant) (epoch : Nat) (session : S) (ctx : Ctx W S A) : Prop where
  now : ∀ w, ctx.now w = clock w
  drift : ∀ w, clock w ≤ clock (ctx.drift w)
  step : ∀ step target w, clock w ≤ clock (ctx.step step target w).1
  live : ∀ w, ctx.live w epoch = true
  notPending : ctx.session.isPending session = false
  noDeadline : ctx.session.next session = none

/-- A run of `epoch` without a Paste step. -/
structure IsMacro (epoch : Nat) (run : Run A) : Prop where
  epoch : run.epoch = epoch
  attempt : run.attempt = none
  noPaste : ∀ spec, SequenceStep.paste spec ∉ run.body.walked

/-- `record` is what the runner saw of the steps, in a world that keeps it. -/
structure Records (ctx : Ctx W S A) (record : W → List SequenceStep) : Prop where
  drift : ∀ w, record (ctx.drift w) = record w
  step : ∀ step target w, record (ctx.step step target w).1 = record w ++ [step]

/-- The runner got the steps of `reached` and no others, and nothing else changed. -/
structure Gave (ctx : Ctx W S A) (reached : List StepReached) (r r' : Runs W S A) : Prop where
  held : r'.held = r.held
  session : r'.session = r.session
  made : r'.calls.made = r.calls.made + (given reached).length
  panics : r'.calls.panics = r.calls.panics + reached.countP StepReached.panicked
  recorded : ∀ record, Records ctx record → record r'.world = record r.world ++ given reached

theorem given_append (reached reached' : List StepReached) :
    given (reached ++ reached') = given reached ++ given reached' := by
  unfold given
  rw [List.map_append, List.filter_append]

theorem given_cons {entry : StepReached} (h : givesStep entry.step = true)
    (reached : List StepReached) :
    given (entry :: reached) = entry.step :: given reached := by
  unfold given
  rw [List.map_cons, List.filter_cons_of_pos h]

section Gave

variable {ctx : Ctx W S A} {r r' r'' : Runs W S A} {reached reached' : List StepReached}

theorem gave_refl (ctx : Ctx W S A) (r : Runs W S A) : Gave ctx [] r r :=
  ⟨rfl, rfl, rfl, rfl, fun _ _ => (List.append_nil _).symm⟩

theorem gave_trans (h : Gave ctx reached r r') (h' : Gave ctx reached' r' r'') :
    Gave ctx (reached ++ reached') r r'' := by
  refine ⟨h'.held.trans h.held, h'.session.trans h.session, ?_, ?_, ?_⟩
  · rw [h'.made, h.made, given_append, List.length_append, Nat.add_assoc]
  · rw [h'.panics, h.panics, List.countP_append, Nat.add_assoc]
  · intro record hrecord
    rw [h'.recorded record hrecord, h.recorded record hrecord, given_append, List.append_assoc]

theorem isLive_gave (ctx : Ctx W S A) (epoch : Nat) (r : Runs W S A) :
    Gave ctx [] r (r.isLive ctx epoch).2 :=
  ⟨rfl, rfl, rfl, rfl, fun record hrecord => by
    rw [given, List.map_nil, List.filter_nil, List.append_nil]
    exact hrecord.drift r.world⟩

theorem readNow_gave (ctx : Ctx W S A) (r : Runs W S A) : Gave ctx [] r (r.readNow ctx).2 :=
  ⟨rfl, rfl, rfl, rfl, fun record hrecord => by
    rw [given, List.map_nil, List.filter_nil, List.append_nil]
    exact hrecord.drift r.world⟩

theorem runStep_gave (ctx : Ctx W S A) {entry : StepReached} (hstep : givesStep entry.step = true)
    (epoch : Nat) (target : TargetWindow) (r : Runs W S A)
    (hpanicked : entry.panicked = (r.runStep ctx epoch entry.step target).1) :
    Gave ctx [entry] r (r.runStep ctx epoch entry.step target).2 := by
  refine ⟨rfl, rfl, ?_, ?_, ?_⟩
  · rw [given_cons hstep]
    rfl
  · rw [List.countP_singleton, hpanicked]
    show r.calls.panics + (r.runStep ctx epoch entry.step target).1.toNat = _
    cases (r.runStep ctx epoch entry.step target).1 <;> rfl
  · intro record hrecord
    rw [given_cons hstep]
    exact hrecord.step entry.step target r.world

end Gave

/-! ## One stretch -/

section Walk

variable {clock : W → Instant} {epoch : Nat} {session : S} {ctx : Ctx W S A}

/-- A stretch may start earlier. -/
theorem Stretch.later {job index : Nat} {steps : List SequenceStep} {t₀ t t' : Instant}
    {reached : List StepReached} {resume : Option Resume}
    (h : Stretch job index steps t reached resume t') (hle : t₀ ≤ t) :
    Stretch job index steps t₀ reached resume t' := by
  cases h with
  | ended h => exact .ended (Nat.le_trans hle h)
  | panicked hstep h h' => exact .panicked hstep (Nat.le_trans hle h) h'
  | delayed h h' => exact .delayed (Nat.le_trans hle h) h'
  | step hstep h hrest => exact .step hstep (Nat.le_trans hle h) hrest

theorem Visit.later {run : Run A} {t₀ t t' : Instant} {reached : List StepReached}
    {after : Option (Run A)} (h : Visit run t reached after t') (hle : t₀ ≤ t) :
    Visit run t₀ reached after t' := by
  cases h with
  | early hresume hearly h h' => exact .early hresume hearly (Nat.le_trans hle h) h'
  | never hresume h => exact .never hresume (Nat.le_trans hle h)
  | advanced h hdue hstretch hafter => exact .advanced (Nat.le_trans hle h) hdue hstretch hafter

theorem Visits.later {runs left : List (Run A)} {t₀ t t' : Instant} {reached : List StepReached}
    (h : Visits runs t reached left t') (hle : t₀ ≤ t) : Visits runs t₀ reached left t' := by
  cases h with
  | nil h => exact .nil (Nat.le_trans hle h)
  | cons hvisit hrest => exact .cons (hvisit.later hle) hrest

/-- What a walk does with a step for the runner. -/
theorem walk_given {head : Option Instant} {step : SequenceStep} {rest : List SequenceStep}
    {run : Run A} {r : Runs W S A} (hlive : (r.isLive ctx run.epoch).1 = true)
    (hstep : givesStep step = true) :
    run.walk ctx head (step :: rest) r =
      let made := (r.isLive ctx run.epoch).2.runStep ctx run.epoch step run.target
      if made.1 then (none, made.2)
      else { run with next := run.next + 1 }.walk ctx head rest made.2 := by
  conv_lhs => unfold Run.walk
  dsimp only
  rw [hlive]
  cases step with
  | paste spec => exact absurd hstep Bool.false_ne_true
  | delay ms => exact absurd hstep Bool.false_ne_true
  | _ => rfl

theorem walkReached_given {head : Option Instant} {step : SequenceStep}
    {rest : List SequenceStep} {run : Run A} {r : Runs W S A}
    (hlive : (r.isLive ctx run.epoch).1 = true) (hstep : givesStep step = true) :
    run.walkReached ctx head (step :: rest) r =
      let made := (r.isLive ctx run.epoch).2.runStep ctx run.epoch step run.target
      ⟨run.id, run.next, step, ctx.now (r.isLive ctx run.epoch).2.world, made.1⟩ ::
        if made.1 then []
        else { run with next := run.next + 1 }.walkReached ctx head rest made.2 := by
  conv_lhs => unfold Run.walkReached
  dsimp only
  rw [hlive]
  cases step with
  | paste spec => exact absurd hstep Bool.false_ne_true
  | delay ms => exact absurd hstep Bool.false_ne_true
  | _ => rfl

/-- What a walk does with a Delay: the run waits, and nothing is given to the runner. -/
theorem walk_delay {head : Option Instant} {ms : Nat} {rest : List SequenceStep} {run : Run A}
    {r : Runs W S A} (hlive : (r.isLive ctx run.epoch).1 = true) :
    run.walk ctx head (.delay ms :: rest) r =
        (some { run with
          next := run.next + 1
          resume := .afterDelay (checkedAdd ((r.isLive ctx run.epoch).2.readNow ctx).1
            (fromMillis ms)) },
          ((r.isLive ctx run.epoch).2.readNow ctx).2) ∧
      run.walkReached ctx head (.delay ms :: rest) r =
        [⟨run.id, run.next, .delay ms, ((r.isLive ctx run.epoch).2.readNow ctx).1, false⟩] := by
  unfold Run.walk Run.walkReached
  dsimp only
  rw [hlive]
  exact ⟨rfl, rfl⟩

/-- A walk past the last step ends the run. -/
theorem walk_end {head : Option Instant} {run : Run A} {r : Runs W S A}
    (hlive : (r.isLive ctx run.epoch).1 = true) :
    run.walk ctx head [] r = (none, (r.isLive ctx run.epoch).2) ∧
      run.walkReached ctx head [] r = [] := by
  unfold Run.walk Run.walkReached
  dsimp only
  rw [hlive]
  exact ⟨rfl, rfl⟩

/-- **A walk over steps without a Paste is a stretch**, and its run goes on as the stretch
says. -/
theorem walk_stretch (h : OneEpoch clock epoch session ctx) (head : Option Instant)
    {steps : List SequenceStep} (hpaste : ∀ spec, SequenceStep.paste spec ∉ steps) :
    ∀ (run : Run A) (r : Runs W S A), run.epoch = epoch →
      ∃ resume, Stretch run.id run.next steps (clock r.world) (run.walkReached ctx head steps r)
          resume (clock (run.walk ctx head steps r).2.world) ∧
        (run.walk ctx head steps r).1 = (resume.map fun resume =>
          { run with
            next := run.next + (run.walkReached ctx head steps r).length, resume := resume }) ∧
        Gave ctx (run.walkReached ctx head steps r) r (run.walk ctx head steps r).2 := by
  induction steps with
  | nil =>
    intro run r hepoch
    have hlive : (r.isLive ctx run.epoch).1 = true := by
      rw [hepoch]
      exact h.live _
    -- The run is over after the check.
    rw [(walk_end hlive).1, (walk_end hlive).2]
    exact ⟨none, .ended (h.drift r.world), rfl, isLive_gave ctx run.epoch r⟩
  | cons step rest ih =>
    intro run r hepoch
    have hlive : (r.isLive ctx run.epoch).1 = true := by
      rw [hepoch]
      exact h.live _
    have hcheck := isLive_gave ctx run.epoch r
    have hclock : clock r.world ≤ clock (r.isLive ctx run.epoch).2.world := h.drift r.world
    by_cases hstep : givesStep step = true
    · -- The step is given to the runner.
      rw [walk_given hlive hstep, walkReached_given hlive hstep]
      generalize (r.isLive ctx run.epoch).2 = checked at hcheck hclock
      have hgave : Gave ctx [⟨run.id, run.next, step, clock checked.world,
          (checked.runStep ctx run.epoch step run.target).1⟩] checked
          (checked.runStep ctx run.epoch step run.target).2 :=
        runStep_gave ctx hstep run.epoch run.target checked rfl
      have hmade : clock checked.world ≤
          clock (checked.runStep ctx run.epoch step run.target).2.world :=
        h.step step run.target _
      dsimp only
      rw [h.now]
      generalize checked.runStep ctx run.epoch step run.target = made at hgave hmade
      have hgave := gave_trans hcheck hgave
      cases hpanicked : made.1 with
      | true =>
        rw [hpanicked] at hgave
        exact ⟨none, .panicked hstep hclock hmade, rfl, hgave⟩
      | false =>
        rw [hpanicked] at hgave
        have hrest : ∀ spec, SequenceStep.paste spec ∉ rest := fun spec hmem =>
          hpaste spec (List.mem_cons_of_mem _ hmem)
        obtain ⟨resume, hstretch, hrun, hmore⟩ :=
          ih hrest { run with next := run.next + 1 } made.2 hepoch
        refine ⟨resume, .step hstep hclock (hstretch.later hmade), ?_, gave_trans hgave hmore⟩
        refine hrun.trans ?_
        rw [if_neg Bool.false_ne_true, List.length_cons]
        cases resume with
        | none => rfl
        | some resume =>
          rw [Option.map_some, Option.map_some, Nat.add_right_comm, Nat.add_assoc]
    · cases step with
      | paste spec => exact absurd List.mem_cons_self (hpaste spec)
      | delay ms =>
        -- The run waits from the time read, which is not before the check.
        rw [(walk_delay hlive).1, (walk_delay hlive).2]
        generalize (r.isLive ctx run.epoch).2 = checked at hcheck hclock
        have hread : (checked.readNow ctx).1 = clock (checked.readNow ctx).2.world := h.now _
        have hlater : clock checked.world ≤ clock (checked.readNow ctx).2.world :=
          h.drift checked.world
        refine ⟨some (.afterDelay (checkedAdd (checked.readNow ctx).1 (fromMillis ms))),
          .delayed ?_ (Nat.le_of_eq hread), rfl, ?_⟩
        · rw [hread]
          exact Nat.le_trans hclock hlater
        · have hgave := gave_trans hcheck (readNow_gave ctx checked)
          exact ⟨hgave.held, hgave.session, hgave.made, hgave.panics, hgave.recorded⟩
      | _ => exact absurd rfl hstep

/-- One advance is a stretch. -/
theorem advance_stretch (h : OneEpoch clock epoch session ctx) (head : Option Instant)
    {run : Run A} (hrun : IsMacro epoch run) (r : Runs W S A) :
    ∃ resume, Stretch run.id run.next (run.body.walked.drop run.next) (clock r.world)
        (run.advanceReached ctx head r) resume (clock (run.advance ctx head r).2.world) ∧
      (run.advance ctx head r).1 = (resume.map fun resume =>
        { run with next := run.next + (run.advanceReached ctx head r).length, resume := resume }) ∧
      Gave ctx (run.advanceReached ctx head r) r (run.advance ctx head r).2 := by
  have hpaste : ∀ spec, SequenceStep.paste spec ∉ run.body.walked.drop run.next :=
    fun spec hmem => hrun.noPaste spec (List.mem_of_mem_drop hmem)
  unfold Run.advance Run.advanceReached
  cases run.resume.isNow with
  | true =>
    -- The first advance is written down, which changes the log alone.
    obtain ⟨resume, hstretch, hafter, hgave⟩ :=
      walk_stretch h head hpaste run (r.record (.began run.id)) hrun.epoch
    exact ⟨resume, hstretch, hafter,
      ⟨hgave.held, hgave.session, hgave.made, hgave.panics, hgave.recorded⟩⟩
  | false => exact walk_stretch h head hpaste run r hrun.epoch

/-! ## A round of visits -/

/-- A round of visits to `rest`, with `older` before them, that comes to `r'`. -/
def Round (ctx : Ctx W S A) (clock : W → Instant) (older rest : List (Run A))
    (reached : List StepReached) (r r' : Runs W S A) : Prop :=
  ∃ left, r'.active = older ++ left ∧
    Visits rest (clock r.world) reached left (clock r'.world) ∧ Gave ctx reached r r'

/-- A visit before a round. -/
theorem Round.cons {older rest : List (Run A)} {run : Run A} {after : Option (Run A)}
    {reached reached' : List StepReached} {r r' r'' : Runs W S A}
    (hvisit : Visit run (clock r.world) reached after (clock r'.world))
    (hgave : Gave ctx reached r r')
    (hrest : Round ctx clock (older ++ after.toList) rest reached' r' r'') :
    Round ctx clock older (run :: rest) (reached ++ reached') r r'' := by
  obtain ⟨left, hactive, hvisits, hmore⟩ := hrest
  refine ⟨after.toList ++ left, ?_, .cons hvisit hvisits, gave_trans hgave hmore⟩
  rw [hactive, List.append_assoc]

/-- **The runs are advanced in one round of visits.** -/
theorem advanceFrom_round (h : OneEpoch clock epoch session ctx) (rest : List (Run A)) :
    ∀ (older : List (Run A)) (r : Runs W S A), (∀ run ∈ rest, IsMacro epoch run) →
      Round ctx clock older rest (Runs.advanceFromReached ctx older rest r) r
        (Runs.advanceFrom ctx older rest r) := by
  induction rest with
  | nil =>
    intro older r _
    exact ⟨[], (List.append_nil older).symm, .nil (Nat.le_refl _),
      ⟨rfl, rfl, rfl, rfl, fun _ _ => (List.append_nil _).symm⟩⟩
  | cons run rest ih =>
    intro older r hmacros
    obtain ⟨hrun, hrest⟩ := List.forall_mem_cons.mp hmacros
    -- A due run goes on from `r'`.
    have hdue : ∀ r' : Runs W S A, r.due ctx run = (true, r') → Gave ctx [] r r' →
        clock r.world ≤ clock r'.world →
        (run.resume = .now ∨ ∃ deadline, run.resume = .once deadline ∧
          deadline ≤ clock r'.world) →
        Round ctx clock older (run :: rest) (Runs.advanceFromReached ctx older (run :: rest) r) r
          (Runs.advanceFrom ctx older (run :: rest) r) := by
      intro r' hr' hgave hle hresume
      obtain ⟨resume, hstretch, hafter, hmore⟩ :=
        advance_stretch h (Runs.head older) hrun r'
      have hvisit := Visit.advanced hle hresume hstretch hafter
      have hgave := gave_trans hgave hmore
      unfold Runs.advanceFrom Runs.advanceFromReached
      dsimp only
      rw [hr']
      dsimp only
      rw [if_pos rfl, if_pos rfl]
      cases hadvanced : (run.advance ctx (Runs.head older) r').1 with
      | none =>
        rw [hadvanced] at hvisit
        refine Round.cons hvisit hgave ?_
        rw [Option.toList_none, List.append_nil]
        exact ih older _ hrest
      | some after =>
        rw [hadvanced] at hvisit
        exact Round.cons hvisit hgave (ih (older ++ [after]) _ hrest)
    -- A run that waits is passed over.
    have hwaits : ∀ r' : Runs W S A, r.due ctx run = (false, r') → Gave ctx [] r r' →
        Visit run (clock r.world) [] (some run) (clock r'.world) →
        Round ctx clock older (run :: rest) (Runs.advanceFromReached ctx older (run :: rest) r) r
          (Runs.advanceFrom ctx older (run :: rest) r) := by
      intro r' hr' hgave hvisit
      unfold Runs.advanceFrom Runs.advanceFromReached
      dsimp only
      rw [hr']
      dsimp only
      rw [if_neg Bool.false_ne_true, if_neg Bool.false_ne_true]
      exact Round.cons hvisit hgave (ih (older ++ [run]) r' hrest)
    cases hresume : run.resume with
    | now =>
      refine hdue r ?_ (gave_refl ctx r) (Nat.le_refl _) (.inl hresume)
      unfold Runs.due
      rw [hresume]
    | whenCancelled =>
      refine hwaits r ?_ (gave_refl ctx r) (.never hresume (Nat.le_refl _))
      unfold Runs.due
      rw [hresume]
    | once deadline =>
      have hread : (r.readNow ctx).1 = clock (r.readNow ctx).2.world := h.now _
      have hlater : clock r.world ≤ clock (r.readNow ctx).2.world := h.drift r.world
      have hduer : r.due ctx run =
          (decide (deadline ≤ clock (r.readNow ctx).2.world), (r.readNow ctx).2) := by
        unfold Runs.due
        rw [hresume]
        dsimp only
        rw [hread]
      by_cases hreached : deadline ≤ clock (r.readNow ctx).2.world
      · rw [decide_eq_true hreached] at hduer
        exact hdue _ hduer (readNow_gave ctx r) hlater (.inr ⟨deadline, hresume, hreached⟩)
      · rw [decide_eq_false hreached] at hduer
        exact hwaits _ hduer (readNow_gave ctx r)
          (.early hresume (Nat.lt_of_not_le hreached) hlater (Nat.le_refl _))

/-! ## A poll -/

/-- With its epoch live every run stays. -/
theorem retainActive_live (h : OneEpoch clock epoch session ctx) {active : List (Run A)}
    (hruns : ∀ run ∈ active, run.epoch = epoch) :
    ∀ r : Runs W S A, (Runs.retainActive ctx active r).active = active ∧
      clock r.world ≤ clock (Runs.retainActive ctx active r).world ∧
      Gave ctx [] r (Runs.retainActive ctx active r) := by
  induction active with
  | nil =>
    intro r
    exact ⟨rfl, Nat.le_refl _, rfl, rfl, rfl, rfl, fun _ _ => (List.append_nil _).symm⟩
  | cons run rest ih =>
    intro r
    obtain ⟨hrun, hrest⟩ := List.forall_mem_cons.mp hruns
    have hlive : (r.isLive ctx run.epoch).1 = true := by
      rw [hrun]
      exact h.live _
    obtain ⟨hactive, hclock, hgave⟩ := ih hrest (r.isLive ctx run.epoch).2
    have hgave := gave_trans (isLive_gave ctx run.epoch r) hgave
    unfold Runs.retainActive
    dsimp only
    rw [if_pos hlive, hactive]
    exact ⟨rfl, Nat.le_trans (h.drift r.world) hclock,
      ⟨hgave.held, hgave.session, hgave.made, hgave.panics, hgave.recorded⟩⟩

/-- A session call of an idle session does nothing. -/
theorem sessionCall_idle (h : OneEpoch clock epoch session ctx)
    (call : S → Instant → W → S × W × Option Bool) {r : Runs W S A} (hr : r.session = session) :
    r.sessionCall ctx call = r := by
  unfold Runs.sessionCall
  rw [hr, h.notPending]
  rfl

/-- **A poll of macros is a round of visits to its runs.** -/
theorem poll_round (h : OneEpoch clock epoch session ctx) {r : Runs W S A} (hheld : r.held = [])
    (hsession : r.session = session) (hruns : ∀ run ∈ r.active, IsMacro epoch run) :
    Round ctx clock [] r.active (r.pollReached ctx) r (r.poll ctx) := by
  unfold Runs.poll Runs.pollReached
  dsimp only
  obtain ⟨hactive, hclock, hretained⟩ :=
    retainActive_live h (fun run hrun => (hruns run hrun).epoch) r
  generalize Runs.retainActive ctx r.active r = r₁ at *
  have hheld₁ : r₁.held = [] := hretained.held.trans hheld
  have hnone : ∀ q : Runs W S A, q.held = [] → Runs.retainHeld ctx q.held q = q := by
    intro q hq
    rw [hq]
    show { q with held := [] } = q
    rw [← hq]
  rw [hnone r₁ hheld₁, sessionCall_idle h _ (hretained.session.trans hsession), hactive]
  have hround := advanceFrom_round h r.active [] r₁ hruns
  generalize Runs.advanceFrom ctx [] r.active r₁ = r₂ at *
  obtain ⟨left, hleft, hvisits, hgave⟩ := hround
  have hgave := gave_trans hretained hgave
  have hheld₂ : r₂.held = [] := hgave.held.trans hheld
  have hreleased : Runs.releaseHeld ctx r₂.held r₂ = r₂ := by
    rw [hheld₂]
    show { r₂ with held := [] } = r₂
    rw [← hheld₂]
  have hnothing : Runs.releaseHeldReached ctx r₂.held r₂ = [] := by
    rw [hheld₂]
    rfl
  rw [hreleased, sessionCall_idle h _ (hgave.session.trans hsession), hnothing, List.append_nil]
  exact ⟨left, hleft, hvisits.later hclock, hgave⟩

/-- The next poll is due at the earliest deadline of the runs. -/
theorem next_earliest (h : OneEpoch clock epoch session ctx) {r : Runs W S A}
    (hsession : r.session = session) : Earliest r.active (r.next ctx) := by
  unfold Runs.next
  rw [hsession, h.noDeadline, Option.toList_none, List.append_nil]
  split
  · next hmin =>
    intro run hrun
    exact List.filterMap_eq_nil_iff.mp (List.min?_eq_none_iff.mp hmin) run hrun
  · next deadline hmin =>
    obtain ⟨hmem, hleast⟩ := List.min?_eq_some_iff.mp hmin
    refine ⟨List.mem_filterMap.mp hmem, fun run hrun other hother => ?_⟩
    exact hleast other (List.mem_filterMap.mpr ⟨run, hrun, hother⟩)

end Walk

end KeySwitch.Executor
