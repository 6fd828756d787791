import KeySwitch.Executor.Runs
import KeySwitch.Lib.Machine
import Mathlib.Data.List.Range

/-!
# What a `start` or a `poll` does, one function at a time

Reads, session calls and the walk over a run's steps begin no job and lose none
(`Quiet`), and every runner call and paste try of a walk is begun right after a
check that its epoch is live. The functions that move jobs on are described by
the `ledger`: the numbers of the jobs begun, of the runs that have not started,
and of the jobs held, in this order. A poll moves a job from one part of it to
another without changing the list, or drops it from the list and says so.
-/

namespace KeySwitch.Executor

open Data

variable {W S A : Type}

/-! ## Calls that move no job -/

/-- `r'` comes after `r` with the same runs and held jobs, no job begun or lost,
and every call made for a live epoch. -/
structure Quiet (r r' : Runs W S A) : Prop where
  active : r'.active = r.active
  held : r'.held = r.held
  log : ∃ n, r'.log = r.log ++ List.replicate n (.called true)
  dropped : r'.calls.droppedPastes = r.calls.droppedPastes

theorem quiet_refl (r : Runs W S A) : Quiet r r := ⟨rfl, rfl, ⟨0, by simp⟩, rfl⟩

theorem quiet_trans {r₁ r₂ r₃ : Runs W S A} (h₁ : Quiet r₁ r₂) (h₂ : Quiet r₂ r₃) :
    Quiet r₁ r₃ := by
  obtain ⟨m, hm⟩ := h₁.log
  obtain ⟨n, hn⟩ := h₂.log
  refine ⟨h₂.active.trans h₁.active, h₂.held.trans h₁.held, ⟨m + n, ?_⟩,
    h₂.dropped.trans h₁.dropped⟩
  rw [hn, hm, List.append_assoc, List.replicate_append_replicate]

namespace Runs

theorem isLive_quiet (ctx : Ctx W S A) (epoch : Nat) (r : Runs W S A) :
    Quiet r (r.isLive ctx epoch).2 :=
  ⟨rfl, rfl, ⟨0, by simp [isLive]⟩, rfl⟩

theorem readNow_quiet (ctx : Ctx W S A) (r : Runs W S A) : Quiet r (r.readNow ctx).2 :=
  ⟨rfl, rfl, ⟨0, by simp [readNow]⟩, rfl⟩

/-- A call made right after a check that found its epoch live. -/
theorem called_quiet {ctx : Ctx W S A} {epoch : Nat} {r : Runs W S A}
    (h : (r.isLive ctx epoch).1 = true) :
    Quiet r ((r.isLive ctx epoch).2.called ctx epoch) := by
  refine ⟨rfl, rfl, ⟨1, ?_⟩, rfl⟩
  unfold called record
  have hlive : ctx.live (r.isLive ctx epoch).2.world epoch = true := h
  rw [hlive]
  rfl

theorem runStep_quiet {ctx : Ctx W S A} {epoch : Nat} {r : Runs W S A}
    (h : (r.isLive ctx epoch).1 = true) (step : SequenceStep) (target : TargetWindow) :
    Quiet r ((r.isLive ctx epoch).2.runStep ctx epoch step target).2 :=
  ⟨rfl, rfl, (called_quiet h).log, rfl⟩

theorem tryPaste_quiet {ctx : Ctx W S A} {epoch : Nat} {r : Runs W S A}
    (h : (r.isLive ctx epoch).1 = true) (attempt : Option A) (spec : PasteSpec) :
    Quiet r ((r.isLive ctx epoch).2.tryPaste ctx epoch attempt spec).2 :=
  ⟨rfl, rfl, (called_quiet h).log, rfl⟩

end Runs

namespace Run

/-- A paste that waits is at the run's next step, and its run goes on at a
deadline. -/
structure Wf (run : Run A) : Prop where
  atPaste : run.attempt.isSome = true → ∃ spec rest,
    run.body.walked.drop run.next = .paste spec :: rest
  deadline : run.attempt.isSome = true → run.resume.deadline.isSome = true

theorem walk_quiet (ctx : Ctx W S A) (head : Option Instant) (steps : List SequenceStep) :
    ∀ (run : Run A) (r : Runs W S A), Quiet r (run.walk ctx head steps r).2 := by
  induction steps with
  | nil =>
    intro run r
    unfold walk
    dsimp only
    split
    · exact r.isLive_quiet ctx run.epoch
    · exact r.isLive_quiet ctx run.epoch
  | cons step rest ih =>
    intro run r
    have hcheck := r.isLive_quiet ctx run.epoch
    unfold walk
    dsimp only
    split
    · exact hcheck
    · next hlive =>
      have hlive : (r.isLive ctx run.epoch).1 = true := by simpa using hlive
      split
      · exact hcheck
      · next spec rest' heq =>
        obtain ⟨rfl, rfl⟩ := List.cons.inj heq
        cases head with
        | some deadline => exact hcheck
        | none =>
          have hmade := Runs.tryPaste_quiet hlive run.attempt spec
          dsimp only
          split
          · exact hmade
          · exact quiet_trans hmade (ih _ _)
          · exact hmade
      · exact quiet_trans hcheck (Runs.readNow_quiet ctx _)
      · next heq =>
        obtain ⟨rfl, rfl⟩ := List.cons.inj heq
        have hmade := Runs.runStep_quiet hlive step run.target
        split
        · exact hmade
        · exact quiet_trans hmade (ih _ _)

/-- A run that goes on later is the same run, started. -/
structure Same (run run' : Run A) : Prop where
  id : run'.id = run.id
  body : run'.body = run.body
  target : run'.target = run.target
  epoch : run'.epoch = run.epoch
  started : run'.resume.isNow = false

theorem walk_same (ctx : Ctx W S A) (head : Option Instant) (steps : List SequenceStep) :
    ∀ (run : Run A) (r : Runs W S A), ∀ run' ∈ (run.walk ctx head steps r).1, Same run run' := by
  induction steps with
  | nil =>
    intro run r run' hrun'
    unfold walk at hrun'
    dsimp only at hrun'
    split at hrun'
    · exact absurd hrun' (by simp)
    · exact absurd hrun' (by simp)
  | cons step rest ih =>
    intro run r run' hrun'
    unfold walk at hrun'
    dsimp only at hrun'
    split at hrun'
    · exact absurd hrun' (by simp)
    · split at hrun'
      · exact absurd hrun' (by simp)
      · next spec rest' heq =>
        obtain ⟨rfl, rfl⟩ := List.cons.inj heq
        cases head with
        | some deadline =>
          obtain rfl := Option.mem_some_iff.mp hrun'
          exact ⟨rfl, rfl, rfl, rfl, rfl⟩
        | none =>
          dsimp only at hrun'
          split at hrun'
          · exact absurd hrun' (by simp)
          · have hsame := ih { run with next := run.next + 1, attempt := none } _ run' hrun'
            exact ⟨hsame.id, hsame.body, hsame.target, hsame.epoch, hsame.started⟩
          · obtain rfl := Option.mem_some_iff.mp hrun'
            exact ⟨rfl, rfl, rfl, rfl, rfl⟩
      · obtain rfl := Option.mem_some_iff.mp hrun'
        exact ⟨rfl, rfl, rfl, rfl, Resume.afterDelay_isNow _⟩
      · next heq =>
        obtain ⟨rfl, rfl⟩ := List.cons.inj heq
        split at hrun'
        · exact absurd hrun' (by simp)
        · have hsame := ih { run with next := run.next + 1 } _ run' hrun'
          exact ⟨hsame.id, hsame.body, hsame.target, hsame.epoch, hsame.started⟩

/-- If the paste of a run that goes on later waits, it is at the next step of the
run, which has a deadline. -/
theorem walk_wf (ctx : Ctx W S A) (head : Option Instant) (steps : List SequenceStep) :
    ∀ (run : Run A) (r : Runs W S A), steps = run.body.walked.drop run.next →
      (run.attempt.isSome = true → ∃ spec rest, steps = .paste spec :: rest) →
      ∀ run' ∈ (run.walk ctx head steps r).1, run'.Wf := by
  induction steps with
  | nil =>
    intro run r _ _ run' hrun'
    unfold walk at hrun'
    dsimp only at hrun'
    split at hrun'
    · exact absurd hrun' (by simp)
    · exact absurd hrun' (by simp)
  | cons step rest ih =>
    intro run r hsteps hattempt run' hrun'
    have hrest : rest = run.body.walked.drop (run.next + 1) := by
      rw [← List.drop_drop, ← hsteps]
      rfl
    unfold walk at hrun'
    dsimp only at hrun'
    split at hrun'
    · exact absurd hrun' (by simp)
    · split at hrun'
      · exact absurd hrun' (by simp)
      · next spec rest' heq =>
        obtain ⟨rfl, rfl⟩ := List.cons.inj heq
        cases head with
        | some deadline =>
          obtain rfl := Option.mem_some_iff.mp hrun'
          exact ⟨fun _ => ⟨spec, rest, hsteps.symm⟩, fun _ => rfl⟩
        | none =>
          dsimp only at hrun'
          split at hrun'
          · exact absurd hrun' (by simp)
          · exact ih _ _ hrest (fun h => absurd h (by simp)) run' hrun'
          · obtain rfl := Option.mem_some_iff.mp hrun'
            exact ⟨fun _ => ⟨spec, rest, hsteps.symm⟩, fun _ => rfl⟩
      · next ms rest' heq =>
        obtain ⟨rfl, rfl⟩ := List.cons.inj heq
        -- No paste waits at a `Delay`.
        have hnone : run.attempt.isSome = false := by
          rw [Bool.eq_false_iff]
          intro hsome
          obtain ⟨spec, rest', hpaste⟩ := hattempt hsome
          exact absurd hpaste (by simp)
        obtain rfl := Option.mem_some_iff.mp hrun'
        exact ⟨fun h => absurd (hnone.symm.trans h) (by simp),
          fun h => absurd (hnone.symm.trans h) (by simp)⟩
      · next hpaste hdelay heq =>
        obtain ⟨rfl, rfl⟩ := List.cons.inj heq
        split at hrun'
        · exact absurd hrun' (by simp)
        · have hnone : run.attempt.isSome = false := by
            rw [Bool.eq_false_iff]
            intro hsome
            obtain ⟨spec, rest', heq⟩ := hattempt hsome
            obtain ⟨rfl, -⟩ := List.cons.inj heq
            exact hpaste spec rfl
          exact ih { run with next := run.next + 1 } _ hrest
            (fun h => absurd (hnone.symm.trans h) (by simp)) run' hrun'

end Run

/-! ## The books -/

/-- The jobs begun, in order. -/
def began (log : List Event) : List Nat :=
  log.filterMap fun
    | .began job => some job
    | _ => none

/-- The jobs lost for `why`. -/
def lost (why : Lost) (log : List Event) : List Nat :=
  log.filterMap fun
    | .dropped job reason => if reason = why then some job else none
    | _ => none

/-- The runs that have not started. -/
def unstarted (active : List (Run A)) : List Nat :=
  (active.filter fun run => run.resume.isNow).map Run.id

/-- Every call so far was begun for a live epoch. -/
def AllLive (log : List Event) : Prop := ∀ live, .called live ∈ log → live = true

@[simp] theorem began_append (log log' : List Event) :
    began (log ++ log') = began log ++ began log' := List.filterMap_append ..

@[simp] theorem lost_append (why : Lost) (log log' : List Event) :
    lost why (log ++ log') = lost why log ++ lost why log' := List.filterMap_append ..

@[simp] theorem began_replicate (n : Nat) (live : Bool) :
    began (List.replicate n (.called live)) = [] := by
  unfold began
  rw [List.filterMap_eq_nil_iff]
  intro event hevent
  rw [List.eq_of_mem_replicate hevent]

@[simp] theorem lost_replicate (why : Lost) (n : Nat) (live : Bool) :
    lost why (List.replicate n (.called live)) = [] := by
  unfold lost
  rw [List.filterMap_eq_nil_iff]
  intro event hevent
  rw [List.eq_of_mem_replicate hevent]

@[simp] theorem unstarted_append (active active' : List (Run A)) :
    unstarted (active ++ active') = unstarted active ++ unstarted active' := by
  unfold unstarted
  rw [List.filter_append, List.map_append]

theorem unstarted_cons (run : Run A) (active : List (Run A)) :
    unstarted (run :: active) =
      (if run.resume.isNow then [run.id] else []) ++ unstarted active := by
  unfold unstarted
  cases h : run.resume.isNow with
  | true => simp [h]
  | false => simp [h]

theorem allLive_append {log log' : List Event} :
    AllLive (log ++ log') ↔ AllLive log ∧ AllLive log' := by
  unfold AllLive
  constructor
  · intro h
    exact ⟨fun live hmem => h live (List.mem_append_left _ hmem),
      fun live hmem => h live (List.mem_append_right _ hmem)⟩
  · intro h live hmem
    rcases List.mem_append.mp hmem with hmem | hmem
    · exact h.1 live hmem
    · exact h.2 live hmem

/-- What is no call is made for no epoch. -/
theorem allLive_record {r : Runs W S A} {event : Event} (h : ∀ live, event ≠ .called live) :
    AllLive (r.record event).log ↔ AllLive r.log := by
  have hevent : AllLive [event] := fun live hmem =>
    absurd (List.mem_singleton.mp hmem).symm (h live)
  show AllLive (r.log ++ [event]) ↔ _
  rw [allLive_append]
  exact and_iff_left hevent

theorem quiet_books {r r' : Runs W S A} (h : Quiet r r') :
    began r'.log = began r.log ∧ (∀ why, lost why r'.log = lost why r.log) ∧
      (AllLive r'.log ↔ AllLive r.log) := by
  obtain ⟨n, hlog⟩ := h.log
  rw [hlog]
  refine ⟨by simp, by simp, ?_⟩
  rw [allLive_append]
  refine and_iff_left fun live hmem => ?_
  exact Event.called.inj (List.eq_of_mem_replicate hmem)

/-! ## Advancing -/

/-- A stretch that advances runs: the runs of `rest` that had not started have
begun, in order, and every call it made was made for a live epoch. -/
structure Advanced (rest : List (Run A)) (r r' : Runs W S A) : Prop where
  began : began r'.log = began r.log ++ unstarted rest
  lost : ∀ why, lost why r'.log = lost why r.log
  unstarted : unstarted r'.active = []
  wf : ∀ run ∈ r'.active, run.Wf
  held : r'.held = r.held
  dropped : r'.calls.droppedPastes = r.calls.droppedPastes
  live : AllLive r'.log ↔ AllLive r.log

namespace Runs

theorem due_quiet (ctx : Ctx W S A) (run : Run A) (r : Runs W S A) :
    Quiet r (r.due ctx run).2 := by
  unfold due
  split
  · exact quiet_refl r
  · exact r.readNow_quiet ctx
  · exact quiet_refl r

theorem due_of_isNow (ctx : Ctx W S A) {run : Run A} (r : Runs W S A)
    (h : run.resume.isNow = true) : r.due ctx run = (true, r) := by
  unfold Resume.isNow at h
  unfold due
  split at h
  · next heq => rw [heq]
  · exact absurd h Bool.false_ne_true

theorem sessionCall_quiet (ctx : Ctx W S A) (call : S → Instant → W → S × W × Option Bool)
    (r : Runs W S A) : Quiet r (r.sessionCall ctx call) := by
  unfold sessionCall
  split
  · exact quiet_refl r
  · have hnow := r.readNow_quiet ctx
    dsimp only
    split
    · exact ⟨hnow.active, hnow.held, hnow.log, rfl⟩
    · refine ⟨hnow.active, hnow.held, hnow.log, ?_⟩
      dsimp only
      split <;> rfl

/-- One run of `rest` advanced. -/
theorem advance_books (ctx : Ctx W S A) (head : Option Instant) (run : Run A) (r : Runs W S A) :
    let r' := (run.advance ctx head r).2
    began r'.log = began r.log ++ unstarted [run] ∧ (∀ why, lost why r'.log = lost why r.log) ∧
      r'.held = r.held ∧ r'.calls.droppedPastes = r.calls.droppedPastes ∧
      (AllLive r'.log ↔ AllLive r.log) := by
  intro r'
  rw [unstarted_cons, unstarted, List.filter_nil, List.map_nil, List.append_nil]
  cases hnow : run.resume.isNow with
  | true =>
    have hquiet : Quiet (r.record (.began run.id)) r' := by
      have h := run.walk_quiet ctx head (run.body.walked.drop run.next) (r.record (.began run.id))
      unfold r' Run.advance
      rw [hnow, if_pos rfl]
      exact h
    obtain ⟨hbegan, hlost, hlive⟩ := quiet_books hquiet
    refine ⟨by rw [hbegan, if_pos rfl]; simp [record, began], fun why => ?_, hquiet.held,
      hquiet.dropped, hlive.trans (allLive_record (by simp))⟩
    rw [hlost]
    simp [record, lost]
  | false =>
    have hquiet : Quiet r r' := by
      have h := run.walk_quiet ctx head (run.body.walked.drop run.next) r
      unfold r' Run.advance
      rw [hnow, if_neg Bool.false_ne_true]
      exact h
    obtain ⟨hbegan, hlost, hlive⟩ := quiet_books hquiet
    exact ⟨by rw [hbegan, if_neg Bool.false_ne_true, List.append_nil], hlost, hquiet.held,
      hquiet.dropped, hlive⟩

theorem advance_wf {ctx : Ctx W S A} {head : Option Instant} {run run' : Run A} (h : run.Wf)
    {r : Runs W S A} (hrun' : run' ∈ (run.advance ctx head r).1) : run'.Wf :=
  Run.walk_wf ctx head _ run _ rfl h.atPaste run' hrun'

theorem advance_same {ctx : Ctx W S A} {head : Option Instant} {run run' : Run A}
    {r : Runs W S A} (hrun' : run' ∈ (run.advance ctx head r).1) : Run.Same run run' :=
  Run.walk_same ctx head _ run _ run' hrun'

theorem advanceFrom_advanced (ctx : Ctx W S A) (rest : List (Run A)) :
    ∀ (older : List (Run A)) (r : Runs W S A), unstarted older = [] →
      (∀ run ∈ older, run.Wf) → (∀ run ∈ rest, run.Wf) →
      Advanced rest r (advanceFrom ctx older rest r) := by
  induction rest with
  | nil =>
    intro older r hnone hwf _
    unfold advanceFrom
    exact ⟨(List.append_nil _).symm, fun _ => rfl, hnone, hwf, rfl, rfl, Iff.rfl⟩
  | cons run rest ih =>
    intro older r hnone hwf hrest
    have hrun := hrest run List.mem_cons_self
    have hrest' : ∀ run ∈ rest, run.Wf := fun q hq => hrest q (List.mem_cons_of_mem _ hq)
    have hdue := r.due_quiet ctx run
    obtain ⟨hbegan, hlost, hlive⟩ := quiet_books hdue
    have hcons : unstarted (run :: rest) = unstarted [run] ++ unstarted rest := by
      rw [← List.singleton_append, unstarted_append]
    unfold advanceFrom
    dsimp only
    split
    · -- The run goes on now.
      obtain ⟨hbegan', hlost', hheld', hdropped', hlive'⟩ :=
        advance_books ctx (head older) run (r.due ctx run).2
      -- Whether its run is kept or over, the books are those of its check, its walk and the rest.
      have hmoved : ∀ {older' : List (Run A)}, unstarted older' = [] →
          (∀ run ∈ older', run.Wf) → Advanced (run :: rest) r
            (advanceFrom ctx older' rest (run.advance ctx (head older) (r.due ctx run).2).2) := by
        intro older' hnone' hwf'
        have h := ih older' (run.advance ctx (head older) (r.due ctx run).2).2 hnone' hwf' hrest'
        refine ⟨?_, fun why => ?_, h.unstarted, h.wf, ?_, ?_, h.live.trans (hlive'.trans hlive)⟩
        · rw [h.began, hbegan', hbegan, hcons, List.append_assoc]
        · rw [h.lost, hlost', hlost]
        · rw [h.held, hheld', hdue.held]
        · rw [h.dropped, hdropped', hdue.dropped]
      split
      · next run' hsome =>
        refine hmoved ?_ fun q hq => ?_
        · rw [unstarted_append, hnone, unstarted_cons,
            (advance_same (Option.mem_def.mpr hsome)).started]
          rfl
        · rcases List.mem_append.mp hq with hq | hq
          · exact hwf q hq
          · rw [List.mem_singleton.mp hq]
            exact advance_wf hrun (Option.mem_def.mpr hsome)
      · exact hmoved hnone hwf
    · -- It stays; so it has started.
      next hnot =>
      have hstarted : run.resume.isNow = false := by
        rw [Bool.eq_false_iff]
        intro hnow
        rw [due_of_isNow ctx r hnow] at hnot
        exact hnot rfl
      have hsingle : unstarted [run] = [] := by
        rw [unstarted_cons, hstarted]
        rfl
      have h := ih (older ++ [run]) (r.due ctx run).2
          (by rw [unstarted_append, hnone, hsingle]; rfl)
        (fun q hq => by
          rcases List.mem_append.mp hq with hq | hq
          · exact hwf q hq
          · rw [List.mem_singleton.mp hq]
            exact hrun) hrest'
      refine ⟨?_, fun why => ?_, h.unstarted, h.wf, ?_, ?_, h.live.trans hlive⟩
      · rw [h.began, hbegan, hcons, hsingle, List.nil_append]
      · rw [h.lost, hlost]
      · rw [h.held, hdue.held]
      · rw [h.dropped, hdue.dropped]

/-- Advancing runs holds no job and lets none go. -/
theorem advanceFrom_held (ctx : Ctx W S A) (rest : List (Run A)) :
    ∀ (older : List (Run A)) (r : Runs W S A),
      (advanceFrom ctx older rest r).held = r.held := by
  induction rest with
  | nil => exact fun older r => rfl
  | cons run rest ih =>
    intro older r
    have hdue := r.due_quiet ctx run
    have hadvanced : (run.advance ctx (head older) (r.due ctx run).2).2.held = r.held :=
      (advance_books ctx (head older) run (r.due ctx run).2).2.2.1.trans hdue.held
    unfold advanceFrom
    dsimp only
    split
    · split
      · exact (ih _ _).trans hadvanced
      · exact (ih _ _).trans hadvanced
    · exact (ih _ _).trans hdue.held

end Runs

end KeySwitch.Executor
