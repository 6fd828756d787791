import KeySwitch.Executor.Chronicle

/-!
# Firing order, and work left behind

Jobs begin in the order they were submitted. While a paste waits between its
tries, the jobs after it are held; they start in the poll in which no paste waits
any more. Over any passes, whatever the world and the paste session answer, each
job submitted is begun, lost for a reason that is logged, or held, and those
begun are in order (`jobs_begin_in_order`); what the log says of them is what
happened (`Chronicle`).

The held jobs have no deadline of their own: the wake is the one of the paste
they wait for. A poll keeps that link. `drop_timed` does not: it removes the run
of the paste and leaves the held jobs, so that nothing wakes the executor for
them, and the next job submitted starts before them. The jobs are safe exactly
in the runs of the loop in which the timer fails only while none is held
(`unstranded_iff`).
-/

namespace KeySwitch.Executor

open Data Lib

variable {W S A : Type}

theorem submitted_passes (s : Loop W S A) (ps : List (Pass W S A)) :
    ((passes W S A).run s ps).submitted = s.submitted + (submissions s.submitted ps).length := by
  induction ps generalizing s with
  | nil => rfl
  | cons p ps ih =>
    rw [Machine.run_cons, ih]
    cases p with
    | submit ctx action target epoch =>
      show s.submitted + 1 + (submissions (s.submitted + 1) ps).length =
        s.submitted + ((submissions (s.submitted + 1) ps).length + 1)
      omega
    | poll ctx => rfl

/-- Each pass of a run does what its log says, of the jobs the passes submit. -/
theorem passes_told {known : Job → Prop} {s : Loop W S A} (hs : Settled s)
    (hknown : AllKnown known s.runs) {ps : List (Pass W S A)}
    (hps : ∀ job ∈ submissions s.submitted ps, known job) :
    (∀ x ∈ (passes W S A).trace s ps, PassTold known x.input.ctx x.before x.after) ∧
      AllKnown known ((passes W S A).run s ps).runs := by
  induction ps generalizing s with
  | nil => exact ⟨fun x hx => absurd hx List.not_mem_nil, hknown⟩
  | cons p ps ih =>
    have hboth : (∀ job ∈ submissions s.submitted [p], known job) ∧
        ∀ job ∈ submissions (s.pass p).submitted ps, known job := by
      cases p with
      | submit ctx action target epoch =>
        refine ⟨fun job hjob => hps job ?_, fun job hjob => hps job (List.mem_cons_of_mem _ hjob)⟩
        rw [List.mem_singleton.mp hjob]
        exact List.mem_cons_self
      | poll ctx => exact ⟨fun job hjob => absurd hjob List.not_mem_nil, hps⟩
    obtain ⟨htold, hknown'⟩ := pass_told hs.wf hknown hboth.1
    obtain ⟨hrest, hall⟩ := ih (pass_settled hs p) hknown' hboth.2
    refine ⟨fun x hx => ?_, hall⟩
    rcases List.mem_cons.mp hx with rfl | hx
    · exact htold
    · exact hrest x hx

/-- **Jobs begin in the order they were submitted, each at most once, and none is
lost without a trace.** After any passes, each job submitted is exactly one of
begun, dropped with its epoch, dropped as a second paste, which is counted, or
held; and each pass did what its log says: it began the jobs it says it began, and
dropped those it says it dropped for the reason it gives. -/
theorem jobs_begin_in_order (session : S) (world : W) (ps : List (Pass W S A)) :
    let s := (passes W S A).run (.new session world) ps
    let jobs := submissions 0 ps
    (began s.runs.log).Pairwise (· < ·) ∧
      (began s.runs.log ++ lost .epochEnded s.runs.log ++ lost .secondPaste s.runs.log ++
        ids s.runs.held).Perm (ids jobs) ∧
      s.runs.calls.droppedPastes = (lost .secondPaste s.runs.log).length ∧
      (∀ job ∈ s.runs.held, job ∈ jobs) ∧
      ∀ x ∈ (passes W S A).trace (.new session world) ps,
        PassTold (· ∈ jobs) x.input.ctx x.before x.after := by
  intro s jobs
  have hs : Settled s := passes_settled session world ps
  have hsubmitted : s.submitted = jobs.length := (submitted_passes _ ps).trans (Nat.zero_add _)
  have hline : line s.runs = began s.runs.log ++ ids s.runs.held := by
    unfold line
    rw [hs.started, List.append_nil]
  have hnew : AllKnown (· ∈ jobs) (Loop.new session world : Loop W S A).runs :=
    ⟨fun _ h => absurd h List.not_mem_nil, fun _ h => absurd h List.not_mem_nil⟩
  have hjobs : ∀ job ∈ submissions (Loop.new session world : Loop W S A).submitted ps,
      job ∈ jobs := fun _ hjob => hjob
  obtain ⟨htold, hknown⟩ := passes_told (settled_new session world) hnew hjobs
  refine ⟨?_, ?_, hs.counted, hknown.held, htold⟩
  · have hordered := hs.books.ordered
    rw [hline] at hordered
    exact (List.pairwise_append.mp hordered).1
  · rw [ids_submissions, ← List.range_eq_range', ← hsubmitted]
    refine List.Perm.trans ?_ hs.books.total
    rw [hline]
    simp only [List.append_assoc]
    refine List.Perm.append_left _ ?_
    rw [← List.append_assoc]
    exact List.perm_append_comm

/-! ## Stranded work -/

/-- Held jobs wait for a paste that will be polled, and no job has overtaken
them. -/
structure Unstranded (s : Loop W S A) : Prop where
  waits : s.runs.held ≠ [] → ∃ run ∈ s.runs.active,
    run.attempt.isSome = true ∧ ∃ deadline, run.resume = .once deadline
  wakes : s.runs.held ≠ [] → ∀ ctx, ∃ deadline, s.runs.next ctx = .once deadline
  order : (began s.runs.log ++ ids s.runs.held).Pairwise (· < ·)

/-- No job is stranded at any state of the run, and none is left held by a
`drop_timed`. -/
def NoStrandedWork (s : Loop W S A) (ts : List (Turn W S A)) : Prop :=
  ∀ x ∈ (turns W S A).trace s ts, Unstranded x.after ∧
    ∀ ctx, x.input = .timerFailed ctx → x.after.runs.held = []

/-- A run with a deadline keeps the executor waking. -/
theorem next_once {r : Runs W S A} {run : Run A} (hrun : run ∈ r.active) {deadline : Instant}
    (h : run.resume = .once deadline) (ctx : Ctx W S A) : ∃ d, r.next ctx = .once d := by
  have hmem : deadline ∈ (r.active.filterMap fun run => run.resume.deadline) ++
      (ctx.session.next r.session).toList := by
    refine List.mem_append_left _ (List.mem_filterMap.mpr ⟨run, hrun, ?_⟩)
    rw [h]
    rfl
  unfold Runs.next
  split
  · next hnone =>
    rw [List.min?_eq_none_iff] at hnone
    rw [hnone] at hmem
    exact absurd hmem List.not_mem_nil
  · exact ⟨_, rfl⟩

theorem settled_unstranded {s : Loop W S A} (hs : Settled s) : Unstranded s := by
  have hwaits : s.runs.held ≠ [] → ∃ run ∈ s.runs.active,
      run.attempt.isSome = true ∧ ∃ deadline, run.resume = .once deadline := by
    intro hheld
    rcases hs.waits with hnone | hwaits
    · exact absurd hnone hheld
    · obtain ⟨run, hrun, hsome⟩ := List.any_eq_true.mp hwaits
      refine ⟨run, hrun, hsome, ?_⟩
      have hdeadline := (hs.wf run hrun).deadline hsome
      cases hresume : run.resume with
      | once deadline => exact ⟨deadline, rfl⟩
      | now => simp [hresume, Resume.deadline] at hdeadline
      | whenCancelled => simp [hresume, Resume.deadline] at hdeadline
  refine ⟨hwaits, fun hheld ctx => ?_, ?_⟩
  · obtain ⟨run, hrun, -, deadline, hdeadline⟩ := hwaits hheld
    exact next_once hrun hdeadline ctx
  · have hordered := hs.books.ordered
    unfold line at hordered
    rwa [hs.started, List.append_nil] at hordered

/-- With no job held, `drop_timed` leaves the books as they are: the runs it drops
have started. -/
theorem dropTimed_settled {s : Loop W S A} (hs : Settled s) (ctx : Ctx W S A)
    (hheld : s.runs.held = []) : Settled (s.turn (.timerFailed ctx)) := by
  have hstarted : unstarted (s.turn (.timerFailed ctx)).runs.active = [] := by
    have hsub : (unstarted (s.turn (.timerFailed ctx)).runs.active).Sublist
        (unstarted s.runs.active) := (List.filter_sublist.filter _).map _
    rw [hs.started] at hsub
    exact List.sublist_nil.mp hsub
  have hline : line (s.turn (.timerFailed ctx)).runs = line s.runs := by
    unfold line
    rw [hstarted, hs.started]
    rfl
  refine ⟨?_, hstarted, fun run hrun => hs.wf run (List.mem_of_mem_filter hrun), .inl hheld,
    hs.counted⟩
  rw [hline]
  exact hs.books

/-- **No job is stranded in a run of the loop if and only if the timer fails only
while no job is held.** -/
theorem unstranded_iff (session : S) (world : W) (ts : List (Turn W S A)) :
    NoStrandedWork (.new session world) ts ↔
      ∀ x ∈ (turns W S A).trace (.new session world) ts, ∀ ctx,
        x.input = .timerFailed ctx → x.before.runs.held = [] := by
  have hs : Settled (Loop.new session world : Loop W S A) := settled_new session world
  generalize (Loop.new session world : Loop W S A) = s at hs
  constructor
  · -- `drop_timed` leaves the held jobs as they are.
    intro h x hx ctx hinput
    have hafter := (h x hx).2 ctx hinput
    have hx : x = (turns W S A).moment x.before x.input := by
      obtain ⟨pre, post, htrace⟩ := List.append_of_mem hx
      obtain ⟨js, t, ks, -, -, rfl, -⟩ := Machine.trace_split htrace
      rfl
    rw [hx, hinput] at hafter
    exact hafter
  · intro h
    unfold NoStrandedWork
    induction ts generalizing s with
    | nil => exact fun x hx => absurd hx List.not_mem_nil
    | cons t ts ih =>
      intro x hx
      rw [Machine.trace_cons] at h hx
      have hhead := h _ List.mem_cons_self
      have hnext : Settled (s.turn t) := by
        cases t with
        | pass p => exact pass_settled hs p
        | timerFailed ctx => exact dropTimed_settled hs ctx (hhead ctx rfl)
      rcases List.mem_cons.mp hx with rfl | hx
      · exact ⟨settled_unstranded hnext, fun ctx hinput => by
          have hheld := hhead ctx hinput
          have ht : t = .timerFailed ctx := hinput
          subst ht
          exact hheld⟩
      · exact ih (s.turn t) hnext (fun y hy => h y (List.mem_cons_of_mem _ hy)) x hx

/-- A world in which every epoch is live and a paste waits for ever. -/
def patientCtx : Ctx Unit Unit Unit where
  action _ _ := ((), false)
  step _ _ _ := ((), false)
  session :=
    { attempt := fun _ _ _ _ _ => ((), (), .waitUntil () 5)
      tick := fun _ _ _ => ((), (), some false)
      restoreIfDue := fun _ _ _ => ((), (), some false)
      giveUp := fun _ _ => ((), ())
      restoreNow := fun _ _ => ((), ())
      isPending := fun _ => false
      next := fun _ => none }
  live _ _ := true
  now _ := 0
  drift _ := ()

/-- A paste waits, a text is held behind it, and the timer cannot be set. -/
def strandingTurns : List (Turn Unit Unit Unit) :=
  [.pass (.submit patientCtx (.paste ⟨[], [], 0⟩) 0 0),
    .pass (.submit patientCtx (.text "hi") 0 0), .timerFailed patientCtx,
    .pass (.submit patientCtx (.text "there") 0 0)]

/-- With no timer the text stays held and no run is left to wait for, and the text
fired after it starts first. -/
theorem stranded_text :
    ¬ NoStrandedWork (.new () ()) strandingTurns ∧
      ids ((turns Unit Unit Unit).run (.new () ()) (strandingTurns.take 3)).runs.held = [1] ∧
      ((turns Unit Unit Unit).run (.new () ()) (strandingTurns.take 3)).runs.active.length = 0 ∧
      began ((turns Unit Unit Unit).run (.new () ()) strandingTurns).runs.log = [0, 2, 1] := by
  refine ⟨fun h => ?_, by decide, by decide, by decide⟩
  have hheld := (h _ (List.mem_cons_of_mem _ (List.mem_cons_of_mem _ List.mem_cons_self))).2
    patientCtx rfl
  exact absurd (congrArg List.length hheld) (by decide)

end KeySwitch.Executor
