import KeySwitch.Executor.Loop

/-!
# What the log says is what happened

The log of the runs names jobs and nothing else. `Chronicle` says what its entries stand
for, with the paste session and the world before and after: a plain action that begins
is its runner call, a run that begins is the walk of its first advance, and a job whose
epoch ended is one whose epoch is over in the world in which the log says so. No entry
is made for anything else, and nothing else calls the runner.

Every `start` and every `poll` is followed by such a chronicle, of jobs that were
submitted (`Runs.start_told`, `Runs.poll_told`), and a pass drops a second `Paste` only
if one waits as it begins (`pass_told`).
-/

namespace KeySwitch.Executor

open Data Lib

variable {W S A : Type}

/-- `run` is the run of a job that is known, and has not gone on if it has not
started. -/
structure RunOf (known : Job → Prop) (job : Job) (run : Run A) : Prop where
  known : known job
  id : run.id = job.id
  body : bodyOf job.action = some run.body
  target : run.target = job.target
  epoch : run.epoch = job.epoch
  unstarted : run.resume.isNow = true → run = .fresh job run.body

/-! ## The chronicle -/

/-- What happened after the session was `s` in the world `w`, as the log has it. -/
inductive Chronicle (ctx : Ctx W S A) (known : Job → Prop) (s : S) (w : W) :
    List Event → S → W → Prop
  | refl : Chronicle ctx known s w [] s w
  /-- A read of the epoch or the clock. -/
  | drift {log : List Event} {s' : S} {w' : W} (h : Chronicle ctx known s w log s' w') :
    Chronicle ctx known s w log s' (ctx.drift w')
  /-- A call of the paste session. -/
  | session {log : List Event} {r : Runs W S A} (call : S → Instant → W → S × W × Option Bool)
      (hcall : call = ctx.session.tick ∨ call = ctx.session.restoreIfDue)
      (h : Chronicle ctx known s w log r.session r.world) :
    Chronicle ctx known s w log (r.sessionCall ctx call).session (r.sessionCall ctx call).world
  /-- A plain action begins: the runner is called with it. -/
  | action {log : List Event} {s' : S} {w' : W} {job : Job} (hknown : known job)
      (hplain : job.action.isPlain = true) (h : Chronicle ctx known s w log s' w') :
    Chronicle ctx known s w (log ++ [.began job.id, .called (ctx.live w' job.epoch)]) s'
      (ctx.action job.action w').1
  /-- A macro or a paste begins: its run is advanced for the first time. -/
  | first {log new : List Event} {r : Runs W S A} {job : Job} {body : Body}
      (hknown : known job) (hbody : bodyOf job.action = some body) (head : Option Instant)
      (hlog : ((Run.fresh job body).walk ctx head body.walked r).2.log = r.log ++ new)
      (h : Chronicle ctx known s w log r.session r.world) :
    Chronicle ctx known s w (log ++ .began job.id :: new)
      ((Run.fresh job body).walk ctx head body.walked r).2.session
      ((Run.fresh job body).walk ctx head body.walked r).2.world
  /-- A run that has started is advanced. -/
  | again {log new : List Event} {r : Runs W S A} {job : Job} {run : Run A}
      (hrun : RunOf known job run) (hstarted : run.resume.isNow = false) (head : Option Instant)
      (hlog : (run.walk ctx head (run.body.walked.drop run.next) r).2.log = r.log ++ new)
      (h : Chronicle ctx known s w log r.session r.world) :
    Chronicle ctx known s w (log ++ new)
      (run.walk ctx head (run.body.walked.drop run.next) r).2.session
      (run.walk ctx head (run.body.walked.drop run.next) r).2.world
  /-- A job is dropped whose epoch is over. -/
  | ended {log : List Event} {s' : S} {w' : W} {job : Job} (hknown : known job)
      (hdead : ctx.live w' job.epoch = false) (h : Chronicle ctx known s w log s' w') :
    Chronicle ctx known s w (log ++ [.dropped job.id .epochEnded]) s' w'
  /-- A `Paste` is dropped whose epoch lives. -/
  | second {log : List Event} {s' : S} {w' : W} {job : Job} (hknown : known job)
      (hpaste : job.action.isPaste = true) (hlive : ctx.live w' job.epoch = true)
      (h : Chronicle ctx known s w log s' w') :
    Chronicle ctx known s w (log ++ [.dropped job.id .secondPaste]) s' w'

section Chronicle

variable {ctx : Ctx W S A} {known : Job → Prop}

theorem Chronicle.trans {s₁ s₂ s₃ : S} {w₁ w₂ w₃ : W} {log log' : List Event}
    (h : Chronicle ctx known s₁ w₁ log s₂ w₂) (h' : Chronicle ctx known s₂ w₂ log' s₃ w₃) :
    Chronicle ctx known s₁ w₁ (log ++ log') s₃ w₃ := by
  induction h' with
  | refl =>
    rw [List.append_nil]
    exact h
  | drift _ ih => exact ih.drift
  | session call hcall _ ih => exact ih.session call hcall
  | action hknown hplain _ ih =>
    rw [← List.append_assoc]
    exact ih.action hknown hplain
  | first hknown hbody head hlog _ ih =>
    rw [← List.append_assoc]
    exact ih.first hknown hbody head hlog
  | again hrun hstarted head hlog _ ih =>
    rw [← List.append_assoc]
    exact ih.again hrun hstarted head hlog
  | ended hknown hdead _ ih =>
    rw [← List.append_assoc]
    exact ih.ended hknown hdead
  | second hknown hpaste hlive _ ih =>
    rw [← List.append_assoc]
    exact ih.second hknown hpaste hlive

/-- What the log gains from `r` to `r'` is a true chronicle. -/
def Told (ctx : Ctx W S A) (known : Job → Prop) (r r' : Runs W S A) : Prop :=
  ∃ new, r'.log = r.log ++ new ∧ Chronicle ctx known r.session r.world new r'.session r'.world

theorem told_refl (r : Runs W S A) : Told ctx known r r :=
  ⟨[], (List.append_nil _).symm, .refl⟩

theorem told_trans {r₁ r₂ r₃ : Runs W S A} (h₁ : Told ctx known r₁ r₂)
    (h₂ : Told ctx known r₂ r₃) : Told ctx known r₁ r₃ := by
  obtain ⟨new, hlog, hchronicle⟩ := h₁
  obtain ⟨new', hlog', hchronicle'⟩ := h₂
  refine ⟨new ++ new', ?_, hchronicle.trans hchronicle'⟩
  rw [hlog', hlog, List.append_assoc]

/-- The runs and the held jobs are of jobs that are known. -/
structure AllKnown (known : Job → Prop) (r : Runs W S A) : Prop where
  active : ∀ run ∈ r.active, ∃ job, RunOf known job run
  held : ∀ job ∈ r.held, known job

theorem RunOf.mono {known' : Job → Prop} {job : Job} {run : Run A} (h : RunOf known job run)
    (hmono : ∀ job, known job → known' job) : RunOf known' job run :=
  ⟨hmono job h.known, h.id, h.body, h.target, h.epoch, h.unstarted⟩

/-- What more is known changes nothing. -/
theorem allKnown_mono {known' : Job → Prop} {r : Runs W S A} (h : AllKnown known r)
    (hmono : ∀ job, known job → known' job) : AllKnown known' r := by
  refine ⟨fun run hrun => ?_, fun job hjob => hmono job (h.held job hjob)⟩
  obtain ⟨job, hof⟩ := h.active run hrun
  exact ⟨job, hof.mono hmono⟩

/-- A run that goes on is of the same job. -/
theorem RunOf.same {job : Job} {run run' : Run A} (h : RunOf known job run)
    (hsame : run.Same run') : RunOf known job run' :=
  ⟨h.known, hsame.id.trans h.id, hsame.body ▸ h.body, hsame.target.trans h.target,
    hsame.epoch.trans h.epoch, fun hnow => absurd (hsame.started.symm.trans hnow) (by simp)⟩

namespace Runs

variable (ctx)

/-! ## One function at a time -/

theorem isLive_told (epoch : Nat) (r : Runs W S A) : Told ctx known r (r.isLive ctx epoch).2 :=
  ⟨[], (List.append_nil _).symm, .drift .refl⟩

theorem readNow_told (r : Runs W S A) : Told ctx known r (r.readNow ctx).2 :=
  ⟨[], (List.append_nil _).symm, .drift .refl⟩

theorem due_told (run : Run A) (r : Runs W S A) : Told ctx known r (r.due ctx run).2 := by
  unfold due
  split
  · exact told_refl r
  · exact r.readNow_told ctx
  · exact told_refl r

/-- An advance is a walk, the first one after the word that the job began. -/
theorem advance_told {job : Job} {run : Run A} (h : RunOf known job run) (head : Option Instant)
    (r : Runs W S A) : Told ctx known r (run.advance ctx head r).2 := by
  unfold Run.advance
  cases hnow : run.resume.isNow with
  | true =>
    rw [if_pos rfl]
    -- A run that has not started walks all its steps.
    have hrun := h.unstarted hnow
    have hsteps : run.body.walked.drop run.next = run.body.walked := by
      rw [hrun]
      rfl
    obtain ⟨n, hlog⟩ := (run.walk_quiet ctx head run.body.walked (r.record (.began run.id))).log
    rw [hsteps]
    refine ⟨.began run.id :: List.replicate n (.called true), ?_, ?_⟩
    · rw [hlog]
      show r.log ++ [.began run.id] ++ _ = _
      rw [List.append_assoc]
      rfl
    · rw [h.id]
      rw [hrun] at hlog ⊢
      exact (Chronicle.refl.first h.known h.body head hlog :)
  | false =>
    rw [if_neg Bool.false_ne_true]
    obtain ⟨n, hlog⟩ := (run.walk_quiet ctx head (run.body.walked.drop run.next) r).log
    exact ⟨_, hlog, Chronicle.refl.again h hnow head hlog⟩

/-- The runs `rest` are advanced, after those of `older`. -/
theorem advanceFrom_told (rest : List (Run A)) :
    ∀ (older : List (Run A)) (r : Runs W S A), (∀ run ∈ older, ∃ job, RunOf known job run) →
      (∀ run ∈ rest, ∃ job, RunOf known job run) →
      Told ctx known r (advanceFrom ctx older rest r) ∧
        ∀ run ∈ (advanceFrom ctx older rest r).active, ∃ job, RunOf known job run := by
  induction rest with
  | nil => exact fun older r holder _ => ⟨⟨[], (List.append_nil _).symm, .refl⟩, holder⟩
  | cons run rest ih =>
    intro older r holder hrest
    obtain ⟨job, hrun⟩ := hrest run List.mem_cons_self
    have hrest' : ∀ run ∈ rest, ∃ job, RunOf known job run := fun q hq =>
      hrest q (List.mem_cons_of_mem _ hq)
    have hkept : ∀ q : Run A, RunOf known job q →
        ∀ run ∈ older ++ [q], ∃ job, RunOf known job run := by
      intro q hq run hmem
      rcases List.mem_append.mp hmem with hmem | hmem
      · exact holder run hmem
      · rw [List.mem_singleton.mp hmem]
        exact ⟨job, hq⟩
    have hdue : Told ctx known r (r.due ctx run).2 := r.due_told ctx run
    unfold advanceFrom
    dsimp only
    split
    · have hadvanced := told_trans hdue (advance_told ctx hrun (head older) (r.due ctx run).2)
      split
      · next run' hsome =>
        have hsame := advance_same (Option.mem_def.mpr hsome)
        obtain ⟨htold, hactive⟩ := ih _ _ (hkept run' (hrun.same hsame)) hrest'
        exact ⟨told_trans hadvanced htold, hactive⟩
      · obtain ⟨htold, hactive⟩ := ih _ _ holder hrest'
        exact ⟨told_trans hadvanced htold, hactive⟩
    · obtain ⟨htold, hactive⟩ := ih _ (r.due ctx run).2 (hkept run hrun) hrest'
      exact ⟨told_trans hdue htold, hactive⟩

theorem sessionCall_told (call : S → Instant → W → S × W × Option Bool)
    (hcall : call = ctx.session.tick ∨ call = ctx.session.restoreIfDue) (r : Runs W S A) :
    Told ctx known r (r.sessionCall ctx call) := by
  obtain ⟨-, -, ⟨n, hlog⟩, -⟩ := r.sessionCall_quiet ctx call
  have hnone : n = 0 := by
    have hsame : (r.sessionCall ctx call).log = r.log := by
      unfold sessionCall
      split
      · rfl
      · dsimp only
        split <;> rfl
    rw [hsame] at hlog
    have hlength := congrArg List.length hlog
    rw [List.length_append, List.length_replicate] at hlength
    omega
  exact ⟨[], by rw [hlog, hnone]; rfl, .session call hcall .refl⟩

/-- A job begins: with its runner call, or as a run that has not started. -/
theorem begin_told {job : Job} (hjob : known job) {r : Runs W S A} (h : AllKnown known r) :
    Told ctx known r (r.begin ctx job) ∧ AllKnown known (r.begin ctx job) := by
  cases hplain : job.action.isPlain with
  | true =>
    rw [begin_plain ctx r hplain]
    refine ⟨⟨[.began job.id, .called (ctx.live r.world job.epoch)], ?_, ?_⟩, h.active, h.held⟩
    · show r.log ++ [.began job.id] ++ [_] = _
      rw [List.append_assoc]
      rfl
    · exact Chronicle.refl.action hjob hplain
  | false =>
    obtain ⟨body, hbody, hbegin⟩ := begin_run ctx r hplain
    rw [hbegin]
    refine ⟨⟨[], (List.append_nil _).symm, .refl⟩, fun run hrun => ?_, h.held⟩
    rcases List.mem_append.mp hrun with hrun | hrun
    · exact h.active run hrun
    · rw [List.mem_singleton.mp hrun]
      exact ⟨job, hjob, rfl, hbody, rfl, rfl, fun _ => rfl⟩

/-- The sweep over the runs drops those whose epoch is over. -/
theorem retainActive_told (active : List (Run A)) :
    ∀ r : Runs W S A, (∀ run ∈ active, ∃ job, RunOf known job run) →
      Told ctx known r (retainActive ctx active r) ∧
        (∀ run ∈ (retainActive ctx active r).active, ∃ job, RunOf known job run) ∧
        (retainActive ctx active r).held = r.held := by
  induction active with
  | nil => exact fun r _ => ⟨⟨[], (List.append_nil _).symm, .refl⟩, fun _ h =>
      absurd h List.not_mem_nil, rfl⟩
  | cons run rest ih =>
    intro r hactive
    obtain ⟨job, hrun⟩ := hactive run List.mem_cons_self
    have hrest : ∀ run ∈ rest, ∃ job, RunOf known job run := fun q hq =>
      hactive q (List.mem_cons_of_mem _ hq)
    have hcheck : Told ctx known r (r.isLive ctx run.epoch).2 := r.isLive_told ctx run.epoch
    unfold retainActive
    dsimp only
    split
    · obtain ⟨htold, hkept, hheld⟩ := ih (r.isLive ctx run.epoch).2 hrest
      obtain ⟨new, hlog, hchronicle⟩ := told_trans hcheck htold
      refine ⟨⟨new, hlog, hchronicle⟩, fun q hq => ?_, hheld⟩
      rcases List.mem_cons.mp hq with rfl | hq
      · exact ⟨job, hrun⟩
      · exact hkept q hq
    · next hover =>
      have hdead : ctx.live (r.isLive ctx run.epoch).2.world job.epoch = false := by
        rw [← hrun.epoch]
        exact Bool.eq_false_iff.mpr hover
      split
      · have hdropped : Told ctx known (r.isLive ctx run.epoch).2
            ((r.isLive ctx run.epoch).2.record (.dropped run.id .epochEnded)) := by
          rw [hrun.id]
          exact ⟨[_], rfl, Chronicle.refl.ended hrun.known hdead⟩
        obtain ⟨htold, hkept, hheld⟩ := ih _ hrest
        exact ⟨told_trans hcheck (told_trans hdropped htold), hkept, hheld⟩
      · obtain ⟨htold, hkept, hheld⟩ := ih (r.isLive ctx run.epoch).2 hrest
        exact ⟨told_trans hcheck htold, hkept, hheld⟩

/-- So does the sweep over the held jobs. -/
theorem retainHeld_told (held : List Job) :
    ∀ r : Runs W S A, (∀ job ∈ held, known job) →
      Told ctx known r (retainHeld ctx held r) ∧
        (∀ job ∈ (retainHeld ctx held r).held, known job) ∧
        (retainHeld ctx held r).active = r.active := by
  induction held with
  | nil => exact fun r _ => ⟨⟨[], (List.append_nil _).symm, .refl⟩, fun _ h =>
      absurd h List.not_mem_nil, rfl⟩
  | cons job rest ih =>
    intro r hheld
    have hjob := hheld job List.mem_cons_self
    have hrest : ∀ job ∈ rest, known job := fun q hq => hheld q (List.mem_cons_of_mem _ hq)
    have hcheck : Told ctx known r (r.isLive ctx job.epoch).2 := r.isLive_told ctx job.epoch
    unfold retainHeld
    dsimp only
    split
    · obtain ⟨htold, hkept, hactive⟩ := ih (r.isLive ctx job.epoch).2 hrest
      obtain ⟨new, hlog, hchronicle⟩ := told_trans hcheck htold
      refine ⟨⟨new, hlog, hchronicle⟩, fun q hq => ?_, hactive⟩
      rcases List.mem_cons.mp hq with rfl | hq
      · exact hjob
      · exact hkept q hq
    · next hover =>
      have hdead : ctx.live (r.isLive ctx job.epoch).2.world job.epoch = false :=
        Bool.eq_false_iff.mpr hover
      have hdropped : Told ctx known (r.isLive ctx job.epoch).2
          ((r.isLive ctx job.epoch).2.record (.dropped job.id .epochEnded)) :=
        ⟨[_], rfl, Chronicle.refl.ended hjob hdead⟩
      obtain ⟨htold, hkept, hactive⟩ := ih _ hrest
      exact ⟨told_trans hcheck (told_trans hdropped htold), hkept, hactive⟩

theorem releaseHeld_told (held : List Job) :
    ∀ r : Runs W S A, (∀ job ∈ held, known job) →
      (∀ run ∈ r.active, ∃ job, RunOf known job run) →
      Told ctx known r (releaseHeld ctx held r) ∧ AllKnown known (releaseHeld ctx held r) := by
  induction held with
  | nil => exact fun r _ hactive => ⟨⟨[], (List.append_nil _).symm, .refl⟩, hactive, fun _ h =>
      absurd h List.not_mem_nil⟩
  | cons job rest ih =>
    intro r hheld hactive
    have hrest : ∀ job ∈ rest, known job := fun q hq => hheld q (List.mem_cons_of_mem _ hq)
    unfold releaseHeld
    split
    · exact ⟨⟨[], (List.append_nil _).symm, .refl⟩, hactive, hheld⟩
    · dsimp only
      obtain ⟨hbegun, hknown⟩ := begin_told ctx (hheld job List.mem_cons_self)
        (r := { r with held := rest }) ⟨hactive, hrest⟩
      generalize { r with held := rest }.begin ctx job = r₁ at hbegun hknown ⊢
      obtain ⟨hadvanced, hactive'⟩ := advanceFrom_told ctx
        (r₁.active.drop r.active.length) (r₁.active.take r.active.length) r₁
        (fun q hq => hknown.active q (List.mem_of_mem_take hq))
        (fun q hq => hknown.active q (List.mem_of_mem_drop hq))
      obtain ⟨hreleased, hall⟩ := ih _ hrest hactive'
      exact ⟨told_trans hbegun (told_trans hadvanced hreleased), hall⟩

/-! ## A start, a poll -/

/-- **A poll does what its log says.** -/
theorem poll_told {r : Runs W S A} (h : AllKnown known r) :
    Told ctx known r (r.poll ctx) ∧ AllKnown known (r.poll ctx) := by
  unfold poll
  dsimp only
  obtain ⟨htold₁, hactive₁, hheld₁⟩ := retainActive_told ctx r.active r h.active
  generalize retainActive ctx r.active r = r₁ at *
  obtain ⟨htold₂, hheld₂, hactive₂⟩ := retainHeld_told ctx r₁.held r₁
    fun job hjob => h.held job (hheld₁ ▸ hjob)
  generalize retainHeld ctx r₁.held r₁ = r₂ at *
  have htold₃ : Told ctx known r₂ _ := r₂.sessionCall_told ctx ctx.session.tick (.inl rfl)
  have htick := r₂.sessionCall_quiet ctx ctx.session.tick
  generalize r₂.sessionCall ctx ctx.session.tick = r₃ at *
  have hactive₃ : ∀ run ∈ r₃.active, ∃ job, RunOf known job run := by
    rw [htick.active, hactive₂]
    exact hactive₁
  obtain ⟨htold₄, hactive₄⟩ := advanceFrom_told ctx r₃.active [] r₃
    (fun _ h => absurd h List.not_mem_nil) hactive₃
  have hheld₄ := (advanceFrom_held ctx r₃.active [] r₃).trans htick.held
  generalize advanceFrom ctx [] r₃.active r₃ = r₄ at *
  obtain ⟨htold₅, hknown₅⟩ := releaseHeld_told ctx r₄.held r₄
    (fun job hjob => hheld₂ job (hheld₄ ▸ hjob)) hactive₄
  generalize releaseHeld ctx r₄.held r₄ = r₅ at *
  have htold₆ : Told ctx known r₅ _ := r₅.sessionCall_told ctx ctx.session.restoreIfDue (.inr rfl)
  have hrestore := r₅.sessionCall_quiet ctx ctx.session.restoreIfDue
  refine ⟨told_trans htold₁ (told_trans htold₂ (told_trans htold₃ (told_trans htold₄
    (told_trans htold₅ htold₆)))), ?_, ?_⟩
  · rw [hrestore.active]
    exact hknown₅.active
  · rw [hrestore.held]
    exact hknown₅.held

/-- **A start does what its log says**, and drops a `Paste` only while one waits. -/
theorem start_told {job : Job} (hjob : known job) {r : Runs W S A} (h : AllKnown known r) :
    Told ctx known r (r.start ctx job) ∧ AllKnown known (r.start ctx job) ∧
      (lost .secondPaste (r.start ctx job).log ≠ lost .secondPaste r.log →
        r.pasteWaits = true) := by
  have hcheck : Told ctx known r (r.isLive ctx job.epoch).2 := r.isLive_told ctx job.epoch
  have hknown : AllKnown known (r.isLive ctx job.epoch).2 := ⟨h.active, h.held⟩
  unfold start
  dsimp only
  split
  · next hover =>
    have hdead : ctx.live (r.isLive ctx job.epoch).2.world job.epoch = false := by
      simpa [isLive] using hover
    refine ⟨told_trans hcheck ⟨[_], rfl, Chronicle.refl.ended hjob hdead⟩,
      ⟨h.active, h.held⟩, fun hlost => absurd ?_ hlost⟩
    simp [record, lost, isLive]
  · next hlive =>
    split
    · next hsecond =>
      rw [Bool.and_eq_true] at hsecond
      have hlive : ctx.live (r.isLive ctx job.epoch).2.world job.epoch = true := by
        simpa [isLive] using hlive
      exact ⟨told_trans hcheck ⟨[_], rfl, Chronicle.refl.second hjob hsecond.1 hlive⟩,
        ⟨h.active, h.held⟩, fun _ => hsecond.2⟩
    · split
      · refine ⟨hcheck, ⟨h.active, fun q hq => ?_⟩, fun hlost => absurd rfl hlost⟩
        rcases List.mem_append.mp hq with hq | hq
        · exact h.held q hq
        · rw [List.mem_singleton.mp hq]
          exact hjob
      · obtain ⟨hbegun, hall⟩ := begin_told ctx hjob hknown
        obtain ⟨fresh, hbooks⟩ := begin_begun ctx job (r.isLive ctx job.epoch).2
        exact ⟨told_trans hcheck hbegun, hall, fun hlost => absurd (hbooks.lost _) hlost⟩

end Runs

/-! ## Passes -/

/-- The jobs that passes submit, numbered on from `n`. -/
def submissions : Nat → List (Pass W S A) → List Job
  | _, [] => []
  | n, .submit _ action target epoch :: ps => ⟨n, action, target, epoch⟩ :: submissions (n + 1) ps
  | n, .poll _ :: ps => submissions n ps

theorem ids_submissions (n : Nat) (ps : List (Pass W S A)) :
    ids (submissions n ps) = List.range' n (submissions n ps).length := by
  induction ps generalizing n with
  | nil => rfl
  | cons p ps ih =>
    cases p with
    | submit ctx action target epoch =>
      show n :: ids (submissions (n + 1) ps) = List.range' n ((submissions (n + 1) ps).length + 1)
      rw [ih, List.range'_succ]
    | poll ctx => exact ih n

/-- A pass from `s` to `s'` does what its log says, and drops a second `Paste` only if
one waits as it begins. -/
structure PassTold (known : Job → Prop) (ctx : Ctx W S A) (s s' : Loop W S A) : Prop where
  told : Told ctx known s.runs s'.runs
  second : lost .secondPaste s'.runs.log ≠ lost .secondPaste s.runs.log →
    s.runs.pasteWaits = true

/-- **A pass does what its log says.** -/
theorem pass_told {known : Job → Prop} {s : Loop W S A} (hwf : ∀ run ∈ s.runs.active, run.Wf)
    (h : AllKnown known s.runs) {p : Pass W S A}
    (hp : ∀ job ∈ submissions s.submitted [p], known job) :
    PassTold known p.ctx s (s.pass p) ∧ AllKnown known (s.pass p).runs := by
  cases p with
  | submit ctx action target epoch =>
    obtain ⟨hstart, hknown, hsecond⟩ := Runs.start_told ctx
      (hp _ (List.mem_singleton_self _)) h
    have hwf' := Runs.start_wf ctx ⟨s.submitted, action, target, epoch⟩ hwf
    obtain ⟨gone, hpolled⟩ := Runs.poll_polled ctx (s.start ctx action target epoch).runs hwf'
    obtain ⟨hpoll, hknown'⟩ := Runs.poll_told ctx hknown
    refine ⟨⟨told_trans hstart hpoll, fun hlost => hsecond fun heq => hlost ?_⟩, hknown'⟩
    exact hpolled.pastes.trans heq
  | poll ctx =>
    obtain ⟨gone, hpolled⟩ := Runs.poll_polled ctx s.runs hwf
    obtain ⟨hpoll, hknown⟩ := Runs.poll_told ctx h
    exact ⟨⟨hpoll, fun hlost => absurd hpolled.pastes hlost⟩, hknown⟩

end Chronicle

end KeySwitch.Executor
