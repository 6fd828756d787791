import KeySwitch.Executor.Effects

/-!
# Jobs that begin, are held and are released

`Effects` says what one run does once it goes on. Here a job begins, at its
`start` or out of the held queue, the sweeps at the head of a poll drop what is
no longer live, and the loop at its end releases the held jobs.

Each lemma has the same parts: what became of the jobs begun, the runs that have
not started and the jobs held; that nothing else was lost or counted; and whether
every call was made for a live epoch. A held job begins with no check of its own:
its epoch was found live by the sweep earlier in the poll, and may have ended since
(`releases` tells the worlds in which the held jobs begin).
-/

namespace KeySwitch.Executor

open Data

variable {W S A : Type}

/-- The numbers of the jobs, in order. -/
def ids (held : List Job) : List Nat := held.map Job.id

/-! ## Beginning -/

/-- What the run of an action walks; a plain action has no run. -/
def bodyOf : BindAction → Option Body
  | .sequence steps => some (.sequence steps)
  | .paste spec => some (.paste spec)
  | _ => none

/-- The run of `job` that has not started. -/
def Run.fresh (job : Job) (body : Body) : Run A :=
  ⟨job.id, body, 0, job.target, job.epoch, .now, none⟩

theorem Run.fresh_wf (job : Job) (body : Body) : (Run.fresh job body : Run A).Wf :=
  ⟨fun hsome => absurd hsome Bool.false_ne_true, fun hsome => absurd hsome Bool.false_ne_true⟩

/-- `job` began or became a run that has not started, `fresh`. -/
structure Begun (ctx : Ctx W S A) (job : Job) (fresh : List (Run A)) (r r' : Runs W S A) :
    Prop where
  active : r'.active = r.active ++ fresh
  wf : ∀ run ∈ fresh, run.Wf
  began : began r'.log ++ unstarted fresh = began r.log ++ [job.id]
  lost : ∀ why, lost why r'.log = lost why r.log
  held : r'.held = r.held
  dropped : r'.calls.droppedPastes = r.calls.droppedPastes
  live : AllLive r'.log ↔
    AllLive r.log ∧ (job.action.isPlain = true → ctx.live r.world job.epoch = true)

namespace Runs

/-- A plain action runs at once, whether or not its epoch is live. -/
theorem begin_plain (ctx : Ctx W S A) {job : Job} (r : Runs W S A)
    (h : job.action.isPlain = true) :
    r.begin ctx job = (r.record (.began job.id)).runAction ctx job.epoch job.action := by
  cases haction : job.action with
  | sequence steps => simp [haction, BindAction.isPlain] at h
  | paste spec => simp [haction, BindAction.isPlain] at h
  | _ => simp only [begin, haction]

/-- Any other action becomes a run. -/
theorem begin_run (ctx : Ctx W S A) {job : Job} (r : Runs W S A)
    (h : job.action.isPlain = false) : ∃ body, bodyOf job.action = some body ∧
      r.begin ctx job = { r with active := r.active ++ [.fresh job body] } := by
  cases haction : job.action with
  | sequence steps => exact ⟨.sequence steps, rfl, by simp only [begin, haction]; rfl⟩
  | paste spec => exact ⟨.paste spec, rfl, by simp only [begin, haction]; rfl⟩
  | _ => simp [haction, BindAction.isPlain] at h

theorem begin_begun (ctx : Ctx W S A) (job : Job) (r : Runs W S A) :
    ∃ fresh, Begun ctx job fresh r (r.begin ctx job) := by
  cases h : job.action.isPlain with
  | true =>
    rw [begin_plain ctx r h]
    refine ⟨[], (List.append_nil _).symm, fun _ hrun => absurd hrun List.not_mem_nil, ?_,
      fun why => ?_, rfl, rfl, ?_⟩
    · simp [runAction, called, record, Executor.began, unstarted]
    · simp [runAction, called, record, Executor.lost]
    · -- Its call is made for its own epoch, and is the only one.
      have hlog : ((r.record (.began job.id)).runAction ctx job.epoch job.action).log =
          (r.record (.began job.id)).log ++ [.called (ctx.live r.world job.epoch)] := rfl
      rw [hlog, allLive_append, allLive_record (by simp)]
      have hcalled : AllLive [.called (ctx.live r.world job.epoch)] ↔
          ctx.live r.world job.epoch = true := by
        unfold AllLive
        simp
      rw [hcalled, h]
      exact and_congr_right fun _ => ⟨fun hlive _ => hlive, fun hlive => hlive rfl⟩
  | false =>
    obtain ⟨body, -, hbegin⟩ := begin_run ctx r h
    rw [hbegin]
    refine ⟨_, rfl, fun run hrun => ?_, rfl, fun _ => rfl, rfl, rfl, ?_⟩
    · rw [List.mem_singleton.mp hrun]
      exact Run.fresh_wf job body
    · rw [h]
      exact (and_iff_left fun hplain => absurd hplain Bool.false_ne_true).symm

end Runs

/-! ## The sweeps -/

/-- The sweep at the head of a poll: the jobs `gone` are lost with their epochs. -/
structure Swept (gone : List Nat) (r r' : Runs W S A) : Prop where
  began : began r'.log = began r.log
  ended : lost .epochEnded r'.log = lost .epochEnded r.log ++ gone
  pastes : lost .secondPaste r'.log = lost .secondPaste r.log
  dropped : r'.calls.droppedPastes = r.calls.droppedPastes
  live : AllLive r'.log ↔ AllLive r.log

theorem swept_trans {gone gone' : List Nat} {r₁ r₂ r₃ : Runs W S A}
    (h₁ : Swept gone r₁ r₂) (h₂ : Swept gone' r₂ r₃) : Swept (gone ++ gone') r₁ r₃ := by
  refine ⟨h₂.began.trans h₁.began, ?_, h₂.pastes.trans h₁.pastes, h₂.dropped.trans h₁.dropped,
    h₂.live.trans h₁.live⟩
  rw [h₂.ended, h₁.ended, List.append_assoc]

theorem quiet_swept {r r' : Runs W S A} (h : Quiet r r') : Swept [] r r' := by
  obtain ⟨hbegan, hlost, hlive⟩ := quiet_books h
  exact ⟨hbegan, by rw [hlost, List.append_nil], hlost _, h.dropped, hlive⟩

/-- One job lost with its epoch. -/
theorem record_swept (job : Nat) (r : Runs W S A) :
    Swept [job] r (r.record (.dropped job .epochEnded)) :=
  ⟨by simp [Runs.record, began], by simp [Runs.record, lost], by simp [Runs.record, lost], rfl,
    allLive_record (by simp)⟩

namespace Runs

theorem retainActive_swept (ctx : Ctx W S A) (active : List (Run A)) :
    ∀ r : Runs W S A, ∃ gone, Swept gone r (retainActive ctx active r) ∧
      (retainActive ctx active r).active.Sublist active ∧
      (unstarted (retainActive ctx active r).active ++ gone).Perm (unstarted active) ∧
      (retainActive ctx active r).held = r.held := by
  induction active with
  | nil => exact fun r => ⟨[], ⟨rfl, (List.append_nil _).symm, rfl, rfl, Iff.rfl⟩, by
      simp [retainActive], by simp [retainActive], rfl⟩
  | cons run rest ih =>
    intro r
    have hcheck := r.isLive_quiet ctx run.epoch
    unfold retainActive
    dsimp only
    split
    · obtain ⟨gone, hswept, hsub, hperm, hheld⟩ := ih (r.isLive ctx run.epoch).2
      have hall := swept_trans (quiet_swept hcheck) hswept
      refine ⟨gone, ⟨hall.began, hall.ended, hall.pastes, hall.dropped, hall.live⟩,
        hsub.cons_cons run, ?_, hheld⟩
      rw [unstarted_cons run rest, unstarted_cons run, List.append_assoc]
      exact hperm.append_left _
    · -- The run is dropped; if it had not started, it is lost.
      cases hnow : run.resume.isNow with
      | true =>
        obtain ⟨gone, hswept, hsub, hperm, hheld⟩ :=
          ih ((r.isLive ctx run.epoch).2.record (.dropped run.id .epochEnded))
        rw [if_pos rfl]
        refine ⟨run.id :: gone, swept_trans (quiet_swept hcheck)
          (swept_trans (record_swept run.id _) hswept), hsub.cons run, ?_, hheld⟩
        rw [unstarted_cons run rest, hnow, if_pos rfl, List.singleton_append]
        exact List.perm_middle.trans (hperm.cons run.id)
      | false =>
        obtain ⟨gone, hswept, hsub, hperm, hheld⟩ := ih (r.isLive ctx run.epoch).2
        rw [if_neg Bool.false_ne_true]
        refine ⟨gone, swept_trans (quiet_swept hcheck) hswept, hsub.cons run, ?_, hheld⟩
        rw [unstarted_cons run rest, hnow, if_neg Bool.false_ne_true, List.nil_append]
        exact hperm

theorem retainHeld_swept (ctx : Ctx W S A) (held : List Job) :
    ∀ r : Runs W S A, ∃ gone, Swept gone r (retainHeld ctx held r) ∧
      (retainHeld ctx held r).held.Sublist held ∧
      (ids (retainHeld ctx held r).held ++ gone).Perm (ids held) ∧
      (retainHeld ctx held r).active = r.active := by
  induction held with
  | nil => exact fun r => ⟨[], ⟨rfl, (List.append_nil _).symm, rfl, rfl, Iff.rfl⟩, by
      simp [retainHeld], by simp [retainHeld, ids], rfl⟩
  | cons job rest ih =>
    intro r
    have hcheck := r.isLive_quiet ctx job.epoch
    unfold retainHeld
    dsimp only
    split
    · obtain ⟨gone, hswept, hsub, hperm, hactive⟩ := ih (r.isLive ctx job.epoch).2
      have hall := swept_trans (quiet_swept hcheck) hswept
      exact ⟨gone, ⟨hall.began, hall.ended, hall.pastes, hall.dropped, hall.live⟩,
        hsub.cons_cons job, hperm.cons job.id, hactive⟩
    · obtain ⟨gone, hswept, hsub, hperm, hactive⟩ :=
        ih ((r.isLive ctx job.epoch).2.record (.dropped job.id .epochEnded))
      exact ⟨job.id :: gone, swept_trans (quiet_swept hcheck)
        (swept_trans (record_swept job.id _) hswept), hsub.cons job,
        List.perm_middle.trans (hperm.cons job.id), hactive⟩

end Runs

/-! ## Releasing the held jobs -/

namespace Runs

/-- The held jobs that the end of a poll begins, each with the runs in whose world it
does. -/
def releases (ctx : Ctx W S A) : List Job → Runs W S A → List (Job × Runs W S A)
  | [], _ => []
  | job :: rest, r =>
    if r.attemptWaits then []
    else
      let first := r.active.length
      let begun := { r with held := rest }.begin ctx job
      (job, r) ::
        releases ctx rest
          (advanceFrom ctx (begun.active.take first) (begun.active.drop first) begun)

end Runs

/-- No plain action among `released` begins once its epoch is over. -/
def LiveAtRelease (ctx : Ctx W S A) (released : List (Job × Runs W S A)) : Prop :=
  ∀ x ∈ released, x.1.action.isPlain = true → ctx.live x.2.world x.1.epoch = true

theorem liveAtRelease_cons {ctx : Ctx W S A} {x : Job × Runs W S A}
    {released : List (Job × Runs W S A)} :
    LiveAtRelease ctx (x :: released) ↔
      (x.1.action.isPlain = true → ctx.live x.2.world x.1.epoch = true) ∧
        LiveAtRelease ctx released := List.forall_mem_cons

/-- The end of a poll: of the jobs `held` the first ones began, up to one that
left its paste waiting. -/
structure Released (ctx : Ctx W S A) (held : List Job) (r r' : Runs W S A) : Prop where
  began : began r'.log ++ ids r'.held = began r.log ++ ids held
  lost : ∀ why, lost why r'.log = lost why r.log
  unstarted : unstarted r'.active = []
  wf : ∀ run ∈ r'.active, run.Wf
  waits : r'.held = [] ∨ r'.attemptWaits = true
  dropped : r'.calls.droppedPastes = r.calls.droppedPastes
  live : AllLive r'.log ↔ AllLive r.log ∧ LiveAtRelease ctx (r.releases ctx held)

namespace Runs

theorem releaseHeld_released (ctx : Ctx W S A) (held : List Job) :
    ∀ r : Runs W S A, unstarted r.active = [] → (∀ run ∈ r.active, run.Wf) →
      Released ctx held r (releaseHeld ctx held r) := by
  have hnothing : ∀ r : Runs W S A, AllLive r.log ↔ AllLive r.log ∧ LiveAtRelease ctx [] :=
    fun r => (and_iff_left fun _ h => absurd h List.not_mem_nil).symm
  induction held with
  | nil =>
    intro r hnone hwf
    exact ⟨rfl, fun _ => rfl, hnone, hwf, .inl rfl, rfl, hnothing r⟩
  | cons job rest ih =>
    intro r hnone hwf
    unfold releaseHeld
    dsimp only
    split
    · next hwaits =>
      refine ⟨rfl, fun _ => rfl, hnone, hwf, .inr hwaits, rfl, ?_⟩
      unfold releases
      rw [if_pos hwaits]
      exact hnothing r
    · -- `job` begins, and is advanced before the next one is looked at.
      next hfree =>
      have hreleases := Eq.refl (r.releases ctx (job :: rest))
      conv_rhs at hreleases => unfold releases
      rw [if_neg hfree] at hreleases
      dsimp only at hreleases
      obtain ⟨fresh, hbegun⟩ := begin_begun ctx job { r with held := rest }
      generalize { r with held := rest }.begin ctx job = r₁ at hbegun hreleases ⊢
      have hactive : r₁.active = r.active ++ fresh := hbegun.active
      rw [hactive, List.take_left, List.drop_left] at hreleases ⊢
      have hadvanced := advanceFrom_advanced ctx fresh r.active r₁ hnone hwf hbegun.wf
      generalize advanceFrom ctx r.active fresh r₁ = r₂ at hadvanced hreleases ⊢
      have h := ih r₂ hadvanced.unstarted hadvanced.wf
      refine ⟨?_, fun why => ?_, h.unstarted, h.wf, h.waits, ?_, ?_⟩
      · have hids : ids (job :: rest) = [job.id] ++ ids rest := rfl
        rw [h.began, hadvanced.began, hbegun.began, hids, List.append_assoc]
      · rw [h.lost, hadvanced.lost, hbegun.lost]
      · rw [h.dropped, hadvanced.dropped, hbegun.dropped]
      · rw [h.live, hadvanced.live, hbegun.live, hreleases, liveAtRelease_cons, and_assoc]

end Runs

/-! ## A poll -/

/-- The jobs the runs ever took and kept: begun, about to start, held. -/
def line (r : Runs W S A) : List Nat := began r.log ++ unstarted r.active ++ ids r.held

namespace Runs

/-- The held jobs that `poll` begins, each with the runs in whose world it does. -/
def released (ctx : Ctx W S A) (r : Runs W S A) : List (Job × Runs W S A) :=
  let r := retainActive ctx r.active r
  let r := retainHeld ctx r.held r
  let r := r.sessionCall ctx ctx.session.tick
  let r := advanceFrom ctx [] r.active r
  r.releases ctx r.held

end Runs

/-- A poll: the jobs `gone` are lost with their epochs, every run has started,
and jobs stay held only behind a paste. -/
structure Polled (ctx : Ctx W S A) (gone : List Nat) (r r' : Runs W S A) : Prop where
  sub : (line r').Sublist (line r)
  line : (line r' ++ gone).Perm (line r)
  ended : lost .epochEnded r'.log = lost .epochEnded r.log ++ gone
  pastes : lost .secondPaste r'.log = lost .secondPaste r.log
  unstarted : unstarted r'.active = []
  wf : ∀ run ∈ r'.active, run.Wf
  waits : r'.held = [] ∨ r'.attemptWaits = true
  dropped : r'.calls.droppedPastes = r.calls.droppedPastes
  live : AllLive r'.log ↔ AllLive r.log ∧ LiveAtRelease ctx (r.released ctx)

namespace Runs

theorem poll_polled (ctx : Ctx W S A) (r : Runs W S A) (hwf : ∀ run ∈ r.active, run.Wf) :
    ∃ gone, Polled ctx gone r (r.poll ctx) := by
  have hreleases := Eq.refl (r.released ctx)
  conv_rhs at hreleases => unfold released
  unfold poll
  dsimp only at hreleases ⊢
  obtain ⟨gone₁, hswept₁, hsub₁, hperm₁, hheld₁⟩ := retainActive_swept ctx r.active r
  generalize retainActive ctx r.active r = r₁ at *
  obtain ⟨gone₂, hswept₂, hsub₂, hperm₂, hactive₂⟩ := retainHeld_swept ctx r₁.held r₁
  generalize retainHeld ctx r₁.held r₁ = r₂ at *
  have htick := r₂.sessionCall_quiet ctx ctx.session.tick
  generalize r₂.sessionCall ctx ctx.session.tick = r₃ at *
  have hwf₃ : ∀ run ∈ r₃.active, run.Wf := by
    intro run hrun
    rw [htick.active, hactive₂] at hrun
    exact hwf run (hsub₁.subset hrun)
  have hadvanced := advanceFrom_advanced ctx r₃.active [] r₃ rfl
    (fun _ h => absurd h List.not_mem_nil) hwf₃
  generalize advanceFrom ctx [] r₃.active r₃ = r₄ at *
  have hreleased := releaseHeld_released ctx r₄.held r₄ hadvanced.unstarted hadvanced.wf
  generalize releaseHeld ctx r₄.held r₄ = r₅ at *
  have hrestore := r₅.sessionCall_quiet ctx ctx.session.restoreIfDue
  generalize r₅.sessionCall ctx ctx.session.restoreIfDue = r₆ at *
  obtain ⟨hbegan₃, hlost₃, hlive₃⟩ := quiet_books htick
  obtain ⟨hbegan₆, hlost₆, hlive₆⟩ := quiet_books hrestore
  have hheld₄ : r₄.held = r₂.held := hadvanced.held.trans htick.held
  -- Nothing after the sweeps changes the line.
  have hline : line r₆ = began r.log ++ (unstarted r₁.active ++ ids r₂.held) := by
    unfold line
    rw [hrestore.active, hreleased.unstarted, List.append_nil, hrestore.held, hbegan₆,
      hreleased.began, hadvanced.began, hbegan₃, hswept₂.began, hswept₁.began, htick.active,
      hactive₂, hheld₄, List.append_assoc]
  have hline₀ : line r = began r.log ++ (unstarted r.active ++ ids r₁.held) := by
    unfold line
    rw [hheld₁, List.append_assoc]
  refine ⟨gone₁ ++ gone₂, ?_, ?_, ?_, ?_, ?_, ?_, ?_, ?_, ?_⟩
  · rw [hline, hline₀]
    refine List.Sublist.append_left (List.Sublist.append ?_ (hsub₂.map _)) _
    exact (hsub₁.filter _).map _
  · rw [hline, hline₀, List.append_assoc]
    refine List.Perm.append_left _ ?_
    have hmove : (unstarted r₁.active ++ ids r₂.held ++ (gone₁ ++ gone₂)).Perm
        (unstarted r₁.active ++ gone₁ ++ (ids r₂.held ++ gone₂)) := by
      rw [List.append_assoc, List.append_assoc]
      refine List.Perm.append_left _ ?_
      rw [← List.append_assoc, ← List.append_assoc]
      exact List.perm_append_comm.append_right _
    exact hmove.trans (hperm₁.append hperm₂)
  · rw [hlost₆, hreleased.lost, hadvanced.lost, hlost₃, hswept₂.ended, hswept₁.ended,
      List.append_assoc]
  · rw [hlost₆, hreleased.lost, hadvanced.lost, hlost₃, hswept₂.pastes, hswept₁.pastes]
  · rw [hrestore.active, hreleased.unstarted]
  · rw [hrestore.active]
    exact hreleased.wf
  · unfold attemptWaits
    rw [hrestore.held, hrestore.active]
    exact hreleased.waits
  · rw [hrestore.dropped, hreleased.dropped, hadvanced.dropped, htick.dropped, hswept₂.dropped,
      hswept₁.dropped]
  · rw [hlive₆, hreleased.live, hadvanced.live, hlive₃, hswept₂.live, hswept₁.live, hreleases]

end Runs

/-! ## A start -/

/-- What a lost job adds to the dropped pastes. -/
def Lost.counted : Lost → Nat
  | epochEnded => 0
  | secondPaste => 1

/-- What `start` does with `job`, after the read of its epoch. -/
inductive Started (ctx : Ctx W S A) (job : Job) (r : Runs W S A) : Runs W S A → Prop
  | refused {q : Runs W S A} (why : Lost) (quiet : Quiet r q) : Started ctx job r
      ({ q with calls := { q.calls with
          droppedPastes := q.calls.droppedPastes + why.counted } }.record (.dropped job.id why))
  | waits {q : Runs W S A} (quiet : Quiet r q) (waits : q.attemptWaits = true) :
      Started ctx job r { q with held := q.held ++ [job] }
  | begun {q : Runs W S A} (quiet : Quiet r q) (free : q.attemptWaits = false)
      (live : ctx.live q.world job.epoch = true) : Started ctx job r (q.begin ctx job)

namespace Runs

theorem start_started (ctx : Ctx W S A) (job : Job) (r : Runs W S A) :
    Started ctx job r (r.start ctx job) := by
  have hquiet := r.isLive_quiet ctx job.epoch
  unfold start
  dsimp only
  split
  · exact .refused .epochEnded hquiet
  · next hlive =>
    split
    · exact .refused .secondPaste hquiet
    · split
      · next hwaits => exact .waits hquiet hwaits
      · next hfree =>
        have hlive : (r.isLive ctx job.epoch).1 = true := by simpa using hlive
        exact .begun hquiet (Bool.eq_false_iff.mpr hfree) hlive

/-- A job that begins at its `start` begins right after the check of its epoch. -/
theorem start_live (ctx : Ctx W S A) (job : Job) (r : Runs W S A) :
    AllLive (r.start ctx job).log ↔ AllLive r.log := by
  have hstarted := start_started ctx job r
  generalize r.start ctx job = r' at hstarted ⊢
  cases hstarted with
  | refused why hquiet => exact (allLive_record (by simp)).trans (quiet_books hquiet).2.2
  | waits hquiet _ => exact (quiet_books hquiet).2.2
  | @begun q hquiet _ hlive =>
    obtain ⟨fresh, hbegun⟩ := begin_begun ctx job q
    rw [hbegun.live, (quiet_books hquiet).2.2]
    exact and_iff_left fun _ => hlive

theorem start_wf (ctx : Ctx W S A) (job : Job) {r : Runs W S A}
    (hwf : ∀ run ∈ r.active, run.Wf) : ∀ run ∈ (r.start ctx job).active, run.Wf := by
  have hsame : ∀ {q : Runs W S A}, Quiet r q → ∀ run ∈ q.active, run.Wf := by
    intro q hquiet run hrun
    exact hwf run (hquiet.active ▸ hrun)
  have hstarted := start_started ctx job r
  generalize r.start ctx job = r' at hstarted ⊢
  cases hstarted with
  | refused why hquiet => exact fun run hrun => hsame hquiet run hrun
  | waits hquiet _ => exact fun run hrun => hsame hquiet run hrun
  | @begun q hquiet _ _ =>
    obtain ⟨fresh, hbegun⟩ := begin_begun ctx job q
    intro run hrun
    rw [hbegun.active] at hrun
    rcases List.mem_append.mp hrun with hrun | hrun
    · exact hsame hquiet run hrun
    · exact hbegun.wf run hrun

end Runs

end KeySwitch.Executor
