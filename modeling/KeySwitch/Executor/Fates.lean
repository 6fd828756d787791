import KeySwitch.Executor.Chronicle
import KeySwitch.Executor.Wakes

/-!
# Where every job is

A job that a `submit` could queue is numbered. Whatever the threads do, and in any order, the
queue holds the newest jobs in the order in which they were queued, never more than it has
room for. The executor thread has taken the others, each once: such a job has begun, waits to
begin, or was dropped for a reason that is logged (`Booked`). Only a thread that died takes
jobs out without starting them, and it counts each (`system_accounted`). What the log
says of a job is what happened to it: a step of the thread logs nothing, or what a pass
of the loop logs, which is a true chronicle (`Logged`).

The order in which the jobs begin is not told here: `drop_timed` may leave held jobs behind,
and the next one overtakes them.
-/

namespace KeySwitch.Executor

open Data Lib

variable {V W S A : Type}

/-! ## What other threads do to the queue -/

/-- From `s` to `s'` the jobs `new` were queued, numbered on from those before. -/
structure Grown (new : List Job) (s s' : Shared) : Prop where
  items : s'.mail.items = s.mail.items ++ new
  queued : s'.queued = s.queued ++ new
  numbers : ids new = List.range' s.queued.length new.length
  capacity : s'.mail.capacity = s.mail.capacity
  bounded : s.mail.items.length ≤ s.mail.capacity → s'.mail.items.length ≤ s'.mail.capacity
  receiving : s'.receiving = s.receiving
  uncounted : s.receiving = true → s'.unavailable = s.unavailable
  counted : s.unavailable ≤ s'.unavailable
  activeRuns : s'.activeRuns = s.activeRuns
  pasteDropped : s'.pasteDropped = s.pasteDropped

theorem grown_refl (s : Shared) : Grown [] s s :=
  ⟨(List.append_nil _).symm, (List.append_nil _).symm, rfl, rfl, id, rfl, fun _ => rfl,
    Nat.le_refl _, rfl, rfl⟩

theorem grown_trans {new new' : List Job} {s₁ s₂ s₃ : Shared} (h₁ : Grown new s₁ s₂)
    (h₂ : Grown new' s₂ s₃) : Grown (new ++ new') s₁ s₃ := by
  refine ⟨?_, ?_, ?_, h₂.capacity.trans h₁.capacity, fun h => h₂.bounded (h₁.bounded h),
    h₂.receiving.trans h₁.receiving, fun h => ?_, Nat.le_trans h₁.counted h₂.counted,
    h₂.activeRuns.trans h₁.activeRuns, h₂.pasteDropped.trans h₁.pasteDropped⟩
  · rw [h₂.items, h₁.items, List.append_assoc]
  · rw [h₂.queued, h₁.queued, List.append_assoc]
  · have hids : ids (new ++ new') = ids new ++ ids new' := List.map_append
    rw [hids, h₁.numbers, h₂.numbers, h₁.queued, List.length_append, List.length_append,
      List.range'_append_1]
  · rw [h₂.uncounted (h₁.receiving.trans h), h₁.uncounted h]

/-- What is not about the queue may change, if nothing is counted wrongly. -/
theorem grown_same {s s' : Shared} (hmail : s'.mail = s.mail) (hqueued : s'.queued = s.queued)
    (hreceiving : s'.receiving = s.receiving) (hunavailable : s'.unavailable = s.unavailable)
    (hactiveRuns : s'.activeRuns = s.activeRuns) (hpastes : s'.pasteDropped = s.pasteDropped) :
    Grown [] s s' := by
  refine ⟨?_, ?_, rfl, ?_, ?_, hreceiving, fun _ => hunavailable, Nat.le_of_eq hunavailable.symm,
    hactiveRuns, hpastes⟩
  · rw [hmail, List.append_nil]
  · rw [hqueued, List.append_nil]
  · rw [hmail]
  · rw [hmail]
    exact id

theorem trySend_grown (s : Shared) (offer : Offer) : ∃ new, Grown new s (s.trySend offer) := by
  unfold Shared.trySend
  split
  · next hgone =>
    split
    · exact ⟨[], grown_refl s⟩
    · refine ⟨[], (List.append_nil _).symm, (List.append_nil _).symm, rfl, rfl, id, rfl,
        fun h => ?_, Nat.le_succ _, rfl, rfl⟩
      rw [h] at hgone
      exact absurd hgone (by simp)
  · dsimp only
    split
    · next mail hmail =>
      obtain ⟨hroom, rfl⟩ := Mailbox.trySend_some hmail
      refine ⟨[_], rfl, rfl, rfl, rfl, ?_, rfl, fun _ => rfl, Nat.le_refl _, rfl, rfl⟩
      intro _
      rw [List.length_append]
      exact hroom
    · exact ⟨[], grown_same rfl rfl rfl rfl rfl rfl⟩

theorem act_grown (s : Shared) (act : Act) : ∃ new, Grown new s (s.act act) := by
  cases act with
  | submit action target => exact ⟨[], grown_same rfl rfl rfl rfl rfl rfl⟩
  | trySend i =>
    unfold Shared.act
    dsimp only
    split
    · exact ⟨[], grown_refl s⟩
    · next offer _ =>
      obtain ⟨new, h⟩ := trySend_grown { s with offers := s.offers.eraseIdx i } offer
      exact ⟨new, h.items, h.queued, h.numbers, h.capacity, h.bounded, h.receiving, h.uncounted,
        h.counted, h.activeRuns, h.pasteDropped⟩
  | wake accepted =>
    refine ⟨[], ?_, (List.append_nil _).symm, rfl, ?_, fun h => ?_, rfl, fun _ => rfl,
      Nat.le_refl _, rfl, rfl⟩
    · rw [List.append_nil]
      exact Mailbox.post_items _ _
    · exact Mailbox.post_capacity _ _
    · show (s.mail.post accepted).items.length ≤ (s.mail.post accepted).capacity
      rw [Mailbox.post_items, Mailbox.post_capacity]
      exact h
  | cancelPending =>
    exact ⟨[], (List.append_nil _).symm, (List.append_nil _).symm, rfl, rfl, id, rfl,
      fun _ => rfl, Nat.le_refl _, rfl, rfl⟩
  | stop => exact ⟨[], grown_same rfl rfl rfl rfl rfl rfl⟩
  | stopCancels =>
    unfold Shared.act
    dsimp only
    split
    · exact ⟨[], grown_refl s⟩
    · exact ⟨[], (List.append_nil _).symm, (List.append_nil _).symm, rfl, rfl, id, rfl,
        fun _ => rfl, Nat.le_refl _, rfl, rfl⟩

theorem moves_grown {s s' : Shared} (h : Moves s s') : ∃ new, Grown new s s' := by
  obtain ⟨acts, rfl⟩ := h
  induction acts generalizing s with
  | nil => exact ⟨[], grown_refl s⟩
  | cons act acts ih =>
    obtain ⟨new, hact⟩ := act_grown s act
    obtain ⟨new', hacts⟩ := ih (s := s.act act)
    exact ⟨new ++ new', grown_trans hact hacts⟩

theorem pumps_grown {s s' : Shared} (h : Pumps s s') : ∃ new, Grown new s s' := by
  induction h with
  | refl => exact ⟨[], grown_refl s⟩
  | @act s' _ act ih =>
    obtain ⟨new, h⟩ := ih
    obtain ⟨new', hact⟩ := act_grown s' act
    exact ⟨new ++ new', grown_trans h hact⟩
  | take _ taken ih =>
    obtain ⟨new, h⟩ := ih
    exact ⟨new, h.items, h.queued, h.numbers, h.capacity, h.bounded, h.receiving, h.uncounted,
      h.counted, h.activeRuns, h.pasteDropped⟩

/-- Jobs are queued during runner calls too. -/
theorem made_grown {env : Env V S A} {w w' : World V} {n : Nat} (h : Made env.ctx w n w') :
    ∃ new, Grown new w.shared w'.shared := by
  have hnext : ∀ {w₁ w₂ : World V}, (∃ new, Grown new w.shared w₁.shared) →
      (∃ new, Grown new w₁.shared w₂.shared) → ∃ new, Grown new w.shared w₂.shared := by
    intro w₁ w₂ h₁ h₂
    obtain ⟨new, h₁⟩ := h₁
    obtain ⟨new', h₂⟩ := h₂
    exact ⟨new ++ new', grown_trans h₁ h₂⟩
  induction h with
  | refl => exact ⟨[], grown_refl _⟩
  | drift _ ih => exact hnext ih (moves_grown (env.drift_moves _))
  | action a _ ih => exact hnext ih (pumps_grown (env.action_pumps a _))
  | step s t _ ih => exact hnext ih (pumps_grown (env.step_pumps s t _))
  | attempt s a spec epoch _ ih => exact hnext ih (pumps_grown (env.attempt_pumps s a spec epoch _))
  | tick s now _ ih => exact hnext ih (pumps_grown (env.tick_pumps s now _))
  | tickIdle s now _ _ ih => exact hnext ih (pumps_grown (env.tick_pumps s now _))
  | restore s now _ ih => exact hnext ih (pumps_grown (env.restoreIfDue_pumps s now _))
  | restoreIdle s now _ _ ih => exact hnext ih (pumps_grown (env.restoreIfDue_pumps s now _))
  | giveUp s _ ih => exact hnext ih (pumps_grown (env.giveUp_pumps s _))

/-! ## The queue -/

/-- The queue with room for `c` jobs, of which the first `k` were taken to be started. -/
structure Queued (c k : Nat) (s : Shared) : Prop where
  capacity : s.mail.capacity = c
  bounded : s.mail.items.length ≤ c
  /-- It holds the newest jobs, in order. -/
  newest : s.mail.items <:+ s.queued
  numbered : ids s.queued = List.range s.queued.length
  /-- Each job is taken, counted or still here. -/
  exact : s.receiving = true → s.queued.length = k + s.unavailable + s.mail.items.length
  /-- The jobs fired once the thread is gone are counted too. -/
  least : k + s.mail.items.length ≤ s.queued.length
  most : s.queued.length ≤ k + s.unavailable + s.mail.items.length

theorem queued_grown {c k : Nat} {new : List Job} {s s' : Shared} (h : Queued c k s)
    (hgrown : Grown new s s') : Queued c k s' := by
  have hlength : s'.mail.items.length = s.mail.items.length + new.length := by
    rw [hgrown.items, List.length_append]
  have hqueued : s'.queued.length = s.queued.length + new.length := by
    rw [hgrown.queued, List.length_append]
  have hleast := h.least
  have hmost := h.most
  have hcounted := hgrown.counted
  refine ⟨hgrown.capacity.trans h.capacity, ?_, ?_, ?_, fun hreceiving => ?_, by omega, by omega⟩
  · have hbounded := hgrown.bounded (by rw [h.capacity]; exact h.bounded)
    rw [hgrown.capacity, h.capacity] at hbounded
    exact hbounded
  · obtain ⟨older, holder⟩ := h.newest
    refine ⟨older, ?_⟩
    rw [hgrown.items, hgrown.queued, ← holder, List.append_assoc]
  · have hids : ids (s.queued ++ new) = ids s.queued ++ ids new := List.map_append
    rw [hqueued, hgrown.queued, hids, h.numbered, hgrown.numbers, List.range_eq_range',
      List.range_eq_range']
    nth_rewrite 2 [← Nat.zero_add s.queued.length]
    rw [List.range'_append_1]
  · have hreceiving' : s.receiving = true := hgrown.receiving.symm.trans hreceiving
    have hexact := h.exact hreceiving'
    have huncounted := hgrown.uncounted hreceiving'
    omega

/-- What the queue says nothing of may change. -/
theorem queued_congr {c k : Nat} {s s' : Shared} (h : Queued c k s)
    (hitems : s'.mail.items = s.mail.items) (hcapacity : s'.mail.capacity = s.mail.capacity)
    (hreceiving : s'.receiving = true → s.receiving = true) (hqueued : s'.queued = s.queued)
    (hunavailable : s'.unavailable = s.unavailable) : Queued c k s' := by
  refine ⟨hcapacity.trans h.capacity, ?_, ?_, ?_, fun hr => ?_, ?_, ?_⟩
  · rw [hitems]
    exact h.bounded
  · rw [hitems, hqueued]
    exact h.newest
  · rw [hqueued]
    exact h.numbered
  · rw [hitems, hqueued, hunavailable]
    exact h.exact (hreceiving hr)
  · rw [hitems, hqueued]
    exact h.least
  · rw [hitems, hqueued, hunavailable]
    exact h.most

/-- The job that is taken is the next one. -/
theorem queued_receive {c k : Nat} {s : Shared} {job : Job} {mail : Mailbox Job}
    (h : Queued c k s) (huncounted : s.unavailable = 0) (hreceiving : s.receiving = true)
    (hreceive : s.mail.receive = some (job, mail)) :
    job.id = k ∧ job ∈ s.queued ∧ Queued c (k + 1) { s with mail := mail } := by
  obtain ⟨items, hitems, rfl⟩ := Mailbox.receive_some hreceive
  have hlength : s.mail.items.length = items.length + 1 := by rw [hitems, List.length_cons]
  have hexact := h.exact hreceiving
  have hbounded := h.bounded
  obtain ⟨older, holder⟩ := h.newest
  rw [hitems] at holder
  have hqueued : s.queued.length = older.length + (items.length + 1) := by
    rw [← holder, List.length_append, List.length_cons]
  have hid : job.id = older.length := by
    have hnumbered := h.numbered
    rw [hqueued, ← holder] at hnumbered
    have hget := congrArg (fun l => l[older.length]?) hnumbered
    simp only [ids, List.map_append, List.map_cons] at hget
    rw [List.getElem?_append_right (by simp), List.length_map, Nat.sub_self,
      List.getElem?_range (by omega)] at hget
    exact Option.some.inj hget
  refine ⟨by omega, ?_, h.capacity, ?_, ?_, h.numbered, fun _ => ?_, ?_, ?_⟩
  · rw [← holder]
    exact List.mem_append_right _ List.mem_cons_self
  · show items.length ≤ c
    omega
  · exact ⟨older ++ [job], by rw [← holder, List.append_assoc]; rfl⟩
  · show s.queued.length = k + 1 + s.unavailable + items.length
    omega
  · show k + 1 + items.length ≤ s.queued.length
    omega
  · show s.queued.length ≤ k + 1 + s.unavailable + items.length
    omega

/-- A thread that died counts the job that it takes. -/
theorem queued_count {c k : Nat} {s : Shared} {job : Job} {mail : Mailbox Job}
    (h : Queued c k s) (hreceive : s.mail.receive = some (job, mail)) :
    Queued c k { s with mail := mail, unavailable := s.unavailable + 1 } := by
  obtain ⟨items, hitems, rfl⟩ := Mailbox.receive_some hreceive
  have hlength : s.mail.items.length = items.length + 1 := by rw [hitems, List.length_cons]
  have hleast := h.least
  have hmost := h.most
  have hbounded := h.bounded
  obtain ⟨older, holder⟩ := h.newest
  rw [hitems] at holder
  refine ⟨h.capacity, ?_, ?_, h.numbered, fun hreceiving => ?_, ?_, ?_⟩
  · show items.length ≤ c
    omega
  · exact ⟨older ++ [job], by rw [← holder, List.append_assoc]; rfl⟩
  · have hexact := h.exact hreceiving
    show s.queued.length = k + (s.unavailable + 1) + items.length
    omega
  · show k + items.length ≤ s.queued.length
    omega
  · show s.queued.length ≤ k + (s.unavailable + 1) + items.length
    omega

/-! ## The jobs that were taken -/

/-- Each of the jobs taken has begun, waits in a run that has not started, is held, or was
lost for one of the two reasons. -/
structure Booked (l : Loop W S A) : Prop where
  total : (line l.runs ++ (lost .epochEnded l.runs.log ++ lost .secondPaste l.runs.log)).Perm
    (List.range l.submitted)
  wf : ∀ run ∈ l.runs.active, run.Wf
  counted : l.runs.calls.droppedPastes = (lost .secondPaste l.runs.log).length
  room : l.runs.held.length ≤ QUEUE_CAPACITY

theorem booked_new (session : S) (world : W) : Booked (Loop.new session world : Loop W S A) :=
  ⟨List.Perm.refl _, fun _ h => absurd h List.not_mem_nil, rfl, Nat.zero_le _⟩

/-- A dropped job is lost for exactly one of the two reasons. -/
theorem lost_dropped (id : Nat) (why : Lost) :
    lost .epochEnded [.dropped id why] ++ lost .secondPaste [.dropped id why] = [id] := by
  cases why <;> rfl

/-- One job more, wherever it goes. -/
theorem start_booked {l : Loop W S A} (h : Booked l) (ctx : Ctx W S A) (action : BindAction)
    (target : TargetWindow) (epoch : Nat) (hroom : l.runs.canTake = true) :
    Booked (l.start ctx action target epoch) := by
  have hwf := Runs.start_wf ctx ⟨l.submitted, action, target, epoch⟩ h.wf
  have hstarted := l.runs.start_started ctx ⟨l.submitted, action, target, epoch⟩
  have htotal := List.perm_iff_count.mp h.total
  have hheld : l.runs.held.length < QUEUE_CAPACITY := of_decide_eq_true hroom
  unfold Loop.start
  generalize l.runs.start ctx ⟨l.submitted, action, target, epoch⟩ = r' at hwf hstarted ⊢
  cases hstarted with
  | @refused q why hquiet =>
    obtain ⟨-, hlost, -⟩ := quiet_books hquiet
    have hline : ∀ calls, line ({ q with calls := calls }.record (.dropped l.submitted why)) =
        line l.runs := by
      intro calls
      rw [← quiet_line hquiet]
      simp [line, Runs.record, began]
    refine ⟨List.perm_iff_count.mpr fun a => ?_, hwf, ?_, ?_⟩
    · have ha := htotal a
      dsimp only
      rw [List.range_succ, hline]
      have hone := congrArg (List.count a) (lost_dropped l.submitted why)
      simp only [Runs.record, lost_append, hlost, List.count_append] at ha hone ⊢
      omega
    · simp only [Runs.record, lost_append, hlost, hquiet.dropped, h.counted, List.length_append]
      cases why <;> simp [lost, Lost.counted]
    · show q.held.length ≤ QUEUE_CAPACITY
      rw [hquiet.held]
      exact h.room
  | @waits q hquiet _ =>
    obtain ⟨-, hlost, -⟩ := quiet_books hquiet
    have hline : line { q with held := q.held ++ [⟨l.submitted, action, target, epoch⟩] } =
        line l.runs ++ [l.submitted] := by
      rw [← quiet_line hquiet]
      simp [line, ids]
    refine ⟨List.perm_iff_count.mpr fun a => ?_, hwf, ?_, ?_⟩
    · have ha := htotal a
      dsimp only
      rw [List.range_succ, hline, hlost, hlost]
      simp only [List.count_append] at ha ⊢
      omega
    · simp only [hlost, hquiet.dropped, h.counted]
    · show (q.held ++ [_]).length ≤ QUEUE_CAPACITY
      rw [List.length_append, hquiet.held]
      exact hheld
  | @begun q hquiet _ _ =>
    obtain ⟨hbegan, hlost, -⟩ := quiet_books hquiet
    obtain ⟨fresh, hbegun⟩ := Runs.begin_begun ctx ⟨l.submitted, action, target, epoch⟩ q
    refine ⟨List.perm_iff_count.mpr fun a => ?_, hwf, ?_, ?_⟩
    · have ha := htotal a
      have hid := congrArg (List.count a) (hbegun.began.trans (congrArg (· ++ _) hbegan))
      dsimp only
      rw [List.range_succ]
      simp only [line, hbegun.active, hbegun.held, hbegun.lost, hlost, hquiet.active, hquiet.held,
        unstarted_append, List.count_append] at ha hid ⊢
      omega
    · rw [hbegun.dropped, hquiet.dropped, hbegun.lost, hlost]
      exact h.counted
    · rw [hbegun.held, hquiet.held]
      exact h.room

/-- A poll releases held jobs, and holds none. -/
theorem releaseHeld_length (ctx : Ctx W S A) (held : List Job) :
    ∀ r : Runs W S A, (Runs.releaseHeld ctx held r).held.length ≤ held.length := by
  induction held with
  | nil => exact fun r => Nat.le_refl _
  | cons job rest ih =>
    intro r
    unfold Runs.releaseHeld
    split
    · exact Nat.le_refl _
    · exact Nat.le_succ_of_le (ih _)

theorem poll_held_length (ctx : Ctx W S A) (r : Runs W S A) :
    (r.poll ctx).held.length ≤ r.held.length := by
  unfold Runs.poll
  dsimp only
  obtain ⟨_, -, -, -, hheld₁⟩ := Runs.retainActive_swept ctx r.active r
  generalize Runs.retainActive ctx r.active r = r₁ at *
  obtain ⟨_, -, hsub₂, -, -⟩ := Runs.retainHeld_swept ctx r₁.held r₁
  generalize Runs.retainHeld ctx r₁.held r₁ = r₂ at *
  have htick : (r₂.sessionCall ctx ctx.session.tick).held = r₂.held :=
    (r₂.sessionCall_quiet ctx ctx.session.tick).held
  generalize r₂.sessionCall ctx ctx.session.tick = r₃ at *
  have hadvanced := Runs.advanceFrom_held ctx r₃.active [] r₃
  generalize Runs.advanceFrom ctx [] r₃.active r₃ = r₄ at *
  have hreleased := releaseHeld_length ctx r₄.held r₄
  generalize Runs.releaseHeld ctx r₄.held r₄ = r₅ at *
  have hrestore : (r₅.sessionCall ctx ctx.session.restoreIfDue).held = r₅.held :=
    (r₅.sessionCall_quiet ctx ctx.session.restoreIfDue).held
  have hswept := hsub₂.length_le
  rw [hrestore]
  rw [hadvanced, htick] at hreleased
  rw [hheld₁] at hswept
  omega

theorem poll_booked {l : Loop W S A} (h : Booked l) (ctx : Ctx W S A) : Booked (l.poll ctx) := by
  obtain ⟨gone, hpolled⟩ := Runs.poll_polled ctx l.runs h.wf
  refine ⟨List.perm_iff_count.mpr fun a => ?_, hpolled.wf, ?_, ?_⟩
  · have ha := List.perm_iff_count.mp h.total a
    have hline := List.perm_iff_count.mp hpolled.line a
    show List.count a (line (l.runs.poll ctx) ++ (lost .epochEnded (l.runs.poll ctx).log ++
      lost .secondPaste (l.runs.poll ctx).log)) = List.count a (List.range l.submitted)
    rw [hpolled.ended, hpolled.pastes, ← ha]
    simp only [List.count_append] at hline ⊢
    omega
  · show (l.runs.poll ctx).calls.droppedPastes = (lost .secondPaste (l.runs.poll ctx).log).length
    rw [hpolled.dropped, hpolled.pastes]
    exact h.counted
  · exact Nat.le_trans (poll_held_length ctx l.runs) h.room

/-- A run that waits for a deadline has started. -/
theorem dropTimed_unstarted (ctx : Ctx W S A) (r : Runs W S A) :
    unstarted (r.dropTimed ctx).active = unstarted r.active := by
  unfold unstarted Runs.dropTimed
  rw [List.filter_filter]
  congr 1
  refine List.filter_congr fun run _ => ?_
  cases run.resume <;> rfl

theorem dropTimed_booked {l : Loop W S A} (h : Booked l) (ctx : Ctx W S A) :
    Booked (l.turn (.timerFailed ctx)) := by
  have hline : line (l.turn (.timerFailed ctx)).runs = line l.runs := by
    unfold line
    show began l.runs.log ++ unstarted (l.runs.dropTimed ctx).active ++ ids l.runs.held = _
    rw [dropTimed_unstarted]
  refine ⟨?_, fun run hrun => h.wf run (List.mem_of_mem_filter hrun), h.counted, h.room⟩
  rw [hline]
  exact h.total

/-! ## The thread -/

/-- After a pass, before the next one. -/
def Place.atRest : Place → Bool
  | .arm _ _ => true
  | .waiting _ => true
  | _ => false

/-- The counts in the log are those of the loop. -/
def Reported (l : Loop (World V) S A) : Prop :=
  l.runs.world.shared.pasteDropped = l.runs.calls.droppedPastes ∧
    l.runs.world.shared.activeRuns = l.runs.active.length

/-- The runs and the held jobs are of jobs that were queued. -/
def FromQueue (l : Loop (World V) S A) : Prop :=
  AllKnown (· ∈ l.runs.world.shared.queued) l.runs

theorem grown_queued {new : List Job} {s s' : Shared} (h : Grown new s s') :
    ∀ job, job ∈ s.queued → job ∈ s'.queued := by
  intro job hjob
  rw [h.queued]
  exact List.mem_append_left _ hjob

/-- A loop whose thread serves the queue. -/
structure Serving (c : Nat) (l : Loop (World V) S A) : Prop where
  booked : Booked l
  known : FromQueue l
  queued : Queued c l.submitted l.runs.world.shared
  receiving : l.runs.world.shared.receiving = true
  uncounted : l.runs.world.shared.unavailable = 0

section Serving

variable {c : Nat} {l : Loop (World V) S A} {env : Env V S A}

/-- The world and the session move on. -/
theorem serving_grown (h : Serving c l) {w : World V} (s : S)
    (hgrown : ∃ new, Grown new l.runs.world.shared w.shared) :
    Serving c { l with runs := { l.runs with session := s, world := w } } := by
  obtain ⟨new, hgrown⟩ := hgrown
  have hknown := allKnown_mono h.known (grown_queued hgrown)
  refine ⟨⟨h.booked.total, h.booked.wf, h.booked.counted, h.booked.room⟩,
    ⟨hknown.active, hknown.held⟩, queued_grown h.queued hgrown,
    hgrown.receiving.trans h.receiving, ?_⟩
  exact (hgrown.uncounted h.receiving).trans h.uncounted

/-- What is not about the queue may change. -/
theorem serving_congr (h : Serving c l) {s : Shared}
    (hitems : s.mail.items = l.runs.world.shared.mail.items)
    (hcapacity : s.mail.capacity = l.runs.world.shared.mail.capacity)
    (hreceiving : s.receiving = l.runs.world.shared.receiving)
    (hqueued : s.queued = l.runs.world.shared.queued)
    (hunavailable : s.unavailable = l.runs.world.shared.unavailable) :
    Serving c { l with runs := { l.runs with world := { l.runs.world with shared := s } } } := by
  have hkeep : ∀ job, job ∈ l.runs.world.shared.queued → job ∈ s.queued := fun job hjob =>
    hqueued ▸ hjob
  have hknown := allKnown_mono h.known hkeep
  exact ⟨⟨h.booked.total, h.booked.wf, h.booked.counted, h.booked.room⟩,
    ⟨hknown.active, hknown.held⟩, queued_congr h.queued hitems hcapacity
      (fun hr => hreceiving.symm.trans hr) hqueued hunavailable,
    hreceiving.trans h.receiving, hunavailable.trans h.uncounted⟩

theorem serving_poll (h : Serving c l) : Serving c (l.poll env.ctx) := by
  obtain ⟨n, hmade, -⟩ := Runs.poll_tallied env.ctx l.runs
  obtain ⟨new, hgrown⟩ := made_grown hmade
  exact ⟨poll_booked h.booked env.ctx,
    allKnown_mono (Runs.poll_told env.ctx h.known).2 (grown_queued hgrown),
    queued_grown h.queued hgrown, hgrown.receiving.trans h.receiving,
    (hgrown.uncounted h.receiving).trans h.uncounted⟩

/-- The job at the head of the queue is taken and started. -/
theorem serving_start (h : Serving c l) (hroom : l.runs.canTake = true) {job : Job}
    {mail : Mailbox Job} (hreceive : l.runs.world.shared.mail.receive = some (job, mail)) :
    job.id = l.submitted ∧ job ∈ l.runs.world.shared.queued ∧
    Serving c (Loop.start env.ctx job.action job.target job.epoch
      { l with runs := { l.runs with world := { l.runs.world with
          shared := { l.runs.world.shared with mail := mail } } } }) := by
  obtain ⟨hid, hmem, hqueued⟩ := queued_receive h.queued h.uncounted h.receiving hreceive
  refine ⟨hid, hmem, ?_⟩
  have hbooked : Booked { l with runs := { l.runs with world := { l.runs.world with
      shared := { l.runs.world.shared with mail := mail } } } } :=
    ⟨h.booked.total, h.booked.wf, h.booked.counted, h.booked.room⟩
  obtain ⟨n, hmade, -⟩ := Runs.start_tallied env.ctx
    ⟨l.submitted, job.action, job.target, job.epoch⟩ { l.runs with world := { l.runs.world with
      shared := { l.runs.world.shared with mail := mail } } }
  obtain ⟨new, hgrown⟩ := made_grown hmade
  have hkeep := grown_queued hgrown
  have hjob : (⟨l.submitted, job.action, job.target, job.epoch⟩ : Job) ∈
      l.runs.world.shared.queued := by
    rw [← hid]
    exact hmem
  have hstarted := (Runs.start_told env.ctx hjob
    (r := { l.runs with world := { l.runs.world with
      shared := { l.runs.world.shared with mail := mail } } })
    ⟨h.known.active, h.known.held⟩).2.1
  exact ⟨start_booked hbooked env.ctx job.action job.target job.epoch hroom,
    allKnown_mono hstarted hkeep, queued_grown hqueued hgrown,
    hgrown.receiving.trans h.receiving, (hgrown.uncounted h.receiving).trans h.uncounted⟩

theorem serving_dropTimed (h : Serving c l) :
    Serving c (l.turn (.timerFailed env.ctx)) := by
  obtain ⟨new, hgrown⟩ := moves_grown (env.restoreNow_moves l.runs.session l.runs.world)
  have hknown := allKnown_mono h.known (grown_queued hgrown)
  exact ⟨dropTimed_booked h.booked env.ctx,
    ⟨fun run hrun => hknown.active run (List.mem_of_mem_filter hrun), hknown.held⟩,
    queued_grown h.queued hgrown, hgrown.receiving.trans h.receiving,
    (hgrown.uncounted h.receiving).trans h.uncounted⟩

end Serving

namespace Thread

variable {c : Nat} {t : Thread V S A} {env : Env V S A}

theorem drifted_serving (h : Serving c t.loop) : Serving c (t.drifted env).loop :=
  serving_grown h t.loop.runs.session (moves_grown (env.drift_moves _))

theorem endLoop_serving (why : End) (h : Serving c t.loop) :
    Serving c (t.endLoop env why).loop := drifted_serving h

theorem leave_serving (why : End) (h : Serving c t.loop) : Serving c (t.leave env why).loop := by
  have habandoned := serving_grown h (env.abandon t.loop.runs.session t.loop.runs.world).1
    (pumps_grown (env.abandon_pumps t.loop.runs.session t.loop.runs.world))
  exact serving_congr habandoned rfl rfl rfl rfl rfl

theorem pass_serving (h : Serving c t.loop) : Serving c t.pass.loop := by
  unfold pass
  split
  · exact h
  · exact serving_congr h rfl rfl rfl rfl rfl

theorem lastPoll_serving (base : Nat) (drained : Bool) (h : Serving c t.loop) :
    Serving c (t.lastPoll env base drained).loop := by
  have hpolled : Serving c (t.loop.poll env.ctx) := serving_poll h
  unfold lastPoll
  dsimp only
  generalize t.loop.poll env.ctx = l at hpolled ⊢
  have hreported := serving_congr (s := { l.runs.world.shared with
    pasteDropped := l.runs.calls.droppedPastes, activeRuns := l.runs.active.length })
    hpolled rfl rfl rfl rfl rfl
  have hdrifted : Serving c (({ t with loop := { l with
      runs := { l.runs with world := { l.runs.world with shared := { l.runs.world.shared with
        pasteDropped := l.runs.calls.droppedPastes,
        activeRuns := l.runs.active.length } } } } } : Thread V S A).drifted env).loop :=
    drifted_serving hreported
  split
  · exact endLoop_serving _ hdrifted
  · split
    · exact hdrifted
    · exact pass_serving hdrifted

theorem drain_serving (base : Nat) (h : Serving c t.loop) :
    Serving c (t.drain env base).loop := by
  have hfirst : Serving c (t.drifted env).loop := drifted_serving h
  have hsecond : Serving c ((t.drifted env).drifted env).loop := drifted_serving hfirst
  unfold drain
  dsimp only
  split
  · exact endLoop_serving _ hfirst
  · split
    · exact lastPoll_serving _ _ hfirst
    · next hroom =>
      split
      · exact lastPoll_serving _ _ hsecond
      · next job mail hreceive =>
        -- Others acted after the look at the held jobs, and held none.
        have hroom : (t.drifted env).loop.runs.canTake = true := by simpa using hroom
        exact serving_poll (serving_start hsecond hroom hreceive).2.2

theorem arm_serving (next : Next) (drained set : Bool) (h : Serving c t.loop) :
    Serving c (t.arm env next drained set).loop := by
  have hdrifted : Serving c (t.drifted env).loop := drifted_serving h
  unfold arm
  dsimp only
  split
  · exact hdrifted
  · split
    · exact pass_serving hdrifted
    · split
      · exact hdrifted
      · split
        · exact hdrifted
        · split
          · exact leave_serving _ hdrifted
          · exact serving_congr (serving_dropTimed hdrifted) rfl rfl rfl rfl rfl

theorem wake_serving (woke : Woke) (h : Serving c t.loop) :
    Serving c (t.wake env woke).loop := by
  cases woke with
  | timer => exact pass_serving h
  | failed => exact leave_serving _ h
  | message taken quit =>
    have hdrifted : Serving c (t.drifted env).loop := drifted_serving h
    have htaken : Serving c ((t.drifted env).withShared fun s => s.takeWakes taken).loop :=
      serving_congr hdrifted rfl rfl rfl rfl rfl
    unfold wake
    dsimp only
    split
    · exact endLoop_serving _ htaken
    · exact pass_serving htaken

theorem close_serving (ending : Ending) (h : Serving c t.loop) :
    Serving c (t.close env ending).loop := by
  have hdrifted : Serving c (t.drifted env).loop := drifted_serving h
  unfold close
  dsimp only
  generalize t.drifted env = t' at hdrifted ⊢
  have hclosed := serving_grown hdrifted
    (env.close t'.loop.runs.session (env.now t'.loop.runs.world) ending.limit
      t'.loop.runs.world).1 (pumps_grown (env.close_pumps t'.loop.runs.session
        (env.now t'.loop.runs.world) ending.limit t'.loop.runs.world))
  split
  · exact leave_serving _ hclosed
  · exact hclosed

/-! ### The report -/

theorem drifted_reported (h : Reported t.loop) : Reported (t.drifted env).loop := by
  obtain ⟨new, hgrown⟩ := moves_grown (env.drift_moves t.loop.runs.world)
  exact ⟨hgrown.pasteDropped.trans h.1, hgrown.activeRuns.trans h.2⟩

theorem pass_atRest (t : Thread V S A) : t.pass.place.atRest = false := by
  unfold pass
  split <;> rfl

theorem lastPoll_reported (base : Nat) (drained : Bool)
    (hrest : (t.lastPoll env base drained).place.atRest = true) :
    Reported (t.lastPoll env base drained).loop := by
  unfold lastPoll at hrest ⊢
  dsimp only at hrest ⊢
  generalize t.loop.poll env.ctx = l at hrest ⊢
  have hdrifted : Reported (({ t with loop := { l with
      runs := { l.runs with world := { l.runs.world with shared := { l.runs.world.shared with
        pasteDropped := l.runs.calls.droppedPastes,
        activeRuns := l.runs.active.length } } } } } : Thread V S A).drifted env).loop :=
    drifted_reported ⟨rfl, rfl⟩
  split at hrest
  · exact absurd hrest (by simp [endLoop, Place.atRest])
  · next hstopping =>
    rw [if_neg hstopping]
    split at hrest
    · next hcalls =>
      rw [if_pos hcalls]
      exact hdrifted
    · rw [pass_atRest] at hrest
      exact absurd hrest Bool.false_ne_true

theorem drain_reported {base : Nat} (hplace : t.place = .drain base)
    (hrest : (t.drain env base).place.atRest = true) : Reported (t.drain env base).loop := by
  unfold drain at hrest ⊢
  dsimp only at hrest ⊢
  split at hrest
  · exact absurd hrest (by simp [endLoop, Place.atRest])
  · next hstopping =>
    rw [if_neg hstopping]
    split at hrest
    · next hroom =>
      rw [if_pos hroom]
      exact lastPoll_reported _ _ hrest
    · next hroom =>
      rw [if_neg hroom]
      split at hrest
      · next hnone =>
        exact lastPoll_reported _ _ hrest
      · have hsame : t.place.atRest = true := hrest
        rw [hplace] at hsame
        exact absurd hsame Bool.false_ne_true

theorem arm_reported (next : Next) (drained set : Bool)
    (h : t.ending = none → Reported t.loop) (hending : (t.arm env next drained set).ending = none)
    (hrest : (t.arm env next drained set).place.atRest = true) :
    Reported (t.arm env next drained set).loop := by
  have hdrifted : t.ending = none → Reported (t.drifted env).loop := fun hnone =>
    drifted_reported (h hnone)
  unfold arm at hending hrest ⊢
  dsimp only at hending hrest ⊢
  split at hending
  · exact hdrifted hending
  · split at hending
    · next hpast =>
      simp only [if_pos hpast] at hrest
      rw [pass_atRest] at hrest
      exact absurd hrest Bool.false_ne_true
    · next hfuture =>
      rw [if_neg hfuture]
      split at hending
      · next hsame =>
        rw [if_pos hsame]
        exact hdrifted hending
      · next hother =>
        rw [if_neg hother]
        split at hending
        · next hset =>
          rw [if_pos hset]
          exact hdrifted hending
        · next hrefused =>
          rw [if_neg hrefused]
          split at hending
          · next ending hsome =>
            simp only [if_neg hfuture, if_neg hother, if_neg hrefused, hsome] at hrest
            exact absurd hrest (by simp [leave, Place.atRest])
          · next hnone =>
            rw [hnone]
            obtain ⟨new, hgrown⟩ := moves_grown (env.restoreNow_moves
              (t.drifted env).loop.runs.session (t.drifted env).loop.runs.world)
            exact ⟨hgrown.pasteDropped.trans (hdrifted hnone).1, rfl⟩

end Thread

/-! ## All of it -/

/-- Where every job is, with room for `c` of them in the queue. -/
structure Accounted (c : Nat) (t : Thread V S A) : Prop where
  booked : Booked t.loop
  known : FromQueue t.loop
  queued : Queued c t.loop.submitted t.shared
  receiving : t.place ≠ .gone → t.shared.receiving = true
  uncounted : t.place ≠ .gone → t.place ≠ .counting .died → t.shared.unavailable = 0
  reported : t.ending = none → t.place.atRest = true → Reported t.loop

namespace Thread

variable {c : Nat} {t : Thread V S A} {env : Env V S A}

theorem accounted_of_serving (h : Serving c t.loop)
    (hreported : t.ending = none → t.place.atRest = true → Reported t.loop) : Accounted c t :=
  ⟨h.booked, h.known, h.queued, fun _ => h.receiving, fun _ _ => h.uncounted, hreported⟩

theorem serving_of_accounted (h : Accounted c t) (hgone : t.place ≠ .gone)
    (hdied : t.place ≠ .counting .died) : Serving c t.loop :=
  ⟨h.booked, h.known, h.queued, h.receiving hgone, h.uncounted hgone hdied⟩

/-- The epilogue: jobs are counted one at a time, and then the channel goes. -/
theorem count_accounted {why : End} (h : Accounted c t) (hplace : t.place = .counting why) :
    Accounted c (t.count env why) := by
  obtain ⟨new, hgrown⟩ := moves_grown (env.drift_moves t.loop.runs.world)
  have hbooked : Booked (t.drifted env).loop :=
    ⟨h.booked.total, h.booked.wf, h.booked.counted, h.booked.room⟩
  have hknown := allKnown_mono h.known (grown_queued hgrown)
  have hqueued : Queued c t.loop.submitted (t.drifted env).shared :=
    queued_grown h.queued hgrown
  have hreceiving : (t.drifted env).shared.receiving = true :=
    hgrown.receiving.trans (h.receiving (by rw [hplace]; simp))
  unfold count
  dsimp only
  split
  · refine ⟨⟨hbooked.total, hbooked.wf, hbooked.counted, hbooked.room⟩,
      ⟨hknown.active, hknown.held⟩,
      queued_congr hqueued rfl rfl (fun hr => absurd hr Bool.false_ne_true) rfl rfl,
      fun hr => absurd rfl hr, fun hr => absurd rfl hr, fun _ hr => absurd hr Bool.false_ne_true⟩
  · split
    · obtain ⟨new', hgrown'⟩ := moves_grown (env.drift_moves (t.drifted env).loop.runs.world)
      have hqueued' := queued_grown hqueued hgrown'
      have hknown' := allKnown_mono hknown (grown_queued hgrown')
      refine ⟨⟨hbooked.total, hbooked.wf, hbooked.counted, hbooked.room⟩,
        ⟨hknown'.active, hknown'.held⟩,
        queued_congr hqueued' rfl rfl (fun hr => absurd hr Bool.false_ne_true) rfl rfl,
        fun hr => absurd rfl hr, fun hr => absurd rfl hr,
        fun _ hr => absurd hr Bool.false_ne_true⟩
    · next job mail hreceive =>
      refine ⟨⟨hbooked.total, hbooked.wf, hbooked.counted, hbooked.room⟩,
        ⟨hknown.active, hknown.held⟩, queued_count hqueued hreceive, fun _ => hreceiving,
        fun _ hother => ?_, fun _ hr => ?_⟩
      · exact absurd hplace hother
      · have hsame : t.place.atRest = true := hr
        rw [hplace] at hsame
        exact absurd hsame Bool.false_ne_true

theorem go_accounted (env : Env V S A) (answer : Answer) (h : Accounted c t) :
    Accounted c (t.go env answer) := by
  have hserving := serving_of_accounted h
  unfold go
  split
  · split
    · exact h
    · exact h
    · next hcounting hgone =>
      refine accounted_of_serving (leave_serving _ (hserving hgone (hcounting _))) ?_
      exact fun _ hr => absurd hr Bool.false_ne_true
  · split
    · next base hplace =>
      rw [hplace] at hserving
      refine accounted_of_serving (drain_serving _ (hserving (by simp) (by simp))) ?_
      exact fun _ hr => drain_reported hplace hr
    · next next drained hplace =>
      rw [hplace] at hserving
      refine accounted_of_serving (arm_serving _ _ _ (hserving (by simp) (by simp))) ?_
      refine fun hnone hr => arm_reported _ _ _ (fun hnone' => ?_) hnone hr
      exact h.reported hnone' (by rw [hplace]; rfl)
    · next drained hplace =>
      rw [hplace] at hserving
      refine accounted_of_serving (wake_serving _ (hserving (by simp) (by simp))) ?_
      intro _ hr
      unfold wake at hr
      split at hr
      · rw [pass_atRest] at hr
        exact absurd hr Bool.false_ne_true
      · exact absurd hr Bool.false_ne_true
      · dsimp only at hr
        split at hr
        · exact absurd hr Bool.false_ne_true
        · rw [pass_atRest] at hr
          exact absurd hr Bool.false_ne_true
    · next hplace =>
      split
      · next ending hending =>
        rw [hplace] at hserving
        refine accounted_of_serving (close_serving _ (hserving (by simp) (by simp))) ?_
        intro hnone hr
        unfold close at hnone hr
        dsimp only at hnone hr
        split at hr
        · exact absurd hr Bool.false_ne_true
        · next hretry =>
          rw [hretry] at hnone
          exact absurd (hending.symm.trans hnone) (by simp)
      · exact h
    · next why hplace => exact count_accounted h hplace
    · exact h

theorem other_accounted (h : Accounted c t) (act : Act) :
    Accounted c (t.withShared fun s => s.act act) := by
  obtain ⟨new, hgrown⟩ := act_grown t.shared act
  have hknown := allKnown_mono h.known (grown_queued hgrown)
  refine ⟨⟨h.booked.total, h.booked.wf, h.booked.counted, h.booked.room⟩,
    ⟨hknown.active, hknown.held⟩, queued_grown h.queued hgrown,
    fun hgone => hgrown.receiving.trans (h.receiving hgone), fun hgone hdied => ?_,
    fun hnone hrest => ?_⟩
  · exact (hgrown.uncounted (h.receiving hgone)).trans (h.uncounted hgone hdied)
  · obtain ⟨hpastes, hruns⟩ := h.reported hnone hrest
    exact ⟨hgrown.pasteDropped.trans hpastes, hgrown.activeRuns.trans hruns⟩

end Thread

/-! ## What a step logs -/

/-- `l'` is `l` in a world in which others have acted since, and jobs were taken out of
the queue. -/
structure MovedOn (l l' : Loop (World V) S A) : Prop where
  runs : l'.runs = { l.runs with world := l'.runs.world }
  submitted : l'.submitted = l.submitted
  world : ∃ s, Moves l.runs.world.shared s ∧ ∃ mail, l'.runs.world.shared = { s with mail := mail }

/-- A step of the thread logs nothing, or what a pass of the loop logs, which did what
its log says of jobs that were queued. -/
inductive Logged (env : Env V S A) (t t' : Thread V S A) : Prop
  | nothing (hlog : t'.loop.runs.log = t.loop.runs.log)
  | passed {l : Loop (World V) S A} {p : Pass (World V) S A} (hmoved : MovedOn t.loop l)
      (hctx : p.ctx = env.ctx) (hlog : t'.loop.runs.log = (l.pass p).runs.log)
      (htold : PassTold (· ∈ (l.pass p).runs.world.shared.queued) env.ctx l (l.pass p))

/-- Jobs that are queued stay queued through a pass. -/
theorem pass_queued {env : Env V S A} (l : Loop (World V) S A) {p : Pass (World V) S A}
    (hctx : p.ctx = env.ctx) : ∀ job, job ∈ l.runs.world.shared.queued →
      job ∈ (l.pass p).runs.world.shared.queued := by
  have htallied : Tallied env.ctx l.runs (l.pass p).runs := by
    cases p with
    | submit ctx action target epoch =>
      obtain rfl : ctx = env.ctx := hctx
      exact tallied_trans (Runs.start_tallied env.ctx ⟨l.submitted, action, target, epoch⟩ l.runs)
        (Runs.poll_tallied env.ctx _)
    | poll ctx =>
      obtain rfl : ctx = env.ctx := hctx
      exact Runs.poll_tallied env.ctx l.runs
  obtain ⟨n, hmade, -⟩ := htallied
  obtain ⟨new, hgrown⟩ := made_grown hmade
  exact grown_queued hgrown

theorem pass_logged {env : Env V S A} {t t' : Thread V S A} {l : Loop (World V) S A}
    {p : Pass (World V) S A} (hmoved : MovedOn t.loop l) (hctx : p.ctx = env.ctx)
    (hwf : ∀ run ∈ l.runs.active, run.Wf) (hknown : FromQueue l)
    (hp : ∀ job ∈ submissions l.submitted [p], job ∈ l.runs.world.shared.queued)
    (hlog : t'.loop.runs.log = (l.pass p).runs.log) : Logged env t t' := by
  have hqueued := pass_queued l hctx
  have htold := (pass_told hwf (allKnown_mono hknown hqueued)
    fun job hjob => hqueued job (hp job hjob)).1
  rw [hctx] at htold
  exact .passed hmoved hctx hlog htold

namespace Thread

variable {c : Nat} {t : Thread V S A} {env : Env V S A}

/-- The rest of the last poll of a pass logs nothing. -/
theorem lastPoll_log (base : Nat) (drained : Bool) :
    (t.lastPoll env base drained).loop.runs.log = (t.loop.poll env.ctx).runs.log := by
  unfold lastPoll
  dsimp only
  split
  · rfl
  · split
    · rfl
    · unfold pass
      split <;> rfl

theorem drain_logged (base : Nat) (h : Serving c t.loop) : Logged env t (t.drain env base) := by
  have hfirst : Serving c (t.drifted env).loop := drifted_serving h
  have hsecond : Serving c ((t.drifted env).drifted env).loop := drifted_serving hfirst
  have hmoves : Moves t.shared ((t.drifted env).drifted env).shared :=
    moves_trans (t.drifted_moves env) ((t.drifted env).drifted_moves env)
  unfold drain
  dsimp only
  split
  · exact .nothing rfl
  · split
    · have hmoved : MovedOn t.loop (t.drifted env).loop :=
        ⟨rfl, rfl, (t.drifted env).shared, t.drifted_moves env, (t.drifted env).shared.mail, rfl⟩
      refine pass_logged (p := .poll env.ctx) hmoved rfl
        hfirst.booked.wf hfirst.known (fun job hjob => absurd hjob List.not_mem_nil) ?_
      exact lastPoll_log base false
    · split
      · have hmoved : MovedOn t.loop ((t.drifted env).drifted env).loop :=
          ⟨rfl, rfl, _, hmoves, ((t.drifted env).drifted env).shared.mail, rfl⟩
        refine pass_logged (p := .poll env.ctx) hmoved rfl
          hsecond.booked.wf hsecond.known (fun job hjob => absurd hjob List.not_mem_nil) ?_
        exact lastPoll_log base true
      · next hroom job mail hreceive =>
        -- The job comes from the head of the queue.
        obtain ⟨hid, hmem, -⟩ := queued_receive hsecond.queued hsecond.uncounted
          hsecond.receiving hreceive
        refine pass_logged (p := .submit env.ctx job.action job.target job.epoch)
          (l := (((t.drifted env).drifted env).withShared fun s => { s with mail := mail }).loop)
          ⟨rfl, rfl, _, hmoves, mail, rfl⟩ rfl hsecond.booked.wf
          ⟨hsecond.known.active, hsecond.known.held⟩ (fun other hother => ?_) rfl
        rw [List.mem_singleton.mp hother]
        show (⟨t.loop.submitted, job.action, job.target, job.epoch⟩ : Job) ∈ _
        have hsame : t.loop.submitted = job.id := hid.symm
        rw [hsame]
        exact hmem

theorem pass_log : t.pass.loop.runs.log = t.loop.runs.log := by
  unfold pass
  split <;> rfl

/-- **What a step of the executor thread logs.** -/
theorem go_logged (answer : Answer) (h : Accounted c t) : Logged env t (t.go env answer) := by
  have hserving := serving_of_accounted h
  unfold go
  split
  · split
    · exact .nothing rfl
    · exact .nothing rfl
    · exact .nothing rfl
  · split
    · next base hplace =>
      rw [hplace] at hserving
      exact drain_logged base (hserving (by simp) (by simp))
    · -- A failed timer drops runs and logs nothing.
      refine .nothing ?_
      unfold arm
      dsimp only
      split
      · rfl
      · split
        · exact pass_log
        · split
          · rfl
          · split
            · rfl
            · split <;> rfl
    · refine .nothing ?_
      unfold wake
      split
      · exact pass_log
      · rfl
      · dsimp only
        split
        · rfl
        · exact pass_log
    · split
      · refine .nothing ?_
        unfold close
        dsimp only
        split <;> rfl
      · exact .nothing rfl
    · refine .nothing ?_
      unfold count
      dsimp only
      split
      · rfl
      · split <;> rfl
    · exact .nothing rfl

end Thread

/-! ## Runs -/

/-- What holds of the executor thread at the end of a run, and of each of its steps. -/
theorem system_accounted (env : Env V S A) (capacity : Nat) (session : S) (rest : V)
    (happenings : List Happening) :
    Accounted (max capacity 1) ((system env).run (.new capacity session rest) happenings) ∧
      ∀ x ∈ (system env).trace (.new capacity session rest) happenings,
        Logged env x.before x.after := by
  have hstep : ∀ (t : Thread V S A) (happening : Happening), Accounted (max capacity 1) t →
      Accounted (max capacity 1) ((system env).step t happening).1 ∧
        Logged env t ((system env).step t happening).1 := by
    intro t happening ht
    cases happening with
    | other act => exact ⟨Thread.other_accounted ht act, .nothing rfl⟩
    | go answer => exact ⟨Thread.go_accounted env answer ht, Thread.go_logged answer ht⟩
  have hnew : Accounted (max capacity 1) (Thread.new capacity session rest : Thread V S A) :=
    ⟨booked_new session _,
      ⟨fun _ h => absurd h List.not_mem_nil, fun _ h => absurd h List.not_mem_nil⟩,
      ⟨rfl, Nat.zero_le _, List.nil_suffix, rfl, fun _ => rfl, Nat.le_refl _, Nat.le_refl _⟩,
      fun _ => rfl, fun _ _ => rfl, fun _ hrest => absurd hrest Bool.false_ne_true⟩
  generalize (Thread.new capacity session rest : Thread V S A) = t at hnew
  induction happenings generalizing t with
  | nil => exact ⟨hnew, fun x hx => absurd hx List.not_mem_nil⟩
  | cons happening happenings ih =>
    obtain ⟨haccounted, hlogged⟩ := hstep t happening hnew
    obtain ⟨hrun, hrest⟩ := ih _ haccounted
    refine ⟨hrun, fun x hx => ?_⟩
    rcases List.mem_cons.mp hx with rfl | hx
    · exact hlogged
    · exact hrest x hx

end KeySwitch.Executor
