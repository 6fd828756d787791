import KeySwitch.Executor.Handles
import KeySwitch.Executor.Tallies

/-!
# The executor misses no wake

The executor thread waits only after a pass that found its queue empty and made no runner
call, since a runner call may have taken the wake of a job that was queued meanwhile. So
whenever it waits, of each job in its queue, of each run and held job whose epoch is over,
and of a stop it is told: a wake waits in its message queue, or a thread will still post
one, or Windows refused one since the pass began (`waits_attended`).

A pass does not look at the queue while as many jobs are held behind a paste as a queue
holds; the wait then has no such word on the queue.
-/

namespace KeySwitch.Executor

open Data Lib

variable {V S A : Type}

/-! ## What other threads do -/

namespace Shared

/-- The executor thread will be woken, or would have been had no wake been refused. -/
def Announced (s : Shared) : Prop := s.mail.Told ∨ 0 < s.stops

theorem trySend_sent (s : Shared) (offer : Offer) :
    Mailbox.Sent s.mail (s.trySend offer).mail ∧ (s.trySend offer).stops = s.stops ∧
      (s.trySend offer).moves = s.moves ∧ (s.trySend offer).stopping = s.stopping := by
  unfold trySend
  split
  · split
    · exact ⟨.refl, rfl, rfl, rfl⟩
    · exact ⟨.refl, rfl, rfl, rfl⟩
  · dsimp only
    split
    · next mail hmail => exact ⟨.trySend .refl hmail, rfl, rfl, rfl⟩
    · exact ⟨.refl, rfl, rfl, rfl⟩

theorem act_sent (s : Shared) (act : Act) : Mailbox.Sent s.mail (s.act act).mail := by
  cases act with
  | submit action target => exact .refl
  | trySend i =>
    unfold Shared.act
    dsimp only
    split
    · exact .refl
    · next offer _ => exact (trySend_sent { s with offers := s.offers.eraseIdx i } offer).1
  | wake accepted => exact .post .refl accepted
  | cancelPending => exact .publish .refl
  | stop => exact .refl
  | stopCancels =>
    unfold Shared.act
    dsimp only
    split
    · exact .refl
    · exact .publish .refl

theorem act_announced {s : Shared} (h : s.Announced) (act : Act) : (s.act act).Announced := by
  rcases h with htold | hstops
  · exact .inl ((act_sent s act).told htold)
  · cases act with
    | submit action target => exact .inr hstops
    | trySend i =>
      unfold Shared.act
      dsimp only
      split
      · exact .inr hstops
      · next offer _ =>
        refine .inr ?_
        rw [(trySend_sent { s with offers := s.offers.eraseIdx i } offer).2.1]
        exact hstops
    | wake accepted => exact .inr hstops
    | cancelPending => exact .inr hstops
    | stop => exact .inr (Nat.succ_pos _)
    | stopCancels =>
      unfold Shared.act
      dsimp only
      rw [if_neg (by omega)]
      exact .inl (Mailbox.told_publish _)

/-- An act that ends an epoch, or asks for a stop, is announced. -/
theorem act_fresh (s : Shared) (act : Act) :
    ((s.act act).moves = s.moves ∧ (s.act act).stopping = s.stopping) ∨
      (s.act act).Announced := by
  cases act with
  | submit action target => exact .inl ⟨rfl, rfl⟩
  | trySend i =>
    unfold Shared.act
    dsimp only
    split
    · exact .inl ⟨rfl, rfl⟩
    · next offer _ =>
      exact .inl (trySend_sent { s with offers := s.offers.eraseIdx i } offer).2.2
  | wake accepted => exact .inl ⟨rfl, rfl⟩
  | cancelPending => exact .inr (.inl (Mailbox.told_publish _))
  | stop => exact .inr (.inr (Nat.succ_pos _))
  | stopCancels =>
    unfold Shared.act
    dsimp only
    split
    · exact .inl ⟨rfl, rfl⟩
    · exact .inr (.inl (Mailbox.told_publish _))

/-- Whether an epoch may run is a matter of the moves and of the stop. -/
theorem live_congr {s s' : Shared} (hmoves : s'.moves = s.moves)
    (hstopping : s'.stopping = s.stopping) (e : Nat) : s'.live e = s.live e := by
  unfold live epoch
  rw [hmoves, hstopping]

end Shared

/-- Whatever others do, what no act changes without an announcement holds still, or is
announced. -/
theorem moves_or {P : Shared → Prop}
    (hact : ∀ s act, P s → P (s.act act) ∨ (s.act act).Announced) {s s' : Shared}
    (hmoves : Moves s s') (h : P s ∨ s.Announced) : P s' ∨ s'.Announced := by
  obtain ⟨acts, rfl⟩ := hmoves
  induction acts generalizing s with
  | nil => exact h
  | cons act acts ih =>
    apply ih
    rcases h with hP | hannounced
    · exact hact s act hP
    · exact .inr (Shared.act_announced hannounced act)

theorem moves_empty {s s' : Shared} (hmoves : Moves s s')
    (h : s.mail.items = [] ∨ s.Announced) : s'.mail.items = [] ∨ s'.Announced := by
  refine moves_or (P := fun s => s.mail.items = []) (fun s act hempty => ?_) hmoves h
  by_cases hitems : (s.act act).mail.items = []
  · exact .inl hitems
  · exact .inr (.inl ((s.act_sent act).empty hempty hitems))

theorem moves_live {s s' : Shared} (hmoves : Moves s s') {e : Nat}
    (h : s.live e = true ∨ s.Announced) : s'.live e = true ∨ s'.Announced := by
  refine moves_or (P := fun s => s.live e = true) (fun s act hlive => ?_) hmoves h
  rcases s.act_fresh act with ⟨hsame, hstopping⟩ | hannounced
  · exact .inl ((Shared.live_congr hsame hstopping e).trans hlive)
  · exact .inr hannounced

theorem moves_running {s s' : Shared} (hmoves : Moves s s')
    (h : s.stopping = false ∨ s.Announced) : s'.stopping = false ∨ s'.Announced := by
  refine moves_or (P := fun s => s.stopping = false) (fun s act hrunning => ?_) hmoves h
  rcases s.act_fresh act with ⟨-, hstopping⟩ | hannounced
  · exact .inl (hstopping.trans hrunning)
  · exact .inr hannounced

/-- What the executor thread may rely on as it waits, with the epochs `es` of what it has
at hand: there is nothing to do, or it is told. -/
structure Attended (drained : Bool) (es : List Nat) (s : Shared) : Prop where
  jobs : drained = true → s.mail.items = [] ∨ s.Announced
  live : ∀ e ∈ es, s.live e = true ∨ s.Announced
  running : s.stopping = false ∨ s.Announced

/-- Whatever others do, and with less at hand. -/
theorem attended_moves {drained : Bool} {es es' : List Nat} {s s' : Shared}
    (h : Attended drained es s) (hmoves : Moves s s') (hsub : ∀ e ∈ es', e ∈ es) :
    Attended drained es' s' :=
  ⟨fun hdrained => moves_empty hmoves (h.jobs hdrained),
    fun e he => moves_live hmoves (h.live e (hsub e he)), moves_running hmoves h.running⟩

theorem moves_refl (s : Shared) : Moves s s := ⟨[], rfl⟩

theorem moves_trans {s s' s'' : Shared} (h : Moves s s') (h' : Moves s' s'') : Moves s s'' := by
  obtain ⟨acts, rfl⟩ := h
  obtain ⟨acts', rfl⟩ := h'
  exact ⟨acts ++ acts', (List.foldl_append ..).symm⟩

/-! ## A pass without a call -/

/-- In a stretch without a runner call others only act. -/
theorem moves_of_made {env : Env V S A} {w w' : World V} (h : Made env.ctx w 0 w') :
    Moves w.shared w'.shared := by
  refine h.only (P := fun w'' => Moves w.shared w''.shared) (fun w'' hw => ?_)
    (fun s now w'' hidle hw => ?_) (fun s now w'' hidle hw => ?_) rfl (moves_refl _)
  · exact moves_trans hw (env.drift_moves w'')
  · exact moves_trans hw (env.tick_moves s now w'' hidle)
  · exact moves_trans hw (env.restoreIfDue_moves s now w'' hidle)

namespace Thread

variable {env : Env V S A} {t : Thread V S A}

theorem drifted_moves (env : Env V S A) (t : Thread V S A) :
    Moves t.shared (t.drifted env).shared := env.drift_moves _

/-- **After a pass that made no call** everything at hand was found live, the queue was
found empty, and no stop was asked for: of all that came since, the thread is told. -/
theorem lastPoll_attended {base : Nat} {drained : Bool}
    (hbase : base ≤ t.loop.runs.calls.made)
    (hempty : drained = true → t.shared.mail.items = []) {next : Next} {drained' : Bool}
    (harm : (t.lastPoll env base drained).place = .arm next drained') :
    Attended drained' (epochs (t.lastPoll env base drained).loop.runs)
      (t.lastPoll env base drained).shared := by
  unfold lastPoll at harm ⊢
  dsimp only at harm ⊢
  split at harm
  · exact absurd harm (by simp [endLoop])
  · next hstopping =>
    rw [if_neg hstopping]
    split at harm
    · next hcalls =>
      rw [if_pos hcalls]
      obtain ⟨rfl, rfl⟩ := Place.arm.inj harm
      have hsame : (t.loop.runs.poll env.ctx).calls.made = t.loop.runs.calls.made := by
        have hle := tallied_le (Runs.poll_tallied env.ctx t.loop.runs)
        have hmade : (t.loop.runs.poll env.ctx).calls.made = base := hcalls
        omega
      have hpoll : Moves t.shared (t.loop.runs.poll env.ctx).world.shared :=
        moves_of_made (tallied_none (Runs.poll_tallied env.ctx t.loop.runs) hsame)
      refine ⟨fun hdrained => ?_, fun e he => ?_, .inl (Bool.eq_false_iff.mpr hstopping)⟩
      · have hpolled : (t.loop.runs.poll env.ctx).world.shared.mail.items = [] ∨
            (t.loop.runs.poll env.ctx).world.shared.Announced :=
          moves_empty hpoll (.inl (hempty hdrained))
        exact moves_empty (env.drift_moves _) hpolled
      · obtain ⟨w, hlive, hmade⟩ := Runs.poll_found env.ctx hsame e he
        have hpolled : (t.loop.runs.poll env.ctx).world.shared.live e = true ∨
            (t.loop.runs.poll env.ctx).world.shared.Announced :=
          moves_live (moves_of_made hmade) (.inl hlive)
        exact moves_live (env.drift_moves _) hpolled
    · exact absurd harm (by unfold pass; split <;> simp)

/-! ## Every step -/

/-- What holds of the executor thread at every step. -/
structure Kept (t : Thread V S A) : Prop where
  base : ∀ base, t.place = .drain base → base ≤ t.loop.runs.calls.made
  armed : t.ending = none → ∀ next drained, t.place = .arm next drained →
    Attended drained (epochs t.loop.runs) t.shared
  waiting : t.ending = none → ∀ drained, t.place = .waiting drained →
    Attended drained (epochs t.loop.runs) t.shared

/-- A place at which the thread is neither in a pass nor about to wait. -/
theorem kept_aside (hdrain : ∀ base, t.place ≠ .drain base)
    (harm : ∀ next drained, t.place ≠ .arm next drained)
    (hwaiting : ∀ drained, t.place ≠ .waiting drained) : Kept t :=
  ⟨fun base h => absurd h (hdrain base), fun _ next drained h => absurd h (harm next drained),
    fun _ drained h => absurd h (hwaiting drained)⟩

theorem kept_drain {base : Nat} (h : t.place = .drain base)
    (hbase : base ≤ t.loop.runs.calls.made) : Kept t := by
  refine ⟨fun base' h' => ?_, fun _ _ _ h' => ?_, fun _ _ h' => ?_⟩
  · obtain rfl := Place.drain.inj (h.symm.trans h')
    exact hbase
  · exact absurd (h.symm.trans h') (by simp)
  · exact absurd (h.symm.trans h') (by simp)

theorem pass_kept (t : Thread V S A) : Kept t.pass := by
  unfold pass
  split
  · exact kept_aside (by simp) (by simp) (by simp)
  · exact kept_drain rfl (Nat.le_refl _)

theorem endLoop_kept (env : Env V S A) (why : End) (t : Thread V S A) :
    Kept (t.endLoop env why) :=
  kept_aside (by simp [endLoop]) (by simp [endLoop]) (by simp [endLoop])

theorem leave_kept (env : Env V S A) (why : End) (t : Thread V S A) : Kept (t.leave env why) :=
  kept_aside (by simp [leave]) (by simp [leave]) (by simp [leave])

theorem lastPoll_kept {base : Nat} {drained : Bool} (hbase : base ≤ t.loop.runs.calls.made)
    (hempty : drained = true → t.shared.mail.items = []) :
    Kept (t.lastPoll env base drained) := by
  have haside : Kept (t.lastPoll env base drained) ∨
      ∃ next drained', (t.lastPoll env base drained).place = .arm next drained' := by
    unfold lastPoll
    dsimp only
    split
    · exact .inl (endLoop_kept env _ _)
    · split
      · exact .inr ⟨_, _, rfl⟩
      · exact .inl (pass_kept _)
  rcases haside with hkept | ⟨next, drained', hplace⟩
  · exact hkept
  · refine ⟨fun _ h => ?_, fun _ _ _ h => lastPoll_attended hbase hempty h, fun _ _ h => ?_⟩
    · exact absurd (hplace.symm.trans h) (by simp)
    · exact absurd (hplace.symm.trans h) (by simp)

/-- A job and its poll take no runner call back. -/
theorem job_calls (ctx : Ctx (World V) S A) (action : BindAction) (target : TargetWindow)
    (epoch : Nat) (l : Loop (World V) S A) :
    l.runs.calls.made ≤ ((l.start ctx action target epoch).poll ctx).runs.calls.made := by
  have hstart := Runs.start_tallied ctx ⟨l.submitted, action, target, epoch⟩ l.runs
  exact tallied_le (tallied_trans hstart (Runs.poll_tallied ctx _))

theorem drain_kept {base : Nat} (hplace : t.place = .drain base)
    (hbase : base ≤ t.loop.runs.calls.made) : Kept (t.drain env base) := by
  unfold drain
  dsimp only
  split
  · exact endLoop_kept env _ _
  · split
    · exact lastPoll_kept hbase fun h => absurd h (by simp)
    · split
      · next hnone => exact lastPoll_kept hbase fun _ => Mailbox.receive_none hnone
      · next job mail _ =>
        -- One job more in the same pass: its calls are counted.
        refine @kept_drain V S A _ base ?_ (Nat.le_trans ?_ (job_calls env.ctx _ _ _ _))
        · simp only [withShared, drifted]
          exact hplace
        · simp only [withShared, drifted]
          exact hbase

/-- What the timer's failure drops is no longer at hand. -/
theorem dropTimed_epochs (ctx : Ctx (World V) S A) (r : Runs (World V) S A) :
    ∀ e ∈ epochs (r.dropTimed ctx), e ∈ epochs r := by
  intro e he
  rcases List.mem_append.mp he with he | he
  · obtain ⟨run, hrun, rfl⟩ := List.mem_map.mp he
    exact List.mem_append_left _ (List.mem_map_of_mem (List.mem_of_mem_filter hrun))
  · exact List.mem_append_right _ he

theorem arm_kept {next : Next} {drained : Bool} (set : Bool)
    (h : t.ending = none → Attended drained (epochs t.loop.runs) t.shared) :
    Kept (t.arm env next drained set) := by
  -- Others may have acted before the clock was read.
  have hdrifted : t.ending = none → Attended drained (epochs t.loop.runs)
      (t.drifted env).shared := fun hnone =>
    attended_moves (h hnone) (t.drifted_moves env) fun _ he => he
  have hwaits : ∀ t' : Thread V S A, t'.place = .waiting drained →
      (t'.ending = none → Attended drained (epochs t'.loop.runs) t'.shared) → Kept t' := by
    intro t' hplace hattended
    refine ⟨fun _ h => ?_, fun _ _ _ h => ?_, fun hnone drained' h => ?_⟩
    · exact absurd (hplace.symm.trans h) (by simp)
    · exact absurd (hplace.symm.trans h) (by simp)
    · obtain rfl := Place.waiting.inj (hplace.symm.trans h)
      exact hattended hnone
  unfold arm
  dsimp only
  split
  · exact hwaits _ rfl hdrifted
  · split
    · exact pass_kept _
    · split
      · exact hwaits _ rfl hdrifted
      · split
        · exact hwaits _ rfl hdrifted
        · split
          · exact leave_kept env _ _
          · next hnone =>
            refine hwaits _ rfl fun _ => ?_
            have hrestored := attended_moves (hdrifted hnone) (env.restoreNow_moves
              t.loop.runs.session (t.drifted env).loop.runs.world)
              (dropTimed_epochs env.ctx (t.drifted env).loop.runs)
            exact ⟨hrestored.jobs, hrestored.live, hrestored.running⟩

theorem go_kept (env : Env V S A) (answer : Answer) (h : Kept t) : Kept (t.go env answer) := by
  unfold go
  split
  · split
    · exact h
    · exact h
    · exact leave_kept env _ _
  · split
    · next base hplace => exact drain_kept hplace (h.base base hplace)
    · next next drained hplace =>
      exact arm_kept answer.set fun hnone => h.armed hnone next drained hplace
    · unfold wake
      split
      · exact pass_kept _
      · exact leave_kept env _ _
      · dsimp only
        split
        · exact endLoop_kept env _ _
        · exact pass_kept _
    · split
      · next ending hending =>
        unfold close
        dsimp only
        split
        · exact leave_kept env _ _
        · -- In the closing mode the thread waits for the next try and nothing else.
          refine ⟨fun _ h => absurd h (by simp), fun hnone _ _ _ => ?_,
            fun _ _ h => absurd h (by simp)⟩
          exact absurd (hending.symm.trans hnone) (by simp)
      · exact h
    · next why hplace =>
      unfold count
      dsimp only
      split
      · exact kept_aside (by simp) (by simp) (by simp)
      · split
        · exact kept_aside (by simp) (by simp) (by simp)
        · exact kept_aside (by simp [withShared, drifted, hplace])
            (by simp [withShared, drifted, hplace]) (by simp [withShared, drifted, hplace])
    · exact h

theorem other_kept (h : Kept t) (act : Act) : Kept (t.withShared fun s => s.act act) :=
  ⟨h.base, fun hnone next drained hplace =>
      attended_moves (h.armed hnone next drained hplace) ⟨[act], rfl⟩ fun _ he => he,
    fun hnone drained hplace =>
      attended_moves (h.waiting hnone drained hplace) ⟨[act], rfl⟩ fun _ he => he⟩

end Thread

/-- The executor thread waits only where it is told of all that it has not dealt with. -/
def WaitsAttended (t : Thread V S A) : Prop :=
  t.ending = none → ∀ drained, t.place = .waiting drained →
    Attended drained (epochs t.loop.runs) t.shared

/-- **In any interleaving, the executor thread misses no wake.** Whenever it waits, and is
not closing, each job in a queue it drained, each run and held job whose epoch is over and
each stop has a wake that waits for it, or that a thread will still post, or that Windows
refused since the pass began. -/
theorem waits_attended (env : Env V S A) (capacity : Nat) (session : S) (rest : V)
    (happenings : List Happening) :
    WaitsAttended ((system env).run (.new capacity session rest) happenings) := by
  have hinv : (system env).Invariant Thread.Kept := by
    intro t happening ht _
    cases happening with
    | other act => exact Thread.other_kept ht act
    | go answer => exact Thread.go_kept env answer ht
  have hnew : Thread.Kept (Thread.new capacity session rest : Thread V S A) :=
    ⟨fun base h => (Place.drain.inj h).symm.le, fun _ _ _ h => absurd h (by simp [Thread.new]),
      fun _ _ h => absurd h (by simp [Thread.new])⟩
  exact (hinv.run hnew (Machine.legal_of_enabled _ (fun _ _ => trivial) _ _)).waiting

end KeySwitch.Executor
