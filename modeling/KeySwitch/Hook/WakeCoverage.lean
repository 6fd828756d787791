import KeySwitch.Hook.GestureTimers

/-!
# The wait always holds the earliest deadline

Whenever `planWake` lets the main thread wait, the queue is empty or the waitable
timer is set for the earliest request in it; every request queued is of an entry
that still waits; and every Hold has its request queued, since a Hold whose timer
could not be set is dropped.

The invariant is `Ready`. Of `armed` it says what the `keep` of a plan relies on:
the timer is set for that deadline and has not signalled since, or the deadline
has passed (`Trusted`). Of the Holds it says that each has its request queued,
or among those still to be started (`todo`).
-/

namespace KeySwitch.Hook.MainThread

open Data Lib Engine

variable {α : Type}

/-! ## Setting the timer -/

theorem le_rounded_up (n : Nat) : n ≤ 100 * ((n + 99) / 100) := by omega

theorem dueTime_covers {after : Duration} (h : after ≤ LONGEST) :
    after ≤ 100 * (dueTime after).natAbs := by
  have hmin : min after LONGEST = after := Nat.min_eq_left h
  unfold dueTime
  rw [Int.natAbs_neg, Int.natAbs_natCast, hmin]
  have hle : (after + 99) / 100 ≤ max ((after + 99) / 100) 1 := Nat.le_max_left _ _
  exact Nat.le_trans (le_rounded_up after) (Nat.mul_le_mul_left 100 hle)

/-- A set that succeeds is for a signal no earlier than the deadline. -/
theorem setAfter_ok {deadline : Instant} {now : Instant} {answer : SetAnswer}
    (hnow : now ≤ answer.since) (hlongest : deadline - now ≤ LONGEST) (hok : answer.ok = true) :
    ∃ due, WaitableTimer.setAfter deadline (deadline - now) answer = (.set deadline due, true) ∧
      deadline ≤ due := by
  refine ⟨answer.since + 100 * (dueTime (deadline - now)).natAbs, ?_, ?_⟩
  · unfold WaitableTimer.setAfter
    rw [if_pos hok]
  · have hcovers := dueTime_covers hlongest
    have hreached : deadline ≤ now + (deadline - now) := by
      rw [Nat.add_comm]
      exact Nat.le_add_of_sub_le (Nat.le_refl _)
    exact Nat.le_trans hreached (Nat.add_le_add hnow hcovers)

theorem setAfter_failed {deadline : Instant} {after : Duration} {answer : SetAnswer}
    (hok : answer.ok = false) :
    WaitableTimer.setAfter deadline after answer = (.unknown, false) := by
  unfold WaitableTimer.setAfter
  rw [hok, if_neg Bool.false_ne_true]

/-! ## The invariant -/

/-- What `armed` stands for: the timer is set for that deadline and has not
signalled since, or the deadline has passed. -/
def Trusted (clock : Instant) (g : GestureTimers) : Prop :=
  ∀ deadline, g.armed = some deadline →
    (∃ due, g.wake = .set deadline due ∧ deadline ≤ due) ∨ deadline ≤ clock

theorem trusted_none {clock : Instant} {g : GestureTimers} (h : g.armed = none) :
    Trusted clock g := by
  intro deadline harmed
  rw [h] at harmed
  exact absurd harmed (by simp)

/-- The state between two steps, with the requests `todo` of a decision still to
be started. -/
structure Ready (todo : List TimerRequest) (m : MainState α) : Prop where
  trusted : Trusted m.clock m.timers
  holds : ∀ r ∈ m.engine.holds, r ∈ m.timers.queue.pending ∨ r ∈ todo
  near : ∀ r, r ∈ m.timers.queue.pending ∨ r ∈ todo → r.due ≤ m.clock + LONGEST
  within : m.engine.gestures.Within (m.clock + LONGEST)
  fresh : Fresh m.engine
  numbers : m.engine.ids.lastSeq < 2 ^ 64

theorem ready_new : Ready [] (MainState.new : MainState α) := by
  have hnumbers : 0 < 2 ^ 64 := by decide
  refine ⟨trusted_none rfl, ?_, ?_, Gestures.within_new _, fresh_new, hnumbers⟩
  · intro r hr
    exact absurd hr List.not_mem_nil
  · rintro r (hr | hr) <;> exact absurd hr List.not_mem_nil

/-- Time passes. -/
theorem ready_later {todo : List TimerRequest} {m : MainState α} (h : Ready todo m)
    {now : Instant} (hle : m.clock ≤ now) : Ready todo { m with clock := now } := by
  have hbound : m.clock + LONGEST ≤ now + LONGEST := Nat.add_le_add_right hle _
  refine ⟨fun deadline harmed => ?_, h.holds, fun r hr => ?_, ?_, h.fresh, h.numbers⟩
  · rcases h.trusted deadline harmed with hset | hpast
    · exact Or.inl hset
    · exact Or.inr (Nat.le_trans hpast hle)
  · exact Nat.le_trans (h.near r hr) hbound
  · exact Gestures.within_mono h.within hbound

/-- Requests that nothing waits for may go. -/
theorem ready_retain {todo : List TimerRequest} {m : MainState α} (h : Ready todo m) :
    Ready todo { m with timers := m.timers.retain m.engine.isLive } := by
  refine ⟨h.trusted, fun r hr => ?_, fun r hr => ?_, h.within, h.fresh, h.numbers⟩
  · rcases h.holds r hr with hqueued | htodo
    · have hlive := (m.engine.isLive_iff r.token).mpr ⟨r.due, holds_subset_timed _ hr⟩
      exact Or.inl (List.mem_filter.mpr ⟨hqueued, hlive⟩)
    · exact Or.inr htodo
  · rcases hr with hqueued | htodo
    · exact h.near r (Or.inl (List.mem_filter.mp hqueued).1)
    · exact h.near r (Or.inr htodo)

/-- A call of the engine other than a key event. -/
theorem ready_call {todo : List TimerRequest} {m : MainState α} (h : Ready todo m) (op : Op α)
    (hquiet : ∀ event bindings env, op ≠ .key event bindings env) : Ready todo (m.call op) := by
  have hbounds := quiet_bounds h.within op hquiet
  have harmings : m.engine.armings op = 0 := by
    cases op with
    | key event bindings env => exact absurd rfl (hquiet event bindings env)
    | _ => rfl
  have henabled : operations.enabled m.engine op := by
    show m.engine.ids.lastSeq + m.engine.armings op < 2 ^ 64
    rw [harmings]
    exact h.numbers
  have hlast := lastSeq_step h.fresh.wf henabled
  have hnone : (m.engine.step op).2.timers = [] := by
    cases op with
    | key event bindings env => exact absurd rfl (hquiet event bindings env)
    | _ => rfl
  refine ⟨h.trusted, fun r hr => ?_, h.near, hbounds.within, fresh_step _ _ h.fresh henabled, ?_⟩
  · rcases hbounds.holds r hr with hnew | hold
    · rw [hnone] at hnew
      exact absurd hnew List.not_mem_nil
    · exact h.holds r hold
  · show (m.engine.step op).1.ids.lastSeq < 2 ^ 64
    have hlast' : (m.engine.step op).1.ids.lastSeq = m.engine.ids.lastSeq := by
      rw [harmings] at hlast
      exact hlast
    rw [hlast']
    exact h.numbers

/-! ## Starting timers -/

/-- A request that could not be started is gone from the queue, and its Hold from
the engine. -/
theorem ready_refused {r : TimerRequest} {todo : List TimerRequest} {m : MainState α}
    (h : Ready (r :: todo) m) {pending : List TimerRequest}
    (hsub : ∀ q ∈ m.timers.queue.pending, q.token ≠ r.token → q ∈ pending)
    (hback : ∀ q ∈ pending, q ∈ m.timers.queue.pending ∨ q = r) {wake : WaitableTimer} :
    Ready todo ⟨(m.engine.forgetTimer r.token).1, ⟨⟨pending⟩, wake, none⟩, m.clock⟩ := by
  have hcalled := ready_call h (.forget r.token) (by simp)
  have hdrops := forgetTimer_drops h.fresh r.token
  refine ⟨trusted_none rfl, fun q hq => ?_, fun q hq => ?_, hcalled.within, hcalled.fresh,
    hcalled.numbers⟩
  · have htoken := hdrops q hq
    rcases hcalled.holds q hq with hqueued | htodo
    · exact Or.inl (hsub q hqueued htoken)
    · rcases List.mem_cons.mp htodo with rfl | htodo
      · exact absurd rfl htoken
      · exact Or.inr htodo
  · rcases hq with hqueued | htodo
    · rcases hback q hqueued with hqueued | rfl
      · exact h.near q (Or.inl hqueued)
      · exact h.near q (Or.inr List.mem_cons_self)
    · exact h.near q (Or.inr (List.mem_cons_of_mem _ htodo))

/-- A request that was started is queued, and the wake trusted. -/
theorem ready_started {r : TimerRequest} {todo : List TimerRequest} {m : MainState α}
    (h : Ready (r :: todo) m) {wake : WaitableTimer} {armed : Option Instant}
    (htrusted : Trusted m.clock ⟨⟨m.timers.queue.pending ++ [r]⟩, wake, armed⟩) :
    Ready todo ⟨m.engine, ⟨⟨m.timers.queue.pending ++ [r]⟩, wake, armed⟩, m.clock⟩ := by
  refine ⟨htrusted, fun q hq => ?_, fun q hq => ?_, h.within, h.fresh, h.numbers⟩
  · rcases h.holds q hq with hqueued | htodo
    · exact Or.inl (List.mem_append_left _ hqueued)
    · rcases List.mem_cons.mp htodo with rfl | htodo
      · exact Or.inl (List.mem_append_right _ List.mem_cons_self)
      · exact Or.inr htodo
  · rcases hq with hqueued | htodo
    · rcases List.mem_append.mp hqueued with hqueued | hlast
      · exact h.near q (Or.inl hqueued)
      · exact h.near q (Or.inr (List.mem_cons.mpr (Or.inl (List.mem_singleton.mp hlast))))
    · exact h.near q (Or.inr (List.mem_cons_of_mem _ htodo))

/-- The engine and the timers after one request, as `startOne` leaves them. -/
def startedOne (answer : TimerRequest → SetAnswer) (m : MainState α) (dropped : Nat)
    (r : TimerRequest) : MainState α :=
  let acc := startOne (GestureTimers.scheduler answer) (m.engine, m.timers, dropped) r
  ⟨acc.1, acc.2.1, m.clock⟩

/-- **Starting one request keeps the invariant**, whatever Windows answers. -/
theorem startedOne_ready {answer : TimerRequest → SetAnswer} {r : TimerRequest}
    {todo : List TimerRequest} {m : MainState α} (h : Ready (r :: todo) m) (dropped : Nat)
    (hclock : m.clock ≤ (answer r).now ∧ (answer r).now ≤ (answer r).since) :
    Ready todo (startedOne answer m dropped r) := by
  unfold startedOne startOne GestureTimers.scheduler GestureTimers.start
  dsimp only
  split
  · -- The wake must move.
    cases hok : (answer r).ok with
    | true =>
      have hlongest : r.due - (answer r).now ≤ LONGEST := by
        have hnear := h.near r (Or.inr List.mem_cons_self)
        refine Nat.sub_le_iff_le_add.mpr (Nat.le_trans hnear ?_)
        rw [Nat.add_comm]
        exact Nat.add_le_add_left hclock.1 _
      obtain ⟨due, hset, hle⟩ := setAfter_ok hclock.2 hlongest hok
      rw [hset, if_pos rfl]
      refine ready_started h fun deadline harmed => Or.inl ⟨due, ?_, ?_⟩
      · rw [← Option.some.inj harmed]
      · rw [← Option.some.inj harmed]
        exact hle
    | false =>
      rw [setAfter_failed hok, if_neg Bool.false_ne_true]
      refine ready_refused h (fun q hq hne => ?_) fun q hq => ?_
      · exact List.mem_filter.mpr ⟨List.mem_append_left _ hq, by simpa using hne⟩
      · rcases List.mem_append.mp (List.mem_filter.mp hq).1 with hq | hq
        · exact Or.inl hq
        · exact Or.inr (List.mem_singleton.mp hq)
  · exact ready_started h h.trusted

theorem startOnes_ready {answer : TimerRequest → SetAnswer} {clock : Instant}
    (hclock : ∀ r, clock ≤ (answer r).now ∧ (answer r).now ≤ (answer r).since)
    (timers : List TimerRequest) {e : Engine α} {g : GestureTimers} (dropped : Nat)
    (h : Ready timers ⟨e, g, clock⟩) :
    Ready [] ⟨(timers.foldl (startOne (GestureTimers.scheduler answer)) (e, g, dropped)).1,
      (timers.foldl (startOne (GestureTimers.scheduler answer)) (e, g, dropped)).2.1, clock⟩ := by
  induction timers generalizing e g dropped with
  | nil => exact h
  | cons r timers ih =>
    rw [List.foldl_cons]
    exact ih _ (startedOne_ready h dropped (hclock r))

/-- **A key event keeps the invariant.** -/
theorem decideEvent_ready {m : MainState α} (h : Ready [] m) {event : KeyEvent}
    {bindings : List (Binding α)} {env : Env} {answer : TimerRequest → SetAnswer}
    (hadmits : m.admits (.event event bindings env answer)) :
    Ready [] (m.decideEvent event bindings env answer).1 := by
  obtain ⟨hle, hclock, hterms, henabled⟩ := hadmits
  have hlater := ready_later h hle
  have hbounds := onKey_bounds event hterms hlater.within (Nat.le_refl _)
  have hfresh := fresh_step _ _ h.fresh henabled
  have hnumbers : (m.engine.onKey event bindings env).1.ids.lastSeq < 2 ^ 64 := by
    have hlast : (m.engine.onKey event bindings env).1.ids.lastSeq = _ :=
      lastSeq_step h.fresh.wf henabled
    rw [hlast]
    exact henabled
  have hdecided : Ready (m.engine.onKey event bindings env).2.timers
      ⟨(m.engine.onKey event bindings env).1, m.timers, env.now⟩ := by
    refine ⟨hlater.trusted, fun r hr => ?_, fun r hr => ?_, hbounds.within, hfresh, hnumbers⟩
    · rcases hbounds.holds r hr with hnew | hold
      · exact Or.inr hnew
      · rcases h.holds r hold with hqueued | hnone
        · exact Or.inl hqueued
        · exact absurd hnone List.not_mem_nil
    · rcases hr with hqueued | hnew
      · exact hlater.near r (Or.inl hqueued)
      · exact hbounds.timers r hnew
  unfold MainState.decideEvent startTimers
  dsimp only
  split
  · next hempty =>
    rw [List.isEmpty_iff] at hempty
    rw [hempty] at hdecided
    exact hdecided
  · exact startOnes_ready hclock _ 0 (ready_retain hdecided)

/-! ## The drain and the plan -/

/-- **A drained timer takes its Hold with it.** -/
theorem takeDueTimer_ready {m : MainState α} (h : Ready [] m) (now : Instant) :
    Ready [] (m.takeDueTimer now) := by
  cases htake : m.timers.queue.takeDue now with
  | mk queue taken =>
  cases taken with
  | none =>
    unfold MainState.takeDueTimer
    rw [htake]
    exact h
  | some request =>
    obtain ⟨-, -, hperm⟩ := TimerQueue.takeDue_some htake
    have hcalled := ready_call h (.timer request.token) (by simp)
    have hdead := onTimer_delivers h.fresh request.token
    unfold MainState.takeDueTimer
    rw [htake]
    refine ⟨h.trusted, fun r hr => ?_, fun r hr => ?_, hcalled.within, hcalled.fresh,
      hcalled.numbers⟩
    · rcases hcalled.holds r hr with hqueued | hnone
      · rcases List.mem_cons.mp (hperm.subset hqueued) with rfl | hrest
        · -- The request taken is of no entry that is left.
          have hlive := ((m.engine.onTimer r.token).1.isLive_iff r.token).mpr
            ⟨r.due, holds_subset_timed _ hr⟩
          rw [hdead] at hlive
          exact absurd hlive (by decide)
        · exact Or.inl hrest
      · exact absurd hnone List.not_mem_nil
    · rcases hr with hqueued | hnone
      · exact h.near r (Or.inl (hperm.symm.subset (List.mem_cons_of_mem _ hqueued)))
      · exact absurd hnone List.not_mem_nil

/-- Forgetting tokens keeps the invariant, makes no Hold, and drops theirs. -/
theorem forgetAll_ready (tokens : List TimerToken) (dropped : Nat) {todo : List TimerRequest}
    {m : MainState α} (h : Ready todo m) :
    Ready todo { m with engine := (tokens.foldl GestureTimers.forgetOne (m.engine, dropped)).1 } ∧
      ∀ r ∈ (tokens.foldl GestureTimers.forgetOne (m.engine, dropped)).1.holds,
        r ∈ m.engine.holds ∧ r.token ∉ tokens := by
  induction tokens generalizing m dropped with
  | nil => exact ⟨h, fun r hr => ⟨hr, List.not_mem_nil⟩⟩
  | cons token tokens ih =>
    have hcalled := ready_call h (.forget token) (by simp)
    have hbounds := quiet_bounds h.within (.forget token) (by simp)
    have hdrops := forgetTimer_drops h.fresh token
    obtain ⟨hready, hrest⟩ := ih
      (if (m.engine.forgetTimer token).2 then dropped + 1 else dropped) hcalled
    refine ⟨hready, fun r hr => ?_⟩
    obtain ⟨hold, hnot⟩ := hrest r hr
    refine ⟨?_, fun hin => ?_⟩
    · rcases hbounds.holds r hold with hnew | hold
      · exact absurd hnew List.not_mem_nil
      · exact hold
    · rcases List.mem_cons.mp hin with heq | hin
      · exact hdrops r hold heq
      · exact hnot hin

/-- The state after a plan. -/
def planned (m : MainState α) (now : Instant) (answer : SetAnswer) (cancelled : Bool) :
    MainState α :=
  let result := m.timers.planWake m.engine now answer cancelled
  ⟨result.1.2, result.1.1, now⟩

/-- The wake is set for the earliest request queued, if one is. -/
def WakeSet (g : GestureTimers) : Prop :=
  g.queue.pending = [] ∨ ∃ deadline due, g.queue.nextDue = some deadline ∧
    g.armed = some deadline ∧ g.wake = .set deadline due

/-- **A plan keeps the invariant, and lets the thread wait only for a wake that
is set**, with only live requests queued. -/
theorem planWake_ready {m : MainState α} (h : Ready [] m) {now : Instant} {answer : SetAnswer}
    {cancelled : Bool} (hadmits : m.admits (.planWake now answer cancelled)) :
    Ready [] (planned m now answer cancelled) ∧
      ((m.timers.planWake m.engine now answer cancelled).2 = .wait →
        WakeSet (planned m now answer cancelled).timers ∧
          ∀ r ∈ (planned m now answer cancelled).timers.queue.pending,
            (planned m now answer cancelled).engine.isLive r.token = true) := by
  obtain ⟨hle, hsince⟩ := hadmits
  have hkept := ready_retain (ready_later h hle)
  have hlive : ∀ r ∈ (m.timers.retain m.engine.isLive).queue.pending,
      m.engine.isLive r.token = true := fun r hr => (List.mem_filter.mp hr).2
  have hretained : (m.timers.retain m.engine.isLive).armed = m.timers.armed := rfl
  unfold planned GestureTimers.planWake plan
  dsimp only
  cases hnext : (m.timers.retain m.engine.isLive).queue.nextDue with
  | none =>
    -- Nothing is queued: a wake still set is cancelled.
    have hempty := TimerQueue.nextDue_eq_none.mp hnext
    dsimp only
    unfold GestureTimers.cancel
    split
    · refine ⟨⟨trusted_none rfl, hkept.holds, hkept.near, hkept.within, hkept.fresh,
        hkept.numbers⟩, fun _ => ⟨Or.inl hempty, hlive⟩⟩
    · exact ⟨hkept, fun _ => ⟨Or.inl hempty, hlive⟩⟩
  | some deadline =>
    dsimp only
    by_cases hdue : deadline ≤ now
    · rw [if_pos hdue]
      exact ⟨hkept, fun hwait => absurd hwait (by simp)⟩
    · rw [if_neg hdue]
      by_cases harmed : (m.timers.retain m.engine.isLive).armed = some deadline
      · -- The timer is set for a deadline still to come, so it has not signalled.
        rw [if_pos harmed]
        refine ⟨hkept, fun _ => ⟨Or.inr ?_, hlive⟩⟩
        rcases hkept.trusted deadline harmed with ⟨due, hset, -⟩ | hpast
        · exact ⟨deadline, due, hnext, harmed, hset⟩
        · exact absurd hpast hdue
      · rw [if_neg harmed]
        dsimp only
        cases hok : answer.ok with
        | true =>
          obtain ⟨r, hr, hrdue⟩ := TimerQueue.nextDue_mem hnext
          have hlongest : deadline - now ≤ LONGEST := by
            have hnear := hkept.near r (Or.inl hr)
            rw [hrdue] at hnear
            exact Nat.sub_le_iff_le_add.mpr (by rw [Nat.add_comm]; exact hnear)
          obtain ⟨due, hset, hreached⟩ := setAfter_ok hsince hlongest hok
          rw [hset, if_pos rfl]
          refine ⟨⟨fun d hd => Or.inl ⟨due, ?_, ?_⟩, hkept.holds, hkept.near, hkept.within,
            hkept.fresh, hkept.numbers⟩, fun _ => ⟨Or.inr ⟨deadline, due, hnext, rfl, rfl⟩, hlive⟩⟩
          · rw [← Option.some.inj hd]
          · rw [← Option.some.inj hd]
            exact hreached
        | false =>
          -- Every Hold has its request queued, and every queued token is forgotten.
          rw [setAfter_failed hok, if_neg Bool.false_ne_true]
          obtain ⟨hready, hdrops⟩ := forgetAll_ready
            ((m.timers.retain m.engine.isLive).queue.pending.map TimerRequest.token) 0 hkept
          refine ⟨⟨trusted_none rfl, fun r hr => ?_, fun r hr => ?_, hready.within, hready.fresh,
            hready.numbers⟩, fun hwait => absurd hwait (by simp)⟩
          · obtain ⟨hold, hnot⟩ := hdrops r hr
            rcases hkept.holds r hold with hqueued | hnone
            · exact absurd (List.mem_map_of_mem hqueued) hnot
            · exact absurd hnone List.not_mem_nil
          · rcases hr with hnone | hnone <;> exact absurd hnone List.not_mem_nil

/-! ## Whole runs -/

/-- **One step keeps the invariant.** -/
theorem ready_step : (mainThread (α := α)).Invariant (Ready []) := by
  intro m happening h hadmits
  cases happening with
  | event event bindings env answer => exact decideEvent_ready h hadmits
  | trackInjected event => exact ready_call h _ (by simp)
  | foregroundChanged => exact ready_call h _ (by simp)
  | inputReturned => exact ready_call h _ (by simp)
  | resyncIfDue env notes => exact ready_call h _ (by simp)
  | resetEngine env reason =>
    exact ready_retain (ready_call h (.reset env reason) (by simp))
  | takeDueTimer now => exact takeDueTimer_ready h now
  | planWake now answer cancelled => exact (planWake_ready h hadmits).1
  | signal now =>
    obtain ⟨hle, hsignals⟩ := hadmits
    have hlater := ready_later h hle
    refine ⟨fun deadline harmed => ?_, hlater.holds, hlater.near, hlater.within, hlater.fresh,
      hlater.numbers⟩
    rcases h.trusted deadline harmed with ⟨due, hset, hreached⟩ | hpast
    · -- It signals at the end of its time at the earliest: the deadline has passed.
      rw [hset] at hsignals
      exact Or.inr (Nat.le_trans hreached hsignals)
    · exact Or.inr (Nat.le_trans hpast hle)
  | fired =>
    exact ⟨trusted_none rfl, h.holds, h.near, h.within, h.fresh, h.numbers⟩

/-- What the wait may rely on. -/
structure Covered (m : MainState α) : Prop where
  /-- Nothing is queued, or the waitable timer is set for the earliest request
  and has not signalled since. -/
  wake : WakeSet m.timers
  live : ∀ r ∈ m.timers.queue.pending, m.engine.isLive r.token = true
  held : ∀ p ∈ m.engine.gestures.presses, ∀ tap due action double,
    p.phase = .held tap (some (due, action)) double →
      ⟨⟨m.engine.ids.generation, .gesture p.vk, p.seq⟩, due⟩ ∈ m.timers.queue.pending
  due : ∀ d ∈ m.engine.gestures.dueHolds,
    ⟨⟨m.engine.ids.generation, .gesture d.vk, d.seq⟩, d.due⟩ ∈ m.timers.queue.pending

/-- **Wake coverage.** In every run of the main thread that takes fewer than 2^64
numbers over lists whose terms are at most `LONGEST`, whatever Windows answers:
whenever `planWake` lets it wait, the wake is set for the earliest request queued,
each request queued is live, and each Hold still in the engine has its request
queued. -/
theorem wake_coverage {happenings : List (Happening α)}
    (hlegal : mainThread.Legal MainState.new happenings) :
    ∀ x ∈ mainThread.trace (MainState.new : MainState α) happenings,
      x.output = some .wait → Covered x.after := by
  intro x hx hwait
  obtain ⟨hbefore, hadmits, hmoment⟩ := ready_step.trace ready_new hlegal x hx
  have houtput : (x.before.step x.input).2 = some .wait := by
    rw [hmoment] at hwait
    exact hwait
  rw [hmoment]
  show Covered (x.before.step x.input).1
  cases hinput : x.input with
  | planWake now answer cancelled =>
    rw [hinput] at hadmits houtput
    obtain ⟨hready, hwaits⟩ := planWake_ready hbefore hadmits
    obtain ⟨hwake, hlive⟩ := hwaits (Option.some.inj houtput)
    have hqueued : ∀ r ∈ (planned x.before now answer cancelled).engine.holds,
        r ∈ (planned x.before now answer cancelled).timers.queue.pending := by
      intro r hr
      rcases hready.holds r hr with hqueued | hnone
      · exact hqueued
      · exact absurd hnone List.not_mem_nil
    refine ⟨hwake, hlive, fun p hp tap due action double hphase => ?_, fun d hd => ?_⟩
    · refine hqueued _ (Gestures.mem_holds.mpr (Or.inl ⟨p, hp, ?_, ?_⟩))
      · rw [hphase]
        rfl
      · rw [Gestures.timedOf_held _ hphase]
        exact List.mem_singleton.mpr rfl
    · exact hqueued _ (Gestures.mem_holds.mpr (Or.inr ⟨d, hd, rfl⟩))
  | _ =>
    rw [hinput] at houtput
    exact absurd houtput (by simp [MainState.step])

/-- A goes down under a 200 ms Hold, its timer is set at once, and the loop plans
its wait 1 ms later. -/
def heldThenWait : List (Happening Unit) :=
  [.event ⟨0x41, .down⟩ [holdOfA] (worldAt 0) fun _ => ⟨0, 0, true⟩,
    .planWake (fromMillis 1) ⟨fromMillis 1, fromMillis 1, true⟩ true]

theorem heldThenWait_legal : mainThread.Legal MainState.new heldThenWait := by
  have hterms : ∀ b ∈ [holdOfA], termOf b ≤ LONGEST := by
    intro b hb
    rw [List.mem_singleton.mp hb]
    decide
  have hnumbers : operations.enabled (new : Engine Unit)
      (.key ⟨0x41, .down⟩ [holdOfA] (worldAt 0)) := by
    show 0 + 1 < 2 ^ 64
    decide
  exact ⟨⟨Nat.zero_le _, fun _ => ⟨Nat.zero_le _, Nat.le_refl _⟩, hterms, hnumbers⟩,
    ⟨Nat.zero_le _, Nat.le_refl _⟩, trivial⟩

theorem wake_coverage_hold : Covered (mainThread.run MainState.new heldThenWait) :=
  wake_coverage heldThenWait_legal _
    (List.mem_of_getElem?
      (show (mainThread.trace MainState.new heldThenWait)[1]? = some _ from rfl))
    rfl

end KeySwitch.Hook.MainThread
