import KeySwitch.Executor.Polls

/-!
# A poll that made no call

The loop waits only after a pass whose polls made no runner call. `Made` are the worlds that
follow with a given number of calls made, and each function of `Runs` is followed by one of
them, with its calls counted as the loop counts them (`Tallied`). So a poll that counts no
call has only let others act (`Made.only`), and each run and held job it leaves was found
live in a world from which it did no more than that (`poll_found`).
-/

namespace KeySwitch.Executor

open Data

variable {W S A : Type}

/-! ## The worlds with the calls made -/

/-- The worlds a `start` or `poll` can come to from `w` with `n` runner calls. A call of the
session that asked no port is none; one that panicked is, and ends the session. -/
inductive Made (ctx : Ctx W S A) (w : W) : Nat → W → Prop
  | refl : Made ctx w 0 w
  | drift {n w'} : Made ctx w n w' → Made ctx w n (ctx.drift w')
  | action {n w'} (action : BindAction) :
    Made ctx w n w' → Made ctx w (n + 1) (ctx.action action w').1
  | step {n w'} (step : SequenceStep) (target : TargetWindow) :
    Made ctx w n w' → Made ctx w (n + 1) (ctx.step step target w').1
  | attempt {n w'} (s : S) (a : Option A) (spec : PasteSpec) (epoch : Nat) :
    Made ctx w n w' → Made ctx w (n + 1) (ctx.session.attempt s a spec epoch w').2.1
  | tick {n w'} (s : S) (now : Instant) :
    Made ctx w n w' → Made ctx w (n + 1) (ctx.session.tick s now w').2.1
  | tickIdle {n w'} (s : S) (now : Instant)
    (h : (ctx.session.tick s now w').2.2 = some false) :
    Made ctx w n w' → Made ctx w n (ctx.session.tick s now w').2.1
  | restore {n w'} (s : S) (now : Instant) :
    Made ctx w n w' → Made ctx w (n + 1) (ctx.session.restoreIfDue s now w').2.1
  | restoreIdle {n w'} (s : S) (now : Instant)
    (h : (ctx.session.restoreIfDue s now w').2.2 = some false) :
    Made ctx w n w' → Made ctx w n (ctx.session.restoreIfDue s now w').2.1
  | giveUp {n w'} (s : S) :
    Made ctx w (n + 1) w' → Made ctx w (n + 1) (ctx.session.giveUp s w').2

namespace Made

variable {ctx : Ctx W S A}

theorem trans {w₁ w₂ w₃ : W} {m n : Nat} (h₁ : Made ctx w₁ m w₂) (h₂ : Made ctx w₂ n w₃) :
    Made ctx w₁ (m + n) w₃ := by
  induction h₂ with
  | refl => exact h₁
  | drift _ ih => exact ih.drift
  | action a _ ih => exact ih.action a
  | step s t _ ih => exact ih.step s t
  | attempt s a spec epoch _ ih => exact ih.attempt s a spec epoch
  | tick s now _ ih => exact ih.tick s now
  | tickIdle s now h _ ih => exact ih.tickIdle s now h
  | restore s now _ ih => exact ih.restore s now
  | restoreIdle s now h _ ih => exact ih.restoreIdle s now h
  | giveUp s _ ih => exact ih.giveUp s

/-- What every drift and every call that asked nothing keeps, a stretch without a call
keeps. -/
theorem only {P : W → Prop} (hdrift : ∀ w, P w → P (ctx.drift w))
    (htick : ∀ s now w, (ctx.session.tick s now w).2.2 = some false → P w →
      P (ctx.session.tick s now w).2.1)
    (hrestore : ∀ s now w, (ctx.session.restoreIfDue s now w).2.2 = some false → P w →
      P (ctx.session.restoreIfDue s now w).2.1)
    {w w' : W} {n : Nat} (h : Made ctx w n w') (hn : n = 0) (hw : P w) : P w' := by
  induction h with
  | refl => exact hw
  | drift _ ih => exact hdrift _ (ih hn)
  | tickIdle s now hidle _ ih => exact htick s now _ hidle (ih hn)
  | restoreIdle s now hidle _ ih => exact hrestore s now _ hidle (ih hn)
  | action _ _ _ => exact absurd hn (Nat.succ_ne_zero _)
  | step _ _ _ _ => exact absurd hn (Nat.succ_ne_zero _)
  | attempt _ _ _ _ _ _ => exact absurd hn (Nat.succ_ne_zero _)
  | tick _ _ _ _ => exact absurd hn (Nat.succ_ne_zero _)
  | restore _ _ _ _ => exact absurd hn (Nat.succ_ne_zero _)
  | giveUp _ _ _ => exact absurd hn (Nat.succ_ne_zero _)

end Made

/-- The world of `r'` follows from that of `r`, and its calls are counted. -/
def Tallied (ctx : Ctx W S A) (r r' : Runs W S A) : Prop :=
  ∃ n, Made ctx r.world n r'.world ∧ r'.calls.made = r.calls.made + n

theorem tallied_refl (ctx : Ctx W S A) (r : Runs W S A) : Tallied ctx r r := ⟨0, .refl, rfl⟩

theorem tallied_trans {ctx : Ctx W S A} {r₁ r₂ r₃ : Runs W S A} (h₁ : Tallied ctx r₁ r₂)
    (h₂ : Tallied ctx r₂ r₃) : Tallied ctx r₁ r₃ := by
  obtain ⟨m, hm, hcm⟩ := h₁
  obtain ⟨n, hn, hcn⟩ := h₂
  exact ⟨m + n, hm.trans hn, by omega⟩

theorem tallied_le {ctx : Ctx W S A} {r r' : Runs W S A} (h : Tallied ctx r r') :
    r.calls.made ≤ r'.calls.made := by
  obtain ⟨n, -, hn⟩ := h
  omega

/-- No call was counted, so none was made. -/
theorem tallied_none {ctx : Ctx W S A} {r r' : Runs W S A} (h : Tallied ctx r r')
    (hcalls : r'.calls.made = r.calls.made) : Made ctx r.world 0 r'.world := by
  obtain ⟨n, hn, hcn⟩ := h
  obtain rfl : n = 0 := by omega
  exact hn

/-! ## One function at a time -/

namespace Runs

theorem isLive_tallied (ctx : Ctx W S A) (epoch : Nat) (r : Runs W S A) :
    Tallied ctx r (r.isLive ctx epoch).2 := ⟨0, .drift .refl, rfl⟩

theorem readNow_tallied (ctx : Ctx W S A) (r : Runs W S A) :
    Tallied ctx r (r.readNow ctx).2 := ⟨0, .drift .refl, rfl⟩

theorem record_tallied (ctx : Ctx W S A) (event : Event) (r : Runs W S A) :
    Tallied ctx r (r.record event) := ⟨0, .refl, rfl⟩

theorem runAction_tallied (ctx : Ctx W S A) (epoch : Nat) (action : BindAction)
    (r : Runs W S A) : Tallied ctx r (r.runAction ctx epoch action) :=
  ⟨1, .action action .refl, rfl⟩

theorem runStep_tallied (ctx : Ctx W S A) (epoch : Nat) (step : SequenceStep)
    (target : TargetWindow) (r : Runs W S A) :
    Tallied ctx r (r.runStep ctx epoch step target).2 :=
  ⟨1, .step step target .refl, rfl⟩

theorem tryPaste_tallied (ctx : Ctx W S A) (epoch : Nat) (attempt : Option A)
    (spec : PasteSpec) (r : Runs W S A) :
    Tallied ctx r (r.tryPaste ctx epoch attempt spec).2 :=
  ⟨1, .attempt _ attempt spec epoch .refl, rfl⟩

end Runs

namespace Run

theorem walk_tallied (ctx : Ctx W S A) (head : Option Instant) (steps : List SequenceStep) :
    ∀ (run : Run A) (r : Runs W S A), Tallied ctx r (run.walk ctx head steps r).2 := by
  induction steps with
  | nil =>
    intro run r
    unfold walk
    dsimp only
    split
    · exact r.isLive_tallied ctx run.epoch
    · exact r.isLive_tallied ctx run.epoch
  | cons step rest ih =>
    intro run r
    have hcheck := r.isLive_tallied ctx run.epoch
    unfold walk
    dsimp only
    split
    · exact hcheck
    · split
      · exact hcheck
      · next spec rest' heq =>
        obtain ⟨rfl, rfl⟩ := List.cons.inj heq
        cases head with
        | some deadline => exact hcheck
        | none =>
          have hmade := tallied_trans hcheck
            (Runs.tryPaste_tallied ctx run.epoch run.attempt spec _)
          dsimp only
          split
          · exact hmade
          · exact tallied_trans hmade (ih _ _)
          · exact hmade
      · exact tallied_trans hcheck (Runs.readNow_tallied ctx _)
      · next heq =>
        obtain ⟨rfl, rfl⟩ := List.cons.inj heq
        have hmade := tallied_trans hcheck
          (Runs.runStep_tallied ctx run.epoch step run.target _)
        split
        · exact hmade
        · exact tallied_trans hmade (ih _ _)

theorem advance_tallied (ctx : Ctx W S A) (head : Option Instant) (run : Run A)
    (r : Runs W S A) : Tallied ctx r (run.advance ctx head r).2 := by
  unfold advance
  split
  · exact tallied_trans (r.record_tallied ctx _) (walk_tallied ctx head _ run _)
  · exact walk_tallied ctx head _ run r

end Run

namespace Runs

theorem due_tallied (ctx : Ctx W S A) (run : Run A) (r : Runs W S A) :
    Tallied ctx r (r.due ctx run).2 := by
  unfold due
  split
  · exact tallied_refl ctx r
  · exact r.readNow_tallied ctx
  · exact tallied_refl ctx r

theorem advanceFrom_tallied (ctx : Ctx W S A) (rest : List (Run A)) :
    ∀ (older : List (Run A)) (r : Runs W S A),
      Tallied ctx r (advanceFrom ctx older rest r) := by
  induction rest with
  | nil => exact fun older r => ⟨0, .refl, rfl⟩
  | cons run rest ih =>
    intro older r
    have hdue := r.due_tallied ctx run
    unfold advanceFrom
    dsimp only
    split
    · have hadvanced := tallied_trans hdue (Run.advance_tallied ctx (head older) run _)
      split
      · exact tallied_trans hadvanced (ih _ _)
      · exact tallied_trans hadvanced (ih _ _)
    · exact tallied_trans hdue (ih _ _)

/-- A call of the session is counted, unless it asked nothing. -/
theorem sessionCall_tallied {ctx : Ctx W S A}
    {call : S → Instant → W → S × W × Option Bool}
    (hcall : ∀ s now {w n w'}, Made ctx w n w' → Made ctx w (n + 1) (call s now w').2.1)
    (hidle : ∀ s now {w n w'}, (call s now w').2.2 = some false → Made ctx w n w' →
      Made ctx w n (call s now w').2.1) (r : Runs W S A) :
    Tallied ctx r (r.sessionCall ctx call) := by
  unfold sessionCall
  split
  · exact tallied_refl ctx r
  · have hnow : Made ctx r.world 0 (r.readNow ctx).2.world := .drift .refl
    dsimp only
    split
    · exact ⟨1, (hcall _ _ hnow).giveUp _, rfl⟩
    · next asked hasked =>
      cases asked with
      | true => exact ⟨1, hcall _ _ hnow, rfl⟩
      | false => exact ⟨0, hidle _ _ hasked hnow, rfl⟩

theorem tick_tallied (ctx : Ctx W S A) (r : Runs W S A) :
    Tallied ctx r (r.sessionCall ctx ctx.session.tick) :=
  sessionCall_tallied (fun s now {_ _ _} h => h.tick s now)
    (fun s now {_ _ _} hidle h => h.tickIdle s now hidle) r

theorem restoreIfDue_tallied (ctx : Ctx W S A) (r : Runs W S A) :
    Tallied ctx r (r.sessionCall ctx ctx.session.restoreIfDue) :=
  sessionCall_tallied (fun s now {_ _ _} h => h.restore s now)
    (fun s now {_ _ _} hidle h => h.restoreIdle s now hidle) r

theorem begin_tallied (ctx : Ctx W S A) (job : Job) (r : Runs W S A) :
    Tallied ctx r (r.begin ctx job) := by
  unfold begin
  dsimp only
  split
  · exact ⟨0, .refl, rfl⟩
  · exact ⟨0, .refl, rfl⟩
  · exact tallied_trans (r.record_tallied ctx _) (runAction_tallied ctx job.epoch _ _)

theorem start_tallied (ctx : Ctx W S A) (job : Job) (r : Runs W S A) :
    Tallied ctx r (r.start ctx job) := by
  have hlive := r.isLive_tallied ctx job.epoch
  unfold start
  dsimp only
  split
  · exact tallied_trans hlive (record_tallied ctx _ _)
  · split
    · exact hlive
    · split
      · exact hlive
      · exact tallied_trans hlive (begin_tallied ctx job _)

/-- The sweep over the runs only reads, and each run it keeps was found live. -/
theorem retainActive_found (ctx : Ctx W S A) (active : List (Run A)) :
    ∀ r : Runs W S A, Made ctx r.world 0 (retainActive ctx active r).world ∧
      (retainActive ctx active r).calls = r.calls ∧
      (retainActive ctx active r).held = r.held ∧
      ∀ run ∈ (retainActive ctx active r).active, ∃ w, ctx.live w run.epoch = true ∧
        Made ctx w 0 (retainActive ctx active r).world := by
  induction active with
  | nil => exact fun r => ⟨.refl, rfl, rfl, fun run hrun => absurd hrun List.not_mem_nil⟩
  | cons run rest ih =>
    intro r
    have hlive : Made ctx r.world 0 (r.isLive ctx run.epoch).2.world := .drift .refl
    unfold retainActive
    dsimp only
    split
    · next hfound =>
      obtain ⟨hmade, hcalls, hheld, hrest⟩ := ih (r.isLive ctx run.epoch).2
      refine ⟨hlive.trans hmade, hcalls, hheld, fun run' hrun' => ?_⟩
      rcases List.mem_cons.mp hrun' with rfl | hrun'
      · exact ⟨_, hfound, hmade⟩
      · exact hrest run' hrun'
    · split
      · obtain ⟨hmade, hcalls, hheld, hrest⟩ :=
          ih ((r.isLive ctx run.epoch).2.record (.dropped run.id .epochEnded))
        exact ⟨hlive.trans hmade, hcalls, hheld, hrest⟩
      · obtain ⟨hmade, hcalls, hheld, hrest⟩ := ih (r.isLive ctx run.epoch).2
        exact ⟨hlive.trans hmade, hcalls, hheld, hrest⟩

/-- So does the sweep over the held jobs. -/
theorem retainHeld_found (ctx : Ctx W S A) (held : List Job) :
    ∀ r : Runs W S A, Made ctx r.world 0 (retainHeld ctx held r).world ∧
      (retainHeld ctx held r).calls = r.calls ∧
      (retainHeld ctx held r).active = r.active ∧
      ∀ job ∈ (retainHeld ctx held r).held, ∃ w, ctx.live w job.epoch = true ∧
        Made ctx r.world 0 w ∧ Made ctx w 0 (retainHeld ctx held r).world := by
  induction held with
  | nil => exact fun r => ⟨.refl, rfl, rfl, fun job hjob => absurd hjob List.not_mem_nil⟩
  | cons job rest ih =>
    intro r
    have hlive : Made ctx r.world 0 (r.isLive ctx job.epoch).2.world := .drift .refl
    unfold retainHeld
    dsimp only
    split
    · next hfound =>
      obtain ⟨hmade, hcalls, hactive, hrest⟩ := ih (r.isLive ctx job.epoch).2
      refine ⟨hlive.trans hmade, hcalls, hactive, fun job' hjob' => ?_⟩
      rcases List.mem_cons.mp hjob' with rfl | hjob'
      · exact ⟨_, hfound, hlive, hmade⟩
      · obtain ⟨w, hlive', hbefore, hafter⟩ := hrest job' hjob'
        exact ⟨w, hlive', hlive.trans hbefore, hafter⟩
    · obtain ⟨hmade, hcalls, hactive, hrest⟩ :=
        ih ((r.isLive ctx job.epoch).2.record (.dropped job.id .epochEnded))
      refine ⟨hlive.trans hmade, hcalls, hactive, fun job' hjob' => ?_⟩
      obtain ⟨w, hlive', hbefore, hafter⟩ := hrest job' hjob'
      exact ⟨w, hlive', hlive.trans hbefore, hafter⟩

theorem releaseHeld_tallied (ctx : Ctx W S A) (held : List Job) :
    ∀ r : Runs W S A, Tallied ctx r (releaseHeld ctx held r) := by
  induction held with
  | nil => exact fun r => ⟨0, .refl, rfl⟩
  | cons job rest ih =>
    intro r
    unfold releaseHeld
    split
    · exact ⟨0, .refl, rfl⟩
    · have hbegin : Tallied ctx r ({ r with held := rest }.begin ctx job) :=
        begin_tallied ctx job { r with held := rest }
      exact tallied_trans (tallied_trans hbegin (advanceFrom_tallied ctx _ _ _)) (ih _)

/-- What comes after the two sweeps of a poll. -/
theorem poll_rest_tallied (ctx : Ctx W S A) (r : Runs W S A) :
    Tallied ctx (retainHeld ctx (retainActive ctx r.active r).held
      (retainActive ctx r.active r)) (r.poll ctx) := by
  unfold poll
  dsimp only
  generalize retainHeld ctx (retainActive ctx r.active r).held (retainActive ctx r.active r) = r₂
  have htick := tick_tallied ctx r₂
  generalize r₂.sessionCall ctx ctx.session.tick = r₃ at htick ⊢
  have hadvanced := tallied_trans htick (advanceFrom_tallied ctx r₃.active [] r₃)
  generalize advanceFrom ctx [] r₃.active r₃ = r₄ at hadvanced ⊢
  have hreleased := tallied_trans hadvanced (releaseHeld_tallied ctx r₄.held r₄)
  exact tallied_trans hreleased (restoreIfDue_tallied ctx _)

theorem poll_tallied (ctx : Ctx W S A) (r : Runs W S A) : Tallied ctx r (r.poll ctx) := by
  obtain ⟨hmade₁, hcalls₁, -, -⟩ := retainActive_found ctx r.active r
  obtain ⟨hmade₂, hcalls₂, -, -⟩ := retainHeld_found ctx (retainActive ctx r.active r).held
    (retainActive ctx r.active r)
  refine tallied_trans ⟨0, hmade₁.trans hmade₂, ?_⟩ (poll_rest_tallied ctx r)
  rw [hcalls₂, hcalls₁]
  rfl

end Runs

/-! ## What is left was found live -/

/-- The epochs of the runs and of the held jobs. -/
def epochs (r : Runs W S A) : List Nat := r.active.map Run.epoch ++ r.held.map Job.epoch

namespace Runs

theorem sessionCall_epochs (ctx : Ctx W S A)
    (call : S → Instant → W → S × W × Option Bool) (r : Runs W S A) :
    epochs (r.sessionCall ctx call) = epochs r := by
  unfold sessionCall
  split
  · rfl
  · dsimp only
    split <;> rfl

theorem advanceFrom_epochs (ctx : Ctx W S A) (rest : List (Run A)) :
    ∀ (older : List (Run A)) (r : Runs W S A), ∀ run ∈ (advanceFrom ctx older rest r).active,
      ∃ run' ∈ older ++ rest, run.epoch = run'.epoch := by
  induction rest with
  | nil => exact fun older r run hrun => ⟨run, List.mem_append_left _ hrun, rfl⟩
  | cons run rest ih =>
    intro older r
    -- What stands before `rest` from here on has the epochs of `older ++ [run]`.
    have hmoved : ∀ (older' : List (Run A)) (r' : Runs W S A),
        (∀ q ∈ older', ∃ q' ∈ older ++ [run], q.epoch = q'.epoch) →
        ∀ q ∈ (advanceFrom ctx older' rest r').active, ∃ q' ∈ older ++ run :: rest,
          q.epoch = q'.epoch := by
      intro older' r' holder q hq
      obtain ⟨q', hq', heq⟩ := ih older' r' q hq
      rcases List.mem_append.mp hq' with hq' | hq'
      · obtain ⟨q'', hq'', heq'⟩ := holder q' hq'
        refine ⟨q'', ?_, heq.trans heq'⟩
        rw [← List.singleton_append, ← List.append_assoc]
        exact List.mem_append_left _ hq''
      · exact ⟨q', List.mem_append_right _ (List.mem_cons_of_mem _ hq'), heq⟩
    unfold advanceFrom
    dsimp only
    split
    · split
      · next run' hsome =>
        refine hmoved _ _ fun q hq => ?_
        rcases List.mem_append.mp hq with hq | hq
        · exact ⟨q, List.mem_append_left _ hq, rfl⟩
        · obtain rfl := List.mem_singleton.mp hq
          exact ⟨run, List.mem_append_right _ (List.mem_singleton_self _),
            (advance_same (Option.mem_def.mpr hsome)).epoch⟩
      · exact hmoved _ _ fun q hq => ⟨q, List.mem_append_left _ hq, rfl⟩
    · exact hmoved _ _ fun q hq => ⟨q, hq, rfl⟩

theorem begin_epochs (ctx : Ctx W S A) (job : Job) (r : Runs W S A) :
    (r.begin ctx job).held = r.held ∧
      ∀ run ∈ (r.begin ctx job).active, run ∈ r.active ∨ run.epoch = job.epoch := by
  unfold begin
  dsimp only
  split
  · refine ⟨rfl, fun run hrun => ?_⟩
    rcases List.mem_append.mp hrun with hrun | hrun
    · exact .inl hrun
    · exact .inr (by rw [List.mem_singleton.mp hrun])
  · refine ⟨rfl, fun run hrun => ?_⟩
    rcases List.mem_append.mp hrun with hrun | hrun
    · exact .inl hrun
    · exact .inr (by rw [List.mem_singleton.mp hrun])
  · exact ⟨rfl, fun run hrun => .inl hrun⟩

theorem releaseHeld_epochs (ctx : Ctx W S A) (held : List Job) :
    ∀ r : Runs W S A, ∀ e ∈ epochs (releaseHeld ctx held r),
      e ∈ r.active.map Run.epoch ++ held.map Job.epoch := by
  induction held with
  | nil => exact fun r e he => he
  | cons job rest ih =>
    intro r e he
    unfold releaseHeld at he
    split at he
    · exact he
    · obtain ⟨-, hbegin⟩ := begin_epochs ctx job { r with held := rest }
      generalize { r with held := rest }.begin ctx job = b at he hbegin
      have hactive := advanceFrom_epochs ctx (b.active.drop r.active.length)
        (b.active.take r.active.length) b
      rw [List.take_append_drop] at hactive
      rw [List.map_cons]
      rcases List.mem_append.mp (ih _ e he) with he | he
      · obtain ⟨run, hrun, rfl⟩ := List.mem_map.mp he
        obtain ⟨run', hrun', heq⟩ := hactive run hrun
        rw [heq]
        rcases hbegin run' hrun' with hold | hnew
        · exact List.mem_append_left _ (List.mem_map_of_mem hold)
        · rw [hnew]
          exact List.mem_append_right _ List.mem_cons_self
      · exact List.mem_append_right _ (List.mem_cons_of_mem _ he)

/-- **What a poll that made no call leaves was found live in it**, and since then others
have only acted. -/
theorem poll_found (ctx : Ctx W S A) {r : Runs W S A}
    (hcalls : (r.poll ctx).calls.made = r.calls.made) :
    ∀ e ∈ epochs (r.poll ctx), ∃ w, ctx.live w e = true ∧
      Made ctx w 0 (r.poll ctx).world := by
  obtain ⟨-, hcalls₁, -, hactive⟩ := retainActive_found ctx r.active r
  obtain ⟨hmade₂, hcalls₂, hsame, hheld⟩ := retainHeld_found ctx
    (retainActive ctx r.active r).held (retainActive ctx r.active r)
  have hrest : Made ctx (retainHeld ctx (retainActive ctx r.active r).held
      (retainActive ctx r.active r)).world 0 (r.poll ctx).world := by
    apply tallied_none (poll_rest_tallied ctx r)
    rw [hcalls, hcalls₂, hcalls₁]
  intro e he
  -- No later part of the poll has an epoch that the sweeps did not leave.
  have hswept : e ∈ epochs (retainHeld ctx (retainActive ctx r.active r).held
      (retainActive ctx r.active r)) := by
    unfold poll at he
    dsimp only at he
    rw [sessionCall_epochs] at he
    generalize retainHeld ctx (retainActive ctx r.active r).held
      (retainActive ctx r.active r) = r₂ at he ⊢
    have htick := sessionCall_epochs ctx ctx.session.tick r₂
    generalize r₂.sessionCall ctx ctx.session.tick = r₃ at he htick
    rw [← htick]
    have hheld₄ := advanceFrom_held ctx r₃.active [] r₃
    have hactive₄ := advanceFrom_epochs ctx r₃.active [] r₃
    rcases List.mem_append.mp (releaseHeld_epochs ctx _ _ e he) with he | he
    · obtain ⟨run, hrun, rfl⟩ := List.mem_map.mp he
      obtain ⟨run', hrun', heq⟩ := hactive₄ run hrun
      rw [heq]
      exact List.mem_append_left _ (List.mem_map_of_mem hrun')
    · rw [hheld₄] at he
      exact List.mem_append_right _ he
  rcases List.mem_append.mp hswept with he | he
  · obtain ⟨run, hrun, rfl⟩ := List.mem_map.mp he
    rw [hsame] at hrun
    obtain ⟨w, hlive, hmade⟩ := hactive run hrun
    exact ⟨w, hlive, (hmade.trans hmade₂).trans hrest⟩
  · obtain ⟨job, hjob, rfl⟩ := List.mem_map.mp he
    obtain ⟨w, hlive, -, hmade⟩ := hheld job hjob
    exact ⟨w, hlive, hmade.trans hrest⟩

end Runs
end KeySwitch.Executor
