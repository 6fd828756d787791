import KeySwitch.Engine.Provenance
import KeySwitch.Hook.Daemon

/-!
# Only the live list acts

A reload and a switch reset the engine in the step that makes them, and a reset leaves
nothing pending. So whatever the engine holds, and whatever a decision has fired and the
main thread has not carried out yet, is of the live list, and nothing is while remapping is
off (`Current`). Each action is carried out as one of the list that is live then
(`OnlyLive`); and since both changes move the executor's epoch on, a job of the current epoch
is of the live list too (`JobsLive`).
-/

namespace KeySwitch.Engine

open Data

variable {α : Type} {P : α → Prop}

/-! ## The calls of the main thread -/

/-- An engine with nothing pending holds no action. -/
theorem within_empty {e : Engine α} (hg : e.gestures = .new) (hc : e.chords = .new)
    (hs : e.sequences = .new) : e.Within P := by
  refine ⟨⟨e.keys, .new, .new, .new, e.maskOwed, e.ids, e.resync⟩, ?_⟩
  obtain ⟨keys, gestures, chords, sequences, maskOwed, ids, resync⟩ := e
  dsimp only at hg hc hs
  subst hg hc hs
  rfl

theorem within_new : (new : Engine α).Within P := within_empty rfl rfl rfl

theorem within_reset (e : Engine α) (env : Env) (reason : ResetReason) :
    (e.reset env reason).Within P := by
  cases reason <;> exact within_empty rfl rfl rfl

theorem within_step {e : Engine α} (op : Op α) (h : e.Within P) (hop : op.Within P) :
    (e.step op).1.Within P := (step_within h hop).1

theorem within_startTimers {σ : Type} (scheduler : Scheduler σ) {e : Engine α}
    (h : e.Within P) (timers : List TimerRequest) (s : σ) :
    (startTimers scheduler e timers s).1.Within P := by
  have hfold : ∀ (timers : List TimerRequest) (acc : Engine α × σ × Nat), acc.1.Within P →
      (timers.foldl (startOne scheduler) acc).1.Within P := by
    intro timers
    induction timers with
    | nil => exact fun _ h => h
    | cons request timers ih =>
      intro acc hacc
      refine ih _ ?_
      unfold startOne
      dsimp only
      split
      · exact hacc
      · exact within_step (.forget request.token) hacc trivial
  unfold startTimers
  split
  · exact h
  · exact hfold timers _ h

end KeySwitch.Engine

namespace KeySwitch.Hook.MainThread

open Data Lib Engine

variable {α : Type} {P : α → Prop} {m : MainState α}

theorem within_forgetAll {e : Engine α} (h : e.Within P) (tokens : List TimerToken) :
    (GestureTimers.forgetAll e tokens).1.Within P := by
  have hfold : ∀ (tokens : List TimerToken) (acc : Engine α × Nat), acc.1.Within P →
      (tokens.foldl GestureTimers.forgetOne acc).1.Within P := by
    intro tokens
    induction tokens with
    | nil => exact fun _ h => h
    | cons token tokens ih =>
      exact fun acc hacc => ih _ (within_step (.forget token) hacc trivial)
  exact hfold tokens _ h

theorem within_planWake {e : Engine α} (h : e.Within P) (g : GestureTimers) (now : Instant)
    (answer : SetAnswer) (cancelled : Bool) :
    (g.planWake e now answer cancelled).1.2.Within P := by
  unfold GestureTimers.planWake
  dsimp only
  split
  · exact h
  · exact h
  · exact h
  · split
    · exact h
    · exact within_forgetAll h _

theorem within_decideEvent (h : m.engine.Within P) (event : KeyEvent)
    {bindings : List (Binding α)} (hlist : ∀ b ∈ bindings, P b.action) (env : Env)
    (answer : TimerRequest → SetAnswer) :
    (m.decideEvent event bindings env answer).1.engine.Within P ∧
      ∀ action ∈ (m.engine.onKey event bindings env).2.fire, P action := by
  have hop : (Op.key event bindings env).Within P := hlist
  have hdecided := step_within h hop
  exact ⟨within_startTimers _ hdecided.1 _ _, hdecided.2⟩

theorem within_takeDueTimer (h : m.engine.Within P) (now : Instant) :
    (m.takeDueTimer now).engine.Within P := by
  unfold MainState.takeDueTimer
  split
  · exact h
  · next request _ => exact within_step (.timer request.token) h trivial

theorem fires_onTimer (h : m.engine.Within P) (token : TimerToken) :
    ∀ action ∈ (m.engine.onTimer token).2, P action :=
  have hop : (Op.timer token : Op α).Within P := trivial
  (step_within h hop).2

theorem within_call (op : Op α) (h : m.engine.Within P) (hop : op.Within P) :
    (m.call op).engine.Within P := within_step op h hop

theorem within_answerInputSignals (h : m.engine.Within P) (env : Env) (enabled : Bool)
    (signals : List InputSignal) :
    (m.answerInputSignals env enabled signals).engine.Within P := by
  unfold MainState.answerInputSignals
  split
  · exact h
  · cases signals.findSome? InputSignal.reset with
    | none =>
      dsimp only
      split
      · exact within_call .inputReturned h trivial
      · exact h
    | some reason =>
      have hreset : (m.resetEngine env reason).engine.Within P := within_reset _ _ _
      dsimp only
      split
      · exact within_call .inputReturned hreset trivial
      · exact hreset

theorem within_resyncIfDue (h : m.engine.Within P) (env : Env) (enabled : Bool) (notes : Nat) :
    (m.resyncIfDue env enabled notes).1.engine.Within P := by
  unfold MainState.resyncIfDue
  split
  · exact h
  · exact within_step (.resyncIfDue env notes) h trivial

end KeySwitch.Hook.MainThread

namespace KeySwitch.Hook

open Data Lib Engine MainThread

namespace Daemon

variable {d : Daemon}

/-! ## What is pending is of the live list -/

/-- An action that may run now: of the live list, while remapping is on. -/
def Live (d : Daemon) (action : BindAction) : Prop :=
  d.enabled = true ∧ ∃ b ∈ d.bindings, b.action = action

structure Current (d : Daemon) : Prop where
  engine : d.main.engine.Within d.Live
  todo : ∀ action ∈ d.todo, d.Live action
  /-- No job is of an epoch to come, and those of the current one may run. -/
  jobs : ∀ job ∈ d.jobs, job.epoch ≤ d.cancels ∧ (job.epoch = d.cancels → d.Live job.action)

/-- What `Current` reads of the state, apart from the engine. -/
structure SameList (d d' : Daemon) : Prop where
  bindings : d'.bindings = d.bindings
  enabled : d'.enabled = d.enabled
  todo : d'.todo = d.todo
  jobs : d'.jobs = d.jobs
  cancels : d.cancels ≤ d'.cancels

theorem SameList.live {d' : Daemon} (h : SameList d d') : d'.Live = d.Live := by
  unfold Live
  rw [h.bindings, h.enabled]

theorem current_of_same {d' : Daemon} (hd : Current d) (h : SameList d d')
    (hengine : d'.main.engine.Within d.Live) : Current d' := by
  refine ⟨h.live ▸ hengine, ?_, ?_⟩
  · rw [h.live, h.todo]
    exact hd.todo
  · rw [h.live, h.jobs]
    intro job hjob
    obtain ⟨hle, hlive⟩ := hd.jobs job hjob
    have hcancels := h.cancels
    refine ⟨Nat.le_trans hle hcancels, fun hepoch => hlive ?_⟩
    omega

/-- The engine and what `Current` reads stay as they are. -/
theorem current_congr {d' : Daemon} (hd : Current d) (hmain : d'.main.engine = d.main.engine)
    (hbindings : d'.bindings = d.bindings) (henabled : d'.enabled = d.enabled)
    (htodo : d'.todo = d.todo) (hjobs : d'.jobs = d.jobs) (hcancels : d'.cancels = d.cancels) :
    Current d' :=
  current_of_same hd ⟨hbindings, henabled, htodo, hjobs, hcancels.ge⟩ (hmain ▸ hd.engine)

/-- Only the engine changes. -/
theorem current_main (hd : Current d) {main : MainState BindAction}
    (h : main.engine.Within d.Live) : Current { d with main := main } :=
  current_of_same hd ⟨rfl, rfl, rfl, rfl, Nat.le_refl _⟩ h

theorem noteHiddenInput_current (hd : Current d) : Current d.noteHiddenInput :=
  current_congr hd rfl rfl rfl rfl rfl rfl

theorem wakeThisThread_current (hd : Current d) (posted : Bool) :
    Current (d.wakeThisThread posted) := current_congr hd rfl rfl rfl rfl rfl rfl

theorem cancelActions_current (hd : Current d) : Current d.cancelActions :=
  current_of_same hd ⟨rfl, rfl, rfl, rfl, Nat.le_succ _⟩ hd.engine

theorem resetEngine_current (hd : Current d) (env : Env) (reason : ResetReason) :
    Current (d.resetEngine env reason) := current_main hd (within_reset _ _ _)

/-- A change of the list or of the switch, with the reset and the new epoch that go with
it, while nothing is being carried out. -/
theorem changed_current {d' : Daemon} (hd : Current d) (htodo : d'.todo = [])
    (hjobs : d'.jobs = d.jobs) (hcancels : d'.cancels = d.cancels + 1)
    (hengine : d'.main.engine.Within d'.Live) : Current d' := by
  refine ⟨hengine, ?_, ?_⟩
  · rw [htodo]
    exact fun action h => absurd h List.not_mem_nil
  · rw [hjobs, hcancels]
    intro job hjob
    have hle := (hd.jobs job hjob).1
    exact ⟨Nat.le_succ_of_le hle, fun hepoch => by omega⟩

/-! ## The callbacks -/

theorem carryOut_current (hd : Current d) {decision : Decision BindAction}
    (hfire : ∀ action ∈ decision.fire, d.Live action) : Current (d.carryOut decision).1 := by
  refine ⟨hd.engine, fun action haction => ?_, hd.jobs⟩
  rcases List.mem_append.mp haction with h | h
  · exact hfire action h
  · exact hd.todo action h

theorem trackInjected_current (hd : Current d) (refused : Bool) (call : KeyboardCall) :
    Current (d.trackInjected refused call) := by
  unfold trackInjected
  split
  · exact hd
  · next event _ =>
    split
    · exact hd
    · split
      · exact noteHiddenInput_current hd
      · exact current_main hd (within_call (.trackInjected event) hd.engine trivial)

/-- A decision leaves the list and the switch, and fires what is live. -/
theorem decideEvent_current (hd : Current d) (refused : Bool) (call : KeyboardCall) :
    Current (d.decideEvent refused call).1 ∧
      ∀ decision ∈ (d.decideEvent refused call).2,
        ∀ action ∈ decision.fire, (d.decideEvent refused call).1.Live action := by
  unfold decideEvent
  split
  · exact ⟨trackInjected_current hd refused call, fun _ h => absurd h (by simp)⟩
  · split
    · exact ⟨hd, fun _ h => absurd h (by simp)⟩
    · next event _ =>
      split
      · exact ⟨hd, fun _ h => absurd h (by simp)⟩
      · next henabled =>
        split
        · exact ⟨noteHiddenInput_current hd, fun _ h => absurd h (by simp)⟩
        · have hon : d.enabled = true := by simpa using henabled
          have hlist : ∀ b ∈ d.bindings, d.Live b.action := fun b hb => ⟨hon, b, hb, rfl⟩
          have hdecided := within_decideEvent hd.engine event hlist call.env call.set
          refine ⟨current_main hd hdecided.1, fun decision hdecision => ?_⟩
          obtain rfl := Option.some.inj (Option.mem_def.mp hdecision)
          exact hdecided.2

theorem keyboardCallback_current (hd : Current d) (refused : Bool) (call : KeyboardCall) :
    Current (d.keyboardCallback refused call).1 := by
  have hcounted : Current { d with callbacks := d.callbacks + 1 } :=
    current_congr hd rfl rfl rfl rfl rfl rfl
  unfold keyboardCallback
  split
  · exact hd
  · dsimp only
    split
    · exact hcounted
    · obtain ⟨hdecided, hfire⟩ := decideEvent_current hcounted refused call
      generalize ({ d with callbacks := d.callbacks + 1 } : Daemon).decideEvent refused call =
        decided at hdecided hfire ⊢
      generalize hlate : lateCallback (if call.injected then 0 else eventAgeMs call.tick call.stamp)
        call.ran = late
      have hnoted : Current (if late then decided.1.noteHiddenInput else decided.1) := by
        split
        · exact noteHiddenInput_current hdecided
        · exact hdecided
      split
      · exact hnoted
      · next decision hdecision =>
        refine carryOut_current hnoted ?_
        have hlive := hfire decision hdecision
        cases late with
        | true => exact hlive
        | false => exact hlive

theorem noteInputSignal_current (hd : Current d) (signal : InputSignal) (posted : Bool) :
    Current (d.noteInputSignal signal posted) := current_congr hd rfl rfl rfl rfl rfl rfl

theorem callback_current (hd : Current d) (refused : Bool) (call : Callback) :
    Current (d.callback refused call).1 := by
  cases call with
  | keyboard call => exact keyboardCallback_current hd refused call
  | foregroundChanged posted =>
    unfold callback
    dsimp only
    split
    · exact hd
    · refine wakeThisThread_current ?_ posted
      split
      · exact noteHiddenInput_current hd
      · exact current_main hd (within_call .foregroundChanged hd.engine trivial)
  | desktopSwitched inputHere posted =>
    unfold callback
    dsimp only
    split
    · exact hd
    · split
      · exact noteInputSignal_current hd _ posted
      · exact noteInputSignal_current hd _ posted
      · exact current_congr hd rfl rfl rfl rfl rfl rfl
  | sessionChanged signal posted =>
    unfold callback
    dsimp only
    split
    · exact hd
    · exact noteInputSignal_current hd _ posted

/-! ## The loop -/

/-- What is carried out next is of the live list, and so is the rest. -/
theorem dispatch_current (hd : Current d) (foreground : Executor.TargetWindow) :
    Current (d.dispatch foreground).1 := by
  unfold dispatch
  split
  · exact hd
  · next action todo htodo =>
    have hrest : ∀ a ∈ todo, d.Live a := fun a ha =>
      hd.todo a (htodo ▸ List.mem_cons_of_mem _ ha)
    have haction : d.Live action := hd.todo action (htodo ▸ List.mem_cons_self)
    split
    · exact ⟨hd.engine, hrest, hd.jobs⟩
    · refine ⟨hd.engine, hrest, fun job hjob => ?_⟩
      rcases List.mem_append.mp hjob with h | h
      · exact hd.jobs job h
      · rw [List.mem_singleton.mp h]
        exact ⟨Nat.le_refl _, fun _ => haction⟩

theorem reply_current (hd : Current d) (reply : Reply) : Current (d.reply reply) :=
  current_congr hd rfl rfl rfl rfl rfl rfl

theorem setEnabled_current (hd : Current d) (htodo : d.todo = []) (env : Env) (enabled : Bool) :
    Current (d.setEnabled env enabled).1 := by
  unfold setEnabled
  split
  · exact hd
  · exact changed_current hd htodo rfl rfl (within_reset d.main.engine env .remappingSwitched)

theorem reload_current (hd : Current d) (htodo : d.todo = []) (env : Env)
    (bindings : List (Binding BindAction)) : Current (d.reload env bindings) :=
  changed_current hd htodo rfl rfl (within_reset d.main.engine env .reloaded)

theorem serve_current (hd : Current d) (htodo : d.todo = []) (env : Env) (request : Request) :
    Current (d.serve env request) := by
  cases request with
  | setEnabled enabled => exact reply_current (setEnabled_current hd htodo env enabled) _
  | reload bindings => exact reply_current (reload_current hd htodo env bindings) _
  | reinstallHook request => exact current_congr hd rfl rfl rfl rfl rfl rfl

theorem takeRequest_current (hd : Current d) (htodo : d.todo = []) (env : Env) (busy : Bool) :
    Current (d.takeRequest env busy) := by
  unfold takeRequest
  split
  · exact current_congr hd rfl rfl rfl rfl rfl rfl
  · next request mail _ =>
    have hmail : Current { d with mail := mail } := current_congr hd rfl rfl rfl rfl rfl rfl
    exact serve_current hmail htodo env request

theorem reinstallIfSilent_current (hd : Current d) (env : Env) (made : Replaced)
    (request : ReinstallRequest) : Current (d.reinstallIfSilent env made request) := by
  unfold reinstallIfSilent
  split
  · exact reply_current hd _
  · split
    · exact reply_current hd _
    · exact reply_current (resetEngine_current hd env _) _
    · exact reply_current hd _

theorem answerSignals_current (hd : Current d) (env : Env) (busy : Bool) :
    Current (d.answerSignals env busy) := by
  unfold answerSignals
  dsimp only
  split
  · exact current_congr hd rfl rfl rfl rfl rfl rfl
  · have hanswered : Current { d with
        main := d.main.answerInputSignals env d.enabled d.pending.signals
        pending := .NONE
        unknown := false
        stage := .timers true } :=
      current_of_same hd ⟨rfl, rfl, rfl, rfl, Nat.le_refl _⟩
        (within_answerInputSignals hd.engine _ _ _)
    split
    · exact cancelActions_current hanswered
    · exact hanswered

theorem takeTimer_current (hd : Current d) (now : Instant) (busy : Bool) :
    Current (d.takeTimer now busy) := by
  unfold takeTimer
  split
  · exact current_congr hd rfl rfl rfl rfl rfl rfl
  · next request _ =>
    exact ⟨within_takeDueTimer hd.engine now, fires_onTimer hd.engine request.token, hd.jobs⟩

theorem resyncModifiers_current (hd : Current d) (env : Env) (unseen : Nat) :
    Current (d.resyncModifiers env unseen) :=
  current_of_same hd ⟨rfl, rfl, rfl, rfl, Nat.le_refl _⟩ (within_resyncIfDue hd.engine _ _ _)

theorem planWait_current (hd : Current d) (answer : Answer) : Current (d.planWait answer) := by
  have hplanned := within_planWake hd.engine d.main.timers answer.now answer.set answer.cancelled
  unfold planWait
  dsimp only
  split
  · exact current_of_same hd ⟨rfl, rfl, rfl, rfl, Nat.le_refl _⟩ hplanned
  all_goals
    split
    · exact current_of_same hd ⟨rfl, rfl, rfl, rfl, Nat.le_refl _⟩ hplanned
    · exact current_of_same hd ⟨rfl, rfl, rfl, rfl, Nat.le_refl _⟩ hplanned

theorem wake_current (hd : Current d) (woke : Woke) (tick : UInt32) :
    Current (d.wake woke tick) := by
  cases woke <;> exact current_congr hd rfl rfl rfl rfl rfl rfl

theorem pump_current (hd : Current d) (pumped : Pumped) : Current (d.pump pumped) := by
  cases pumped with
  | wake => exact current_congr hd rfl rfl rfl rfl rfl rfl
  | quit => exact current_congr hd rfl rfl rfl rfl rfl rfl
  | other => exact hd

theorem go_current (hd : Current d) (answer : Answer) : Current (d.go answer).1 := by
  unfold go
  split
  · exact dispatch_current hd _
  · next htodo =>
    have htodo : d.todo = [] := by simpa using htodo
    split
    · exact takeRequest_current hd htodo _ _
    · exact reinstallIfSilent_current hd _ _ _
    · exact answerSignals_current hd _ _
    · exact takeTimer_current hd _ _
    · exact resyncModifiers_current hd _ _
    · exact planWait_current hd _
    · exact wake_current hd _ _
    · exact pump_current hd _
    · exact current_congr hd rfl rfl rfl rfl rfl rfl
    · exact hd

theorem act_current (hd : Current d) (act : Act) : Current (d.act act).1 := by
  cases act with
  | send request =>
    show Current (d.send request).1
    unfold send
    split
    · exact hd
    · split
      · exact current_congr hd rfl rfl rfl rfl rfl rfl
      · exact hd
  | wake accepted => exact current_congr hd rfl rfl rfl rfl rfl rfl
  | wakeForHiddenInput => exact current_congr hd rfl rfl rfl rfl rfl rfl
  | hear i =>
    unfold Daemon.act
    dsimp only
    split <;> exact hd

theorem step_current (hd : Current d) (motion : Motion) : Current (d.step motion).1 := by
  cases motion with
  | other act => exact act_current hd act
  | callback refused call =>
    unfold Daemon.step
    dsimp only
    split
    · exact callback_current hd refused call
    · exact hd
  | go answer => exact go_current hd answer

theorem current_new (pid : UInt32) (bindings : List (Binding BindAction)) (tick : UInt32) :
    Current (.new pid bindings tick) :=
  ⟨within_new, fun _ h => absurd h List.not_mem_nil, fun _ h => absurd h List.not_mem_nil⟩

/-! ## What is carried out -/

theorem dispatch_effects (d : Daemon) (foreground : Executor.TargetWindow) :
    ∀ effect ∈ (d.dispatch foreground).2, ∃ action todo, d.todo = action :: todo ∧
      (∀ fast, effect = .fast fast → action.asFast = some fast) ∧
      (∀ job, effect = .submitted job → job.action = action ∧ job.epoch = d.cancels ∧
        job ∈ (d.dispatch foreground).1.jobs) := by
  intro effect heffect
  unfold dispatch at heffect ⊢
  split at heffect
  · exact absurd heffect List.not_mem_nil
  · next action todo htodo =>
    refine ⟨action, todo, htodo, ?_⟩
    split at heffect
    · next fast hfast =>
      obtain rfl := List.mem_singleton.mp heffect
      refine ⟨fun other h => ?_, fun job h => absurd h (by simp)⟩
      obtain rfl := SideEffect.fast.inj h
      exact hfast
    · obtain rfl := List.mem_singleton.mp heffect
      refine ⟨fun other h => absurd h (by simp), fun job h => ?_⟩
      obtain rfl := SideEffect.submitted.inj h
      exact ⟨rfl, rfl, List.mem_append_right _ (List.mem_singleton.mpr rfl)⟩

/-- A callback carries out no action itself. -/
theorem callback_effects (d : Daemon) (refused : Bool) (call : Callback) :
    ∀ effect ∈ (d.callback refused call).2,
      effect = .passed ∨ d.enabled = true ∧ (effect = .mask ∨ effect = .suppressed) := by
  cases call with
  | keyboard call =>
    intro effect heffect
    replace heffect : effect ∈ (d.keyboardCallback refused call).2 := heffect
    unfold keyboardCallback at heffect
    split at heffect
    · exact .inl (List.mem_singleton.mp heffect)
    · dsimp only at heffect
      split at heffect
      · exact .inl (List.mem_singleton.mp heffect)
      · next henabled =>
        have hon : d.enabled = true := by simpa using henabled
        split at heffect
        · exact .inl (List.mem_singleton.mp heffect)
        · next decision _ =>
          rcases List.mem_append.mp heffect with h | h
          · unfold carryOut at h
            dsimp only at h
            split at h
            · exact .inr ⟨hon, .inl (List.mem_singleton.mp h)⟩
            · exact absurd h List.not_mem_nil
          · split at h
            · exact .inr ⟨hon, .inr (List.mem_singleton.mp h)⟩
            · exact .inl (List.mem_singleton.mp h)
  | foregroundChanged posted =>
    unfold callback
    dsimp only
    split <;> exact fun _ h => absurd h List.not_mem_nil
  | desktopSwitched inputHere posted =>
    unfold callback
    dsimp only
    split
    · exact fun _ h => absurd h List.not_mem_nil
    · split <;> exact fun _ h => absurd h List.not_mem_nil
  | sessionChanged signal posted =>
    unfold callback
    dsimp only
    split <;> exact fun _ h => absurd h List.not_mem_nil

theorem go_effects (d : Daemon) (answer : Answer) :
    ∀ effect ∈ (d.go answer).2, effect ∈ (d.dispatch answer.target).2 ∧
      (d.go answer).1 = (d.dispatch answer.target).1 := by
  intro effect heffect
  unfold go at heffect ⊢
  split at heffect
  · next htodo =>
    rw [if_pos htodo]
    exact ⟨heffect, rfl⟩
  · split at heffect <;> exact absurd heffect List.not_mem_nil

end Daemon

open Daemon

/-- What a step carries out is of the list that is live, while remapping is on. -/
structure OnlyLive (x : Moment Daemon Motion Shown) : Prop where
  fast : ∀ effects action, x.output = .effects effects → .fast action ∈ effects →
    x.before.enabled = true ∧ ∃ b ∈ x.before.bindings, b.action.asFast = some action
  submitted : ∀ effects job, x.output = .effects effects → .submitted job ∈ effects →
    x.before.Live job.action ∧ job.epoch = x.before.cancels ∧ job ∈ x.after.jobs
  /-- While remapping is off every key event reaches Windows, and nothing else is done. -/
  off : x.before.enabled = false → ∀ effects, x.output = .effects effects →
    ∀ effect ∈ effects, effect = .passed

theorem onlyLive_of_effects {d : Daemon} {motion : Motion}
    (hgone : ∀ effects, (d.step motion).2 = .effects effects → ∀ effect ∈ effects,
      (effect = .passed ∨ d.enabled = true ∧ (effect = .mask ∨ effect = .suppressed)) ∨
      ∃ action, d.Live action ∧ (∀ fast, effect = .fast fast → action.asFast = some fast) ∧
        ∀ job, effect = .submitted job → job.action = action ∧ job.epoch = d.cancels ∧
          job ∈ (d.step motion).1.jobs) :
    OnlyLive (daemon.moment d motion) := by
  refine ⟨fun effects action hout haction => ?_, fun effects job hout hjob => ?_,
    fun hoff effects hout effect heffect => ?_⟩
  · rcases hgone effects hout _ haction with (h | ⟨-, h | h⟩) | ⟨fired, hlive, hfast, -⟩
    · exact absurd h (by simp)
    · exact absurd h (by simp)
    · exact absurd h (by simp)
    · obtain ⟨hon, b, hb, rfl⟩ := hlive
      exact ⟨hon, b, hb, hfast action rfl⟩
  · rcases hgone effects hout _ hjob with (h | ⟨-, h | h⟩) | ⟨fired, hlive, -, hsubmitted⟩
    · exact absurd h (by simp)
    · exact absurd h (by simp)
    · exact absurd h (by simp)
    · obtain ⟨haction, hepoch, hmem⟩ := hsubmitted job rfl
      exact ⟨haction ▸ hlive, hepoch, hmem⟩
  · replace hoff : d.enabled = false := hoff
    rcases hgone effects hout _ heffect with (h | ⟨hon, -⟩) | ⟨fired, ⟨hon, -⟩, -, -⟩
    · exact h
    · exact absurd (hoff.symm.trans hon) Bool.false_ne_true
    · exact absurd (hoff.symm.trans hon) Bool.false_ne_true

theorem moment_onlyLive {d : Daemon} (hd : Current d) (motion : Motion) :
    OnlyLive (daemon.moment d motion) := by
  refine onlyLive_of_effects fun effects hout effect heffect => ?_
  cases motion with
  | other act =>
    exfalso
    cases act with
    | hear i =>
      unfold Daemon.step Daemon.act at hout
      dsimp only at hout
      split at hout <;> exact absurd hout (by simp)
    | _ => exact absurd hout (by simp [Daemon.step, Daemon.act])
  | callback refused call =>
    unfold Daemon.step at hout
    dsimp only at hout
    split at hout
    · obtain rfl := Shown.effects.inj hout
      exact .inl (callback_effects d refused call effect heffect)
    · exact absurd hout (by simp)
  | go answer =>
    obtain rfl := Shown.effects.inj hout
    obtain ⟨hdispatched, hafter⟩ := go_effects d answer effect heffect
    obtain ⟨action, todo, htodo, hfast, hjob⟩ := dispatch_effects d answer.target effect hdispatched
    refine .inr ⟨action, hd.todo action (htodo ▸ List.mem_cons_self), hfast, fun job h => ?_⟩
    obtain ⟨haction, hepoch, hmem⟩ := hjob job h
    exact ⟨haction, hepoch, hafter ▸ hmem⟩

/-- Along a run, the live list alone acts. -/
structure ListRules (start : Daemon) (motions : List Motion) : Prop where
  carried : ∀ x ∈ daemon.trace start motions, OnlyLive x
  pending : (daemon.run start motions).main.engine.Within (daemon.run start motions).Live
  jobs : ∀ job ∈ (daemon.run start motions).jobs,
    job.epoch = (daemon.run start motions).cancels → (daemon.run start motions).Live job.action

/-- **In any interleaving, only the live list acts.** Each action that the main thread
carries out is of a binding of the list that is live then, remapping being on; so is each job
that the executor may still start, and all that is pending. While remapping is off nothing
is decided. -/
theorem only_the_live_list_acts (pid : UInt32) (bindings : List (Binding BindAction))
    (tick : UInt32) (motions : List Motion) : ListRules (.new pid bindings tick) motions := by
  have hinv : daemon.Invariant Current := fun d motion hd _ => step_current hd motion
  have hlegal := Machine.legal_of_enabled daemon (fun _ _ => trivial)
    (.new pid bindings tick) motions
  have hnew := current_new pid bindings tick
  have hend := hinv.run hnew hlegal
  refine ⟨fun x hx => ?_, hend.engine, fun job hjob => (hend.jobs job hjob).2⟩
  obtain ⟨hbefore, -, hmoment⟩ := hinv.trace hnew hlegal x hx
  rw [hmoment]
  exact moment_onlyLive hbefore x.input

end KeySwitch.Hook
