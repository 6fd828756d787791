import KeySwitch.Hook.Daemon

/-!
# Requests are served one after the other

Whatever the other threads do meanwhile, the requests take effect as if the main thread
served them alone, in the order in which its queue accepted them: `Settings` is what they
change, and `Orderly` says how far the main thread has come. What a sender hears says what
became of its request, for good (`Stands`).

The thread never waits past a request: a sender posts a wake after its request, and the
thread waits only if it found the queue empty and has taken no wake since (`Heedful`). It
never waits past an input signal either, for the callbacks that note one run where a drain
follows.
-/

namespace KeySwitch.Hook

open Data Lib Engine MainThread

/-! ## Requests served alone -/

/-- What requests change: the switch and the live list. -/
structure Settings where
  enabled : Bool
  bindings : List (Binding BindAction)

namespace Settings

def after (s : Settings) : Request → Settings
  | .setEnabled enabled => { s with enabled := enabled }
  | .reload bindings => { s with bindings := sortBySpecificity bindings }
  | .reinstallHook _ => s

/-- Whether `reply` answers a request that finds these settings. What a reinstall does is
up to Windows. -/
def Answers (s : Settings) : Request → Reply → Prop
  | .setEnabled enabled, .switched changed => changed = (s.enabled != enabled)
  | .reload _, .reloaded => True
  | .reinstallHook _, .reinstalled _ => True
  | _, _ => False

/-- After the requests, the first one first. -/
def afterAll (s : Settings) (requests : List Request) : Settings := requests.foldl after s

theorem afterAll_snoc (s : Settings) (requests : List Request) (request : Request) :
    s.afterAll (requests ++ [request]) = (s.afterAll requests).after request := by
  unfold afterAll
  rw [List.foldl_append]
  rfl

end Settings

namespace Daemon

variable {d d' : Daemon} {first : Settings}

def settings (d : Daemon) : Settings := ⟨d.enabled, d.bindings⟩

/-- The request that was taken and not answered yet. -/
def inHand (d : Daemon) : List Request :=
  match d.stage with
  | .reinstalling request => [.reinstallHook request]
  | _ => []

/-- At every stage but one no request is in hand. -/
theorem inHand_of_stage {stage : Stage} (hstage : d.stage = stage)
    (hother : ∀ request, stage ≠ .reinstalling request) : d.inHand = [] := by
  unfold inHand
  split
  · next request h => exact absurd (hstage.symm.trans h) (hother request)
  · rfl

/-- How far the main thread has come with the requests. -/
structure Orderly (first : Settings) (d : Daemon) : Prop where
  bounded : d.mail.items.length ≤ d.mail.capacity
  capacity : d.mail.capacity = REQUEST_CAPACITY
  /-- The requests accepted: those answered, one that may be in hand, those that wait. -/
  queue : d.replies.length ≤ d.sent.length ∧
    d.sent.drop d.replies.length = d.inHand ++ d.mail.items
  /-- The settings are those after the requests answered. -/
  settings : d.settings = first.afterAll (d.sent.take d.replies.length)
  /-- Each of them got the answer that it gets served alone, after those before it. -/
  replies : ∀ (i : Nat) (reply : Reply), d.replies[i]? = some reply →
    ∃ request, d.sent[i]? = some request ∧ (first.afterAll (d.sent.take i)).Answers request reply

/-- What `Orderly` reads of the state. -/
structure SameRequests (d d' : Daemon) : Prop where
  items : d'.mail.items = d.mail.items
  capacity : d'.mail.capacity = d.mail.capacity
  sent : d'.sent = d.sent
  replies : d'.replies = d.replies
  settings : d'.settings = d.settings
  inHand : d'.inHand = d.inHand

namespace SameRequests

theorem refl (d : Daemon) : SameRequests d d := ⟨rfl, rfl, rfl, rfl, rfl, rfl⟩

theorem trans {d'' : Daemon} (h : SameRequests d d') (h' : SameRequests d' d'') :
    SameRequests d d'' :=
  ⟨h'.items.trans h.items, h'.capacity.trans h.capacity, h'.sent.trans h.sent,
    h'.replies.trans h.replies, h'.settings.trans h.settings, h'.inHand.trans h.inHand⟩

theorem of_stage (hitems : d'.mail.items = d.mail.items)
    (hcapacity : d'.mail.capacity = d.mail.capacity) (hsent : d'.sent = d.sent)
    (hreplies : d'.replies = d.replies) (henabled : d'.enabled = d.enabled)
    (hbindings : d'.bindings = d.bindings) (hhand : d'.inHand = d.inHand) :
    SameRequests d d' := by
  refine ⟨hitems, hcapacity, hsent, hreplies, ?_, hhand⟩
  unfold Daemon.settings
  rw [henabled, hbindings]

end SameRequests

theorem orderly_of_same (hd : Orderly first d) (h : SameRequests d d') : Orderly first d' := by
  refine ⟨?_, ?_, ?_, ?_, ?_⟩
  · rw [h.items, h.capacity]
    exact hd.bounded
  · rw [h.capacity]
    exact hd.capacity
  · rw [h.items, h.sent, h.replies, h.inHand]
    exact hd.queue
  · rw [h.settings, h.sent, h.replies]
    exact hd.settings
  · rw [h.sent, h.replies]
    exact hd.replies

/-! ## A request is answered -/

theorem take_succ_of_drop {α : Type} {l rest : List α} {a : α} {n : Nat}
    (h : l.drop n = a :: rest) : l[n]? = some a ∧ l.take (n + 1) = l.take n ++ [a] ∧
      l.drop (n + 1) = rest := by
  have hget : l[n]? = some a := by
    rw [← List.head?_drop, h]
    rfl
  refine ⟨hget, ?_, ?_⟩
  · rw [List.take_add_one, hget]
    rfl
  · rw [← List.tail_drop, h]
    rfl

/-- The first request not answered is answered as it is alone, and takes effect. -/
theorem orderly_reply (reply : Reply) {request : Request} {items : List Request}
    (hd : Orderly first d) (hdrop : d.sent.drop d.replies.length = request :: items)
    (hitems : d'.mail.items = items) (hcapacity : d'.mail.capacity = d.mail.capacity)
    (hsent : d'.sent = d.sent) (hreplies : d'.replies = d.replies ++ [reply])
    (hanswers : d.settings.Answers request reply)
    (hsettings : d'.settings = d.settings.after request) (hhand : d'.inHand = [])
    (hshorter : items.length ≤ d.mail.items.length) : Orderly first d' := by
  obtain ⟨hget, htake, hrest⟩ := take_succ_of_drop hdrop
  have hlength : d'.replies.length = d.replies.length + 1 := by
    rw [hreplies, List.length_append, List.length_singleton]
  have hlt : d.replies.length < d.sent.length := by
    obtain ⟨h, -⟩ := List.getElem?_eq_some_iff.mp hget
    exact h
  refine ⟨?_, ?_, ⟨?_, ?_⟩, ?_, ?_⟩
  · rw [hitems, hcapacity]
    exact Nat.le_trans hshorter hd.bounded
  · rw [hcapacity]
    exact hd.capacity
  · rw [hlength, hsent]
    exact hlt
  · rw [hlength, hsent, hrest, hhand, hitems]
    rfl
  · rw [hlength, hsent, htake, Settings.afterAll_snoc, ← hd.settings]
    exact hsettings
  · rw [hreplies, hsent]
    intro i answer hanswer
    by_cases hi : i < d.replies.length
    · rw [List.getElem?_append_left hi] at hanswer
      exact hd.replies i answer hanswer
    · rw [List.getElem?_append_right (Nat.le_of_not_lt hi)] at hanswer
      obtain ⟨hzero, hsame⟩ := List.getElem?_eq_some_iff.mp hanswer
      have hi : i = d.replies.length := by
        rw [List.length_singleton] at hzero
        omega
      subst hi
      have hreply : answer = reply := by
        rw [← hsame]
        simp
      subst hreply
      exact ⟨request, hget, hd.settings ▸ hanswers⟩

/-! ## The callbacks change no setting -/

theorem wakeThisThread_same (posted : Bool) : SameRequests d (d.wakeThisThread posted) :=
  .of_stage (by simp [wakeThisThread, Mailbox.publish])
    (by simp [wakeThisThread, Mailbox.publish]) rfl rfl rfl rfl rfl

theorem noteInputSignal_same (signal : InputSignal) (posted : Bool) :
    SameRequests d (d.noteInputSignal signal posted) := by
  have hnoted : SameRequests d { d with pending := d.pending.note signal } :=
    .of_stage rfl rfl rfl rfl rfl rfl rfl
  exact hnoted.trans (wakeThisThread_same posted)

theorem noteHiddenInput_same : SameRequests d d.noteHiddenInput :=
  .of_stage rfl rfl rfl rfl rfl rfl rfl

theorem main_same (main : MainState BindAction) : SameRequests d { d with main := main } :=
  .of_stage rfl rfl rfl rfl rfl rfl rfl

theorem trackInjected_same (refused : Bool) (call : KeyboardCall) :
    SameRequests d (d.trackInjected refused call) := by
  unfold trackInjected
  split
  · exact .refl d
  · split
    · exact .refl d
    · split
      · exact noteHiddenInput_same
      · exact main_same _

theorem decideEvent_same (refused : Bool) (call : KeyboardCall) :
    SameRequests d (d.decideEvent refused call).1 := by
  unfold decideEvent
  split
  · exact trackInjected_same refused call
  · split
    · exact .refl d
    · split
      · exact .refl d
      · split
        · exact noteHiddenInput_same
        · exact main_same _

theorem todo_same {todo : List BindAction} (hhand : Daemon.inHand { d with todo := todo } = d.inHand) :
    SameRequests d { d with todo := todo } := .of_stage rfl rfl rfl rfl rfl rfl hhand

theorem keyboardCallback_same (refused : Bool) (call : KeyboardCall) :
    SameRequests d (d.keyboardCallback refused call).1 := by
  have hcounted : SameRequests d { d with callbacks := d.callbacks + 1 } :=
    .of_stage rfl rfl rfl rfl rfl rfl rfl
  unfold keyboardCallback
  split
  · exact .refl d
  · dsimp only
    split
    · exact hcounted
    · have hdecided := hcounted.trans (decideEvent_same refused call)
      generalize ({ d with callbacks := d.callbacks + 1 } : Daemon).decideEvent refused call =
        decided at hdecided ⊢
      generalize lateCallback (if call.injected then 0 else eventAgeMs call.tick call.stamp)
        call.ran = late
      have hnoted : SameRequests d (if late then decided.1.noteHiddenInput else decided.1) := by
        split
        · exact hdecided.trans noteHiddenInput_same
        · exact hdecided
      split
      · exact hnoted
      · exact hnoted.trans (todo_same rfl)

theorem callback_same (refused : Bool) (call : Callback) :
    SameRequests d (d.callback refused call).1 := by
  cases call with
  | keyboard call => exact keyboardCallback_same refused call
  | foregroundChanged posted =>
    unfold callback
    dsimp only
    split
    · exact .refl d
    · refine SameRequests.trans ?_ (wakeThisThread_same posted)
      split
      · exact noteHiddenInput_same
      · exact main_same _
  | desktopSwitched inputHere posted =>
    unfold callback
    dsimp only
    split
    · exact .refl d
    · split
      · exact noteInputSignal_same _ posted
      · exact noteInputSignal_same _ posted
      · have hnoted : SameRequests d { d with unknown := true } :=
          .of_stage rfl rfl rfl rfl rfl rfl rfl
        exact (hnoted.trans noteHiddenInput_same).trans (wakeThisThread_same posted)
  | sessionChanged signal posted =>
    unfold callback
    dsimp only
    split
    · exact .refl d
    · exact noteInputSignal_same _ posted

/-! ## The loop serves in order -/

theorem dispatch_same (foreground : Executor.TargetWindow) :
    SameRequests d (d.dispatch foreground).1 := by
  unfold dispatch
  split
  · exact .refl d
  · split <;> exact .of_stage rfl rfl rfl rfl rfl rfl rfl

/-- With no request in hand, the requests not answered are those that wait. -/
theorem Orderly.waiting (hd : Orderly first d) (hhand : d.inHand = []) :
    d.sent.drop d.replies.length = d.mail.items := by
  rw [hd.queue.2, hhand]
  rfl

theorem serve_orderly {request : Request} {items : List Request} (hd : Orderly first d)
    (hhand : d.inHand = []) (hitems : d.mail.items = request :: items) (env : Env) :
    Orderly first (serve env { d with mail := { d.mail.look with items := items } } request) := by
  have hdrop := hd.waiting hhand
  rw [hitems] at hdrop
  have hshorter : items.length ≤ d.mail.items.length := by
    rw [hitems]
    exact Nat.le_succ _
  cases request with
  | setEnabled enabled =>
    refine orderly_reply (.switched (d.enabled != enabled)) hd hdrop ?_ ?_ ?_ ?_ rfl
      ?_ rfl hshorter
    all_goals
      unfold serve setEnabled
      dsimp only
    · split <;> rfl
    · split <;> rfl
    · split <;> rfl
    · split
      · next hsame =>
        rw [hsame]
        simp [reply]
      · next hother =>
        have hchanged : (d.enabled != enabled) = true := by simpa using hother
        rw [hchanged]
        rfl
    · split
      · next hsame =>
        show d.settings = { d.settings with enabled := enabled }
        rw [← hsame]
        rfl
      · rfl
  | reload bindings =>
    exact orderly_reply .reloaded hd hdrop rfl rfl rfl rfl trivial rfl rfl hshorter
  | reinstallHook request =>
    refine ⟨?_, hd.capacity, ⟨hd.queue.1, hdrop⟩, hd.settings, hd.replies⟩
    exact Nat.le_trans hshorter hd.bounded

theorem takeRequest_orderly (hd : Orderly first d) (hhand : d.inHand = []) (env : Env)
    (busy : Bool) : Orderly first (d.takeRequest env busy) := by
  unfold takeRequest
  split
  · exact orderly_of_same hd (.of_stage rfl rfl rfl rfl rfl rfl hhand.symm)
  · next request mail hreceive =>
    obtain ⟨items, hitems, rfl⟩ := Mailbox.receive_some hreceive
    exact serve_orderly hd hhand hitems env

theorem reinstallIfSilent_orderly {request : ReinstallRequest} (hd : Orderly first d)
    (hstage : d.stage = .reinstalling request) (env : Env) (made : Replaced) :
    Orderly first (d.reinstallIfSilent env made request) := by
  have hdrop : d.sent.drop d.replies.length = .reinstallHook request :: d.mail.items := by
    rw [hd.queue.2]
    unfold inHand
    rw [hstage]
    rfl
  have hanswered : ∀ (d' : Daemon) (outcome : ReinstallOutcome), d'.mail = d.mail →
      d'.sent = d.sent → d'.replies = d.replies → d'.settings = d.settings →
      Orderly first (d'.reply (.reinstalled outcome)) := by
    intro d' outcome hmail hsent hreplies hsettings
    refine orderly_reply (.reinstalled outcome) hd hdrop ?_ ?_ hsent ?_ trivial
      hsettings rfl (Nat.le_refl _)
    · exact congrArg Mailbox.items hmail
    · exact congrArg Mailbox.capacity hmail
    · exact congrArg (· ++ [_]) hreplies
  unfold reinstallIfSilent
  split
  · exact hanswered d _ rfl rfl rfl rfl
  · split
    · exact hanswered d _ rfl rfl rfl rfl
    · exact hanswered _ _ rfl rfl rfl rfl
    · exact hanswered d _ rfl rfl rfl rfl

theorem answerSignals_same (hhand : d.inHand = []) (env : Env) (busy : Bool) :
    SameRequests d (d.answerSignals env busy) := by
  unfold answerSignals
  dsimp only
  split
  · exact .of_stage rfl rfl rfl rfl rfl rfl hhand.symm
  · split <;> exact .of_stage rfl rfl rfl rfl rfl rfl hhand.symm

theorem takeTimer_same (hhand : d.inHand = []) (now : Instant) (busy : Bool) :
    SameRequests d (d.takeTimer now busy) := by
  unfold takeTimer
  split
  · refine .of_stage rfl rfl rfl rfl rfl rfl ?_
    rw [hhand]
    cases busy <;> rfl
  · exact .of_stage rfl rfl rfl rfl rfl rfl hhand.symm

theorem planWait_same (hhand : d.inHand = []) (answer : Answer) :
    SameRequests d (d.planWait answer) := by
  unfold planWait
  dsimp only
  split
  · exact .of_stage rfl rfl rfl rfl rfl rfl hhand.symm
  all_goals split <;> exact .of_stage rfl rfl rfl rfl rfl rfl hhand.symm

theorem wake_same (hhand : d.inHand = []) (woke : Woke) (tick : UInt32) :
    SameRequests d (d.wake woke tick) := by
  cases woke <;> exact .of_stage rfl rfl rfl rfl rfl rfl hhand.symm

theorem pump_same (hhand : d.inHand = []) (pumped : Pumped) : SameRequests d (d.pump pumped) := by
  cases pumped with
  | other => exact .refl d
  | _ => exact .of_stage rfl rfl rfl rfl rfl rfl hhand.symm

theorem go_orderly (hd : Orderly first d) (answer : Answer) : Orderly first (d.go answer).1 := by
  unfold go
  split
  · exact orderly_of_same hd (dispatch_same _)
  · split
    · next hstage => exact takeRequest_orderly hd (inHand_of_stage hstage (by simp)) _ _
    · next hstage => exact reinstallIfSilent_orderly hd hstage _ _
    · next hstage =>
      exact orderly_of_same hd (answerSignals_same (inHand_of_stage hstage (by simp)) _ _)
    · next hstage =>
      exact orderly_of_same hd (takeTimer_same (inHand_of_stage hstage (by simp)) _ _)
    · next hstage =>
      have hhand := inHand_of_stage hstage (by simp)
      exact orderly_of_same hd (.of_stage rfl rfl rfl rfl rfl rfl hhand.symm)
    · next hstage => exact orderly_of_same hd (planWait_same (inHand_of_stage hstage (by simp)) _)
    · next hstage => exact orderly_of_same hd (wake_same (inHand_of_stage hstage (by simp)) _ _)
    · next hstage => exact orderly_of_same hd (pump_same (inHand_of_stage hstage (by simp)) _)
    · next hstage =>
      have hhand := inHand_of_stage hstage (by simp)
      exact orderly_of_same hd (.of_stage rfl rfl rfl rfl rfl rfl hhand.symm)
    · exact hd

/-! ## The other threads -/

theorem send_cases (d : Daemon) (request : Request) :
    (d.send request = (d, some .shuttingDown) ∧ d.stage = .closed) ∨
    (d.send request = (d, some .busy) ∧ d.mail.capacity ≤ d.mail.items.length) ∨
    (∃ mail, d.send request = ({ d with mail := mail, sent := d.sent ++ [request] }, none) ∧
      d.mail.trySend request = some mail ∧ d.stage ≠ .closed) := by
  unfold send
  split
  · next hclosed => exact .inl ⟨rfl, hclosed⟩
  · next hopen =>
    split
    · next mail hmail => exact .inr (.inr ⟨mail, rfl, hmail, hopen⟩)
    · next hfull => exact .inr (.inl ⟨rfl, Mailbox.trySend_none hfull⟩)

theorem send_orderly (hd : Orderly first d) (request : Request) :
    Orderly first (d.send request).1 := by
  rcases send_cases d request with ⟨h, -⟩ | ⟨h, -⟩ | ⟨mail, h, hmail, -⟩
  · rw [h]
    exact hd
  · rw [h]
    exact hd
  · rw [h]
    obtain ⟨hroom, rfl⟩ := Mailbox.trySend_some hmail
    have hle := hd.queue.1
    refine ⟨?_, hd.capacity, ⟨?_, ?_⟩, ?_, ?_⟩
    · show (d.mail.items ++ [request]).length ≤ d.mail.capacity
      rw [List.length_append]
      exact hroom
    · exact Nat.le_trans hle (by simp)
    · show (d.sent ++ [request]).drop d.replies.length = d.inHand ++ (d.mail.items ++ [request])
      rw [List.drop_append_of_le_length hle, hd.queue.2, List.append_assoc]
    · show d.settings = first.afterAll ((d.sent ++ [request]).take d.replies.length)
      rw [List.take_append_of_le_length hle]
      exact hd.settings
    · intro i reply hreply
      obtain ⟨served, hserved, hanswers⟩ := hd.replies i reply hreply
      have hlt : i < d.sent.length := (List.getElem?_eq_some_iff.mp hserved).1
      refine ⟨served, ?_, ?_⟩
      · show (d.sent ++ [request])[i]? = some served
        rw [List.getElem?_append_left hlt]
        exact hserved
      · show (first.afterAll ((d.sent ++ [request]).take i)).Answers served reply
        rw [List.take_append_of_le_length (Nat.le_of_lt hlt)]
        exact hanswers

theorem step_orderly (hd : Orderly first d) (motion : Motion) :
    Orderly first (d.step motion).1 := by
  cases motion with
  | other act =>
    cases act with
    | send request => exact send_orderly hd request
    | wake accepted =>
      exact orderly_of_same hd (.of_stage (Mailbox.post_items _ _) (Mailbox.post_capacity _ _)
        rfl rfl rfl rfl rfl)
    | wakeForHiddenInput => exact orderly_of_same hd (.of_stage rfl rfl rfl rfl rfl rfl rfl)
    | hear i =>
      unfold Daemon.step Daemon.act
      dsimp only
      split <;> exact hd
  | callback refused call =>
    unfold Daemon.step
    dsimp only
    split
    · exact orderly_of_same hd (callback_same refused call)
    · exact hd
  | go answer => exact go_orderly hd answer

theorem orderly_new (pid : UInt32) (bindings : List (Binding BindAction)) (tick : UInt32) :
    Orderly ⟨true, sortBySpecificity bindings⟩ (.new pid bindings tick) :=
  ⟨Nat.zero_le _, rfl, ⟨Nat.le_refl _, rfl⟩, rfl, fun i reply h => absurd h (by simp [Daemon.new])⟩

/-! ## What is heard stays so -/

/-- What became of the `i`-th request accepted, as its sender heard. -/
def Stands (d : Daemon) (i : Nat) : Except MainThreadError Reply → Prop
  -- It was served, with this answer.
  | .ok reply => d.replies[i]? = some reply
  -- It never was, and never will be.
  | .error .shuttingDown => d.stage = .closed ∧ d.replies[i]? = none
  -- It waited, and was served or will be unless the loop ends first.
  | .error .noAnswer => i < d.sent.length
  | .error .busy => False

/-- How the requests of a state stand in a later one. -/
structure Since (d d' : Daemon) : Prop where
  replies : d.replies <+: d'.replies
  sent : d.sent <+: d'.sent
  closed : d.stage = .closed → d'.stage = .closed ∧ d'.replies = d.replies

theorem Since.refl (d : Daemon) : Since d d :=
  ⟨List.prefix_rfl, List.prefix_rfl, fun h => ⟨h, rfl⟩⟩

theorem Since.trans {d'' : Daemon} (h : Since d d') (h' : Since d' d'') : Since d d'' := by
  refine ⟨h.replies.trans h'.replies, h.sent.trans h'.sent, fun hclosed => ?_⟩
  obtain ⟨hmid, hreplies⟩ := h.closed hclosed
  obtain ⟨hend, hreplies'⟩ := h'.closed hmid
  exact ⟨hend, hreplies'.trans hreplies⟩

theorem stands_since {i : Nat} {result : Except MainThreadError Reply} (h : d.Stands i result)
    (hsince : Since d d') : d'.Stands i result := by
  match result with
  | .ok reply =>
    obtain ⟨more, hmore⟩ := hsince.replies
    replace h : d.replies[i]? = some reply := h
    show d'.replies[i]? = some reply
    rw [← hmore, List.getElem?_append_left (List.getElem?_eq_some_iff.mp h).1]
    exact h
  | .error .shuttingDown =>
    obtain ⟨hclosed, hnone⟩ := h
    obtain ⟨hstill, hreplies⟩ := hsince.closed hclosed
    exact ⟨hstill, hreplies ▸ hnone⟩
  | .error .noAnswer => exact Nat.lt_of_lt_of_le h hsince.sent.length_le
  | .error .busy => exact h

theorem hear_stands {i : Nat} (hi : i < d.sent.length) : d.Stands i (d.hear i) := by
  unfold hear
  split
  · next reply hreply => exact hreply
  · next hnone =>
    split
    · next hclosed => exact ⟨hclosed, hnone⟩
    · exact hi

theorem trackInjected_stage (refused : Bool) (call : KeyboardCall) :
    (d.trackInjected refused call).stage = d.stage := by
  unfold trackInjected
  split
  · rfl
  · split
    · rfl
    · split <;> rfl

theorem decideEvent_stage (refused : Bool) (call : KeyboardCall) :
    (d.decideEvent refused call).1.stage = d.stage := by
  unfold decideEvent
  split
  · exact trackInjected_stage refused call
  · split
    · rfl
    · split
      · rfl
      · split <;> rfl

/-- The callbacks leave the loop where it is. -/
theorem callback_stage (refused : Bool) (call : Callback) :
    (d.callback refused call).1.stage = d.stage := by
  cases call with
  | keyboard call =>
    show (d.keyboardCallback refused call).1.stage = d.stage
    unfold keyboardCallback
    split
    · rfl
    · dsimp only
      split
      · rfl
      · have hdecided : (({ d with callbacks := d.callbacks + 1 } : Daemon).decideEvent refused
            call).1.stage = d.stage := decideEvent_stage refused call
        have hnoted : ∀ late : Bool, (if late then (({ d with callbacks := d.callbacks + 1 } :
            Daemon).decideEvent refused call).1.noteHiddenInput else (({ d with
            callbacks := d.callbacks + 1 } : Daemon).decideEvent refused call).1).stage =
              d.stage := by
          intro late
          cases late <;> exact hdecided
        split <;> exact hnoted _
  | foregroundChanged posted =>
    unfold callback
    dsimp only
    split
    · rfl
    · cases refused <;> rfl
  | desktopSwitched inputHere posted =>
    unfold callback
    dsimp only
    split
    · rfl
    · split <;> rfl
  | sessionChanged signal posted =>
    unfold callback
    dsimp only
    split <;> rfl

theorem SameRequests.since (h : SameRequests d d')
    (hclosed : d.stage = .closed → d'.stage = .closed) : Since d d' :=
  ⟨h.replies ▸ List.prefix_rfl, h.sent ▸ List.prefix_rfl, fun hc => ⟨hclosed hc, h.replies⟩⟩

theorem takeRequest_served (busy : Bool) (env : Env) :
    (d.takeRequest env busy).sent = d.sent ∧ d.replies <+: (d.takeRequest env busy).replies := by
  unfold takeRequest
  split
  · exact ⟨rfl, List.prefix_rfl⟩
  · next request mail _ =>
    cases request with
    | setEnabled enabled =>
      unfold serve setEnabled
      dsimp only
      split <;> exact ⟨rfl, List.prefix_append _ _⟩
    | reload bindings => exact ⟨rfl, List.prefix_append _ _⟩
    | reinstallHook request => exact ⟨rfl, List.prefix_rfl⟩

theorem reinstallIfSilent_served (request : ReinstallRequest) (env : Env) (made : Replaced) :
    (d.reinstallIfSilent env made request).sent = d.sent ∧
      d.replies <+: (d.reinstallIfSilent env made request).replies := by
  unfold reinstallIfSilent
  split
  · exact ⟨rfl, List.prefix_append _ _⟩
  · split <;> exact ⟨rfl, List.prefix_append _ _⟩

theorem takeRequest_since {busy : Bool} (hstage : d.stage = .requests busy) (env : Env) :
    Since d (d.takeRequest env busy) := by
  have hopen : d.stage ≠ .closed := by
    rw [hstage]
    simp
  obtain ⟨hsent, hreplies⟩ := takeRequest_served (d := d) busy env
  exact ⟨hreplies, hsent ▸ List.prefix_rfl, fun h => absurd h hopen⟩

theorem reinstallIfSilent_since {request : ReinstallRequest}
    (hstage : d.stage = .reinstalling request) (env : Env) (made : Replaced) :
    Since d (d.reinstallIfSilent env made request) := by
  have hopen : d.stage ≠ .closed := by
    rw [hstage]
    simp
  obtain ⟨hsent, hreplies⟩ := reinstallIfSilent_served (d := d) request env made
  exact ⟨hreplies, hsent ▸ List.prefix_rfl, fun h => absurd h hopen⟩

theorem go_since (answer : Answer) : Since d (d.go answer).1 := by
  unfold go
  split
  · refine (dispatch_same _).since fun h => ?_
    unfold dispatch
    split
    · exact h
    · split <;> exact h
  · -- The loop has not ended at the stages that it leaves for another.
    have hopen : ∀ {stage : Stage} {P : Prop}, d.stage = stage → stage ≠ .closed →
        d.stage = .closed → P := fun hstage hne h => absurd (hstage.symm.trans h) hne
    split
    · next hstage => exact takeRequest_since hstage _
    · next hstage => exact reinstallIfSilent_since hstage _ _
    · next hstage =>
      exact (answerSignals_same (inHand_of_stage hstage (by simp)) _ _).since
        (hopen hstage (by simp))
    · next hstage =>
      exact (takeTimer_same (inHand_of_stage hstage (by simp)) _ _).since
        (hopen hstage (by simp))
    · next hstage =>
      exact ⟨List.prefix_rfl, List.prefix_rfl, hopen hstage (by simp)⟩
    · next hstage =>
      exact (planWait_same (inHand_of_stage hstage (by simp)) _).since (hopen hstage (by simp))
    · next hstage =>
      exact (wake_same (inHand_of_stage hstage (by simp)) _ _).since (hopen hstage (by simp))
    · next hstage =>
      exact (pump_same (inHand_of_stage hstage (by simp)) _).since (hopen hstage (by simp))
    · exact ⟨List.prefix_rfl, List.prefix_rfl, fun _ => ⟨rfl, rfl⟩⟩
    · exact .refl d

theorem step_since (d : Daemon) (motion : Motion) : Since d (d.step motion).1 := by
  cases motion with
  | other act =>
    cases act with
    | send request =>
      show Since d (d.send request).1
      rcases send_cases d request with ⟨h, -⟩ | ⟨h, -⟩ | ⟨mail, h, -, -⟩
      · rw [h]
        exact .refl d
      · rw [h]
        exact .refl d
      · rw [h]
        exact ⟨List.prefix_rfl, List.prefix_append _ _, fun hclosed => ⟨hclosed, rfl⟩⟩
    | wake accepted => exact ⟨List.prefix_rfl, List.prefix_rfl, fun h => ⟨h, rfl⟩⟩
    | wakeForHiddenInput => exact ⟨List.prefix_rfl, List.prefix_rfl, fun h => ⟨h, rfl⟩⟩
    | hear i =>
      unfold Daemon.step Daemon.act
      dsimp only
      split <;> exact .refl d
  | callback refused call =>
    unfold Daemon.step
    dsimp only
    split
    · exact (callback_same refused call).since fun h => (callback_stage refused call).trans h
    · exact .refl d
  | go answer => exact go_since answer

end Daemon

open Daemon

/-- What the senders of requests may rely on along a run. -/
structure RequestRules (first : Settings) (start : Daemon) (motions : List Motion) : Prop where
  orderly : Orderly first (daemon.run start motions)
  heard : ∀ x ∈ daemon.trace start motions, ∀ i result, x.output = .heard i result →
    (daemon.run start motions).Stands i result
  /-- A request that is refused changes nothing, and is refused for its reason. -/
  refused : ∀ x ∈ daemon.trace start motions, ∀ error, x.output = .refused (some error) →
    x.after = x.before ∧
      (error = .busy ∧ x.before.mail.items.length = REQUEST_CAPACITY ∨
        error = .shuttingDown ∧ x.before.stage = .closed)

theorem moment_heard {d : Daemon} {motion : Motion} {i : Nat}
    {result : Except MainThreadError Reply} (h : (d.step motion).2 = .heard i result) :
    (d.step motion).1.Stands i result := by
  cases motion with
  | other act =>
    cases act with
    | hear j =>
      unfold Daemon.step Daemon.act at h ⊢
      dsimp only at h ⊢
      split at h
      · next hj =>
        rw [if_pos hj]
        obtain ⟨rfl, rfl⟩ := Shown.heard.inj h
        exact hear_stands hj
      · exact absurd h (by simp)
    | _ => exact absurd h (by simp [Daemon.step, Daemon.act])
  | callback refused call =>
    unfold Daemon.step at h
    dsimp only at h
    split at h <;> exact absurd h (by simp)
  | go answer => exact absurd h (by simp [Daemon.step])

theorem moment_refused {first : Settings} {d : Daemon} (hd : Orderly first d) {motion : Motion}
    {error : MainThreadError} (h : (d.step motion).2 = .refused (some error)) :
    (d.step motion).1 = d ∧
      (error = .busy ∧ d.mail.items.length = REQUEST_CAPACITY ∨
        error = .shuttingDown ∧ d.stage = .closed) := by
  cases motion with
  | other act =>
    cases act with
    | send request =>
      replace h : Shown.refused (d.send request).2 = .refused (some error) := h
      have hsent := Shown.refused.inj h
      show (d.send request).1 = d ∧ _
      rcases send_cases d request with ⟨hs, hclosed⟩ | ⟨hs, hfull⟩ | ⟨mail, hs, -, -⟩
      · rw [hs] at hsent ⊢
        exact ⟨rfl, .inr ⟨(Option.some.inj hsent).symm, hclosed⟩⟩
      · rw [hs] at hsent ⊢
        have hlength := Nat.le_antisymm hd.bounded hfull
        rw [hd.capacity] at hlength
        exact ⟨rfl, .inl ⟨(Option.some.inj hsent).symm, hlength⟩⟩
      · rw [hs] at hsent
        exact absurd hsent (by simp)
    | hear j =>
      unfold Daemon.step Daemon.act at h
      dsimp only at h
      split at h <;> exact absurd h (by simp)
    | _ => exact absurd h (by simp [Daemon.step, Daemon.act])
  | callback refused call =>
    unfold Daemon.step at h
    dsimp only at h
    split at h <;> exact absurd h (by simp)
  | go answer => exact absurd h (by simp [Daemon.step])

/-- **In any interleaving, requests take effect one after the other, in the order of the
queue.** The switch and the live list are what the requests answered make of them, each
answer is the one that its request gets served alone in its place, and what a sender hears
says for good what became of its request. -/
theorem requests_served_in_order (pid : UInt32) (bindings : List (Binding BindAction))
    (tick : UInt32) (motions : List Motion) :
    RequestRules ⟨true, sortBySpecificity bindings⟩ (.new pid bindings tick) motions := by
  have hinv : daemon.Invariant (Orderly ⟨true, sortBySpecificity bindings⟩) :=
    fun d motion hd _ => step_orderly hd motion
  have hlegal := Machine.legal_of_enabled daemon (fun _ _ => trivial)
    (.new pid bindings tick) motions
  have hnew := orderly_new pid bindings tick
  refine ⟨hinv.run hnew hlegal, fun x hx i result hheard => ?_, fun x hx error hrefused => ?_⟩
  · obtain ⟨-, -, hmoment⟩ := hinv.trace hnew hlegal x hx
    have hsince : Since x.after (daemon.run (.new pid bindings tick) motions) :=
      Machine.trace_later Since.refl (fun _ _ _ => Since.trans) step_since hx
    refine stands_since ?_ hsince
    rw [hmoment] at hheard ⊢
    exact moment_heard hheard
  · obtain ⟨hbefore, -, hmoment⟩ := hinv.trace hnew hlegal x hx
    rw [hmoment] at hrefused ⊢
    exact moment_refused hbefore hrefused

end KeySwitch.Hook
