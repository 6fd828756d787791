import KeySwitch.Executor.Runs
import KeySwitch.Hook.Decision
import KeySwitch.Hook.InputSignals
import KeySwitch.Lib.Mailbox

/-!
# The main thread and the threads that ask it

The daemon's main thread owns the engine, runs the hook callbacks and serves the requests
of the other threads: `swch on` and `off`, a config reload, a reinstall of the keyboard
hook. Its loop drains the requests, the noted input signals and the due timers until a
whole pass finds none, reads the modifiers, sets its timer, waits, and pumps its messages.

`Act` is one atomic step of another thread, and `go` one of the main thread's, so that the
others may act between any two. The callbacks run inside the pump, inside the call that
lets the waiting hook calls run before a reinstall, and inside the actions that are carried
out, one at a time (`todo`): an action that sends keys is called back for them.
-/

namespace KeySwitch.Data

/-- An action that runs on the thread that fires it. -/
inductive FastAction
  | switchLanguage
  | switchLanguageBackward
  | toggleCapsLock
  | pressKey (vk : VirtualKey)
  | postMessage (msg wparam : Nat) (lparam : Int)
  | media (key : MediaKey)
  | doNothing
  deriving DecidableEq, Repr

/-- The action as one that runs where it fires; `none` for one that the executor runs. -/
def BindAction.asFast : BindAction → Option FastAction
  | switchLanguage => some .switchLanguage
  | switchLanguageBackward => some .switchLanguageBackward
  | toggleCapsLock => some .toggleCapsLock
  | pressKey vk => some (.pressKey vk)
  | postMessage msg wparam lparam => some (.postMessage msg wparam lparam)
  | media key => some (.media key)
  | doNothing => some .doNothing
  | sequence _ | launch _ _ | openUrl _ | text _ | paste _ => none

end KeySwitch.Data

namespace KeySwitch.Hook

open Data Lib Engine MainThread

/-! ## Requests -/

/-- What another thread asks of the main thread. -/
inductive Request
  | setEnabled (enabled : Bool)
  | reload (bindings : List (Binding BindAction))
  | reinstallHook (request : ReinstallRequest)

inductive Reply
  /-- Whether the switch changed. -/
  | switched (changed : Bool)
  | reloaded
  | reinstalled (outcome : ReinstallOutcome)
  deriving DecidableEq

/-- Why a request got no answer. -/
inductive MainThreadError
  /-- The main thread did not answer in time. The request stays in the queue. -/
  | noAnswer
  /-- The main loop has ended, or is ending. -/
  | shuttingDown
  /-- Too many requests wait already. -/
  | busy
  deriving DecidableEq

/-- How many requests wait before the next is refused. -/
def REQUEST_CAPACITY : Nat := 8

/-! ## Key events as Windows hands them over -/

@[match_pattern] abbrev WM_KEYDOWN : Nat := 0x100
@[match_pattern] abbrev WM_KEYUP : Nat := 0x101
@[match_pattern] abbrev WM_SYSKEYDOWN : Nat := 0x104
@[match_pattern] abbrev WM_SYSKEYUP : Nat := 0x105

/-- A stretch this long away from the messages may have let Windows time out a call of the
hook. -/
def HOOK_LATE_MS : UInt32 := 17

def HOOK_LATE : Duration := fromMillis 17

/-- How long ago an event stamped `stampMs` happened, or 0 for a stamp ahead of the clock. -/
def eventAgeMs (nowMs stampMs : UInt32) : UInt32 :=
  let age := nowMs - stampMs
  if 0x80000000 ≤ age then 0 else age

def lateCallback (ageMs : UInt32) (ran : Duration) : Bool :=
  decide (HOOK_LATE ≤ ran) || decide (HOOK_LATE_MS ≤ ageMs)

/-- What marks the daemon's own key events. -/
def injectedSentinel (pid : UInt32) : UInt64 := (pid.toUInt64 <<< 32) ||| 0xDEADBEEF

/-- The engine's event of a hook message; `none` for anything but the four key messages. -/
def keyEvent (message vkCode : Nat) : Option KeyEvent :=
  match message with
  | WM_KEYDOWN | WM_SYSKEYDOWN => some ⟨vkCode % 2 ^ 16, .down⟩
  | WM_KEYUP | WM_SYSKEYUP => some ⟨vkCode % 2 ^ 16, .up⟩
  | _ => none

/-- One call of the keyboard hook, with the answers to what the callback asks. -/
structure KeyboardCall where
  code : Int
  message : Nat
  vkCode : Nat
  extraInfo : UInt64
  injected : Bool
  stamp : UInt32
  env : Env
  set : TimerRequest → SetAnswer
  /-- The tick count at the exit of the callback, and how long it ran. -/
  tick : UInt32
  ran : Duration

/-- A call that Windows makes on the main thread; `posted` is whether the wake that the
callback posts to its own thread is accepted. -/
inductive Callback
  | keyboard (call : KeyboardCall)
  | foregroundChanged (posted : Bool)
  /-- Whether the thread's desktop has the input now, if Windows tells. -/
  | desktopSwitched (inputHere : Option Bool) (posted : Bool)
  /-- The control window is told of a lock or an unlock. -/
  | sessionChanged (signal : InputSignal) (posted : Bool)

/-! ## The main thread -/

/-- A slow action handed to the executor. -/
structure Submission where
  action : BindAction
  target : Executor.TargetWindow
  /-- How often the executor's epoch was moved on before. -/
  epoch : Nat
  deriving DecidableEq

/-- What the main thread does that others see. -/
inductive SideEffect
  /-- A key event reaches Windows. -/
  | passed
  /-- A key event is kept from Windows. -/
  | suppressed
  /-- The menu mask key is sent. -/
  | mask
  | fast (action : FastAction)
  | submitted (job : Submission)
  deriving DecidableEq

/-- Where the main thread is in its loop. `busy` says whether this pass of the drain found
anything so far. -/
inductive Stage
  | requests (busy : Bool)
  /-- Serving a reinstall request, after the hook calls that waited were let run. -/
  | reinstalling (request : ReinstallRequest)
  | signals (busy : Bool)
  | timers (busy : Bool)
  | resync
  | plan
  | waiting
  | pumping
  /-- The loop has ended. -/
  | returned
  /-- The main state and the request queue are gone. -/
  | closed
  deriving DecidableEq

/-- The main thread's state, what it shares with other threads, and what was asked of it. -/
structure Daemon where
  pid : UInt32
  /-- The live list. -/
  bindings : List (Binding BindAction)
  enabled : Bool
  /-- The heartbeat of the keyboard callback. -/
  callbacks : UInt64
  main : MainState BindAction
  pending : PendingSignals
  /-- Whether a desktop switch was noted whose destination Windows did not tell. -/
  unknown : Bool
  hiddenInput : Nat
  awakeSince : UInt32
  stage : Stage
  /-- The actions fired and not carried out yet. -/
  todo : List BindAction
  mail : Mailbox Request
  /-- The requests accepted so far, and the answers to the first of them. -/
  sent : List Request
  replies : List Reply
  /-- How often the executor's epoch was moved on, and what was handed to it. -/
  cancels : Nat
  jobs : List Submission

/-- What a reinstall of the keyboard hook does. -/
inductive Replaced
  | notInstalled
  | replaced
  | refused

/-- What ends a wait. -/
inductive Woke
  | timer
  | failed
  | message

/-- What the pump meets. -/
inductive Pumped
  /-- A wake, or the end of the queue. -/
  | wake
  | quit
  | other

/-- What Windows and the clocks answer the main thread in one step. -/
structure Answer where
  env : Env
  now : Instant
  tick : UInt32
  /-- The notes of hidden input that the watchdog made. -/
  unseen : Nat
  set : SetAnswer
  cancelled : Bool
  replaced : Replaced
  woke : Woke
  pumped : Pumped
  target : Executor.TargetWindow

namespace Daemon

/-- As the daemon starts its loop with its first list. -/
def new (pid : UInt32) (bindings : List (Binding BindAction)) (tick : UInt32) : Daemon where
  pid := pid
  bindings := sortBySpecificity bindings
  enabled := true
  callbacks := 0
  main := .new
  pending := .NONE
  unknown := false
  hiddenInput := 0
  awakeSince := tick
  stage := .requests false
  todo := []
  mail := .new REQUEST_CAPACITY
  sent := []
  replies := []
  cancels := 0
  jobs := []

def noteHiddenInput (d : Daemon) : Daemon :=
  { d with hiddenInput := (d.hiddenInput + 1) % 2 ^ 64 }

/-- `wake_this_thread` -/
def wakeThisThread (posted : Bool) (d : Daemon) : Daemon :=
  { d with mail := d.mail.publish.post posted }

/-! ### Resets -/

def cancelActions (d : Daemon) : Daemon := { d with cancels := d.cancels + 1 }

def updateBindings (bindings : List (Binding BindAction)) (d : Daemon) : Daemon :=
  { d with bindings := sortBySpecificity bindings }.cancelActions

def resetEngine (env : Env) (reason : ResetReason) (d : Daemon) : Daemon :=
  { d with main := d.main.resetEngine env reason }

def resetTransientState (env : Env) (reason : ResetReason) (d : Daemon) : Daemon :=
  (d.resetEngine env reason).cancelActions

/-- `set_enabled`; also whether the switch changed. -/
def setEnabled (env : Env) (enabled : Bool) (d : Daemon) : Daemon × Bool :=
  if d.enabled = enabled then (d, false)
  else (resetTransientState env .remappingSwitched { d with enabled := enabled }, true)

def reload (env : Env) (bindings : List (Binding BindAction)) (d : Daemon) : Daemon :=
  (d.updateBindings bindings).resetEngine env .reloaded

/-! ### The callbacks -/

def trackInjected (refused : Bool) (call : KeyboardCall) (d : Daemon) : Daemon :=
  match keyEvent call.message call.vkCode with
  | none => d
  | some event =>
    if !ModifierSet.all.contains event.vk || !d.enabled then d
    else if refused then d.noteHiddenInput
    else { d with main := d.main.call (.trackInjected event) }

/-- `decide_event`. A call under the borrow of the main state is refused. -/
def decideEvent (refused : Bool) (call : KeyboardCall) (d : Daemon) :
    Daemon × Option (Decision BindAction) :=
  if call.extraInfo = injectedSentinel d.pid then (d.trackInjected refused call, none)
  else
    match keyEvent call.message call.vkCode with
    | none => (d, none)
    | some event =>
      if !d.enabled then (d, none)
      else if refused then (d.noteHiddenInput, none)
      else
        ({ d with main := (d.main.decideEvent event d.bindings call.env call.set).1 },
          some (d.main.engine.onKey event d.bindings call.env).2)

/-- `carry_out` as far as the mask; the actions follow one at a time. -/
def carryOut (decision : Decision BindAction) (d : Daemon) : Daemon × List SideEffect :=
  ({ d with todo := decision.fire ++ d.todo }, if decision.mask then [.mask] else [])

def keyboardCallback (refused : Bool) (call : KeyboardCall) (d : Daemon) :
    Daemon × List SideEffect :=
  if call.code < 0 then (d, [.passed])
  else
    let d := { d with callbacks := d.callbacks + 1 }
    if !d.enabled then (d, [.passed])
    else
      let decided := d.decideEvent refused call
      let age := if call.injected then 0 else eventAgeMs call.tick call.stamp
      let d := if lateCallback age call.ran then decided.1.noteHiddenInput else decided.1
      match decided.2 with
      | none => (d, [.passed])
      | some decision =>
        let carried := d.carryOut decision
        (carried.1, carried.2 ++ [if decision.suppress then .suppressed else .passed])

def noteInputSignal (signal : InputSignal) (posted : Bool) (d : Daemon) : Daemon :=
  { d with pending := d.pending.note signal }.wakeThisThread posted

/-- What the callbacks for everything but keys do. -/
def callback (refused : Bool) (d : Daemon) : Callback → Daemon × List SideEffect
  | .keyboard call => d.keyboardCallback refused call
  | .foregroundChanged posted =>
    if !d.enabled then (d, [])
    else
      let d := if refused then d.noteHiddenInput
        else { d with main := d.main.call .foregroundChanged }
      (d.wakeThisThread posted, [])
  | .desktopSwitched inputHere posted =>
    if !d.enabled then (d, [])
    else
      match inputHere with
      | some true => (d.noteInputSignal .desktopSwitchedBack posted, [])
      | some false => (d.noteInputSignal .desktopSwitchedAway posted, [])
      | none => ({ d with unknown := true }.noteHiddenInput.wakeThisThread posted, [])
  | .sessionChanged signal posted =>
    if !d.enabled then (d, []) else (d.noteInputSignal signal posted, [])

/-- Whether the thread is where Windows calls its callbacks. -/
def callable (d : Daemon) : Bool :=
  match d.stage with
  | .pumping | .reinstalling _ => true
  | _ => !d.todo.isEmpty

/-! ### The loop -/

/-- `dispatch`: the next action that was fired runs here, or goes to the executor. -/
def dispatch (foreground : Executor.TargetWindow) (d : Daemon) : Daemon × List SideEffect :=
  match d.todo with
  | [] => (d, [])
  | action :: todo =>
    match action.asFast with
    | some fast => ({ d with todo := todo }, [.fast fast])
    | none =>
      let target :=
        match action with
        | .sequence _ => foreground
        | _ => 0
      let job : Submission := ⟨action, target, d.cancels⟩
      ({ d with todo := todo, jobs := d.jobs ++ [job] }, [.submitted job])

/-- The answer to the request that is served. -/
def reply (reply : Reply) (d : Daemon) : Daemon :=
  { d with replies := d.replies ++ [reply], stage := .requests true }

def serve (env : Env) (d : Daemon) : Request → Daemon
  | .setEnabled enabled =>
    let switched := d.setEnabled env enabled
    switched.1.reply (.switched switched.2)
  | .reload bindings => (d.reload env bindings).reply .reloaded
  | .reinstallHook request => { d with stage := .reinstalling request }

/-- The drain's look at the requests. -/
def takeRequest (env : Env) (busy : Bool) (d : Daemon) : Daemon :=
  match d.mail.look.receive with
  | none => { d with mail := d.mail.look, stage := .signals busy }
  | some (request, mail) => { d with mail := mail }.serve env request

/-- `reinstall_if_silent`, after `dispatch_sent_messages`. -/
def reinstallIfSilent (env : Env) (made : Replaced) (request : ReinstallRequest)
    (d : Daemon) : Daemon :=
  if d.callbacks ≠ request.seen then d.reply (.reinstalled .alive)
  else
    match made with
    | .notInstalled => d.reply (.reinstalled .notInstalled)
    | .replaced => (d.resetEngine env .hookReinstalled).reply (.reinstalled .reinstalled)
    | .refused => d.reply (.reinstalled .failed)

/-- The drain's look at the input signals. -/
def answerSignals (env : Env) (busy : Bool) (d : Daemon) : Daemon :=
  let signals := d.pending.signals
  if signals.isEmpty && !d.unknown then { d with stage := .timers busy }
  else
    let d := { d with
      main := d.main.answerInputSignals env d.enabled signals
      pending := .NONE
      unknown := false
      stage := .timers true }
    if d.enabled && (signals.findSome? InputSignal.reset).isSome then d.cancelActions else d

/-- The drain's look at the timers. -/
def takeTimer (now : Instant) (busy : Bool) (d : Daemon) : Daemon :=
  match (d.main.timers.queue.takeDue now).2 with
  | none => { d with stage := if busy then .requests false else .resync }
  | some request => { d with
      main := d.main.takeDueTimer now
      todo := (d.main.engine.onTimer request.token).2
      stage := .timers true }

/-- The end of the drain. -/
def resyncModifiers (env : Env) (unseen : Nat) (d : Daemon) : Daemon :=
  let notes := (d.hiddenInput + unseen) % 2 ^ 64
  { d with main := (d.main.resyncIfDue env d.enabled notes).1, stage := .plan }

/-- Sets the wake, and looks how long the thread was away from its messages. -/
def planWait (answer : Answer) (d : Daemon) : Daemon :=
  let planned := d.main.timers.planWake d.main.engine answer.now answer.set answer.cancelled
  let d := { d with main := ⟨planned.1.2, planned.1.1, answer.now⟩ }
  match planned.2 with
  | .due => { d with stage := .requests false }
  | .wait | .failed _ =>
    if HOOK_LATE_MS ≤ eventAgeMs answer.tick d.awakeSince then
      { d.noteHiddenInput with awakeSince := answer.tick, stage := .requests false }
    else { d with stage := .waiting }

def wake (woke : Woke) (tick : UInt32) (d : Daemon) : Daemon :=
  let d := { d with awakeSince := tick }
  match woke with
  | .timer => { d with
      main := { d.main with timers := d.main.timers.fired }, stage := .requests false }
  | .failed => { d with stage := .returned }
  | .message => { d with stage := .pumping }

def pump (pumped : Pumped) (d : Daemon) : Daemon :=
  match pumped with
  | .wake => { d with mail := d.mail.takePosts 1, stage := .requests false }
  | .quit => { d with stage := .returned }
  | .other => d

/-- The main thread goes on. -/
def go (answer : Answer) (d : Daemon) : Daemon × List SideEffect :=
  if d.todo ≠ [] then d.dispatch answer.target
  else
    match d.stage with
    | .requests busy => (d.takeRequest answer.env busy, [])
    | .reinstalling request => (d.reinstallIfSilent answer.env answer.replaced request, [])
    | .signals busy => (d.answerSignals answer.env busy, [])
    | .timers busy => (d.takeTimer answer.now busy, [])
    | .resync => (d.resyncModifiers answer.env answer.unseen, [])
    | .plan => (d.planWait answer, [])
    | .waiting => (d.wake answer.woke answer.tick, [])
    | .pumping => (d.pump answer.pumped, [])
    | .returned => ({ d with stage := .closed }, [])
    | .closed => (d, [])

/-! ### The other threads -/

/-- The `try_send` of a request, with what it answers. -/
def send (request : Request) (d : Daemon) : Daemon × Option MainThreadError :=
  if d.stage = .closed then (d, some .shuttingDown)
  else
    match d.mail.trySend request with
    | some mail => ({ d with mail := mail, sent := d.sent ++ [request] }, none)
    | none => (d, some .busy)

/-- What the sender of the `i`-th accepted request hears when it stops waiting. -/
def hear (i : Nat) (d : Daemon) : Except MainThreadError Reply :=
  match d.replies[i]? with
  | some reply => .ok reply
  | none => .error (if d.stage = .closed then .shuttingDown else .noAnswer)

end Daemon

/-- One atomic step of a thread that is not the main thread. -/
inductive Act
  | send (request : Request)
  /-- A wake is posted that a sender owes. -/
  | wake (accepted : Bool)
  /-- The watchdog wakes the main thread for hidden input. -/
  | wakeForHiddenInput
  /-- The sender of the `i`-th accepted request stops waiting. -/
  | hear (i : Nat)

/-- A step of another thread, a call of the main thread's callbacks, or a step of its loop. -/
inductive Motion
  | other (act : Act)
  | callback (refused : Bool) (call : Callback)
  | go (answer : Answer)

/-- What a step shows: the main thread's effects, or what another thread learns. -/
inductive Shown
  | effects (effects : List SideEffect)
  | refused (error : Option MainThreadError)
  | heard (i : Nat) (result : Except MainThreadError Reply)
  | nothing

namespace Daemon

def act (d : Daemon) : Act → Daemon × Shown
  | .send request => ((d.send request).1, .refused (d.send request).2)
  | .wake accepted => ({ d with mail := d.mail.post accepted }, .nothing)
  | .wakeForHiddenInput => ({ d with mail := d.mail.publish }, .nothing)
  | .hear i => if i < d.sent.length then (d, .heard i (d.hear i)) else (d, .nothing)

def step (d : Daemon) : Motion → Daemon × Shown
  | .other act => d.act act
  | .callback refused call =>
    if d.callable then
      let called := d.callback refused call
      (called.1, .effects called.2)
    else (d, .nothing)
  | .go answer =>
    let gone := d.go answer
    (gone.1, .effects gone.2)

end Daemon

/-- The main thread among the others, in any interleaving. -/
def daemon : Machine Daemon Motion Shown := ⟨Daemon.step, fun _ _ => True⟩

end KeySwitch.Hook
