import KeySwitch.Engine.Winner
import KeySwitch.Lib.FirstMatch

/-!
# Pending `Tap`, `Hold` and `DoubleTap` gestures: one machine per press

A first key-down that a gesture group wins arms one press under the key just
pressed (`Phase.held`). The press resolves to its Hold (`DueHold`, once its
term has passed), to its Tap at the key-up, or waits for a second press
(`Phase.awaitSecond`). Time comes in as arguments.

The source keeps the presses in a vector, finds the first one that fits and
removes it there; here that is `find?` and `eraseP` with one test. Its index
loops visit every press once, so they are a `filter`. Actions to fire are
returned instead of pushed to a vector of the caller.
-/

namespace KeySwitch.Engine

open Data Lib

variable {α : Type}

/-- The keys and `when:` of the group that opened a DoubleTap window. -/
structure GroupKey where
  keys : KeyCombination
  condition : Condition

inductive Phase (α : Type)
  /-- The key is held: each gesture with its deadline and action, the DoubleTap
  with its group. -/
  | held (tap hold : Option (Instant × α)) (double : Option (Instant × α × GroupKey))
  /-- The key went up in time for a DoubleTap: a second press that `group` wins
  before `due` fires `double`; `deferredTap` waits for the window. -/
  | awaitSecond (due : Instant) (double : α) (group : GroupKey) (deferredTap : Option α)
      (passed : Bool)

namespace Phase

/-- When the timer this phase waits for is due, if it waits for one. -/
def timerDue : Phase α → Option Instant
  | held _ (some (due, _)) _ => some due
  | awaitSecond due _ _ (some _) _ => some due
  | _ => none

/-- What its timer fires; `none` if it waits for no timer. -/
def intoTimerAction : Phase α → Option α
  | held _ (some (_, action)) _ => some action
  | awaitSecond _ _ _ (some action) _ => some action
  | _ => none

def isHeld : Phase α → Bool
  | held .. => true
  | awaitSecond .. => false

/-- The Tap that waits for its DoubleTap window. -/
def deferredTap : Phase α → Option α
  | held .. => none
  | awaitSecond _ _ _ tap _ => tap

/-- Whether a Tap waits for a window that `now` has closed. -/
def closedBy (now : Instant) : Phase α → Bool
  | awaitSecond due _ _ (some _) _ => decide (due ≤ now)
  | _ => false

end Phase

/-- The gesture machine of one press of one key; `seq` is the engine's number
of its arming. -/
structure Press (α : Type) where
  vk : VirtualKey
  seq : Nat
  phase : Phase α

/-- A press resolved as a Hold whose timer has not run yet. -/
structure DueHold (α : Type) where
  vk : VirtualKey
  seq : Nat
  due : Instant
  action : α

/-- What a key-up did. -/
structure Released (α : Type) where
  /-- The Tap to fire now. -/
  fired : Option α
  /-- The gesture is evidence of a swallowed key-down. -/
  gestureBound : Bool
  /-- The press waits for its DoubleTap window with its Tap. -/
  windowDue : Option Instant

def Released.default : Released α := ⟨none, false, none⟩

structure Gestures (α : Type) where
  presses : List (Press α)
  dueHolds : List (DueHold α)

namespace Gestures

def new : Gestures α := ⟨[], []⟩

/-- Whether `group` completes the DoubleTap window `window`. -/
def completes (group : Option (GroupArming α)) (window : GroupKey) : Bool :=
  group.any fun group =>
    group.doubleTap.isSome && group.keys.eq window.keys
      && decide (group.condition = window.condition)

/-- The phase a gesture group arms at `now`. -/
def armed (group : GroupArming α) (now : Instant) : Phase α :=
  .held (group.tap.map fun (term, action) => (now + term, action))
    (group.hold.map fun (term, action) => (now + term, action))
    (group.doubleTap.map fun (term, action) =>
      (now + term, action, ⟨group.keys, group.condition⟩))

/-- Arms a press of `vk` for `group`; also the due time of its Hold. -/
def arm (g : Gestures α) (vk : VirtualKey) (group : Option (GroupArming α)) (now : Instant)
    (seq : Nat) : Gestures α × Option Instant :=
  match group with
  | none => (g, none)
  | some group =>
    ({ g with presses := g.presses ++ [⟨vk, seq, armed group now⟩] },
      group.hold.map fun (term, _) => now + term)

/-- The end of `earlier`, a press of `vk` that `g` is without, at the next first
key-down of `vk`: a second press in time fires its DoubleTap and arms nothing;
else its waiting Tap fires, or its Hold, if due by the clock, is left to its
timer. -/
def supersede (g : Gestures α) (earlier : Press α) (vk : VirtualKey)
    (group : Option (GroupArming α)) (now : Instant) (seq : Nat) :
    Gestures α × List α × Option Instant :=
  match earlier.phase with
  | .awaitSecond due double window deferredTap _ =>
    if now < due && completes group window then (g, [double], none)
    else
      let armed := g.arm vk group now seq
      (armed.1, deferredTap.toList, armed.2)
  | .held _ hold _ =>
    let g : Gestures α :=
      match hold with
      | some (due, action) =>
        if due ≤ now then { g with dueHolds := g.dueHolds ++ [⟨vk, earlier.seq, due, action⟩] }
        else g
      | none => g
    let armed := g.arm vk group now seq
    (armed.1, [], armed.2)

/-- A first key-down of `vk` at `now`, which `group` wins if it is a gesture
group, as the arming `seq`: the state after it, what fires, and the due time of
the Hold to start a timer for. An earlier press of `vk` ends here. -/
def press (g : Gestures α) (vk : VirtualKey) (group : Option (GroupArming α)) (now : Instant)
    (seq : Nat) : Gestures α × List α × Option Instant :=
  let ours := fun p : Press α => p.vk == vk
  match g.presses.find? ours with
  | none =>
    let armed := g.arm vk group now seq
    (armed.1, [], armed.2)
  | some earlier =>
    supersede { g with presses := g.presses.eraseP ours } earlier vk group now seq

/-- A gesture whose deadline `now` has not reached. -/
def inTime {β : Type} (now : Instant) (gesture : Option (Instant × β)) : Option (Instant × β) :=
  gesture.filter fun entry => decide (now < entry.1)

/-- What is left of a held press at its key-up, its Hold not due: the Tap, or
the DoubleTap window, with the Tap waiting for it. -/
def releaseInTime (g : Gestures α) (vk : VirtualKey) (now : Instant) (passed : Bool) (seq : Nat)
    (tap : Option (Instant × α)) (hadHold : Bool)
    (double : Option (Instant × α × GroupKey)) : Gestures α × Released α :=
  let tap := (inTime now tap).map Prod.snd
  let bound := hadHold || tap.isSome
  match inTime now double with
  | some (due, double, group) =>
    ({ g with presses := g.presses ++ [⟨vk, seq, .awaitSecond due double group tap passed⟩] },
      ⟨none, bound, tap.map fun _ => due⟩)
  | none => (g, ⟨tap, bound, none⟩)

/-- The key-up of `vk` for its held press `press`, which `g` is without. -/
def resolve (g : Gestures α) (press : Press α) (vk : VirtualKey) (now : Instant) (passed : Bool)
    (seq : Nat) : Gestures α × Released α :=
  match press.phase with
  | .awaitSecond .. => (g, .default)
  | .held tap (some (due, action)) double =>
    if due ≤ now then
      -- Held for the whole term: the Hold's timer fires it whenever it runs.
      ({ g with dueHolds := g.dueHolds ++ [⟨vk, press.seq, due, action⟩] }, ⟨none, true, none⟩)
    else g.releaseInTime vk now passed seq tap true double
  | .held tap none double => g.releaseInTime vk now passed seq tap false double

/-- The key-up of `vk` at `now`; `passed` is whether its key-down reached
Windows, `seq` the number of a press that goes on to wait for its window. -/
def release (g : Gestures α) (vk : VirtualKey) (now : Instant) (passed : Bool) (seq : Nat) :
    Gestures α × Released α :=
  let ours := fun p : Press α => p.vk == vk && p.phase.isHeld
  match g.presses.find? ours with
  | none => (g, .default)
  | some press => resolve { g with presses := g.presses.eraseP ours } press vk now passed seq

/-- Whether a first key-down of `vk` ends the pending press `press` of another
key: its waiting Tap has completed, or its key-down passed, so that the new key
makes it a shortcut. -/
def cancels (vk : VirtualKey) (keys : KeyState) (now : Instant) (press : Press α) : Bool :=
  press.vk != vk &&
    match press.phase with
    | .awaitSecond _ _ group deferredTap passed =>
      if group.keys.keys.any fun key => key.accepts vk then false
      else deferredTap.isSome || passed
    | .held _ hold _ =>
      keys.isPassed press.vk && !hold.any fun entry => decide (entry.1 ≤ now)

/-- A first key-down of `vk` at `now`, for the presses of the other keys; also
the waiting Taps that fire ahead of it. -/
def otherKeyDown (g : Gestures α) (vk : VirtualKey) (keys : KeyState) (now : Instant) :
    Gestures α × List α :=
  ({ g with presses := g.presses.filter fun p => !cancels vk keys now p },
    (g.presses.filter (cancels vk keys now)).filterMap fun p => p.phase.deferredTap)

/-- Fires every Tap that waits for a DoubleTap window closed by `now`. -/
def fireClosedWindows (g : Gestures α) (now : Instant) : Gestures α × List α :=
  ({ g with presses := g.presses.filter fun p => !p.phase.closedBy now },
    (g.presses.filter fun p => p.phase.closedBy now).filterMap fun p => p.phase.deferredTap)

/-- The press armed as `seq` waits for a timer. -/
def awaitsTimer (vk : VirtualKey) (seq : Nat) (p : Press α) : Bool :=
  p.vk == vk && p.seq == seq && p.phase.timerDue.isSome

/-- The due Hold armed as `seq`. -/
def isDueHold (vk : VirtualKey) (seq : Nat) (h : DueHold α) : Bool :=
  h.vk == vk && h.seq == seq

/-- The entry that the timer of `vk` armed as `seq` was started for, taken out:
the state without it, its due time and its action. -/
def takeTimer (g : Gestures α) (vk : VirtualKey) (seq : Nat) :
    Option (Gestures α × Instant × α) :=
  match g.dueHolds.find? (isDueHold vk seq) with
  | some hold =>
    some ({ g with dueHolds := g.dueHolds.eraseP (isDueHold vk seq) }, hold.due, hold.action)
  | none =>
    match g.presses.find? (awaitsTimer vk seq) with
    | none => none
    | some press =>
      match press.phase.timerDue, press.phase.intoTimerAction with
      | some due, some action =>
        some ({ g with presses := g.presses.eraseP (awaitsTimer vk seq) }, due, action)
      | _, _ => none

/-- The timer of `vk` armed as `seq` is due: it fires the Hold or the waiting
Tap it was started for, if that still waits, and ahead of it the waiting Taps
whose windows closed by then. -/
def onTimer (g : Gestures α) (vk : VirtualKey) (seq : Nat) : Gestures α × List α :=
  match g.takeTimer vk seq with
  | none => (g, [])
  | some (g, due, action) =>
    let closed := g.fireClosedWindows due
    (closed.1, closed.2 ++ [action])

/-- Whether the press or due Hold of `vk` armed as `seq` waits for a timer. -/
def isLive (g : Gestures α) (vk : VirtualKey) (seq : Nat) : Bool :=
  g.dueHolds.any (isDueHold vk seq) || g.presses.any (awaitsTimer vk seq)

/-- A held press without its Hold. -/
def dropHold (press : Press α) : Press α :=
  match press.phase with
  | .held tap _ double => { press with phase := .held tap none double }
  | .awaitSecond .. => press

/-- The timer of `vk` armed as `seq` could not be started: a Hold, held or due,
is dropped; a waiting Tap stays. Also whether a Hold was dropped. -/
def forget (g : Gestures α) (vk : VirtualKey) (seq : Nat) : Gestures α × Bool :=
  let ours := fun p : Press α => p.vk == vk && p.seq == seq
  if g.dueHolds.any (isDueHold vk seq) then
    ({ g with dueHolds := g.dueHolds.filter fun h => !isDueHold vk seq h }, true)
  else
    match g.presses.find? ours with
    | none => (g, false)
    | some press =>
      match press.phase with
      | .awaitSecond .. => (g, false)
      | .held tap hold double =>
        if tap.isNone && double.isNone then
          ({ g with presses := g.presses.eraseP ours }, hold.isSome)
        else
          ({ g with presses := modifyFirst ours dropHold g.presses }, hold.isSome)

end Gestures

end KeySwitch.Engine
