import KeySwitch.Engine.Chords
import KeySwitch.Engine.Gestures
import KeySwitch.Engine.Resync
import KeySwitch.Engine.Sequences

/-!
# The decision core

`Engine.onKey` decides one key event: whether Windows gets it, which actions
fire, which timers to start, whether to send the menu mask key. `onTimer` takes
a timer that is due, `reset` starts over, and the rest keeps the modifier flags
true to Windows between key events.

Every number of an arming comes from `Ids.nextSeq`; a token is that number with
the generation, which each reset moves on. Both counters wrap, as `u64` and
`u32` do.
-/

namespace KeySwitch.Engine

open Data

variable {α : Type}

/-! ## Tokens and timers -/

/-- The table a timer's entry is in. -/
inductive TimerSlot
  | gesture (vk : VirtualKey)
  | chord
  | sequence
  deriving DecidableEq, Repr

/-- Identifies the pending entry a timer was started for. -/
structure TimerToken where
  generation : Nat
  slot : TimerSlot
  seq : Nat
  deriving DecidableEq, Repr

/-- A timer the caller must start. -/
structure TimerRequest where
  token : TimerToken
  due : Instant
  deriving DecidableEq, Repr

/-- Where the engine's tokens come from. -/
structure Ids where
  /-- How many resets there were, wrapping at 2^32. -/
  generation : Nat
  /-- The number of the latest arming, wrapping at 2^64; never reset. -/
  lastSeq : Nat

namespace Ids

def default : Ids := ⟨0, 0⟩

/-- A number no earlier arming has. -/
def nextSeq (ids : Ids) : Nat × Ids :=
  let seq := (ids.lastSeq + 1) % 2 ^ 64
  (seq, { ids with lastSeq := seq })

/-- The timer for the entry armed in `slot` as `seq`, due at `due`. -/
def request (ids : Ids) (slot : TimerSlot) (seq : Nat) (due : Instant) : TimerRequest :=
  ⟨⟨ids.generation, slot, seq⟩, due⟩

end Ids

/-- What to do about one event or timer. -/
structure Decision (α : Type) where
  suppress : Bool
  fire : List α
  timers : List TimerRequest
  mask : Bool

namespace Decision

def default : Decision α := ⟨false, [], [], false⟩

/-- Adds one action to fire. -/
def push (d : Decision α) (action : α) : Decision α := { d with fire := d.fire ++ [action] }

/-- Adds one timer to start. -/
def pushTimer (d : Decision α) (request : TimerRequest) : Decision α :=
  { d with timers := d.timers ++ [request] }

/-- Asks for suppression. -/
def swallow (d : Decision α) : Decision α := { d with suppress := true }

end Decision

/-- Why `Engine.reset` starts over. -/
inductive ResetReason
  | remappingSwitched
  | reloaded
  | inputLeft
  | hookReinstalled
  deriving DecidableEq, Repr

end Engine

/-- The decision core's state. -/
structure Engine (α : Type) where
  keys : Engine.KeyState
  gestures : Engine.Gestures α
  chords : Engine.Chords α
  sequences : Engine.Sequences α
  /-- A `MaskOnly` auto-blocker matched the last key-down: the next key event
  asks for the menu mask key too. -/
  maskOwed : Bool
  ids : Engine.Ids
  resync : Engine.Resync

namespace Engine

open Data

variable {α : Type}

def new : Engine α := ⟨.new, .new, .new, .new, false, .default, .new⟩

/-! ## A key-down -/

/-- What is fixed while a key-down's bindings are visited: the code pressed, what
the engine may ask of the world, whether it is an auto-repeat, and the winner. -/
structure KeyDown (α : Type) where
  vk : VirtualKey
  env : Env
  wasRepeat : Bool
  winner : Option (Winner α)

/-- What a first key-down does with the gestures: the waiting Taps of other keys
fire, and the winner's group arms the press of this key. -/
def firstKeyDown (e : Engine α) (k : KeyDown α) (bindings : List (Binding α)) :
    Engine α × Decision α :=
  let others := e.gestures.otherKeyDown k.vk e.keys k.env.now
  let group := k.winner.bind fun winner => winner.deferredGroup k.vk bindings e.keys
  let next := e.ids.nextSeq
  let pressed := others.1.press k.vk group k.env.now next.1
  ({ e with gestures := pressed.1, ids := next.2 },
    { suppress := group.any GroupArming.block
      fire := others.2 ++ pressed.2.1
      timers := (pressed.2.2.map (next.2.request (.gesture k.vk) next.1)).toList
      mask := false })

/-- The visit of an auto-blocker of `combo`. -/
def visitBlocker (k : KeyDown α) (combo : KeyCombination) (mode : BlockerMode)
    (condition : Condition) (e : Engine α) (d : Decision α) : Engine α × Decision α :=
  if blockerMatches combo k.vk e.keys k.env.osKeyDown && condition.evaluate k.env.foreground then
    match mode with
    | .swallow => (e, d.swallow)
    | .maskOnly =>
      if k.wasRepeat then (e, d) else ({ e with maskOwed := true }, { d with mask := true })
  else (e, d)

/-- The visit of a `keys` user binding: an `Immediate` winner acts here, a
gesture group has acted as one press already. -/
def visitCombo (k : KeyDown α) (index : Nat) (binding : Binding α) (e : Engine α)
    (d : Decision α) : Engine α × Decision α :=
  if !(k.winner.any fun w => w.admits index binding k.vk e.keys) then (e, d)
  else if binding.trigger.isImmediate then
    let d := if !k.wasRepeat || binding.repeats then d.push binding.action else d
    (e, if binding.blockDefault then d.swallow else d)
  else (e, d)

/-- The visit of a Sequence binding, its condition checked before the feed. -/
def visitSequence (k : KeyDown α) (steps : List KeyCombination) (maxGap : Duration)
    (binding : Binding α) (e : Engine α) (d : Decision α) : Engine α × Decision α :=
  if k.wasRepeat || !binding.condition.evaluate k.env.foreground then (e, d)
  else
    let next := e.ids.nextSeq
    let fed := e.sequences.onKeyDown e.keys binding.action steps maxGap k.env.now next.1
    let e := { e with ids := next.2, sequences := fed.1 }
    match fed.2 with
    | .notMatching => (e, d)
    | .advanced due => (e, d.swallow.pushTimer (next.2.request .sequence next.1 due))
    | .completed action keys =>
      ({ e with keys := keys.foldl KeyState.markCompleted e.keys }, d.swallow.push action)

/-- The visit of a Chord binding, its condition checked before the feed. -/
def visitChord (k : KeyDown α) (chordKeys : List KeySpec) (window : Duration)
    (binding : Binding α) (e : Engine α) (d : Decision α) : Engine α × Decision α :=
  if k.wasRepeat || !binding.condition.evaluate k.env.foreground then (e, d)
  else
    let next := e.ids.nextSeq
    let fed := e.chords.onKeyDown k.vk binding.action chordKeys window k.env.now next.1
    let e := { e with ids := next.2, chords := fed.1 }
    match fed.2 with
    | .notInChord => (e, d)
    | .pending => (e, d.swallow)
    | .started due => (e, d.swallow.pushTimer (next.2.request .chord next.1 due))
    | .completed action keys =>
      ({ e with keys := keys.foldl KeyState.markCompleted e.keys }, d.swallow.push action)

/-- The visit of the binding at one index of the list. -/
def visit (k : KeyDown α) (acc : Engine α × Decision α) (entry : Binding α × Nat) :
    Engine α × Decision α :=
  match entry.1.kind with
  | .combo combo =>
    match entry.1.autoBlocker with
    | some mode => visitBlocker k combo mode entry.1.condition acc.1 acc.2
    | none => visitCombo k entry.2 entry.1 acc.1 acc.2
  | .sequence steps maxGap => visitSequence k steps maxGap entry.1 acc.1 acc.2
  | .chord keys window => visitChord k keys window entry.1 acc.1 acc.2

/-- What holds of the visit of each kind of binding holds of any visit. -/
theorem visit_cases {P : Engine α × Decision α → Prop} (k : KeyDown α)
    (acc : Engine α × Decision α) (entry : Binding α × Nat)
    (blocker : ∀ combo mode, entry.1.autoBlocker = some mode →
      P (visitBlocker k combo mode entry.1.condition acc.1 acc.2))
    (combo : P (visitCombo k entry.2 entry.1 acc.1 acc.2))
    (sequence : ∀ steps maxGap, P (visitSequence k steps maxGap entry.1 acc.1 acc.2))
    (chord : ∀ keys window, P (visitChord k keys window entry.1 acc.1 acc.2)) :
    P (visit k acc entry) := by
  unfold visit
  split
  · split
    · next mode hmode => exact blocker _ mode hmode
    · exact combo
  · exact sequence _ _
  · exact chord _ _

/-- A visit leaves the gestures, the look at the modifiers and the generation of
the timers as they are. -/
theorem visit_frame (k : KeyDown α) (acc : Engine α × Decision α) (entry : Binding α × Nat) :
    (visit k acc entry).1.gestures = acc.1.gestures ∧
      (visit k acc entry).1.resync = acc.1.resync ∧
      (visit k acc entry).1.ids.generation = acc.1.ids.generation := by
  apply visit_cases (P := fun x => x.1.gestures = acc.1.gestures ∧ x.1.resync = acc.1.resync ∧
    x.1.ids.generation = acc.1.ids.generation) k acc entry
  · intro combo mode _
    unfold visitBlocker
    split
    · cases mode with
      | swallow => exact ⟨rfl, rfl, rfl⟩
      | maskOnly =>
        dsimp only
        split <;> exact ⟨rfl, rfl, rfl⟩
    · exact ⟨rfl, rfl, rfl⟩
  · unfold visitCombo
    split
    · exact ⟨rfl, rfl, rfl⟩
    · split <;> exact ⟨rfl, rfl, rfl⟩
  · intro steps maxGap
    unfold visitSequence
    split
    · exact ⟨rfl, rfl, rfl⟩
    · dsimp only
      split <;> exact ⟨rfl, rfl, rfl⟩
  · intro keys window
    unfold visitChord
    split
    · exact ⟨rfl, rfl, rfl⟩
    · dsimp only
      split <;> exact ⟨rfl, rfl, rfl⟩

theorem visits_frame (k : KeyDown α) (entries : List (Binding α × Nat))
    (acc : Engine α × Decision α) :
    (entries.foldl (visit k) acc).1.gestures = acc.1.gestures ∧
      (entries.foldl (visit k) acc).1.resync = acc.1.resync ∧
      (entries.foldl (visit k) acc).1.ids.generation = acc.1.ids.generation := by
  induction entries generalizing acc with
  | nil => exact ⟨rfl, rfl, rfl⟩
  | cons entry entries ih =>
    obtain ⟨hgestures, hresync, hgeneration⟩ := visit_frame k acc entry
    rw [List.foldl_cons, (ih _).1, (ih _).2.1, (ih _).2.2]
    exact ⟨hgestures, hresync, hgeneration⟩

/-- The record rule: an auto-repeat continues its key-down, and a first key-down
is recorded as decided. -/
def followRecord (ks : KeyState) (vk : VirtualKey) (wasRepeat suppress : Bool) :
    KeyState × Bool :=
  if wasRepeat then
    if ks.isBlocked vk then (ks, true)
    else if ks.isPassed vk then (ks, false)
    else if suppress then (ks.markRepeatSuppressed vk, true)
    else (ks.markPassed vk, false)
  else if suppress then (ks.markBlocked vk, true)
  else (ks.markPassed vk, false)

/-- Asks for the menu mask key if the event is swallowed while Windows has an
Alt or Win key down whose key-down it saw. -/
def maskIfSwallowedUnderAltOrWin (e : Engine α) (d : Decision α) : Decision α :=
  if d.suppress && e.keys.altOrWinDownInWindows then { d with mask := true } else d

/-- The key-down of `k` once its key is held: the gestures, then the bindings in
list order. -/
def walk (e : Engine α) (k : KeyDown α) (bindings : List (Binding α)) :
    Engine α × Decision α :=
  bindings.zipIdx.foldl (visit k)
    (if k.wasRepeat then (e, .default) else e.firstKeyDown k bindings)

def onKeyDown (e : Engine α) (vk : VirtualKey) (bindings : List (Binding α)) (env : Env) :
    Engine α × Decision α :=
  let pressed := e.keys.press vk
  let winner := elect vk bindings pressed.2 env.foreground
  let walked := walk { e with keys := pressed.2 } ⟨vk, env, pressed.1, winner⟩ bindings
  let record := followRecord walked.1.keys vk pressed.1 walked.2.suppress
  let e := { walked.1 with keys := record.1 }
  (e, e.maskIfSwallowedUnderAltOrWin { walked.2 with suppress := record.2 })

/-! ## A key-up -/

/-- The key-up of `vk`: its press resolves, and its record decides whether
Windows gets the key-up, unless Windows has the key down. -/
def onKeyUp (e : Engine α) (vk : VirtualKey) (env : Env) : Engine α × Decision α :=
  let keys := e.keys.release vk
  let wasPassed := keys.isPassed vk
  let next := e.ids.nextSeq
  let resolved := e.gestures.release vk env.now wasPassed next.1
  let taken := keys.takeBlocked vk
  let swallow := taken.1 || (resolved.2.gestureBound && !wasPassed)
  let suppress := swallow && !env.osKeyDown vk
  let keys := if suppress then taken.2.clearReleasedModifiers env vk .menu else taken.2
  let e := { e with keys := keys, gestures := resolved.1, ids := next.2 }
  (e, e.maskIfSwallowedUnderAltOrWin
    { suppress := suppress
      fire := resolved.2.fired.toList
      timers := (resolved.2.windowDue.map (next.2.request (.gesture vk) next.1)).toList
      mask := false })

/-- Decides one keyboard event. -/
def onKey (e : Engine α) (event : KeyEvent) (bindings : List (Binding α)) (env : Env) :
    Engine α × Decision α :=
  let owed := e.maskOwed
  let e := { e with maskOwed := false, resync := e.resync.event event.vk true }
  let decided :=
    match event.direction with
    | .down =>
      onKeyDown { e with keys := e.keys.clearReleasedModifiers env event.vk .all }
        event.vk bindings env
    | .up => e.onKeyUp event.vk env
  (decided.1, { decided.2 with mask := decided.2.mask || owed })

/-! ## Timers, resets, reads of Windows -/

/-- Decides a timer that is due. -/
def onTimer (e : Engine α) (token : TimerToken) : Engine α × List α :=
  if token.generation != e.ids.generation then (e, [])
  else
    match token.slot with
    | .gesture vk =>
      let fired := e.gestures.onTimer vk token.seq
      ({ e with gestures := fired.1 }, fired.2)
    | .chord => ({ e with chords := e.chords.expire token.seq }, [])
    | .sequence => ({ e with sequences := e.sequences.expire token.seq }, [])

/-- Whether an entry still waits for the timer of `token`. -/
def isLive (e : Engine α) (token : TimerToken) : Bool :=
  token.generation == e.ids.generation &&
    match token.slot with
    | .gesture vk => e.gestures.isLive vk token.seq
    | .chord => e.chords.isLive token.seq
    | .sequence => e.sequences.isLive token.seq

/-- The caller could not start the timer for `token`; also whether a Hold was
dropped. -/
def forgetTimer (e : Engine α) (token : TimerToken) : Engine α × Bool :=
  if token.generation != e.ids.generation then (e, false)
  else
    match token.slot with
    | .gesture vk =>
      let forgotten := e.gestures.forget vk token.seq
      ({ e with gestures := forgotten.1 }, forgotten.2)
    | .chord | .sequence => (e, false)

/-- The foreground window changed. -/
def onForegroundChanged (e : Engine α) : Engine α := { e with resync := e.resync.bump }

/-- The main thread's read of the modifiers between key events; also whether it
asked Windows. -/
def resyncIfDue (e : Engine α) (env : Env) (notes : Nat) : Engine α × Bool :=
  let planned := e.resync.plan notes
  let e := { e with resync := planned.1 }
  if planned.2.isEmpty then (e, false)
  else ({ e with keys := e.keys.resyncModifiers env planned.2 }, true)

/-- Keyboard input came back to this desktop. -/
def inputReturned (e : Engine α) : Engine α := { e with resync := e.resync.inputReturned }

/-- One of the daemon's own injected key events, passed undecided. -/
def trackInjected (e : Engine α) (event : KeyEvent) : Engine α :=
  { e with keys := e.keys.trackInjected event, resync := e.resync.event event.vk false }

/-- Starts over for `reason`: every pending entry is dropped, and a new
generation makes every timer started before stale. -/
def reset (e : Engine α) (env : Env) (reason : ResetReason) : Engine α :=
  let e :=
    { e with
      gestures := .new, chords := .new, sequences := .new, maskOwed := false,
      ids := { e.ids with generation := (e.ids.generation + 1) % 2 ^ 32 } }
  match reason with
  | .remappingSwitched | .hookReinstalled =>
    { e with keys := e.keys.resyncFromOs env, resync := e.resync.readEverything }
  | .reloaded => e
  | .inputLeft => { e with keys := e.keys.releaseAll, resync := e.resync.inputLeft }

end Engine

end KeySwitch
