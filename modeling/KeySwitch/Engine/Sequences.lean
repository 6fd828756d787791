import KeySwitch.Engine.Winner
import KeySwitch.Lib.FirstMatch

/-!
# Pending sequences: steps pressed in order

A sequence is identified by its steps. Its pending entry holds the next step to
press and the deadline for it; a mismatch aborts it, and the same key-down may
start it afresh. Every start and every advance takes a new number.
-/

namespace KeySwitch.Engine

open Data

variable {α : Type}

structure PendingSequence (α : Type) where
  steps : List KeyCombination
  nextStep : Nat
  action : α
  expiresAt : Instant
  /-- The number of the latest start or advance. -/
  seq : Nat

structure Sequences (α : Type) where
  pending : List (PendingSequence α)

inductive SequenceOutcome (α : Type)
  | notMatching
  | advanced (due : Instant)
  | completed (action : α) (lastStepKeys : List VirtualKey)

/-- The keys whose key-ups a completed sequence swallows: the codes of the last
step's non-modifier keys. -/
def lastStepKeys (steps : List KeyCombination) : List VirtualKey :=
  match steps.getLast? with
  | none => []
  | some step =>
    (step.keys.filter fun key => key.modifier.isNone).filterMap fun
      | .key vk => some vk
      | .anySide _ => none

namespace Sequences

def new : Sequences α := ⟨[]⟩

/-- Drops the entries whose deadline `now` has reached. -/
def retainOpen (s : Sequences α) (now : Instant) : Sequences α :=
  ⟨s.pending.filter fun p => now < p.expiresAt⟩

/-- A fresh start: does this key-down match the first step? A sequence of one
step, which the loader rejects, would fire at once. -/
def start (s : Sequences α) (held : KeyState) (action : α) (first : KeyCombination)
    (steps : List KeyCombination) (maxGap : Duration) (now : Instant) (seq : Nat) :
    Sequences α × SequenceOutcome α :=
  if keysDown first held then
    if steps.length == 1 then (s, .completed action (lastStepKeys steps))
    else
      let due := now + maxGap
      (⟨s.pending ++ [⟨steps, 1, action, due, seq⟩]⟩, .advanced due)
  else (s, .notMatching)

/-- Whether the held keys press step `next` of `steps`. -/
def pressesStep (held : KeyState) (steps : List KeyCombination) (next : Nat) : Bool :=
  steps[next]?.any fun step => keysDown step held

/-- Feeds one key-down to one Sequence binding; `held` are the keys held after
it, `seq` is the engine's number for a start or an advance. -/
def onKeyDown (s : Sequences α) (held : KeyState) (action : α) (steps : List KeyCombination)
    (maxGap : Duration) (now : Instant) (seq : Nat) : Sequences α × SequenceOutcome α :=
  match steps with
  | [] => (s, .notMatching)
  | first :: _ =>
    let s := s.retainOpen now
    let ours := fun p : PendingSequence α => stepsEq p.steps steps
    match s.pending.find? ours with
    | some entry =>
      if pressesStep held steps entry.nextStep then
        if entry.nextStep + 1 == steps.length then
          (⟨s.pending.eraseP ours⟩, .completed entry.action (lastStepKeys steps))
        else
          let due := now + maxGap
          let advance := fun p : PendingSequence α =>
            { p with nextStep := p.nextStep + 1, expiresAt := due, seq := seq }
          (⟨Lib.modifyFirst ours advance s.pending⟩, .advanced due)
      else
        start ⟨s.pending.eraseP ours⟩ held action first steps maxGap now seq
    | none => s.start held action first steps maxGap now seq

/-- The expiry timer of the start or advance numbered `seq` is due. -/
def expire (s : Sequences α) (seq : Nat) : Sequences α :=
  ⟨s.pending.filter fun p => p.seq != seq⟩

/-- Whether an entry still waits for the expiry timer numbered `seq`. -/
def isLive (s : Sequences α) (seq : Nat) : Bool :=
  s.pending.any fun p => p.seq == seq

end Sequences

end KeySwitch.Engine
