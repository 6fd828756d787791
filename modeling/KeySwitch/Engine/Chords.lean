import KeySwitch.Engine.Keys
import KeySwitch.Lib.FirstMatch

/-!
# Pending chords: all keys within one window

A chord is identified by its set of keys. Its pending entry accumulates the
codes pressed so far until every chord key has been pressed, or the window,
counted from the first key, has passed.
-/

namespace KeySwitch.Engine

open Data

variable {α : Type}

structure PendingChord (α : Type) where
  chordKeys : List KeySpec
  /-- Codes pressed so far in the window, in press order, each once. -/
  seen : List VirtualKey
  action : α
  expiresAt : Instant
  seq : Nat

structure Chords (α : Type) where
  pending : List (PendingChord α)

/-- What the engine should do after consulting the chord table. -/
inductive ChordOutcome (α : Type)
  | notInChord
  | pending
  | started (due : Instant)
  | completed (action : α) (keys : List VirtualKey)

/-- Whether two chord key lists hold the same keys in any order. -/
def sameKeys (a b : List KeySpec) : Bool :=
  a.length == b.length && a.all fun key => b.contains key

namespace Chords

def new : Chords α := ⟨[]⟩

/-- Drops the entries whose window `now` has reached. -/
def retainOpen (c : Chords α) (now : Instant) : Chords α :=
  ⟨c.pending.filter fun p => now < p.expiresAt⟩

/-- Whether the codes in `seen` press every key of the chord. -/
def complete (chordKeys : List KeySpec) (seen : List VirtualKey) : Bool :=
  chordKeys.all fun key => seen.any key.accepts

/-- Feeds one key-down to one Chord binding; `seq` is the engine's number for an
entry this key-down starts. -/
def onKeyDown (c : Chords α) (vk : VirtualKey) (action : α) (chordKeys : List KeySpec)
    (window : Duration) (now : Instant) (seq : Nat) : Chords α × ChordOutcome α :=
  if !chordKeys.any fun key => key.accepts vk then (c, .notInChord)
  else
    let c := c.retainOpen now
    let ours := fun p : PendingChord α => sameKeys p.chordKeys chordKeys
    match c.pending.find? ours with
    | some entry =>
      let seen := if entry.seen.contains vk then entry.seen else entry.seen ++ [vk]
      if complete entry.chordKeys seen then
        (⟨c.pending.eraseP ours⟩, .completed entry.action seen)
      else
        (⟨Lib.modifyFirst ours (fun p => { p with seen := seen }) c.pending⟩, .pending)
    | none =>
      let due := now + window
      (⟨c.pending ++ [⟨chordKeys, [vk], action, due, seq⟩]⟩, .started due)

/-- The expiry timer of the entry armed as `seq` is due: the entry goes. -/
def expire (c : Chords α) (seq : Nat) : Chords α :=
  ⟨c.pending.filter fun p => p.seq != seq⟩

/-- Whether the entry armed as `seq` still waits for its expiry timer. -/
def isLive (c : Chords α) (seq : Nat) : Bool :=
  c.pending.any fun p => p.seq == seq

end Chords

end KeySwitch.Engine
