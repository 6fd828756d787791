import KeySwitch.Engine.Modifiers

/-!
# When the main thread reads the modifiers from Windows

Every source that can hide a key event from the hook moves the hiding count.
The main thread's drain asks for a plan between key events and reads the codes
it names; a code an event touched since the last plan is owed to the next one.
-/

namespace KeySwitch.Engine

open Data

/-- The hiding count and what the next read leaves out. -/
structure Resync where
  /-- Moves once per source that can have hidden a key event, wrapping. -/
  hidingCount : Nat
  /-- `hidingCount` at the last read of every code. -/
  resynced : Nat
  /-- The adapter's note count at the last plan. -/
  notesSeen : Nat
  /-- Touched by an event since the last plan. -/
  fresh : ModifierSet
  /-- Left out of the last planned read because fresh then. -/
  owed : ModifierSet
  /-- Keyboard input left this desktop, and nothing proved it came back. -/
  inputAway : Bool

namespace Resync

def new : Resync := ⟨1, 0, 0, .empty, .empty, false⟩

/-- Something may have hidden a key event from the hook. -/
def bump (r : Resync) : Resync := { r with hidingCount := (r.hidingCount + 1) % 2 ^ 64 }

/-- A key event of `vk` changed a flag; one the engine decided proves that
keyboard input is on this desktop. -/
def event (r : Resync) (vk : VirtualKey) (decided : Bool) : Resync :=
  { r with fresh := r.fresh.union (ModifierSet.touchedBy vk),
           inputAway := r.inputAway && !decided }

/-- Keyboard input left this desktop. -/
def inputLeft (r : Resync) : Resync := { r with inputAway := true }.bump

/-- Keyboard input came back to this desktop. -/
def inputReturned (r : Resync) : Resync := { r with inputAway := false }.bump

/-- Every key was read from Windows: nothing is due or owed. -/
def readEverything (r : Resync) : Resync :=
  { r with resynced := r.hidingCount, fresh := .empty, owed := .empty }

/-- The codes the drain reads now, with `notes` the adapter's note count. -/
def plan (r : Resync) (notes : Nat) : Resync × ModifierSet :=
  let r := if notes != r.notesSeen then { r with notesSeen := notes }.bump else r
  if r.inputAway then (r, .empty)
  else
    let planned := if r.hidingCount != r.resynced then ModifierSet.all else r.owed
    let read := planned.without r.fresh
    ({ r with resynced := r.hidingCount, owed := planned.without read, fresh := .empty }, read)

end Resync

end KeySwitch.Engine
