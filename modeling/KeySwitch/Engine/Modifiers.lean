import KeySwitch.Data.KeySpec

/-!
# The modifier codes the engine keeps flags for

Eleven codes, one bit each: both sides of Shift, Ctrl, Alt and Win, and the
generic Shift, Ctrl and Alt that another program can inject. `ModifierSet`
says which of them an event touched or a read of the Windows key state covers.
-/

namespace KeySwitch.Engine

open Data

/-- The codes, in the order of their bits. -/
def MODIFIERS : List VirtualKey :=
  [VK_SHIFT, VK_LSHIFT, VK_RSHIFT, VK_CONTROL, VK_LCONTROL, VK_RCONTROL,
    VK_MENU, VK_LMENU, VK_RMENU, VK_LWIN, VK_RWIN]

/-- A set of `MODIFIERS` codes, one bit each, in that order. -/
structure ModifierSet where
  bits : BitVec 16
  deriving DecidableEq, Repr

namespace ModifierSet

/-- The bit of `vk`, its index in `MODIFIERS`, or 0 if it is no modifier. -/
def bit : VirtualKey → BitVec 16
  | VK_SHIFT => 1 <<< 0
  | VK_LSHIFT => 1 <<< 1
  | VK_RSHIFT => 1 <<< 2
  | VK_CONTROL => 1 <<< 3
  | VK_LCONTROL => 1 <<< 4
  | VK_RCONTROL => 1 <<< 5
  | VK_MENU => 1 <<< 6
  | VK_LMENU => 1 <<< 7
  | VK_RMENU => 1 <<< 8
  | VK_LWIN => 1 <<< 9
  | VK_RWIN => 1 <<< 10
  | _ => 0

/-- The set of `codes`; a code that is no modifier adds nothing. -/
def of (codes : List VirtualKey) : ModifierSet :=
  ⟨codes.foldl (fun bits vk => bits ||| bit vk) 0⟩

def empty : ModifierSet := ⟨0⟩
def all : ModifierSet := ⟨(1 <<< MODIFIERS.length) - 1⟩

/-- The eight sided codes. -/
def sided : ModifierSet :=
  of [VK_LSHIFT, VK_RSHIFT, VK_LCONTROL, VK_RCONTROL, VK_LMENU, VK_RMENU, VK_LWIN, VK_RWIN]

/-- The Alt and Win codes, the generic Alt included. -/
def menu : ModifierSet := of [VK_LMENU, VK_RMENU, VK_MENU, VK_LWIN, VK_RWIN]

def shifts : ModifierSet := of [VK_SHIFT, VK_LSHIFT, VK_RSHIFT]
def controls : ModifierSet := of [VK_CONTROL, VK_LCONTROL, VK_RCONTROL]
def alts : ModifierSet := of [VK_MENU, VK_LMENU, VK_RMENU]

def contains (s : ModifierSet) (vk : VirtualKey) : Bool := s.bits &&& bit vk != 0
def union (s other : ModifierSet) : ModifierSet := ⟨s.bits ||| other.bits⟩
def without (s other : ModifierSet) : ModifierSet := ⟨s.bits &&& ~~~other.bits⟩
def isEmpty (s : ModifierSet) : Bool := s.bits == 0

/-- The codes of the set, in `MODIFIERS` order. -/
def codes (s : ModifierSet) : List VirtualKey :=
  MODIFIERS.zipIdx.filterMap fun (vk, index) =>
    if s.bits &&& (1 <<< index) != 0 then some vk else none

/-- The codes whose Windows key state an event of `vk` changes: a sided code
and its family's generic one, a generic code and both its sides, a Win key
alone, nothing for any other key. -/
def touchedBy (vk : VirtualKey) : ModifierSet :=
  let own : ModifierSet := ⟨bit vk⟩
  match vk with
  | VK_SHIFT => shifts
  | VK_CONTROL => controls
  | VK_MENU => alts
  | VK_LSHIFT | VK_RSHIFT => own.union ⟨bit VK_SHIFT⟩
  | VK_LCONTROL | VK_RCONTROL => own.union ⟨bit VK_CONTROL⟩
  | VK_LMENU | VK_RMENU => own.union ⟨bit VK_MENU⟩
  | _ => own

end ModifierSet

end KeySwitch.Engine
