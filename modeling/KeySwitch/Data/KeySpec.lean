import Mathlib.Data.List.Basic
import Mathlib.Data.BitVec

/-!
# Trigger keys: codes, modifier families, key specs

The keyboard hook reports a key by its virtual-key code, sided for a modifier
(`VK_LSHIFT`). A binding names a key (`KeySpec.key`) or a modifier family on
either side (`KeySpec.anySide`), and the engine compares the code of every
event with it. A code is a `u16` in the source; nothing here computes with
one, so a natural number stands for it, and the 256-entry tables of
`Engine.Keys` check the range where the source does.
-/

namespace KeySwitch.Data

/-- A virtual-key code. -/
abbrev VirtualKey := Nat

@[match_pattern] abbrev VK_LBUTTON : VirtualKey := 0x01
@[match_pattern] abbrev VK_RBUTTON : VirtualKey := 0x02
@[match_pattern] abbrev VK_MBUTTON : VirtualKey := 0x04
@[match_pattern] abbrev VK_XBUTTON1 : VirtualKey := 0x05
@[match_pattern] abbrev VK_XBUTTON2 : VirtualKey := 0x06
@[match_pattern] abbrev VK_SHIFT : VirtualKey := 0x10
@[match_pattern] abbrev VK_CONTROL : VirtualKey := 0x11
@[match_pattern] abbrev VK_MENU : VirtualKey := 0x12
@[match_pattern] abbrev VK_LWIN : VirtualKey := 0x5B
@[match_pattern] abbrev VK_RWIN : VirtualKey := 0x5C
@[match_pattern] abbrev VK_LSHIFT : VirtualKey := 0xA0
@[match_pattern] abbrev VK_RSHIFT : VirtualKey := 0xA1
@[match_pattern] abbrev VK_LCONTROL : VirtualKey := 0xA2
@[match_pattern] abbrev VK_RCONTROL : VirtualKey := 0xA3
@[match_pattern] abbrev VK_LMENU : VirtualKey := 0xA4
@[match_pattern] abbrev VK_RMENU : VirtualKey := 0xA5

/-- A modifier family. Both keys of a pair count as the same modifier. -/
inductive Modifier
  | shift
  | ctrl
  | alt
  | win
  deriving DecidableEq, Repr

namespace Modifier

/-- Every family, in the source's order. -/
def all : List Modifier := [shift, ctrl, alt, win]

/-- The left key of the pair. -/
def left : Modifier → VirtualKey
  | shift => VK_LSHIFT
  | ctrl => VK_LCONTROL
  | alt => VK_LMENU
  | win => VK_LWIN

/-- The right key of the pair. -/
def right : Modifier → VirtualKey
  | shift => VK_RSHIFT
  | ctrl => VK_RCONTROL
  | alt => VK_RMENU
  | win => VK_RWIN

/-- The code Windows uses for "either key of the pair"; the Win keys have
none. -/
def generic : Modifier → Option VirtualKey
  | shift => some VK_SHIFT
  | ctrl => some VK_CONTROL
  | alt => some VK_MENU
  | win => none

/-- The family of a sided or generic modifier code. -/
def of (vk : VirtualKey) : Option Modifier :=
  all.find? fun m => vk == m.left || vk == m.right || some vk == m.generic

/-- This family's bit in a `ModifierSet`. -/
def bit : Modifier → BitVec 8
  | shift => 1
  | ctrl => 2
  | alt => 4
  | win => 8

end Modifier

/-- A set of modifier families, one bit each. -/
structure ModifierSet where
  bits : BitVec 8
  deriving DecidableEq, Repr

namespace ModifierSet

def empty : ModifierSet := ⟨0⟩

/-- This set with `modifier` added. -/
def insert (s : ModifierSet) (modifier : Modifier) : ModifierSet :=
  ⟨s.bits ||| modifier.bit⟩

end ModifierSet

/-- One trigger key of a binding. -/
inductive KeySpec
  /-- Either key of a modifier pair: `"Shift"`, `"Win"`. -/
  | anySide (m : Modifier)
  /-- This key only, on its side for a modifier: `"LShift"`, `"A"`. -/
  | key (vk : VirtualKey)
  deriving DecidableEq, Repr

namespace KeySpec

/-- Whether an event with code `vk` is this key. `anySide` also accepts the
generic code, which only third-party injected input carries. -/
def accepts : KeySpec → VirtualKey → Bool
  | anySide m, vk => vk == m.left || vk == m.right || some vk == m.generic
  | key k, vk => vk == k

/-- The modifier family of this key; `none` for a key that is no modifier. -/
def modifier : KeySpec → Option Modifier
  | anySide m => some m
  | key vk => Modifier.of vk

/-- Whether one key is accepted by both: `Shift` and `LShift`, `A` and `A`. -/
def overlaps : KeySpec → KeySpec → Bool
  | anySide a, anySide b => a == b
  | anySide m, key vk => (anySide m).accepts vk
  | key vk, anySide m => (anySide m).accepts vk
  | key a, key b => a == b

theorem overlaps_self (k : KeySpec) : k.overlaps k = true := by
  cases k <;> simp [overlaps]

theorem of_accepts {m : Modifier} {vk : VirtualKey} (h : (anySide m).accepts vk = true) :
    Modifier.of vk = some m := by
  cases m <;> simp only [accepts, Modifier.left, Modifier.right, Modifier.generic, Bool.or_eq_true,
    beq_iff_eq, Option.some.injEq, reduceCtorEq, or_false] at h
  · rcases h with (rfl | rfl) | rfl <;> rfl
  · rcases h with (rfl | rfl) | rfl <;> rfl
  · rcases h with (rfl | rfl) | rfl <;> rfl
  · rcases h with rfl | rfl <;> rfl

/-- No code is accepted by two keys that do not overlap. -/
theorem accepts_apart {a b : KeySpec} (h : a.overlaps b = false) {vk : VirtualKey}
    (ha : a.accepts vk = true) : b.accepts vk = false := by
  rw [Bool.eq_false_iff]
  intro hb
  rw [Bool.eq_false_iff] at h
  apply h
  cases a with
  | anySide m =>
    cases b with
    | anySide m' =>
      have hboth := (of_accepts ha).symm.trans (of_accepts hb)
      rw [Option.some.inj hboth]
      exact overlaps_self _
    | key k =>
      obtain rfl : vk = k := beq_iff_eq.mp hb
      exact ha
  | key k =>
    obtain rfl : vk = k := beq_iff_eq.mp ha
    cases b with
    | anySide m' => exact hb
    | key k' => exact hb

end KeySpec

end KeySwitch.Data
