import KeySwitch.Data.KeySpec
import Mathlib.Data.List.Infix

/-!
# Bindings: key combinations, conditions, triggers

A binding is what the config gives: the keys (`BindingKind`), the condition on
the foreground window, the trigger, the action and a few flags. The engine
reads an action only as data that it clones and hands out, so the action type
`α` is a parameter here; the executor's modules fix it.

Time is counted in nanoseconds: an `Instant` since some start, a `Duration`
between two of them.
-/

namespace KeySwitch.Data

abbrev Instant := Nat
abbrev Duration := Nat

/-- `Duration::from_millis`. -/
def fromMillis (ms : Nat) : Duration := ms * 1000000

/-! ## Key combinations -/

/-- The keys of a `keys` binding or of one sequence step. -/
structure KeyCombination where
  keys : List KeySpec
  deriving Repr

namespace KeyCombination

def new (key : KeySpec) : KeyCombination := ⟨[key]⟩

/-- `with`: this combination and one more key. -/
def withKey (c : KeyCombination) (key : KeySpec) : KeyCombination :=
  if c.keys.contains key then c else ⟨c.keys ++ [key]⟩

def fromKeys (keys : List KeySpec) : KeyCombination := keys.foldl withKey ⟨[]⟩

/-- The source's own `==`: as many keys, and every key of one in the other. -/
def eq (a b : KeyCombination) : Bool :=
  a.keys.length == b.keys.length && a.keys.all fun key => b.keys.contains key

/-- The modifier families this combination names. -/
def modifiers (c : KeyCombination) : ModifierSet :=
  (c.keys.filterMap KeySpec.modifier).foldl ModifierSet.insert ModifierSet.empty

/-- Whether every key is a modifier, so that there is no payload key. -/
def isModifierOnly (c : KeyCombination) : Bool :=
  c.keys.all fun key => key.modifier.isSome

/-- A combination as its constructors build it: no key twice. -/
def Distinct (c : KeyCombination) : Prop := c.keys.Nodup

theorem new_distinct (key : KeySpec) : (new key).Distinct := List.nodup_singleton key

theorem withKey_distinct {c : KeyCombination} (h : c.Distinct) (key : KeySpec) :
    (c.withKey key).Distinct := by
  unfold withKey
  split
  · exact h
  · next hnew =>
    have habsent : key ∉ c.keys := by simpa using hnew
    exact List.nodup_append.mpr ⟨h, List.nodup_singleton key, fun a ha b hb hab => by
      rw [List.mem_singleton.mp hb] at hab
      exact habsent (hab ▸ ha)⟩

theorem fromKeys_distinct (keys : List KeySpec) : (fromKeys keys).Distinct := by
  have hfold : ∀ (keys : List KeySpec) (c : KeyCombination), c.Distinct →
      (keys.foldl withKey c).Distinct := by
    intro keys
    induction keys with
    | nil => exact fun _ h => h
    | cons key keys ih => exact fun c h => ih _ (withKey_distinct h key)
  exact hfold keys _ List.nodup_nil

theorem eq_refl (c : KeyCombination) : c.eq c = true := by
  unfold eq
  simp

/-- Equal combinations hold the same keys in some order. -/
theorem perm_of_eq {a b : KeyCombination} (ha : a.Distinct) (h : a.eq b = true) :
    a.keys.Perm b.keys := by
  unfold eq at h
  simp only [Bool.and_eq_true, beq_iff_eq, List.all_eq_true, List.contains_iff_mem] at h
  exact (List.subperm_of_subset ha h.2).perm_of_length_le (Nat.le_of_eq h.1.symm)

theorem eq_of_perm {a b : KeyCombination} (h : a.keys.Perm b.keys) : a.eq b = true := by
  unfold eq
  simp only [Bool.and_eq_true, beq_iff_eq, List.all_eq_true, List.contains_iff_mem]
  exact ⟨h.length_eq, fun key hkey => h.subset hkey⟩

/-- The same set of keys, in whatever order. -/
def sameKeySet (a b : KeyCombination) : Bool :=
  (a.keys.all fun key => b.keys.contains key) && b.keys.all fun key => a.keys.contains key

theorem sameKeySet_iff {a b : KeyCombination} :
    a.sameKeySet b = true ↔ ∀ key, key ∈ a.keys ↔ key ∈ b.keys := by
  unfold sameKeySet
  simp only [Bool.and_eq_true, List.all_eq_true, List.contains_iff_mem]
  exact ⟨fun h key => ⟨h.1 key, h.2 key⟩, fun h => ⟨fun key => (h key).mp, fun key => (h key).mpr⟩⟩

theorem sameKeySet_equivalence : Equivalence fun a b : KeyCombination => a.sameKeySet b = true where
  refl _ := sameKeySet_iff.mpr fun _ => Iff.rfl
  symm h := sameKeySet_iff.mpr fun key => (sameKeySet_iff.mp h key).symm
  trans h h' := sameKeySet_iff.mpr fun key =>
    (sameKeySet_iff.mp h key).trans (sameKeySet_iff.mp h' key)

/-- Two combinations without repeated keys are equal iff their key sets are. -/
theorem eq_iff_sameKeySet {a b : KeyCombination} (ha : a.Distinct) (hb : b.Distinct) :
    a.eq b = a.sameKeySet b := by
  rw [Bool.eq_iff_iff]
  unfold sameKeySet
  simp only [Bool.and_eq_true, List.all_eq_true, List.contains_iff_mem]
  constructor
  · intro h
    have hperm := perm_of_eq ha h
    exact ⟨fun key hkey => hperm.subset hkey, fun key hkey => hperm.symm.subset hkey⟩
  · rintro ⟨hab, hba⟩
    exact eq_of_perm ((List.perm_ext_iff_of_nodup ha hb).mpr fun key =>
      ⟨hab key, hba key⟩)

/-- What the families are does not depend on the order of the keys. -/
theorem modifiers_perm {a b : KeyCombination} (h : a.keys.Perm b.keys) :
    a.modifiers = b.modifiers := by
  unfold modifiers
  refine (h.filterMap _).foldl_eq' (fun x _ y _ s => ?_) _
  unfold ModifierSet.insert
  have hswap : s.bits ||| x.bit ||| y.bit = s.bits ||| y.bit ||| x.bit := by
    rw [BitVec.or_assoc, BitVec.or_comm x.bit, BitVec.or_assoc]
  exact congrArg ModifierSet.mk hswap

end KeyCombination

/-- `Vec<KeyCombination>`'s `==`, element by element. -/
def stepsEq : List KeyCombination → List KeyCombination → Bool
  | [], [] => true
  | a :: as, b :: bs => a.eq b && stepsEq as bs
  | _, _ => false

/-! ## Conditions -/

/-- What a condition can ask about the focused window, and the Unicode
lowercasing its comparisons use (`str::to_lowercase`, a table of the standard
library that no result here depends on). -/
structure ForegroundInfo where
  app : Option String
  title : Option String
  toLowercase : String → String

/-- A predicate on the foreground window, which gates a binding. -/
inductive Condition
  | always
  | appEquals (target : String)
  | titleContains (needle : String)
  | titleEquals (target : String)
  | not (inner : Condition)
  | and (parts : List Condition)
  | or (parts : List Condition)
  deriving Repr

/-- `str::eq_ignore_ascii_case`. -/
def eqIgnoreAsciiCase (a b : String) : Bool :=
  a.toList.map Char.toLower == b.toList.map Char.toLower

/-- Equality under the lowercasing of `TitleContains`; two ASCII strings are
compared byte by byte. -/
def equalIgnoringCase (ctx : ForegroundInfo) (a b : String) : Bool :=
  if a.toList.all (·.val < 128) && b.toList.all (·.val < 128) then eqIgnoreAsciiCase a b
  else ctx.toLowercase a == ctx.toLowercase b

namespace Condition

def isAlways : Condition → Bool
  | always => true
  | _ => false

mutual

def evaluate (ctx : ForegroundInfo) : Condition → Bool
  | always => true
  | appEquals target =>
    match ctx.app with
    | some actual => equalIgnoringCase ctx actual target
    | none => false
  | titleContains needle =>
    match ctx.title with
    | some actual => decide ((ctx.toLowercase needle).toList <:+: (ctx.toLowercase actual).toList)
    | none => false
  | titleEquals target =>
    match ctx.title with
    | some actual => equalIgnoringCase ctx actual target
    | none => false
  | not inner => !inner.evaluate ctx
  | and parts => evaluateAll ctx parts
  | or parts => evaluateAny ctx parts

/-- `parts.iter().all(..)`. -/
def evaluateAll (ctx : ForegroundInfo) : List Condition → Bool
  | [] => true
  | c :: cs => c.evaluate ctx && evaluateAll ctx cs

/-- `parts.iter().any(..)`. -/
def evaluateAny (ctx : ForegroundInfo) : List Condition → Bool
  | [] => false
  | c :: cs => c.evaluate ctx || evaluateAny ctx cs

end

mutual

/-- Structural equality, the condition as written. -/
def eq : Condition → Condition → Bool
  | always, always => true
  | appEquals a, appEquals b => a == b
  | titleContains a, titleContains b => a == b
  | titleEquals a, titleEquals b => a == b
  | not a, not b => a.eq b
  | and as, and bs => eqAll as bs
  | or as, or bs => eqAll as bs
  | _, _ => false

def eqAll : List Condition → List Condition → Bool
  | [], [] => true
  | a :: as, b :: bs => a.eq b && eqAll as bs
  | _, _ => false

end

mutual

theorem eq_iff : ∀ a b : Condition, a.eq b = true ↔ a = b
  | a, b => by cases a <;> cases b <;> simp [eq, eq_iff, eqAll_iff]

theorem eqAll_iff : ∀ as bs : List Condition, eqAll as bs = true ↔ as = bs
  | as, bs => by cases as <;> cases bs <;> simp [eqAll, eq_iff, eqAll_iff]

end

instance : DecidableEq Condition := fun a b => decidable_of_iff _ (eq_iff a b)

end Condition

/-! ## Triggers and bindings -/

/-- When a binding's action fires, given its keys were just pressed; the terms
are in milliseconds. -/
inductive Trigger
  | immediate
  | tap (ms : Nat)
  | hold (ms : Nat)
  | doubleTap (ms : Nat)
  deriving DecidableEq, Repr

def Trigger.isImmediate : Trigger → Bool
  | .immediate => true
  | _ => false

/-- Whether both are the same kind of trigger, whatever its term. -/
def Trigger.sameKind : Trigger → Trigger → Bool
  | .immediate, .immediate => true
  | .tap _, .tap _ => true
  | .hold _, .hold _ => true
  | .doubleTap _, .doubleTap _ => true
  | _, _ => false

/-- What kind of input pattern triggers a binding. -/
inductive BindingKind
  | combo (combination : KeyCombination)
  | sequence (steps : List KeyCombination) (maxGap : Duration)
  | chord (keys : List KeySpec) (window : Duration)
  deriving Repr

/-- How many keys, steps or chord keys: the specificity the list is sorted by. -/
def BindingKind.keyCount : BindingKind → Nat
  | .combo c => c.keys.length
  | .sequence steps _ => steps.length
  | .chord keys _ => keys.length

/-- Whether both kinds bind the same keys: `keys` combinations and `chord` keys
in any order, `sequence` steps in order. -/
def BindingKind.sameKeys : BindingKind → BindingKind → Bool
  | .combo a, .combo b => a.eq b
  | .sequence a _, .sequence b _ => stepsEq a b
  | .chord a _, .chord b _ => a.length == b.length && a.all fun key => b.contains key
  | _, _ => false

/-- What an auto-blocker does once Windows would see its hotkey and nothing
else: swallow the key-down, or let it through with the menu mask key. -/
inductive BlockerMode
  | swallow
  | maskOnly
  deriving DecidableEq, Repr

/-- One binding of the list the engine is given. -/
structure Binding (α : Type) where
  kind : BindingKind
  action : α
  blockDefault : Bool
  condition : Condition
  trigger : Trigger
  allowExtraModifiers : Bool
  repeats : Bool
  /-- Set only on the auto-blockers the loader adds, to their mode. -/
  autoBlocker : Option BlockerMode

namespace Binding

variable {α : Type}

def isAutoBlocker (b : Binding α) : Bool := b.autoBlocker.isSome

/-- The keys of a `keys` binding. -/
def combination (b : Binding α) : Option KeyCombination :=
  match b.kind with
  | .combo c => some c
  | _ => none

theorem combination_eq_some {b : Binding α} {combo : KeyCombination} :
    b.combination = some combo ↔ b.kind = .combo combo := by
  unfold combination
  cases b.kind <;> simp

/-- Whether this binding repeats `earlier`; the action and the other flags do not
count. -/
def duplicates (b earlier : Binding α) : Bool :=
  !b.isAutoBlocker && !earlier.isAutoBlocker && b.kind.sameKeys earlier.kind
    && b.trigger.sameKind earlier.trigger && decide (b.condition = earlier.condition)
    && b.allowExtraModifiers == earlier.allowExtraModifiers

end Binding

end KeySwitch.Data
