import KeySwitch.Data.Binding
import KeySwitch.Engine.Modifiers

/-!
# Per-key state: held keys and what became of their key-downs

`KeyState` keeps two 256-entry tables: which keys the engine believes are held
(also the auto-repeat detector), and whether each key's latest key-down was
suppressed or passed, which its auto-repeats and its key-up follow. A table is
a function of the code here; a code from 256 on is neither read nor written,
which `slot` decides as in the source.

Each operation has its equations below, one table at a time, so that no later
proof unfolds one. The two loops over modifiers (`resyncModifiers`,
`clearReleasedModifiers`) and the rebuild from Windows (`resyncFromOs`) have a
lemma that says everything they can do to one entry.
-/

namespace KeySwitch.Engine

open Data

/-! ## What the engine is given -/

inductive KeyDirection
  | down
  | up
  deriving DecidableEq, Repr

/-- One keyboard event: the code the hook reported and its direction. -/
structure KeyEvent where
  vk : VirtualKey
  direction : KeyDirection
  deriving DecidableEq, Repr

/-- Everything the engine asks of the world for the event it decides. -/
structure Env where
  now : Instant
  osKeyDown : VirtualKey → Bool
  foreground : ForegroundInfo

/-! ## The tables -/

/-- What became of a key's latest key-down, as far as the engine knows. -/
inductive LastDown
  /-- Nothing on record. -/
  | unknown
  /-- The key-down reached Windows. -/
  | passed
  /-- The key-down was suppressed. -/
  | suppressed
  /-- The engine never saw the key-down, and it suppressed an auto-repeat. -/
  | repeatSuppressed
  deriving DecidableEq, Repr

/-- The mouse buttons have codes too, but the keyboard hook never sees them. -/
def MOUSE_BUTTONS : List VirtualKey :=
  [VK_LBUTTON, VK_RBUTTON, VK_MBUTTON, VK_XBUTTON1, VK_XBUTTON2]

/-- Index into the 256-entry tables, or `none` for a code outside them. -/
def slot (vk : VirtualKey) : Option Nat :=
  if vk < 256 then some vk else none

theorem slot_lt {vk : VirtualKey} (h : vk < 256) : slot vk = some vk := if_pos h

theorem slot_ge {vk : VirtualKey} (h : ¬vk < 256) : slot vk = none := if_neg h

/-- Held and suppressed keys, one entry per code. -/
structure KeyState where
  active : VirtualKey → Bool
  lastDown : VirtualKey → LastDown

namespace KeyState

def new : KeyState := ⟨fun _ => false, fun _ => .unknown⟩

def setActive (ks : KeyState) (index : Nat) (held : Bool) : KeyState :=
  { ks with active := fun i => if i = index then held else ks.active i }

def setLastDown (ks : KeyState) (index : Nat) (record : LastDown) : KeyState :=
  { ks with lastDown := fun i => if i = index then record else ks.lastDown i }

@[simp] theorem setActive_active (ks : KeyState) (index : Nat) (held : Bool) (i : Nat) :
    (ks.setActive index held).active i = if i = index then held else ks.active i := rfl

@[simp] theorem setActive_lastDown (ks : KeyState) (index : Nat) (held : Bool) :
    (ks.setActive index held).lastDown = ks.lastDown := rfl

@[simp] theorem setLastDown_active (ks : KeyState) (index : Nat) (record : LastDown) :
    (ks.setLastDown index record).active = ks.active := rfl

@[simp] theorem setLastDown_lastDown (ks : KeyState) (index : Nat) (record : LastDown) (i : Nat) :
    (ks.setLastDown index record).lastDown i = if i = index then record else ks.lastDown i := rfl

/-! ## Reads -/

/-- Whether the latest key-down at `index` was suppressed. -/
def keyDownSwallowed (ks : KeyState) (index : Nat) : Bool :=
  ks.lastDown index == .suppressed

/-- Whether the key-down of `vk` is on record as suppressed. -/
def isBlocked (ks : KeyState) (vk : VirtualKey) : Bool :=
  (slot vk).any ks.keyDownSwallowed

/-- Whether the key-down of `vk` is on record as passed. -/
def isPassed (ks : KeyState) (vk : VirtualKey) : Bool :=
  (slot vk).any fun index => ks.lastDown index == .passed

/-- Whether the engine believes the key with this exact code is held. -/
def isActive (ks : KeyState) (vk : VirtualKey) : Bool :=
  (slot vk).any ks.active

/-- Whether Windows has an Alt or Win key down: one is held and its key-down
was not swallowed. -/
def altOrWinDownInWindows (ks : KeyState) : Bool :=
  ModifierSet.menu.codes.any fun key => ks.active key && !ks.keyDownSwallowed key

/-- Whether a key that `key` accepts is held. -/
def isDown (ks : KeyState) : KeySpec → Bool
  | .key vk => ks.isActive vk
  | .anySide m => ks.isActive m.left || ks.isActive m.right || m.generic.any ks.isActive

/-- Whether `accept` holds for the code of every key held. -/
def allHeld (ks : KeyState) (accept : VirtualKey → Bool) : Bool :=
  ((List.range 256).filter ks.active).all accept

/-- The modifier families held. -/
def modifiers (ks : KeyState) : Data.ModifierSet :=
  (Modifier.all.filter fun m => ks.isDown (.anySide m)).foldl
    Data.ModifierSet.insert Data.ModifierSet.empty

theorem isBlocked_lt (ks : KeyState) {vk : VirtualKey} (h : vk < 256) :
    ks.isBlocked vk = (ks.lastDown vk == .suppressed) := by
  simp [isBlocked, slot_lt h, keyDownSwallowed]

theorem isPassed_lt (ks : KeyState) {vk : VirtualKey} (h : vk < 256) :
    ks.isPassed vk = (ks.lastDown vk == .passed) := by
  simp [isPassed, slot_lt h]

theorem isActive_lt (ks : KeyState) {vk : VirtualKey} (h : vk < 256) :
    ks.isActive vk = ks.active vk := by
  simp [isActive, slot_lt h]

theorem isActive_ge (ks : KeyState) {vk : VirtualKey} (h : ¬vk < 256) :
    ks.isActive vk = false := by
  simp [isActive, slot_ge h]

/-! ## Key events and records -/

/-- Records a key-down; also whether the key was already held, which makes the
event an auto-repeat. -/
def press (ks : KeyState) (vk : VirtualKey) : Bool × KeyState :=
  match slot vk with
  | some index => (ks.active index, ks.setActive index true)
  | none => (false, ks)

/-- Records a key-up. -/
def release (ks : KeyState) (vk : VirtualKey) : KeyState :=
  match slot vk with
  | some index => ks.setActive index false
  | none => ks

/-- The key-down of `vk` was suppressed. -/
def markBlocked (ks : KeyState) (vk : VirtualKey) : KeyState :=
  match slot vk with
  | some index => ks.setLastDown index .suppressed
  | none => ks

/-- An auto-repeat of `vk`, whose key-down the engine never saw, was
suppressed. -/
def markRepeatSuppressed (ks : KeyState) (vk : VirtualKey) : KeyState :=
  match slot vk with
  | some index => ks.setLastDown index .repeatSuppressed
  | none => ks

/-- A completed chord or sequence swallows the key-up of `vk`, if the key is
held and its key-down did not reach Windows. -/
def markCompleted (ks : KeyState) (vk : VirtualKey) : KeyState :=
  match slot vk with
  | some index =>
    if ks.active index && ks.lastDown index != .passed then ks.setLastDown index .suppressed
    else ks
  | none => ks

/-- The key-down of `vk` reached Windows. -/
def markPassed (ks : KeyState) (vk : VirtualKey) : KeyState :=
  match slot vk with
  | some index => ks.setLastDown index .passed
  | none => ks

/-- Forgets the key-down of `vk`; also whether it, or an auto-repeat of a press
the engine never saw, was suppressed. -/
def takeBlocked (ks : KeyState) (vk : VirtualKey) : Bool × KeyState :=
  match slot vk with
  | some index =>
    (ks.lastDown index == .suppressed || ks.lastDown index == .repeatSuppressed,
      ks.setLastDown index .unknown)
  | none => (false, ks)

theorem press_lt (ks : KeyState) {vk : VirtualKey} (h : vk < 256) :
    ks.press vk = (ks.active vk, ks.setActive vk true) := by
  simp [press, slot_lt h]

theorem press_ge (ks : KeyState) {vk : VirtualKey} (h : ¬vk < 256) :
    ks.press vk = (false, ks) := by
  simp [press, slot_ge h]

@[simp] theorem press_lastDown (ks : KeyState) (vk : VirtualKey) :
    (ks.press vk).2.lastDown = ks.lastDown := by
  unfold press; split <;> rfl

theorem press_active_ne (ks : KeyState) {vk v : VirtualKey} (h : v ≠ vk) :
    (ks.press vk).2.active v = ks.active v := by
  unfold press slot; split <;> simp_all

@[simp] theorem release_lastDown (ks : KeyState) (vk : VirtualKey) :
    (ks.release vk).lastDown = ks.lastDown := by
  unfold release; split <;> rfl

theorem release_active_lt (ks : KeyState) {vk : VirtualKey} (h : vk < 256) (v : VirtualKey) :
    (ks.release vk).active v = if v = vk then false else ks.active v := by
  simp [release, slot_lt h]

theorem release_active_ne (ks : KeyState) {vk v : VirtualKey} (h : v ≠ vk) :
    (ks.release vk).active v = ks.active v := by
  unfold release slot; split <;> simp_all

@[simp] theorem markCompleted_active (ks : KeyState) (vk : VirtualKey) :
    (ks.markCompleted vk).active = ks.active := by
  unfold markCompleted; split
  · split <;> rfl
  · rfl

/-- What a completion mark can do to one record: nothing, or suppress the
record of a held key whose key-down did not pass. -/
theorem markCompleted_lastDown (ks : KeyState) (vk v : VirtualKey) :
    (ks.markCompleted vk).lastDown v = ks.lastDown v ∨
      (ks.active v = true ∧ ks.lastDown v ≠ .passed ∧
        (ks.markCompleted vk).lastDown v = .suppressed) := by
  unfold markCompleted
  split
  · next index _ =>
    split
    · next h =>
      simp only [Bool.and_eq_true, bne_iff_ne, ne_eq] at h
      by_cases hv : v = index
      · subst hv
        exact Or.inr ⟨h.1, h.2, by simp⟩
      · exact Or.inl (by simp [hv])
    · exact Or.inl rfl
  · exact Or.inl rfl

/-- The record a key-down leaves: one entry changes, if the code has one. -/
theorem mark_lt (ks : KeyState) {vk : VirtualKey} (h : vk < 256) :
    ks.markBlocked vk = ks.setLastDown vk .suppressed ∧
      ks.markRepeatSuppressed vk = ks.setLastDown vk .repeatSuppressed ∧
      ks.markPassed vk = ks.setLastDown vk .passed := by
  simp [markBlocked, markRepeatSuppressed, markPassed, slot_lt h]

theorem mark_ge (ks : KeyState) {vk : VirtualKey} (h : ¬vk < 256) :
    ks.markBlocked vk = ks ∧ ks.markRepeatSuppressed vk = ks ∧ ks.markPassed vk = ks := by
  simp [markBlocked, markRepeatSuppressed, markPassed, slot_ge h]

theorem takeBlocked_lt (ks : KeyState) {vk : VirtualKey} (h : vk < 256) :
    ks.takeBlocked vk =
      (ks.lastDown vk == .suppressed || ks.lastDown vk == .repeatSuppressed,
        ks.setLastDown vk .unknown) := by
  simp [takeBlocked, slot_lt h]

theorem takeBlocked_ge (ks : KeyState) {vk : VirtualKey} (h : ¬vk < 256) :
    ks.takeBlocked vk = (false, ks) := by
  simp [takeBlocked, slot_ge h]

/-! ## Reads of the Windows key state -/

/-- One code of `resyncModifiers`: a sided code takes the Windows state, a
generic one is only ever dropped. -/
def resyncModifier (env : Env) (ks : KeyState) (modifier : VirtualKey) : KeyState :=
  if ks.keyDownSwallowed modifier then ks
  else if ModifierSet.sided.contains modifier then ks.setActive modifier (env.osKeyDown modifier)
  else if ks.active modifier && !env.osKeyDown modifier then ks.setActive modifier false
  else ks

/-- The main thread's read of the modifiers of `which`, between key events. A
modifier whose key-down was suppressed is left alone. -/
def resyncModifiers (ks : KeyState) (env : Env) (which : ModifierSet) : KeyState :=
  which.codes.foldl (resyncModifier env) ks

/-- One code of `clearReleasedModifiers`. -/
def clearReleasedModifier (env : Env) (own : VirtualKey) (ks : KeyState)
    (modifier : VirtualKey) : KeyState :=
  if ks.active modifier && modifier != own && !ks.keyDownSwallowed modifier
      && !env.osKeyDown modifier then
    ks.setActive modifier false
  else ks

/-- The check of a decided key event of `own`: every other code of `among` that
the engine holds and did not swallow is dropped if Windows has it up. -/
def clearReleasedModifiers (ks : KeyState) (env : Env) (own : VirtualKey)
    (among : ModifierSet) : KeyState :=
  among.codes.foldl (clearReleasedModifier env own) ks

/-- Follows one of the daemon's own injected key events: a modifier's flag takes
its direction, unless its key-down was swallowed. -/
def trackInjected (ks : KeyState) (event : KeyEvent) : KeyState :=
  if !ModifierSet.all.contains event.vk then ks
  else if ks.keyDownSwallowed event.vk then ks
  else ks.setActive event.vk (event.direction == .down)

/-- Whether the rebuild from Windows takes `code` as held. -/
def osHeld (env : Env) (code : VirtualKey) : Bool :=
  (1 ≤ code && code ≤ 254) && !MOUSE_BUTTONS.contains code
    && !(ModifierSet.all.without ModifierSet.sided).contains code && env.osKeyDown code

/-- Rebuilds the tables from the Windows key state: a keyboard code held there
is held and on record as passed; any other is up, and keeps its record only if
it was a swallowed key-down's or auto-repeat's. The loop writes each of the 256
codes once. -/
def resyncFromOs (ks : KeyState) (env : Env) : KeyState where
  active code := if code < 256 then osHeld env code else ks.active code
  lastDown code :=
    if code < 256 then
      if osHeld env code then .passed
      else if ks.lastDown code == .suppressed || ks.lastDown code == .repeatSuppressed then
        ks.lastDown code
      else .unknown
    else ks.lastDown code

/-- Releases every key and keeps every record. -/
def releaseAll (ks : KeyState) : KeyState := { ks with active := fun _ => false }

@[simp] theorem resyncModifier_lastDown (env : Env) (ks : KeyState) (modifier : VirtualKey) :
    (resyncModifier env ks modifier).lastDown = ks.lastDown := by
  unfold resyncModifier
  split
  · rfl
  · split
    · rfl
    · split <;> rfl

@[simp] theorem clearReleasedModifier_lastDown (env : Env) (own : VirtualKey) (ks : KeyState)
    (modifier : VirtualKey) :
    (clearReleasedModifier env own ks modifier).lastDown = ks.lastDown := by
  unfold clearReleasedModifier; split <;> rfl

@[simp] theorem trackInjected_lastDown (ks : KeyState) (event : KeyEvent) :
    (ks.trackInjected event).lastDown = ks.lastDown := by
  unfold trackInjected
  split
  · rfl
  · split <;> rfl

@[simp] theorem resyncModifiers_lastDown (ks : KeyState) (env : Env) (which : ModifierSet) :
    (ks.resyncModifiers env which).lastDown = ks.lastDown := by
  unfold resyncModifiers
  induction which.codes generalizing ks with
  | nil => rfl
  | cons m ms ih => rw [List.foldl_cons, ih, resyncModifier_lastDown]

@[simp] theorem clearReleasedModifiers_lastDown (ks : KeyState) (env : Env) (own : VirtualKey)
    (among : ModifierSet) :
    (ks.clearReleasedModifiers env own among).lastDown = ks.lastDown := by
  unfold clearReleasedModifiers
  induction among.codes generalizing ks with
  | nil => rfl
  | cons m ms ih => rw [List.foldl_cons, ih, clearReleasedModifier_lastDown]

theorem resyncModifier_active (env : Env) (ks : KeyState) (modifier v : VirtualKey) :
    (resyncModifier env ks modifier).active v = ks.active v ∨
      (ks.lastDown v ≠ .suppressed ∧ (resyncModifier env ks modifier).active v = env.osKeyDown v ∧
        (ModifierSet.sided.contains v = false →
          (resyncModifier env ks modifier).active v = false)) := by
  unfold resyncModifier keyDownSwallowed
  by_cases hv : v = modifier
  · subst hv
    split
    · exact Or.inl rfl
    · next hs =>
      split
      · next hside => exact Or.inr ⟨by simpa using hs, by simp, by simp [hside]⟩
      · split
        · next h =>
          simp only [Bool.and_eq_true, Bool.not_eq_true'] at h
          exact Or.inr ⟨by simpa using hs, by simp [h.2], by simp⟩
        · exact Or.inl rfl
  · left
    split
    · rfl
    · split
      · simp [hv]
      · split
        · simp [hv]
        · rfl

/-- What the main thread's read can do to one flag: nothing, or, for a key
whose key-down was not swallowed, take the Windows state, and a code that is no
sided one is then up. -/
theorem resyncModifiers_active (ks : KeyState) (env : Env) (which : ModifierSet)
    (v : VirtualKey) :
    (ks.resyncModifiers env which).active v = ks.active v ∨
      (ks.lastDown v ≠ .suppressed ∧
        (ks.resyncModifiers env which).active v = env.osKeyDown v ∧
        (ModifierSet.sided.contains v = false →
          (ks.resyncModifiers env which).active v = false)) := by
  unfold resyncModifiers
  induction which.codes generalizing ks with
  | nil => exact Or.inl rfl
  | cons m ms ih =>
    rw [List.foldl_cons]
    have hstep := resyncModifier_active env ks m v
    rcases ih (resyncModifier env ks m) with h | h
    · rw [h]
      exact hstep
    · rw [resyncModifier_lastDown] at h
      exact Or.inr h

theorem clearReleasedModifier_active (env : Env) (own : VirtualKey) (ks : KeyState)
    (modifier v : VirtualKey) :
    (clearReleasedModifier env own ks modifier).active v =
      (ks.active v && !(v == modifier && v != own && ks.lastDown v != .suppressed
        && !env.osKeyDown v)) := by
  unfold clearReleasedModifier keyDownSwallowed
  by_cases hv : v = modifier
  · subst hv
    cases ha : ks.active v <;> cases ho : env.osKeyDown v <;>
      cases hn : (v != own) <;> cases hs : (ks.lastDown v == .suppressed) <;>
      simp_all
  · split <;> simp [hv]

/-- The check drops exactly the flags of the codes of `among` but `own` whose
key-down was not swallowed and which Windows has up. -/
theorem clearReleasedModifiers_active (ks : KeyState) (env : Env) (own : VirtualKey)
    (among : ModifierSet) (v : VirtualKey) :
    (ks.clearReleasedModifiers env own among).active v =
      (ks.active v && !(among.codes.contains v && v != own && ks.lastDown v != .suppressed
        && !env.osKeyDown v)) := by
  unfold clearReleasedModifiers
  induction among.codes generalizing ks with
  | nil => simp
  | cons m ms ih =>
    rw [List.foldl_cons, ih, clearReleasedModifier_active, clearReleasedModifier_lastDown,
      List.contains_cons]
    cases ks.active v <;> cases (v == m) <;> cases (ms.contains v) <;> simp

end KeyState

end KeySwitch.Engine
