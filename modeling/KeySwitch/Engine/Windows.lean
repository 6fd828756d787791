import KeySwitch.Engine.KeyEffects
import KeySwitch.Lib.Machine

/-!
# The engine between the keyboard and Windows

A `World` is the engine with the two other views of every key: what Windows has
down, and what the user holds. A physical event of a key either reaches the
engine, which decides whether it reaches Windows, or is hidden from the hook,
and Windows applies it by itself. Between two events the daemon resets the
engine, reads the modifiers, hands back timers or hears of a foreground change.

The engine asks Windows for a key's state with `osKeyDown`; a generic code
answers for either side. Each result fixes which moves its runs may contain and
takes the machine of those moves (`machine`).
-/

namespace KeySwitch.Engine

open Data Lib

variable {α : Type}

/-- The generic codes, which only injected events carry. -/
def GENERIC_MODIFIERS : List VirtualKey := [VK_SHIFT, VK_CONTROL, VK_MENU]

/-- The keys the results speak about: one table entry each, no generic code. -/
def Physical (vk : VirtualKey) : Prop := vk < 256 ∧ vk ∉ GENERIC_MODIFIERS

/-- A physical event of a key. -/
inductive KeyMove
  | press
  | autoRepeat
  | release
  deriving DecidableEq, Repr

def KeyMove.direction : KeyMove → KeyDirection
  | press | autoRepeat => .down
  | release => .up

/-- What the world answers at one moment, its key state apart. -/
structure Scene where
  now : Instant
  foreground : ForegroundInfo

/-- Something that happens around the engine. -/
inductive Move (α : Type)
  /-- An event that reaches the engine, with the binding list in use. -/
  | key (move : KeyMove) (vk : VirtualKey) (bindings : List (Binding α)) (scene : Scene)
  /-- An event that goes past the hook. -/
  | hidden (move : KeyMove) (vk : VirtualKey)
  | reset (reason : ResetReason) (scene : Scene)
  | foregroundChanged
  | resyncIfDue (notes : Nat) (scene : Scene)
  | inputReturned
  | timer (token : TimerToken)
  | forget (token : TimerToken)

/-- The engine, Windows' key state and the keys the user holds. -/
structure World (α : Type) where
  engine : Engine α
  windows : VirtualKey → Bool
  held : VirtualKey → Bool

namespace World

/-- A new engine with every key up. -/
def new : World α := ⟨.new, fun _ => false, fun _ => false⟩

/-- `os_key_down`: a generic code asks for either key of its pair. -/
def osKeyDown (w : World α) (vk : VirtualKey) : Bool :=
  match vk with
  | VK_SHIFT => w.windows VK_LSHIFT || w.windows VK_RSHIFT
  | VK_CONTROL => w.windows VK_LCONTROL || w.windows VK_RCONTROL
  | VK_MENU => w.windows VK_LMENU || w.windows VK_RMENU
  | vk => w.windows vk

def env (w : World α) (scene : Scene) : Env := ⟨scene.now, w.osKeyDown, scene.foreground⟩

/-- A physical event of `vk`, which Windows gets if `reaches`. -/
def apply (w : World α) (move : KeyMove) (vk : VirtualKey) (reaches : Bool) : World α :=
  { w with
    windows := fun v => if v = vk ∧ reaches = true then move != .release else w.windows v
    held := fun v => if v = vk then move != .release else w.held v }

/-- One move, and the decision if the engine made one. -/
def step (w : World α) : Move α → World α × Option (Decision α)
  | .key move vk bindings scene =>
    let decided := w.engine.onKey ⟨vk, move.direction⟩ bindings (w.env scene)
    ({ w with engine := decided.1 }.apply move vk (!decided.2.suppress), some decided.2)
  | .hidden move vk => (w.apply move vk true, none)
  | .reset reason scene => ({ w with engine := w.engine.reset (w.env scene) reason }, none)
  | .foregroundChanged => ({ w with engine := w.engine.onForegroundChanged }, none)
  | .resyncIfDue notes scene =>
    ({ w with engine := (w.engine.resyncIfDue (w.env scene) notes).1 }, none)
  | .inputReturned => ({ w with engine := w.engine.inputReturned }, none)
  | .timer token => ({ w with engine := (w.engine.onTimer token).1 }, none)
  | .forget token => ({ w with engine := (w.engine.forgetTimer token).1 }, none)

/-- The key events of one key alternate: a press of a key that is up, repeats
and a release of a key that is held. -/
def Alternates (w : World α) (move : KeyMove) (vk : VirtualKey) : Prop :=
  w.held vk = (move != .press)

end World

/-- The world under the moves that `allowed` admits; the events of each key
alternate, whether or not the engine sees them. -/
def machine (allowed : Move α → Prop) : Machine (World α) (Move α) (Option (Decision α)) where
  step := World.step
  enabled w move := allowed move ∧
    match move with
    | .key m vk _ _ | .hidden m vk => w.Alternates m vk
    | _ => True

/-- An event of `vk` that the engine decides. -/
def Move.IsKey (move : KeyMove) (vk : VirtualKey) : Move α → Prop
  | .key m v _ _ => m = move ∧ v = vk
  | _ => False

/-- What the engine decided at a moment, if it decided a key event. -/
def suppressed (x : Moment (World α) (Move α) (Option (Decision α))) : Option Bool :=
  x.output.map Decision.suppress

/-! ## Equations -/

namespace World

theorem osKeyDown_physical (w : World α) {vk : VirtualKey} (h : vk ∉ GENERIC_MODIFIERS) :
    w.osKeyDown vk = w.windows vk := by
  unfold osKeyDown
  split
  · exact absurd (by decide) h
  · exact absurd (by decide) h
  · exact absurd (by decide) h
  · rfl

@[simp] theorem env_osKeyDown (w : World α) (scene : Scene) :
    (w.env scene).osKeyDown = w.osKeyDown := rfl

@[simp] theorem apply_engine (w : World α) (move : KeyMove) (vk : VirtualKey) (reaches : Bool) :
    (w.apply move vk reaches).engine = w.engine := rfl

theorem apply_held_ne (w : World α) (move : KeyMove) {vk v : VirtualKey} (reaches : Bool)
    (h : v ≠ vk) : (w.apply move vk reaches).held v = w.held v := if_neg h

theorem apply_held (w : World α) (move : KeyMove) (vk : VirtualKey) (reaches : Bool) :
    (w.apply move vk reaches).held vk = (move != .release) := if_pos rfl

theorem apply_windows_ne (w : World α) (move : KeyMove) {vk v : VirtualKey} (reaches : Bool)
    (h : v ≠ vk) : (w.apply move vk reaches).windows v = w.windows v :=
  if_neg fun hv => h hv.1

theorem apply_windows (w : World α) (move : KeyMove) (vk : VirtualKey) (reaches : Bool) :
    (w.apply move vk reaches).windows vk =
      bif reaches then move != .release else w.windows vk := by
  cases reaches <;> simp [apply]

end World

end KeySwitch.Engine
