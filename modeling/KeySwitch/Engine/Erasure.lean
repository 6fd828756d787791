import KeySwitch.Engine.Ops
import Mathlib.Tactic.SplitIfs

/-!
# The engine never looks at an action

An action goes from its binding into a table and from there to a decision, and
nothing compares or reads it on the way. So a function of actions can be applied
before a call or after it (`step_map`).

With that an action can carry a mark of the binding it came from: the run with
the marks is the run without them, once they are erased.
-/

namespace KeySwitch

open Data Lib

variable {α β : Type} (f : α → β)

def Data.Binding.map (b : Binding α) : Binding β :=
  ⟨b.kind, f b.action, b.blockDefault, b.condition, b.trigger, b.allowExtraModifiers, b.repeats,
    b.autoBlocker⟩

namespace Data.Binding

variable (b : Binding α)

@[simp] theorem map_kind : (b.map f).kind = b.kind := rfl

@[simp] theorem map_action : (b.map f).action = f b.action := rfl

@[simp] theorem map_blockDefault : (b.map f).blockDefault = b.blockDefault := rfl

@[simp] theorem map_condition : (b.map f).condition = b.condition := rfl

@[simp] theorem map_trigger : (b.map f).trigger = b.trigger := rfl

@[simp] theorem map_allowExtraModifiers :
    (b.map f).allowExtraModifiers = b.allowExtraModifiers := rfl

@[simp] theorem map_repeats : (b.map f).repeats = b.repeats := rfl

@[simp] theorem map_autoBlocker : (b.map f).autoBlocker = b.autoBlocker := rfl

@[simp] theorem map_isAutoBlocker : (b.map f).isAutoBlocker = b.isAutoBlocker := rfl

@[simp] theorem map_combination : (b.map f).combination = b.combination := rfl

end Data.Binding

namespace Engine

/-! ## The tables -/

/-- A gesture's deadline or term, with its action. -/
def mapEntry {τ : Type} : Option (τ × α) → Option (τ × β) := Option.map (Prod.map id f)

/-- A DoubleTap's window with its action and its group. -/
def mapDouble : Option (Instant × α × GroupKey) → Option (Instant × β × GroupKey) :=
  Option.map (Prod.map id (Prod.map f id))

def Winner.map (w : Winner α) : Winner β := ⟨w.index, w.binding.map f⟩

def GroupArming.map (g : GroupArming α) : GroupArming β :=
  ⟨g.keys, g.condition, mapEntry f g.tap, mapEntry f g.hold, mapEntry f g.doubleTap, g.block⟩

def Phase.map : Phase α → Phase β
  | .held tap hold double => .held (mapEntry f tap) (mapEntry f hold) (mapDouble f double)
  | .awaitSecond due double group tap passed => .awaitSecond due (f double) group (tap.map f) passed

def Press.map (p : Press α) : Press β := ⟨p.vk, p.seq, p.phase.map f⟩

def DueHold.map (h : DueHold α) : DueHold β := ⟨h.vk, h.seq, h.due, f h.action⟩

def Released.map (r : Released α) : Released β := ⟨r.fired.map f, r.gestureBound, r.windowDue⟩

def Gestures.map (g : Gestures α) : Gestures β :=
  ⟨g.presses.map (Press.map f), g.dueHolds.map (DueHold.map f)⟩

def PendingChord.map (p : PendingChord α) : PendingChord β :=
  ⟨p.chordKeys, p.seen, f p.action, p.expiresAt, p.seq⟩

def Chords.map (c : Chords α) : Chords β := ⟨c.pending.map (PendingChord.map f)⟩

def ChordOutcome.map : ChordOutcome α → ChordOutcome β
  | .notInChord => .notInChord
  | .pending => .pending
  | .started due => .started due
  | .completed action keys => .completed (f action) keys

def PendingSequence.map (p : PendingSequence α) : PendingSequence β :=
  ⟨p.steps, p.nextStep, f p.action, p.expiresAt, p.seq⟩

def Sequences.map (s : Sequences α) : Sequences β := ⟨s.pending.map (PendingSequence.map f)⟩

def SequenceOutcome.map : SequenceOutcome α → SequenceOutcome β
  | .notMatching => .notMatching
  | .advanced due => .advanced due
  | .completed action keys => .completed (f action) keys

def Decision.map (d : Decision α) : Decision β := ⟨d.suppress, d.fire.map f, d.timers, d.mask⟩

def KeyDown.map (k : KeyDown α) : KeyDown β :=
  ⟨k.vk, k.env, k.wasRepeat, k.winner.map (Winner.map f)⟩

def map (e : Engine α) : Engine β :=
  ⟨e.keys, e.gestures.map f, e.chords.map f, e.sequences.map f, e.maskOwed, e.ids, e.resync⟩

def Op.map : Op α → Op β
  | .key event bindings env => .key event (bindings.map (Binding.map f)) env
  | .timer token => .timer token
  | .forget token => .forget token
  | .reset env reason => .reset env reason
  | .foregroundChanged => .foregroundChanged
  | .resyncIfDue env notes => .resyncIfDue env notes
  | .inputReturned => .inputReturned
  | .trackInjected event => .trackInjected event

@[simp] theorem Winner.map_binding (w : Winner α) : (w.map f).binding = w.binding.map f := rfl

@[simp] theorem Winner.map_index (w : Winner α) : (w.map f).index = w.index := rfl

@[simp] theorem Phase.isHeld_map (p : Phase α) : (p.map f).isHeld = p.isHeld := by
  cases p <;> rfl

@[simp] theorem Phase.deferredTap_map (p : Phase α) :
    (p.map f).deferredTap = p.deferredTap.map f := by
  cases p <;> rfl

@[simp] theorem Phase.closedBy_map (p : Phase α) (now : Instant) :
    (p.map f).closedBy now = p.closedBy now := by
  cases p with
  | held tap hold double => rfl
  | awaitSecond due double group tap passed => cases tap <;> rfl

@[simp] theorem Phase.timerDue_map (p : Phase α) : (p.map f).timerDue = p.timerDue := by
  cases p with
  | held tap hold double => cases hold <;> rfl
  | awaitSecond due double group tap passed => cases tap <;> rfl

@[simp] theorem Phase.intoTimerAction_map (p : Phase α) :
    (p.map f).intoTimerAction = p.intoTimerAction.map f := by
  cases p with
  | held tap hold double => cases hold <;> rfl
  | awaitSecond due double group tap passed => cases tap <;> rfl

/-! ## The election -/

theorem electStep_map (vk : VirtualKey) (held : KeyState) (foreground : ForegroundInfo)
    (winner : Option (Winner α)) (entry : Binding α × Nat) :
    electStep vk held foreground (winner.map (Winner.map f)) (entry.1.map f, entry.2) =
      (electStep vk held foreground winner entry).map (Winner.map f) := by
  have hrank : (winner.map (Winner.map f)).any
      (fun w => rankGe (rank w.binding) (rank (entry.1.map f))) =
      winner.any fun w => rankGe (rank w.binding) (rank entry.1) := by
    cases winner <;> rfl
  unfold electStep
  simp only [hrank, Binding.map_kind, Binding.map_isAutoBlocker, Binding.map_condition,
    Binding.map_allowExtraModifiers]
  split
  · next combo _ =>
    by_cases hblocker : entry.1.isAutoBlocker = true
    · simp [hblocker]
    by_cases hrank' : winner.any (fun w => rankGe (rank w.binding) (rank entry.1)) = true
    · simp [hrank']
    by_cases hmatch : comboMatches combo vk held entry.1.allowExtraModifiers = true
    · by_cases hcondition : entry.1.condition.evaluate foreground = true
      · simp [hblocker, hrank', hmatch, hcondition, Winner.map]
      · simp [hcondition]
    · simp [hmatch]
  · rfl

theorem zipIdx_map (bindings : List (Binding α)) :
    (bindings.map (Binding.map f)).zipIdx =
      bindings.zipIdx.map fun entry => (entry.1.map f, entry.2) := by
  rw [List.zipIdx_map]
  rfl

theorem elect_map (vk : VirtualKey) (bindings : List (Binding α)) (held : KeyState)
    (foreground : ForegroundInfo) :
    elect vk (bindings.map (Binding.map f)) held foreground =
      (elect vk bindings held foreground).map (Winner.map f) := by
  have hfold : ∀ (entries : List (Binding α × Nat)) (winner : Option (Winner α)),
      (entries.map fun entry => (entry.1.map f, entry.2)).foldl (electStep vk held foreground)
        (winner.map (Winner.map f)) =
      (entries.foldl (electStep vk held foreground) winner).map (Winner.map f) := by
    intro entries
    induction entries with
    | nil => exact fun _ => rfl
    | cons entry entries ih =>
      intro winner
      rw [List.map_cons, List.foldl_cons, List.foldl_cons, electStep_map, ih]
  unfold elect
  rw [zipIdx_map]
  exact hfold _ none

theorem join_map (group : GroupArming α) (member : Binding α) :
    (group.map f).join (member.map f) = (group.join member).map f := by
  unfold GroupArming.join
  rw [Binding.map_trigger]
  split <;> rfl

theorem admits_map (w : Winner α) (index : Nat) (binding : Binding α) (vk : VirtualKey)
    (held : KeyState) :
    (w.map f).admits index (binding.map f) vk held = w.admits index binding vk held := rfl

theorem groupStep_map (w : Winner α) (vk : VirtualKey) (held : KeyState)
    (acc : GroupArms × GroupArming α) (entry : Binding α × Nat) :
    (w.map f).groupStep vk held (acc.1, acc.2.map f) (entry.1.map f, entry.2) =
      ((w.groupStep vk held acc entry).1, (w.groupStep vk held acc entry).2.map f) := by
  unfold Winner.groupStep
  simp only [admits_map, Binding.map_isAutoBlocker, Binding.map_trigger, join_map]
  split_ifs <;> rfl

theorem deferredGroup_map (w : Winner α) (vk : VirtualKey) (bindings : List (Binding α))
    (held : KeyState) :
    (w.map f).deferredGroup vk (bindings.map (Binding.map f)) held =
      (w.deferredGroup vk bindings held).map (GroupArming.map f) := by
  have hfold : ∀ (entries : List (Binding α × Nat)) (acc : GroupArms × GroupArming α),
      (entries.map fun entry => (entry.1.map f, entry.2)).foldl ((w.map f).groupStep vk held)
        (acc.1, acc.2.map f) =
      ((entries.foldl (w.groupStep vk held) acc).1,
        (entries.foldl (w.groupStep vk held) acc).2.map f) := by
    intro entries
    induction entries with
    | nil => exact fun _ => rfl
    | cons entry entries ih =>
      intro acc
      rw [List.map_cons, List.foldl_cons, List.foldl_cons, groupStep_map]
      exact ih _
  unfold Winner.deferredGroup
  simp only [Winner.map_binding, Winner.map_index, Binding.map_trigger, Binding.map_combination,
    Binding.map_condition, zipIdx_map, ← List.map_drop]
  split_ifs
  · rfl
  · cases w.binding.combination with
    | none => rfl
    | some keys =>
      exact congrArg (some ∘ Prod.snd)
        (hfold _ (GroupArms.default, ⟨keys, w.binding.condition, none, none, none, false⟩))

/-! ## Gestures -/

theorem modifyFirst_map {γ δ : Type} (h : γ → δ) {test : δ → Bool} {change : δ → δ}
    {change' : γ → γ} (hchange : ∀ x, change (h x) = h (change' x)) (l : List γ) :
    modifyFirst test change (l.map h) = (modifyFirst (test ∘ h) change' l).map h := by
  induction l with
  | nil => rfl
  | cons x l ih =>
    unfold modifyFirst
    rw [List.map_cons]
    dsimp only [Function.comp]
    by_cases hx : test (h x) = true
    · rw [if_pos hx, if_pos hx, hchange, List.map_cons]
    · rw [if_neg hx, if_neg hx, List.map_cons]
      exact congrArg _ ih

namespace Gestures

/-- A test that reads no action finds the same press, with its actions mapped. -/
theorem find?_map_press {g : Gestures α} {test : Press β → Bool} {test' : Press α → Bool}
    (h : ∀ p : Press α, test (p.map f) = test' p) :
    (g.map f).presses.find? test = (g.presses.find? test').map (Press.map f) := by
  unfold map
  rw [List.find?_map]
  congr 2
  funext p
  exact h p

theorem eraseP_map_press {g : Gestures α} {test : Press β → Bool} {test' : Press α → Bool}
    (h : ∀ p : Press α, test (p.map f) = test' p) :
    (g.map f).presses.eraseP test = (g.presses.eraseP test').map (Press.map f) := by
  unfold map
  rw [List.eraseP_map]
  congr 2
  funext p
  exact h p

theorem filter_map_press {g : Gestures α} {test : Press β → Bool} {test' : Press α → Bool}
    (h : ∀ p : Press α, test (p.map f) = test' p) :
    (g.map f).presses.filter test = (g.presses.filter test').map (Press.map f) := by
  unfold map
  rw [List.filter_map]
  congr 2
  funext p
  exact h p

theorem completes_map (group : Option (GroupArming α)) (window : GroupKey) :
    completes (group.map (GroupArming.map f)) window = completes group window := by
  cases group with
  | none => rfl
  | some group =>
    unfold completes GroupArming.map mapEntry
    simp

theorem armed_map (group : GroupArming α) (now : Instant) :
    armed (group.map f) now = (armed group now).map f := by
  unfold armed GroupArming.map Phase.map mapEntry mapDouble
  simp only [Option.map_map]
  rfl

theorem arm_map (g : Gestures α) (vk : VirtualKey) (group : Option (GroupArming α))
    (now : Instant) (seq : Nat) :
    (g.map f).arm vk (group.map (GroupArming.map f)) now seq =
      ((g.arm vk group now seq).1.map f, (g.arm vk group now seq).2) := by
  cases group with
  | none => rfl
  | some group =>
    unfold arm
    simp only [Option.map_some, armed_map]
    unfold map GroupArming.map mapEntry
    simp only [List.map_append, List.map_cons, List.map_nil, Option.map_map]
    rfl

theorem supersede_map (g : Gestures α) (earlier : Press α) (vk : VirtualKey)
    (group : Option (GroupArming α)) (now : Instant) (seq : Nat) :
    (g.map f).supersede (earlier.map f) vk (group.map (GroupArming.map f)) now seq =
      ((g.supersede earlier vk group now seq).1.map f,
        (g.supersede earlier vk group now seq).2.1.map f,
        (g.supersede earlier vk group now seq).2.2) := by
  obtain ⟨pvk, pseq, phase⟩ := earlier
  unfold supersede
  cases phase with
  | held tap hold double =>
    dsimp only [Press.map, Phase.map]
    cases hold with
    | none =>
      dsimp only [mapEntry, Option.map_none]
      rw [arm_map]
      rfl
    | some hold =>
      obtain ⟨due, action⟩ := hold
      dsimp only [mapEntry, Option.map_some, Prod.map, id]
      by_cases hdue : due ≤ now
      · rw [if_pos hdue, if_pos hdue]
        have hmap : ({ g.map f with
            dueHolds := (g.map f).dueHolds ++ [⟨vk, pseq, due, f action⟩] } : Gestures β) =
            ({ g with
              dueHolds := g.dueHolds ++ [⟨vk, pseq, due, action⟩] } : Gestures α).map f := by
          unfold map
          rw [List.map_append]
          rfl
        rw [hmap, arm_map]
        rfl
      · rw [if_neg hdue, if_neg hdue, arm_map]
        rfl
  | awaitSecond due double window tap passed =>
    dsimp only [Press.map, Phase.map]
    rw [completes_map, arm_map]
    by_cases h : (now < due && completes group window) = true
    · simp only [h, if_true]
      rfl
    · simp only [h]
      cases tap <;> rfl

theorem press_map (g : Gestures α) (vk : VirtualKey) (group : Option (GroupArming α))
    (now : Instant) (seq : Nat) :
    (g.map f).press vk (group.map (GroupArming.map f)) now seq =
      ((g.press vk group now seq).1.map f, (g.press vk group now seq).2.1.map f,
        (g.press vk group now seq).2.2) := by
  have hours : ∀ p : Press α, ((p.map f).vk == vk) = (p.vk == vk) := fun _ => rfl
  unfold press
  dsimp only
  rw [find?_map_press f hours, eraseP_map_press f hours]
  cases g.presses.find? (fun p => p.vk == vk) with
  | none =>
    dsimp only [Option.map_none]
    rw [arm_map]
    rfl
  | some earlier => exact supersede_map f ⟨_, g.dueHolds⟩ earlier vk group now seq

theorem inTime_map {τ : Type} (now : Instant) (gesture : Option (Instant × τ)) {γ : Type}
    (h : τ → γ) : inTime now (gesture.map (Prod.map id h)) =
      (inTime now gesture).map (Prod.map id h) := by
  cases gesture with
  | none => rfl
  | some entry =>
    unfold inTime
    simp only [Option.map_some, Option.filter_some, Prod.map_fst, id]
    by_cases hlt : now < entry.1
    · simp [hlt]
    · simp [hlt]

theorem releaseInTime_map (g : Gestures α) (vk : VirtualKey) (now : Instant) (passed : Bool)
    (seq : Nat) (tap : Option (Instant × α)) (hadHold : Bool)
    (double : Option (Instant × α × GroupKey)) :
    (g.map f).releaseInTime vk now passed seq (mapEntry f tap) hadHold (mapDouble f double) =
      ((g.releaseInTime vk now passed seq tap hadHold double).1.map f,
        (g.releaseInTime vk now passed seq tap hadHold double).2.map f) := by
  unfold releaseInTime mapEntry mapDouble
  rw [inTime_map, inTime_map]
  have htap : ((inTime now tap).map (Prod.map id f)).map Prod.snd =
      ((inTime now tap).map Prod.snd).map f := by
    cases inTime now tap <;> rfl
  rw [htap]
  cases inTime now double with
  | none =>
    dsimp only [Option.map_none]
    cases (inTime now tap).map Prod.snd <;> rfl
  | some entry =>
    obtain ⟨due, action, group⟩ := entry
    dsimp only [Option.map_some, Prod.map, id]
    unfold map
    rw [List.map_append]
    cases (inTime now tap).map Prod.snd <;> rfl

theorem resolve_map (g : Gestures α) (press : Press α) (vk : VirtualKey) (now : Instant)
    (passed : Bool) (seq : Nat) :
    (g.map f).resolve (press.map f) vk now passed seq =
      ((g.resolve press vk now passed seq).1.map f,
        (g.resolve press vk now passed seq).2.map f) := by
  obtain ⟨pvk, pseq, phase⟩ := press
  unfold resolve
  cases phase with
  | awaitSecond due double window tap passed => rfl
  | held tap hold double =>
    cases hold with
    | none => exact releaseInTime_map f g vk now passed seq tap false double
    | some hold =>
      obtain ⟨due, action⟩ := hold
      dsimp only [Press.map, Phase.map, mapEntry, Option.map_some, Prod.map, id]
      by_cases hdue : due ≤ now
      · rw [if_pos hdue, if_pos hdue]
        unfold map
        rw [List.map_append]
        rfl
      · rw [if_neg hdue, if_neg hdue]
        exact releaseInTime_map f g vk now passed seq tap true double

theorem release_map (g : Gestures α) (vk : VirtualKey) (now : Instant) (passed : Bool)
    (seq : Nat) :
    (g.map f).release vk now passed seq =
      ((g.release vk now passed seq).1.map f, (g.release vk now passed seq).2.map f) := by
  have hours : ∀ p : Press α, ((p.map f).vk == vk && (p.map f).phase.isHeld) =
      (p.vk == vk && p.phase.isHeld) := by
    intro p
    show (p.vk == vk && (p.phase.map f).isHeld) = _
    rw [Phase.isHeld_map]
  unfold release
  dsimp only
  rw [find?_map_press f hours, eraseP_map_press f hours]
  cases g.presses.find? (fun p => p.vk == vk && p.phase.isHeld) with
  | none => rfl
  | some press => exact resolve_map f ⟨_, g.dueHolds⟩ press vk now passed seq

theorem filterMap_deferredTap (presses : List (Press α)) :
    (presses.map (Press.map f)).filterMap (fun p => p.phase.deferredTap) =
      (presses.filterMap fun p => p.phase.deferredTap).map f := by
  rw [List.filterMap_map, List.map_filterMap]
  congr 1
  funext p
  exact p.phase.deferredTap_map f

theorem cancels_map (vk : VirtualKey) (keys : KeyState) (now : Instant) (p : Press α) :
    cancels vk keys now (p.map f) = cancels vk keys now p := by
  obtain ⟨pvk, pseq, phase⟩ := p
  unfold cancels
  cases phase with
  | held tap hold double => cases hold <;> rfl
  | awaitSecond due double window tap passed => cases tap <;> rfl

theorem otherKeyDown_map (g : Gestures α) (vk : VirtualKey) (keys : KeyState) (now : Instant) :
    (g.map f).otherKeyDown vk keys now =
      ((g.otherKeyDown vk keys now).1.map f, (g.otherKeyDown vk keys now).2.map f) := by
  unfold otherKeyDown
  have hcancels := cancels_map f vk keys now
  have hstays : ∀ p : Press α, (!cancels vk keys now (p.map f)) = !cancels vk keys now p :=
    fun p => by rw [hcancels]
  rw [@filter_map_press _ _ f g (fun p => !cancels vk keys now p) _ hstays,
    filter_map_press f hcancels, filterMap_deferredTap]
  rfl

theorem fireClosedWindows_map (g : Gestures α) (now : Instant) :
    (g.map f).fireClosedWindows now =
      ((g.fireClosedWindows now).1.map f, (g.fireClosedWindows now).2.map f) := by
  have hclosed : ∀ p : Press α, (p.map f).phase.closedBy now = p.phase.closedBy now :=
    fun p => p.phase.closedBy_map f now
  have hopen : ∀ p : Press α, (!(p.map f).phase.closedBy now) = !p.phase.closedBy now :=
    fun p => by rw [hclosed]
  unfold fireClosedWindows
  rw [@filter_map_press _ _ f g (fun p => !p.phase.closedBy now) _ hopen,
    @filter_map_press _ _ f g (fun p => p.phase.closedBy now) _ hclosed, filterMap_deferredTap]
  rfl

theorem awaitsTimer_map (vk : VirtualKey) (seq : Nat) (p : Press α) :
    awaitsTimer vk seq (p.map f) = awaitsTimer vk seq p := by
  show (p.vk == vk && p.seq == seq && (p.phase.map f).timerDue.isSome) = _
  rw [Phase.timerDue_map]
  rfl

theorem takeTimer_map (g : Gestures α) (vk : VirtualKey) (seq : Nat) :
    (g.map f).takeTimer vk seq =
      (g.takeTimer vk seq).map fun taken => (taken.1.map f, taken.2.1, f taken.2.2) := by
  have hholds : (g.map f).dueHolds = g.dueHolds.map (DueHold.map f) := rfl
  unfold takeTimer
  rw [hholds, List.find?_map, List.eraseP_map]
  have hours : isDueHold vk seq ∘ DueHold.map f = isDueHold vk seq := rfl
  rw [hours, find?_map_press f (awaitsTimer_map f vk seq),
    eraseP_map_press f (awaitsTimer_map f vk seq)]
  cases g.dueHolds.find? (isDueHold vk seq) with
  | some hold => rfl
  | none =>
    dsimp only [Option.map_none]
    cases g.presses.find? (awaitsTimer vk seq) with
    | none => rfl
    | some press =>
      dsimp only [Option.map_some, Press.map]
      rw [Phase.timerDue_map, Phase.intoTimerAction_map]
      cases press.phase.timerDue with
      | none => rfl
      | some due => cases press.phase.intoTimerAction <;> rfl

theorem onTimer_map (g : Gestures α) (vk : VirtualKey) (seq : Nat) :
    (g.map f).onTimer vk seq = ((g.onTimer vk seq).1.map f, (g.onTimer vk seq).2.map f) := by
  unfold onTimer
  rw [takeTimer_map]
  cases g.takeTimer vk seq with
  | none => rfl
  | some taken =>
    obtain ⟨g', due, action⟩ := taken
    dsimp only [Option.map_some]
    rw [fireClosedWindows_map, List.map_append]
    rfl

theorem dropHold_map (p : Press α) : dropHold (p.map f) = (dropHold p).map f := by
  obtain ⟨pvk, pseq, phase⟩ := p
  cases phase <;> rfl

theorem forget_map (g : Gestures α) (vk : VirtualKey) (seq : Nat) :
    (g.map f).forget vk seq = ((g.forget vk seq).1.map f, (g.forget vk seq).2) := by
  have hours : ∀ p : Press α, ((p.map f).vk == vk && (p.map f).seq == seq) =
      (p.vk == vk && p.seq == seq) := fun _ => rfl
  have hholds : (g.map f).dueHolds = g.dueHolds.map (DueHold.map f) := rfl
  have hpresses : (g.map f).presses = g.presses.map (Press.map f) := rfl
  have hany : (g.map f).dueHolds.any (isDueHold vk seq) = g.dueHolds.any (isDueHold vk seq) := by
    rw [hholds, List.any_map]
    rfl
  unfold forget
  dsimp only
  rw [find?_map_press f hours, eraseP_map_press f hours]
  by_cases hdue : g.dueHolds.any (isDueHold vk seq) = true
  · rw [if_pos (hany.trans hdue), if_pos hdue, hholds, List.filter_map]
    rfl
  · rw [if_neg (fun h => hdue (hany.symm.trans h)), if_neg hdue]
    cases g.presses.find? (fun p => p.vk == vk && p.seq == seq) with
    | none => rfl
    | some press =>
      obtain ⟨pvk, pseq, phase⟩ := press
      cases phase with
      | awaitSecond due double window tap passed => rfl
      | held tap hold double =>
        dsimp only [Option.map_some, Press.map, Phase.map]
        rw [hpresses, modifyFirst_map (Press.map f) (dropHold_map f)]
        cases tap with
        | some tap => cases hold <;> rfl
        | none =>
          cases double with
          | some double => cases hold <;> rfl
          | none => cases hold <;> rfl

end Gestures

/-! ## Chords and sequences -/

theorem Chords.retainOpen_map (c : Chords α) (now : Instant) :
    (c.map f).retainOpen now = (c.retainOpen now).map f := by
  unfold Chords.retainOpen Chords.map
  rw [List.filter_map]
  rfl

theorem Chords.onKeyDown_map (c : Chords α) (vk : VirtualKey) (action : α)
    (chordKeys : List KeySpec) (window : Duration) (now : Instant) (seq : Nat) :
    (c.map f).onKeyDown vk (f action) chordKeys window now seq =
      ((c.onKeyDown vk action chordKeys window now seq).1.map f,
        (c.onKeyDown vk action chordKeys window now seq).2.map f) := by
  unfold Chords.onKeyDown
  dsimp only
  rw [Chords.retainOpen_map]
  generalize c.retainOpen now = opened
  by_cases hin : (!chordKeys.any fun key => key.accepts vk) = true
  · rw [if_pos hin, if_pos hin]
    rfl
  · rw [if_neg hin, if_neg hin]
    have hpending : (opened.map f).pending = opened.pending.map (PendingChord.map f) := rfl
    have hours : (fun p : PendingChord β => sameKeys p.chordKeys chordKeys) ∘ PendingChord.map f =
        fun p => sameKeys p.chordKeys chordKeys := rfl
    rw [hpending, List.find?_map, List.eraseP_map, hours]
    cases opened.pending.find? (fun p => sameKeys p.chordKeys chordKeys) with
    | none =>
      unfold Chords.map
      rw [List.map_append]
      rfl
    | some entry =>
      dsimp only [Option.map_some]
      have hseen : (entry.map f).seen = entry.seen := rfl
      have hkeys : (entry.map f).chordKeys = entry.chordKeys := rfl
      rw [hseen, hkeys]
      generalize (if entry.seen.contains vk then entry.seen else entry.seen ++ [vk]) = seen
      by_cases hcomplete : Chords.complete entry.chordKeys seen = true
      · rw [if_pos hcomplete, if_pos hcomplete]
        rfl
      · rw [if_neg hcomplete, if_neg hcomplete]
        have hchange : ∀ p : PendingChord α,
            (fun q : PendingChord β => { q with seen := seen }) (p.map f) =
              ((fun q : PendingChord α => { q with seen := seen }) p).map f := fun _ => rfl
        rw [modifyFirst_map (PendingChord.map f) hchange]
        rfl

theorem Sequences.start_map (s : Sequences α) (held : KeyState) (action : α)
    (first : KeyCombination) (steps : List KeyCombination) (maxGap : Duration) (now : Instant)
    (seq : Nat) : (s.map f).start held (f action) first steps maxGap now seq =
      ((s.start held action first steps maxGap now seq).1.map f,
        (s.start held action first steps maxGap now seq).2.map f) := by
  unfold Sequences.start
  by_cases hdown : keysDown first held = true
  · rw [if_pos hdown, if_pos hdown]
    by_cases hone : (steps.length == 1) = true
    · rw [if_pos hone, if_pos hone]
      rfl
    · rw [if_neg hone, if_neg hone]
      unfold Sequences.map
      rw [List.map_append]
      rfl
  · rw [if_neg hdown, if_neg hdown]
    rfl

theorem Sequences.onKeyDown_map (s : Sequences α) (held : KeyState) (action : α)
    (steps : List KeyCombination) (maxGap : Duration) (now : Instant) (seq : Nat) :
    (s.map f).onKeyDown held (f action) steps maxGap now seq =
      ((s.onKeyDown held action steps maxGap now seq).1.map f,
        (s.onKeyDown held action steps maxGap now seq).2.map f) := by
  unfold Sequences.onKeyDown
  cases steps with
  | nil => rfl
  | cons first rest =>
    have hopen : (s.map f).retainOpen now = (s.retainOpen now).map f := by
      unfold Sequences.retainOpen Sequences.map
      rw [List.filter_map]
      rfl
    dsimp only
    rw [hopen]
    generalize s.retainOpen now = opened
    have hpending : (opened.map f).pending = opened.pending.map (PendingSequence.map f) := rfl
    have hours : (fun p : PendingSequence β => stepsEq p.steps (first :: rest)) ∘
        PendingSequence.map f = fun p => stepsEq p.steps (first :: rest) := rfl
    rw [hpending, List.find?_map, List.eraseP_map, hours]
    cases opened.pending.find? (fun p => stepsEq p.steps (first :: rest)) with
    | none => exact Sequences.start_map f opened held action first _ maxGap now seq
    | some entry =>
      dsimp only [Option.map_some]
      have hnext : (entry.map f).nextStep = entry.nextStep := rfl
      rw [hnext]
      by_cases hpresses : Sequences.pressesStep held (first :: rest) entry.nextStep = true
      · rw [if_pos hpresses, if_pos hpresses]
        by_cases hlast : (entry.nextStep + 1 == (first :: rest).length) = true
        · rw [if_pos hlast, if_pos hlast]
          rfl
        · rw [if_neg hlast, if_neg hlast]
          have hchange : ∀ p : PendingSequence α,
              (fun q : PendingSequence β =>
                { q with nextStep := q.nextStep + 1, expiresAt := now + maxGap, seq := seq })
                (p.map f) =
              ((fun q : PendingSequence α =>
                { q with nextStep := q.nextStep + 1, expiresAt := now + maxGap, seq := seq })
                p).map f := fun _ => rfl
          rw [modifyFirst_map (PendingSequence.map f) hchange]
          rfl
      · rw [if_neg hpresses, if_neg hpresses]
        exact Sequences.start_map f ⟨_⟩ held action first _ maxGap now seq

/-! ## A key event -/

/-- The engine and its decision in the middle of an event. -/
def mapAcc (acc : Engine α × Decision α) : Engine β × Decision β := (acc.1.map f, acc.2.map f)

theorem firstKeyDown_map (e : Engine α) (k : KeyDown α) (bindings : List (Binding α)) :
    (e.map f).firstKeyDown (k.map f) (bindings.map (Binding.map f)) =
      mapAcc f (e.firstKeyDown k bindings) := by
  have hgroup : ((k.map f).winner.bind fun w =>
      w.deferredGroup k.vk (bindings.map (Binding.map f)) e.keys) =
      (k.winner.bind fun w => w.deferredGroup k.vk bindings e.keys).map (GroupArming.map f) := by
    unfold KeyDown.map
    cases k.winner with
    | none => rfl
    | some w => exact deferredGroup_map f w k.vk bindings e.keys
  have hblock : ∀ group : Option (GroupArming α),
      (group.map (GroupArming.map f)).any GroupArming.block = group.any GroupArming.block := by
    intro group
    cases group <;> rfl
  unfold firstKeyDown
  dsimp only
  have hkeys : (e.map f).keys = e.keys := rfl
  have hgestures : (e.map f).gestures = e.gestures.map f := rfl
  have hids : (e.map f).ids = e.ids := rfl
  have hvk : (k.map f).vk = k.vk := rfl
  have henv : (k.map f).env = k.env := rfl
  rw [hkeys, hgestures, hids, hvk, henv, hgroup, hblock, Gestures.otherKeyDown_map,
    Gestures.press_map]
  unfold mapAcc Decision.map
  dsimp only
  rw [List.map_append]
  rfl

theorem visitBlocker_map (k : KeyDown α) (combo : KeyCombination) (mode : BlockerMode)
    (condition : Condition) (e : Engine α) (d : Decision α) :
    visitBlocker (k.map f) combo mode condition (e.map f) (d.map f) =
      mapAcc f (visitBlocker k combo mode condition e d) := by
  unfold visitBlocker
  have hkeys : (e.map f).keys = e.keys := rfl
  have hvk : (k.map f).vk = k.vk := rfl
  have henv : (k.map f).env = k.env := rfl
  have hrepeat : (k.map f).wasRepeat = k.wasRepeat := rfl
  rw [hkeys, hvk, henv, hrepeat]
  split
  · cases mode with
    | swallow => rfl
    | maskOnly =>
      dsimp only
      cases k.wasRepeat <;> rfl
  · rfl

theorem push_map (d : Decision α) (action : α) :
    (d.map f).push (f action) = (d.push action).map f := by
  unfold Decision.push Decision.map
  rw [List.map_append]
  rfl

theorem visitCombo_map (k : KeyDown α) (index : Nat) (binding : Binding α) (e : Engine α)
    (d : Decision α) :
    visitCombo (k.map f) index (binding.map f) (e.map f) (d.map f) =
      mapAcc f (visitCombo k index binding e d) := by
  have hadmits : ((k.map f).winner.any fun w => w.admits index (binding.map f) k.vk e.keys) =
      k.winner.any fun w => w.admits index binding k.vk e.keys := by
    unfold KeyDown.map
    cases k.winner <;> rfl
  have hkeys : (e.map f).keys = e.keys := rfl
  have hvk : (k.map f).vk = k.vk := rfl
  have hrepeat : (k.map f).wasRepeat = k.wasRepeat := rfl
  unfold visitCombo
  rw [hkeys, hvk, hadmits, hrepeat, Binding.map_trigger, Binding.map_repeats, Binding.map_action,
    Binding.map_blockDefault, push_map]
  cases (k.winner.any fun w => w.admits index binding k.vk e.keys) with
  | false => rfl
  | true =>
    cases binding.trigger.isImmediate with
    | false => rfl
    | true =>
      cases (!k.wasRepeat || binding.repeats) <;> cases binding.blockDefault <;> rfl

theorem visitSequence_map (k : KeyDown α) (steps : List KeyCombination) (maxGap : Duration)
    (binding : Binding α) (e : Engine α) (d : Decision α) :
    visitSequence (k.map f) steps maxGap (binding.map f) (e.map f) (d.map f) =
      mapAcc f (visitSequence k steps maxGap binding e d) := by
  have hkeys : (e.map f).keys = e.keys := rfl
  have hids : (e.map f).ids = e.ids := rfl
  have hsequences : (e.map f).sequences = e.sequences.map f := rfl
  have henv : (k.map f).env = k.env := rfl
  have hrepeat : (k.map f).wasRepeat = k.wasRepeat := rfl
  unfold visitSequence
  dsimp only
  rw [hkeys, hids, hsequences, henv, hrepeat, Binding.map_condition, Binding.map_action,
    Sequences.onKeyDown_map]
  cases (k.wasRepeat || !binding.condition.evaluate k.env.foreground) with
  | true => rfl
  | false =>
    generalize e.sequences.onKeyDown e.keys binding.action steps maxGap k.env.now
      e.ids.nextSeq.1 = fed
    obtain ⟨sequences, outcome⟩ := fed
    cases outcome with
    | notMatching => rfl
    | advanced due => rfl
    | completed action keys => exact Prod.ext rfl (push_map f d.swallow action)

theorem visitChord_map (k : KeyDown α) (chordKeys : List KeySpec) (window : Duration)
    (binding : Binding α) (e : Engine α) (d : Decision α) :
    visitChord (k.map f) chordKeys window (binding.map f) (e.map f) (d.map f) =
      mapAcc f (visitChord k chordKeys window binding e d) := by
  have hids : (e.map f).ids = e.ids := rfl
  have hchords : (e.map f).chords = e.chords.map f := rfl
  have hvk : (k.map f).vk = k.vk := rfl
  have henv : (k.map f).env = k.env := rfl
  have hrepeat : (k.map f).wasRepeat = k.wasRepeat := rfl
  unfold visitChord
  dsimp only
  rw [hids, hchords, hvk, henv, hrepeat, Binding.map_condition, Binding.map_action,
    Chords.onKeyDown_map]
  cases (k.wasRepeat || !binding.condition.evaluate k.env.foreground) with
  | true => rfl
  | false =>
    generalize e.chords.onKeyDown k.vk binding.action chordKeys window k.env.now
      e.ids.nextSeq.1 = fed
    obtain ⟨chords, outcome⟩ := fed
    cases outcome with
    | notInChord => rfl
    | pending => rfl
    | started due => rfl
    | completed action keys => exact Prod.ext rfl (push_map f d.swallow action)

theorem visit_map (k : KeyDown α) (acc : Engine α × Decision α) (entry : Binding α × Nat) :
    visit (k.map f) (mapAcc f acc) (entry.1.map f, entry.2) = mapAcc f (visit k acc entry) := by
  unfold visit
  rw [Binding.map_kind, Binding.map_autoBlocker]
  split
  · split
    · exact visitBlocker_map f k _ _ entry.1.condition acc.1 acc.2
    · exact visitCombo_map f k entry.2 entry.1 acc.1 acc.2
  · exact visitSequence_map f k _ _ entry.1 acc.1 acc.2
  · exact visitChord_map f k _ _ entry.1 acc.1 acc.2

theorem walk_map (e : Engine α) (k : KeyDown α) (bindings : List (Binding α)) :
    (e.map f).walk (k.map f) (bindings.map (Binding.map f)) = mapAcc f (e.walk k bindings) := by
  have hfold : ∀ (entries : List (Binding α × Nat)) (acc : Engine α × Decision α),
      (entries.map fun entry => (entry.1.map f, entry.2)).foldl (visit (k.map f)) (mapAcc f acc) =
        mapAcc f (entries.foldl (visit k) acc) := by
    intro entries
    induction entries with
    | nil => exact fun _ => rfl
    | cons entry entries ih =>
      intro acc
      rw [List.map_cons, List.foldl_cons, List.foldl_cons, visit_map, ih]
  have hrepeat : (k.map f).wasRepeat = k.wasRepeat := rfl
  unfold walk
  rw [zipIdx_map, hrepeat, firstKeyDown_map]
  cases k.wasRepeat with
  | true => exact hfold _ (e, .default)
  | false => exact hfold _ (e.firstKeyDown k bindings)

theorem maskIfSwallowedUnderAltOrWin_map (e : Engine α) (d : Decision α) :
    (e.map f).maskIfSwallowedUnderAltOrWin (d.map f) =
      (e.maskIfSwallowedUnderAltOrWin d).map f := by
  have hkeys : (e.map f).keys = e.keys := rfl
  have hsuppress : (d.map f).suppress = d.suppress := rfl
  unfold maskIfSwallowedUnderAltOrWin
  rw [hkeys, hsuppress]
  cases (d.suppress && e.keys.altOrWinDownInWindows) <;> rfl

theorem onKeyDown_map (e : Engine α) (vk : VirtualKey) (bindings : List (Binding α)) (env : Env) :
    (e.map f).onKeyDown vk (bindings.map (Binding.map f)) env =
      mapAcc f (e.onKeyDown vk bindings env) := by
  have hwalk := walk_map f { e with keys := (e.keys.press vk).2 } ⟨vk, env, (e.keys.press vk).1,
    elect vk bindings (e.keys.press vk).2 env.foreground⟩ bindings
  unfold KeyDown.map at hwalk
  dsimp only at hwalk
  rw [← elect_map] at hwalk
  unfold onKeyDown
  dsimp only
  have hpressed : ({ e.map f with keys := (e.keys.press vk).2 } : Engine β) =
      ({ e with keys := (e.keys.press vk).2 } : Engine α).map f := rfl
  have hkeys : (e.map f).keys = e.keys := rfl
  rw [hkeys, hpressed, hwalk]
  generalize walk { e with keys := (e.keys.press vk).2 } ⟨vk, env, (e.keys.press vk).1,
    elect vk bindings (e.keys.press vk).2 env.foreground⟩ bindings = walked
  obtain ⟨e', d⟩ := walked
  have hrecord : followRecord (mapAcc f (e', d)).1.keys vk (e.keys.press vk).1
      (mapAcc f (e', d)).2.suppress = followRecord e'.keys vk (e.keys.press vk).1 d.suppress := rfl
  rw [hrecord]
  generalize followRecord e'.keys vk (e.keys.press vk).1 d.suppress = record
  exact Prod.ext rfl (maskIfSwallowedUnderAltOrWin_map f { e' with keys := record.1 }
    { d with suppress := record.2 })

theorem onKeyUp_map (e : Engine α) (vk : VirtualKey) (env : Env) :
    (e.map f).onKeyUp vk env = mapAcc f (e.onKeyUp vk env) := by
  have hkeys : (e.map f).keys = e.keys := rfl
  have hids : (e.map f).ids = e.ids := rfl
  have hgestures : (e.map f).gestures = e.gestures.map f := rfl
  unfold onKeyUp
  dsimp only
  rw [hkeys, hids, hgestures, Gestures.release_map]
  generalize e.gestures.release vk env.now ((e.keys.release vk).isPassed vk) e.ids.nextSeq.1 =
    resolved
  obtain ⟨g, fired, bound, due⟩ := resolved
  have hfire : ((⟨fired, bound, due⟩ : Released α).map f).fired.toList = fired.toList.map f := by
    cases fired <;> rfl
  dsimp only
  rw [hfire]
  exact Prod.ext rfl (maskIfSwallowedUnderAltOrWin_map f
    { e with
      keys := if (((e.keys.release vk).takeBlocked vk).1 ||
          (bound && !(e.keys.release vk).isPassed vk)) && !env.osKeyDown vk then
          ((e.keys.release vk).takeBlocked vk).2.clearReleasedModifiers env vk .menu
        else ((e.keys.release vk).takeBlocked vk).2
      gestures := g
      ids := e.ids.nextSeq.2 }
    ⟨(((e.keys.release vk).takeBlocked vk).1 || (bound && !(e.keys.release vk).isPassed vk)) &&
      !env.osKeyDown vk, fired.toList,
      (due.map (e.ids.nextSeq.2.request (.gesture vk) e.ids.nextSeq.1)).toList, false⟩)

/-- **The engine never looks at an action**: applied before a call or after it, a
function of actions gives the same. -/
theorem step_map (e : Engine α) (op : Op α) :
    (e.map f).step (op.map f) = mapAcc f (e.step op) := by
  cases op with
  | key event bindings env =>
    obtain ⟨vk, direction⟩ := event
    unfold step Op.map onKey
    cases direction with
    | down =>
      dsimp only
      have h := onKeyDown_map f { e with
        maskOwed := false, resync := e.resync.event vk true,
        keys := e.keys.clearReleasedModifiers env vk .all } vk bindings env
      have hstart : ({ e.map f with
          maskOwed := false, resync := (e.map f).resync.event vk true,
          keys := (e.map f).keys.clearReleasedModifiers env vk .all } : Engine β) =
          ({ e with
            maskOwed := false, resync := e.resync.event vk true,
            keys := e.keys.clearReleasedModifiers env vk .all } : Engine α).map f := rfl
      rw [hstart, h]
      rfl
    | up =>
      dsimp only
      have h := onKeyUp_map f { e with maskOwed := false, resync := e.resync.event vk true } vk env
      have hstart : ({ e.map f with
          maskOwed := false, resync := (e.map f).resync.event vk true } : Engine β) =
          ({ e with maskOwed := false, resync := e.resync.event vk true } : Engine α).map f := rfl
      rw [hstart, h]
      rfl
  | timer token =>
    unfold step Op.map onTimer
    dsimp only
    have hgen : (token.generation != (e.map f).ids.generation) =
      (token.generation != e.ids.generation) := rfl
    have hgestures : (e.map f).gestures = e.gestures.map f := rfl
    rw [hgen, hgestures]
    cases (token.generation != e.ids.generation) with
    | true => rfl
    | false =>
      cases token.slot with
      | gesture vk =>
        dsimp only
        rw [Gestures.onTimer_map]
        rfl
      | chord =>
        unfold Chords.expire mapAcc map Chords.map
        dsimp only [Decision.map]
        simp only [Bool.false_eq_true, if_false, List.filter_map]
        rfl
      | sequence =>
        unfold Sequences.expire mapAcc map Sequences.map
        dsimp only [Decision.map]
        simp only [Bool.false_eq_true, if_false, List.filter_map]
        rfl
  | forget token =>
    unfold step Op.map forgetTimer
    dsimp only
    have hgen : (token.generation != (e.map f).ids.generation) =
      (token.generation != e.ids.generation) := rfl
    have hgestures : (e.map f).gestures = e.gestures.map f := rfl
    rw [hgen, hgestures]
    cases (token.generation != e.ids.generation) with
    | true => rfl
    | false =>
      cases token.slot with
      | gesture vk =>
        dsimp only
        rw [Gestures.forget_map]
        rfl
      | chord => rfl
      | sequence => rfl
  | reset env reason =>
    unfold step Op.map reset
    cases reason <;> rfl
  | foregroundChanged => rfl
  | resyncIfDue env notes =>
    unfold step Op.map resyncIfDue
    dsimp only
    have hresync : (e.map f).resync = e.resync := rfl
    rw [hresync]
    cases (e.resync.plan notes).2.isEmpty <;> rfl
  | inputReturned => rfl
  | trackInjected event => rfl

end Engine

end KeySwitch
