import KeySwitch.Data.KeySpec

/-!
# A keystroke of several keys

`pressCombo` sends a keystroke in one batch: modifiers down, the other keys down, and
all of them up in reverse order. Windows may insert only the first events of a batch;
`unreleasedKeys` are the key-ups it then still owes: those of the keys the cut batch leaves
down, in the order the whole batch releases them (`cut_batch`). With them no key of the
batch stays down (`isHeld_releaseUnreleased`).
-/

namespace KeySwitch.Data

/-- Whether `vk` is a Shift, Ctrl, Alt or Win code, generic or sided. -/
def isModifier (vk : VirtualKey) : Bool :=
  [VK_SHIFT, VK_LSHIFT, VK_RSHIFT, VK_CONTROL, VK_LCONTROL, VK_RCONTROL, VK_MENU, VK_LMENU,
    VK_RMENU, VK_LWIN, VK_RWIN].contains vk

/-- How many events of a batch Windows inserted, of how many. -/
structure ComboSent where
  sent : Nat
  of : Nat
  deriving DecidableEq, Repr

/-- One event of a batch: a key, and whether it is its key-up. -/
structure ComboEvent where
  vk : VirtualKey
  up : Bool
  deriving DecidableEq, Repr

/-- The events of a batch of `keys`, in the order it sends them. -/
def comboEvents (keys : List VirtualKey) : List ComboEvent :=
  let mods := keys.filter isModifier
  let payload := keys.filter fun vk => !isModifier vk
  (mods ++ payload).map (fun vk => ⟨vk, false⟩) ++
    (payload.reverse ++ mods.reverse).map fun vk => ⟨vk, true⟩

/-- The key-ups a batch of `keys` still owes when only its first `sent` events were
inserted. -/
def unreleasedKeys (keys : List VirtualKey) (sent : Nat) : List VirtualKey :=
  let done := (comboEvents keys).take sent
  ((comboEvents keys).drop sent).filterMap fun event =>
    if event.up && done.any (fun went => went.vk == event.vk && !went.up) then some event.vk
    else none

/-- The events `releaseUnreleased` sends after a batch of `keys` cut short. -/
def releaseUnreleased (keys : List VirtualKey) (sent : Nat) : List ComboEvent :=
  (unreleasedKeys keys sent).map fun vk => ⟨vk, true⟩

/-! ## No key stays down -/

/-- Whether `vk` is down after `events`, up before them: its last event decides. -/
def isHeld (events : List ComboEvent) (vk : VirtualKey) : Bool :=
  events.foldl (fun held event => if event.vk == vk then !event.up else held) false

theorem isHeld_snoc (events : List ComboEvent) (event : ComboEvent) (vk : VirtualKey) :
    isHeld (events ++ [event]) vk = if event.vk == vk then !event.up else isHeld events vk := by
  simp only [isHeld, List.foldl_append, List.foldl_cons, List.foldl_nil]

/-- Key-ups let go of their keys and of no other. -/
theorem isHeld_ups (events : List ComboEvent) (vks : List VirtualKey) (vk : VirtualKey) :
    isHeld (events ++ vks.map fun vk => ⟨vk, true⟩) vk =
      (isHeld events vk && !vks.contains vk) := by
  induction vks generalizing events with
  | nil => simp
  | cons first vks ih =>
    rw [List.map_cons, List.append_cons, ih, isHeld_snoc, List.contains_cons]
    by_cases hfirst : first = vk
    · subst hfirst
      simp
    · have hne : (vk == first) = false := by simpa using fun h => hfirst h.symm
      rw [hne]
      simp [hfirst]

/-- Key-downs hold their keys. -/
theorem isHeld_downs (vks : List VirtualKey) (vk : VirtualKey) :
    isHeld (vks.map fun vk => ⟨vk, false⟩) vk = vks.contains vk := by
  induction vks using List.reverseRecOn with
  | nil => rfl
  | append_singleton vks last ih =>
    rw [List.map_append, List.map_singleton, isHeld_snoc, ih, List.contains_append]
    by_cases hlast : last = vk
    · subst hlast
      simp
    · have hne : vk ≠ last := fun h => hlast h.symm
      simp [hlast, hne]

/-! ## The two halves of a batch -/

/-- The keys in the order a batch presses them. -/
def pressOrder (keys : List VirtualKey) : List VirtualKey :=
  keys.filter isModifier ++ keys.filter fun vk => !isModifier vk

/-- A batch presses its keys, and releases them in reverse order. -/
theorem comboEvents_eq (keys : List VirtualKey) :
    comboEvents keys = (pressOrder keys).map (fun vk => ⟨vk, false⟩) ++
      (pressOrder keys).reverse.map fun vk => ⟨vk, true⟩ := by
  unfold comboEvents pressOrder
  rw [List.reverse_append]

theorem pressOrder_perm (keys : List VirtualKey) : (pressOrder keys).Perm keys :=
  List.filter_append_perm isModifier keys

/-- What a prefix of a batch has of each half. -/
theorem take_comboEvents (keys : List VirtualKey) (sent : Nat) :
    (comboEvents keys).take sent = ((pressOrder keys).take sent).map (fun vk => ⟨vk, false⟩) ++
      ((pressOrder keys).reverse.take (sent - keys.length)).map fun vk => ⟨vk, true⟩ := by
  rw [comboEvents_eq, List.take_append, List.length_map, (pressOrder_perm keys).length_eq,
    ← List.map_take, ← List.map_take]

/-- Whether a prefix of a batch pressed `vk`. -/
theorem any_pressed (keys : List VirtualKey) (sent : Nat) (vk : VirtualKey) :
    ((comboEvents keys).take sent).any (fun went => went.vk == vk && !went.up) =
      ((pressOrder keys).take sent).contains vk := by
  rw [take_comboEvents, List.any_append, List.any_map, List.any_map, List.contains_eq_any_beq]
  have hups : ((pressOrder keys).reverse.take (sent - keys.length)).any
      ((fun went => went.vk == vk && !went.up) ∘ fun vk => (⟨vk, true⟩ : ComboEvent)) = false := by
    rw [List.any_eq_false]
    simp
  rw [hups, Bool.or_false]
  congr 1
  funext key
  simp [eq_comm]

/-- The key-ups owed: those of the whole batch that were not sent, of the keys it pressed. -/
theorem unreleasedKeys_eq (keys : List VirtualKey) (sent : Nat) :
    unreleasedKeys keys sent = ((pressOrder keys).reverse.drop (sent - keys.length)).filter
      fun vk => ((pressOrder keys).take sent).contains vk := by
  have hdowns : ∀ downs : List VirtualKey,
      (downs.map fun vk => (⟨vk, false⟩ : ComboEvent)).filterMap
      (fun event => if event.up && ((comboEvents keys).take sent).any
        (fun went => went.vk == event.vk && !went.up) then some event.vk else none) = [] := by
    intro downs
    rw [List.filterMap_eq_nil_iff]
    intro event hevent
    obtain ⟨vk, -, rfl⟩ := List.mem_map.mp hevent
    rfl
  unfold unreleasedKeys
  rw [comboEvents_eq, List.drop_append, List.filterMap_append, ← List.map_drop, ← comboEvents_eq,
    hdowns, List.nil_append, List.length_map, (pressOrder_perm keys).length_eq, ← List.map_drop,
    List.filterMap_map, ← List.filterMap_eq_filter]
  congr 1
  funext vk
  simp only [Function.comp, Bool.true_and, any_pressed]
  rfl

/-- What a prefix of a batch leaves down. -/
theorem isHeld_take (keys : List VirtualKey) (sent : Nat) (vk : VirtualKey) :
    isHeld ((comboEvents keys).take sent) vk = (((pressOrder keys).take sent).contains vk &&
      !((pressOrder keys).reverse.take (sent - keys.length)).contains vk) := by
  rw [take_comboEvents, isHeld_ups, isHeld_downs]

/-- **After the first `sent` events of a batch and the key-ups it then owes, no key of
the batch is down.** -/
theorem isHeld_releaseUnreleased (keys : List VirtualKey) (sent : Nat) (vk : VirtualKey) :
    isHeld ((comboEvents keys).take sent ++ releaseUnreleased keys sent) vk = false := by
  unfold releaseUnreleased
  rw [isHeld_ups, isHeld_take]
  by_cases hdown : vk ∈ (pressOrder keys).take sent
  · -- Its key-up was sent with the batch or is owed.
    have hup : vk ∈ (pressOrder keys).reverse :=
      List.mem_reverse.mpr (List.mem_of_mem_take hdown)
    rw [← List.take_append_drop (sent - keys.length) (pressOrder keys).reverse] at hup
    rcases List.mem_append.mp hup with hsent | hleft
    · simp [hsent]
    · have howed : vk ∈ unreleasedKeys keys sent := by
        rw [unreleasedKeys_eq]
        exact List.mem_filter.mpr ⟨hleft, by simpa using hdown⟩
      simp [howed]
  · simp [hdown]

/-! ## Cut short or whole -/

/-- The keys a batch presses, in its order. -/
def pressedKeys (events : List ComboEvent) : List VirtualKey :=
  (events.filter fun event => !event.up).map ComboEvent.vk

/-- The keys it releases, in its order. -/
def releasedKeys (events : List ComboEvent) : List VirtualKey :=
  (events.filter ComboEvent.up).map ComboEvent.vk

theorem comboEvents_halves (keys : List VirtualKey) :
    pressedKeys (comboEvents keys) = pressOrder keys ∧
      releasedKeys (comboEvents keys) = (pressOrder keys).reverse := by
  unfold pressedKeys releasedKeys
  rw [comboEvents_eq, List.filter_append, List.filter_append, List.filter_map, List.filter_map,
    List.filter_map, List.filter_map]
  constructor
  · simp [Function.comp_def]
  · simp [Function.comp_def]

/-- What a whole batch of `keys` does. -/
structure WholeBatch (keys : List VirtualKey) : Prop where
  /-- It presses each key once, then releases each once. -/
  halves : comboEvents keys = (pressedKeys (comboEvents keys)).map (fun vk => ⟨vk, false⟩) ++
    (releasedKeys (comboEvents keys)).map fun vk => ⟨vk, true⟩
  presses : (pressedKeys (comboEvents keys)).Perm keys
  releases : (releasedKeys (comboEvents keys)).Perm keys
  /-- No modifier is pressed after a payload key. -/
  modifiersFirst : (pressedKeys (comboEvents keys)).Pairwise fun earlier later =>
    isModifier later = true → isModifier earlier = true
  /-- The releases are in reverse press order, and so payload before modifiers. -/
  reversed : releasedKeys (comboEvents keys) = (pressedKeys (comboEvents keys)).reverse

/-- What a batch of `keys` cut after `sent` events owes. -/
structure CutBatch (keys : List VirtualKey) (sent : Nat) : Prop where
  /-- The keys left down, and no other. -/
  owed : ∀ vk, vk ∈ unreleasedKeys keys sent ↔ isHeld ((comboEvents keys).take sent) vk = true
  once : (unreleasedKeys keys sent).Nodup
  order : (unreleasedKeys keys sent).Sublist (releasedKeys (comboEvents keys))
  completed : ∀ vk,
    isHeld ((comboEvents keys).take sent ++ releaseUnreleased keys sent) vk = false

theorem whole_batch (keys : List VirtualKey) : WholeBatch keys := by
  obtain ⟨hpresses, hreleases⟩ := comboEvents_halves keys
  constructor
  · rw [hpresses, hreleases]
    exact comboEvents_eq keys
  · rw [hpresses]
    exact pressOrder_perm keys
  · rw [hreleases]
    exact (List.reverse_perm _).trans (pressOrder_perm keys)
  · rw [hpresses]
    refine List.pairwise_append.mpr ⟨?_, ?_, ?_⟩
    · refine List.pairwise_iff_forall_sublist.mpr fun hsub _ => ?_
      exact (List.mem_filter.mp (hsub.subset List.mem_cons_self)).2
    · refine List.pairwise_iff_forall_sublist.mpr fun {a b} hsub hmod => ?_
      have hpayload := (List.mem_filter.mp
          (hsub.subset (List.mem_cons_of_mem a List.mem_cons_self))).2
      rw [hmod] at hpayload
      exact absurd hpayload (by decide)
    · intro a ha b _ _
      exact (List.mem_filter.mp ha).2
  · rw [hpresses, hreleases]

/-- **A cut-short batch is completed by the key-ups it owes**, and a whole one leaves
nothing to complete, whatever keys it is of and wherever it is cut. -/
theorem cut_batch (keys : List VirtualKey) (hnodup : keys.Nodup) :
    WholeBatch keys ∧ ∀ sent, CutBatch keys sent := by
  have hpress : (pressOrder keys).reverse.Nodup :=
    List.nodup_reverse.mpr ((pressOrder_perm keys).nodup_iff.mpr hnodup)
  refine ⟨whole_batch keys, fun sent => ⟨fun vk => ?_, ?_, ?_, isHeld_releaseUnreleased keys sent⟩⟩
  · rw [unreleasedKeys_eq, isHeld_take, List.mem_filter, Bool.and_eq_true, Bool.not_eq_true',
      List.contains_iff_mem, List.contains_eq_mem, decide_eq_false_iff_not]
    constructor
    · rintro ⟨hleft, hdown⟩
      refine ⟨hdown, fun hsent => ?_⟩
      -- A key of a batch without duplicates is in one half of its releases only.
      rw [← List.take_append_drop (sent - keys.length) (pressOrder keys).reverse] at hpress
      exact (List.nodup_append.mp hpress).2.2 vk hsent vk hleft rfl
    · rintro ⟨hdown, hnot⟩
      have hup : vk ∈ (pressOrder keys).reverse :=
        List.mem_reverse.mpr (List.mem_of_mem_take hdown)
      rw [← List.take_append_drop (sent - keys.length) (pressOrder keys).reverse] at hup
      exact ⟨(List.mem_append.mp hup).resolve_left hnot, hdown⟩
  · rw [unreleasedKeys_eq]
    exact (hpress.sublist (List.drop_sublist _ _)).filter _
  · rw [unreleasedKeys_eq, (comboEvents_halves keys).2]
    exact List.filter_sublist.trans (List.drop_sublist _ _)

/-- Ctrl and Shift with V, cut after the key-down of V. -/
theorem cut_batch_ctrlShiftV : WholeBatch [VK_CONTROL, 0x56, VK_SHIFT] ∧
    ∀ sent, CutBatch [VK_CONTROL, 0x56, VK_SHIFT] sent :=
  cut_batch [VK_CONTROL, 0x56, VK_SHIFT] (by decide)

end KeySwitch.Data
