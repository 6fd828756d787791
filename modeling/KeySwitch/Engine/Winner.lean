import KeySwitch.Engine.Keys
import KeySwitch.Lib.StableSort

/-!
# Matching a binding's keys, and the one winner of a key-down

`comboMatches` and `blockerMatches` compare the keys of a `keys` binding or of
an auto-blocker with the keys held. `elect` picks the one `keys` binding that
acts on a key-down, by rank and then list order, and `deferredGroup` collects
the bindings that act with a deferred winner. Nothing here keeps state.
-/

namespace KeySwitch.Engine

open Data Lib

variable {α : Type}

/-! ## The order of the list -/

/-- Sorts a list into the order in which the engine visits it: more keys first, the order
of the file where there are as many. The auto-blockers, which stand last in the file's
list, stay behind its bindings of as many keys. -/
def sortBySpecificity (bindings : List (Binding α)) : List (Binding α) :=
  sortDown (fun b => b.kind.keyCount) bindings

/-! ## Matching -/

/-- Whether every key of `combo` is held, each on its side. -/
def keysDown (combo : KeyCombination) (held : KeyState) : Bool :=
  combo.keys.all held.isDown

/-- Whether a key-down of `pressed` can fire or arm `combo`: one of its
non-modifier keys, or any key of a combo made only of modifiers. -/
def isTriggerKey (combo : KeyCombination) (pressed : VirtualKey) : Bool :=
  combo.keys.any fun key =>
    key.accepts pressed && (key.modifier.isNone || combo.isModifierOnly)

/-- Whether the key-down of `pressed`, with `held` the keys held after it,
fires or arms `combo`. -/
def comboMatches (combo : KeyCombination) (pressed : VirtualKey) (held : KeyState)
    (allowExtraModifiers : Bool) : Bool :=
  isTriggerKey combo pressed && keysDown combo held
    && (allowExtraModifiers || held.modifiers == combo.modifiers)

/-- Whether the key-down of `pressed` shows Windows its hotkey `combo` and
nothing else. -/
def blockerMatches (combo : KeyCombination) (pressed : VirtualKey) (held : KeyState)
    (windowsHasDown : VirtualKey → Bool) : Bool :=
  isTriggerKey combo pressed && keysDown combo held
    && held.allHeld fun vk => (combo.keys.any fun key => key.accepts vk) || !windowsHasDown vk

theorem comboMatches_keysDown {combo : KeyCombination} {pressed : VirtualKey} {held : KeyState}
    {allow : Bool} (h : comboMatches combo pressed held allow = true) :
    isTriggerKey combo pressed = true ∧ keysDown combo held = true := by
  simp only [comboMatches, Bool.and_eq_true] at h
  exact h.1

/-! ## The election -/

/-- The `keys` binding that wins a key-down, and its place in the list. -/
structure Winner (α : Type) where
  index : Nat
  binding : Binding α

/-- The precedence of a `keys` binding: its key count, then whether it has a
`when:` condition. -/
def rank (binding : Binding α) : Nat × Bool :=
  (binding.kind.keyCount, !binding.condition.isAlways)

/-- `>=` on ranks, the derived order of the source's pair. -/
def rankGe (a b : Nat × Bool) : Bool :=
  decide (b.1 < a.1) || (a.1 == b.1 && (a.2 || !b.2))

/-- One turn of the election's loop. -/
def electStep (vk : VirtualKey) (held : KeyState) (foreground : ForegroundInfo)
    (winner : Option (Winner α)) (entry : Binding α × Nat) : Option (Winner α) :=
  match entry.1.kind with
  | .combo combo =>
    if entry.1.isAutoBlocker then winner
    else if winner.any fun w => rankGe (rank w.binding) (rank entry.1) then winner
    else if !comboMatches combo vk held entry.1.allowExtraModifiers then winner
    else if !entry.1.condition.evaluate foreground then winner
    else some ⟨entry.2, entry.1⟩
  | _ => winner

/-- Picks the winner among `bindings` for the key-down of `vk`, with `held` the
keys held after it. -/
def elect (vk : VirtualKey) (bindings : List (Binding α)) (held : KeyState)
    (foreground : ForegroundInfo) : Option (Winner α) :=
  bindings.zipIdx.foldl (electStep vk held foreground) none

/-- What the election's winner is: a `keys` user binding of the list whose keys
match. -/
structure Elected (vk : VirtualKey) (bindings : List (Binding α)) (held : KeyState)
    (w : Winner α) : Prop where
  mem : (w.binding, w.index) ∈ bindings.zipIdx
  user : w.binding.isAutoBlocker = false
  combo : ∃ combo, w.binding.combination = some combo ∧
    comboMatches combo vk held w.binding.allowExtraModifiers = true

theorem electStep_winner {vk : VirtualKey} {held : KeyState} {foreground : ForegroundInfo}
    {winner : Option (Winner α)} {entry : Binding α × Nat} {w : Winner α}
    (h : electStep vk held foreground winner entry = some w) :
    winner = some w ∨ (w = ⟨entry.2, entry.1⟩ ∧ entry.1.isAutoBlocker = false ∧
      ∃ combo, entry.1.combination = some combo ∧
        comboMatches combo vk held entry.1.allowExtraModifiers = true) := by
  unfold electStep at h
  split at h
  · next combo hkind =>
    split at h
    · exact Or.inl h
    · next huser =>
      split at h
      · exact Or.inl h
      · split at h
        · exact Or.inl h
        · next hmatch =>
          split at h
          · exact Or.inl h
          · refine Or.inr ⟨(Option.some.inj h).symm, Bool.eq_false_iff.mpr huser, combo, ?_, ?_⟩
            · unfold Binding.combination
              rw [hkind]
            · simpa using hmatch
  · exact Or.inl h

/-- The winner of an election is a binding of the list. -/
theorem elect_elected {vk : VirtualKey} {bindings : List (Binding α)} {held : KeyState}
    {foreground : ForegroundInfo} {w : Winner α}
    (h : elect vk bindings held foreground = some w) : Elected vk bindings held w := by
  have hfold : ∀ (entries : List (Binding α × Nat)) (winner : Option (Winner α)),
      (∀ e ∈ entries, e ∈ bindings.zipIdx) → (∀ w ∈ winner, Elected vk bindings held w) →
      ∀ w ∈ entries.foldl (electStep vk held foreground) winner, Elected vk bindings held w := by
    intro entries
    induction entries with
    | nil => exact fun winner _ hw => hw
    | cons entry entries ih =>
      intro winner hmem hw
      refine ih _ (fun e he => hmem e (List.mem_cons_of_mem _ he)) ?_
      intro w hstep
      rcases electStep_winner hstep with hold | ⟨rfl, huser, hcombo⟩
      · exact hw w hold
      · exact ⟨hmem entry List.mem_cons_self, huser, hcombo⟩
  exact hfold _ none (fun _ he => he) (fun _ hw => absurd hw (by simp)) w h

/-! ## The gesture group of a deferred winner -/

/-- What a deferred winner and its group arm: the keys and condition of the
group, the term and action of its first `Tap`, `Hold` and `DoubleTap`, and
whether any of them asks to swallow the key-down. -/
structure GroupArming (α : Type) where
  keys : KeyCombination
  condition : Condition
  tap : Option (Duration × α)
  hold : Option (Duration × α)
  doubleTap : Option (Duration × α)
  block : Bool

/-- The trigger kinds the winning group has used on this key-down. -/
structure GroupArms where
  tap : Bool
  hold : Bool
  doubleTap : Bool

namespace GroupArms

def default : GroupArms := ⟨false, false, false⟩

/-- Whether a binding of this trigger still acts, and the kinds used then. -/
def claim (arms : GroupArms) : Trigger → Bool × GroupArms
  | .immediate => (true, arms)
  | .tap _ => (!arms.tap, { arms with tap := true })
  | .hold _ => (!arms.hold, { arms with hold := true })
  | .doubleTap _ => (!arms.doubleTap, { arms with doubleTap := true })

end GroupArms

/-- A member that has claimed its trigger kind gives the group its term and
action. -/
def GroupArming.join (group : GroupArming α) (member : Binding α) : GroupArming α :=
  match member.trigger with
  | .tap ms =>
    { group with tap := some (fromMillis ms, member.action),
                 block := group.block || member.blockDefault }
  | .hold ms =>
    { group with hold := some (fromMillis ms, member.action),
                 block := group.block || member.blockDefault }
  | .doubleTap ms =>
    { group with doubleTap := some (fromMillis ms, member.action),
                 block := group.block || member.blockDefault }
  | .immediate => group

/-- A group that arms something. -/
def GroupArming.Nonempty (group : GroupArming α) : Prop :=
  group.tap.isSome ∨ group.hold.isSome ∨ group.doubleTap.isSome

theorem GroupArming.join_nonempty (group : GroupArming α) (h : group.Nonempty)
    (member : Binding α) : (group.join member).Nonempty := by
  unfold GroupArming.join
  split
  · exact Or.inl rfl
  · exact Or.inr (Or.inl rfl)
  · exact Or.inr (Or.inr rfl)
  · exact h

namespace Winner

/-- Whether the `keys` user binding at `index` acts on this key-down: the
winner itself, or a member of its gesture group. -/
def admits (w : Winner α) (index : Nat) (binding : Binding α) (vk : VirtualKey)
    (held : KeyState) : Bool :=
  if index == w.index then true
  else if w.binding.trigger.isImmediate || binding.trigger.isImmediate then false
  else
    match binding.combination, w.binding.combination with
    | some combo, some winnerCombo =>
      combo.eq winnerCombo && decide (binding.condition = w.binding.condition)
        && comboMatches combo vk held binding.allowExtraModifiers
    | _, _ => false

/-- One turn of the group's loop. -/
def groupStep (w : Winner α) (vk : VirtualKey) (held : KeyState)
    (acc : GroupArms × GroupArming α) (entry : Binding α × Nat) : GroupArms × GroupArming α :=
  if entry.1.isAutoBlocker || !w.admits entry.2 entry.1 vk held then acc
  else
    let claimed := acc.1.claim entry.1.trigger
    (claimed.2, if claimed.1 then acc.2.join entry.1 else acc.2)

/-- The gestures the winner's group arms on the key-down of `vk`, scanned from
the winner on; `none` for an `Immediate` winner. -/
def deferredGroup (w : Winner α) (vk : VirtualKey) (bindings : List (Binding α))
    (held : KeyState) : Option (GroupArming α) :=
  if w.binding.trigger.isImmediate then none
  else
    w.binding.combination.map fun keys =>
      ((bindings.zipIdx.drop w.index).foldl (w.groupStep vk held)
        (GroupArms.default, ⟨keys, w.binding.condition, none, none, none, false⟩)).2

theorem groupStep_cases (w : Winner α) (vk : VirtualKey) (held : KeyState)
    (acc : GroupArms × GroupArming α) (entry : Binding α × Nat) :
    (w.groupStep vk held acc entry).2 = acc.2 ∨
      (w.groupStep vk held acc entry).2 = acc.2.join entry.1 := by
  unfold groupStep
  split
  · exact Or.inl rfl
  · dsimp only
    split
    · exact Or.inr rfl
    · exact Or.inl rfl

/-- The group of a deferred winner arms something: the winner itself comes
first and claims its kind. -/
theorem deferredGroup_nonempty {w : Winner α} {vk : VirtualKey} {bindings : List (Binding α)}
    {held : KeyState} (hw : Elected vk bindings held w) {group : GroupArming α}
    (h : w.deferredGroup vk bindings held = some group) : group.Nonempty := by
  unfold deferredGroup at h
  split at h
  · exact absurd h (by simp)
  · next himm =>
    obtain ⟨keys, -, rfl⟩ := Option.map_eq_some_iff.mp h
    have hget := List.mk_mem_zipIdx_iff_getElem?.mp hw.mem
    obtain ⟨hlt, hget⟩ := List.getElem?_eq_some_iff.mp hget
    have hdrop : bindings.zipIdx.drop w.index =
        (w.binding, w.index) :: bindings.zipIdx.drop (w.index + 1) := by
      rw [List.drop_eq_getElem_cons (by simpa using hlt)]
      simp [hget]
    have hkeep : ∀ (entries : List (Binding α × Nat)) (acc : GroupArms × GroupArming α),
        acc.2.Nonempty → (entries.foldl (w.groupStep vk held) acc).2.Nonempty := by
      intro entries
      induction entries with
      | nil => exact fun _ hacc => hacc
      | cons entry entries ih =>
        intro acc hacc
        refine ih _ ?_
        rcases w.groupStep_cases vk held acc entry with hstep | hstep
        · rw [hstep]
          exact hacc
        · rw [hstep]
          exact acc.2.join_nonempty hacc entry.1
    rw [hdrop, List.foldl_cons]
    refine hkeep _ _ ?_
    unfold groupStep admits
    rw [hw.user]
    simp only [beq_self_eq_true, if_true, Bool.not_true, Bool.or_self, Bool.false_eq_true, if_false]
    cases htrigger : w.binding.trigger with
    | immediate => simp [htrigger, Trigger.isImmediate] at himm
    | tap ms =>
      exact Or.inl (by simp [GroupArms.claim, GroupArms.default, GroupArming.join, htrigger])
    | hold ms =>
      exact Or.inr (Or.inl (by simp [GroupArms.claim, GroupArms.default, GroupArming.join,
        htrigger]))
    | doubleTap ms =>
      exact Or.inr (Or.inr (by simp [GroupArms.claim, GroupArms.default, GroupArming.join,
        htrigger]))

/-- A binding that acts with the winner is a `keys` binding. -/
theorem admits_combo {vk : VirtualKey} {bindings : List (Binding α)} {held : KeyState}
    {w : Winner α} (hw : Elected vk bindings held w) {entry : Binding α × Nat}
    (hentry : entry ∈ bindings.zipIdx) (h : w.admits entry.2 entry.1 vk held = true) :
    ∃ combo, entry.1.kind = .combo combo := by
  have hcombo : ∀ {b : Binding α} {combo}, b.combination = some combo →
      ∃ combo, b.kind = .combo combo := by
    intro b combo hb
    unfold Binding.combination at hb
    cases hkind : b.kind with
    | combo c => exact ⟨c, rfl⟩
    | sequence steps gap => simp [hkind] at hb
    | chord keys window => simp [hkind] at hb
  unfold admits at h
  split at h
  · next hindex =>
    -- The winner itself.
    obtain ⟨combo, hwinner, -⟩ := hw.combo
    have hget := List.mk_mem_zipIdx_iff_getElem?.mp hw.mem
    have hget' := List.mk_mem_zipIdx_iff_getElem?.mp hentry
    rw [beq_iff_eq.mp hindex, hget] at hget'
    rw [← Option.some.inj hget']
    exact hcombo hwinner
  · split at h
    · exact absurd h (by simp)
    · split at h
      · next combo _ hc _ => exact hcombo hc
      · exact absurd h (by simp)

/-- What holds of a group that arms nothing, and is kept when a `keys` binding of
the list joins, holds of the winner's group. -/
theorem deferredGroup_induct {P : GroupArming α → Prop} {vk : VirtualKey}
    {bindings : List (Binding α)} {held : KeyState} {w : Winner α}
    (hw : Elected vk bindings held w) {group : GroupArming α}
    (h : w.deferredGroup vk bindings held = some group)
    (hnone : ∀ keys condition, P ⟨keys, condition, none, none, none, false⟩)
    (hjoin : ∀ group b, P group → b ∈ bindings → (∃ combo, b.kind = .combo combo) →
      P (group.join b)) : P group := by
  unfold deferredGroup at h
  split at h
  · exact absurd h (by simp)
  · obtain ⟨keys, -, rfl⟩ := Option.map_eq_some_iff.mp h
    have hfold : ∀ (entries : List (Binding α × Nat)) (acc : GroupArms × GroupArming α),
        (∀ entry ∈ entries, entry ∈ bindings.zipIdx) → P acc.2 →
        P (entries.foldl (w.groupStep vk held) acc).2 := by
      intro entries
      induction entries with
      | nil => exact fun _ _ hacc => hacc
      | cons entry entries ih =>
        intro acc hmem hacc
        refine ih _ (fun x hx => hmem x (List.mem_cons_of_mem _ hx)) ?_
        have hin := hmem entry List.mem_cons_self
        unfold groupStep
        split
        · exact hacc
        · next hacts =>
          have hadmits : w.admits entry.2 entry.1 vk held = true := by
            rw [Bool.not_eq_true, Bool.or_eq_false_iff] at hacts
            simpa using hacts.2
          dsimp only
          split
          · exact hjoin _ _ hacc (List.fst_mem_of_mem_zipIdx hin) (admits_combo hw hin hadmits)
          · exact hacc
    exact hfold _ _ (fun entry hentry => List.mem_of_mem_drop hentry) (hnone keys _)

end Winner

end KeySwitch.Engine
