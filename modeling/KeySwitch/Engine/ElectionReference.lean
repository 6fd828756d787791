import KeySwitch.Engine.OnlyWinner
import KeySwitch.Engine.PressLife
import Mathlib.Data.Bool.Basic
import Mathlib.Data.Prod.Lex

/-!
# The election and the gesture group by their reference

The election passes over bindings it need not test and the scan for the gesture
group starts at the winner. Here both are compared with what they are for, said
over the whole list and without a loop: the winner is the candidate of greatest
rank, the earliest of them, and each kind of gesture is that of the first binding
that acts with the winner.

The scan may start at the winner because a binding with the winner's keys and
condition has the winner's rank, and would have won if it stood before it. The
order of the list is used for nothing else, so that it is any list here, sorted by
specificity or not.
-/

namespace KeySwitch.Engine

open Data Lib

variable {α : Type}

/-! ## The winner -/

/-- A candidate of the election: a `keys` user binding whose keys match the press
by its own `allowExtraModifiers`, and whose `when:` holds. -/
structure Candidate (vk : VirtualKey) (held : KeyState) (foreground : ForegroundInfo)
    (b : Binding α) : Prop where
  user : b.isAutoBlocker = false
  keys : ∃ combo, b.kind = .combo combo ∧ comboMatches combo vk held b.allowExtraModifiers = true
  condition : b.condition.evaluate foreground = true

/-- What an election is for: no winner iff no candidate, and the winner is the
candidate of greatest rank (key count, then whether it has a `when:`), the
earliest of the list among equals. -/
def IsElection (vk : VirtualKey) (bindings : List (Binding α)) (held : KeyState)
    (foreground : ForegroundInfo) : Option (Winner α) → Prop
  | none => ∀ b ∈ bindings, ¬Candidate vk held foreground b
  | some w =>
    bindings[w.index]? = some w.binding ∧ Candidate vk held foreground w.binding ∧
      ∀ (i : Nat) (b : Binding α), bindings[i]? = some b → Candidate vk held foreground b →
        toLex (rank b) ≤ toLex (rank w.binding) ∧
          (i < w.index → toLex (rank b) < toLex (rank w.binding))

theorem competes_iff {vk : VirtualKey} {held : KeyState} {foreground : ForegroundInfo}
    {b : Binding α} : competes vk held foreground b = true ↔ Candidate vk held foreground b := by
  unfold competes
  constructor
  · intro h
    split at h
    · next combo hkind =>
      simp only [Bool.and_eq_true, Bool.not_eq_true'] at h
      exact ⟨h.1.1, ⟨combo, hkind, h.1.2⟩, h.2⟩
    · exact absurd h (by decide)
  · rintro ⟨huser, ⟨combo, hkind, hmatch⟩, hcondition⟩
    rw [hkind]
    dsimp only
    rw [huser, hmatch, hcondition]
    rfl

/-- `>=` on ranks is the lexicographic order. -/
theorem outranks_iff (a b : Binding α) :
    outranks a b = true ↔ toLex (rank b) ≤ toLex (rank a) := by
  rw [Prod.Lex.toLex_le_toLex]
  unfold outranks rankGe
  simp only [Bool.or_eq_true, decide_eq_true_eq, Bool.and_eq_true, beq_iff_eq, Bool.not_eq_true']
  constructor
  · rintro (hlt | ⟨heq, hsnd⟩)
    · exact Or.inl hlt
    · refine Or.inr ⟨heq.symm, ?_⟩
      rcases hsnd with hsnd | hsnd
      · rw [hsnd]
        exact Bool.le_true _
      · rw [hsnd]
        exact Bool.false_le _
  · rintro (hlt | ⟨heq, hsnd⟩)
    · exact Or.inl hlt
    · refine Or.inr ⟨heq.symm, ?_⟩
      cases hb : (rank b).2 with
      | false => exact Or.inr rfl
      | true =>
        rw [hb] at hsnd
        exact Or.inl (Bool.eq_true_of_true_le hsnd)

theorem not_outranks_iff (a b : Binding α) :
    outranks a b = false ↔ toLex (rank a) < toLex (rank b) := by
  rw [← not_le, ← outranks_iff, Bool.not_eq_true]

/-- The elected winner is as the reference asks. -/
theorem elect_isElection (vk : VirtualKey) (bindings : List (Binding α)) (held : KeyState)
    (foreground : ForegroundInfo) :
    IsElection vk bindings held foreground (elect vk bindings held foreground) := by
  rcases elect_cases vk bindings held foreground with ⟨hnone, hno⟩ | ⟨as, w, bs, rfl, hwins⟩
  · rw [hnone]
    intro b hb hcandidate
    rw [← competes_iff, hno b hb] at hcandidate
    exact absurd hcandidate (by decide)
  · rw [elect_of_wins hwins]
    refine ⟨by simp, competes_iff.mp hwins.stands, fun i b hi hb => ?_⟩
    rw [← competes_iff] at hb
    rw [List.getElem?_append] at hi
    by_cases hbefore : i < as.length
    · rw [if_pos hbefore] at hi
      have hlt := (not_outranks_iff b w).mp (hwins.before b (List.mem_of_getElem? hi) hb)
      exact ⟨le_of_lt hlt, fun _ => hlt⟩
    · rw [if_neg hbefore] at hi
      refine ⟨?_, fun hlt => absurd hlt hbefore⟩
      rcases List.mem_cons.mp (List.mem_of_getElem? hi) with rfl | hafter
      · exact le_refl _
      · exact (outranks_iff w b).mp (hwins.after b hafter hb)

/-- No two outcomes are both as the reference asks. -/
theorem isElection_unique {vk : VirtualKey} {bindings : List (Binding α)} {held : KeyState}
    {foreground : ForegroundInfo} {x y : Option (Winner α)}
    (hx : IsElection vk bindings held foreground x)
    (hy : IsElection vk bindings held foreground y) : x = y := by
  cases x with
  | none =>
    cases y with
    | none => rfl
    | some w => exact absurd hy.2.1 (hx _ (List.mem_of_getElem? hy.1))
  | some v =>
    cases y with
    | none => exact absurd hx.2.1 (hy _ (List.mem_of_getElem? hx.1))
    | some w =>
      obtain ⟨hvat, hvcandidate, hvbest⟩ := hx
      obtain ⟨hwat, hwcandidate, hwbest⟩ := hy
      have hvw := hvbest _ _ hwat hwcandidate
      have hwv := hwbest _ _ hvat hvcandidate
      rcases Nat.lt_trichotomy v.index w.index with hlt | heq | hgt
      · exact absurd (hwv.2 hlt) (not_lt.mpr hvw.1)
      · rw [heq] at hvat
        have hbinding : v.binding = w.binding := Option.some.inj (hvat.symm.trans hwat)
        obtain ⟨i, b⟩ := v
        obtain ⟨j, c⟩ := w
        dsimp only at heq hbinding
        rw [heq, hbinding]
      · exact absurd (hvw.2 hgt) (not_lt.mpr hwv.1)

/-! ## The gestures of the group -/

/-- The term of a trigger. -/
def triggerTerm : Trigger → Duration
  | .immediate => 0
  | .tap ms | .hold ms | .doubleTap ms => fromMillis ms

/-- Whether a binding acts with `winner`: a `keys` user binding whose keys match
the press, with the winner's key set and its condition as written. -/
def actsWith (winner : Binding α) (vk : VirtualKey) (held : KeyState) (b : Binding α) : Bool :=
  match b.combination, winner.combination with
  | some combo, some winnerCombo =>
    !b.isAutoBlocker && comboMatches combo vk held b.allowExtraModifiers
      && combo.sameKeySet winnerCombo && decide (b.condition = winner.condition)
  | _, _ => false

/-- The first binding of the whole list that acts with `winner` by this gesture. -/
def firstActing (winner : Binding α) (vk : VirtualKey) (held : KeyState)
    (bindings : List (Binding α)) (gesture : Gesture) : Option (Binding α) :=
  bindings.find? fun b =>
    actsWith winner vk held b && decide (gestureOf b.trigger = some gesture)

/-- The group of a deferred winner, by its reference: for each gesture the term and
action of the first binding that acts by it, and whether one of these asks to
swallow the key-down. -/
def referenceGroup (winner : Binding α) (keys : KeyCombination) (vk : VirtualKey)
    (held : KeyState) (bindings : List (Binding α)) : GroupArming α :=
  let first := firstActing winner vk held bindings
  let arm := fun gesture => (first gesture).map fun b => (triggerTerm b.trigger, b.action)
  { keys := keys
    condition := winner.condition
    tap := arm .tap
    hold := arm .hold
    doubleTap := arm .doubleTap
    block := [Gesture.tap, .hold, .doubleTap].any fun gesture =>
      (first gesture).any Binding.blockDefault }

/-- The kinds claimed once the list `bindings` is scanned. -/
def referenceArms (winner : Binding α) (vk : VirtualKey) (held : KeyState)
    (bindings : List (Binding α)) : GroupArms :=
  let first := firstActing winner vk held bindings
  ⟨(first .tap).isSome, (first .hold).isSome, (first .doubleTap).isSome⟩

/-- A member of a deferred winner's group is a deferred binding that acts with it. -/
theorem member_iff {winner b : Binding α} (vk : VirtualKey) (held : KeyState)
    (hwinner : ∀ combo, winner.combination = some combo → combo.Distinct)
    (hb : ∀ combo, b.combination = some combo → combo.Distinct)
    (hdeferred : winner.trigger.isImmediate = false) :
    (!(b.isAutoBlocker || !joins winner b vk held)) =
      (actsWith winner vk held b && !b.trigger.isImmediate) := by
  unfold joins actsWith
  rw [hdeferred]
  cases hcombo : b.combination with
  | none => simp
  | some combo =>
    cases hwinnerCombo : winner.combination with
    | none => simp
    | some winnerCombo =>
      dsimp only
      rw [KeyCombination.eq_iff_sameKeySet (hb combo hcombo) (hwinner winnerCombo hwinnerCombo)]
      cases b.isAutoBlocker <;> cases b.trigger.isImmediate <;>
        cases combo.sameKeySet winnerCombo <;>
        cases comboMatches combo vk held b.allowExtraModifiers <;>
        cases decide (b.condition = winner.condition) <;> rfl

theorem isImmediate_iff (t : Trigger) : t.isImmediate = true ↔ gestureOf t = none := by
  cases t <;> simp [Trigger.isImmediate, gestureOf]

/-- One more binding of the list: it acts by a gesture if none before it does. -/
theorem firstActing_concat (winner : Binding α) (vk : VirtualKey) (held : KeyState)
    (seen : List (Binding α)) (b : Binding α) (gesture : Gesture) :
    firstActing winner vk held (seen ++ [b]) gesture =
      (firstActing winner vk held seen gesture).or
        (if actsWith winner vk held b && decide (gestureOf b.trigger = some gesture) then some b
          else none) := by
  unfold firstActing
  rw [List.find?_append]
  congr 1
  rw [List.find?_cons]
  split
  · next h => rw [if_pos h]
  · next h => rw [if_neg (by rw [h]; decide), List.find?_nil]

/-- A member claims its kind of gesture as the reference does. -/
theorem claimStep_reference {winner b : Binding α} (keys : KeyCombination) {vk : VirtualKey}
    {held : KeyState} (hacts : actsWith winner vk held b = true)
    (hdeferred : b.trigger.isImmediate = false) (seen : List (Binding α)) :
    claimStep (referenceArms winner vk held seen, referenceGroup winner keys vk held seen) b =
      (referenceArms winner vk held (seen ++ [b]),
        referenceGroup winner keys vk held (seen ++ [b])) := by
  unfold claimStep referenceArms referenceGroup
  simp only [firstActing_concat, hacts, Bool.true_and]
  cases htrigger : b.trigger with
  | immediate => simp [htrigger, Trigger.isImmediate] at hdeferred
  | tap ms =>
    cases hfirst : firstActing winner vk held seen .tap <;>
      simp [gestureOf, triggerTerm, GroupArms.claim, GroupArming.join, htrigger, hfirst,
        Bool.or_comm]
  | hold ms =>
    cases hfirst : firstActing winner vk held seen .hold <;>
      simp [gestureOf, triggerTerm, GroupArms.claim, GroupArming.join, htrigger, hfirst,
        Bool.or_comm,
        Bool.or_assoc]
  | doubleTap ms =>
    cases hfirst : firstActing winner vk held seen .doubleTap <;>
      simp [gestureOf, triggerTerm, GroupArms.claim, GroupArming.join, htrigger, hfirst,
        Bool.or_assoc]

/-- A binding that is no member is passed over by the reference too. -/
theorem reference_concat_other {winner b : Binding α} (keys : KeyCombination) {vk : VirtualKey}
    {held : KeyState} (h : (actsWith winner vk held b && !b.trigger.isImmediate) = false)
    (seen : List (Binding α)) :
    referenceArms winner vk held (seen ++ [b]) = referenceArms winner vk held seen ∧
      referenceGroup winner keys vk held (seen ++ [b]) =
        referenceGroup winner keys vk held seen := by
  have hsame : ∀ gesture, firstActing winner vk held (seen ++ [b]) gesture =
      firstActing winner vk held seen gesture := by
    intro gesture
    have hno : (actsWith winner vk held b && decide (gestureOf b.trigger = some gesture)) =
        false := by
      rcases Bool.and_eq_false_iff.mp h with h | h
      · rw [h, Bool.false_and]
      · have himmediate := (isImmediate_iff _).mp (by simpa using h)
        rw [himmediate]
        simp
    rw [firstActing_concat, hno]
    simp
  unfold referenceArms referenceGroup
  simp only [hsame, and_self]

/-- The scan over `bs` goes on as the reference does. -/
theorem joinSteps_reference {winner : Binding α} (keys : KeyCombination) {vk : VirtualKey}
    {held : KeyState} (hdeferred : winner.trigger.isImmediate = false)
    (hwinner : ∀ combo, winner.combination = some combo → combo.Distinct)
    (bs : List (Binding α))
    (hbs : ∀ b ∈ bs, ∀ combo, b.combination = some combo → combo.Distinct)
    (seen : List (Binding α)) :
    bs.foldl (joinStep winner vk held)
        (referenceArms winner vk held seen, referenceGroup winner keys vk held seen) =
      (referenceArms winner vk held (seen ++ bs),
        referenceGroup winner keys vk held (seen ++ bs)) := by
  induction bs generalizing seen with
  | nil => rw [List.foldl_nil, List.append_nil]
  | cons b bs ih =>
    have hmember := member_iff vk held hwinner (hbs b List.mem_cons_self) hdeferred
    have hstep : joinStep winner vk held
        (referenceArms winner vk held seen, referenceGroup winner keys vk held seen) b =
          (referenceArms winner vk held (seen ++ [b]),
            referenceGroup winner keys vk held (seen ++ [b])) := by
      unfold joinStep
      cases hacts : actsWith winner vk held b && !b.trigger.isImmediate with
      | true =>
        rw [hacts] at hmember
        rw [Bool.and_eq_true, Bool.not_eq_true'] at hacts
        rw [if_neg (by simpa using hmember)]
        exact claimStep_reference keys hacts.1 hacts.2 seen
      | false =>
        rw [hacts] at hmember
        have hother := reference_concat_other keys hacts seen
        rw [if_pos (by simpa only [Bool.not_eq_false'] using hmember), hother.1, hother.2]
    rw [List.foldl_cons, hstep, ih fun c hc => hbs c (List.mem_cons_of_mem _ hc)]
    rw [List.append_assoc, List.singleton_append]

/-- No binding before the winner acts with it: it would have the winner's rank, and
win. -/
theorem actsWith_before {vk : VirtualKey} {held : KeyState} {foreground : ForegroundInfo}
    {as : List (Binding α)} {w : Binding α} {bs : List (Binding α)}
    (hkeys : ∀ b ∈ as ++ w :: bs, ∀ combo, b.combination = some combo → combo.Distinct)
    (h : Wins vk held foreground as w bs) : ∀ a ∈ as, actsWith w vk held a = false := by
  intro a ha
  rw [Bool.eq_false_iff]
  intro hacts
  unfold actsWith at hacts
  split at hacts
  · next combo winnerCombo hcombo hwinnerCombo =>
    simp only [Bool.and_eq_true, Bool.not_eq_true', decide_eq_true_eq] at hacts
    obtain ⟨⟨⟨huser, hmatch⟩, hset⟩, hcondition⟩ := hacts
    have hdistinct := hkeys a (List.mem_append_left _ ha) combo hcombo
    have hwdistinct := hkeys w (by simp) winnerCombo hwinnerCombo
    have hkind : a.kind = .combo combo := Binding.combination_eq_some.mp hcombo
    have hwkind : w.kind = .combo winnerCombo := Binding.combination_eq_some.mp hwinnerCombo
    have hcompetes : competes vk held foreground a = true := by
      refine competes_iff.mpr ⟨huser, ⟨combo, hkind, hmatch⟩, ?_⟩
      rw [hcondition]
      exact (competes_iff.mp h.stands).condition
    have hperm := KeyCombination.perm_of_eq hdistinct
      ((KeyCombination.eq_iff_sameKeySet hdistinct hwdistinct).trans hset)
    have hrank : rank a = rank w := by
      unfold rank
      rw [hkind, hwkind, hcondition]
      exact congrArg (·, _) hperm.length_eq
    have hno := (not_outranks_iff a w).mp (h.before a ha hcompetes)
    rw [hrank] at hno
    exact absurd hno (lt_irrefl _)
  · exact absurd hacts (by decide)

/-- **Election and group equal their reference**: the election's outcome is the one
the reference asks for, and the group of a deferred winner is the reference's,
found over the whole list. -/
theorem election_equals_reference (vk : VirtualKey) (bindings : List (Binding α))
    (held : KeyState) (foreground : ForegroundInfo)
    (hkeys : ∀ b ∈ bindings, ∀ combo, b.combination = some combo → combo.Distinct) :
    (∀ outcome, elect vk bindings held foreground = outcome ↔
      IsElection vk bindings held foreground outcome) ∧
    ∀ w, elect vk bindings held foreground = some w → w.binding.trigger.isImmediate = false →
      ∃ keys, w.binding.combination = some keys ∧
        w.deferredGroup vk bindings held =
          some (referenceGroup w.binding keys vk held bindings) := by
  refine ⟨fun outcome => ⟨?_, fun h => ?_⟩, fun w hw hdeferred => ?_⟩
  · rintro rfl
    exact elect_isElection vk bindings held foreground
  · exact isElection_unique (elect_isElection vk bindings held foreground) h
  · rcases elect_cases vk bindings held foreground with ⟨hnone, -⟩ | ⟨as, b, bs, rfl, hwins⟩
    · rw [hnone] at hw
      exact absurd hw (by simp)
    · rw [elect_of_wins hwins] at hw
      obtain rfl := Option.some.inj hw
      dsimp only at hdeferred ⊢
      obtain ⟨combo, hkind, hmatch⟩ := (competes_iff.mp hwins.stands).keys
      have hcombo := Binding.combination_eq_some.mpr hkind
      have hdistinct := hkeys b (by simp)
      have hbefore := actsWith_before hkeys hwins
      have hacts : actsWith b vk held b = true := by
        unfold actsWith
        rw [hcombo]
        dsimp only
        rw [(competes_iff.mp hwins.stands).user, hmatch, ← KeyCombination.eq_iff_sameKeySet
          (hdistinct combo hcombo) (hdistinct combo hcombo), KeyCombination.eq_refl]
        simp
      -- What stands before the winner arms nothing.
      have hnothing : ∀ gesture, firstActing b vk held as gesture = none := by
        intro gesture
        unfold firstActing
        rw [List.find?_eq_none]
        intro a ha
        rw [hbefore a ha, Bool.false_and]
        decide
      have hstart : (GroupArms.default, (⟨combo, b.condition, none, none, none, false⟩ :
          GroupArming α)) = (referenceArms b vk held as, referenceGroup b combo vk held as) := by
        unfold referenceArms referenceGroup
        simp [hnothing, GroupArms.default]
      refine ⟨combo, hcombo, ?_⟩
      rw [deferredGroup_split (competes_iff.mp hwins.stands).user]
      unfold groupOf
      rw [if_neg (by rw [hdeferred]; decide), hcombo, Option.map_some, hstart,
        claimStep_reference combo hacts hdeferred, joinSteps_reference combo hdeferred hdistinct bs
          (fun c hc => hkeys c (by simp [hc])), List.append_assoc, List.singleton_append]

/-- A `Tap` and a `Hold` of F1, the one that swallows and the one that does not. -/
def tapAndHold : List (Binding Nat) :=
  [⟨.combo (.new (.key 0x70)), 1, true, .always, .tap 200, false, false, none⟩,
    ⟨.combo (.new (.key 0x70)), 2, false, .always, .hold 300, false, false, none⟩]

theorem election_equals_reference_tapAndHold :
    ∃ w keys, elect 0x70 tapAndHold (KeyState.new.press 0x70).2 ⟨none, none, id⟩ = some w ∧
      IsElection 0x70 tapAndHold (KeyState.new.press 0x70).2 ⟨none, none, id⟩ (some w) ∧
      w.binding.combination = some keys ∧
      w.deferredGroup 0x70 tapAndHold (KeyState.new.press 0x70).2 =
        some (referenceGroup w.binding keys 0x70 (KeyState.new.press 0x70).2 tapAndHold) := by
  have hkeys : ∀ b ∈ tapAndHold, ∀ combo, b.combination = some combo → combo.Distinct := by
    intro b hb combo hcombo
    simp only [tapAndHold, List.mem_cons, List.not_mem_nil, or_false] at hb
    rcases hb with rfl | rfl
    · rw [← Option.some.inj hcombo]
      exact KeyCombination.new_distinct _
    · rw [← Option.some.inj hcombo]
      exact KeyCombination.new_distinct _
  have hboth := election_equals_reference 0x70 tapAndHold (KeyState.new.press 0x70).2
    ⟨none, none, id⟩ hkeys
  have helect : elect 0x70 tapAndHold (KeyState.new.press 0x70).2 ⟨none, none, id⟩ =
      some ⟨0, ⟨.combo (.new (.key 0x70)), 1, true, .always, .tap 200, false, false, none⟩⟩ := rfl
  obtain ⟨keys, hcombo, hgroup⟩ := hboth.2 _ helect rfl
  exact ⟨_, keys, helect, (hboth.1 _).mp helect, hcombo, hgroup⟩

end KeySwitch.Engine
