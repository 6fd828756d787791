import KeySwitch.Engine.PendingSteps
import Mathlib.Algebra.Order.Group.Multiset
import Mathlib.Tactic.Abel

/-!
# What is settled by the clock

Once the time is `u`, a Hold whose term has ended and a Tap whose window has
closed are settled, whether or not their timers have run, and so is a chord or
a sequence whose time is up. `settled` takes these entries out; `owed` are the
actions they will fire.

Two states that agree once settled, and whose fired and owed actions add up to
the same, are the same by `u` (`SameBy`). This file shows that no operation of
the three tables tells such states apart: what a late timer has left behind, the
operation itself treats as resolved (`CatchesUp`).
-/

namespace KeySwitch.Engine

open Data Lib

variable {α : Type}

/-! ## Settled entries -/

/-- Whether the timer this press waits for is due by `u`. -/
def Press.dueBy (u : Instant) (p : Press α) : Bool :=
  p.phase.timerDue.any fun due => decide (due ≤ u)

/-- What the press owes by `u`: the Hold or the Tap its timer fires. -/
def Press.owed (u : Instant) (p : Press α) : List α :=
  if p.dueBy u then p.phase.intoTimerAction.toList else []

def DueHold.dueBy (u : Instant) (h : DueHold α) : Bool := decide (h.due ≤ u)

def DueHold.owed (u : Instant) (h : DueHold α) : List α := if h.dueBy u then [h.action] else []

theorem Press.owed_of_not_due {u : Instant} {p : Press α} (h : p.dueBy u = false) :
    p.owed u = [] := by
  unfold Press.owed
  rw [h, if_neg Bool.false_ne_true]

theorem Press.dueBy_mono {v u : Instant} (hvu : v ≤ u) {p : Press α} (h : p.dueBy v = true) :
    p.dueBy u = true := by
  unfold Press.dueBy at *
  rw [Option.any_eq_true] at *
  obtain ⟨due, hdue, hle⟩ := h
  exact ⟨due, hdue, decide_eq_true (le_trans (of_decide_eq_true hle) hvu)⟩

namespace Gestures

/-- The gestures without those settled by `u`. -/
def settled (u : Instant) (g : Gestures α) : Gestures α :=
  ⟨g.presses.filter fun p => !p.dueBy u, g.dueHolds.filter fun h => !h.dueBy u⟩

/-- The actions that the gestures settled by `u` will fire. -/
def owed (u : Instant) (g : Gestures α) : Multiset α :=
  ((g.presses.flatMap (Press.owed u) : List α) : Multiset α)
    + ((g.dueHolds.flatMap (DueHold.owed u) : List α) : Multiset α)

/-- Gestures with more presses and due Holds. -/
def plus (g : Gestures α) (presses : List (Press α)) (dueHolds : List (DueHold α)) : Gestures α :=
  ⟨g.presses ++ presses, g.dueHolds ++ dueHolds⟩

theorem settled_plus (u : Instant) (g : Gestures α) (ps : List (Press α)) (hs : List (DueHold α)) :
    (g.plus ps hs).settled u = (g.settled u).plus (ps.filter fun p => !p.dueBy u)
      (hs.filter fun h => !h.dueBy u) := by
  unfold settled plus
  rw [List.filter_append, List.filter_append]

theorem owed_plus (u : Instant) (g : Gestures α) (ps : List (Press α)) (hs : List (DueHold α)) :
    (g.plus ps hs).owed u = g.owed u + (⟨ps, hs⟩ : Gestures α).owed u := by
  unfold owed plus
  rw [List.flatMap_append, List.flatMap_append, ← Multiset.coe_add, ← Multiset.coe_add]
  abel

/-- Settled gestures owe nothing. -/
theorem owed_settled (u : Instant) (g : Gestures α) : (g.settled u).owed u = 0 := by
  have hp : (g.settled u).presses.flatMap (Press.owed u) = [] := by
    rw [List.flatMap_eq_nil_iff]
    intro p hp
    have hnot := (List.mem_filter.mp hp).2
    rw [Bool.not_eq_true'] at hnot
    exact Press.owed_of_not_due hnot
  have hh : (g.settled u).dueHolds.flatMap (DueHold.owed u) = [] := by
    rw [List.flatMap_eq_nil_iff]
    intro h hh
    have hnot := (List.mem_filter.mp hh).2
    rw [Bool.not_eq_true'] at hnot
    unfold DueHold.owed
    rw [hnot, if_neg Bool.false_ne_true]
  unfold owed
  rw [hp, hh]
  rfl

/-- What is settled by a time is settled by any later one. -/
theorem settled_settled {v u : Instant} (hvu : v ≤ u) (g : Gestures α) :
    (g.settled v).settled u = g.settled u := by
  unfold settled
  dsimp only
  rw [List.filter_filter, List.filter_filter]
  congr 1
  · refine List.filter_congr fun p _ => ?_
    cases hv : p.dueBy v with
    | false => simp
    | true => simp [Press.dueBy_mono hvu hv]
  · refine List.filter_congr fun h _ => ?_
    unfold DueHold.dueBy
    by_cases hv : h.due ≤ v
    · have hu : h.due ≤ u := le_trans hv hvu
      simp [hv, hu]
    · simp [hv]

/-- What is owed by a later time is what is owed by now, and what the rest will
owe. -/
theorem owed_mono {v u : Instant} (hvu : v ≤ u) (g : Gestures α) :
    g.owed u = g.owed v + (g.settled v).owed u := by
  have hp : ∀ ps : List (Press α), ((ps.flatMap (Press.owed u) : List α) : Multiset α) =
      ((ps.flatMap (Press.owed v) : List α) : Multiset α) +
        (((ps.filter fun p => !p.dueBy v).flatMap (Press.owed u) : List α) : Multiset α) := by
    intro ps
    induction ps with
    | nil => rfl
    | cons p ps ih =>
      rw [List.flatMap_cons, List.flatMap_cons, ← Multiset.coe_add, ← Multiset.coe_add, ih]
      cases hv : p.dueBy v with
      | false =>
        rw [List.filter_cons_of_pos (by simp [hv]), List.flatMap_cons, ← Multiset.coe_add,
          Press.owed_of_not_due hv]
        simp only [Multiset.coe_nil, zero_add]
        abel
      | true =>
        rw [List.filter_cons_of_neg (by simp [hv])]
        have hsame : p.owed u = p.owed v := by
          unfold Press.owed
          rw [hv, Press.dueBy_mono hvu hv]
        rw [hsame]
        abel
  have hh : ∀ hs : List (DueHold α), ((hs.flatMap (DueHold.owed u) : List α) : Multiset α) =
      ((hs.flatMap (DueHold.owed v) : List α) : Multiset α) +
        (((hs.filter fun h => !h.dueBy v).flatMap (DueHold.owed u) : List α) : Multiset α) := by
    intro hs
    induction hs with
    | nil => rfl
    | cons h hs ih =>
      rw [List.flatMap_cons, List.flatMap_cons, ← Multiset.coe_add, ← Multiset.coe_add, ih]
      by_cases hv : h.due ≤ v
      · have hu : h.due ≤ u := le_trans hv hvu
        rw [List.filter_cons_of_neg (by simp [DueHold.dueBy, hv])]
        have hsame : h.owed u = h.owed v := by simp [DueHold.owed, DueHold.dueBy, hv, hu]
        rw [hsame]
        abel
      · rw [List.filter_cons_of_pos (by simp [DueHold.dueBy, hv]), List.flatMap_cons,
          ← Multiset.coe_add]
        have hnone : h.owed v = [] := by simp [DueHold.owed, DueHold.dueBy, hv]
        rw [hnone]
        simp only [Multiset.coe_nil, zero_add]
        abel
  unfold owed
  rw [hp g.presses, hh g.dueHolds]
  unfold settled
  abel

/-! ## An operation that catches up -/

/-- By `u`, with what fired before and what is owed, the two are the same. -/
structure SameBy (u : Instant) (fired : Multiset α) (g : Gestures α) (fired₀ : Multiset α)
    (g₀ : Gestures α) : Prop where
  settled : g.settled u = g₀.settled u
  total : fired + g.owed u = fired₀ + g₀.owed u

theorem sameBy_mono {v u : Instant} (hvu : v ≤ u) {fired fired₀ : Multiset α} {g g₀ : Gestures α}
    (h : SameBy v fired g fired₀ g₀) : SameBy u fired g fired₀ g₀ := by
  refine ⟨?_, ?_⟩
  · rw [← settled_settled hvu g, h.settled, settled_settled hvu]
  · rw [owed_mono hvu g, owed_mono hvu g₀, ← add_assoc, ← add_assoc, h.total, h.settled]

/-- What an operation at `now` makes of `g` and fires, beside what it makes of
the settled `g` and fires: what the settled one lacks was owed. -/
structure CatchesUp (now : Instant) (g g' : Gestures α) (fires : List α) (g₀' : Gestures α)
    (fires₀ : List α) : Prop where
  settled : g'.settled now = g₀'.settled now
  total : (fires : Multiset α) + g'.owed now = g.owed now + fires₀ + g₀'.owed now

/-- An operation that adds to gestures which owe as much as `g` does the same to
the settled ones. -/
theorem catchesUp_plus {now : Instant} {g g' : Gestures α} (ho : g'.owed now = g.owed now)
    (fires : List α) (ps : List (Press α)) (hs : List (DueHold α)) :
    CatchesUp now g (g'.plus ps hs) fires ((g'.settled now).plus ps hs) fires := by
  refine ⟨?_, ?_⟩
  · rw [settled_plus, settled_plus, settled_settled (le_refl now)]
  · rw [owed_plus, owed_plus, ho, owed_settled, zero_add]
    abel

/-- A settled press of another key that a key-down ends is a waiting Tap, which
fires what it owes. -/
theorem deferredTap_of_cancels {vk : VirtualKey} {keys : KeyState} {now : Instant} {p : Press α}
    (hdue : p.dueBy now = true) (hcancels : cancels vk keys now p = true) :
    p.phase.deferredTap.toList = p.owed now := by
  unfold Press.owed
  rw [hdue, if_pos rfl]
  unfold Press.dueBy at hdue
  unfold cancels at hcancels
  rw [Bool.and_eq_true] at hcancels
  cases hphase : p.phase with
  | held tap hold double =>
    rw [hphase] at hdue hcancels
    cases hold with
    | none => simp [Phase.timerDue] at hdue
    | some entry =>
      simp only [Phase.timerDue, Option.any_some, decide_eq_true_eq] at hdue
      simp [hdue] at hcancels
  | awaitSecond due double group tap passed =>
    rw [hphase] at hdue
    cases tap with
    | none => simp [Phase.timerDue] at hdue
    | some action => rfl

theorem otherKeyDown_catchesUp (g : Gestures α) (vk : VirtualKey) (keys : KeyState)
    (now : Instant) :
    CatchesUp now g (g.otherKeyDown vk keys now).1 (g.otherKeyDown vk keys now).2
      ((g.settled now).otherKeyDown vk keys now).1
      ((g.settled now).otherKeyDown vk keys now).2 := by
  refine ⟨?_, ?_⟩
  · unfold otherKeyDown settled
    dsimp only
    rw [List.filter_filter, List.filter_filter, List.filter_filter, List.filter_filter]
    congr 1
    · refine List.filter_congr fun p _ => ?_
      cases p.dueBy now <;> simp
    · refine List.filter_congr fun h _ => ?_
      simp
  · -- Press by press: a due one that is cancelled fires the Tap it owed.
    have hpresses : ∀ ps : List (Press α),
        (((ps.filter (cancels vk keys now)).filterMap fun p => p.phase.deferredTap : List α) :
            Multiset α) +
          (((ps.filter fun p => !cancels vk keys now p).flatMap (Press.owed now) : List α) :
            Multiset α) =
        ((ps.flatMap (Press.owed now) : List α) : Multiset α) +
          ((((ps.filter fun p => !p.dueBy now).filter (cancels vk keys now)).filterMap
            fun p => p.phase.deferredTap : List α) : Multiset α) := by
      intro ps
      induction ps with
      | nil => rfl
      | cons p ps ih =>
        rw [List.filterMap_eq_flatMap_toList, List.filterMap_eq_flatMap_toList] at ih ⊢
        cases hdue : p.dueBy now with
        | true =>
          cases hcancels : cancels vk keys now p with
          | true =>
            have htap := deferredTap_of_cancels hdue hcancels
            simp only [List.filter_cons, hdue, hcancels, List.flatMap_cons, htap, Bool.not_true,
              Bool.false_eq_true, if_true, if_false, ← Multiset.coe_add]
            rw [add_assoc, ih]
            abel
          | false =>
            simp only [List.filter_cons, hdue, hcancels, List.flatMap_cons, Bool.not_true,
              Bool.not_false, Bool.false_eq_true, if_true, if_false, ← Multiset.coe_add]
            rw [add_left_comm, ih]
            abel
        | false =>
          have howed := Press.owed_of_not_due hdue
          cases hcancels : cancels vk keys now p with
          | true =>
            simp only [List.filter_cons, hdue, hcancels, List.flatMap_cons, howed, Bool.not_true,
              Bool.not_false, Bool.false_eq_true, if_true, if_false, ← Multiset.coe_add,
              List.nil_append]
            rw [add_assoc, ih]
            abel
          | false =>
            simp only [List.filter_cons, hdue, hcancels, List.flatMap_cons, howed,
              Bool.not_false, Bool.false_eq_true, if_true, if_false, List.nil_append]
            exact ih
    have hsettled : ((g.settled now).otherKeyDown vk keys now).1.owed now = 0 := by
      have hsame : ((g.settled now).otherKeyDown vk keys now).1 =
          (((g.settled now).otherKeyDown vk keys now).1).settled now := by
        unfold otherKeyDown settled
        dsimp only
        rw [List.filter_filter, List.filter_filter]
        congr 1
        · refine List.filter_congr fun p _ => ?_
          cases p.dueBy now <;> simp
        · rw [List.filter_filter]
          exact List.filter_congr fun h _ => by simp
      rw [hsame, owed_settled]
    rw [hsettled, add_zero]
    have h := hpresses g.presses
    unfold otherKeyDown owed
    dsimp only
    unfold settled
    dsimp only
    rw [← add_assoc, h]
    abel

/-! ## A first key-down -/

/-- The press that `group` arms. -/
def armedPress (vk : VirtualKey) (group : Option (GroupArming α)) (now : Instant) (seq : Nat) :
    List (Press α) :=
  (group.map fun gr => ⟨vk, seq, armed gr now⟩).toList

/-- When its Hold is due. -/
def armedDue (group : Option (GroupArming α)) (now : Instant) : Option Instant :=
  group.bind fun gr => gr.hold.map fun x => now + x.1

theorem arm_eq_plus (g : Gestures α) (vk : VirtualKey) (group : Option (GroupArming α))
    (now : Instant) (seq : Nat) :
    g.arm vk group now seq = (g.plus (armedPress vk group now seq) [], armedDue group now) := by
  cases group with
  | none => simp [arm, plus, armedPress, armedDue]
  | some gr => simp [arm, plus, armedPress, armedDue]

/-- A press that is not settled ends the same way whatever else is pending. -/
theorem supersede_plus {earlier : Press α} {now : Instant} (hdue : earlier.dueBy now = false)
    (vk : VirtualKey) (group : Option (GroupArming α)) (seq : Nat) :
    ∃ ps fires due, ∀ g : Gestures α,
      g.supersede earlier vk group now seq = (g.plus ps [], fires, due) := by
  unfold supersede
  cases hphase : earlier.phase with
  | awaitSecond due double window tap passed =>
    dsimp only
    by_cases hcomplete : (now < due && completes group window) = true
    · refine ⟨[], [double], none, fun g => ?_⟩
      simp [hcomplete, plus]
    · refine ⟨armedPress vk group now seq, tap.toList, armedDue group now, fun g => ?_⟩
      rw [if_neg hcomplete, arm_eq_plus]
  | held tap hold double =>
    refine ⟨armedPress vk group now seq, [], armedDue group now, fun g => ?_⟩
    dsimp only
    cases hold with
    | none => rw [arm_eq_plus]
    | some entry =>
      obtain ⟨due, action⟩ := entry
      have hlate : ¬due ≤ now := by
        unfold Press.dueBy at hdue
        rw [hphase] at hdue
        simpa [Phase.timerDue] using hdue
      dsimp only
      rw [if_neg hlate, arm_eq_plus]

/-- A settled press ends by leaving, or firing, what it owes. -/
theorem supersede_due {earlier : Press α} {now : Instant} (hdue : earlier.dueBy now = true)
    (vk : VirtualKey) (group : Option (GroupArming α)) (seq : Nat) :
    ∃ hs fires,
      (∀ g : Gestures α, g.supersede earlier vk group now seq =
        (g.plus (armedPress vk group now seq) hs, fires, armedDue group now)) ∧
      hs.filter (fun h => !h.dueBy now) = [] ∧
      ((fires : List α) : Multiset α) + ((hs.flatMap (DueHold.owed now) : List α) : Multiset α) =
        (earlier.owed now : List α) := by
  unfold Press.owed
  rw [hdue, if_pos rfl]
  unfold Press.dueBy at hdue
  unfold supersede
  cases hphase : earlier.phase with
  | awaitSecond due double window tap passed =>
    rw [hphase] at hdue
    cases tap with
    | none => simp [Phase.timerDue] at hdue
    | some action =>
      have hended : due ≤ now := by simpa [Phase.timerDue] using hdue
      have hclosed : ¬now < due := Nat.not_lt.mpr hended
      refine ⟨[], [action], fun g => ?_, rfl, rfl⟩
      simp [hclosed, arm_eq_plus]
  | held tap hold double =>
    rw [hphase] at hdue
    cases hold with
    | none => simp [Phase.timerDue] at hdue
    | some entry =>
      obtain ⟨due, action⟩ := entry
      have hended : due ≤ now := by simpa [Phase.timerDue] using hdue
      refine ⟨[⟨vk, earlier.seq, due, action⟩], [], fun g => ?_, ?_, ?_⟩
      · dsimp only
        rw [if_pos hended, arm_eq_plus]
        simp [plus]
      · simp [DueHold.dueBy, hended]
      · simp [DueHold.owed, DueHold.dueBy, hended, Phase.intoTimerAction]

theorem filter_none {test : Press α → Bool} {ps : List (Press α)} {now : Instant}
    (h : ∀ p ∈ ps, test p = false) :
    (ps.filter fun p => !p.dueBy now).find? test = none := by
  rw [List.find?_eq_none]
  intro p hp
  simp [h p (List.mem_filter.mp hp).1]

/-- What is owed by a list of presses that is split at one. -/
theorem owed_split {g : Gestures α} {as bs : List (Press α)} {p : Press α}
    (hsplit : g.presses = as ++ p :: bs) (now : Instant) :
    g.owed now = (p.owed now : List α) + (⟨as ++ bs, g.dueHolds⟩ : Gestures α).owed now := by
  unfold owed
  rw [hsplit, List.flatMap_append, List.flatMap_append, List.flatMap_cons, ← Multiset.coe_add,
    ← Multiset.coe_add, ← Multiset.coe_add]
  abel

theorem settled_split {g : Gestures α} {as bs : List (Press α)} {p : Press α}
    (hsplit : g.presses = as ++ p :: bs) {now : Instant} (hdue : p.dueBy now = true) :
    g.settled now = (⟨as ++ bs, g.dueHolds⟩ : Gestures α).settled now := by
  unfold settled
  simp [hsplit, hdue]

/-- A press that is not due is found among the settled ones too, and what stands
around it is the rest, settled. -/
theorem settled_around {g : Gestures α} {as bs : List (Press α)} {p : Press α}
    (hsplit : g.presses = as ++ p :: bs) {now : Instant} (hdue : p.dueBy now = false)
    {test : Press α → Bool} (has : ∀ a ∈ as, test a = false) (hp : test p = true) :
    (g.settled now).presses.find? test = some p ∧
      { g.settled now with presses := (g.settled now).presses.eraseP test } =
        (⟨as ++ bs, g.dueHolds⟩ : Gestures α).settled now ∧
      (⟨as ++ bs, g.dueHolds⟩ : Gestures α).owed now = g.owed now := by
  have hpresses : (g.settled now).presses =
      (as.filter fun p => !p.dueBy now) ++ p :: (bs.filter fun p => !p.dueBy now) := by
    unfold settled
    simp [hsplit, hdue]
  obtain ⟨hfind, herase⟩ := @find?_middle _ test (as.filter fun p => !p.dueBy now)
    (bs.filter fun p => !p.dueBy now) p (fun p hp => has p (List.mem_filter.mp hp).1) hp
  rw [hpresses]
  refine ⟨hfind, ?_, ?_⟩
  · rw [herase, ← List.filter_append]
    rfl
  · rw [owed_split hsplit, Press.owed_of_not_due hdue]
    simp

/-- **A first key-down treats a settled press of its key as resolved.** -/
theorem press_catchesUp {g : Gestures α} (hg : g.Wf) (vk : VirtualKey)
    (group : Option (GroupArming α)) (now : Instant) (seq : Nat) :
    CatchesUp now g (g.press vk group now seq).1 (g.press vk group now seq).2.1
        ((g.settled now).press vk group now seq).1 ((g.settled now).press vk group now seq).2.1 ∧
      (g.press vk group now seq).2.2 = ((g.settled now).press vk group now seq).2.2 := by
  unfold press
  dsimp only
  cases hfound : g.presses.find? fun p => p.vk == vk with
  | none =>
    have hnone : ∀ p ∈ g.presses, (p.vk == vk) = false := by
      intro p hp
      simpa using List.find?_eq_none.mp hfound p hp
    have hsettled : (g.settled now).presses.find? (fun p => p.vk == vk) = none := filter_none hnone
    rw [hsettled]
    dsimp only
    rw [arm_eq_plus, arm_eq_plus]
    exact ⟨catchesUp_plus rfl [] _ _, rfl⟩
  | some earlier =>
    obtain ⟨as, bs, hsplit, has, hvk, herase, -⟩ := find?_split hfound
    have hkeys := hg.keys
    rw [hsplit] at hkeys
    have hothers : ∀ p ∈ as ++ bs, (p.vk == vk) = false := by
      intro p hp
      have hne := notMem_split hkeys p hp
      rw [beq_iff_eq] at hvk
      rw [hvk] at hne
      simpa using hne
    dsimp only
    rw [herase]
    cases hdue : earlier.dueBy now with
    | true =>
      -- Settling has taken it out, and owes what the key-down fires or leaves due.
      obtain ⟨hs, fires, heq, hhs, htotal⟩ := supersede_due hdue vk group seq
      have hsettled : (g.settled now).presses.find? (fun p => p.vk == vk) = none := by
        rw [settled_split hsplit hdue]
        exact filter_none hothers
      rw [hsettled, heq]
      dsimp only
      rw [arm_eq_plus]
      refine ⟨⟨?_, ?_⟩, rfl⟩
      · rw [settled_plus, settled_plus, settled_settled (le_refl now), settled_split hsplit hdue,
          hhs]
        rfl
      · rw [owed_plus, owed_plus, owed_settled, owed_split hsplit]
        have hboth : (⟨armedPress vk group now seq, hs⟩ : Gestures α).owed now =
            (⟨armedPress vk group now seq, []⟩ : Gestures α).owed now +
              ((hs.flatMap (DueHold.owed now) : List α) : Multiset α) := by
          unfold owed
          simp
        rw [hboth, ← htotal]
        simp only [Multiset.coe_nil]
        abel
    | false =>
      obtain ⟨ps, fires, due, heq⟩ := supersede_plus hdue vk group seq
      obtain ⟨hfind, hrest, howed⟩ := settled_around hsplit hdue has hvk
      rw [hfind]
      dsimp only
      rw [hrest, heq, heq]
      exact ⟨catchesUp_plus howed fires ps [], rfl⟩

/-! ## A key-up -/

/-- The key-up of a press that is not settled does the same whatever else is
pending. -/
theorem resolve_plus {press : Press α} {now : Instant} (hdue : press.dueBy now = false)
    (vk : VirtualKey) (passed : Bool) (seq : Nat) :
    ∃ ps released, ∀ g : Gestures α,
      g.resolve press vk now passed seq = (g.plus ps [], released) := by
  have hinTime : ∀ (tap : Option (Instant × α)) (hadHold : Bool)
      (double : Option (Instant × α × GroupKey)), ∃ ps released, ∀ g : Gestures α,
        g.releaseInTime vk now passed seq tap hadHold double = (g.plus ps [], released) := by
    intro tap hadHold double
    unfold releaseInTime
    cases inTime now double with
    | none => exact ⟨[], _, fun g => by simp [plus]; rfl⟩
    | some entry => exact ⟨_, _, fun g => by simp [plus]; exact ⟨rfl, rfl⟩⟩
  unfold resolve
  cases hphase : press.phase with
  | awaitSecond due double window tap passed => exact ⟨[], .default, fun g => by simp [plus]⟩
  | held tap hold double =>
    cases hold with
    | none => exact hinTime tap false double
    | some entry =>
      obtain ⟨due, action⟩ := entry
      have hlate : ¬due ≤ now := by
        unfold Press.dueBy at hdue
        rw [hphase] at hdue
        simpa [Phase.timerDue] using hdue
      obtain ⟨ps, released, h⟩ := hinTime tap true double
      refine ⟨ps, released, fun g => ?_⟩
      dsimp only
      rw [if_neg hlate]
      exact h g

/-- A settled held press leaves its Hold for the timer. -/
theorem resolve_due {press : Press α} {now : Instant} (hdue : press.dueBy now = true)
    (hheld : press.phase.isHeld = true) (vk : VirtualKey) (passed : Bool) (seq : Nat) :
    ∃ hold, (∀ g : Gestures α,
        g.resolve press vk now passed seq = (g.plus [] [hold], ⟨none, true, none⟩)) ∧
      hold.dueBy now = true ∧ hold.owed now = press.owed now := by
  unfold Press.owed
  rw [hdue, if_pos rfl]
  unfold Press.dueBy at hdue
  unfold resolve
  cases hphase : press.phase with
  | awaitSecond due double window tap passed =>
    rw [hphase] at hheld
    exact absurd hheld (by simp [Phase.isHeld])
  | held tap hold double =>
    rw [hphase] at hdue
    cases hold with
    | none => simp [Phase.timerDue] at hdue
    | some entry =>
      obtain ⟨due, action⟩ := entry
      have hended : due ≤ now := by simpa [Phase.timerDue] using hdue
      refine ⟨⟨vk, press.seq, due, action⟩, fun g => ?_, ?_, ?_⟩
      · dsimp only
        rw [if_pos hended]
        simp [plus]
      · simp [DueHold.dueBy, hended]
      · simp [DueHold.owed, DueHold.dueBy, hended, Phase.intoTimerAction]

/-- **A key-up treats a settled press of its key as resolved.** What it reports
differs in one point: a settled press that is still there is evidence of a
swallowed key-down. -/
theorem release_catchesUp {g : Gestures α} (hg : g.Wf) (vk : VirtualKey) (now : Instant)
    (passed : Bool) (seq : Nat) :
    let r := g.release vk now passed seq
    let r₀ := (g.settled now).release vk now passed seq
    CatchesUp now g r.1 r.2.fired.toList r₀.1 r₀.2.fired.toList ∧
      r.2.windowDue = r₀.2.windowDue ∧
      (r.2.gestureBound = r₀.2.gestureBound ∨
        ∃ p ∈ g.presses, p.vk = vk ∧ p.phase.isHeld = true) := by
  intro r r₀
  have hr : r = g.release vk now passed seq := rfl
  have hr₀ : r₀ = (g.settled now).release vk now passed seq := rfl
  unfold release at hr hr₀
  dsimp only at hr hr₀
  cases hfound : g.presses.find? fun p => p.vk == vk && p.phase.isHeld with
  | none =>
    have hnone : ∀ p ∈ g.presses, (p.vk == vk && p.phase.isHeld) = false := by
      intro p hp
      simpa using List.find?_eq_none.mp hfound p hp
    have hsettled : (g.settled now).presses.find? (fun p => p.vk == vk && p.phase.isHeld) = none :=
      filter_none hnone
    rw [hfound] at hr
    rw [hsettled] at hr₀
    rw [hr, hr₀]
    have h := @catchesUp_plus α now g g rfl [] [] []
    simp only [plus, List.append_nil] at h
    exact ⟨h, rfl, Or.inl rfl⟩
  | some press =>
    obtain ⟨as, bs, hsplit, has, hours, herase, -⟩ := find?_split hfound
    have hours' := hours
    rw [Bool.and_eq_true, beq_iff_eq] at hours'
    have hkeys := hg.keys
    rw [hsplit] at hkeys
    have hothers : ∀ p ∈ as ++ bs, (p.vk == vk && p.phase.isHeld) = false := by
      intro p hp
      have hne := notMem_split hkeys p hp
      rw [hours'.1] at hne
      simp [hne]
    rw [hfound] at hr
    dsimp only at hr
    rw [herase] at hr
    cases hdue : press.dueBy now with
    | true =>
      -- Settling has taken it out, and owes the Hold that the key-up leaves due.
      obtain ⟨hold, heq, hhold, howed⟩ := resolve_due hdue hours'.2 vk passed seq
      have hsettled : (g.settled now).presses.find? (fun p => p.vk == vk && p.phase.isHeld) =
          none := by
        rw [settled_split hsplit hdue]
        exact filter_none hothers
      rw [heq] at hr
      rw [hsettled] at hr₀
      rw [hr, hr₀]
      refine ⟨⟨?_, ?_⟩, rfl, Or.inr ⟨press, by simp [hsplit], hours'⟩⟩
      · dsimp only
        rw [settled_plus, settled_settled (le_refl now), settled_split hsplit hdue]
        simp [plus, hhold]
      · dsimp only
        rw [owed_plus, owed_settled, owed_split hsplit, ← howed]
        have hone : (⟨[], [hold]⟩ : Gestures α).owed now = (hold.owed now : List α) := by
          unfold owed
          simp
        rw [hone]
        simp only [Option.toList_none, Released.default, Multiset.coe_nil]
        abel
    | false =>
      obtain ⟨ps, released, heq⟩ := resolve_plus hdue vk passed seq
      obtain ⟨hfind, hrest, howed⟩ := settled_around hsplit hdue has hours
      rw [heq] at hr
      rw [hfind] at hr₀
      dsimp only at hr₀
      rw [hrest, heq] at hr₀
      rw [hr, hr₀]
      exact ⟨catchesUp_plus howed released.fired.toList ps [], rfl, Or.inl rfl⟩

/-! ## A timer -/

/-- The entry a timer takes out, if due by `u`, was settled and owed its
action. -/
theorem takeTimer_settles {g g' : Gestures α} {vk : VirtualKey} {seq : Nat} {due u : Instant}
    {action : α} (h : g.takeTimer vk seq = some (g', due, action)) (hdue : due ≤ u) :
    g'.settled u = g.settled u ∧ g.owed u = {action} + g'.owed u := by
  unfold takeTimer at h
  split at h
  · next hold hfound =>
    obtain ⟨as, bs, hsplit, -, -, herase, -⟩ := find?_split hfound
    simp only [Option.some.injEq, Prod.mk.injEq] at h
    obtain ⟨rfl, rfl, rfl⟩ := h
    rw [herase]
    have hby : hold.dueBy u = true := decide_eq_true hdue
    refine ⟨?_, ?_⟩
    · unfold settled
      simp [hsplit, hby]
    · unfold owed
      rw [hsplit, List.flatMap_append, List.flatMap_cons, List.flatMap_append, ← Multiset.coe_add,
        ← Multiset.coe_add, ← Multiset.coe_add]
      have hone : hold.owed u = [hold.action] := if_pos hby
      rw [hone, Multiset.coe_singleton]
      abel
  · split at h
    · exact absurd h (by simp)
    · next press hfound =>
      obtain ⟨as, bs, hsplit, -, -, herase, -⟩ := find?_split hfound
      split at h
      · next due' action' hdue' haction =>
        simp only [Option.some.injEq, Prod.mk.injEq] at h
        obtain ⟨rfl, rfl, rfl⟩ := h
        rw [herase]
        have hby : press.dueBy u = true := by
          unfold Press.dueBy
          rw [hdue']
          exact decide_eq_true hdue
        refine ⟨(settled_split hsplit hby).symm, ?_⟩
        have hone : press.owed u = [action'] := by
          unfold Press.owed
          rw [if_pos hby, haction]
          rfl
        rw [owed_split hsplit, hone, Multiset.coe_singleton]
      · exact absurd h (by simp)

/-- A Tap whose window closed by `u` is settled and owes that Tap. -/
theorem owed_of_closedBy {p : Press α} {now u : Instant} (hnow : now ≤ u)
    (h : p.phase.closedBy now = true) :
    p.dueBy u = true ∧ p.phase.deferredTap.toList = p.owed u := by
  unfold Phase.closedBy at h
  split at h
  · next due double group tap passed hphase =>
    have hdue : due ≤ u := le_trans (of_decide_eq_true h) hnow
    have hby : p.dueBy u = true := by
      unfold Press.dueBy
      rw [hphase]
      exact decide_eq_true hdue
    refine ⟨hby, ?_⟩
    unfold Press.owed
    rw [if_pos hby, hphase]
    rfl
  · exact absurd h Bool.false_ne_true

theorem fireClosedWindows_settles (g : Gestures α) {now u : Instant} (hnow : now ≤ u) :
    (g.fireClosedWindows now).1.settled u = g.settled u ∧
      g.owed u = ((g.fireClosedWindows now).2 : Multiset α)
        + (g.fireClosedWindows now).1.owed u := by
  unfold fireClosedWindows
  refine ⟨?_, ?_⟩
  · unfold settled
    dsimp only
    rw [List.filter_filter]
    congr 1
    refine List.filter_congr fun p _ => ?_
    cases hclosed : p.phase.closedBy now with
    | false => simp
    | true => simp [(owed_of_closedBy hnow hclosed).1]
  · unfold owed
    dsimp only
    rw [← add_assoc]
    congr 1
    induction g.presses with
    | nil => rfl
    | cons p ps ih =>
      rw [List.filterMap_eq_flatMap_toList] at ih ⊢
      rw [List.flatMap_cons, ← Multiset.coe_add, ih]
      cases hclosed : p.phase.closedBy now with
      | true =>
        have htap := (owed_of_closedBy hnow hclosed).2
        simp only [List.filter_cons, hclosed, List.flatMap_cons, htap, Bool.not_true,
          Bool.false_eq_true, if_true, if_false, ← Multiset.coe_add]
        rw [add_assoc]
      | false =>
        simp only [List.filter_cons, hclosed, List.flatMap_cons, Bool.not_false,
          Bool.false_eq_true, if_true, if_false, ← Multiset.coe_add]
        abel

/-- **A timer that is due by `u` fires what was owed by then, and no more.** -/
theorem onTimer_settles (g : Gestures α) {vk : VirtualKey} {seq generation : Nat} {u : Instant}
    (hdue : ∀ due, (⟨⟨generation, .gesture vk, seq⟩, due⟩ : TimerRequest) ∈ g.timed generation →
      due ≤ u) :
    (g.onTimer vk seq).1.settled u = g.settled u ∧
      g.owed u = ((g.onTimer vk seq).2 : Multiset α) + (g.onTimer vk seq).1.owed u := by
  unfold onTimer
  split
  · exact ⟨rfl, by simp⟩
  · next g' due action htake =>
    have hperm : (g.timed generation).Perm
        (⟨⟨generation, .gesture vk, seq⟩, due⟩ :: g'.timed generation) :=
      (takeTimer_some generation htake).2
    have hmem := hperm.symm.subset List.mem_cons_self
    obtain ⟨hsettled, howed⟩ := takeTimer_settles htake (hdue due hmem)
    obtain ⟨hsettled', howed'⟩ := g'.fireClosedWindows_settles (hdue due hmem)
    refine ⟨hsettled'.trans hsettled, ?_⟩
    dsimp only
    rw [howed, howed', ← Multiset.coe_add, Multiset.coe_singleton]
    abel

/-- Operations that catch up from states that are the same lead to states that
are the same. -/
theorem sameBy_of_catchesUp {now : Instant} {fired fired₀ : Multiset α}
    {g g₀ g' g₀' c : Gestures α} {fires fires₀ fs : List α} (h : SameBy now fired g fired₀ g₀)
    (h₁ : CatchesUp now g g' fires c fs) (h₂ : CatchesUp now g₀ g₀' fires₀ c fs) :
    SameBy now (fired + (fires : Multiset α)) g' (fired₀ + (fires₀ : Multiset α)) g₀' := by
  refine ⟨h₁.settled.trans h₂.settled.symm, ?_⟩
  calc fired + (fires : Multiset α) + g'.owed now
      = fired + g.owed now + ((fs : Multiset α) + c.owed now) := by
        rw [add_assoc, h₁.total]
        abel
    _ = fired₀ + g₀.owed now + ((fs : Multiset α) + c.owed now) := by rw [h.total]
    _ = fired₀ + (fires₀ : Multiset α) + g₀'.owed now := by
        rw [add_assoc fired₀, add_assoc fired₀, h₂.total]
        abel

end Gestures

/-! ## Chords and sequences -/

theorem Chords.retainOpen_retainOpen (c : Chords α) {v u : Instant} (hvu : v ≤ u) :
    (c.retainOpen v).retainOpen u = c.retainOpen u := by
  unfold retainOpen
  dsimp only
  rw [List.filter_filter]
  congr 1
  refine List.filter_congr fun p _ => ?_
  by_cases hp : u < p.expiresAt
  · have hv : v < p.expiresAt := lt_of_le_of_lt hvu hp
    simp [hp, hv]
  · simp [hp]

/-- A key-down drops the expired chords itself: their timers make no
difference. -/
theorem Chords.onKeyDown_retainOpen (c : Chords α) (vk : VirtualKey) (action : α)
    (chordKeys : List KeySpec) (window : Duration) (now : Instant) (seq : Nat) :
    ((c.retainOpen now).onKeyDown vk action chordKeys window now seq).2 =
        (c.onKeyDown vk action chordKeys window now seq).2 ∧
      ((c.retainOpen now).onKeyDown vk action chordKeys window now seq).1.retainOpen now =
        (c.onKeyDown vk action chordKeys window now seq).1.retainOpen now := by
  unfold onKeyDown
  dsimp only
  rw [c.retainOpen_retainOpen (le_refl now)]
  split
  · exact ⟨rfl, c.retainOpen_retainOpen (le_refl now)⟩
  · exact ⟨rfl, rfl⟩

/-- An expiry timer that is due by `u` drops entries that are expired by then. -/
theorem Chords.expire_retainOpen (c : Chords α) {seq : Nat} {u : Instant}
    (h : ∀ p ∈ c.pending, p.seq = seq → p.expiresAt ≤ u) :
    (c.expire seq).retainOpen u = c.retainOpen u := by
  unfold expire retainOpen
  dsimp only
  rw [List.filter_filter]
  congr 1
  refine List.filter_congr fun p hp => ?_
  by_cases hseq : p.seq = seq
  · have hclosed := Nat.not_lt.mpr (h p hp hseq)
    simp [hclosed]
  · simp [hseq]

theorem Sequences.retainOpen_retainOpen (s : Sequences α) {v u : Instant} (hvu : v ≤ u) :
    (s.retainOpen v).retainOpen u = s.retainOpen u := by
  unfold retainOpen
  dsimp only
  rw [List.filter_filter]
  congr 1
  refine List.filter_congr fun p _ => ?_
  by_cases hp : u < p.expiresAt
  · have hv : v < p.expiresAt := lt_of_le_of_lt hvu hp
    simp [hp, hv]
  · simp [hp]

theorem Sequences.onKeyDown_retainOpen (s : Sequences α) (held : KeyState) (action : α)
    (steps : List KeyCombination) (maxGap : Duration) (now : Instant) (seq : Nat) :
    ((s.retainOpen now).onKeyDown held action steps maxGap now seq).2 =
        (s.onKeyDown held action steps maxGap now seq).2 ∧
      ((s.retainOpen now).onKeyDown held action steps maxGap now seq).1.retainOpen now =
        (s.onKeyDown held action steps maxGap now seq).1.retainOpen now := by
  unfold onKeyDown
  cases steps with
  | nil => exact ⟨rfl, s.retainOpen_retainOpen (le_refl now)⟩
  | cons first rest =>
    dsimp only
    rw [s.retainOpen_retainOpen (le_refl now)]
    exact ⟨rfl, rfl⟩

theorem Sequences.expire_retainOpen (s : Sequences α) {seq : Nat} {u : Instant}
    (h : ∀ p ∈ s.pending, p.seq = seq → p.expiresAt ≤ u) :
    (s.expire seq).retainOpen u = s.retainOpen u := by
  unfold expire retainOpen
  dsimp only
  rw [List.filter_filter]
  congr 1
  refine List.filter_congr fun p hp => ?_
  by_cases hseq : p.seq = seq
  · have hclosed := Nat.not_lt.mpr (h p hp hseq)
    simp [hclosed]
  · simp [hseq]

end KeySwitch.Engine
