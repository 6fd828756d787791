import KeySwitch.Engine.PendingSteps
import KeySwitch.Engine.PressLife

/-!
# The press behind a life

The actions of one armed press are marked with their gestures; no other action
in the tables is. So the table entries that hold a marked action are that press,
and `Carries` says which entry that is in each state of its `Life`.

Each operation on the gestures is a cue to the press: the entry that carries it
changes as its life does, and what the operation fires of the marked actions is
what the life fires (`Cued`). The other entries may come, go and fire as they
like.
-/

namespace KeySwitch.Engine

open Data Lib

variable {α : Type}

/-! ## Marked entries -/

/-- What a group armed: its key, the number of the arming, and its gestures with
their deadlines. -/
structure Arming (α : Type) where
  vk : VirtualKey
  seq : Nat
  tap : Option (Instant × α)
  hold : Option (Instant × α)
  double : Option (Instant × α × GroupKey)

def Arming.deadlines (a : Arming α) : Deadlines :=
  ⟨a.tap.map Prod.fst, a.hold.map Prod.fst, a.double.map Prod.fst⟩

/-- The actions of the arming are marked as what they are, and there is one. -/
structure Arming.Marked (tag : α → Option Gesture) (a : Arming α) : Prop where
  tap : ∀ x ∈ a.tap, tag x.2 = some .tap
  hold : ∀ x ∈ a.hold, tag x.2 = some .hold
  double : ∀ x ∈ a.double, tag x.2.1 = some .doubleTap

/-- The actions that a phase may fire. -/
def Phase.actions : Phase α → List α
  | .held tap hold double =>
    (tap.map Prod.snd).toList ++ (hold.map Prod.snd).toList ++ (double.map fun x => x.2.1).toList
  | .awaitSecond _ double _ tap _ => double :: tap.toList

def Phase.marked (tag : α → Option Gesture) (p : Phase α) : Bool :=
  p.actions.any fun action => (tag action).isSome

def Press.marked (tag : α → Option Gesture) (p : Press α) : Bool := p.phase.marked tag

def DueHold.marked (tag : α → Option Gesture) (h : DueHold α) : Bool := (tag h.action).isSome

/-- A group none of whose actions is marked. -/
structure GroupArming.Unmarked (tag : α → Option Gesture) (group : GroupArming α) : Prop where
  tap : ∀ x ∈ group.tap, tag x.2 = none
  hold : ∀ x ∈ group.hold, tag x.2 = none
  double : ∀ x ∈ group.doubleTap, tag x.2 = none

variable {tag : α → Option Gesture}

theorem Phase.unmarked_action {p : Phase α} (h : p.marked tag = false) {action : α}
    (haction : action ∈ p.actions) : tag action = none := by
  have hnone := List.any_eq_false.mp h action haction
  simpa using hnone

theorem Phase.deferredTap_mem {p : Phase α} {tap : α} (h : p.deferredTap = some tap) :
    tap ∈ p.actions := by
  cases p with
  | held _ _ _ => exact absurd h (by simp [Phase.deferredTap])
  | awaitSecond due double group deferred passed =>
    obtain rfl : deferred = some tap := h
    simp [Phase.actions]

theorem Phase.intoTimerAction_mem {p : Phase α} {action : α} (h : p.intoTimerAction = some action) :
    action ∈ p.actions := by
  cases p with
  | held tap hold double =>
    cases hold with
    | none => exact absurd h (by simp [Phase.intoTimerAction])
    | some entry =>
      obtain rfl := Option.some.inj h
      simp [Phase.actions]
  | awaitSecond due double group deferred passed =>
    cases deferred with
    | none => exact absurd h (by simp [Phase.intoTimerAction])
    | some tap =>
      obtain rfl := Option.some.inj h
      simp [Phase.actions]

/-- The waiting Taps of some presses fire what the marked ones among them do. -/
theorem filterMap_tag_deferredTap (presses : List (Press α)) :
    (presses.filterMap fun p => p.phase.deferredTap).filterMap tag =
      ((presses.filter (Press.marked tag)).filterMap
        fun p => p.phase.deferredTap).filterMap tag := by
  induction presses with
  | nil => rfl
  | cons p presses ih =>
    cases hmarked : p.marked tag with
    | true =>
      rw [List.filter_cons_of_pos hmarked, List.filterMap_cons, List.filterMap_cons]
      cases p.phase.deferredTap with
      | none => exact ih
      | some tap =>
        rw [List.filterMap_cons, List.filterMap_cons, ih]
    | false =>
      rw [List.filter_cons_of_neg (by simp [hmarked]), ← ih, List.filterMap_cons]
      cases htap : p.phase.deferredTap with
      | none => rfl
      | some tap =>
        dsimp only
        rw [List.filterMap_cons, Phase.unmarked_action hmarked (Phase.deferredTap_mem htap)]

/-- A list whose only marked element is `own` has it, and no other. -/
theorem mem_of_filter {β : Type} {marked : β → Bool} {l : List β} {own : β}
    (h : l.filter marked = [own]) : own ∈ l ∧ marked own = true ∧
      ∀ x ∈ l, marked x = true → x = own := by
  obtain ⟨hmem, hmarked⟩ := List.mem_filter.mp (h ▸ List.mem_singleton_self own)
  refine ⟨hmem, hmarked, fun x hx hxm => ?_⟩
  have hin : x ∈ l.filter marked := List.mem_filter.mpr ⟨hx, hxm⟩
  rw [h] at hin
  exact List.mem_singleton.mp hin

theorem unmarked_of_filter {β : Type} {marked : β → Bool} {l : List β}
    (h : l.filter marked = []) {x : β} (hx : x ∈ l) : marked x = false := by
  rw [List.filter_eq_nil_iff] at h
  exact Bool.eq_false_iff.mpr (h x hx)

/-! ## Which entry carries the press -/

/-- The entry that a held press is. -/
def Arming.held (a : Arming α) (hold : Option (Instant × α)) : Press α :=
  ⟨a.vk, a.seq, .held a.tap hold a.double⟩

/-- The entries that hold a marked action: one press, one due Hold or none. -/
structure Entries (tag : α → Option Gesture) (presses : List (Press α))
    (dueHolds : List (DueHold α)) (g : Gestures α) : Prop where
  presses : g.presses.filter (Press.marked tag) = presses
  dueHolds : g.dueHolds.filter (DueHold.marked tag) = dueHolds

/-- The entry that carries the press in each state of its life. -/
def Carries (tag : α → Option Gesture) (a : Arming α) (g : Gestures α) : Life → Prop
  | .held hold => ∃ entry, (entry = a.hold ∨ entry = none) ∧ hold = entry.map Prod.fst ∧
      Entries tag [a.held entry] [] g
  | .due => ∃ due action, a.hold = some (due, action) ∧
      Entries tag [] [⟨a.vk, a.seq, due, action⟩] g
  | .waiting tap passed => ∃ due double group seq, a.double = some (due, double, group) ∧
      (tap = true → a.tap.isSome = true) ∧
      Entries tag [⟨a.vk, seq, .awaitSecond due double group
        (if tap then a.tap.map Prod.snd else none) passed⟩] [] g
  | .ended => Entries tag [] [] g

/-- The operation that leaves `g` and fires `fire` is the cue `cue` to the press. -/
structure Cued (tag : α → Option Gesture) (a : Arming α) (now : Instant) (life : Life)
    (cue : Cue) (g : Gestures α) (fire : List α) : Prop where
  carries : Carries tag a g (Life.step a.deadlines now life cue).1
  fires : fire.filterMap tag = (Life.step a.deadlines now life cue).2.toList

theorem cued_of_step {a : Arming α} {now : Instant} {life : Life} {cue : Cue} {g : Gestures α}
    {fire : List α} {next : Life × Option Gesture}
    (hstep : Life.step a.deadlines now life cue = next) (hcarries : Carries tag a g next.1)
    (hfires : fire.filterMap tag = next.2.toList) : Cued tag a now life cue g fire := by
  subst hstep
  exact ⟨hcarries, hfires⟩

/-- What keeps the marked entries keeps the press. -/
theorem carries_of_same {a : Arming α} {g g' : Gestures α}
    (hpresses : g'.presses.filter (Press.marked tag) = g.presses.filter (Press.marked tag))
    (hholds : g'.dueHolds.filter (DueHold.marked tag) = g.dueHolds.filter (DueHold.marked tag))
    {life : Life} (h : Carries tag a g life) : Carries tag a g' life := by
  have hentries : ∀ {ps hs}, Entries tag ps hs g → Entries tag ps hs g' := fun h =>
    ⟨hpresses.trans h.presses, hholds.trans h.dueHolds⟩
  cases life with
  | held hold =>
    obtain ⟨entry, hentry, hhold, h⟩ := h
    exact ⟨entry, hentry, hhold, hentries h⟩
  | due =>
    obtain ⟨due, action, hhold, h⟩ := h
    exact ⟨due, action, hhold, hentries h⟩
  | waiting tap passed =>
    obtain ⟨due, double, group, seq, hdouble, htap, h⟩ := h
    exact ⟨due, double, group, seq, hdouble, htap, hentries h⟩
  | ended => exact hentries h

/-- The press of the arming's key, where there is one among the entries. -/
theorem own_of_vk {g : Gestures α} (hwf : g.Wf) {own : Press α}
    (h : g.presses.filter (Press.marked tag) = [own]) {p : Press α} (hp : p ∈ g.presses)
    (hvk : p.vk = own.vk) : p = own :=
  List.inj_on_of_nodup_map hwf.keys hp (mem_of_filter h).1 hvk

/-- The Tap that waits, as a marked action. -/
theorem tapIf_marked {a : Arming α} (ha : a.Marked tag) {tap : Bool}
    (htap : tap = true → a.tap.isSome = true) :
    ((if tap then a.tap.map Prod.snd else none).toList).filterMap tag =
      (Life.tapIf tap).toList := by
  cases tap with
  | false => rfl
  | true =>
    obtain ⟨entry, hentry⟩ := Option.isSome_iff_exists.mp (htap rfl)
    rw [if_pos rfl, hentry]
    show [entry.2].filterMap tag = [Gesture.tap]
    rw [List.filterMap_cons, ha.tap entry hentry]
    rfl

theorem filterMap_deferredTap_singleton (p : Press α) :
    [p].filterMap (fun p => p.phase.deferredTap) = p.phase.deferredTap.toList := by
  rw [List.filterMap_cons, List.filterMap_nil]
  cases p.phase.deferredTap <;> rfl

namespace Gestures

/-! ## First key-downs -/

/-- Whether `vk` is a key of the combo of the press's group. -/
def ofCombo (a : Arming α) (vk : VirtualKey) : Bool :=
  a.double.any fun x => x.2.2.keys.keys.any fun key => key.accepts vk

/-- A filter of the presses keeps the press or drops it. -/
theorem carries_filter {g : Gestures α} {ps : List (Press α)}
    {hs : List (DueHold α)} (h : Entries tag ps hs g) (test : Press α → Bool) :
    Entries tag (ps.filter test) hs { g with presses := g.presses.filter test } := by
  refine ⟨?_, h.dueHolds⟩
  dsimp only
  rw [← h.presses, List.filter_filter, List.filter_filter]
  congr 1
  funext p
  exact Bool.and_comm ..

/-- What the presses that a test picks fire of the marked actions. -/
theorem fires_filter {g : Gestures α} {ps : List (Press α)} {hs : List (DueHold α)}
    (h : Entries tag ps hs g) (test : Press α → Bool) :
    ((g.presses.filter test).filterMap fun p => p.phase.deferredTap).filterMap tag =
      ((ps.filter test).filterMap fun p => p.phase.deferredTap).filterMap tag := by
  rw [filterMap_tag_deferredTap, ← h.presses, List.filter_filter, List.filter_filter]
  congr 3
  funext p
  exact Bool.and_comm ..

/-- A first key-down of another key, for the press. -/
theorem otherKeyDown_other {a : Arming α} (ha : a.Marked tag) {g : Gestures α} {life : Life}
    (h : Carries tag a g life) {vk : VirtualKey} (hvk : vk ≠ a.vk) (keys : KeyState)
    (now : Instant) :
    Cued tag a now life (.other (ofCombo a vk) (keys.isPassed a.vk))
      (g.otherKeyDown vk keys now).1 (g.otherKeyDown vk keys now).2 := by
  have hne : (a.vk != vk) = true := by simpa using fun h => hvk h.symm
  cases life with
  | ended =>
    refine ⟨carries_filter h _, ?_⟩
    exact fires_filter h _
  | due =>
    obtain ⟨due, action, hhold, h⟩ := h
    exact ⟨⟨due, action, hhold, carries_filter h _⟩, fires_filter h _⟩
  | held hold =>
    obtain ⟨entry, hentry, rfl, h⟩ := h
    have hkeep := carries_filter h fun p => !cancels vk keys now p
    have hfires := fires_filter h (cancels vk keys now)
    have hcancels : cancels vk keys now (a.held entry) =
        (keys.isPassed a.vk && !dueBy (entry.map Prod.fst) now) := by
      unfold cancels Arming.held dueBy
      dsimp only
      rw [hne, Bool.true_and, Option.any_map]
    rw [List.filter_cons, List.filter_nil, hcancels] at hkeep hfires
    have hstep : Life.step a.deadlines now (.held (entry.map Prod.fst))
        (.other (ofCombo a vk) (keys.isPassed a.vk)) =
        (if keys.isPassed a.vk && !dueBy (entry.map Prod.fst) now then .ended
          else .held (entry.map Prod.fst), none) := rfl
    cases hcut : (keys.isPassed a.vk && !dueBy (entry.map Prod.fst) now) with
    | true =>
      rw [hcut] at hkeep hfires hstep
      exact cued_of_step hstep hkeep hfires
    | false =>
      rw [hcut] at hkeep hfires hstep
      exact cued_of_step hstep ⟨entry, hentry, rfl, hkeep⟩ hfires
  | waiting tap passed =>
    obtain ⟨due, double, group, seq, hdouble, htap, h⟩ := h
    have hkeep := carries_filter h fun p => !cancels vk keys now p
    have hfires := fires_filter h (cancels vk keys now)
    have hours : ofCombo a vk = group.keys.keys.any fun key => key.accepts vk := by
      unfold ofCombo
      rw [hdouble]
      rfl
    have hsome : (if tap then a.tap.map Prod.snd else none).isSome = tap := by
      cases tap with
      | false => rfl
      | true => simpa using htap rfl
    have hcancels : cancels vk keys now ⟨a.vk, seq, .awaitSecond due double group
        (if tap then a.tap.map Prod.snd else none) passed⟩ =
        (if ofCombo a vk then false else tap || passed) := by
      unfold cancels
      dsimp only
      rw [hne, Bool.true_and, hours, hsome]
    rw [List.filter_cons, List.filter_nil, hcancels] at hkeep hfires
    generalize ofCombo a vk = ours at hkeep hfires ⊢
    cases ours with
    | true => exact cued_of_step rfl ⟨due, double, group, seq, hdouble, htap, hkeep⟩ hfires
    | false =>
      cases tap with
      | false =>
        cases passed with
        | false => exact cued_of_step rfl ⟨due, double, group, seq, hdouble, htap, hkeep⟩ hfires
        | true => exact cued_of_step rfl hkeep hfires
      | true =>
        refine cued_of_step rfl hkeep (hfires.trans ?_)
        refine (congrArg (List.filterMap tag) (filterMap_deferredTap_singleton _)).trans ?_
        exact tapIf_marked ha htap

/-- The marked presses are of the arming's key. -/
theorem vk_of_marked {a : Arming α} {g : Gestures α} {life : Life} (h : Carries tag a g life)
    {p : Press α} (hp : p ∈ g.presses) (hmarked : p.marked tag = true) : p.vk = a.vk := by
  have hempty : ∀ {hs : List (DueHold α)}, Entries tag [] hs g → p.vk = a.vk := fun h =>
    absurd (hmarked.symm.trans (unmarked_of_filter h.presses hp)) (by simp)
  cases life with
  | held hold =>
    obtain ⟨entry, -, -, h⟩ := h
    rw [(mem_of_filter h.presses).2.2 p hp hmarked]
    rfl
  | due =>
    obtain ⟨due, action, -, h⟩ := h
    exact hempty h
  | waiting tap passed =>
    obtain ⟨due, double, group, seq, -, -, h⟩ := h
    rw [(mem_of_filter h.presses).2.2 p hp hmarked]
  | ended => exact hempty h

theorem armed_unmarked {group : GroupArming α} (h : group.Unmarked tag) (vk : VirtualKey)
    (now : Instant) (seq : Nat) :
    (⟨vk, seq, armed group now⟩ : Press α).marked tag = false := by
  have htap := h.tap
  have hhold := h.hold
  have hdouble := h.double
  unfold Press.marked Phase.marked armed Phase.actions
  rw [List.any_eq_false]
  intro action haction
  simp only [List.mem_append, Option.mem_toList, Option.map_map, Option.map_eq_some_iff,
    Function.comp_apply] at haction
  rcases haction with (⟨x, hx, rfl⟩ | ⟨x, hx, rfl⟩) | ⟨x, hx, rfl⟩
  · simpa using htap x hx
  · simpa using hhold x hx
  · simpa using hdouble x hx

theorem arm_unmarked (g : Gestures α) {group : Option (GroupArming α)}
    (h : ∀ gr ∈ group, gr.Unmarked tag) (vk : VirtualKey) (now : Instant) (seq : Nat) :
    (g.arm vk group now seq).1.presses.filter (Press.marked tag) =
        g.presses.filter (Press.marked tag) ∧
      (g.arm vk group now seq).1.dueHolds = g.dueHolds := by
  cases group with
  | none => exact ⟨rfl, rfl⟩
  | some group =>
    refine ⟨?_, rfl⟩
    unfold arm
    dsimp only
    rw [List.filter_append, List.filter_cons_of_neg (by simp [armed_unmarked (h group rfl)]),
      List.filter_nil, List.append_nil]

/-- A press that is not the arming's ends at the next key-down of its key. -/
theorem supersede_unmarked (g : Gestures α) {earlier : Press α} (h : earlier.marked tag = false)
    {group : Option (GroupArming α)} (hgroup : ∀ gr ∈ group, gr.Unmarked tag) (vk : VirtualKey)
    (now : Instant) (seq : Nat) :
    (g.supersede earlier vk group now seq).1.presses.filter (Press.marked tag) =
        g.presses.filter (Press.marked tag) ∧
      (g.supersede earlier vk group now seq).1.dueHolds.filter (DueHold.marked tag) =
        g.dueHolds.filter (DueHold.marked tag) ∧
      (g.supersede earlier vk group now seq).2.1.filterMap tag = [] := by
  obtain ⟨pvk, pseq, phase⟩ := earlier
  have haction : ∀ {action}, action ∈ phase.actions → tag action = none := fun hmem =>
    Phase.unmarked_action h hmem
  unfold supersede
  cases phase with
  | awaitSecond due double window deferred passed =>
    dsimp only
    split
    · refine ⟨rfl, rfl, ?_⟩
      rw [List.filterMap_cons, haction (by simp [Phase.actions])]
      rfl
    · obtain ⟨harm, hholds⟩ := g.arm_unmarked hgroup vk now seq
      refine ⟨harm, by rw [hholds], ?_⟩
      cases deferred with
      | none => rfl
      | some tap =>
        show [tap].filterMap tag = []
        rw [List.filterMap_cons, haction (by simp [Phase.actions])]
        rfl
  | held tap hold double =>
    cases hold with
    | none =>
      obtain ⟨harm, hholds⟩ := g.arm_unmarked hgroup vk now seq
      exact ⟨harm, by rw [hholds], rfl⟩
    | some entry =>
      obtain ⟨due, action⟩ := entry
      dsimp only
      split
      · obtain ⟨harm, hholds⟩ := arm_unmarked
          { g with dueHolds := g.dueHolds ++ [⟨vk, pseq, due, action⟩] } hgroup vk now seq
        refine ⟨harm, ?_, rfl⟩
        have hunmarked : DueHold.marked tag ⟨vk, pseq, due, action⟩ = false := by
          unfold DueHold.marked
          rw [haction (by simp [Phase.actions])]
          rfl
        rw [hholds]
        dsimp only
        rw [List.filter_append, List.filter_cons_of_neg (by simp [hunmarked]), List.filter_nil,
          List.append_nil]
      · obtain ⟨harm, hholds⟩ := g.arm_unmarked hgroup vk now seq
        exact ⟨harm, by rw [hholds], rfl⟩

/-- A first key-down that finds no press of the arming moves no marked entry. -/
theorem press_unmarked {g : Gestures α} {vk : VirtualKey}
    (h : ∀ p ∈ g.presses, p.vk = vk → p.marked tag = false) {group : Option (GroupArming α)}
    (hgroup : ∀ gr ∈ group, gr.Unmarked tag) (now : Instant) (seq : Nat) :
    (g.press vk group now seq).1.presses.filter (Press.marked tag) =
        g.presses.filter (Press.marked tag) ∧
      (g.press vk group now seq).1.dueHolds.filter (DueHold.marked tag) =
        g.dueHolds.filter (DueHold.marked tag) ∧
      (g.press vk group now seq).2.1.filterMap tag = [] := by
  unfold press
  dsimp only
  split
  · obtain ⟨harm, hholds⟩ := g.arm_unmarked hgroup vk now seq
    exact ⟨harm, by rw [hholds], rfl⟩
  · next earlier hfind =>
    have hmarked := h earlier (List.mem_of_find?_eq_some hfind)
      (by simpa using List.find?_some hfind)
    obtain ⟨hpresses, hholds, hfires⟩ := supersede_unmarked
      { g with presses := g.presses.eraseP fun p => p.vk == vk } hmarked hgroup vk now seq
    refine ⟨hpresses.trans ?_, hholds, hfires⟩
    exact filter_eraseP_unmarked _ hfind hmarked

/-- A first key-down of another key arms or ends another press. -/
theorem press_other {a : Arming α} {g : Gestures α} {life : Life} (h : Carries tag a g life)
    {vk : VirtualKey} (hvk : vk ≠ a.vk) {group : Option (GroupArming α)}
    (hgroup : ∀ gr ∈ group, gr.Unmarked tag) (now : Instant) (seq : Nat) :
    Carries tag a (g.press vk group now seq).1 life ∧
      (g.press vk group now seq).2.1.filterMap tag = [] := by
  obtain ⟨hpresses, hholds, hfires⟩ := press_unmarked (fun p hp hpvk => by
    rw [Bool.eq_false_iff]
    intro hmarked
    exact hvk (hpvk.symm.trans (vk_of_marked h hp hmarked))) hgroup now seq
  exact ⟨carries_of_same hpresses hholds h, hfires⟩

/-- Whether `group` completes the window of the arming. -/
def completesArming (a : Arming α) (group : Option (GroupArming α)) : Bool :=
  a.double.any fun x => completes group x.2.2

/-- The marked press is the one found under its key. -/
theorem find?_own {g : Gestures α} (hwf : g.Wf) {own : Press α} {hs : List (DueHold α)}
    (h : Entries tag [own] hs g) : g.presses.find? (fun p => p.vk == own.vk) = some own := by
  obtain ⟨hmem, -, -⟩ := mem_of_filter h.presses
  have hsome : (g.presses.find? fun p => p.vk == own.vk).isSome = true := by
    rw [List.find?_isSome]
    exact ⟨own, hmem, by simp⟩
  obtain ⟨p, hp⟩ := Option.isSome_iff_exists.mp hsome
  have hpvk : p.vk = own.vk := by simpa using List.find?_some hp
  rw [hp, own_of_vk hwf h.presses (List.mem_of_find?_eq_some hp) hpvk]

/-- A first key-down over the held press: its Hold becomes a due Hold once it is due, and
else the press is over. -/
theorem press_held {a : Arming α} (ha : a.Marked tag) {g : Gestures α} (hwf : g.Wf)
    {entry : Option (Instant × α)} (hentry : entry = a.hold ∨ entry = none)
    (h : Entries tag [a.held entry] [] g) {group : Option (GroupArming α)}
    (hgroup : ∀ gr ∈ group, gr.Unmarked tag) (now : Instant) (seq : Nat) :
    Cued tag a now (.held (entry.map Prod.fst)) (.down (completesArming a group))
      (g.press a.vk group now seq).1 (g.press a.vk group now seq).2.1 := by
  have hfind : g.presses.find? (fun p => p.vk == a.vk) = some (a.held entry) := find?_own hwf h
  have herase := filter_eraseP_marked hfind h.presses
  unfold press
  dsimp only
  rw [hfind]
  dsimp only
  generalize g.presses.eraseP (fun p => p.vk == a.vk) = rest at herase
  unfold supersede Arming.held
  cases entry with
  | none =>
    dsimp only
    obtain ⟨harm, hholds⟩ := arm_unmarked { g with presses := rest } hgroup a.vk now seq
    refine cued_of_step rfl ?_ rfl
    exact ⟨harm.trans herase, by rw [hholds]; exact h.dueHolds⟩
  | some entry =>
    obtain ⟨due, action⟩ := entry
    have hhold : a.hold = some (due, action) := by
      rcases hentry with hentry | hentry
      · exact hentry.symm
      · exact absurd hentry (by simp)
    have hstep : Life.step a.deadlines now (.held (some due)) (.down (completesArming a group)) =
        (if due ≤ now then .due else .ended, none) := by
      unfold Life.step dueBy
      simp
    dsimp only
    by_cases hdue : due ≤ now
    · rw [if_pos hdue] at hstep ⊢
      obtain ⟨harm, hholds⟩ := arm_unmarked
        { g with presses := rest, dueHolds := g.dueHolds ++ [⟨a.vk, a.seq, due, action⟩] }
        hgroup a.vk now seq
      refine cued_of_step hstep ⟨due, action, hhold, harm.trans herase, ?_⟩ rfl
      have hmarked : DueHold.marked tag ⟨a.vk, a.seq, due, action⟩ = true := by
        unfold DueHold.marked
        rw [ha.hold _ hhold]
        rfl
      rw [hholds]
      dsimp only
      rw [List.filter_append, h.dueHolds, List.filter_cons_of_pos hmarked]
      rfl
    · rw [if_neg hdue] at hstep ⊢
      obtain ⟨harm, hholds⟩ := arm_unmarked { g with presses := rest } hgroup a.vk now seq
      refine cued_of_step hstep ?_ rfl
      exact ⟨harm.trans herase, by rw [hholds]; exact h.dueHolds⟩

/-- A first key-down over the press that waits for it: the DoubleTap in time, else the waiting
Tap. -/
theorem press_waiting {a : Arming α} (ha : a.Marked tag) {g : Gestures α} (hwf : g.Wf)
    {tap passed : Bool} (h : Carries tag a g (.waiting tap passed))
    {group : Option (GroupArming α)} (hgroup : ∀ gr ∈ group, gr.Unmarked tag) (now : Instant)
    (seq : Nat) :
    Cued tag a now (.waiting tap passed) (.down (completesArming a group))
      (g.press a.vk group now seq).1 (g.press a.vk group now seq).2.1 := by
  obtain ⟨due, double, window, wseq, hdouble, htap, h⟩ := h
  have hfind := find?_own hwf h
  have herase := filter_eraseP_marked hfind h.presses
  have hcompletes : completesArming a group = completes group window := by
    unfold completesArming
    rw [hdouble]
    rfl
  have hopen : openAt a.deadlines.double now = decide (now < due) := by
    unfold Arming.deadlines openAt
    rw [hdouble]
    rfl
  have hstep : Life.step a.deadlines now (.waiting tap passed) (.down (completesArming a group)) =
      (.ended, if (now < due && completes group window) = true then some .doubleTap
        else Life.tapIf tap) := by
    unfold Life.step
    dsimp only
    rw [hcompletes, hopen, Bool.and_comm]
  unfold press
  dsimp only at hfind herase ⊢
  rw [hfind]
  dsimp only
  generalize g.presses.eraseP (fun p => p.vk == a.vk) = rest at herase
  unfold supersede
  dsimp only
  by_cases hsecond : (now < due && completes group window) = true
  · rw [if_pos hsecond] at hstep ⊢
    refine cued_of_step hstep ⟨herase, h.dueHolds⟩ ?_
    show [double].filterMap tag = _
    rw [List.filterMap_cons, ha.double _ hdouble]
    rfl
  · rw [if_neg hsecond] at hstep ⊢
    obtain ⟨harm, hholds⟩ := arm_unmarked { g with presses := rest } hgroup a.vk now seq
    refine cued_of_step hstep ⟨harm.trans herase, by rw [hholds]; exact h.dueHolds⟩ ?_
    exact tapIf_marked ha htap

/-- A first key-down of the arming's key. -/
theorem press_own {a : Arming α} (ha : a.Marked tag) {g : Gestures α} (hwf : g.Wf) {life : Life}
    (h : Carries tag a g life) {group : Option (GroupArming α)}
    (hgroup : ∀ gr ∈ group, gr.Unmarked tag) (now : Instant) (seq : Nat) :
    Cued tag a now life (.down (completesArming a group))
      (g.press a.vk group now seq).1 (g.press a.vk group now seq).2.1 := by
  -- Where no press is marked, none is the arming's.
  have hnone : ∀ {hs : List (DueHold α)}, Entries tag [] hs g → ∀ p ∈ g.presses,
      p.vk = a.vk → p.marked tag = false := fun h p hp _ => unmarked_of_filter h.presses hp
  cases life with
  | ended =>
    obtain ⟨hpresses, hholds, hfires⟩ := press_unmarked (hnone h) hgroup now seq
    exact cued_of_step (Life.step_ended _ _ _) (carries_of_same hpresses hholds h) hfires
  | due =>
    have hdue := h
    obtain ⟨due, action, hhold, h⟩ := h
    obtain ⟨hpresses, hholds, hfires⟩ := press_unmarked (hnone h) hgroup now seq
    exact cued_of_step rfl (carries_of_same hpresses hholds hdue) hfires
  | held hold =>
    obtain ⟨entry, hentry, rfl, h⟩ := h
    exact press_held ha hwf hentry h hgroup now seq
  | waiting tap passed => exact press_waiting ha hwf h hgroup now seq

/-! ## Key-ups -/

theorem inTime_some {β : Type} {now : Instant} {gesture : Option (Instant × β)}
    {entry : Instant × β} (h : inTime now gesture = some entry) :
    gesture = some entry ∧ now < entry.1 := by
  unfold inTime at h
  rw [Option.filter_eq_some_iff] at h
  exact ⟨h.1, by simpa using h.2⟩

/-- The key-up of a press that is not the arming's. -/
theorem resolve_unmarked (g : Gestures α) {press : Press α} (h : press.marked tag = false)
    (vk : VirtualKey) (now : Instant) (passed : Bool) (seq : Nat) :
    (g.resolve press vk now passed seq).1.presses.filter (Press.marked tag) =
        g.presses.filter (Press.marked tag) ∧
      (g.resolve press vk now passed seq).1.dueHolds.filter (DueHold.marked tag) =
        g.dueHolds.filter (DueHold.marked tag) ∧
      (g.resolve press vk now passed seq).2.fired.toList.filterMap tag = [] := by
  obtain ⟨pvk, pseq, phase⟩ := press
  have haction : ∀ {action}, action ∈ phase.actions → tag action = none := fun hmem =>
    Phase.unmarked_action h hmem
  -- What is left of the press at its release is unmarked too.
  have hrelease : ∀ {tap hold double}, phase = .held tap hold double → ∀ hadHold,
      (g.releaseInTime vk now passed seq tap hadHold double).1.presses.filter (Press.marked tag) =
          g.presses.filter (Press.marked tag) ∧
        (g.releaseInTime vk now passed seq tap hadHold double).1.dueHolds.filter
          (DueHold.marked tag) = g.dueHolds.filter (DueHold.marked tag) ∧
        (g.releaseInTime vk now passed seq tap hadHold double).2.fired.toList.filterMap tag =
          [] := by
    intro tap hold double hphase hadHold
    have htap : ∀ x ∈ (inTime now tap).map Prod.snd, tag x = none := by
      intro x hx
      obtain ⟨entry, hentry, rfl⟩ := Option.map_eq_some_iff.mp hx
      refine haction ?_
      rw [hphase, (inTime_some hentry).1]
      simp [Phase.actions]
    unfold releaseInTime
    dsimp only
    split
    · next due action group hdouble =>
      refine ⟨?_, rfl, rfl⟩
      have hunmarked : (⟨vk, seq, .awaitSecond due action group ((inTime now tap).map Prod.snd)
          passed⟩ : Press α).marked tag = false := by
        unfold Press.marked Phase.marked Phase.actions
        rw [List.any_eq_false]
        intro x hx
        rcases List.mem_cons.mp hx with rfl | hx
        · rw [haction (by rw [hphase, (inTime_some hdouble).1]; simp [Phase.actions])]
          simp
        · rw [htap x (Option.mem_toList.mp hx)]
          simp
      rw [List.filter_append, List.filter_cons_of_neg (by simp [hunmarked]), List.filter_nil,
        List.append_nil]
    · refine ⟨rfl, rfl, ?_⟩
      cases hin : (inTime now tap).map Prod.snd with
      | none => rfl
      | some x =>
        show [x].filterMap tag = []
        rw [List.filterMap_cons, htap x hin]
        rfl
  unfold resolve
  cases phase with
  | awaitSecond due double window deferred passed' => exact ⟨rfl, rfl, rfl⟩
  | held tap hold double =>
    cases hold with
    | none => exact hrelease rfl false
    | some entry =>
      obtain ⟨due, action⟩ := entry
      dsimp only
      split
      · refine ⟨rfl, ?_, rfl⟩
        have hunmarked : DueHold.marked tag ⟨vk, pseq, due, action⟩ = false := by
          unfold DueHold.marked
          rw [haction (by simp [Phase.actions])]
          rfl
        dsimp only
        rw [List.filter_append, List.filter_cons_of_neg (by simp [hunmarked]), List.filter_nil,
          List.append_nil]
      · exact hrelease rfl true

/-- A key-up that finds no press of the arming moves no marked entry. -/
theorem release_unmarked {g : Gestures α} {vk : VirtualKey}
    (h : ∀ p ∈ g.presses, p.vk = vk → p.phase.isHeld = true → p.marked tag = false)
    (now : Instant) (passed : Bool) (seq : Nat) :
    (g.release vk now passed seq).1.presses.filter (Press.marked tag) =
        g.presses.filter (Press.marked tag) ∧
      (g.release vk now passed seq).1.dueHolds.filter (DueHold.marked tag) =
        g.dueHolds.filter (DueHold.marked tag) ∧
      (g.release vk now passed seq).2.fired.toList.filterMap tag = [] := by
  unfold release
  dsimp only
  split
  · exact ⟨rfl, rfl, rfl⟩
  · next press hfind =>
    have hours := List.find?_some hfind
    simp only [Bool.and_eq_true, beq_iff_eq] at hours
    have hmarked := h press (List.mem_of_find?_eq_some hfind) hours.1 hours.2
    obtain ⟨hpresses, hholds, hfires⟩ := resolve_unmarked
      { g with presses := g.presses.eraseP fun p => p.vk == vk && p.phase.isHeld } hmarked vk now
      passed seq
    exact ⟨hpresses.trans (filter_eraseP_unmarked _ hfind hmarked), hholds, hfires⟩

/-- The key-up of another key. -/
theorem release_other {a : Arming α} {g : Gestures α} {life : Life} (h : Carries tag a g life)
    {vk : VirtualKey} (hvk : vk ≠ a.vk) (now : Instant) (passed : Bool) (seq : Nat) :
    Carries tag a (g.release vk now passed seq).1 life ∧
      (g.release vk now passed seq).2.fired.toList.filterMap tag = [] := by
  obtain ⟨hpresses, hholds, hfires⟩ := release_unmarked (fun p hp hpvk _ => by
    rw [Bool.eq_false_iff]
    intro hmarked
    exact hvk (hpvk.symm.trans (vk_of_marked h hp hmarked))) now passed seq
  exact ⟨carries_of_same hpresses hholds h, hfires⟩

/-- A gesture still open at `now`. -/
theorem inTime_openAt {β : Type} (now : Instant) (gesture : Option (Instant × β)) :
    (inTime now gesture).isSome = openAt (gesture.map Prod.fst) now := by
  cases gesture with
  | none => rfl
  | some entry =>
    unfold inTime openAt
    by_cases hlt : now < entry.1 <;> simp [hlt]

/-- The release of the arming's press, its Hold not due. -/
theorem releaseInTime_own {a : Arming α} (ha : a.Marked tag) {g : Gestures α}
    (h : Entries tag [] [] g) {hold : Option Instant} {now : Instant}
    (hdue : dueBy hold now = false) (passed hadHold : Bool) (seq : Nat) :
    Cued tag a now (.held hold) (.up passed)
      (g.releaseInTime a.vk now passed seq a.tap hadHold a.double).1
      (g.releaseInTime a.vk now passed seq a.tap hadHold a.double).2.fired.toList := by
  have htapOpen := inTime_openAt now a.tap
  have hdoubleOpen := inTime_openAt now a.double
  have hin : (inTime now a.tap).map Prod.snd =
      if openAt a.deadlines.tap now then a.tap.map Prod.snd else none := by
    unfold Arming.deadlines
    dsimp only
    rw [← htapOpen]
    cases htap : inTime now a.tap with
    | none => rfl
    | some entry => rw [(inTime_some htap).1]; rfl
  have hsome : openAt a.deadlines.tap now = true → a.tap.isSome = true := by
    intro hopen
    cases htap : a.tap with
    | none => simp [Arming.deadlines, htap, openAt] at hopen
    | some entry => rfl
  have hstep : Life.step a.deadlines now (.held hold) (.up passed) =
      if openAt a.deadlines.double now then (.waiting (openAt a.deadlines.tap now) passed, none)
      else (.ended, Life.tapIf (openAt a.deadlines.tap now)) := by
    unfold Life.step
    dsimp only
    rw [hdue]
    rfl
  have hdeadline : openAt a.deadlines.double now = (inTime now a.double).isSome :=
    hdoubleOpen.symm
  rw [hdeadline] at hstep
  unfold releaseInTime
  dsimp only
  rw [hin]
  cases hdouble : inTime now a.double with
  | none =>
    rw [hdouble] at hstep
    exact cued_of_step hstep h (tapIf_marked ha hsome)
  | some entry =>
    obtain ⟨due, double, group⟩ := entry
    rw [hdouble] at hstep
    have hentry := (inTime_some hdouble).1
    refine cued_of_step hstep ⟨due, double, group, seq, hentry, hsome, ?_, h.dueHolds⟩ rfl
    dsimp only
    rw [List.filter_append, h.presses, List.nil_append, List.filter_cons_of_pos, List.filter_nil]
    unfold Press.marked Phase.marked Phase.actions
    rw [List.any_cons, ha.double _ hentry]
    rfl

/-- The key-up of the arming's key. -/
theorem release_own {a : Arming α} (ha : a.Marked tag) {g : Gestures α} (hwf : g.Wf) {life : Life}
    (h : Carries tag a g life) (now : Instant) (passed : Bool) (seq : Nat) :
    Cued tag a now life (.up passed) (g.release a.vk now passed seq).1
      (g.release a.vk now passed seq).2.fired.toList := by
  have hnone : ∀ {hs : List (DueHold α)}, Entries tag [] hs g → ∀ p ∈ g.presses,
      p.vk = a.vk → p.phase.isHeld = true → p.marked tag = false :=
    fun h p hp _ _ => unmarked_of_filter h.presses hp
  cases life with
  | ended =>
    obtain ⟨hpresses, hholds, hfires⟩ := release_unmarked (hnone h) now passed seq
    exact cued_of_step (Life.step_ended _ _ _) (carries_of_same hpresses hholds h) hfires
  | due =>
    have hdue := h
    obtain ⟨due, action, hhold, h⟩ := h
    obtain ⟨hpresses, hholds, hfires⟩ := release_unmarked (hnone h) now passed seq
    exact cued_of_step rfl (carries_of_same hpresses hholds hdue) hfires
  | waiting tap passed' =>
    have hwaiting := h
    obtain ⟨due, double, window, wseq, hdouble, htap, h⟩ := h
    -- The one press of the key waits; it is not held.
    have hunmarked : ∀ p ∈ g.presses, p.vk = a.vk → p.phase.isHeld = true →
        p.marked tag = false := by
      intro p hp hpvk hheld
      rw [own_of_vk hwf h.presses hp hpvk] at hheld
      exact absurd hheld (by simp [Phase.isHeld])
    obtain ⟨hpresses, hholds, hfires⟩ := release_unmarked hunmarked now passed seq
    exact cued_of_step rfl (carries_of_same hpresses hholds hwaiting) hfires
  | held hold =>
    obtain ⟨entry, hentry, rfl, h⟩ := h
    obtain ⟨hmem, -, -⟩ := mem_of_filter h.presses
    have hfind : g.presses.find? (fun p => p.vk == a.vk && p.phase.isHeld) =
        some (a.held entry) := by
      have hsome : (g.presses.find? fun p => p.vk == a.vk && p.phase.isHeld).isSome = true := by
        rw [List.find?_isSome]
        exact ⟨_, hmem, by simp [Arming.held, Phase.isHeld]⟩
      obtain ⟨p, hp⟩ := Option.isSome_iff_exists.mp hsome
      have hours := List.find?_some hp
      simp only [Bool.and_eq_true, beq_iff_eq] at hours
      rw [hp, own_of_vk hwf h.presses (List.mem_of_find?_eq_some hp) hours.1]
    have herase := filter_eraseP_marked hfind h.presses
    unfold release
    dsimp only
    rw [hfind]
    dsimp only
    generalize g.presses.eraseP (fun p => p.vk == a.vk && p.phase.isHeld) = rest at herase
    have hrest : Entries tag [] [] { g with presses := rest } := ⟨herase, h.dueHolds⟩
    unfold resolve Arming.held
    cases entry with
    | none => exact releaseInTime_own ha hrest rfl passed false seq
    | some entry =>
      obtain ⟨due, action⟩ := entry
      have hhold : a.hold = some (due, action) := by
        rcases hentry with hentry | hentry
        · exact hentry.symm
        · exact absurd hentry (by simp)
      dsimp only
      by_cases hdue : due ≤ now
      · have hstep : Life.step a.deadlines now (.held (some due)) (.up passed) = (.due, none) := by
          unfold Life.step dueBy
          simp [hdue]
        rw [if_pos hdue]
        refine cued_of_step hstep ⟨due, action, hhold, herase, ?_⟩ rfl
        have hmarked : DueHold.marked tag ⟨a.vk, a.seq, due, action⟩ = true := by
          unfold DueHold.marked
          rw [ha.hold _ hhold]
          rfl
        dsimp only
        rw [List.filter_append, h.dueHolds, List.filter_cons_of_pos hmarked]
        rfl
      · rw [if_neg hdue]
        refine releaseInTime_own ha hrest ?_ passed true seq
        simp [dueBy, Nat.lt_of_not_le hdue]

end Gestures

end KeySwitch.Engine
