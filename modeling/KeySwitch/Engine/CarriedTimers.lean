import KeySwitch.Engine.Carried

/-!
# The timers of an armed press

What a timer takes out is an entry without a mark, or the press's own with its
Hold or its waiting Tap (`timerTakes`): then it fires that (`onTimer_own`), and any
other closes windows, the press's among them (`onTimer_unmarked`). A refused timer
drops the Hold of the press it was for (`forget_cued`), and nothing of any other.
-/

namespace KeySwitch.Engine

open Data Lib

variable {α : Type} {tag : α → Option Gesture}

namespace Gestures

/-! ## Timers -/

/-- Windows close: those whose Tap waits and whose deadline `due` has reached. -/
theorem fireClosedWindows_cued {a : Arming α} (ha : a.Marked tag) {g : Gestures α} {life : Life}
    (h : Carries tag a g life) (now due : Instant) :
    Cued tag a now life (.closed due) (g.fireClosedWindows due).1 (g.fireClosedWindows due).2 := by
  cases life with
  | ended => exact ⟨carries_filter h _, fires_filter h _⟩
  | due =>
    obtain ⟨due', action, hhold, h⟩ := h
    exact ⟨⟨due', action, hhold, carries_filter h _⟩, fires_filter h _⟩
  | held hold =>
    obtain ⟨entry, hentry, rfl, h⟩ := h
    have hkeep := carries_filter h fun p => !p.phase.closedBy due
    have hfires := fires_filter h fun p => p.phase.closedBy due
    exact ⟨⟨entry, hentry, rfl, hkeep⟩, hfires⟩
  | waiting tap passed =>
    obtain ⟨due', double, group, seq, hdouble, htap, h⟩ := h
    have hkeep := carries_filter h fun p => !p.phase.closedBy due
    have hfires := fires_filter h fun p => p.phase.closedBy due
    have hdeadline : dueBy a.deadlines.double due = decide (due' ≤ due) := by
      unfold Arming.deadlines dueBy
      rw [hdouble]
      rfl
    have hclosed : Phase.closedBy due (.awaitSecond due' double group
        (if tap then a.tap.map Prod.snd else none) passed) = (tap && decide (due' ≤ due)) := by
      cases tap with
      | false => rfl
      | true =>
        obtain ⟨entry, hentry⟩ := Option.isSome_iff_exists.mp (htap rfl)
        rw [if_pos rfl, hentry]
        rfl
    rw [List.filter_cons, List.filter_nil, hclosed] at hkeep hfires
    have hstep : Life.step a.deadlines now (.waiting tap passed) (.closed due) =
        if tap && decide (due' ≤ due) then (.ended, some .tap)
        else (.waiting tap passed, none) := by
      unfold Life.step
      dsimp only
      rw [hdeadline]
    cases hdue : tap && decide (due' ≤ due) with
    | false =>
      rw [hdue] at hkeep hfires hstep
      exact cued_of_step hstep ⟨due', double, group, seq, hdouble, htap, hkeep⟩ hfires
    | true =>
      rw [hdue] at hkeep hfires hstep
      refine cued_of_step hstep hkeep (hfires.trans ?_)
      refine (congrArg (List.filterMap tag) (filterMap_deferredTap_singleton _)).trans ?_
      refine (tapIf_marked ha htap).trans ?_
      simp only [Bool.and_eq_true] at hdue
      rw [hdue.1]
      rfl

/-- What a timer takes out: a due Hold, or a press. -/
theorem takeTimer_cases {g g' : Gestures α} {vk : VirtualKey} {seq : Nat} {due : Instant}
    {action : α} (h : g.takeTimer vk seq = some (g', due, action)) :
    (∃ hold, g.dueHolds.find? (isDueHold vk seq) = some hold ∧ due = hold.due ∧
      action = hold.action ∧ g' = { g with dueHolds := g.dueHolds.eraseP (isDueHold vk seq) }) ∨
    (∃ press, g.presses.find? (awaitsTimer vk seq) = some press ∧
      press.phase.timerDue = some due ∧ press.phase.intoTimerAction = some action ∧
      g' = { g with presses := g.presses.eraseP (awaitsTimer vk seq) }) := by
  unfold takeTimer at h
  split at h
  · next hold hfind =>
    simp only [Option.some.injEq, Prod.mk.injEq] at h
    exact Or.inl ⟨hold, hfind, h.2.1.symm, h.2.2.symm, h.1.symm⟩
  · split at h
    · exact absurd h (by simp)
    · next press hfind =>
      split at h
      · next due' action' hdue haction =>
        simp only [Option.some.injEq, Prod.mk.injEq] at h
        obtain ⟨rfl, rfl, rfl⟩ := h
        exact Or.inr ⟨press, hfind, hdue, haction, rfl⟩
      · exact absurd h (by simp)

/-- What the timer of `vk` armed as `seq` is to the press. -/
def timerCue (tag : α → Option Gesture) (g : Gestures α) (vk : VirtualKey) (seq : Nat) : Cue :=
  match g.takeTimer vk seq with
  | none => .nothing
  | some (_, due, action) => if tag action = some .hold then .holdTimer else .closed due

/-- A timer that takes out an entry that is not marked closes windows. -/
theorem onTimer_unmarked {a : Arming α} (ha : a.Marked tag) {g g' : Gestures α} {life : Life}
    (h : Carries tag a g' life) {vk : VirtualKey} {seq : Nat} {due : Instant} {action : α}
    (htake : g.takeTimer vk seq = some (g', due, action)) (haction : tag action = none)
    (now : Instant) : Cued tag a now life (timerCue tag g vk seq) (g.onTimer vk seq).1
      (g.onTimer vk seq).2 := by
  have hcue : timerCue tag g vk seq = .closed due := by
    unfold timerCue
    rw [htake]
    dsimp only
    rw [haction]
    rfl
  have hclosed := fireClosedWindows_cued ha h now due
  rw [hcue]
  unfold onTimer
  rw [htake]
  refine ⟨hclosed.carries, ?_⟩
  dsimp only
  rw [List.filterMap_append, List.filterMap_cons, haction, hclosed.fires]
  exact List.append_nil _

/-- A timer that takes out the press itself. -/
theorem onTimer_own {a : Arming α} (ha : a.Marked tag) {g g' : Gestures α} {life : Life}
    (h : Entries tag [] [] g') {vk : VirtualKey} {seq : Nat} {due : Instant} {action : α}
    (htake : g.takeTimer vk seq = some (g', due, action)) {gesture : Gesture}
    (haction : tag action = some gesture) {now : Instant}
    (hstep : Life.step a.deadlines now life (timerCue tag g vk seq) = (.ended, some gesture)) :
    Cued tag a now life (timerCue tag g vk seq) (g.onTimer vk seq).1 (g.onTimer vk seq).2 := by
  have hover : Carries tag a g' .ended := h
  have hclosed := fireClosedWindows_cued ha hover now due
  unfold onTimer
  rw [htake]
  refine cued_of_step hstep ?_ ?_
  · have hcarries := hclosed.carries
    rw [Life.step_ended] at hcarries
    exact hcarries
  · have hfires := hclosed.fires
    rw [Life.step_ended] at hfires
    dsimp only
    rw [List.filterMap_append, hfires, List.filterMap_cons, haction]
    rfl

/-- What a timer takes out while the press is at `life`: an entry without a mark, or
the press's own, its Hold or the Tap of a window that has a deadline of its own. -/
inductive TimerTakes (tag : α → Option Gesture) (a : Arming α) (g' : Gestures α) (due : Instant)
    (action : α) (life : Life) : Prop
  | another (unmarked : tag action = none) (carries : Carries tag a g' life)
  | hold (armed : a.hold = some (due, action)) (waits : life = .due ∨ life = .held (some due))
      (rest : Entries tag [] [] g')
  | tap {double : α} {group : GroupKey} {passed : Bool}
      (window : a.double = some (due, double, group)) (marked : tag action = some .tap)
      (waits : life = .waiting true passed) (rest : Entries tag [] [] g')

/-- A due Hold that is marked is the press's. -/
theorem timerTakes_dueHold {a : Arming α} {g : Gestures α} {life : Life}
    (h : Carries tag a g life) {test : DueHold α → Bool} {hold : DueHold α}
    (hfind : g.dueHolds.find? test = some hold) (hmarked : hold.marked tag = true) :
    TimerTakes tag a { g with dueHolds := g.dueHolds.eraseP test } hold.due hold.action life := by
  have hmem := List.mem_of_find?_eq_some hfind
  have hnot : ∀ {ps}, ¬ Entries tag ps [] g := fun h =>
    absurd (hmarked.symm.trans (unmarked_of_filter h.dueHolds hmem)) (by simp)
  cases life with
  | ended => exact absurd h hnot
  | held entry =>
    obtain ⟨_, _, _, h⟩ := h
    exact absurd h hnot
  | waiting tap passed =>
    obtain ⟨_, _, _, _, _, _, h⟩ := h
    exact absurd h hnot
  | due =>
    obtain ⟨due, action, hhold, h⟩ := h
    obtain rfl := (mem_of_filter h.dueHolds).2.2 hold hmem hmarked
    exact .hold hhold (Or.inl rfl) ⟨h.presses, filter_eraseP_marked hfind h.dueHolds⟩

/-- A press that is marked and waits for a timer is the press, for its Hold or its Tap. -/
theorem timerTakes_press {a : Arming α} (ha : a.Marked tag) {g : Gestures α} {life : Life}
    (h : Carries tag a g life) {test : Press α → Bool} {press : Press α} {due : Instant}
    {action : α} (hfind : g.presses.find? test = some press) (hmarked : press.marked tag = true)
    (hdue : press.phase.timerDue = some due) (hact : press.phase.intoTimerAction = some action) :
    TimerTakes tag a { g with presses := g.presses.eraseP test } due action life := by
  have hmem := List.mem_of_find?_eq_some hfind
  have hnot : ∀ {hs}, ¬ Entries tag [] hs g := fun h =>
    absurd (hmarked.symm.trans (unmarked_of_filter h.presses hmem)) (by simp)
  cases life with
  | ended => exact absurd h hnot
  | due =>
    obtain ⟨_, _, _, h⟩ := h
    exact absurd h hnot
  | held hold =>
    obtain ⟨entry, hentry, rfl, h⟩ := h
    obtain rfl := (mem_of_filter h.presses).2.2 press hmem hmarked
    cases entry with
    | none => exact absurd hdue (by simp [Arming.held, Phase.timerDue])
    | some entry =>
      obtain rfl : entry.1 = due := by simpa [Arming.held, Phase.timerDue] using hdue
      obtain rfl : entry.2 = action := by simpa [Arming.held, Phase.intoTimerAction] using hact
      have hhold : a.hold = some entry := by
        rcases hentry with hentry | hentry
        · exact hentry.symm
        · exact absurd hentry (by simp)
      exact .hold hhold (Or.inr rfl) ⟨filter_eraseP_marked hfind h.presses, h.dueHolds⟩
  | waiting tap passed =>
    obtain ⟨due', double, group, seq, hdouble, htap, h⟩ := h
    obtain rfl := (mem_of_filter h.presses).2.2 press hmem hmarked
    cases tap with
    | false => exact absurd hdue (by simp [Phase.timerDue])
    | true =>
      obtain ⟨entry, hentry⟩ := Option.isSome_iff_exists.mp (htap rfl)
      obtain ⟨rfl, rfl⟩ : due' = due ∧ entry.2 = action := by
        constructor
        · simpa [hentry, Phase.timerDue] using hdue
        · simpa [hentry, Phase.intoTimerAction] using hact
      exact .tap hdouble (ha.tap _ hentry) rfl ⟨filter_eraseP_marked hfind h.presses, h.dueHolds⟩

theorem timerTakes {a : Arming α} (ha : a.Marked tag) {g g' : Gestures α} {life : Life}
    (h : Carries tag a g life) {vk : VirtualKey} {seq : Nat} {due : Instant} {action : α}
    (htake : g.takeTimer vk seq = some (g', due, action)) :
    TimerTakes tag a g' due action life := by
  rcases takeTimer_cases htake with ⟨hold, hfind, rfl, rfl, rfl⟩ | ⟨press, hfind, hdue, hact, rfl⟩
  · cases hmarked : hold.marked tag with
    | false =>
      refine .another ?_ (carries_of_same (by rfl) (filter_eraseP_unmarked _ hfind hmarked) h)
      unfold DueHold.marked at hmarked
      simpa using hmarked
    | true => exact timerTakes_dueHold h hfind hmarked
  · cases hmarked : press.marked tag with
    | false =>
      exact .another (Phase.unmarked_action hmarked (Phase.intoTimerAction_mem hact))
        (carries_of_same (filter_eraseP_unmarked _ hfind hmarked) (by rfl) h)
    | true => exact timerTakes_press ha h hfind hmarked hdue hact

/-- A gesture timer. -/
theorem onTimer_cued {a : Arming α} (ha : a.Marked tag) {g : Gestures α} {life : Life}
    (h : Carries tag a g life) (vk : VirtualKey) (seq : Nat) (now : Instant) :
    Cued tag a now life (timerCue tag g vk seq) (g.onTimer vk seq).1 (g.onTimer vk seq).2 := by
  cases htake : g.takeTimer vk seq with
  | none =>
    have hcue : timerCue tag g vk seq = .nothing := by
      unfold timerCue
      rw [htake]
    have hstep : Life.step a.deadlines now life .nothing = (life, none) := by
      cases life <;> rfl
    rw [hcue]
    unfold onTimer
    rw [htake]
    exact cued_of_step hstep h rfl
  | some taken =>
    obtain ⟨g', due, action⟩ := taken
    cases timerTakes ha h htake with
    | another hnone hcarries => exact onTimer_unmarked ha hcarries htake hnone now
    | hold hhold hwaits hrest =>
      have htag := ha.hold _ hhold
      refine onTimer_own ha hrest htake htag ?_
      have hcue : timerCue tag g vk seq = .holdTimer := by
        unfold timerCue
        rw [htake]
        exact if_pos htag
      rw [hcue]
      rcases hwaits with rfl | rfl
      · rfl
      · rfl
    | tap hdouble htag hwaits hrest =>
      subst hwaits
      refine onTimer_own ha hrest htake htag ?_
      unfold timerCue
      rw [htake]
      dsimp only
      rw [htag]
      unfold Life.step Arming.deadlines dueBy
      rw [hdouble]
      simp

/-- A timer that takes out what is due comes on time for the press too. -/
theorem timerCue_onTime {a : Arming α} (ha : a.Marked tag) {g : Gestures α} {life : Life}
    (h : Carries tag a g life) {vk : VirtualKey} {seq : Nat} {now : Instant}
    (hdue : ∀ g' due action, g.takeTimer vk seq = some (g', due, action) → due ≤ now) :
    Life.OnTime a.deadlines (now, timerCue tag g vk seq) := by
  unfold timerCue
  cases htake : g.takeTimer vk seq with
  | none => exact trivial
  | some taken =>
    obtain ⟨g', due, action⟩ := taken
    have hnow := hdue g' due action htake
    dsimp only
    split
    · next hhold =>
      -- Only the entry of the press fires a Hold that is marked.
      cases timerTakes ha h htake with
      | another hnone _ => exact absurd (hnone.symm.trans hhold) (by simp)
      | hold harmed _ _ =>
        show dueBy a.deadlines.hold now = true
        unfold Arming.deadlines dueBy
        rw [harmed]
        simpa using hnow
      | tap _ htag _ _ => exact absurd (htag.symm.trans hhold) (by simp)
    · exact hnow

/-! ## Refused timers -/

/-- What refusing the timer of `vk` armed as `seq` is to the press. -/
def forgetCue (a : Arming α) (vk : VirtualKey) (seq : Nat) : Cue :=
  if vk = a.vk ∧ seq = a.seq then .refused else .nothing

theorem dropHold_unmarked {p : Press α} (h : p.marked tag = false) :
    (dropHold p).marked tag = false := by
  obtain ⟨pvk, pseq, phase⟩ := p
  cases phase with
  | awaitSecond due double window deferred passed => exact h
  | held tap hold double =>
    unfold Press.marked Phase.marked at h ⊢
    rw [List.any_eq_false] at h ⊢
    intro action haction
    refine h action ?_
    simp only [dropHold, Phase.actions, List.mem_append, Option.map_none, Option.toList_none,
      List.not_mem_nil, or_false] at haction ⊢
    rcases haction with haction | haction
    · exact Or.inl (Or.inl haction)
    · exact Or.inr haction

/-- A refused timer of an entry that is not marked moves no marked entry. -/
theorem forget_unmarked {g : Gestures α} {vk : VirtualKey} {seq : Nat}
    (hholds : ∀ h ∈ g.dueHolds, isDueHold vk seq h = true → h.marked tag = false)
    (hpresses : ∀ p ∈ g.presses, p.vk = vk → p.seq = seq → p.phase.isHeld = true →
      p.marked tag = false) :
    (g.forget vk seq).1.presses.filter (Press.marked tag) =
        g.presses.filter (Press.marked tag) ∧
      (g.forget vk seq).1.dueHolds.filter (DueHold.marked tag) =
        g.dueHolds.filter (DueHold.marked tag) := by
  unfold forget
  dsimp only
  split
  · refine ⟨rfl, ?_⟩
    dsimp only
    rw [List.filter_filter]
    refine List.filter_congr fun h hh => ?_
    cases hours : isDueHold vk seq h with
    | false => simp
    | true => simp [hholds h hh hours]
  · split
    · exact ⟨rfl, rfl⟩
    · next press hfind =>
      have hours := List.find?_some hfind
      simp only [Bool.and_eq_true, beq_iff_eq] at hours
      split
      · exact ⟨rfl, rfl⟩
      · next tap hold double hphase =>
        have hunmarked := hpresses press (List.mem_of_find?_eq_some hfind) hours.1 hours.2
          (by rw [hphase]; rfl)
        split
        · exact ⟨filter_eraseP_unmarked _ hfind hunmarked, rfl⟩
        · exact ⟨filter_modifyFirst_unmarked _ hfind hunmarked (dropHold_unmarked hunmarked), rfl⟩

/-- A held press with a Tap or a DoubleTap is marked, without its Hold too. -/
theorem held_marked {a : Arming α} (ha : a.Marked tag)
    (h : (a.tap.isNone && a.double.isNone) = false) : (a.held none).marked tag = true := by
  unfold Press.marked Phase.marked Arming.held Phase.actions
  rw [List.any_eq_true]
  cases htap : a.tap with
  | some entry => exact ⟨entry.2, by simp, by rw [ha.tap entry htap]; rfl⟩
  | none =>
    cases hdouble : a.double with
    | some entry => exact ⟨entry.2.1, by simp, by rw [ha.double entry hdouble]; rfl⟩
    | none =>
      rw [htap, hdouble] at h
      exact absurd h (by simp)

/-- The refused timer of the press's due Hold drops that Hold. -/
theorem forget_dueHold {a : Arming α} {g : Gestures α} {due : Instant} {action : α}
    (h : Entries tag [] [⟨a.vk, a.seq, due, action⟩] g) :
    Entries tag [] [] (g.forget a.vk a.seq).1 := by
  obtain ⟨hmem, -, -⟩ := mem_of_filter h.dueHolds
  have hany : g.dueHolds.any (isDueHold a.vk a.seq) = true := by
    rw [List.any_eq_true]
    exact ⟨_, hmem, by simp [isDueHold]⟩
  unfold forget
  dsimp only
  rw [if_pos hany]
  refine ⟨h.presses, ?_⟩
  dsimp only
  have hcomm : (g.dueHolds.filter fun h => !isDueHold a.vk a.seq h).filter
      (DueHold.marked tag) = (g.dueHolds.filter (DueHold.marked tag)).filter
        fun h => !isDueHold a.vk a.seq h := by
    rw [List.filter_filter, List.filter_filter]
    congr 1
    funext x
    exact Bool.and_comm ..
  rw [hcomm, h.dueHolds]
  simp [isDueHold]

/-- The refused timer of the held press drops its Hold, and the press if that was all it had. No
due Hold has the number of a press that waits for a timer. -/
theorem forget_held {a : Arming α} (ha : a.Marked tag) {g : Gestures α} (hwf : g.Wf)
    (hdistinct : ∀ p ∈ g.presses, p.phase.timerDue.isSome = true → ∀ h ∈ g.dueHolds,
      h.seq ≠ p.seq) {entry : Option (Instant × α)} (h : Entries tag [a.held entry] [] g) :
    Carries tag a (g.forget a.vk a.seq).1
      (if a.tap.isNone && a.double.isNone then .ended else .held none) := by
  obtain ⟨hmem, hmarked, -⟩ := mem_of_filter h.presses
  unfold forget
  dsimp only
  split
  · next hany =>
    have hnoentry : entry = none := by
      cases entry with
      | none => rfl
      | some entry =>
        obtain ⟨x, hx, hxours⟩ := List.any_eq_true.mp hany
        simp only [isDueHold, Bool.and_eq_true, beq_iff_eq] at hxours
        exact absurd hxours.2 (hdistinct _ hmem rfl x hx)
    subst hnoentry
    -- A held press without its Hold has another gesture left.
    have hleft : (a.tap.isNone && a.double.isNone) = false := by
      rw [Bool.eq_false_iff]
      intro hboth
      simp only [Bool.and_eq_true, Option.isNone_iff_eq_none] at hboth
      have hno : (a.held none).marked tag = false := by
        unfold Press.marked Phase.marked Arming.held Phase.actions
        rw [hboth.1, hboth.2]
        rfl
      exact absurd (hmarked.symm.trans hno) (by simp)
    rw [hleft]
    refine ⟨none, Or.inr rfl, rfl, h.presses, ?_⟩
    dsimp only
    rw [List.filter_filter, List.filter_eq_nil_iff]
    intro x hx
    simp [unmarked_of_filter h.dueHolds hx]
  · have hfind : g.presses.find? (fun p => p.vk == a.vk && p.seq == a.seq) =
        some (a.held entry) := by
      have hsome : (g.presses.find? fun p => p.vk == a.vk && p.seq == a.seq).isSome = true := by
        rw [List.find?_isSome]
        exact ⟨_, hmem, by simp [Arming.held]⟩
      obtain ⟨p, hp⟩ := Option.isSome_iff_exists.mp hsome
      have hours := List.find?_some hp
      simp only [Bool.and_eq_true, beq_iff_eq] at hours
      rw [hp, own_of_vk hwf h.presses (List.mem_of_find?_eq_some hp) hours.1]
    rw [hfind]
    unfold Arming.held
    dsimp only
    cases hboth : a.tap.isNone && a.double.isNone with
    | true => exact ⟨filter_eraseP_marked hfind h.presses, h.dueHolds⟩
    | false =>
      have hkeep : (dropHold (a.held entry)).marked tag = true := held_marked ha hboth
      exact ⟨none, Or.inr rfl, rfl, filter_modifyFirst_marked hfind h.presses hkeep, h.dueHolds⟩

/-- A refused timer. -/
theorem forget_cued {a : Arming α} (ha : a.Marked tag) {g : Gestures α} (hwf : g.Wf)
    (hdistinct : ∀ p ∈ g.presses, p.phase.timerDue.isSome = true → ∀ h ∈ g.dueHolds,
      h.seq ≠ p.seq) {life : Life} (h : Carries tag a g life) (vk : VirtualKey) (seq : Nat)
    (now : Instant) : Cued tag a now life (forgetCue a vk seq) (g.forget vk seq).1 [] := by
  have hnone : ∀ {ps}, Entries tag ps [] g → ∀ h ∈ g.dueHolds, isDueHold vk seq h = true →
      h.marked tag = false := fun h x hx _ => unmarked_of_filter h.dueHolds hx
  have hidle : Life.step a.deadlines now life .nothing = (life, none) := by
    cases life <;> rfl
  cases life with
  | ended =>
    obtain ⟨hpresses, hholds⟩ := forget_unmarked (hnone h)
      fun p hp _ _ _ => unmarked_of_filter h.presses hp
    exact cued_of_step (Life.step_ended _ _ _) (carries_of_same hpresses hholds h) rfl
  | waiting tap passed =>
    have hwaiting := h
    obtain ⟨due, double, window, wseq, hdouble, htap, h⟩ := h
    obtain ⟨hpresses, hholds⟩ := forget_unmarked (hnone h) fun p hp _ _ hheld => by
      rw [Bool.eq_false_iff]
      intro hmarked
      rw [(mem_of_filter h.presses).2.2 p hp hmarked] at hheld
      exact absurd hheld (by simp [Phase.isHeld])
    have hsame := carries_of_same hpresses hholds hwaiting
    unfold forgetCue
    split
    · exact cued_of_step rfl hsame rfl
    · exact cued_of_step hidle hsame rfl
  | due =>
    have hdue := h
    obtain ⟨due, action, hhold, h⟩ := h
    obtain ⟨hmem, hmarked, honly⟩ := mem_of_filter h.dueHolds
    unfold forgetCue
    split
    · next hours =>
      obtain ⟨rfl, rfl⟩ := hours
      exact cued_of_step rfl (forget_dueHold h) rfl
    · next hother =>
      obtain ⟨hpresses, hholds⟩ := @forget_unmarked _ tag g vk seq
        (fun x hx hours => by
          rw [Bool.eq_false_iff]
          intro hxm
          rw [honly x hx hxm] at hours
          simp only [isDueHold, Bool.and_eq_true, beq_iff_eq] at hours
          exact hother ⟨hours.1.symm, hours.2.symm⟩)
        fun p hp _ _ _ => unmarked_of_filter h.presses hp
      exact cued_of_step hidle (carries_of_same hpresses hholds hdue) rfl
  | held hold =>
    have hheld := h
    obtain ⟨entry, hentry, rfl, h⟩ := h
    obtain ⟨hmem, hmarked, honly⟩ := mem_of_filter h.presses
    unfold forgetCue
    split
    · next hours =>
      obtain ⟨rfl, rfl⟩ := hours
      have hstep : Life.step a.deadlines now (.held (entry.map Prod.fst)) .refused =
          (if a.tap.isNone && a.double.isNone then .ended else .held none, none) := by
        unfold Life.step Arming.deadlines
        simp
      exact cued_of_step hstep (forget_held ha hwf hdistinct h) rfl
    · next hother =>
      obtain ⟨hpresses, hholds⟩ := @forget_unmarked _ tag g vk seq (hnone h)
        fun p hp hpvk hpseq _ => by
          rw [Bool.eq_false_iff]
          intro hpm
          rw [honly p hp hpm] at hpvk hpseq
          exact hother ⟨hpvk.symm, hpseq.symm⟩
      exact cued_of_step hidle (carries_of_same hpresses hholds hheld) rfl

end Gestures

end KeySwitch.Engine
