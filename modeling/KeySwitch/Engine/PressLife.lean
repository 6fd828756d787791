import KeySwitch.Data.Binding

/-!
# The life of one armed press

One press of a gesture group is a small machine of its own: held, then left to
the timer of its Hold (`due`), waiting for a second press, or over. It sees the
rest of the engine as cues: the key-ups and first key-downs of its key, the first
key-downs of others, the timer of its Hold, the timers that close windows, a
refused timer, a reset.

This is what a press is for, stated without the tables of the engine. It fires
one gesture at most (`fired_once`), each only as its `Story` allows
(`story_run`), and if it is left alone the times decide which
(`left_alone_outcome`).
-/

namespace KeySwitch.Engine

open Data

inductive Gesture
  | tap
  | hold
  | doubleTap
  deriving DecidableEq, Repr

/-- The gesture a trigger waits for. -/
def gestureOf : Trigger → Option Gesture
  | .immediate => none
  | .tap _ => some .tap
  | .hold _ => some .hold
  | .doubleTap _ => some .doubleTap

/-- When the Tap's term ends, the Hold's, and the window for a second press. -/
structure Deadlines where
  tap : Option Instant
  hold : Option Instant
  double : Option Instant

/-- Whether there is a deadline and `now` has reached it. -/
def dueBy (deadline : Option Instant) (now : Instant) : Bool := deadline.any fun due => due ≤ now

/-- Whether there is a deadline and `now` is before it. -/
def openAt (deadline : Option Instant) (now : Instant) : Bool := deadline.any fun due => now < due

/-- What an event is to one armed press. -/
inductive Cue
  /-- The key-up of its key; whether the key-down had reached Windows. -/
  | up (passed : Bool)
  /-- A first key-down of its key; whether its own group wins it, with a
  DoubleTap. -/
  | down (completes : Bool)
  /-- A first key-down of another key; whether that is a key of its own combo,
  and whether the press's key-down is on record as passed. -/
  | other (ours passed : Bool)
  /-- The timer of its Hold. -/
  | holdTimer
  /-- A timer that closes the windows due by `due`. -/
  | closed (due : Instant)
  /-- The timer of its Hold could not be started. -/
  | refused
  | reset
  | nothing
  deriving DecidableEq

inductive Life
  /-- The key is held; the deadline of its Hold unless the Hold was dropped. -/
  | held (hold : Option Instant)
  /-- Its Hold's timer will fire it. -/
  | due
  /-- It waits for a second press: whether its Tap waits with it, and whether its
  key-down had reached Windows. -/
  | waiting (tap passed : Bool)
  | ended
  deriving DecidableEq

namespace Life

/-- The Tap of a press that waited for its window, if it has one. -/
def tapIf (tap : Bool) : Option Gesture := if tap then some .tap else none

/-- What a cue at `now` makes of a press, and what it fires. -/
def step (d : Deadlines) (now : Instant) : Life → Cue → Life × Option Gesture
  | held hold, .up passed =>
    if dueBy hold now then (due, none)
    else if openAt d.double now then (waiting (openAt d.tap now) passed, none)
    else (ended, tapIf (openAt d.tap now))
  | held hold, .down _ => (if dueBy hold now then due else ended, none)
  | held hold, .other _ passed =>
    (if passed && !dueBy hold now then ended else held hold, none)
  | held hold, .holdTimer => if hold.isSome then (ended, some .hold) else (held hold, none)
  | held _, .refused => (if d.tap.isNone && d.double.isNone then ended else held none, none)
  | due, .holdTimer => (ended, some .hold)
  | due, .refused => (ended, none)
  | waiting tap _, .down completes =>
    (ended, if completes && openAt d.double now then some .doubleTap else tapIf tap)
  | waiting tap passed, .other ours _ =>
    if ours then (waiting tap passed, none)
    else if tap || passed then (ended, tapIf tap)
    else (waiting tap passed, none)
  | waiting tap passed, .closed closedAt =>
    if tap && dueBy d.double closedAt then (ended, some .tap) else (waiting tap passed, none)
  | _, .reset => (ended, none)
  | life, _ => (life, none)

/-- A press after some cues, with what it fired, in order. -/
def run (d : Deadlines) : Life → List (Instant × Cue) → Life × List Gesture
  | life, [] => (life, [])
  | life, c :: cs =>
    let next := step d c.1 life c.2
    let rest := run d next.1 cs
    (rest.1, next.2.toList ++ rest.2)

/-- The timers come at their due times or after. -/
def OnTime (d : Deadlines) (c : Instant × Cue) : Prop :=
  match c.2 with
  | .holdTimer => dueBy d.hold c.1 = true
  | .closed closedAt => closedAt ≤ c.1
  | _ => True

@[simp] theorem run_nil (d : Deadlines) (life : Life) : run d life [] = (life, []) := rfl

theorem run_cons (d : Deadlines) (life : Life) (c : Instant × Cue) (cs : List (Instant × Cue)) :
    run d life (c :: cs) = ((run d (step d c.1 life c.2).1 cs).1,
      (step d c.1 life c.2).2.toList ++ (run d (step d c.1 life c.2).1 cs).2) := rfl

theorem run_append (d : Deadlines) (life : Life) (cs cs' : List (Instant × Cue)) :
    run d life (cs ++ cs') = ((run d (run d life cs).1 cs').1,
      (run d life cs).2 ++ (run d (run d life cs).1 cs').2) := by
  induction cs generalizing life with
  | nil => rfl
  | cons c cs ih =>
    rw [List.cons_append, run_cons, run_cons, ih]
    dsimp only
    rw [List.append_assoc]

@[simp] theorem step_ended (d : Deadlines) (now : Instant) (cue : Cue) :
    step d now ended cue = (ended, none) := by
  cases cue <;> rfl

theorem run_ended (d : Deadlines) (cs : List (Instant × Cue)) : run d ended cs = (ended, []) := by
  induction cs with
  | nil => rfl
  | cons c cs ih =>
    rw [run_cons, step_ended, ih]
    rfl

/-- A press that is reset is over, whatever it was. -/
theorem run_of_reset (d : Deadlines) (life : Life) {cs : List (Instant × Cue)}
    (h : ∃ c ∈ cs, c.2 = .reset) : (run d life cs).1 = ended := by
  obtain ⟨c, hc, hreset⟩ := h
  obtain ⟨pre, post, rfl⟩ := List.append_of_mem hc
  rw [run_append, run_cons, hreset]
  have hstep : ∀ life, step d c.1 life .reset = (ended, none) := by
    intro life
    cases life <;> rfl
  rw [hstep, run_ended]

/-- When a press fires what. -/
inductive Fires (d : Deadlines) (now : Instant) : Life → Cue → Gesture → Prop
  | released {hold : Option Instant} {passed : Bool} (hhold : dueBy hold now = false)
      (hdouble : openAt d.double now = false) (htap : openAt d.tap now = true) :
      Fires d now (held hold) (.up passed) .tap
  | heldLong {hold : Option Instant} (hhold : hold.isSome = true) :
      Fires d now (held hold) .holdTimer .hold
  | late : Fires d now due .holdTimer .hold
  | again {completes passed : Bool} (h : (completes && openAt d.double now) = false) :
      Fires d now (waiting true passed) (.down completes) .tap
  | elsewhere {passed passed' : Bool} :
      Fires d now (waiting true passed) (.other false passed') .tap
  | windowClosed {closedAt : Instant} {passed : Bool} (h : dueBy d.double closedAt = true) :
      Fires d now (waiting true passed) (.closed closedAt) .tap
  | second {tap passed : Bool} (h : openAt d.double now = true) :
      Fires d now (waiting tap passed) (.down true) .doubleTap

/-- A press that fires does so for one of these reasons, and is over. -/
theorem step_fires {d : Deadlines} {now : Instant} {life : Life} {cue : Cue} {gesture : Gesture}
    (h : (step d now life cue).2 = some gesture) :
    Fires d now life cue gesture ∧ (step d now life cue).1 = ended := by
  cases life with
  | ended => simp at h
  | due =>
    cases cue with
    | holdTimer =>
      obtain rfl := Option.some.inj h
      exact ⟨.late, rfl⟩
    | _ => exact absurd h (by simp [step])
  | held hold =>
    cases cue with
    | up passed =>
      -- Only a press let go in time, with no second window open, fires its Tap at the key-up.
      unfold step at h ⊢
      dsimp only at h ⊢
      cases hhold : dueBy hold now with
      | true => simp [hhold] at h
      | false =>
        cases hdouble : openAt d.double now with
        | true => simp [hhold, hdouble] at h
        | false =>
          cases htap : openAt d.tap now with
          | false => simp [hhold, hdouble, htap, tapIf] at h
          | true =>
            rw [hhold, hdouble, htap] at h
            obtain rfl := Option.some.inj h
            exact ⟨.released hhold hdouble htap, by simp⟩
    | holdTimer =>
      unfold step at h ⊢
      cases hold with
      | none => exact absurd h (by simp)
      | some due =>
        obtain rfl := Option.some.inj h
        exact ⟨.heldLong rfl, rfl⟩
    | _ => exact absurd h (by simp [step])
  | waiting tap passed =>
    cases cue with
    | down completes =>
      -- A second key-down ends the wait: with the DoubleTap in time, else with the waiting Tap.
      unfold step at h ⊢
      refine ⟨?_, rfl⟩
      dsimp only at h
      split at h
      · next hopen =>
        obtain rfl := Option.some.inj h
        simp only [Bool.and_eq_true] at hopen
        obtain ⟨rfl, hopen⟩ := hopen
        exact .second hopen
      · next hclosed =>
        cases tap with
        | false => exact absurd h (by simp [tapIf])
        | true =>
          obtain rfl := Option.some.inj h
          exact .again (Bool.eq_false_iff.mpr hclosed)
    | other ours passed' =>
      unfold step at h ⊢
      cases ours with
      | true => exact absurd h (by simp)
      | false =>
        cases tap with
        | false => cases passed <;> exact absurd h (by simp [tapIf])
        | true =>
          obtain rfl := Option.some.inj h
          exact ⟨.elsewhere, rfl⟩
    | closed closedAt =>
      unfold step at h ⊢
      dsimp only at h ⊢
      cases tap with
      | false => exact absurd h (by simp)
      | true =>
        cases hdue : dueBy d.double closedAt with
        | false => exact absurd h (by simp [hdue])
        | true =>
          rw [hdue] at h
          obtain rfl := Option.some.inj h
          exact ⟨.windowClosed hdue, rfl⟩
    | _ => exact absurd h (by simp [step])

/-- **A press fires one gesture at most.** -/
theorem fired_once (d : Deadlines) (life : Life) (cs : List (Instant × Cue)) :
    (run d life cs).2.length ≤ 1 := by
  induction cs generalizing life with
  | nil => exact Nat.zero_le 1
  | cons c cs ih =>
    rw [run_cons]
    cases hfired : (step d c.1 life c.2).2 with
    | none => exact ih _
    | some gesture =>
      rw [(step_fires hfired).2, run_ended]
      exact Nat.le_refl 1

/-! ## What each gesture tells of the cues before it -/

def IsUp (c : Instant × Cue) : Prop := ∃ passed, c.2 = .up passed

def IsDown (c : Instant × Cue) : Prop := ∃ completes, c.2 = .down completes

/-- The key came up at `u`, after the cues `pre`, for the first time since the
press, and before the Hold's term ended, unless the Hold was refused. -/
structure ReleasedEarly (d : Deadlines) (pre : List (Instant × Cue)) (u : Instant) : Prop where
  first : ∀ c ∈ pre, ¬ IsUp c ∧ ¬ IsDown c
  hold : dueBy d.hold u = false ∨ ∃ c ∈ pre, c.2 = .refused

/-- What the cues so far were, by the state of the press. -/
def Story (d : Deadlines) (hist : List (Instant × Cue)) : Life → Prop
  | held hold => (∀ c ∈ hist, ¬ IsUp c ∧ ¬ IsDown c) ∧
      (hold = d.hold ∨ (hold = none ∧ ∃ c ∈ hist, c.2 = .refused))
  | due => (∃ c ∈ hist, dueBy d.hold c.1 = true) ∧ ∀ c ∈ hist, IsUp c → dueBy d.hold c.1 = true
  | waiting tap passed => ∃ pre u post, hist = pre ++ (u, .up passed) :: post ∧
      ReleasedEarly d pre u ∧ openAt d.double u = true ∧ tap = openAt d.tap u ∧
      ∀ c ∈ post, ¬ IsDown c
  | ended => True

/-- What the cues were if the cue `c` after `hist` fires a gesture. -/
def Allowed (d : Deadlines) (hist : List (Instant × Cue)) (c : Instant × Cue) : Gesture → Prop
  | .hold => dueBy d.hold c.1 = true ∧ ∀ x ∈ hist, IsUp x → dueBy d.hold x.1 = true
  | .tap => ∃ pre u passed post, hist ++ [c] = pre ++ (u, .up passed) :: post ∧
      ReleasedEarly d pre u ∧ openAt d.tap u = true ∧
      ∀ x ∈ post, x.2 = .down true → openAt d.double x.1 = false
  | .doubleTap => ∃ pre u passed post, hist = pre ++ (u, .up passed) :: post ∧
      ReleasedEarly d pre u ∧ openAt d.double u = true ∧ (∀ x ∈ post, ¬ IsDown x) ∧
      c.2 = .down true ∧ openAt d.double c.1 = true

theorem dueBy_mono {deadline : Option Instant} {now later : Instant} (h : dueBy deadline now = true)
    (hle : now ≤ later) : dueBy deadline later = true := by
  unfold dueBy at h ⊢
  cases deadline with
  | none => exact h
  | some due =>
    simp only [Option.any_some, decide_eq_true_eq] at h ⊢
    exact Nat.le_trans h hle

theorem openAt_eq_not_dueBy {deadline : Option Instant} (h : deadline.isSome = true)
    (now : Instant) : openAt deadline now = !dueBy deadline now := by
  cases deadline with
  | none => exact absurd h (by simp)
  | some due =>
    unfold openAt dueBy
    simp only [Option.any_some]
    by_cases hlt : now < due
    · simp [hlt]
    · simp [hlt, Nat.le_of_not_lt hlt]

/-- A window once closed stays closed. -/
theorem openAt_of_dueBy {deadline : Option Instant} {now : Instant}
    (h : dueBy deadline now = true) : openAt deadline now = false := by
  cases deadline with
  | none => rfl
  | some due => rw [openAt_eq_not_dueBy rfl, h]; rfl

/-- A held press is dropped, changed or kept, as long as its key does not move. -/
theorem story_stays_held {d : Deadlines} {hist : List (Instant × Cue)} {c : Instant × Cue}
    {hold : Option Instant} (h : Story d hist (held hold)) (hup : ¬ IsUp c) (hdown : ¬ IsDown c) :
    Story d (hist ++ [c]) (held hold) := by
  refine ⟨fun x hx => ?_, ?_⟩
  · rcases List.mem_append.mp hx with hx | hx
    · exact h.1 x hx
    · rw [List.mem_singleton.mp hx]
      exact ⟨hup, hdown⟩
  · rcases h.2 with hhold | ⟨hnone, x, hx, hrefused⟩
    · exact Or.inl hhold
    · exact Or.inr ⟨hnone, x, List.mem_append_left _ hx, hrefused⟩

/-- A press that waits goes on waiting as long as its key does not go down. -/
theorem story_stays_waiting {d : Deadlines} {hist : List (Instant × Cue)} {c : Instant × Cue}
    {tap passed : Bool} (h : Story d hist (waiting tap passed)) (hdown : ¬ IsDown c) :
    Story d (hist ++ [c]) (waiting tap passed) := by
  obtain ⟨pre, u, post, rfl, hreleased, hopen, htap, hpost⟩ := h
  refine ⟨pre, u, post ++ [c], by simp, hreleased, hopen, htap, fun x hx => ?_⟩
  rcases List.mem_append.mp hx with hx | hx
  · exact hpost x hx
  · rw [List.mem_singleton.mp hx]
    exact hdown

/-- A press that is due stays so. -/
theorem story_stays_due {d : Deadlines} {hist : List (Instant × Cue)} {c : Instant × Cue}
    (h : Story d hist due) (hsorted : ∀ x ∈ hist, x.1 ≤ c.1) : Story d (hist ++ [c]) due := by
  obtain ⟨⟨x, hx, hdue⟩, hups⟩ := h
  refine ⟨⟨x, List.mem_append_left _ hx, hdue⟩, fun y hy hup => ?_⟩
  rcases List.mem_append.mp hy with hy | hy
  · exact hups y hy hup
  · rw [List.mem_singleton.mp hy]
    exact dueBy_mono hdue (hsorted x hx)

/-- A held press becomes due when its key moves after the Hold's term. -/
theorem story_due {d : Deadlines} {hist : List (Instant × Cue)} {c : Instant × Cue}
    {hold : Option Instant} (h : Story d hist (held hold)) (hdue : dueBy hold c.1 = true) :
    Story d (hist ++ [c]) due := by
  have hhold : hold = d.hold := by
    rcases h.2 with hhold | ⟨rfl, -⟩
    · exact hhold
    · exact absurd hdue (by simp [dueBy])
  subst hhold
  refine ⟨⟨c, by simp, hdue⟩, fun x hx hup => ?_⟩
  rcases List.mem_append.mp hx with hx | hx
  · exact absurd hup (h.1 x hx).1
  · rw [List.mem_singleton.mp hx]
    exact hdue

/-- The release of a held press whose Hold is not due. -/
theorem releasedEarly {d : Deadlines} {hist : List (Instant × Cue)} {u : Instant}
    {hold : Option Instant} (h : Story d hist (held hold)) (hdue : dueBy hold u = false) :
    ReleasedEarly d hist u := by
  refine ⟨h.1, ?_⟩
  rcases h.2 with rfl | ⟨-, hrefused⟩
  · exact Or.inl hdue
  · exact Or.inr hrefused

/-- One cue keeps the story. -/
theorem story_step {d : Deadlines} {hist : List (Instant × Cue)} {life : Life}
    {c : Instant × Cue} (h : Story d hist life) (hsorted : ∀ x ∈ hist, x.1 ≤ c.1) :
    Story d (hist ++ [c]) (step d c.1 life c.2).1 := by
  obtain ⟨now, cue⟩ := c
  cases life with
  | ended =>
    rw [step_ended]
    exact trivial
  | due =>
    -- A Hold that is due waits for its timer, whatever else happens.
    have hstays := story_stays_due h hsorted
    cases cue with
    | holdTimer => exact trivial
    | refused => exact trivial
    | reset => exact trivial
    | _ => exact hstays
  | held hold =>
    cases cue with
    | up passed =>
      -- Up in time, the press waits for a second one if its window is open.
      unfold step
      dsimp only
      cases hdue : dueBy hold now with
      | true => exact story_due h hdue
      | false =>
        cases hdouble : openAt d.double now with
        | true => exact ⟨hist, now, [], rfl, releasedEarly h hdue, hdouble, rfl, by simp⟩
        | false => exact trivial
    | down completes =>
      unfold step
      dsimp only
      cases hdue : dueBy hold now with
      | true => exact story_due h hdue
      | false => exact trivial
    | other ours passed =>
      unfold step
      dsimp only
      split
      · exact trivial
      · exact story_stays_held h (by rintro ⟨_, h⟩; simp at h) (by rintro ⟨_, h⟩; simp at h)
    | holdTimer =>
      unfold step
      dsimp only
      split
      · exact trivial
      · exact story_stays_held h (by rintro ⟨_, h⟩; simp at h) (by rintro ⟨_, h⟩; simp at h)
    | refused =>
      unfold step
      dsimp only
      split
      · exact trivial
      · have hstays := @story_stays_held d hist (now, .refused) hold h
          (by rintro ⟨_, h⟩; simp at h) (by rintro ⟨_, h⟩; simp at h)
        exact ⟨hstays.1, Or.inr ⟨rfl, (now, .refused), by simp, rfl⟩⟩
    | reset => exact trivial
    | closed closedAt =>
      exact story_stays_held h (by rintro ⟨_, h⟩; simp at h) (by rintro ⟨_, h⟩; simp at h)
    | nothing =>
      exact story_stays_held h (by rintro ⟨_, h⟩; simp at h) (by rintro ⟨_, h⟩; simp at h)
  | waiting tap passed =>
    cases cue with
    | down completes => exact trivial
    | other ours passed' =>
      have hstays := @story_stays_waiting d hist (now, .other ours passed') tap passed h
        (by rintro ⟨_, h⟩; simp at h)
      unfold step
      dsimp only
      split
      · exact hstays
      · split
        · exact trivial
        · exact hstays
    | closed closedAt =>
      unfold step
      dsimp only
      split
      · exact trivial
      · exact story_stays_waiting h (by rintro ⟨_, h⟩; simp at h)
    | reset => exact trivial
    | up passed' => exact story_stays_waiting h (by rintro ⟨_, h⟩; simp at h)
    | holdTimer => exact story_stays_waiting h (by rintro ⟨_, h⟩; simp at h)
    | refused => exact story_stays_waiting h (by rintro ⟨_, h⟩; simp at h)
    | nothing => exact story_stays_waiting h (by rintro ⟨_, h⟩; simp at h)

/-- What a press fires is allowed by its story. -/
theorem story_fires {d : Deadlines} {hist : List (Instant × Cue)} {life : Life}
    {c : Instant × Cue} (h : Story d hist life) (hsorted : ∀ x ∈ hist, x.1 ≤ c.1)
    (htime : OnTime d c) {gesture : Gesture} (hfires : Fires d c.1 life c.2 gesture) :
    Allowed d hist c gesture := by
  obtain ⟨now, cue⟩ := c
  dsimp only at hfires
  -- The Tap of a press that waited, fired by a cue that does not complete it.
  have hwaited : ∀ {passed : Bool}, Story d hist (waiting true passed) →
      (cue = .down true → openAt d.double now = false) → Allowed d hist (now, cue) .tap := by
    intro passed hstory hclosed
    obtain ⟨pre, u, post, rfl, hreleased, -, htap, hpost⟩ := hstory
    refine ⟨pre, u, passed, post ++ [(now, cue)], by simp, hreleased, htap.symm, fun x hx hx' => ?_⟩
    rcases List.mem_append.mp hx with hx | hx
    · exact absurd ⟨true, hx'⟩ (hpost x hx)
    · rw [List.mem_singleton.mp hx] at hx' ⊢
      exact hclosed hx'
  cases hfires with
  | released hhold hdouble htap =>
    exact ⟨hist, now, _, [], rfl, releasedEarly h hhold, htap, by simp⟩
  | heldLong _ => exact ⟨htime, fun x hx hup => absurd hup (h.1 x hx).1⟩
  | late => exact ⟨htime, h.2⟩
  | again hclosed =>
    refine hwaited h fun hcue => ?_
    obtain rfl := Cue.down.inj hcue
    exact hclosed
  | elsewhere => exact hwaited h fun hcue => absurd hcue (by simp)
  | windowClosed _ => exact hwaited h fun hcue => absurd hcue (by simp)
  | second hopen =>
    obtain ⟨pre, u, post, rfl, hreleased, hdouble, -, hpost⟩ := h
    exact ⟨pre, u, _, post, rfl, hreleased, hdouble, hpost, rfl, hopen⟩

/-- **Every gesture a press fires is allowed by the cues before it.** -/
theorem story_run {d : Deadlines} {cs : List (Instant × Cue)}
    (hsorted : cs.Pairwise fun x y => x.1 ≤ y.1) (htime : ∀ c ∈ cs, OnTime d c)
    {hist rest : List (Instant × Cue)} {c : Instant × Cue} (hcs : cs = hist ++ c :: rest)
    {gesture : Gesture}
    (hfires : (step d c.1 (run d (held d.hold) hist).1 c.2).2 = some gesture) :
    Allowed d hist c gesture := by
  subst hcs
  have hstory : ∀ pre post, hist = pre ++ post → Story d pre (run d (held d.hold) pre).1 := by
    intro pre
    induction pre using List.reverseRecOn with
    | nil => exact fun _ _ => ⟨by simp, Or.inl rfl⟩
    | append_singleton pre x ih =>
      intro post hpost
      rw [run_append, run_cons, run_nil]
      refine story_step (ih (x :: post) (by rw [hpost]; simp)) fun y hy => ?_
      rw [hpost] at hsorted
      have hboth := (List.pairwise_append.mp hsorted).1
      have hpre := (List.pairwise_append.mp hboth).1
      exact (List.pairwise_append.mp hpre).2.2 y hy x (by simp)
  refine story_fires (hstory hist [] (by simp)) (fun x hx => ?_) (htime c (by simp))
    (step_fires hfires).1
  exact (List.pairwise_append.mp hsorted).2.2 x hx c List.mem_cons_self

/-- A press that fires its Hold has no key-up before the Hold's term ended, at any
time. -/
theorem hold_ups {d : Deadlines} {hist rest : List (Instant × Cue)} {c : Instant × Cue}
    (hsorted : (hist ++ c :: rest).Pairwise fun x y => x.1 ≤ y.1)
    (h : Allowed d hist c .hold) :
    ∀ x ∈ hist ++ c :: rest, IsUp x → dueBy d.hold x.1 = true := by
  intro x hx hup
  rcases List.mem_append.mp hx with hx | hx
  · exact h.2 x hx hup
  · rcases List.mem_cons.mp hx with rfl | hx
    · exact h.1
    · have hrest := (List.pairwise_append.mp hsorted).2.1
      exact dueBy_mono h.1 ((List.pairwise_cons.mp hrest).1 x hx)

/-! ## A press that is left alone -/

/-- No other key goes down, no timer is refused and nothing is reset. -/
def Alone (c : Instant × Cue) : Prop :=
  match c.2 with
  | .other .. | .refused | .reset => False
  | _ => True

/-- The first key-down of the key after its release, and whether its group wins it. -/
def nextDown (post : List (Instant × Cue)) : Option (Instant × Bool) :=
  post.findSome? fun c =>
    match c.2 with
    | .down completes => some (c.1, completes)
    | _ => none

/-- Which gesture the times decide, for a press released at `u` and pressed again
as `again` says. -/
def outcome (d : Deadlines) (u : Instant) (again : Option (Instant × Bool)) : Option Gesture :=
  if dueBy d.hold u then some .hold
  else if openAt d.double u && again.any fun z => z.2 && openAt d.double z.1 then some .doubleTap
  else tapIf (openAt d.tap u)

theorem not_due_of_run {d : Deadlines} {cs : List (Instant × Cue)} (halone : ∀ c ∈ cs, Alone c)
    (hend : (run d due cs).1 ≠ due) : (run d due cs).2 = [.hold] := by
  induction cs with
  | nil => exact absurd rfl hend
  | cons c cs ih =>
    obtain ⟨now, cue⟩ := c
    have hc := halone _ List.mem_cons_self
    have hrest := ih fun x hx => halone x (List.mem_cons_of_mem _ hx)
    rw [run_cons] at hend ⊢
    cases cue with
    | holdTimer =>
      show [Gesture.hold] ++ (run d ended cs).2 = [Gesture.hold]
      rw [run_ended]
      rfl
    | other ours passed => exact absurd hc id
    | refused => exact absurd hc id
    | reset => exact absurd hc id
    | _ => exact hrest hend

/-- A press that waits for its window, left alone, with its window's timer
delivered. -/
theorem waiting_outcome {d : Deadlines} {tap passed : Bool} {cs : List (Instant × Cue)}
    (hsorted : cs.Pairwise fun x y => x.1 ≤ y.1) (htime : ∀ c ∈ cs, OnTime d c)
    (halone : ∀ c ∈ cs, Alone c)
    (hend : ∀ passed', (run d (waiting tap passed) cs).1 ≠ waiting true passed') :
    (run d (waiting tap passed) cs).2 =
      (if (nextDown cs).any fun z => z.2 && openAt d.double z.1 then some .doubleTap
        else tapIf tap).toList := by
  induction cs with
  | nil =>
    cases tap with
    | false => rfl
    | true => exact absurd rfl (hend passed)
  | cons c cs ih =>
    obtain ⟨now, cue⟩ := c
    have hc := halone _ List.mem_cons_self
    obtain ⟨hfirst, hsorted'⟩ := List.pairwise_cons.mp hsorted
    have hrest := ih hsorted' (fun x hx => htime x (List.mem_cons_of_mem _ hx))
      fun x hx => halone x (List.mem_cons_of_mem _ hx)
    rw [run_cons] at hend ⊢
    cases cue with
    | down completes =>
      show (if completes && openAt d.double now then some Gesture.doubleTap
        else tapIf tap).toList ++ (run d ended cs).2 = _
      rw [run_ended, List.append_nil]
      rfl
    | closed closedAt =>
      have hnext : nextDown ((now, Cue.closed closedAt) :: cs) = nextDown cs := rfl
      rw [hnext]
      cases hclosed : tap && dueBy d.double closedAt with
      | false =>
        have hstep : step d now (waiting tap passed) (.closed closedAt) =
            (waiting tap passed, none) := by
          unfold step
          dsimp only
          rw [hclosed]
          rfl
        rw [hstep] at hend ⊢
        exact hrest hend
      | true =>
        -- The window has closed, so that no later key-down completes it.
        have hstep : step d now (waiting tap passed) (.closed closedAt) = (ended, some .tap) := by
          unfold step
          dsimp only
          rw [hclosed]
          rfl
        rw [hstep, run_ended]
        simp only [Bool.and_eq_true] at hclosed
        have hnever : ((nextDown cs).any fun z => z.2 && openAt d.double z.1) = false := by
          cases hdown : nextDown cs with
          | none => rfl
          | some z =>
            obtain ⟨x, hx, hz⟩ := List.exists_of_findSome?_eq_some hdown
            have hle : closedAt ≤ x.1 :=
              Nat.le_trans (htime _ List.mem_cons_self) (hfirst x hx)
            have hzx : z.1 = x.1 := by
              split at hz
              · obtain rfl := Option.some.inj hz
                rfl
              · exact absurd hz (by simp)
            rw [Option.any_some, hzx, openAt_of_dueBy (dueBy_mono hclosed.2 hle), Bool.and_false]
        rw [hnever, hclosed.1]
        rfl
    | other ours passed' => exact absurd hc id
    | refused => exact absurd hc id
    | reset => exact absurd hc id
    | _ => exact hrest hend

/-- Before its key moves, a press left alone stays held, or fires its Hold. -/
theorem held_stretch {d : Deadlines} {cs : List (Instant × Cue)} (halone : ∀ c ∈ cs, Alone c)
    (hkey : ∀ c ∈ cs, ¬ IsUp c ∧ ¬ IsDown c) (htime : ∀ c ∈ cs, OnTime d c) :
    run d (held d.hold) cs = (held d.hold, []) ∨
      (run d (held d.hold) cs = (ended, [.hold]) ∧ ∃ c ∈ cs, dueBy d.hold c.1 = true) := by
  induction cs with
  | nil => exact Or.inl rfl
  | cons c cs ih =>
    obtain ⟨now, cue⟩ := c
    have hc := halone _ List.mem_cons_self
    have hrest := ih (fun x hx => halone x (List.mem_cons_of_mem _ hx))
      (fun x hx => hkey x (List.mem_cons_of_mem _ hx))
      fun x hx => htime x (List.mem_cons_of_mem _ hx)
    have hstays : step d now (held d.hold) cue = (held d.hold, none) →
        run d (held d.hold) ((now, cue) :: cs) = (held d.hold, []) ∨
          (run d (held d.hold) ((now, cue) :: cs) = (ended, [.hold]) ∧
            ∃ c ∈ (now, cue) :: cs, dueBy d.hold c.1 = true) := by
      intro hstep
      rw [run_cons, hstep]
      rcases hrest with hrest | ⟨hrest, x, hx, hdue⟩
      · exact Or.inl (by rw [hrest]; rfl)
      · exact Or.inr ⟨by rw [hrest]; rfl, x, List.mem_cons_of_mem _ hx, hdue⟩
    cases cue with
    | up passed => exact absurd ⟨passed, rfl⟩ (hkey _ List.mem_cons_self).1
    | down completes => exact absurd ⟨completes, rfl⟩ (hkey _ List.mem_cons_self).2
    | holdTimer =>
      have hdue : dueBy d.hold now = true := htime _ List.mem_cons_self
      have hsome : d.hold.isSome = true := by
        cases hhold : d.hold with
        | none => simp [hhold, dueBy] at hdue
        | some due => rfl
      have hstep : step d now (held d.hold) .holdTimer = (ended, some .hold) := by
        unfold step
        dsimp only
        rw [hsome]
        rfl
      refine Or.inr ⟨?_, (now, .holdTimer), List.mem_cons_self, hdue⟩
      rw [run_cons, hstep, run_ended]
      rfl
    | other ours passed => exact absurd hc id
    | refused => exact absurd hc id
    | reset => exact absurd hc id
    | closed closedAt => exact hstays rfl
    | nothing => exact hstays rfl

/-- **A press that is left alone fires what the times decide**, if all its timers
have come by the end. -/
theorem left_alone_outcome {d : Deadlines} {pre post : List (Instant × Cue)} {u : Instant}
    {passed : Bool}
    (hsorted : (pre ++ (u, .up passed) :: post).Pairwise fun x y => x.1 ≤ y.1)
    (htime : ∀ c ∈ pre ++ (u, .up passed) :: post, OnTime d c)
    (halone : ∀ c ∈ pre ++ (u, .up passed) :: post, Alone c)
    (hpre : ∀ c ∈ pre, ¬ IsUp c ∧ ¬ IsDown c)
    (hdue : (run d (held d.hold) (pre ++ (u, .up passed) :: post)).1 ≠ due)
    (hwaiting : ∀ passed', (run d (held d.hold) (pre ++ (u, .up passed) :: post)).1 ≠
      waiting true passed') :
    (run d (held d.hold) (pre ++ (u, .up passed) :: post)).2 =
      (outcome d u (nextDown post)).toList := by
  obtain ⟨-, hafter, hbefore⟩ := List.pairwise_append.mp hsorted
  obtain ⟨-, hsorted'⟩ := List.pairwise_cons.mp hafter
  have hmem : ∀ {x}, x ∈ post → x ∈ pre ++ (u, .up passed) :: post := fun hx =>
    List.mem_append_right _ (List.mem_cons_of_mem _ hx)
  rw [run_append, run_cons] at hdue hwaiting ⊢
  rcases held_stretch (fun c hc => halone c (List.mem_append_left _ hc)) hpre
    (fun c hc => htime c (List.mem_append_left _ hc)) with hheld | ⟨hover, x, hx, hhold⟩
  · rw [hheld] at hdue hwaiting ⊢
    dsimp only at hdue hwaiting ⊢
    rw [List.nil_append]
    unfold outcome
    -- The Hold is due at the key-up: then its timer is the one that fires.
    cases hhold : dueBy d.hold u with
    | true =>
      have hstep : step d u (held d.hold) (.up passed) = (due, none) := by
        unfold step
        dsimp only
        rw [hhold]
        rfl
      rw [hstep] at hdue ⊢
      rw [not_due_of_run (fun c hc => halone c (hmem hc)) hdue]
      rfl
    | false =>
      cases hdouble : openAt d.double u with
      | true =>
        have hstep : step d u (held d.hold) (.up passed) =
            (waiting (openAt d.tap u) passed, none) := by
          unfold step
          dsimp only
          rw [hhold, hdouble]
          rfl
        rw [hstep] at hwaiting ⊢
        rw [waiting_outcome hsorted' (fun c hc => htime c (hmem hc))
          (fun c hc => halone c (hmem hc)) hwaiting]
        rfl
      | false =>
        have hstep : step d u (held d.hold) (.up passed) = (ended, tapIf (openAt d.tap u)) := by
          unfold step
          dsimp only
          rw [hhold, hdouble]
          rfl
        rw [hstep, run_ended]
        exact List.append_nil _
  · -- Its Hold fired while the key was held.
    have hlong : dueBy d.hold u = true := dueBy_mono hhold (hbefore x hx _ List.mem_cons_self)
    rw [hover]
    dsimp only
    rw [step_ended, run_ended]
    unfold outcome
    rw [hlong]
    rfl

end Life

end KeySwitch.Engine
