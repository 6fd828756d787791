import KeySwitch.Engine.FeedRuns
import KeySwitch.Lib.Attempts

/-!
# Sequences fire when their steps come one after another

A sequence considers every first key-down at which its condition holds. Its pending
entry tracks the attempt open for it: the latest key-downs it considered, as far as
they take its steps in order, each soon enough after the one before. A key-down that
takes no next step ends the attempt, and may be the first step of another.

All sequences share one table, as the chords do: an entry of other steps is never
found in the place of this one, and pruning or a timer takes an entry only once its
deadline has passed (`Tracks`). So what a sequence fires is a function of the times
of the key-downs it considers and of the keys held at them (`sequence_fires`).
-/

namespace KeySwitch.Engine

open Data Lib

variable {α : Type}

/-! ## What the loader checks -/

/-- What the loader makes sure of in a list, apart from the warning about sequences
of the same steps: no two have equal steps where that warning does not come. -/
structure SequencesChecked (bindings : List (Binding α)) : Prop where
  atLeastTwo : ∀ b ∈ bindings, ∀ steps maxGap, b.kind = .sequence steps maxGap →
    2 ≤ steps.length
  distinct : ∀ (i j : Nat) (b b' : Binding α) steps maxGap steps' maxGap', bindings[i]? = some b →
    bindings[j]? = some b' → b.kind = .sequence steps maxGap → b'.kind = .sequence steps' maxGap' →
    stepsEq steps' steps = true → i = j

theorem stepsEq_self (steps : List KeyCombination) : stepsEq steps steps = true := by
  induction steps with
  | nil => rfl
  | cons step steps ih =>
    unfold stepsEq
    rw [KeyCombination.eq_refl, ih]
    rfl

/-! ## The entry of one step list -/

/-- A key-down that a sequence considers: its time, and the keys held after it. -/
structure Strike where
  now : Instant
  held : VirtualKey → Bool

/-- Whether the keys held after a key-down press step `j`. -/
def fitsStep (steps : List KeyCombination) (j : Nat) (d : Strike) : Bool :=
  steps[j]?.any fun step => keysDown step ⟨d.held, fun _ => .unknown⟩

/-- A key-down takes the next step of the attempt, or the first of a new one. -/
abbrev stepJoin (steps : List KeyCombination) (maxGap : Duration) :
    List Strike → Strike → List Strike :=
  joinInOrder Strike.now maxGap (fitsStep steps)

/-- An attempt is complete with the last step. -/
abbrev stepDone (steps : List KeyCombination) : List Strike → Strike → Bool :=
  doneSteps steps.length

/-- The pending entries of a step list. -/
def Sequences.of (s : Sequences α) (steps : List KeyCombination) : List (PendingSequence α) :=
  s.pending.filter fun p => stepsEq p.steps steps

/-- Some sequence of the list has these steps. -/
def ListedSteps (bindings : List (Binding α)) (steps : List KeyCombination) : Prop :=
  ∃ (i : Nat) (b : Binding α) (maxGap : Duration),
    bindings[i]? = some b ∧ b.kind = .sequence steps maxGap

/-- The table holds the attempt of a sequence: nothing if none is open, or an entry
with the next step that is due a gap after the last one, unless that time has
passed. -/
structure Tracks (bindings : List (Binding α)) (steps : List KeyCombination) (maxGap : Duration)
    (action : α) (clock : Instant) (attempt : List Strike) (s : Sequences α) : Prop where
  known : ∀ p ∈ s.pending, ListedSteps bindings p.steps
  entry : (attempt = [] ∧ s.of steps = []) ∨
    ∃ last, attempt.getLast? = some last ∧ attempt.length < steps.length ∧
      ((∃ seq, s.of steps = [⟨steps, attempt.length, action, last.now + maxGap, seq⟩]) ∨
        (s.of steps = [] ∧ last.now + maxGap ≤ clock))

variable {bindings : List (Binding α)} {steps steps' : List KeyCombination}
  {maxGap maxGap' : Duration} {action action' : α} {clock now : Instant} {attempt : List Strike}
  {s : Sequences α} {held : KeyState} {seq : Nat}

theorem tracks_new : Tracks bindings steps maxGap action clock [] (.new : Sequences α) :=
  ⟨fun _ hp => absurd hp List.not_mem_nil, Or.inl ⟨rfl, rfl⟩⟩

/-- Time passes. -/
theorem tracks_mono (hle : clock ≤ now) (h : Tracks bindings steps maxGap action clock attempt s) :
    Tracks bindings steps maxGap action now attempt s := by
  refine ⟨h.known, ?_⟩
  rcases h.entry with hnone | ⟨last, hlast, hshort, hentry | ⟨hgone, hpast⟩⟩
  · exact Or.inl hnone
  · exact Or.inr ⟨last, hlast, hshort, Or.inl hentry⟩
  · exact Or.inr ⟨last, hlast, hshort, Or.inr ⟨hgone, Nat.le_trans hpast hle⟩⟩

/-- Entries go whose deadlines have passed: a sequence's entry only once its attempt
is over. -/
theorem tracks_filter {keep : PendingSequence α → Bool}
    (hkeep : ∀ p ∈ s.pending, keep p = false → p.expiresAt ≤ clock)
    (h : Tracks bindings steps maxGap action clock attempt s) :
    Tracks bindings steps maxGap action clock attempt ⟨s.pending.filter keep⟩ := by
  have hof : Sequences.of ⟨s.pending.filter keep⟩ steps = (s.of steps).filter keep := by
    unfold Sequences.of
    rw [List.filter_filter, List.filter_filter]
    simp only [Bool.and_comm]
  refine ⟨fun p hp => h.known p (List.mem_of_mem_filter hp), ?_⟩
  rw [hof]
  rcases h.entry with ⟨hattempt, hnone⟩ | ⟨last, hlast, hshort, ⟨seq, hentry⟩ | ⟨hgone, hpast⟩⟩
  · exact Or.inl ⟨hattempt, by rw [hnone]; rfl⟩
  · refine Or.inr ⟨last, hlast, hshort, ?_⟩
    rw [hentry]
    have hmem : (⟨steps, attempt.length, action, last.now + maxGap, seq⟩ : PendingSequence α) ∈
        s.pending :=
      List.mem_of_mem_filter (p := fun p => stepsEq p.steps steps)
        (show _ ∈ s.of steps from hentry ▸ List.mem_singleton_self _)
    cases hp : keep ⟨steps, attempt.length, action, last.now + maxGap, seq⟩ with
    | true => exact Or.inl ⟨seq, by rw [List.filter_cons_of_pos hp]; rfl⟩
    | false =>
      exact Or.inr ⟨by rw [List.filter_cons_of_neg (by simp [hp])]; rfl, hkeep _ hmem hp⟩
  · exact Or.inr ⟨last, hlast, hshort, Or.inr ⟨by rw [hgone]; rfl, hpast⟩⟩

/-- A timer takes out entries whose deadlines have passed. -/
theorem tracks_expire (hdue : ∀ p ∈ s.pending, p.seq = seq → p.expiresAt ≤ clock)
    (h : Tracks bindings steps maxGap action clock attempt s) :
    Tracks bindings steps maxGap action clock attempt (s.expire seq) :=
  tracks_filter (fun p hp hdropped => hdue p hp (by simpa using hdropped)) h

theorem tracks_retainOpen (hle : clock ≤ now)
    (h : Tracks bindings steps maxGap action clock attempt s) :
    Tracks bindings steps maxGap action now attempt (s.retainOpen now) :=
  tracks_filter (fun p _ hdropped => by simpa using hdropped) (tracks_mono hle h)

/-- What a sequence finds once the table is pruned: its attempt, if it still waits. -/
theorem retainOpen_steps (hle : clock ≤ now)
    (h : Tracks bindings steps maxGap action clock attempt s) :
    (waitsAt Strike.now maxGap attempt now = true ∧ attempt.length < steps.length ∧
      ∃ last seq, attempt.getLast? = some last ∧
        (s.retainOpen now).of steps =
          [⟨steps, attempt.length, action, last.now + maxGap, seq⟩]) ∨
      (waitsAt Strike.now maxGap attempt now = false ∧ (s.retainOpen now).of steps = []) := by
  have hopen : ∀ p ∈ (s.retainOpen now).of steps, now < p.expiresAt := by
    intro p hp
    have hmem := List.mem_of_mem_filter hp
    simpa using (List.mem_filter.mp hmem).2
  rcases (tracks_retainOpen hle h).entry with ⟨rfl, hnone⟩ |
    ⟨last, hlast, hshort, ⟨seq, hentry⟩ | ⟨hgone, hpast⟩⟩
  · exact Or.inr ⟨rfl, hnone⟩
  · have hlt := hopen _ (hentry ▸ List.mem_singleton_self _)
    exact Or.inl ⟨by rw [waitsAt, hlast]; simpa using hlt, hshort, last, seq, hlast, hentry⟩
  · exact Or.inr ⟨by rw [waitsAt, hlast]; simpa using hpast, hgone⟩

/-- Starting afresh where no entry is: the key-down is the first step or nothing. -/
theorem tracks_start {first : KeyCombination} {rest : List KeyCombination} {index : Nat}
    {b : Binding α} (hb : bindings[index]? = some b)
    (hkind : b.kind = .sequence (first :: rest) maxGap) (htwo : 2 ≤ (first :: rest).length)
    (hknown : ∀ p ∈ s.pending, ListedSteps bindings p.steps)
    (hnone : s.of (first :: rest) = []) :
    (s.start held action first (first :: rest) maxGap now seq).2.fired = none ∧
      Tracks bindings (first :: rest) maxGap action now
        (if fitsStep (first :: rest) 0 ⟨now, held.active⟩ then [⟨now, held.active⟩] else [])
        (s.start held action first (first :: rest) maxGap now seq).1 := by
  have hfits : fitsStep (first :: rest) 0 ⟨now, held.active⟩ = keysDown first held := rfl
  have hlong : ((first :: rest).length == 1) = false := by
    rw [beq_eq_false_iff_ne]
    omega
  unfold Sequences.start
  rw [hfits, hlong]
  cases keysDown first held with
  | false => exact ⟨rfl, hknown, Or.inl ⟨rfl, hnone⟩⟩
  | true =>
    refine ⟨rfl, fun p hp => ?_, Or.inr ⟨⟨now, held.active⟩, rfl, htwo, Or.inl ⟨seq, ?_⟩⟩⟩
    · rcases List.mem_append.mp hp with hp | hp
      · exact hknown p hp
      · rw [List.mem_singleton.mp hp]
        exact ⟨index, b, maxGap, hb, hkind⟩
    · unfold Sequences.of at hnone ⊢
      simp only [if_true, Bool.false_eq_true, if_false]
      rw [List.filter_append, hnone, List.filter_cons_of_pos (by exact stepsEq_self _)]
      rfl

/-- **A key-down that the sequence considers fires exactly where it completes the
attempt**, and the entry follows. -/
theorem tracks_own (held : KeyState) (seq : Nat) {index : Nat} {b : Binding α}
    (hb : bindings[index]? = some b)
    (hkind : b.kind = .sequence steps maxGap) (htwo : 2 ≤ steps.length) (hle : clock ≤ now)
    (h : Tracks bindings steps maxGap action clock attempt s) :
    (s.onKeyDown held action steps maxGap now seq).2.fired =
        (if completes (stepJoin steps maxGap) (stepDone steps) attempt ⟨now, held.active⟩ then
          some action else none) ∧
      Tracks bindings steps maxGap action now
        (nextAttempt (stepJoin steps maxGap) (stepDone steps) attempt ⟨now, held.active⟩)
        (s.onKeyDown held action steps maxGap now seq).1 := by
  have hretained := tracks_retainOpen hle h
  cases steps with
  | nil => exact absurd htwo (by decide)
  | cons first rest =>
    have hfind : (s.retainOpen now).pending.find? (fun p => stepsEq p.steps (first :: rest)) =
        ((s.retainOpen now).of (first :: rest)).head? := List.head?_filter.symm
    -- A key-down that starts afresh completes nothing: there are two steps at least.
    have hfresh : ∀ attempt' : List Strike, attempt'.length < 2 →
        stepDone (first :: rest) attempt' ⟨now, held.active⟩ = false := by
      intro attempt' hlength
      unfold stepDone doneSteps
      rw [beq_eq_false_iff_ne]
      omega
    have hshort : (if fitsStep (first :: rest) 0 ⟨now, held.active⟩ then
        [(⟨now, held.active⟩ : Strike)] else []).length < 2 := by
      split
      · exact Nat.one_lt_two
      · exact Nat.zero_lt_two
    unfold Sequences.onKeyDown nextAttempt completes
    dsimp only
    rw [hfind]
    rcases retainOpen_steps hle h with ⟨hwaits, hlt, last, seq', hlast, hentry⟩ | ⟨hidle, hgone⟩
    · have hfound : (s.retainOpen now).pending.find? (fun p => stepsEq p.steps (first :: rest)) =
          some ⟨first :: rest, attempt.length, action, last.now + maxGap, seq'⟩ := by
        rw [hfind, hentry]
        rfl
      have hpresses : Sequences.pressesStep held (first :: rest) attempt.length =
          fitsStep (first :: rest) attempt.length ⟨now, held.active⟩ := rfl
      rw [hentry]
      dsimp only [List.head?_cons]
      rw [hpresses]
      cases hfits : fitsStep (first :: rest) attempt.length ⟨now, held.active⟩ with
      | true =>
        have hjoin : stepJoin (first :: rest) maxGap attempt ⟨now, held.active⟩ =
            attempt ++ [⟨now, held.active⟩] := joinInOrder_next hwaits hfits
        have hdone : stepDone (first :: rest) (attempt ++ [(⟨now, held.active⟩ : Strike)])
            ⟨now, held.active⟩ = (attempt.length + 1 == (first :: rest).length) := by
          unfold stepDone doneSteps
          rw [List.length_append, List.length_singleton]
        rw [hjoin, hdone]
        cases hlength : attempt.length + 1 == (first :: rest).length with
        | true =>
          simp only [if_true]
          refine ⟨rfl, fun p hp => ?_, Or.inl ⟨rfl, filter_eraseP_marked hfound hentry⟩⟩
          exact hretained.known p (List.mem_of_mem_eraseP hp)
        | false =>
          simp only [if_true, Bool.false_eq_true, if_false]
          rw [beq_eq_false_iff_ne] at hlength
          refine ⟨rfl, fun p hp => ?_, Or.inr ⟨⟨now, held.active⟩, by simp, ?_, Or.inl ⟨seq, ?_⟩⟩⟩
          · rcases mem_modifyFirst hfound hp with hp | rfl
            · exact hretained.known p hp
            · have hknown := hretained.known _ (List.mem_of_find?_eq_some hfound)
              exact hknown
          · rw [List.length_append, List.length_singleton]
            omega
          · rw [List.length_append, List.length_singleton]
            exact filter_modifyFirst_marked hfound hentry (stepsEq_self _)
      | false =>
        have hjoin : stepJoin (first :: rest) maxGap attempt ⟨now, held.active⟩ =
            if fitsStep (first :: rest) 0 ⟨now, held.active⟩ then [⟨now, held.active⟩] else [] := by
          unfold stepJoin joinInOrder
          rw [hfits, Bool.and_false]
          rfl
        rw [hjoin, hfresh _ hshort]
        simp only [Bool.false_eq_true, if_false]
        exact tracks_start hb hkind htwo
          (fun p hp => hretained.known p (List.mem_of_mem_eraseP hp))
          (filter_eraseP_marked hfound hentry)
    · have hjoin : stepJoin (first :: rest) maxGap attempt ⟨now, held.active⟩ =
          if fitsStep (first :: rest) 0 ⟨now, held.active⟩ then [⟨now, held.active⟩] else [] := by
        unfold stepJoin joinInOrder
        rw [hidle, Bool.false_and]
        rfl
      rw [hgone, hjoin, hfresh _ hshort]
      simp only [List.head?_nil, Bool.false_eq_true, if_false]
      exact tracks_start hb hkind htwo hretained.known hgone

/-- Entries of other steps come and go beside the sequence's own. -/
theorem tracks_of {s' : Sequences α} (hknown : ∀ p ∈ s'.pending, ListedSteps bindings p.steps)
    (hof : s'.of steps = s.of steps) (h : Tracks bindings steps maxGap action clock attempt s) :
    Tracks bindings steps maxGap action clock attempt s' := by
  refine ⟨hknown, ?_⟩
  rw [hof]
  exact h.entry

/-- **A key-down fed to another sequence** leaves the attempt. -/
theorem tracks_other (hchecked : SequencesChecked bindings) {index j : Nat} {b b' : Binding α}
    (hb : bindings[index]? = some b) (hkind : b.kind = .sequence steps maxGap)
    (hb' : bindings[j]? = some b') (hkind' : b'.kind = .sequence steps' maxGap') (hne : j ≠ index)
    (hle : clock ≤ now) (h : Tracks bindings steps maxGap action clock attempt s) :
    Tracks bindings steps maxGap action now attempt
      (s.onKeyDown held action' steps' maxGap' now seq).1 := by
  have hretained := tracks_retainOpen hle h
  -- No entry is of both step lists.
  have hboth : ∀ other, ListedSteps bindings other → stepsEq other steps' = true →
      stepsEq other steps = false := by
    rintro other ⟨i, c, gap, hc, hckind⟩ hours
    rw [Bool.eq_false_iff]
    intro hmine
    have hj := hchecked.distinct _ _ _ _ _ _ _ _ hb' hc hkind' hckind hours
    have hi := hchecked.distinct _ _ _ _ _ _ _ _ hb hc hkind hckind hmine
    exact hne (hj.trans hi.symm)
  have hlisted : ListedSteps bindings steps' := ⟨j, b', maxGap', hb', hkind'⟩
  have hstart : ∀ (s : Sequences α) (first : KeyCombination),
      Tracks bindings steps maxGap action now attempt s →
      Tracks bindings steps maxGap action now attempt
        (s.start held action' first steps' maxGap' now seq).1 := by
    intro s first h
    unfold Sequences.start
    split
    · split
      · exact h
      · refine tracks_of (fun p hp => ?_) ?_ h
        · rcases List.mem_append.mp hp with hp | hp
          · exact h.known p hp
          · rw [List.mem_singleton.mp hp]
            exact hlisted
        · have hnew : stepsEq steps' steps = false := hboth steps' hlisted (stepsEq_self steps')
          unfold Sequences.of
          rw [List.filter_append, List.filter_cons_of_neg (by simp [hnew]), List.filter_nil,
            List.append_nil]
    · exact h
  unfold Sequences.onKeyDown
  split
  · exact tracks_mono hle h
  · next first rest =>
    dsimp only
    split
    · next entry hfound =>
      have hmem := List.mem_of_find?_eq_some hfound
      have hours : stepsEq entry.steps (first :: rest) = true := by
        simpa using List.find?_some hfound
      have hmarked := hboth entry.steps (hretained.known entry hmem) hours
      have herased : Tracks bindings steps maxGap action now attempt
          ⟨(s.retainOpen now).pending.eraseP fun p => stepsEq p.steps (first :: rest)⟩ :=
        tracks_of (fun p hp => hretained.known p (List.mem_of_mem_eraseP hp))
          (filter_eraseP_unmarked (fun p : PendingSequence α => stepsEq p.steps steps)
            hfound hmarked) hretained
      split
      · split
        · exact herased
        · refine tracks_of (fun p hp => ?_) ?_ hretained
          · rcases mem_modifyFirst hfound hp with hp | rfl
            · exact hretained.known p hp
            · exact hretained.known entry hmem
          · exact filter_modifyFirst_unmarked
              (fun p : PendingSequence α => stepsEq p.steps steps) hfound hmarked hmarked
      · exact hstart _ first herased
    · exact hstart _ first hretained

/-! ## Runs of the tables -/

def Feed.strike (f : Feed α) : Strike := ⟨f.env.now, f.held.active⟩

/-- What a run of the tables is to a sequence: its action fires where a key-down
completes an attempt, and the table holds the attempt then open. -/
structure RunsSteps (bindings : List (Binding α)) (index : Nat) (steps : List KeyCombination)
    (maxGap : Duration) (action : α) (attempt : List Strike) (t : Tables α)
    (touches : List (Touch α)) : Prop where
  fires : (fedTo index (tables.trace t touches)).map Prod.snd =
    (completions (stepJoin steps maxGap) (stepDone steps) attempt
      ((fedTo index (tables.trace t touches)).map fun x => x.1.strike)).map (fireIf action)
  tracks : Tracks bindings steps maxGap action (tables.run t touches).clock
    (openAttempt (stepJoin steps maxGap) (stepDone steps) attempt
      ((fedTo index (tables.trace t touches)).map fun x => x.1.strike))
    (tables.run t touches).sequences

/-- The sequence's own turn. -/
theorem runsSteps_own {index : Nat} {f : Feed α} (hindex : f.index = index) {t : Tables α}
    {touches : List (Touch α)}
    (hfired : (t.feed f).2.toList =
      fireIf action (completes (stepJoin steps maxGap) (stepDone steps) attempt f.strike))
    (h : RunsSteps bindings index steps maxGap action
      (nextAttempt (stepJoin steps maxGap) (stepDone steps) attempt f.strike)
      (t.feed f).1 touches) :
    RunsSteps bindings index steps maxGap action attempt t (.feed f :: touches) := by
  refine ⟨?_, ?_⟩
  · rw [fedTo_own hindex, List.map_cons, List.map_cons, completions, List.map_cons, ← h.fires,
      hfired]
  · rw [fedTo_own hindex]
    exact h.tracks

/-- **What a sequence fires in a run of the tables.** -/
theorem sequence_fires (hchecked : SequencesChecked bindings) {index : Nat} {b : Binding α}
    (hb : bindings[index]? = some b) (hkind : b.kind = .sequence steps maxGap)
    {touches : List (Touch α)}
    (hlisted : ∀ f, .feed f ∈ touches → bindings[f.index]? = some f.binding) {t : Tables α}
    (hlegal : punctual.Legal t touches)
    (h : Tracks bindings steps maxGap b.action t.clock attempt t.sequences) :
    RunsSteps bindings index steps maxGap b.action attempt t touches := by
  have htwo := hchecked.atLeastTwo b (List.mem_of_getElem? hb) steps maxGap hkind
  induction touches generalizing t attempt with
  | nil => exact ⟨rfl, h⟩
  | cons touch touches ih =>
    have hrest : ∀ {attempt : List Strike},
        Tracks bindings steps maxGap b.action (t.touch touch).1.clock attempt
          (t.touch touch).1.sequences →
        RunsSteps bindings index steps maxGap b.action attempt (t.touch touch).1 touches :=
      fun h => ih (fun f hf => hlisted f (List.mem_cons_of_mem _ hf)) hlegal.2 h
    have hintime := hlegal.1.2
    cases touch with
    | clear => exact absurd hintime id
    | expireChord seq due =>
      have hdone := hrest (tracks_mono (Nat.le_max_left t.clock due) h)
      exact ⟨hdone.fires, hdone.tracks⟩
    | expireSequence seq due =>
      have hdone := hrest (tracks_expire (fun p hp hseq => ?_)
        (tracks_mono (Nat.le_max_left t.clock due) h))
      · exact ⟨hdone.fires, hdone.tracks⟩
      · exact Nat.le_trans (hintime p hp hseq) (Nat.le_max_right _ _)
    | feed f =>
      have hle : t.clock ≤ f.env.now := hintime
      have hlist := hlisted f List.mem_cons_self
      by_cases hindex : f.index = index
      · -- The sequence's own turn.
        rw [hindex, hb] at hlist
        have hbinding : f.binding = b := (Option.some.inj hlist).symm
        have hfeed : t.feed f =
            ({ t with
              clock := f.env.now
              sequences :=
                (t.sequences.onKeyDown f.held b.action steps maxGap f.env.now f.seq).1 },
              (t.sequences.onKeyDown f.held b.action steps maxGap f.env.now f.seq).2.fired) := by
          unfold Tables.feed
          rw [hbinding, hkind]
        obtain ⟨hfired, htracks⟩ := tracks_own f.held f.seq hb hkind htwo hle h
        refine runsSteps_own hindex ?_ (hrest ?_)
        · rw [hfeed]
          exact hfired ▸ toList_fireIf _ _
        · show Tracks _ _ _ _ (t.feed f).1.clock _ (t.feed f).1.sequences
          rw [hfeed]
          exact htracks
      · have hother : Tracks bindings steps maxGap b.action (t.feed f).1.clock attempt
            (t.feed f).1.sequences := by
          rw [feed_clock]
          unfold Tables.feed
          split
          · exact tracks_mono hle h
          · next steps' maxGap' hkind' =>
            exact tracks_other hchecked hb hkind hlist hkind' hindex hle h
          · exact tracks_mono hle h
        have hdone := hrest hother
        refine ⟨?_, ?_⟩
        · rw [fedTo_other hindex]
          exact hdone.fires
        · rw [fedTo_other hindex]
          exact hdone.tracks

/-! ## The result -/

/-- The key-downs of a schedule that the sequence at `index` considers: the first ones
at which its condition holds; each with what the sequence fires on it. -/
def struckBy (bindings : List (Binding α)) (events : List (KeyEvent × Env)) (turns : List Turn)
    (index : Nat) : List (Strike × List α) :=
  (feedsIn bindings events turns index).map fun x => (x.1.strike, x.2)

/-- Key-downs take the first steps of a sequence in order: each with the keys of its
step held after it, and less than `maxGap` after the one before. -/
abbrev TakesInOrder (steps : List KeyCombination) (maxGap : Duration) (strikes : List Strike) :
    Prop :=
  TakesSteps Strike.now maxGap (fitsStep steps) strikes

/-- Whether a key-down completes the attempt open after `strikes`. -/
def completesSteps (steps : List KeyCombination) (maxGap : Duration) (strikes : List Strike)
    (d : Strike) : Bool :=
  completes (stepJoin steps maxGap) (stepDone steps)
    (openAttempt (stepJoin steps maxGap) (stepDone steps) [] strikes) d

/-- What a sequence is for, said of the key-downs it considers. -/
structure SequenceCorrect (steps : List KeyCombination) (maxGap : Duration) (action : α)
    (struck : List (Strike × List α)) : Prop where
  /-- The action fires exactly where an attempt is completed. -/
  fires : ∀ pre d fired post, struck = pre ++ (d, fired) :: post →
    fired = if completesSteps steps maxGap (pre.map Prod.fst) d then [action] else []
  /-- Where something fires, it is the action, and the latest key-downs, as many as
  there are steps, take the steps in order. -/
  taken : ∀ pre d fired post, struck = pre ++ (d, fired) :: post → fired ≠ [] →
    fired = [action] ∧ ∃ used, used <:+ pre.map Prod.fst ++ [d] ∧ used.length = steps.length ∧
      TakesInOrder steps maxGap used
  /-- None of these counts for two firings: from one to the next, there is a key-down
  for each step. -/
  once : ∀ pre d fired mid d' fired' post,
    struck = pre ++ (d, fired) :: (mid ++ (d', fired') :: post) → fired ≠ [] → fired' ≠ [] →
    steps.length ≤ mid.length + 1

/-- Firing as attempts complete is being correct. -/
theorem sequenceCorrect_of_fires {struck : List (Strike × List α)}
    (h : struck.map Prod.snd = (completions (stepJoin steps maxGap) (stepDone steps) []
      (struck.map Prod.fst)).map (fireIf action)) :
    SequenceCorrect steps maxGap action struck := by
  have hfires : ∀ pre d fired post, struck = pre ++ (d, fired) :: post →
      fired = fireIf action (completesSteps steps maxGap (pre.map Prod.fst) d) :=
    fun pre d fired post hsplit => completions_split h hsplit
  have hcompletes : ∀ pre d fired post, struck = pre ++ (d, fired) :: post → fired ≠ [] →
      completesSteps steps maxGap (pre.map Prod.fst) d = true ∧ fired = [action] := by
    intro pre d fired post hsplit hsome
    have hfired := hfires pre d _ post hsplit
    cases hdone : completesSteps steps maxGap (pre.map Prod.fst) d with
    | true =>
      rw [hdone] at hfired
      exact ⟨rfl, hfired⟩
    | false =>
      rw [hdone] at hfired
      exact absurd hfired hsome
  refine ⟨hfires, fun pre d fired post hsplit hsome => ?_, ?_⟩
  · obtain ⟨hdone, haction⟩ := hcompletes pre d fired post hsplit hsome
    exact ⟨haction, joinInOrder_steps hdone⟩
  · intro pre d fired mid d' fired' post hsplit hsome hsome'
    have hlater : struck = (pre ++ (d, fired) :: mid) ++ (d', fired') :: post := by
      rw [hsplit, List.append_assoc, List.cons_append]
    have hdone := (hcompletes _ _ _ _ hsplit hsome).1
    have hdone' := (hcompletes _ _ _ _ hlater hsome').1
    rw [List.map_append, List.map_cons] at hdone'
    have hapart := completions_apart hdone hdone'
    rw [List.length_map] at hapart
    exact hapart

/-- What a sequence fires in a schedule, and what the table holds for it at the end. -/
theorem schedule_runsSteps (hchecked : SequencesChecked bindings) {index : Nat} {b : Binding α}
    (hb : bindings[index]? = some b) (hkind : b.kind = .sequence steps maxGap)
    {events : List (KeyEvent × Env)} (hsorted : events.Pairwise fun x y => x.2.now ≤ y.2.now)
    (hfew : (new : Engine α).armingsOf (ops bindings events) < 2 ^ 64) {turns : List Turn}
    (hlegal : (schedules bindings).Legal (.start events) turns) :
    RunsSteps bindings index steps maxGap b.action [] .new
      ((Timeline.start events).touchesIn bindings turns) :=
  sequence_fires hchecked hb hkind (touchesIn_listed bindings turns _)
    (schedule_punctual hsorted hfew hlegal) tracks_new

/-- The key-downs a sequence considers, and what it fires on them. -/
theorem struck_fires {index : Nat} {events : List (KeyEvent × Env)} {turns : List Turn}
    (h : RunsSteps bindings index steps maxGap action [] .new
      ((Timeline.start events).touchesIn bindings turns)) :
    (struckBy bindings events turns index).map Prod.snd =
      (completions (stepJoin steps maxGap) (stepDone steps) []
        ((struckBy bindings events turns index).map Prod.fst)).map (fireIf action) := by
  unfold struckBy
  rw [feedsIn_tables, List.map_map, List.map_map]
  exact h.fires

/-- **Where no entry of a sequence is pending, its steps fire it**, taken by the next
key-downs it considers. -/
theorem sequence_from_idle (hchecked : SequencesChecked bindings) {index : Nat} {b : Binding α}
    (hb : bindings[index]? = some b) (hkind : b.kind = .sequence steps maxGap)
    {events : List (KeyEvent × Env)} (hsorted : events.Pairwise fun x y => x.2.now ≤ y.2.now)
    (hfew : (new : Engine α).armingsOf (ops bindings events) < 2 ^ 64) {before after : List Turn}
    (hlegal : (schedules bindings).Legal (.start events) (before ++ after))
    (hnone : ∀ p ∈ ((schedules bindings).run (.start events) before).engine.sequences.pending,
      stepsEq p.steps steps = false) :
    ∃ later, struckBy bindings events (before ++ after) index =
        struckBy bindings events before index ++ later ∧
      ∀ taken d fired rest, later = taken ++ (d, fired) :: rest →
        taken.length + 1 = steps.length →
        TakesInOrder steps maxGap (taken.map Prod.fst ++ [d]) → fired = [b.action] := by
  have htwo := hchecked.atLeastTwo b (List.mem_of_getElem? hb) steps maxGap hkind
  obtain ⟨hbefore, -⟩ := (Machine.legal_append _).mp hlegal
  have hboth := schedule_punctual hsorted hfew hlegal
  rw [touchesIn_append] at hboth
  have hpunctual : punctual.Legal
      (tables.run .new ((Timeline.start events).touchesIn bindings before))
      (((schedules bindings).run (.start events) before).touchesIn bindings after) :=
    ((Machine.legal_append punctual).mp hboth).2
  have htracks := (schedule_runsSteps hchecked hb hkind hsorted hfew hbefore).tracks
  obtain ⟨-, hagrees⟩ := schedule_tables (beside_start hsorted hfew) hbefore (s := .new)
    ⟨rfl, rfl⟩ fun _ _ => Nat.zero_le _
  have htrace : feedsIn bindings events (before ++ after) index =
      feedsIn bindings events before index ++
        fedTo index (tables.trace
          (tables.run .new ((Timeline.start events).touchesIn bindings before))
          (((schedules bindings).run (.start events) before).touchesIn bindings after)) := by
    rw [feedsIn_tables, feedsIn_tables, touchesIn_append, fedTo_append]
  have hlisted := touchesIn_listed bindings after ((schedules bindings).run (.start events) before)
  generalize ((schedules bindings).run (.start events) before).touchesIn bindings after = touches
    at hpunctual htrace hlisted
  generalize tables.run .new ((Timeline.start events).touchesIn bindings before) = t
    at htracks hagrees htrace hpunctual
  generalize openAttempt (stepJoin steps maxGap) (stepDone steps) [] _ = attempt at htracks
  have hruns := (sequence_fires hchecked hb hkind hlisted hpunctual htracks).fires
  refine ⟨(fedTo index (tables.trace t touches)).map fun x => (x.1.strike, x.2), ?_, ?_⟩
  · unfold struckBy
    rw [htrace, List.map_append]
  · intro taken d fired rest hsplit hlength hsteps
    have hout : fired = fireIf b.action (completes (stepJoin steps maxGap) (stepDone steps)
        (openAttempt (stepJoin steps maxGap) (stepDone steps) attempt (taken.map Prod.fst)) d) := by
      refine completions_split ?_ hsplit
      rw [List.map_map, List.map_map]
      exact hruns
    -- The attempt that is open at the end of the first part has lapsed.
    have hidle : ∀ first ∈ (taken.map Prod.fst ++ [d]).head?,
        waitsAt Strike.now maxGap attempt first.now = false := by
      intro first hfirst
      have hlater : t.clock ≤ first.now := by
        have hmem : first ∈ ((fedTo index (tables.trace t touches)).map
            fun x => (x.1.strike, x.2)).map Prod.fst := by
          rw [hsplit, List.map_append, List.map_cons]
          rcases List.mem_append.mp (List.mem_of_mem_head? hfirst) with hmem | hmem
          · exact List.mem_append_left _ hmem
          · rw [List.mem_singleton.mp hmem]
            exact List.mem_append_right _ List.mem_cons_self
        rw [List.map_map] at hmem
        obtain ⟨x, hx, rfl⟩ := List.mem_map.mp hmem
        exact (fedTo_sorted hpunctual).1 x hx
      have hgone : t.sequences.of steps = [] := by
        unfold Sequences.of
        rw [hagrees.sequences, List.filter_eq_nil_iff]
        intro p hp
        rw [hnone p hp]
        exact Bool.false_ne_true
      rcases htracks.entry with ⟨rfl, -⟩ | ⟨last, hlast, -, ⟨seq, hentry⟩ | ⟨-, hpast⟩⟩
      · rfl
      · rw [hgone] at hentry
        exact absurd hentry (List.cons_ne_nil _ _).symm
      · have hover := Nat.le_trans hpast hlater
        rw [waitsAt, hlast]
        simpa using hover
    rw [hout, completes_of_steps hidle hsteps (by rw [List.length_map]; exact hlength) htwo]
    rfl

/-- The key-downs considered can be read off the views of the feeds. -/
theorem strikes_views (fed : List (Feed α × List α)) :
    (fed.map fun x => (x.1.strike, x.2)).map Prod.fst =
      (fed.map fun x => x.1.view).map fun v => ⟨v.env.now, v.held⟩ := by
  rw [List.map_map, List.map_map]
  rfl

/-- Whether key-downs fire is whether they complete an attempt. -/
theorem struck_flags {struck : List (Strike × List α)}
    (h : struck.map Prod.snd = (completions (stepJoin steps maxGap) (stepDone steps) []
      (struck.map Prod.fst)).map (fireIf action)) :
    struck.map (fun x => !x.2.isEmpty) =
      completions (stepJoin steps maxGap) (stepDone steps) [] (struck.map Prod.fst) := by
  have hmap := congrArg (List.map fun fired => !fired.isEmpty) h
  rw [List.map_map, List.map_map, isEmpty_fireIf, List.map_id] at hmap
  exact hmap

/-- **Sequences are correct.** In every schedule of events that take fewer than 2^64
numbers, over a list that passes the loader's checks and has no two sequences of the
same steps: the engine's visits of a sequence fire its action on a key-down it
considers only where the latest ones, as many as it has steps, take the steps in order,
none of them for two firings, and nothing on any other; from any state with no entry
of it pending, the next ones that take its steps fire it; what the schedule fires is
what its visits and its gestures fire; timers do not change which key-downs a sequence
considers, nor what it fires; and two sequences of the same steps and gap that consider
the same key-downs, in whatever schedules over whatever lists, fire on the same
ones. -/
theorem sequence_correct (hchecked : SequencesChecked bindings) {index : Nat} {b : Binding α}
    (hb : bindings[index]? = some b) (hkind : b.kind = .sequence steps maxGap)
    {events : List (KeyEvent × Env)} (hsorted : events.Pairwise fun x y => x.2.now ≤ y.2.now)
    (hfew : (new : Engine α).armingsOf (ops bindings events) < 2 ^ 64) {turns : List Turn}
    (hlegal : (schedules bindings).Legal (.start events) turns) :
    SequenceCorrect steps maxGap b.action (struckBy bindings events turns index) ∧
      (∀ before after, turns = before ++ after →
        (∀ p ∈ ((schedules bindings).run (.start events) before).engine.sequences.pending,
          stepsEq p.steps steps = false) →
        ∃ later, struckBy bindings events turns index =
            struckBy bindings events before index ++ later ∧
          ∀ taken d fired rest, later = taken ++ (d, fired) :: rest →
            taken.length + 1 = steps.length →
            TakesInOrder steps maxGap (taken.map Prod.fst ++ [d]) → fired = [b.action]) ∧
      (∀ s, .stop s ∈ (Timeline.start events).partsIn bindings turns → s.feed.index = index →
        s.fed = false → s.fired = []) ∧
      ((schedules bindings).run (.start events) turns).fired =
        ((Timeline.start events).partsIn bindings turns).flatMap Part.fired ∧
      (∀ turns', DecidesAll bindings events turns → DecidesAll bindings events turns' →
        struckBy bindings events turns index = struckBy bindings events turns' index) ∧
      ∀ (bindings' : List (Binding α)) (events' : List (KeyEvent × Env)) (turns' : List Turn)
        (index' : Nat) (b' : Binding α), SequencesChecked bindings' →
        bindings'[index']? = some b' → b'.kind = .sequence steps maxGap →
        (events'.Pairwise fun x y => x.2.now ≤ y.2.now) →
        (new : Engine α).armingsOf (ops bindings' events') < 2 ^ 64 →
        (schedules bindings').Legal (.start events') turns' →
        (struckBy bindings events turns index).map Prod.fst =
          (struckBy bindings' events' turns' index').map Prod.fst →
        (struckBy bindings events turns index).map (fun x => !x.2.isEmpty) =
          (struckBy bindings' events' turns' index').map fun x => !x.2.isEmpty := by
  have hfires := struck_fires (schedule_runsSteps hchecked hb hkind hsorted hfew hlegal)
  refine ⟨sequenceCorrect_of_fires hfires, ?_, fun s hs hindex hskipped => ?_,
    run_fired bindings turns _, ?_, ?_⟩
  · rintro before after rfl hnone
    exact sequence_from_idle hchecked hb hkind hsorted hfew hlegal hnone
  · refine partsIn_idle hb (fun combo hcombo => ?_) hs hindex hskipped
    rw [hkind] at hcombo
    exact nomatch hcombo
  · intro turns' hall hall'
    have hfires' :=
      struck_fires (schedule_runsSteps hchecked hb hkind hsorted hfew hall'.legal)
    have hstrikes : (struckBy bindings events turns index).map Prod.fst =
        (struckBy bindings events turns' index).map Prod.fst := by
      unfold struckBy
      rw [strikes_views, strikes_views, feedsIn_views hsorted hfew hall hall' index]
    rw [← hstrikes, ← hfires] at hfires'
    exact (List.zip_of_prod hstrikes hfires'.symm).trans (List.zip_of_prod rfl rfl).symm
  · intro bindings' events' turns' index' b' hchecked' hb' hkind' hsorted' hfew' hlegal' hstrikes
    have hfires' :=
      struck_fires (schedule_runsSteps hchecked' hb' hkind' hsorted' hfew' hlegal')
    rw [struck_flags hfires, struck_flags hfires', hstrikes]

/-- A sequence of A and then B, a nanosecond apart at most. -/
def sequenceOfAB : Binding Unit :=
  ⟨.sequence [⟨[.key 0x41]⟩, ⟨[.key 0x42]⟩] 1, (), true, .always, .immediate, false, false, none⟩

theorem sequenceOfAB_checked : SequencesChecked [sequenceOfAB] := by
  refine ⟨fun b hb steps maxGap hkind => ?_, fun i j b b' _ _ _ _ hb hb' _ _ _ => ?_⟩
  · rw [List.mem_singleton.mp hb] at hkind
    obtain ⟨rfl, rfl⟩ := BindingKind.sequence.inj hkind
    decide
  · have hi := (List.getElem?_eq_some_iff.mp hb).1
    have hj := (List.getElem?_eq_some_iff.mp hb').1
    simp at hi hj
    omega

/-- A and B go down at once: the sequence fires on B. -/
theorem sequence_correct_ab :
    let events := [((⟨0x41, .down⟩ : KeyEvent), quiet 0), (⟨0x42, .down⟩, quiet 0)]
    let struck := struckBy [sequenceOfAB] events [.key, .key] 0
    struck.map Prod.snd = [[], [()]] ∧
      SequenceCorrect [⟨[.key 0x41]⟩, ⟨[.key 0x42]⟩] 1 () struck := by
  intro events struck
  have hlegal : (schedules [sequenceOfAB]).Legal (.start events) [.key, .key] := by decide
  have hlisted : [sequenceOfAB][0]? = some sequenceOfAB := rfl
  exact ⟨by decide +kernel,
    (sequence_correct sequenceOfAB_checked hlisted rfl (by decide) (by decide) hlegal).1⟩

/-! ## Numbers that wrap -/

/-- The engine with one sequence pending, begun by A as number 2. -/
def withSequence (keys : KeyState) (expiresAt : Instant) (lastSeq : Nat) : Engine Unit :=
  ⟨keys, .new, .new, ⟨[⟨[⟨[.key 0x41]⟩, ⟨[.key 0x42]⟩], 1, (), expiresAt, 2⟩]⟩, false,
    ⟨0, lastSeq⟩, .new⟩

/-- The timer of the sequence begun first. -/
def firstGap : TimerRequest := ⟨⟨0, .sequence, 2⟩, 1⟩

/-- The engine once the numbers have wrapped, with the sequence begun first in the
table and its timer still to come. -/
def wrappedSequence : Timeline Unit := ⟨withSequence .new 1 0, secondChord, [firstGap], [], []⟩

/-- A goes down, which begins the sequence, and up. -/
theorem wrappedSequence_start (n : Nat) :
    ((Timeline.start (wrappedEvents n) : Timeline Unit).step [sequenceOfAB] .key).step
        [sequenceOfAB] .key =
      ⟨withSequence .new 1 3, List.replicate n (⟨0x41, .up⟩, quiet 1) ++ secondChord,
        [firstGap], [], [(true, false), (true, false)]⟩ := by
  have hdown : (new : Engine Unit).onKey ⟨0x41, .down⟩ [sequenceOfAB] (quiet 0) =
      (withSequence downA 1 2, ⟨true, [], [firstGap], false⟩) := rfl
  have hrelease : (withSequence downA 1 2).onKey ⟨0x41, .up⟩ [sequenceOfAB] (quiet 1) =
      (withSequence (((downA.release 0x41).takeBlocked 0x41).2.clearReleasedModifiers (quiet 1) 0x41
        .menu) 1 3, ⟨true, [], [], false⟩) := rfl
  rw [downA_release] at hrelease
  show Timeline.step [sequenceOfAB] (Timeline.step [sequenceOfAB] ⟨new, (⟨0x41, .down⟩, quiet 0) ::
    (⟨0x41, .up⟩, quiet 1) :: (List.replicate n (⟨0x41, .up⟩, quiet 1) ++ secondChord), [], [],
    []⟩ .key) .key = _
  rw [step_key_eq hdown, step_key_eq hrelease]
  rfl

/-- **Numbers that wrap can lose a sequence.** In the events of `wrappedEvents` at
2^64 - 3 key-ups, A begins the sequence a second time under the number of the first;
B fires it if no timer comes back, and fires nothing once the first one's has. -/
theorem wrapped_sequence_lost :
    ∃ early late, SequencesChecked [sequenceOfAB] ∧
      (wrappedEvents (2 ^ 64 - 3)).Pairwise (fun x y => x.2.now ≤ y.2.now) ∧
      DecidesAll [sequenceOfAB] (wrappedEvents (2 ^ 64 - 3)) early ∧
      DecidesAll [sequenceOfAB] (wrappedEvents (2 ^ 64 - 3)) late ∧
      (struckBy [sequenceOfAB] (wrappedEvents (2 ^ 64 - 3)) early 0).map Prod.snd =
        [[], [], [()]] ∧
      (struckBy [sequenceOfAB] (wrappedEvents (2 ^ 64 - 3)) late 0).map Prod.snd =
        [[], [], []] := by
  have hwrap : (3 + (2 ^ 64 - 3)) % 2 ^ 64 = 0 := by decide
  generalize 2 ^ 64 - 3 = n at hwrap ⊢
  have hdecides : ∀ turns, (schedules [sequenceOfAB]).Legal wrappedSequence turns →
      ((schedules [sequenceOfAB]).run wrappedSequence turns).upcoming = [] →
      DecidesAll [sequenceOfAB] (wrappedEvents n) (wrappedTurns n turns) := by
    intro turns hturns hend
    obtain ⟨⟨_, hrun⟩, hlegal⟩ := wrapped_from (wrappedSequence_start n) hwrap turns
    refine ⟨hlegal hturns, ?_⟩
    rw [hrun]
    exact hend
  have hstruck : ∀ turns, (struckBy [sequenceOfAB] (wrappedEvents n) (wrappedTurns n turns) 0).map
      Prod.snd = (fedTo 0 (tables.trace .new
        ((new : Engine Unit).touches 0 (.key ⟨0x41, .down⟩ [sequenceOfAB] (quiet 0)) ++
          wrappedSequence.touchesIn [sequenceOfAB] turns))).map Prod.snd := by
    intro turns
    unfold struckBy
    rw [feedsIn_tables, wrapped_touches (wrappedSequence_start n) hwrap turns, List.map_map]
    rfl
  refine ⟨wrappedTurns n [.key, .key], wrappedTurns n [.key, .deliver firstGap, .key],
    sequenceOfAB_checked, wrapped_sorted n, hdecides _ (by decide +kernel) rfl,
    hdecides _ (by decide +kernel) rfl, ?_, ?_⟩
  · rw [hstruck]
    decide +kernel
  · rw [hstruck]
    decide +kernel

end KeySwitch.Engine
