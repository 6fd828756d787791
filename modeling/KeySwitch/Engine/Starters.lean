import KeySwitch.Engine.ChordRuns
import KeySwitch.Engine.SequenceRuns

/-!
# Whose action a chord or a sequence fires

Bindings of one key set share one pending chord, and bindings of equal steps one
pending sequence, whatever their conditions, windows and gaps. The entry keeps the
action of the binding that started it, and the deadline of the binding that started
(a chord) or last advanced (a sequence) it.

So an action fired by either arm is that of the binding that started the attempt. Its
condition held when it did, and need not hold any more when the action fires
(`crossed_chord`): what holds then is the condition of the binding fed, of the same
keys or steps. Every entry has such an attempt behind it (`Starts`), which each touch
of the tables keeps (`starts_touch`).
-/

namespace KeySwitch.Engine

open Data Lib

variable {α : Type}

/-! ## Attempts that bindings share -/

/-- A key-down fed to a chord of the same keys, which presses one of them. -/
def JoinsChord (keys : List KeySpec) (g : Feed α) : Prop :=
  ∃ keys' window, g.binding.kind = .chord keys' window ∧ sameKeys keys keys' = true ∧
    considers keys' g = true

/-- The key-downs of an attempt at a chord of these keys: the first started it with
its action and its window, the others came before that closed. -/
structure ChordAttempt (keys : List KeySpec) (closes : Instant) (action : α)
    (used : List (Feed α)) : Prop where
  joins : ∀ g ∈ used, JoinsChord keys g
  started : ∃ first window, used.head? = some first ∧ first.binding.kind = .chord keys window ∧
    first.binding.action = action ∧ closes = first.env.now + window
  inWindow : ∀ g ∈ used.tail, g.env.now < closes

/-- The gap of a sequence. -/
def gapOf (b : Binding α) : Duration :=
  match b.kind with
  | .sequence _ maxGap => maxGap
  | _ => 0

/-- A key-down fed to a sequence of the same steps, which takes step `j`. -/
def TakesStep (steps : List KeyCombination) (j : Nat) (g : Feed α) : Prop :=
  ∃ steps' maxGap, g.binding.kind = .sequence steps' maxGap ∧ stepsEq steps steps' = true ∧
    fitsStep steps' j g.strike = true

/-- The key-downs of an attempt at these steps: each takes the next step, in less than
the gap of the binding that took the one before; the first started it with its
action. -/
structure SequenceAttempt (steps : List KeyCombination) (action : α) (used : List (Feed α)) :
    Prop where
  takes : ∀ j g, used[j]? = some g → TakesStep steps j g
  started : ∃ first maxGap, used.head? = some first ∧
    first.binding.kind = .sequence steps maxGap ∧ first.binding.action = action
  soon : used.IsChain fun x y => y.env.now < x.env.now + gapOf x.binding

/-! ## What is behind a pending entry -/

/-- A pending chord is an attempt of key-downs of the past. -/
def ChordOrigin (past : List (Feed α)) (p : PendingChord α) : Prop :=
  ∃ used, used.Sublist past ∧ ChordAttempt p.chordKeys p.expiresAt p.action used ∧
    ∀ code ∈ p.seen, ∃ g ∈ used, g.vk = code

/-- A pending sequence is an attempt of key-downs of the past, the last of which set
its deadline. -/
def SequenceOrigin (past : List (Feed α)) (p : PendingSequence α) : Prop :=
  ∃ used last, used.Sublist past ∧ SequenceAttempt p.steps p.action used ∧
    used.length = p.nextStep ∧ used.getLast? = some last ∧
    p.expiresAt = last.env.now + gapOf last.binding

/-- Every pending entry has an attempt behind it. -/
structure Starts (past : List (Feed α)) (t : Tables α) : Prop where
  chords : ∀ p ∈ t.chords.pending, ChordOrigin past p
  sequences : ∀ p ∈ t.sequences.pending, SequenceOrigin past p

/-- What fires at the feed `f` after `past`: the action of an attempt that `f` ends,
by a chord whose keys have all been pressed, or by a sequence with its last step. -/
def FiredFrom (past : List (Feed α)) (f : Feed α) (action : α) : Prop :=
  (∃ keys closes used, used.Sublist past ∧ used ≠ [] ∧
      ChordAttempt keys closes action (used ++ [f]) ∧
      ∀ key ∈ keys, ∃ g ∈ used ++ [f], key.accepts g.vk = true) ∨
    ∃ steps used, used.Sublist past ∧ SequenceAttempt steps action (used ++ [f]) ∧
      used.length + 1 = steps.length

theorem chordOrigin_more {past : List (Feed α)} {p : PendingChord α} (f : Feed α)
    (h : ChordOrigin past p) : ChordOrigin (past ++ [f]) p := by
  obtain ⟨used, hsub, hrest⟩ := h
  exact ⟨used, hsub.trans (List.sublist_append_left _ _), hrest⟩

theorem sequenceOrigin_more {past : List (Feed α)} {p : PendingSequence α} (f : Feed α)
    (h : SequenceOrigin past p) : SequenceOrigin (past ++ [f]) p := by
  obtain ⟨used, last, hsub, hrest⟩ := h
  exact ⟨used, last, hsub.trans (List.sublist_append_left _ _), hrest⟩

/-! ## Chords -/

variable {keys : List KeySpec} {window : Duration} {f : Feed α} {past : List (Feed α)}

/-- One more key-down of an attempt whose window is open. -/
theorem chordAttempt_more {closes : Instant} {action : α} {used : List (Feed α)}
    (h : ChordAttempt keys closes action used) (hjoins : JoinsChord keys f)
    (hopen : f.env.now < closes) : ChordAttempt keys closes action (used ++ [f]) := by
  obtain ⟨first, w, hhead, hrest⟩ := h.started
  refine ⟨fun g hg => ?_, ⟨first, w, ?_, hrest⟩, fun g hg => ?_⟩
  · rcases List.mem_append.mp hg with hg | hg
    · exact h.joins g hg
    · rw [List.mem_singleton.mp hg]
      exact hjoins
  · rw [List.head?_append, hhead]
    rfl
  · have hne : used ≠ [] := by
      rintro rfl
      exact absurd hhead (by simp)
    rw [List.tail_append_of_ne_nil hne] at hg
    rcases List.mem_append.mp hg with hg | hg
    · exact h.inWindow g hg
    · rw [List.mem_singleton.mp hg]
      exact hopen

/-- **A feed to a chord**: what is pending keeps an attempt behind it, and what fires
is fired from one. -/
theorem chord_feed {c : Chords α} (hkind : f.binding.kind = .chord keys window)
    (h : ∀ p ∈ c.pending, ChordOrigin past p) :
    (∀ p ∈ (c.onKeyDown f.vk f.binding.action keys window f.env.now f.seq).1.pending,
        ChordOrigin (past ++ [f]) p) ∧
      ∀ action, (c.onKeyDown f.vk f.binding.action keys window f.env.now f.seq).2.fired =
        some action → FiredFrom past f action := by
  have hmore : ∀ p ∈ c.pending, ChordOrigin (past ++ [f]) p := fun p hp =>
    chordOrigin_more f (h p hp)
  cases hconsiders : considers keys f with
  | false =>
    rw [onKeyDown_unconsidered _ _ _ _ _ hconsiders]
    exact ⟨hmore, fun action hfired => absurd hfired (by simp [ChordOutcome.fired])⟩
  | true =>
    have hretained : ∀ p ∈ (c.retainOpen f.env.now).pending,
        p ∈ c.pending ∧ f.env.now < p.expiresAt := fun p hp =>
      ⟨List.mem_of_mem_filter hp, by simpa using (List.mem_filter.mp hp).2⟩
    have hpresses : (keys.any fun key => key.accepts f.vk) = true := hconsiders
    unfold Chords.onKeyDown
    rw [hpresses]
    simp only [Bool.not_true, Bool.false_eq_true, if_false]
    split
    · next entry hfound =>
      obtain ⟨hentry, hopen⟩ := hretained entry (List.mem_of_find?_eq_some hfound)
      have hours : sameKeys entry.chordKeys keys = true := by
        simpa using List.find?_some hfound
      obtain ⟨used, hsub, hattempt, hseen⟩ := h entry hentry
      -- The entry goes on: the feed is one more key-down of its attempt, and adds its code.
      have hattempt' := chordAttempt_more hattempt ⟨keys, window, hkind, hours, hconsiders⟩ hopen
      generalize hseen' : (if entry.seen.contains f.vk then entry.seen else entry.seen ++ [f.vk]) =
        seen'
      have hcodes : ∀ code ∈ seen', ∃ g ∈ used ++ [f], g.vk = code := by
        intro code hcode
        have hcases : code ∈ entry.seen ∨ code = f.vk := by
          rw [← hseen'] at hcode
          split at hcode
          · exact Or.inl hcode
          · rcases List.mem_append.mp hcode with hcode | hcode
            · exact Or.inl hcode
            · exact Or.inr (List.mem_singleton.mp hcode)
        rcases hcases with hold | rfl
        · obtain ⟨g, hg, hvk⟩ := hseen code hold
          exact ⟨g, List.mem_append_left _ hg, hvk⟩
        · exact ⟨f, List.mem_append_right _ (List.mem_singleton_self f), rfl⟩
      split
      · next hcomplete =>
        refine ⟨fun p hp => hmore p (hretained p (List.mem_of_mem_eraseP hp)).1, ?_⟩
        intro action hfired
        obtain rfl : entry.action = action := Option.some.inj hfired
        refine Or.inl ⟨entry.chordKeys, entry.expiresAt, used, hsub, ?_, hattempt', ?_⟩
        · rintro rfl
          obtain ⟨first, w, hhead, -⟩ := hattempt.started
          exact absurd hhead (by simp)
        · intro key hkey
          unfold Chords.complete at hcomplete
          have hany := List.all_eq_true.mp hcomplete key hkey
          obtain ⟨code, hcode, haccepts⟩ := List.any_eq_true.mp hany
          obtain ⟨g, hg, rfl⟩ := hcodes code hcode
          exact ⟨g, hg, haccepts⟩
      · refine ⟨fun p hp => ?_, fun action hfired => absurd hfired (by simp [ChordOutcome.fired])⟩
        rcases mem_modifyFirst hfound hp with hp | rfl
        · exact hmore p (hretained p hp).1
        · exact ⟨used ++ [f], hsub.append (List.Sublist.refl _), hattempt', hcodes⟩
    · -- No entry is open for these keys: the feed starts one of its own.
      refine ⟨fun p hp => ?_, fun action hfired => absurd hfired (by simp [ChordOutcome.fired])⟩
      rcases List.mem_append.mp hp with hp | hp
      · exact hmore p (hretained p hp).1
      · rw [List.mem_singleton.mp hp]
        refine ⟨[f], List.sublist_append_right _ _, ⟨fun g hg => ?_, ?_, ?_⟩, fun code hcode => ?_⟩
        · rw [List.mem_singleton.mp hg]
          exact ⟨keys, window, hkind, sameKeys_self keys, hconsiders⟩
        · exact ⟨f, window, rfl, hkind, rfl, rfl⟩
        · exact fun g hg => absurd hg List.not_mem_nil
        · rw [List.mem_singleton.mp hcode]
          exact ⟨f, List.mem_singleton_self f, rfl⟩

/-! ## Sequences -/

variable {steps : List KeyCombination} {maxGap : Duration}

theorem length_of_stepsEq : ∀ {a b : List KeyCombination}, stepsEq a b = true →
    a.length = b.length
  | [], [], _ => rfl
  | _ :: as, _ :: bs, h => by
    unfold stepsEq at h
    rw [Bool.and_eq_true] at h
    rw [List.length_cons, List.length_cons, length_of_stepsEq h.2]

/-- A key-down of the first step starts an attempt. -/
theorem sequenceAttempt_first (hkind : f.binding.kind = .sequence steps maxGap)
    (hfits : fitsStep steps 0 f.strike = true) : SequenceAttempt steps f.binding.action [f] := by
  refine ⟨fun j g hg => ?_, ⟨f, maxGap, rfl, hkind, rfl⟩, List.isChain_singleton f⟩
  cases j with
  | zero =>
    obtain rfl : f = g := by simpa using hg
    exact ⟨steps, maxGap, hkind, stepsEq_self steps, hfits⟩
  | succ j => exact absurd hg (by simp)

/-- One more step of an attempt, before its deadline. -/
theorem sequenceAttempt_more {action : α} {used : List (Feed α)} {last : Feed α}
    (h : SequenceAttempt steps action used) (htakes : TakesStep steps used.length f)
    (hlast : used.getLast? = some last) (hsoon : f.env.now < last.env.now + gapOf last.binding) :
    SequenceAttempt steps action (used ++ [f]) := by
  obtain ⟨first, gap, hhead, hrest⟩ := h.started
  refine ⟨fun j g hg => ?_, ⟨first, gap, ?_, hrest⟩, ?_⟩
  · rcases Nat.lt_trichotomy j used.length with hlt | rfl | hgt
    · rw [List.getElem?_append_left hlt] at hg
      exact h.takes j g hg
    · obtain rfl : f = g := by simpa using hg
      exact htakes
    · rw [List.getElem?_append_right (Nat.le_of_lt hgt)] at hg
      have hin : j - used.length < 1 := (List.getElem?_eq_some_iff.mp hg).1
      omega
  · rw [List.head?_append, hhead]
    rfl
  · refine List.isChain_append.mpr ⟨h.soon, List.isChain_singleton f, fun x hx y hy => ?_⟩
    rw [hlast] at hx
    obtain rfl : last = x := Option.some.inj hx
    obtain rfl : f = y := Option.some.inj hy
    exact hsoon

/-- Starting afresh. -/
theorem sequence_start {s : Sequences α} {first : KeyCombination} {rest : List KeyCombination}
    (hkind : f.binding.kind = .sequence (first :: rest) maxGap)
    (h : ∀ p ∈ s.pending, SequenceOrigin (past ++ [f]) p) :
    let started := s.start f.held f.binding.action first (first :: rest) maxGap f.env.now f.seq
    (∀ p ∈ started.1.pending, SequenceOrigin (past ++ [f]) p) ∧
      ∀ action, started.2.fired = some action → FiredFrom past f action := by
  intro started
  have hfits : fitsStep (first :: rest) 0 f.strike = keysDown first f.held := rfl
  have hgap : gapOf f.binding = maxGap := by
    unfold gapOf
    rw [hkind]
  show (∀ p ∈ (s.start _ _ _ _ _ _ _).1.pending, _) ∧ _
  unfold started Sequences.start
  split
  · next hdown =>
    have hattempt := sequenceAttempt_first hkind (hfits.trans hdown)
    split
    · next hone =>
      refine ⟨h, fun action hfired => ?_⟩
      obtain rfl : f.binding.action = action := Option.some.inj hfired
      exact Or.inr ⟨first :: rest, [], List.nil_sublist _, hattempt, (beq_iff_eq.mp hone).symm⟩
    · refine ⟨fun p hp => ?_, fun action hfired => absurd hfired (by simp [SequenceOutcome.fired])⟩
      rcases List.mem_append.mp hp with hp | hp
      · exact h p hp
      · rw [List.mem_singleton.mp hp]
        exact ⟨[f], f, List.sublist_append_right _ _, hattempt, rfl, rfl, by rw [hgap]⟩
  · exact ⟨h, fun action hfired => absurd hfired (by simp [SequenceOutcome.fired])⟩

/-- **A feed to a sequence**: what is pending keeps an attempt behind it, and what
fires is fired from one. -/
theorem sequence_feed {s : Sequences α} (hkind : f.binding.kind = .sequence steps maxGap)
    (h : ∀ p ∈ s.pending, SequenceOrigin past p) :
    (∀ p ∈ (s.onKeyDown f.held f.binding.action steps maxGap f.env.now f.seq).1.pending,
        SequenceOrigin (past ++ [f]) p) ∧
      ∀ action, (s.onKeyDown f.held f.binding.action steps maxGap f.env.now f.seq).2.fired =
        some action → FiredFrom past f action := by
  have hmore : ∀ p ∈ s.pending, SequenceOrigin (past ++ [f]) p := fun p hp =>
    sequenceOrigin_more f (h p hp)
  have hretained : ∀ p ∈ (s.retainOpen f.env.now).pending,
      p ∈ s.pending ∧ f.env.now < p.expiresAt := fun p hp =>
    ⟨List.mem_of_mem_filter hp, by simpa using (List.mem_filter.mp hp).2⟩
  have hgap : gapOf f.binding = maxGap := by
    unfold gapOf
    rw [hkind]
  unfold Sequences.onKeyDown
  split
  · exact ⟨hmore, fun action hfired => absurd hfired (by simp [SequenceOutcome.fired])⟩
  · next first rest =>
    dsimp only
    split
    · next entry hfound =>
      obtain ⟨hentry, hopen⟩ := hretained entry (List.mem_of_find?_eq_some hfound)
      have hours : stepsEq entry.steps (first :: rest) = true := by
        simpa using List.find?_some hfound
      obtain ⟨used, last, hsub, hattempt, hlength, hlast, hdue⟩ := h entry hentry
      split
      · next hpresses =>
        -- The key is the entry's next step, taken within its gap.
        have htakes : TakesStep entry.steps used.length f := by
          rw [hlength]
          exact ⟨first :: rest, maxGap, hkind, hours, hpresses⟩
        have hattempt' := sequenceAttempt_more hattempt htakes hlast (hdue ▸ hopen)
        split
        · next hdone =>
          refine ⟨fun p hp => hmore p (hretained p (List.mem_of_mem_eraseP hp)).1, ?_⟩
          intro action hfired
          obtain rfl : entry.action = action := Option.some.inj hfired
          refine Or.inr ⟨entry.steps, used, hsub, hattempt', ?_⟩
          rw [hlength, length_of_stepsEq hours]
          exact beq_iff_eq.mp hdone
        · refine ⟨fun p hp => ?_,
            fun action hfired => absurd hfired (by simp [SequenceOutcome.fired])⟩
          rcases mem_modifyFirst hfound hp with hp | rfl
          · exact hmore p (hretained p hp).1
          · refine ⟨used ++ [f], f, hsub.append (List.Sublist.refl _), hattempt', ?_, by simp, ?_⟩
            · rw [List.length_append, hlength]
              rfl
            · rw [hgap]
      · exact sequence_start hkind fun p hp =>
          hmore p (hretained p (List.mem_of_mem_eraseP hp)).1
    · exact sequence_start hkind fun p hp => hmore p (hretained p hp).1

/-! ## Runs of the engine -/

/-- The feeds among touches of the tables. -/
def feedsAmong (touches : List (Touch α)) : List (Feed α) :=
  touches.filterMap fun
    | .feed f => some f
    | _ => none

theorem feedsAmong_map (feeds : List (Feed α)) : feedsAmong (feeds.map .feed) = feeds := by
  unfold feedsAmong
  rw [List.filterMap_map]
  exact List.filterMap_some

theorem feedsAmong_append (as bs : List (Touch α)) :
    feedsAmong (as ++ bs) = feedsAmong as ++ feedsAmong bs := List.filterMap_append

theorem starts_new : Starts [] (.new : Tables α) :=
  ⟨fun _ hp => absurd hp List.not_mem_nil, fun _ hp => absurd hp List.not_mem_nil⟩

/-- **A feed keeps an attempt behind every entry**, and fires from one. -/
theorem starts_feed {t : Tables α} (h : Starts past t) :
    Starts (past ++ [f]) (t.feed f).1 ∧
      ∀ action, (t.feed f).2 = some action → FiredFrom past f action := by
  have hchords : ∀ p ∈ t.chords.pending, ChordOrigin (past ++ [f]) p := fun p hp =>
    chordOrigin_more f (h.chords p hp)
  have hsequences : ∀ p ∈ t.sequences.pending, SequenceOrigin (past ++ [f]) p := fun p hp =>
    sequenceOrigin_more f (h.sequences p hp)
  unfold Tables.feed
  cases hkind : f.binding.kind with
  | combo combo => exact ⟨⟨hchords, hsequences⟩, fun action hfired => absurd hfired (by simp)⟩
  | sequence steps maxGap =>
    obtain ⟨hpending, hfired⟩ := sequence_feed hkind h.sequences
    exact ⟨⟨hchords, hpending⟩, hfired⟩
  | chord keys window =>
    obtain ⟨hpending, hfired⟩ := chord_feed hkind h.chords
    exact ⟨⟨hpending, hsequences⟩, hfired⟩

/-- A touch keeps an attempt behind every entry. -/
theorem starts_touch {t : Tables α} (h : Starts past t) (touch : Touch α) :
    Starts (past ++ feedsAmong [touch]) (t.touch touch).1 := by
  cases touch with
  | feed f => exact (starts_feed h).1
  | expireChord seq due =>
    rw [show feedsAmong [Touch.expireChord (α := α) seq due] = [] from rfl, List.append_nil]
    exact ⟨fun p hp => h.chords p (List.mem_of_mem_filter hp), h.sequences⟩
  | expireSequence seq due =>
    rw [show feedsAmong [Touch.expireSequence (α := α) seq due] = [] from rfl, List.append_nil]
    exact ⟨h.chords, fun p hp => h.sequences p (List.mem_of_mem_filter hp)⟩
  | clear =>
    exact ⟨fun p hp => absurd hp List.not_mem_nil, fun p hp => absurd hp List.not_mem_nil⟩

theorem starts_run {touches : List (Touch α)} {t : Tables α} (h : Starts past t) :
    Starts (past ++ feedsAmong touches) (tables.run t touches) := by
  induction touches generalizing past t with
  | nil =>
    rw [show feedsAmong ([] : List (Touch α)) = [] from rfl, List.append_nil]
    exact h
  | cons touch touches ih =>
    have hrest := ih (starts_touch h touch)
    rw [List.append_assoc, ← feedsAmong_append] at hrest
    exact hrest

/-- What a run of the engine's calls does to the two tables. -/
def touchesOf (e : Engine α) : List (Op α) → List (Touch α)
  | [] => []
  | op :: ops => e.touches 0 op ++ (e.step op).1.touchesOf ops

theorem touchesOf_tables {e : Engine α} (ops : List (Op α)) {t : Tables α} (h : Agrees t e) :
    Agrees (tables.run t (e.touchesOf ops)) (operations.run e ops) := by
  induction ops generalizing e t with
  | nil => exact h
  | cons op ops ih =>
    unfold touchesOf
    rw [Machine.run_append]
    exact ih (step_tables e 0 op h)

/-- The feeds of one call over the list are to bindings of it whose condition holds. -/
theorem touches_fed {bindings : List (Binding α)} {e : Engine α} {op : Op α}
    (hone : ∀ event bs env, op = .key event bs env → bs = bindings) :
    ∀ g ∈ feedsAmong (e.touches 0 op),
      bindings[g.index]? = some g.binding ∧ feeds g.env g.binding = true := by
  intro g hg
  cases op with
  | key event bs env =>
    obtain rfl := hone event bs env rfl
    obtain ⟨vk, direction⟩ := event
    cases direction with
    | up => exact absurd hg List.not_mem_nil
    | down =>
      have hfeeds : feedsAmong (e.touches 0 (.key ⟨vk, .down⟩ bs env)) = e.feedsOn vk bs env :=
        feedsAmong_map _
      rw [hfeeds] at hg
      have hfed := (e.feedsOn_eq vk bs env).2 g hg
      exact ⟨hfed.listed, hfed.world ▸ hfed.fed⟩
  | timer token =>
    unfold touches at hg
    dsimp only at hg
    split at hg
    · exact absurd hg List.not_mem_nil
    · split at hg <;> exact absurd hg List.not_mem_nil
  | _ => exact absurd hg List.not_mem_nil

theorem touchesOf_fed {bindings : List (Binding α)} {ops : List (Op α)}
    (hone : ∀ event bs env, .key event bs env ∈ ops → bs = bindings) (e : Engine α) :
    ∀ g ∈ feedsAmong (e.touchesOf ops),
      bindings[g.index]? = some g.binding ∧ feeds g.env g.binding = true := by
  induction ops generalizing e with
  | nil => exact fun g hg => absurd hg List.not_mem_nil
  | cons op ops ih =>
    intro g hg
    unfold touchesOf at hg
    rw [feedsAmong_append] at hg
    rcases List.mem_append.mp hg with hg | hg
    · exact touches_fed (fun event bs env hop => hone event bs env (hop ▸ List.mem_cons_self)) g hg
    · exact ih (fun event bs env hop => hone event bs env (List.mem_cons_of_mem _ hop)) _ g hg

/-- The tables after a run of the engine's calls. -/
def tablesAfter (ops : List (Op α)) : Tables α := tables.run .new ((new : Engine α).touchesOf ops)

/-- What the run has fed to chords and sequences. -/
def fedIn (ops : List (Op α)) : List (Feed α) := feedsAmong ((new : Engine α).touchesOf ops)

/-- **What a chord or a sequence fires is the action of the binding that started the
attempt.** On a key-down after any run over one list: what fires is what the gestures
fire before the walk, and then what the stops fire; each feed is of a chord or a
sequence of the list whose condition holds then; and an action that the stop of a chord
or a sequence fires is all that this stop fires, at which its condition holds, and is
that of a binding of the list with the same keys or steps whose condition held when it
started the attempt, of which every key-down came in the window of that binding, or in
the gap of the binding that took the step before. -/
theorem fired_of_starter {bindings : List (Binding α)} {ops : List (Op α)}
    (hone : ∀ event bs env, .key event bs env ∈ ops → bs = bindings) (vk : VirtualKey)
    (env : Env) {e : Engine α} (he : e = operations.run new ops) :
    (e.onKey ⟨vk, .down⟩ bindings env).2.fire =
        (e.startOf vk bindings env).2.fire ++ (e.stopsOn vk bindings env).flatMap Stop.fired ∧
      (∀ g ∈ fedIn ops ++ e.feedsOn vk bindings env,
        bindings[g.index]? = some g.binding ∧ feeds g.env g.binding = true) ∧
      ∀ before s after action, e.stopsOn vk bindings env = before ++ s :: after →
        s.tabled = true → action ∈ s.fired →
        s.fired = [action] ∧ bindings[s.feed.index]? = some s.feed.binding ∧
          feeds env s.feed.binding = true ∧ s.feed.vk = vk ∧ s.feed.env = env ∧
          FiredFrom (fedIn ops ++ fedAt before) s.feed action := by
  have hagrees : Agrees (tablesAfter ops) e := he ▸ touchesOf_tables ops ⟨rfl, rfl⟩
  have hfeds := (e.feedsOn_eq vk bindings env).2
  refine ⟨onKeyDown_fire e vk bindings env, fun g hg => ?_, ?_⟩
  · rcases List.mem_append.mp hg with hg | hg
    · exact touchesOf_fed hone new g hg
    · exact ⟨(hfeds g hg).listed, (hfeds g hg).world ▸ (hfeds g hg).fed⟩
  · intro before s after action hsplit htabled hfired
    have hs : s ∈ e.stopsOn vk bindings env := by
      rw [hsplit]
      exact List.mem_append_right _ List.mem_cons_self
    -- A stop that is not fed fires nothing.
    have hfed : s.fed = true := by
      cases hskipped : s.fed with
      | true => rfl
      | false =>
        rw [stop_unfed s hs hskipped htabled] at hfired
        exact absurd hfired List.not_mem_nil
    have hf : FedOn e vk bindings env s.feed :=
      hfeds s.feed (List.mem_map_of_mem (List.mem_filter.mpr ⟨hs, hfed⟩))
    have hout := stop_fired (agrees_startOf hagrees) hsplit hfed
    rw [hout] at hfired
    have hsome := Option.mem_toList.mp hfired
    have hstarts : Starts (fedIn ops ++ feedsAmong ((fedAt before).map .feed))
        (tables.run (tablesAfter ops) ((fedAt before).map .feed)) :=
      starts_run (starts_run starts_new)
    rw [feedsAmong_map] at hstarts
    refine ⟨?_, hf.listed, hf.fed, hf.key, hf.world, (starts_feed hstarts).2 action hsome⟩
    rw [hout, Option.mem_def.mp hsome]
    rfl

/-! ## Two windows -/

/-- A window by its title, and a world that answers "up" for every key. -/
def inWindow (now : Instant) (title : String) : Env := ⟨now, fun _ => false, ⟨none, some title, id⟩⟩

/-- A chord of A and B in each of two windows, with an action each. -/
def chordsOfAB : List (Binding Nat) :=
  [⟨.chord [.key 0x41, .key 0x42] 2, 1, true, .titleEquals "left", .immediate, false, false, none⟩,
    ⟨.chord [.key 0x41, .key 0x42] 2, 2, true, .titleEquals "right", .immediate, false, false,
      none⟩]

/-- A goes down in the left window. -/
def aOnTheLeft : List (Op Nat) := [.key ⟨0x41, .down⟩ chordsOfAB (inWindow 0 "left")]

/-- Then B in the right one: what fires is fired from an attempt of both. -/
theorem fired_of_starter_crossed :
    ∃ before s after, (operations.run new aOnTheLeft).stopsOn 0x42 chordsOfAB
        (inWindow 1 "right") = before ++ s :: after ∧ s.fired = [1] ∧
      FiredFrom (fedIn aOnTheLeft ++ fedAt before) s.feed 1 := by
  have hone : ∀ event bs env, Op.key event bs env ∈ aOnTheLeft → bs = chordsOfAB := by
    intro event bs env hop
    exact (Op.key.inj (List.mem_singleton.mp hop)).2.1
  obtain ⟨-, -, hfired⟩ := fired_of_starter hone 0x42 (inWindow 1 "right") rfl
  have hstops : ((operations.run new aOnTheLeft).stopsOn 0x42 chordsOfAB
      (inWindow 1 "right")).map (fun s => (s.tabled, s.fired)) = [(true, []), (true, [1])] := by
    decide +kernel
  obtain ⟨first, rest, hsplit, -, hrest⟩ := List.map_eq_cons_iff.mp hstops
  obtain ⟨s, hs⟩ := List.map_eq_singleton_iff.mp hrest
  obtain ⟨rfl, hboth⟩ := hs
  obtain ⟨htabled, hone⟩ := Prod.mk.inj hboth
  have hdone := hfired [first] s [] 1 hsplit htabled (hone ▸ List.mem_singleton_self 1)
  exact ⟨[first], s, [], hsplit, hone, hdone.2.2.2.2.2⟩

/-- **The action of another window can fire.** The chord that A starts in one window
fires its action when B goes down in the other, where its condition does not hold. -/
theorem crossed_chord :
    ((operations.run new aOnTheLeft).onKey ⟨0x42, .down⟩ chordsOfAB
        (inWindow 1 "right")).2.fire = [1] ∧
      ∀ b ∈ chordsOfAB, b.condition.evaluate (inWindow 1 "right").foreground = true →
        b.action ≠ 1 :=
  ⟨by decide +kernel, by decide +kernel⟩

end KeySwitch.Engine
