import KeySwitch.Engine.Lateness
import KeySwitch.Engine.Readings

/-!
# One press, one outcome

Over every legal run of calls at the times of a clock, for every key-down that
arms a group of `Tap`, `Hold` and `DoubleTap`: at most one of the actions it
armed fires, and only as the times of the key's events allow (`OneOutcome`).

A call after that key-down moves the press as its cue moves its life
(`living_step`), so a run of calls is a run of cues (`living_run`), and what
holds of a life holds of the press.
-/

namespace KeySwitch.Engine

open Data Lib

variable {α : Type}

/-- The key came up in `z`, for the first time since the press, and before the
Hold's term ended, unless the Hold's timer was refused. -/
structure ReleasedEarlyIn (a : Arming (Marked α)) (pre : List (Call α)) (z : Call α) : Prop where
  up : Releases a.vk z
  first : ∀ x ∈ pre, ¬ Releases a.vk x ∧ pressOf a.vk a.window x = none
  hold : dueBy a.deadlines.hold (timeOf z) = false ∨ ∃ x ∈ pre, Refuses a.vk a.seq x

/-- The first key-down of the key in `post`, and whether its group completes the
window. -/
def nextPress (a : Arming (Marked α)) (post : List (Call α)) : Option (Instant × Bool) :=
  post.findSome? fun x => (pressOf a.vk a.window x).map fun completes => (timeOf x, completes)

/-- Every timer that a call asks for one of `vk`'s presses is handed back by a later
call. -/
def Delivered (vk : VirtualKey) (all : List (Call α)) : Prop :=
  ∀ pre y post, all = pre ++ y :: post → ∀ r ∈ y.output.timers, r.token.slot = .gesture vk →
    ∃ z ∈ post, z.input.2 = .timer r.token

/-- What becomes of the press `a` that the call `n` of the run `all` armed, whose
later calls are `after`. -/
structure OneOutcome (n : Nat) (a : Arming (Marked α)) (all after : List (Call α)) : Prop where
  once : (all.flatMap (firedOf n)).length ≤ 1
  /-- A Hold fires only if the key was not released before its term ended. -/
  hold : ∀ y ∈ after, Gesture.hold ∈ firedOf n y → a.deadlines.hold.isSome = true ∧
    ∀ z ∈ after, Releases a.vk z → dueBy a.deadlines.hold (timeOf z) = true
  /-- A Tap fires only after a release in its term and in the Hold's, and if no
  press since completed the window before its deadline. -/
  tap : ∀ pre y post, after = pre ++ y :: post → Gesture.tap ∈ firedOf n y →
    ∃ pre' z post', pre ++ [y] = pre' ++ z :: post' ∧ ReleasedEarlyIn a pre' z ∧
      openAt a.deadlines.tap (timeOf z) = true ∧
      ∀ x ∈ post', pressOf a.vk a.window x = some true →
        openAt a.deadlines.double (timeOf x) = false
  /-- A DoubleTap fires only at the first press after such a release, before the
  window's deadline. -/
  doubleTap : ∀ pre y post, after = pre ++ y :: post → Gesture.doubleTap ∈ firedOf n y →
    pressOf a.vk a.window y = some true ∧ openAt a.deadlines.double (timeOf y) = true ∧
    ∃ pre' z post', pre = pre' ++ z :: post' ∧ ReleasedEarlyIn a pre' z ∧
      ∀ x ∈ post', pressOf a.vk a.window x = none
  reset : ∀ pre y post, after = pre ++ y :: post → (∃ x ∈ pre, Resets x) → firedOf n y = []
  /-- Left alone and with its timers delivered, the times decide. -/
  exact : ∀ pre z post, after = pre ++ z :: post → Releases a.vk z →
    (∀ x ∈ pre, ¬ Releases a.vk x ∧ pressOf a.vk a.window x = none) →
    (∀ x ∈ after, ¬ PressesOther a.vk x ∧ ¬ Refuses a.vk a.seq x ∧ ¬ Resets x) →
    Delivered a.vk all →
    all.flatMap (firedOf n) =
      (Life.outcome a.deadlines (timeOf z) (nextPress a post)).toList

/-! ## A call and a run of calls -/

/-- The press `a` that the call `n` armed, after some later calls. -/
structure Living (n : Nat) (a : Arming (Marked α)) (s : Provenance α) (life : Life) : Prop where
  accounted : Accounted s
  later : n < s.turn
  quiet : Quiet (markOf n) s.engine
  carries : Carries (markOf n) a s.engine.gestures life

/-- A timer that the environment may hand back comes on time for the press. -/
theorem cueIn_onTime {n : Nat} {a : Arming (Marked α)} (ha : a.Marked (markOf n))
    {s : Provenance α} {life : Life} (h : Living n a s life) {call : Instant × Op α}
    (hadmits : s.Admits call) : Life.OnTime a.deadlines (cueIn n a (provenance.moment s call)) := by
  obtain ⟨now, op⟩ := call
  by_cases htimer : ∃ token, op = .timer token
  · obtain ⟨token, rfl⟩ := htimer
    have hcue : cueIn n a (provenance.moment s (now, Op.timer token)) =
        (now, cueOf (markOf n) a s.engine (.timer token)) := rfl
    rw [hcue]
    unfold cueOf
    dsimp only
    split
    · exact trivial
    · next hgeneration =>
      have hgen : token.generation = s.engine.ids.generation := by simpa using hgeneration
      cases hslot : token.slot with
      | gesture vk =>
        refine Gestures.timerCue_onTime ha h.carries fun g' due action htake => ?_
        refine h.accounted.due hadmits (mem_timed.mpr (Or.inl ?_))
        have hperm : (s.engine.gestures.timed s.engine.ids.generation).Perm
            (⟨⟨s.engine.ids.generation, .gesture vk, token.seq⟩, due⟩ ::
              g'.timed s.engine.ids.generation) :=
          (Gestures.takeTimer_some s.engine.ids.generation htake).2
        rw [← hgen, ← hslot] at hperm
        rw [← hgen]
        exact hperm.symm.subset List.mem_cons_self
      | chord => exact trivial
      | sequence => exact trivial
  · have hnot : ¬ HandsBack (provenance.moment s (now, op)) := htimer
    have hreads := cueIn_reads n a (provenance.moment s (now, op))
    unfold Life.OnTime
    generalize (cueIn n a (provenance.moment s (now, op))).2 = cue at hreads ⊢
    cases hreads with
    | holdTimer h _ => exact absurd h hnot
    | closed h _ => exact absurd h hnot
    | _ => exact trivial

/-- **A call moves the press as its cue moves its life.** -/
theorem living_step {n : Nat} {a : Arming (Marked α)} (ha : a.Marked (markOf n))
    {s : Provenance α} {life : Life} (h : Living n a s life) {call : Instant × Op α}
    (henabled : numbered.enabled s call) :
    let x := provenance.moment s call
    Living n a x.after (Life.step a.deadlines (timeOf x) life (cueIn n a x).2).1 ∧
      firedOf n x = (Life.step a.deadlines (timeOf x) life (cueIn n a x).2).2.toList := by
  intro x
  have hother : s.turn ≠ n := by
    have := h.later
    omega
  have hnow : ∀ event bindings env,
      call.2.mark s.turn = .key event bindings env → env.now = call.1 := by
    intro event bindings env hkey
    have hadmits := henabled.1.2
    obtain ⟨now, op⟩ := call
    cases op with
    | key event' bindings' env' =>
      injection hkey with _ _ henv
      rw [← henv]
      exact hadmits
    | _ => exact absurd hkey (by simp [Op.mark])
  obtain ⟨hquiet, hcued⟩ := step_cued ha h.accounted.fresh h.quiet h.carries
    (op_within_other hother call.2) hnow
  refine ⟨⟨accounted_step s call h.accounted henabled, ?_, hquiet, hcued.carries⟩, hcued.fires⟩
  show n < s.turn + 1
  have := h.later
  omega

/-- A run of calls moves the press as its cues move its life. -/
theorem living_run {n : Nat} {a : Arming (Marked α)} (ha : a.Marked (markOf n))
    {s : Provenance α} {life : Life} (h : Living n a s life) {calls : List (Instant × Op α)}
    (hlegal : numbered.Legal s calls) :
    Living n a (provenance.run s calls)
        (Life.run a.deadlines life ((provenance.trace s calls).map (cueIn n a))).1 ∧
      (provenance.trace s calls).flatMap (firedOf n) =
        (Life.run a.deadlines life ((provenance.trace s calls).map (cueIn n a))).2 ∧
      ∀ x ∈ provenance.trace s calls, Life.OnTime a.deadlines (cueIn n a x) := by
  induction calls generalizing s life with
  | nil => exact ⟨h, rfl, by simp [Machine.trace]⟩
  | cons call calls ih =>
    obtain ⟨hafter, hfired⟩ := living_step ha h hlegal.1
    have htime := cueIn_onTime ha h hlegal.1.1
    obtain ⟨hrun, hrest, hontime⟩ := ih hafter hlegal.2
    rw [Machine.trace_cons, List.map_cons, Life.run_cons, List.flatMap_cons]
    refine ⟨hrun, ?_, fun x hx => ?_⟩
    · rw [hfired, hrest]
      rfl
    · rcases List.mem_cons.mp hx with rfl | hx
      · exact htime
      · exact hontime x hx

/-- The clock of a run never goes back. -/
theorem trace_sorted {s : Provenance α} {calls : List (Instant × Op α)}
    (hlegal : provenance.Legal s calls) :
    (∀ x ∈ provenance.trace s calls, s.now ≤ timeOf x) ∧
      (provenance.trace s calls).Pairwise fun x y => timeOf x ≤ timeOf y := by
  induction calls generalizing s with
  | nil => exact ⟨by simp [Machine.trace], List.Pairwise.nil⟩
  | cons call calls ih =>
    have hnow : s.now ≤ call.1 := hlegal.1.1
    obtain ⟨hfrom, hsorted⟩ := ih hlegal.2
    have hfrom' : ∀ x ∈ provenance.trace (provenance.step s call).1 calls,
        call.1 ≤ timeOf x := hfrom
    rw [Machine.trace]
    refine ⟨fun x hx => ?_, List.pairwise_cons.mpr ⟨hfrom', hsorted⟩⟩
    rcases List.mem_cons.mp hx with rfl | hx
    · exact hnow
    · exact Nat.le_trans hnow (hfrom' x hx)

/-! ## Timers that were handed back -/

/-- What a run asked for is what its calls did. -/
theorem issued_run (s : Provenance α) (calls : List (Instant × Op α)) :
    (provenance.run s calls).issued =
      s.issued ++ (provenance.trace s calls).flatMap fun x => x.output.timers := by
  induction calls generalizing s with
  | nil => exact (List.append_nil _).symm
  | cons call calls ih =>
    rw [Machine.run_cons, ih, Machine.trace, List.flatMap_cons, ← List.append_assoc]
    rfl

/-- A token that no entry waits for any more. -/
structure Dead (token : TimerToken) (s : Provenance α) : Prop where
  accounted : Accounted s
  seq : token.seq ≤ s.engine.ids.lastSeq
  dead : s.engine.isLive token = false

theorem dead_invariant (token : TimerToken) : (numbered (α := α)).Invariant (Dead token) := by
  intro s call h henabled
  have hlast : (numbered.step s call).1.engine.ids.lastSeq =
      s.engine.ids.lastSeq + s.engine.armings (call.2.mark s.turn) :=
    lastSeq_step h.accounted.fresh.wf henabled.2
  refine ⟨accounted_step s call h.accounted henabled, ?_,
    dead_step h.accounted.fresh _ henabled.2 h.seq h.dead⟩
  have := h.seq
  omega

/-- Once the timers of a key's presses were all handed back, none of them waits. -/
theorem delivered_timed {vk : VirtualKey} {calls : List (Instant × Op α)}
    (hlegal : numbered.Legal .start calls)
    (hdelivered : Delivered vk (provenance.trace .start calls)) {r : TimerRequest}
    (hr : r ∈ (provenance.run .start calls).engine.timed) : r.token.slot ≠ .gesture vk := by
  intro hslot
  have hend : Accounted (provenance.run .start calls) := accounted_step.run accounted_start hlegal
  have hissued := hend.issued r hr
  rw [issued_run] at hissued
  obtain ⟨y, hy, hasked⟩ := List.mem_flatMap.mp hissued
  obtain ⟨pre, post, hall⟩ := List.append_of_mem hy
  obtain ⟨z, hz, hback⟩ := hdelivered pre y post hall r hasked hslot
  obtain ⟨pre', post', rfl⟩ := List.append_of_mem hz
  have hsplit : provenance.trace .start calls = (pre ++ y :: pre') ++ z :: post' := by
    rw [hall]
    simp
  obtain ⟨js, call, ks, rfl, -, rfl, -⟩ := Machine.trace_split hsplit
  rw [Machine.legal_append, numbered_run] at hlegal
  have hmid : Accounted (provenance.run .start js) := accounted_step.run accounted_start hlegal.1
  have henabled := hlegal.2.1
  obtain ⟨now, op⟩ := call
  obtain rfl : op = .timer r.token := hback
  obtain ⟨r', hr', hsame, -⟩ := henabled.1.2
  -- The token dies when it is handed back, and stays so.
  have hdead : Dead r.token
      (provenance.step (provenance.run .start js) (now, Op.timer r.token)).1 := by
    refine ⟨accounted_step _ _ hmid henabled, ?_, onTimer_delivers hmid.fresh r.token⟩
    have hlast := lastSeq_step hmid.fresh.wf henabled.2
    have hbound := hmid.bound r' hr'
    rw [hsame] at hbound
    show r.token.seq ≤ (operations.step _ _).1.ids.lastSeq
    rw [hlast]
    omega
  have hstill := ((dead_invariant r.token).run hdead hlegal.2.2).dead
  rw [Machine.run_append] at hr
  exact absurd ((isLive_iff _ r.token).mpr ⟨r.due, hr⟩) (Bool.eq_false_iff.mp hstill)

/-! ## The outcome of a press -/

/-- The gestures of a list are marked as what they are. -/
theorem armingOf_marked {n : Nat} {bindings : List (Binding α)} {group : GroupArming (Marked α)}
    (h : group.From (bindings.map (mark n))) (vk : VirtualKey) (now : Instant) (seq : Nat) :
    (armingOf group vk now seq).Marked (markOf n) := by
  have hmark : ∀ {b : Binding (Marked α)}, b ∈ bindings.map (mark n) → ∀ {combo},
      b.kind = .combo combo → markOf n b.action = gestureOf b.trigger := by
    intro b hb combo hkind
    obtain ⟨b, -, rfl⟩ := List.mem_map.mp hb
    rw [markOf_mark, if_pos rfl]
    have hkind' : b.kind = .combo combo := hkind
    unfold bindingGesture
    rw [hkind']
    rfl
  refine ⟨fun x hx => ?_, fun x hx => ?_, fun x hx => ?_⟩
  · obtain ⟨entry, hentry, rfl⟩ := Option.map_eq_some_iff.mp hx
    obtain ⟨b, hb, combo, ms, hkind, htrigger, haction⟩ := h.tap entry hentry
    dsimp only
    rw [haction, hmark hb hkind, htrigger]
    rfl
  · obtain ⟨entry, hentry, rfl⟩ := Option.map_eq_some_iff.mp hx
    obtain ⟨b, hb, combo, ms, hkind, htrigger, haction⟩ := h.hold entry hentry
    dsimp only
    rw [haction, hmark hb hkind, htrigger]
    rfl
  · obtain ⟨entry, hentry, rfl⟩ := Option.map_eq_some_iff.mp hx
    obtain ⟨b, hb, combo, ms, hkind, htrigger, haction⟩ := h.double entry hentry
    dsimp only
    rw [haction, hmark hb hkind, htrigger]
    rfl

/-- Only the gestures of a list are marked. -/
theorem mark_onlyGestures (n : Nat) (bindings : List (Binding α)) :
    ∀ b ∈ bindings.map (mark n), OnlyGestures (markOf n) b := by
  intro b hb
  obtain ⟨b, -, rfl⟩ := List.mem_map.mp hb
  unfold OnlyGestures
  rw [markOf_mark, if_pos rfl]
  unfold bindingGesture
  have hkind : (mark n b).kind = b.kind := rfl
  have htrigger : (mark n b).trigger = b.trigger := rfl
  rw [hkind, htrigger]
  cases b.kind with
  | combo combo =>
    cases b.trigger with
    | immediate => exact Or.inr rfl
    | tap ms => exact Or.inl ⟨combo, rfl, rfl⟩
    | hold ms => exact Or.inl ⟨combo, rfl, rfl⟩
    | doubleTap ms => exact Or.inl ⟨combo, rfl, rfl⟩
  | sequence steps gap => exact Or.inr rfl
  | chord keys window => exact Or.inr rfl

/-- Where no action is marked, no entry is. -/
theorem entries_of_within {β : Type} {tag : β → Option Gesture} {e : Engine β}
    (h : e.Within fun x => tag x = none) : Entries tag [] [] e.gestures ∧ Quiet tag e := by
  obtain ⟨e', rfl⟩ := h
  refine ⟨⟨?_, ?_⟩, ⟨e'.chords, rfl⟩, ⟨e'.sequences, rfl⟩⟩
  · rw [List.filter_eq_nil_iff]
    intro p hp
    obtain ⟨p, -, rfl⟩ := List.mem_map.mp hp
    obtain ⟨vk, seq, phase⟩ := p
    unfold Press.marked Press.map Phase.marked
    rw [List.any_eq_true]
    rintro ⟨action, haction, hmarked⟩
    have hlift : ∃ x : {x // tag x = none}, x.val = action := by
      cases phase with
      | held tap hold double =>
        simp only [Phase.map, Phase.actions, mapEntry, mapDouble, List.mem_append,
          Option.mem_toList, Option.map_map, Option.map_eq_some_iff] at haction
        rcases haction with (⟨x, -, hx⟩ | ⟨x, -, hx⟩) | ⟨x, -, hx⟩
        · exact ⟨x.2, hx⟩
        · exact ⟨x.2, hx⟩
        · exact ⟨x.2.1, hx⟩
      | awaitSecond due double group tap passed =>
        simp only [Phase.map, Phase.actions, List.mem_cons, Option.mem_toList,
          Option.map_eq_some_iff] at haction
        rcases haction with hx | ⟨x, -, hx⟩
        · exact ⟨double, hx.symm⟩
        · exact ⟨x, hx⟩
    obtain ⟨x, rfl⟩ := hlift
    rw [x.property] at hmarked
    exact absurd hmarked (by simp)
  · rw [List.filter_eq_nil_iff]
    intro h hh
    obtain ⟨h, -, rfl⟩ := List.mem_map.mp hh
    unfold DueHold.marked DueHold.map
    rw [h.action.property]
    simp

/-- The calls after the one that armed the press, and the state they end in. -/
structure Armed (n : Nat) (a : Arming (Marked α)) (after : List (Call α))
    (last : Provenance α) : Prop where
  marked : a.Marked (markOf n)
  run : ∃ s calls, Living n a s (.held a.deadlines.hold) ∧ numbered.Legal s calls ∧
    after = provenance.trace s calls ∧ last = provenance.run s calls

/-- What the call that arms a group leaves, and what fired up to it. -/
theorem armed_of_arms {calls : List (Instant × Op α)} (hlegal : numbered.Legal .start calls)
    {before after : List (Call α)} {x : Call α}
    (hsplit : provenance.trace .start calls = before ++ x :: after) {vk : VirtualKey}
    {bindings : List (Binding α)} {env : Env} (hx : x.input.2 = .key ⟨vk, .down⟩ bindings env)
    {group : GroupArming (Marked α)}
    (harms : Arms x.before.engine vk (bindings.map (mark x.before.turn)) env group) :
    Armed x.before.turn (armingOf group vk env.now x.before.engine.ids.nextSeq.1) after
        (provenance.run .start calls) ∧
      (before ++ [x]).flatMap (firedOf x.before.turn) = [] := by
  obtain ⟨js, call, ks, rfl, rfl, rfl, rfl⟩ := Machine.trace_split hsplit
  obtain ⟨now, op⟩ := call
  obtain rfl : op = .key ⟨vk, .down⟩ bindings env := hx
  rw [Machine.legal_append, numbered_run] at hlegal
  have hstart : (Provenance.start : Provenance α).engine.Within
      fun m => markOf (0 + js.length) m = none := ⟨new, rfl⟩
  obtain ⟨hwithin, hturn, hquiet⟩ := untouched_run hstart (Nat.le_refl _)
  have hturn' : (provenance.run (Provenance.start : Provenance α) js).turn = 0 + js.length := hturn
  have haccounted : Accounted (provenance.run .start js) :=
    accounted_step.run accounted_start hlegal.1
  rw [← hturn'] at hwithin hquiet
  obtain ⟨hentries, hq⟩ := entries_of_within hwithin
  have hmarked := armingOf_marked (groupAt_from harms.wins).1 vk env.now
    (provenance.run .start js).engine.ids.nextSeq.1
  obtain ⟨hq', hcarries, hfired⟩ :=
    key_arms hentries hq harms (mark_onlyGestures _ bindings) hmarked
  have hliving : Living (provenance.run .start js).turn
      (armingOf group vk env.now (provenance.run .start js).engine.ids.nextSeq.1)
      (provenance.step (provenance.run .start js) (now, .key ⟨vk, .down⟩ bindings env)).1
      (.held (armingOf group vk env.now
        (provenance.run .start js).engine.ids.nextSeq.1).deadlines.hold) :=
    ⟨accounted_step _ _ haccounted hlegal.2.1, Nat.lt_succ_self _, hq', hcarries⟩
  refine ⟨⟨hmarked, _, ks, hliving, hlegal.2.2, rfl, ?_⟩, ?_⟩
  · rw [Machine.run_append]
    rfl
  · rw [List.flatMap_append, List.append_eq_nil_iff]
    refine ⟨List.flatMap_eq_nil_iff.mpr hquiet, ?_⟩
    rw [List.flatMap_cons, List.flatMap_nil, List.append_nil]
    exact hfired

section Runs

variable {n : Nat} {a : Arming (Marked α)} {after : List (Call α)} {last : Provenance α}
  (h : Armed n a after last)
include h

/-- What fires after the arming is what its life fires. -/
theorem Armed.fired : after.flatMap (firedOf n) =
    (Life.run a.deadlines (.held a.deadlines.hold) (after.map (cueIn n a))).2 := by
  obtain ⟨s, calls, hliving, hlegal, rfl, -⟩ := h.run
  exact (living_run h.marked hliving hlegal).2.1

/-- The press at the end of the run. -/
theorem Armed.living : Living n a last
    (Life.run a.deadlines (.held a.deadlines.hold) (after.map (cueIn n a))).1 := by
  obtain ⟨s, calls, hliving, hlegal, rfl, rfl⟩ := h.run
  exact (living_run h.marked hliving hlegal).1

theorem Armed.onTime : ∀ c ∈ after.map (cueIn n a), Life.OnTime a.deadlines c := by
  obtain ⟨s, calls, hliving, hlegal, rfl, -⟩ := h.run
  intro c hc
  obtain ⟨x, hx, rfl⟩ := List.mem_map.mp hc
  exact (living_run h.marked hliving hlegal).2.2 x hx

theorem Armed.sorted : (after.map (cueIn n a)).Pairwise fun x y => x.1 ≤ y.1 := by
  obtain ⟨s, calls, -, hlegal, rfl, -⟩ := h.run
  have hprovenance : provenance.Legal s calls := by
    clear h
    induction calls generalizing s with
    | nil => trivial
    | cons call calls ih => exact ⟨hlegal.1.1, ih _ hlegal.2⟩
  rw [List.pairwise_map]
  exact (trace_sorted hprovenance).2

/-- What one of the calls fires is what the life does at its cue. -/
theorem Armed.fired_at {pre post : List (Call α)} {y : Call α} (hsplit : after = pre ++ y :: post) :
    firedOf n y = (Life.step a.deadlines (timeOf y)
      (Life.run a.deadlines (.held a.deadlines.hold) (pre.map (cueIn n a))).1
      (cueIn n a y).2).2.toList := by
  obtain ⟨s, calls, hliving, hlegal, rfl, -⟩ := h.run
  obtain ⟨js, call, ks, rfl, rfl, rfl, -⟩ := Machine.trace_split hsplit
  rw [Machine.legal_append, numbered_run] at hlegal
  exact (living_step h.marked (living_run h.marked hliving hlegal.1).1 hlegal.2.1).2

/-- What one of the calls fires is allowed by the calls before it. -/
theorem Armed.allowed_at {pre post : List (Call α)} {y : Call α}
    (hsplit : after = pre ++ y :: post) {gesture : Gesture} (hfired : gesture ∈ firedOf n y) :
    Life.Allowed a.deadlines (pre.map (cueIn n a)) (cueIn n a y) gesture := by
  rw [h.fired_at hsplit, Option.mem_toList] at hfired
  have hcues : after.map (cueIn n a) =
      pre.map (cueIn n a) ++ cueIn n a y :: post.map (cueIn n a) := by
    rw [hsplit, List.map_append, List.map_cons]
  exact Life.story_run h.sorted h.onTime hcues hfired

end Runs

theorem nextPress_cues (n : Nat) (a : Arming (Marked α)) (post : List (Call α)) :
    Life.nextDown (post.map (cueIn n a)) = nextPress a post := by
  unfold Life.nextDown nextPress
  rw [List.findSome?_map]
  congr 1
  funext x
  dsimp only [Function.comp_apply]
  cases hpress : pressOf a.vk a.window x with
  | some completes =>
    rw [(down_cueIn n a x completes).mpr hpress]
    rfl
  | none =>
    have hnot := (not_isDown_cueIn n a x).mpr hpress
    split
    · next hcue => exact absurd ⟨_, hcue⟩ hnot
    · rfl

/-- A release told of by the cues. -/
theorem releasedEarlyIn_of_cues {n : Nat} {a : Arming (Marked α)} {pre : List (Call α)} {z : Call α}
    (hup : Life.IsUp (cueIn n a z))
    (h : Life.ReleasedEarly a.deadlines (pre.map (cueIn n a)) (cueIn n a z).1) :
    ReleasedEarlyIn a pre z := by
  refine ⟨(isUp_cueIn n a z).mp hup, fun x hx => ?_, ?_⟩
  · obtain ⟨hnotUp, hnotDown⟩ := h.first _ (List.mem_map_of_mem hx)
    exact ⟨fun hreleases => hnotUp ((isUp_cueIn n a x).mpr hreleases),
      (not_isDown_cueIn n a x).mp hnotDown⟩
  · rcases h.hold with hhold | ⟨c, hc, hrefused⟩
    · exact Or.inl hhold
    · obtain ⟨x, hx, rfl⟩ := List.mem_map.mp hc
      exact Or.inr ⟨x, hx, refuses_of_cueIn hrefused⟩

/-- An entry of the press waits for a timer while it is due, or while its Tap waits. -/
theorem carries_timed {tag : α → Option Gesture} {a : Arming α} {e : Engine α} {life : Life}
    (h : Carries tag a e.gestures life)
    (hlife : life = .due ∨ ∃ passed, life = .waiting true passed) :
    ∃ r ∈ e.timed, r.token.slot = .gesture a.vk := by
  rcases hlife with rfl | ⟨passed, rfl⟩
  · obtain ⟨due, action, -, h⟩ := h
    obtain ⟨hmem, -, -⟩ := mem_of_filter h.dueHolds
    exact ⟨_, mem_timed.mpr (Or.inl (List.mem_append_right _ (List.mem_map_of_mem hmem))), rfl⟩
  · obtain ⟨due, double, group, seq, -, htap, h⟩ := h
    obtain ⟨hmem, -, -⟩ := mem_of_filter h.presses
    obtain ⟨entry, hentry⟩ := Option.isSome_iff_exists.mp (htap rfl)
    refine ⟨⟨⟨e.ids.generation, .gesture a.vk, seq⟩, due⟩,
      mem_timed.mpr (Or.inl (List.mem_append_left _ (List.mem_flatMap.mpr ⟨_, hmem, ?_⟩))), rfl⟩
    refine Press.mem_timed.mpr ⟨rfl, ?_⟩
    rw [hentry]
    rfl

/-- A press that is left alone, with its timers delivered, fires what its times say. -/
theorem fired_left_alone {n : Nat} {a : Arming (Marked α)} {before after : List (Call α)}
    {last : Provenance α} (h : Armed n a after last)
    (hbefore : before.flatMap (firedOf n) = [])
    (hend : Delivered a.vk (before ++ after) →
      ∀ r ∈ last.engine.timed, r.token.slot ≠ .gesture a.vk)
    {pre post : List (Call α)} {z : Call α} (hsplit : after = pre ++ z :: post)
    (hreleases : Releases a.vk z)
    (hpre : ∀ x ∈ pre, ¬ Releases a.vk x ∧ pressOf a.vk a.window x = none)
    (halone : ∀ x ∈ after, ¬ PressesOther a.vk x ∧ ¬ Refuses a.vk a.seq x ∧ ¬ Resets x)
    (hdelivered : Delivered a.vk (before ++ after)) :
    (before ++ after).flatMap (firedOf n) =
      (Life.outcome a.deadlines (timeOf z) (nextPress a post)).toList := by
  obtain ⟨passed, hz⟩ := (isUp_cueIn n a z).mpr hreleases
  have hcue : cueIn n a z = (timeOf z, .up passed) := Prod.ext rfl hz
  have hmap : after.map (cueIn n a) =
      pre.map (cueIn n a) ++ (timeOf z, .up passed) :: post.map (cueIn n a) := by
    rw [hsplit, List.map_append, List.map_cons, hcue]
  have hsorted := h.sorted
  have htime := h.onTime
  have halone' : ∀ c ∈ after.map (cueIn n a), Life.Alone c := by
    intro c hc
    obtain ⟨x, hx, rfl⟩ := List.mem_map.mp hc
    obtain ⟨hother, hrefused, hreset⟩ := halone x hx
    exact alone_cueIn hother hrefused hreset
  -- With its timers delivered, no entry of the press is left to fire.
  have hlast : ∀ life, Carries (markOf n) a last.engine.gestures life →
      life ≠ .due ∧ ∀ passed, life ≠ .waiting true passed := by
    intro life hcarries
    have hnone : ¬ (life = .due ∨ ∃ passed, life = .waiting true passed) := by
      intro hlife
      obtain ⟨r, hr, hslot⟩ := carries_timed hcarries hlife
      exact hend hdelivered r hr hslot
    exact ⟨fun hdue => hnone (Or.inl hdue), fun passed hw => hnone (Or.inr ⟨passed, hw⟩)⟩
  have hfinal := hlast _ h.living.carries
  rw [List.flatMap_append, hbefore, List.nil_append, h.fired]
  rw [hmap] at hsorted htime halone' hfinal ⊢
  rw [Life.left_alone_outcome hsorted htime halone' ?_ hfinal.1 hfinal.2, nextPress_cues]
  intro c hc
  obtain ⟨x, hx, rfl⟩ := List.mem_map.mp hc
  obtain ⟨hnot, hdown⟩ := hpre x hx
  exact ⟨fun hup => hnot ((isUp_cueIn n a x).mp hup), (not_isDown_cueIn n a x).mpr hdown⟩

/-- The press of an arming, told in its calls. -/
theorem oneOutcome_of_armed {n : Nat} {a : Arming (Marked α)} {before after : List (Call α)}
    {last : Provenance α} (h : Armed n a after last) (hbefore : before.flatMap (firedOf n) = [])
    (hend : Delivered a.vk (before ++ after) →
      ∀ r ∈ last.engine.timed, r.token.slot ≠ .gesture a.vk) :
    OneOutcome n a (before ++ after) after where
  once := by
    rw [List.flatMap_append, hbefore, List.nil_append, h.fired]
    exact Life.fired_once _ _ _
  hold := by
    intro y hy hfired
    obtain ⟨pre, post, hsplit⟩ := List.append_of_mem hy
    have hallowed := h.allowed_at hsplit hfired
    have hsorted := h.sorted
    rw [hsplit, List.map_append, List.map_cons] at hsorted
    refine ⟨?_, fun z hz hreleases => ?_⟩
    · have hdue := hallowed.1
      unfold dueBy at hdue
      cases hhold : a.deadlines.hold with
      | none => simp [hhold] at hdue
      | some due => rfl
    · refine Life.hold_ups hsorted hallowed (cueIn n a z) ?_ ((isUp_cueIn n a z).mpr hreleases)
      rw [← List.map_cons, ← List.map_append, ← hsplit]
      exact List.mem_map_of_mem hz
  tap := by
    intro pre y post hsplit hfired
    obtain ⟨pre', u, passed, post', hcues, hreleased, hopen, hpost⟩ := h.allowed_at hsplit hfired
    have hmap : (pre ++ [y]).map (cueIn n a) = pre' ++ (u, .up passed) :: post' := by
      rw [List.map_append]
      exact hcues
    obtain ⟨calls, rest, hparts, rfl, hrest⟩ := List.map_eq_append_iff.mp hmap
    obtain ⟨z, calls', rfl, hz, rfl⟩ := List.map_eq_cons_iff.mp hrest
    refine ⟨calls, z, calls', hparts, ?_, ?_, fun x hx hcompletes => ?_⟩
    · refine releasedEarlyIn_of_cues ⟨passed, by rw [hz]⟩ ?_
      rw [hz]
      exact hreleased
    · have htime : timeOf z = u := congrArg Prod.fst hz
      rw [htime]
      exact hopen
    · exact hpost _ (List.mem_map_of_mem hx) ((down_cueIn n a x true).mpr hcompletes)
  doubleTap := by
    intro pre y post hsplit hfired
    obtain ⟨pre', u, passed, post', hcues, hreleased, -, hpost, hdown, hopen⟩ :=
      h.allowed_at hsplit hfired
    obtain ⟨calls, rest, hparts, rfl, hrest⟩ := List.map_eq_append_iff.mp hcues
    obtain ⟨z, calls', rfl, hz, rfl⟩ := List.map_eq_cons_iff.mp hrest
    refine ⟨(down_cueIn n a y true).mp hdown, hopen, calls, z, calls', hparts, ?_, fun x hx => ?_⟩
    · refine releasedEarlyIn_of_cues ⟨passed, by rw [hz]⟩ ?_
      rw [hz]
      exact hreleased
    · exact (not_isDown_cueIn n a x).mp (hpost _ (List.mem_map_of_mem hx))
  reset := by
    intro pre y post hsplit hresets
    obtain ⟨x, hx, hreset⟩ := hresets
    rw [h.fired_at hsplit,
      Life.run_of_reset _ _ ⟨_, List.mem_map_of_mem hx, cueIn_of_resets hreset⟩,
      Life.step_ended]
    rfl
  exact := fun _ _ _ hsplit hreleases hpre halone hdelivered =>
    fired_left_alone h hbefore hend hsplit hreleases hpre halone hdelivered

/-- **One press, one outcome.** Over every run of calls from the start in which the
clock never goes back, timers are handed back when due or later (if at all), and
fewer than 2^64 numbers are taken: every key-down that arms a group has at most
one outcome, as `OneOutcome` says. The run is the engine's own, marks apart. -/
theorem one_press_one_outcome {calls : List (Instant × Op α)}
    (hlegal : provenance.Legal .start calls)
    (hroom : (new : Engine α).armingsOf (calls.map Prod.snd) < 2 ^ 64) :
    (provenance.trace .start calls).map erase = operations.trace new (calls.map Prod.snd) ∧
    ∀ before (x : Call α) after, provenance.trace .start calls = before ++ x :: after →
      ∀ vk bindings env group, x.input.2 = .key ⟨vk, .down⟩ bindings env →
        Arms x.before.engine vk (bindings.map (mark x.before.turn)) env group →
        OneOutcome x.before.turn (armingOf group vk env.now x.before.engine.ids.nextSeq.1)
          (provenance.trace .start calls) after := by
  refine ⟨provenance_erases _ _, fun before x after hsplit vk bindings env group hx harms => ?_⟩
  have hnumbered : numbered.Legal (Provenance.start : Provenance α) calls := by
    refine numbered_legal fresh_new hlegal ?_
    have hzero : (Provenance.start : Provenance α).engine.ids.lastSeq = 0 := rfl
    have hnew : (Provenance.start : Provenance α).engine.map Marked.action = new := rfl
    rw [hzero, hnew]
    omega
  obtain ⟨harmed, hbefore⟩ := armed_of_arms hnumbered hsplit hx harms
  have hall : provenance.trace .start calls = (before ++ [x]) ++ after := by
    rw [hsplit]
    simp
  rw [hall]
  refine oneOutcome_of_armed harmed hbefore fun hdelivered r hr => ?_
  rw [← hall] at hdelivered
  exact delivered_timed hnumbered hdelivered hr

/-! ## Three runs -/

/-- A gesture of A with its term, which swallows the key-down. -/
def gestureOfA (trigger : Trigger) : Binding Unit :=
  ⟨.combo ⟨[.key 0x41]⟩, (), true, .always, trigger, false, false, none⟩

/-- What the gestures of A arm. -/
def groupOfA (origin : Nat) (tap hold : Option Duration) : GroupArming (Marked Unit) :=
  ⟨⟨[.key 0x41]⟩, .always, tap.map fun term => (term, ⟨(), origin, some .tap⟩),
    hold.map fun term => (term, ⟨(), origin, some .hold⟩), none, true⟩

/-- A goes down, with a Tap of 500 ms, and up. -/
def tapDown : Instant × Op Unit := (1, .key ⟨0x41, .down⟩ [gestureOfA (.tap 500)] (quiet 1))

def tapUp : Instant × Op Unit := (2, .key ⟨0x41, .up⟩ [] (quiet 2))

/-- The Tap fires, once. -/
theorem one_press_one_outcome_tap :
    ((provenance.trace .start [tapDown, tapUp]).flatMap (firedOf 0)).length ≤ 1 ∧
      (provenance.trace .start [tapDown, tapUp]).flatMap (firedOf 0) = [.tap] := by
  have hlegal : provenance.Legal .start [tapDown, tapUp] :=
    ⟨admits_key (Nat.zero_le 1) _ _ _ rfl, admits_key (by decide) _ _ _ rfl, trivial⟩
  have harms : Arms (new : Engine (Marked Unit)) 0x41 ([gestureOfA (.tap 500)].map (mark 0))
      (quiet 1) (groupOfA 0 (some (fromMillis 500)) none) :=
    ⟨rfl, rfl, by simp [new, Gestures.new]⟩
  have houtcome := (one_press_one_outcome hlegal (by decide)).2 []
      (provenance.moment .start tapDown)
    (provenance.trace (provenance.step .start tapDown).1 [tapUp]) rfl 0x41 [gestureOfA (.tap 500)]
    (quiet 1) (groupOfA 0 (some (fromMillis 500)) none) rfl harms
  exact ⟨houtcome.once, rfl⟩

/-- A with a Tap of 500 ms and a Hold of 300 ms, whose timer is refused; A goes up
after 400 ms. -/
def refusedCalls : List (Instant × Op Unit) :=
  [(0, .key ⟨0x41, .down⟩ [gestureOfA (.tap 500), gestureOfA (.hold 300)] (quiet 0)),
    (1, .forget ⟨0, .gesture 0x41, 1⟩),
    (fromMillis 400, .key ⟨0x41, .up⟩ [] (quiet (fromMillis 400)))]

/-- A key-up of A at 1 ms. -/
def upCall : Instant × Op Unit := (fromMillis 1, .key ⟨0x41, .up⟩ [] (quiet (fromMillis 1)))

/-- A Hold of A of 1 ms, let go at once, and `n` key-ups more, each of which takes
a number. -/
def heldCalls (n : Nat) : List (Instant × Op Unit) :=
  [(0, .key ⟨0x41, .down⟩ [gestureOfA (.hold 1)] (quiet 0)), (0, .key ⟨0x41, .up⟩ [] (quiet 0)),
    upCall] ++ List.replicate n upCall

/-- The timer of that Hold. -/
def firstHold : TimerRequest := ⟨⟨0, .gesture 0x41, 1⟩, fromMillis 1⟩

/-- The Hold again. -/
def downCall : Instant × Op Unit :=
  (fromMillis 1, .key ⟨0x41, .down⟩ [gestureOfA (.hold 1)] (quiet (fromMillis 1)))

/-- The Hold again, the timer of the first one, and A goes up. -/
def staleCalls : List (Instant × Op Unit) :=
  [downCall, (fromMillis 1, .timer firstHold.token), upCall]

/-- Nothing is down or pending. -/
def idle (lastSeq turn : Nat) (now : Instant) : Provenance Unit :=
  ⟨{ new with ids := ⟨0, lastSeq⟩ }, now, turn, [firstHold]⟩

theorem idle_up (lastSeq turn : Nat) (now : Instant) :
    (provenance.step (idle lastSeq turn now) upCall).1 =
      idle ((lastSeq + 1) % 2 ^ 64) (turn + 1) (fromMillis 1) := by
  have hrest : (provenance.step (idle lastSeq turn now) upCall).1 =
      ⟨{ new with
          ids := ⟨0, (lastSeq + 1) % 2 ^ 64⟩,
          resync := Resync.new.event 0x41 true,
          keys := ((KeyState.new.release 0x41).takeBlocked 0x41).2 },
        fromMillis 1, turn + 1, [firstHold]⟩ := rfl
  have hresync : Resync.new.event 0x41 true = .new := rfl
  rw [hrest, upA_release, hresync]
  rfl

/-- The key-ups take their numbers and leave everything else. -/
theorem idle_ups (n : Nat) : ∀ {lastSeq turn : Nat}, lastSeq < 2 ^ 64 →
    provenance.run (idle lastSeq turn (fromMillis 1)) (List.replicate n upCall) =
        idle ((lastSeq + n) % 2 ^ 64) (turn + n) (fromMillis 1) ∧
      provenance.Legal (idle lastSeq turn (fromMillis 1)) (List.replicate n upCall) := by
  induction n with
  | zero =>
    intro lastSeq turn hlt
    rw [Nat.add_zero, Nat.mod_eq_of_lt hlt]
    exact ⟨rfl, trivial⟩
  | succ n ih =>
    intro lastSeq turn hlt
    have hstep := idle_up lastSeq turn (fromMillis 1)
    obtain ⟨hrun, hlegal⟩ := @ih ((lastSeq + 1) % 2 ^ 64) (turn + 1) (Nat.mod_lt _ (by decide))
    rw [List.replicate_succ]
    refine ⟨?_, ⟨Nat.le_refl _, rfl⟩, ?_⟩
    · rw [Machine.run_cons, hstep, hrun, Nat.mod_add_mod]
      congr 1
      · congr 1
        omega
      · omega
    · rw [hstep]
      exact hlegal

/-- The state the key-ups lead to. -/
theorem held_run {n : Nat} (hwrap : (3 + n) % 2 ^ 64 = 0) :
    provenance.run .start (heldCalls n) = idle 0 (3 + n) (fromMillis 1) ∧
      provenance.Legal .start (heldCalls n) := by
  have hfirst : provenance.run .start [(0, .key ⟨0x41, .down⟩ [gestureOfA (.hold 1)] (quiet 0)),
      (0, .key ⟨0x41, .up⟩ [] (quiet 0))] = idle 2 2 0 := by
    have hrest : provenance.run .start [(0, .key ⟨0x41, .down⟩ [gestureOfA (.hold 1)] (quiet 0)),
        (0, .key ⟨0x41, .up⟩ [] (quiet 0))] =
        ⟨{ new with
            ids := ⟨0, 2⟩,
            keys := ((downA.release 0x41).takeBlocked 0x41).2.clearReleasedModifiers (quiet 0) 0x41
              .menu }, 0, 2, [firstHold]⟩ := rfl
    rw [hrest, downA_release]
    rfl
  have hthree : provenance.run .start [(0, .key ⟨0x41, .down⟩ [gestureOfA (.hold 1)] (quiet 0)),
      (0, .key ⟨0x41, .up⟩ [] (quiet 0)), upCall] = idle 3 3 (fromMillis 1) := by
    have hstep := idle_up 2 2 0
    rw [← hfirst] at hstep
    exact hstep
  obtain ⟨hrun, hlegal⟩ := @idle_ups n 3 3 (by decide)
  unfold heldCalls
  rw [Machine.run_append, hthree, hrun, hwrap, Machine.legal_append, hthree]
  have hup := Nat.le_of_eq (provenance_now (.start : Provenance Unit)
    (0, .key ⟨0x41, .down⟩ [gestureOfA (.hold 1)] (quiet 0)))
  refine ⟨rfl, ⟨admits_key (Nat.le_refl _) _ _ _ rfl, admits_key hup _ _ _ rfl, ?_, trivial⟩,
    hlegal⟩
  exact admits_key (Nat.le_trans (Nat.le_of_eq (provenance_now _ _)) (Nat.zero_le _)) _ _ _ rfl

/-- Nothing is held beside the A that goes down. -/
theorem idle_heldAt (turn : Nat) (now : Instant) :
    (idle 0 turn now).engine.heldAt 0x41 (quiet now) = (KeyState.new.press 0x41).2 := by
  have hclear : KeyState.new.clearReleasedModifiers (quiet now) 0x41 .all = .new := by
    refine keys_new (fun v => ?_) fun v => ?_
    · rw [KeyState.clearReleasedModifiers_active]
      rfl
    · rw [KeyState.clearReleasedModifiers_lastDown]
      rfl
  show ((KeyState.new.clearReleasedModifiers (quiet now) 0x41 .all).press 0x41).2 = _
  rw [hclear]

/-- A Hold of A is armed where nothing is pending, as the number after the last. -/
theorem idle_arms (ms turn : Nat) (now : Instant) :
    Arms (idle 0 turn now).engine 0x41 ([gestureOfA (.hold ms)].map (mark turn)) (quiet now)
      (groupOfA turn none (some (fromMillis ms))) := by
  refine ⟨rfl, ?_, by simp [idle, new, Gestures.new]⟩
  unfold groupAt
  rw [idle_heldAt]
  rfl

theorem idle_hold (ms turn : Nat) (now : Instant) :
    ((idle 0 turn now).engine.onKey ⟨0x41, .down⟩ ([gestureOfA (.hold ms)].map (mark turn))
        (quiet now)).1.gestures =
      ⟨[⟨0x41, 1, .held none (some (now + fromMillis ms, ⟨(), turn, some .hold⟩)) none⟩], []⟩ := by
  rw [first_down_gestures rfl, (idle_arms ms turn now).wins]
  rfl

/-- A gesture's timer of this generation. -/
theorem onTimer_gesture (e : Engine α) {token : TimerToken}
    (hgeneration : token.generation = e.ids.generation) {vk : VirtualKey}
    (hslot : token.slot = .gesture vk) :
    (e.onTimer token).2 = (e.gestures.onTimer vk token.seq).2 := by
  unfold onTimer
  rw [hgeneration, bne_self_eq_false, if_neg Bool.false_ne_true, hslot]

/-- The timer of the first Hold fires the second one. -/
theorem stale_fired (turn : Nat) :
    firedOf turn (provenance.moment (provenance.step (idle 0 turn (fromMillis 1)) downCall).1
      (fromMillis 1, .timer firstHold.token)) = [.hold] := by
  have hafter : (provenance.step (idle 0 turn (fromMillis 1)) downCall).1.engine =
      ((idle 0 turn (fromMillis 1)).engine.onKey ⟨0x41, .down⟩
        ([gestureOfA (.hold 1)].map (mark turn)) (quiet (fromMillis 1))).1 :=
    provenance_key _ _ _ _ _
  have hgeneration : ((idle 0 turn (fromMillis 1)).engine.onKey ⟨0x41, .down⟩
      ([gestureOfA (.hold 1)].map (mark turn)) (quiet (fromMillis 1))).1.ids.generation = 0 :=
    (onKey_drawn Gestures.wf_new _ _ _).generation
  have hfire : Gestures.onTimer ⟨[⟨0x41, 1, .held none
      (some (fromMillis 1 + fromMillis 1, (⟨(), turn, some .hold⟩ : Marked Unit))) none⟩], []⟩
      0x41 1 = (.new, [⟨(), turn, some .hold⟩]) := rfl
  unfold firedOf
  rw [provenance_timer, hafter, onTimer_gesture _ hgeneration.symm rfl, idle_hold]
  show (Gestures.onTimer _ 0x41 1).2.filterMap _ = _
  rw [hfire]
  simp [markOf]

theorem stale_legal (turn : Nat) :
    provenance.Legal (idle 0 turn (fromMillis 1)) staleCalls := by
  have hdown := provenance_now (idle 0 turn (fromMillis 1)) downCall
  generalize hs : (provenance.step (idle 0 turn (fromMillis 1)) downCall).1 = s at hdown
  have hissued : firstHold ∈ s.issued := by
    rw [← hs]
    exact List.mem_append_left _ List.mem_cons_self
  have htimer := provenance_now s (fromMillis 1, .timer firstHold.token)
  unfold staleCalls
  rw [Machine.legal_cons, Machine.legal_cons, hs]
  refine ⟨admits_key (Nat.le_refl _) _ _ _ rfl,
    admits_timer (Nat.le_of_eq hdown) hissued (Nat.le_refl _), ?_⟩
  exact ⟨admits_key (Nat.le_of_eq htimer) _ _ _ rfl, trivial⟩

/-- **The limits of the outcomes.** A Tap fires after the Hold's term once the Hold's
timer was refused; and when the numbers have wrapped, the timer of an old Hold
fires a new one, although the key is let go before its term ends. -/
theorem outcomes_at_the_limits :
    (provenance.Legal .start refusedCalls ∧
      ∃ x y z, provenance.trace .start refusedCalls = [x, y, z] ∧
        Arms x.before.engine 0x41
          ([gestureOfA (.tap 500), gestureOfA (.hold 300)].map (mark x.before.turn)) (quiet 0)
          (groupOfA 0 (some (fromMillis 500)) (some (fromMillis 300))) ∧
        Releases 0x41 z ∧ fromMillis 300 ≤ timeOf z ∧ firedOf x.before.turn z = [.tap]) ∧
    (provenance.Legal .start (heldCalls (2 ^ 64 - 3) ++ staleCalls) ∧
      ∃ before x y z,
        provenance.trace .start (heldCalls (2 ^ 64 - 3) ++ staleCalls) = before ++ [x, y, z] ∧
        x.input.2 = .key ⟨0x41, .down⟩ [gestureOfA (.hold 1)] (quiet (fromMillis 1)) ∧
        Arms x.before.engine 0x41 ([gestureOfA (.hold 1)].map (mark x.before.turn))
          (quiet (fromMillis 1)) (groupOfA x.before.turn none (some (fromMillis 1))) ∧
        firedOf x.before.turn y = [.hold] ∧ Releases 0x41 z ∧
        timeOf z < fromMillis 1 + fromMillis 1) := by
  constructor
  · refine ⟨⟨⟨by decide, rfl⟩, ⟨by decide, trivial⟩, ⟨by decide, rfl⟩, trivial⟩, _, _, _, rfl,
      ⟨rfl, rfl, by simp [Provenance.start, new, Gestures.new, Machine.moment]⟩, ⟨[], _, rfl⟩,
      by decide, rfl⟩
  · obtain ⟨hrun, hlegal⟩ := @held_run (2 ^ 64 - 3) rfl
    generalize 3 + (2 ^ 64 - 3) = turn at hrun
    refine ⟨?_, provenance.trace .start (heldCalls (2 ^ 64 - 3)),
      provenance.moment (idle 0 turn (fromMillis 1)) downCall,
      provenance.moment (provenance.step (idle 0 turn (fromMillis 1)) downCall).1
        (fromMillis 1, .timer firstHold.token),
      provenance.moment (provenance.step (provenance.step (idle 0 turn (fromMillis 1)) downCall).1
        (fromMillis 1, .timer firstHold.token)).1 upCall, ?_, rfl, idle_arms 1 turn _,
      stale_fired turn, ⟨[], _, rfl⟩, ?_⟩
    · rw [Machine.legal_append, hrun]
      exact ⟨hlegal, stale_legal turn⟩
    · rw [Machine.trace_append, hrun]
      rfl
    · show fromMillis 1 < fromMillis 1 + fromMillis 1
      decide

end KeySwitch.Engine
