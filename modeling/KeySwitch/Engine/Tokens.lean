import KeySwitch.Engine.Ops

/-!
# Tokens are fresh

Over any run that hands out fewer than 2^64 numbers, however many resets it has
and however often the generation wraps: the entries that wait for a timer have
distinct numbers, none beyond the last one handed out, and at most one press of
each key is pending. A token once issued that is not live stays so, and handing
it back, or refusing it, changes nothing.

The invariant is `Fresh`; one call keeps it because what it adds to the pending
entries it has just numbered (`step_effect`).
-/

namespace KeySwitch.Engine

open Data Lib

variable {α : Type}

/-- Pending entries have distinct numbers that were handed out, and each key has
one press at most. -/
structure Fresh (e : Engine α) : Prop where
  nodup : (e.timed.map fun r => r.token.seq).Nodup
  bound : ∀ r ∈ e.timed, r.token.seq ≤ e.ids.lastSeq
  wf : e.gestures.Wf

theorem fresh_new : Fresh (new : Engine α) := ⟨List.nodup_nil, by simp [timed, new, Gestures.timed,
  Gestures.new, Chords.timed, Chords.new, Sequences.timed, Sequences.new], Gestures.wf_new⟩

theorem nodup_of_subperm {l₁ l₂ : List TimerRequest} (h : l₁.Subperm l₂)
    (h₂ : (l₂.map fun r => r.token.seq).Nodup) : (l₁.map fun r => r.token.seq).Nodup := by
  obtain ⟨l, hperm, hsub⟩ := h
  exact ((hperm.map _).nodup_iff).mp (h₂.sublist (hsub.map _))

/-- No due Hold has the number of a press that waits for a timer. -/
theorem dueHold_distinct {e : Engine α} (h : Fresh e) : ∀ p ∈ e.gestures.presses,
    p.phase.timerDue.isSome = true → ∀ x ∈ e.gestures.dueHolds, x.seq ≠ p.seq := by
  intro p hp hdue x hx hseq
  obtain ⟨due, hdue⟩ := Option.isSome_iff_exists.mp hdue
  have hnodup := h.nodup
  unfold timed Gestures.timed at hnodup
  rw [List.map_append, List.map_append, List.nodup_append, List.nodup_append, List.map_append,
    List.nodup_append] at hnodup
  refine hnodup.1.1.2.2 p.seq ?_ x.seq ?_ hseq.symm
  · exact List.mem_map.mpr ⟨⟨⟨e.ids.generation, .gesture p.vk, p.seq⟩, due⟩,
      List.mem_flatMap.mpr ⟨p, hp, Press.mem_timed.mpr ⟨rfl, hdue⟩⟩, rfl⟩
  · exact List.mem_map.mpr ⟨DueHold.timed e.ids.generation x, List.mem_map_of_mem hx, rfl⟩

/-- A call moves the last number on by the numbers it takes. -/
theorem lastSeq_step {e : Engine α} (hwf : e.gestures.Wf) {op : Op α}
    (hlt : operations.enabled e op) :
    (operations.step e op).1.ids.lastSeq = e.ids.lastSeq + e.armings op :=
  (step_effect hwf op).lastSeq hlt

/-- **One call keeps `Fresh`**, as long as numbers are left. -/
theorem fresh_step : (operations (α := α)).Invariant Fresh := by
  intro e op h hlt
  have heffect := step_effect h.wf op
  have hfresh := heffect.fresh hlt
  refine ⟨nodup_of_subperm heffect.timed ?_, fun r hr => ?_, heffect.wf⟩
  · -- The numbers just handed out are above every number that was there.
    rw [List.map_append, List.nodup_append]
    refine ⟨hfresh.nodup, h.nodup, ?_⟩
    intro a ha b hb hab
    obtain ⟨r, hr, rfl⟩ := List.mem_map.mp ha
    obtain ⟨r', hr', rfl⟩ := List.mem_map.mp hb
    have := (hfresh.bounds r hr).1
    have := h.bound r' hr'
    omega
  · rw [lastSeq_step h.wf hlt]
    rcases List.mem_append.mp (heffect.timed.subset hr) with hr | hr
    · exact (hfresh.bounds r hr).2
    · have := h.bound r hr
      omega

/-- A token that names a number already handed out and is not live is not live
after a call either. -/
theorem dead_step {e : Engine α} (h : Fresh e) (op : Op α)
    (hlt : e.ids.lastSeq + e.armings op < 2 ^ 64) {token : TimerToken}
    (hseq : token.seq ≤ e.ids.lastSeq) (hdead : e.isLive token = false) :
    (e.step op).1.isLive token = false := by
  have heffect := step_effect h.wf op
  rw [Bool.eq_false_iff] at hdead ⊢
  intro hlive
  obtain ⟨due, hmem⟩ := ((e.step op).1.isLive_iff token).mp hlive
  rcases List.mem_append.mp (heffect.timed.subset hmem) with hmem | hmem
  · have := ((heffect.fresh hlt).bounds _ hmem).1
    dsimp only at this
    omega
  · exact hdead ((e.isLive_iff token).mpr ⟨due, hmem⟩)

/-- A run keeps a dead token dead. -/
theorem dead_run {e : Engine α} (h : Fresh e) {ops : List (Op α)}
    (hlegal : operations.Legal e ops) {token : TimerToken} (hseq : token.seq ≤ e.ids.lastSeq)
    (hdead : e.isLive token = false) : (operations.run e ops).isLive token = false := by
  induction ops generalizing e with
  | nil => exact hdead
  | cons op ops ih =>
    have hlast := lastSeq_step h.wf hlegal.1
    refine ih (fresh_step e op h hlegal.1) hlegal.2 ?_ (dead_step h op hlegal.1 hseq hdead)
    show token.seq ≤ (operations.step e op).1.ids.lastSeq
    omega

/-- **A dead token does nothing**, handed back or refused. -/
theorem onTimer_dead (e : Engine α) {token : TimerToken} (h : e.isLive token = false) :
    e.onTimer token = (e, []) := by
  unfold isLive at h
  unfold onTimer
  by_cases hgen : token.generation = e.ids.generation
  · rw [hgen, beq_self_eq_true, Bool.true_and] at h
    rw [hgen, bne_self_eq_false, if_neg Bool.false_ne_true]
    obtain ⟨generation, slot, seq⟩ := token
    cases slot with
    | gesture vk =>
      dsimp only at h ⊢
      rw [Gestures.onTimer_none h]
    | chord =>
      dsimp only at h ⊢
      unfold Chords.isLive at h
      unfold Chords.expire
      rw [List.filter_eq_self.mpr fun p hp => by simpa using List.any_eq_false.mp h p hp]
    | sequence =>
      dsimp only at h ⊢
      unfold Sequences.isLive at h
      unfold Sequences.expire
      rw [List.filter_eq_self.mpr fun p hp => by simpa using List.any_eq_false.mp h p hp]
  · rw [if_pos (by simpa using hgen)]

theorem forgetTimer_dead {e : Engine α} (hwf : e.gestures.Wf) {token : TimerToken}
    (h : e.isLive token = false) : e.forgetTimer token = (e, false) := by
  unfold isLive at h
  unfold forgetTimer
  by_cases hgen : token.generation = e.ids.generation
  · rw [hgen, beq_self_eq_true, Bool.true_and] at h
    rw [hgen, bne_self_eq_false, if_neg Bool.false_ne_true]
    obtain ⟨generation, slot, seq⟩ := token
    cases slot with
    | gesture vk =>
      dsimp only at h ⊢
      rw [Gestures.forget_none hwf h]
    | chord => rfl
    | sequence => rfl
  · rw [if_pos (by simpa using hgen)]

theorem Gestures.isLive_of_takeTimer_none {g : Gestures α} {vk : VirtualKey} {seq : Nat}
    (h : g.takeTimer vk seq = none) : g.isLive vk seq = false := by
  unfold takeTimer at h
  unfold isLive
  split at h
  · exact absurd h (by simp)
  · next hnoHold =>
    have hholds : g.dueHolds.any (isDueHold vk seq) = false := by
      simpa [List.any_eq_false] using List.find?_eq_none.mp hnoHold
    rw [hholds, Bool.false_or]
    split at h
    · next hnoPress => simpa [List.any_eq_false] using List.find?_eq_none.mp hnoPress
    · next press hfound =>
      -- A press that waits for a timer has an action to fire.
      have hwaits := List.find?_some hfound
      unfold awaitsTimer at hwaits
      rw [Bool.and_eq_true] at hwaits
      split at h
      · exact absurd h (by simp)
      · next hneither =>
        unfold Phase.timerDue Phase.intoTimerAction at hneither
        have hdue := hwaits.2
        unfold Phase.timerDue at hdue
        split at hdue
        · next hphase => exact (hneither _ _ (by rw [hphase]) (by rw [hphase])).elim
        · next hphase => exact (hneither _ _ (by rw [hphase]) (by rw [hphase])).elim
        · exact absurd hdue (by simp)

/-- A timer handed back is one that no entry waits for any more. -/
theorem Gestures.onTimer_delivers {g : Gestures α} (generation : Nat)
    (hnodup : ((g.timed generation).map fun r => r.token.seq).Nodup) (vk : VirtualKey)
    (seq : Nat) : (g.onTimer vk seq).1.isLive vk seq = false := by
  unfold Gestures.onTimer
  split
  · next hnone => exact isLive_of_takeTimer_none hnone
  · next g' due action htake =>
    have hperm : (g.timed generation).Perm
        (⟨⟨generation, .gesture vk, seq⟩, due⟩ :: g'.timed generation) :=
      (takeTimer_some generation htake).2
    have hnodup' := ((hperm.map fun r => r.token.seq).nodup_iff).mp hnodup
    rw [List.map_cons, List.nodup_cons] at hnodup'
    rw [Bool.eq_false_iff]
    intro hlive
    obtain ⟨due', hmem⟩ := (isLive_iff _ generation vk seq).mp hlive
    have hsub := (fireClosedWindows_step generation g' due).timed.subset hmem
    exact hnodup'.1 (List.mem_map_of_mem (f := fun r => r.token.seq) hsub)

theorem onTimer_delivers {e : Engine α} (h : Fresh e) (token : TimerToken) :
    (e.onTimer token).1.isLive token = false := by
  obtain ⟨generation, slot, seq⟩ := token
  by_cases hgeneration : generation = e.ids.generation
  · subst hgeneration
    unfold onTimer isLive
    dsimp only
    rw [bne_self_eq_false, if_neg Bool.false_ne_true]
    cases slot with
    | gesture vk =>
      dsimp only
      rw [beq_self_eq_true, Bool.true_and]
      refine Gestures.onTimer_delivers e.ids.generation (h.nodup.sublist (List.Sublist.map _ ?_))
        vk seq
      unfold timed
      rw [List.append_assoc]
      exact List.sublist_append_left _ _
    | chord => simp [Chords.isLive, Chords.expire]
    | sequence => simp [Sequences.isLive, Sequences.expire]
  · unfold onTimer
    rw [if_pos (by simpa using hgeneration)]
    unfold isLive
    simp [hgeneration]

/-! ## Whole runs -/

/-- A run that takes fewer than 2^64 numbers in all never runs out of them. -/
theorem legal_of_armings {e : Engine α} (h : Fresh e) {ops : List (Op α)}
    (hlt : e.ids.lastSeq + e.armingsOf ops < 2 ^ 64) : operations.Legal e ops := by
  induction ops generalizing e with
  | nil => trivial
  | cons op ops ih =>
    rw [armingsOf] at hlt
    have henabled : e.ids.lastSeq + e.armings op < 2 ^ 64 := by omega
    have hlast := lastSeq_step h.wf henabled
    refine ⟨henabled, ih (fresh_step e op h henabled) ?_⟩
    have hrest : ((operations (α := α)).step e op).1.armingsOf ops =
        (e.step op).1.armingsOf ops := rfl
    omega

/-- Every token a run's decisions ask a timer for. -/
def issued (e : Engine α) (ops : List (Op α)) : List TimerToken :=
  (operations.trace e ops).flatMap fun x => x.output.timers.map TimerRequest.token

/-- Numbers only grow, and every token issued names one handed out by then. -/
theorem issued_bound {e : Engine α} (h : Fresh e) {ops : List (Op α)}
    (hlegal : operations.Legal e ops) :
    e.ids.lastSeq ≤ (operations.run e ops).ids.lastSeq ∧
      ∀ token ∈ e.issued ops, token.seq ≤ (operations.run e ops).ids.lastSeq := by
  induction ops generalizing e with
  | nil => exact ⟨Nat.le_refl _, by simp [issued, Machine.trace]⟩
  | cons op ops ih =>
    have heffect := step_effect h.wf op
    have hlast := lastSeq_step h.wf hlegal.1
    obtain ⟨hmono, hrest⟩ := ih (fresh_step e op h hlegal.1) hlegal.2
    rw [Machine.run_cons]
    refine ⟨by omega, fun token htoken => ?_⟩
    unfold issued at htoken
    rw [Machine.trace, List.flatMap_cons, List.mem_append] at htoken
    rcases htoken with htoken | htoken
    · obtain ⟨r, hr, rfl⟩ := List.mem_map.mp htoken
      have := ((heffect.fresh hlegal.1).bounds r hr).2
      omega
    · exact hrest token htoken

/-- **Token freshness.** After any run that hands out fewer than 2^64 numbers:
the entries that wait for a timer have pairwise distinct numbers, all handed
out; each key has at most one press pending; and a token issued in the run that
is not live fires nothing and changes nothing when it is handed back or refused,
and never becomes live again. -/
theorem tokens_fresh {ops : List (Op α)} (hlt : (new : Engine α).armingsOf ops < 2 ^ 64) :
    let e := operations.run new ops
    (e.timed.map fun r => r.token.seq).Nodup ∧ (∀ r ∈ e.timed, r.token.seq ≤ e.ids.lastSeq) ∧
    (e.gestures.presses.map Press.vk).Nodup ∧
    ∀ token ∈ (new : Engine α).issued ops, e.isLive token = false →
      e.onTimer token = (e, []) ∧ e.forgetTimer token = (e, false) ∧
      ∀ later, (new : Engine α).armingsOf (ops ++ later) < 2 ^ 64 →
        (operations.run e later).isLive token = false := by
  intro e
  have hzero : (new : Engine α).ids.lastSeq = 0 := rfl
  have hlegal : operations.Legal (new : Engine α) ops :=
    legal_of_armings fresh_new (by omega)
  have hfresh : Fresh e := fresh_step.run fresh_new hlegal
  refine ⟨hfresh.nodup, hfresh.bound, hfresh.wf.keys, fun token htoken hdead => ?_⟩
  refine ⟨onTimer_dead e hdead, forgetTimer_dead hfresh.wf hdead, fun later hlater => ?_⟩
  have hboth : operations.Legal (new : Engine α) (ops ++ later) :=
    legal_of_armings fresh_new (by omega)
  rw [Machine.legal_append] at hboth
  exact dead_run hfresh hboth.2 ((issued_bound fresh_new hlegal).2 token htoken) hdead

/-- A Hold of A, and a chord of B and C. -/
def holdAndChord : List (Binding Unit) :=
  [⟨.combo ⟨[.key 0x41]⟩, (), true, .always, .hold 200, false, false, none⟩,
    ⟨.chord [.key 0x42, .key 0x43] 50, (), true, .always, .immediate, false, false, none⟩]

/-- A is let go before its Hold is due, B and C complete the chord, and A goes down
again. -/
def holdThenChord : List (Op Unit) :=
  [(0x41, .down), (0x41, .up), (0x42, .down), (0x43, .down), (0x42, .up), (0x43, .up),
    (0x41, .down)].zipIdx.map fun x =>
      .key ⟨x.1.1, x.1.2⟩ holdAndChord ⟨x.2, fun _ => false, ⟨none, none, id⟩⟩

/-- The first Hold's timer and the chord's come back too late, or are refused: nothing
fires, and the second Hold waits on. -/
theorem tokens_fresh_holdThenChord :
    let e := operations.run new holdThenChord
    let early : List TimerToken := [⟨0, .gesture 0x41, 1⟩, ⟨0, .chord, 5⟩]
    (new : Engine Unit).issued holdThenChord = early ++ [⟨0, .gesture 0x41, 10⟩] ∧
      e.timed.map TimerRequest.token = [⟨0, .gesture 0x41, 10⟩] ∧
      ∀ token ∈ early, e.onTimer token = (e, []) ∧ e.forgetTimer token = (e, false) ∧
        (operations.run e holdThenChord).isLive token = false := by
  intro e early
  have hissued : (new : Engine Unit).issued holdThenChord =
      early ++ [⟨0, .gesture 0x41, 10⟩] := by decide +kernel
  have hfew : (new : Engine Unit).armingsOf holdThenChord < 2 ^ 64 := by decide +kernel
  have htwice : (new : Engine Unit).armingsOf (holdThenChord ++ holdThenChord) < 2 ^ 64 := by
    decide +kernel
  have hdead : ∀ token ∈ early, e.isLive token = false := by decide +kernel
  refine ⟨hissued, by decide +kernel, fun token htoken => ?_⟩
  have hin : token ∈ (new : Engine Unit).issued holdThenChord := by
    rw [hissued]
    exact List.mem_append_left _ htoken
  obtain ⟨-, -, -, hinert⟩ := tokens_fresh hfew
  obtain ⟨htimer, hforget, hlater⟩ := hinert token hin (hdead token htoken)
  exact ⟨htimer, hforget, hlater holdThenChord htwice⟩

end KeySwitch.Engine
