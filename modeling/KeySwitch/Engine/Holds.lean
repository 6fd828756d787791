import KeySwitch.Engine.TimerCoverage

/-!
# Where Holds and deadlines come from

Two readings of the pending gestures that no call but an arming adds to: the
requests of the Holds, held or due (`holds`), and the deadlines (`Within`).
Both follow from one statement of what a call does to the presses: each press
after it was armed by it, was there, was there with its Hold, or opens a window
with a deadline its press had before (`Grown`).

The terms of a loaded list are bounded, so every deadline lies within the longest
term of the time it was set at.
-/

namespace KeySwitch.Engine

open Data Lib

variable {α : Type}

namespace Gestures

/-- The requests of the Holds, held or due. -/
def holds (generation : Nat) (g : Gestures α) : List TimerRequest :=
  (g.presses.filter fun p => p.phase.isHeld).flatMap (Press.timed generation)
    ++ g.dueHolds.map (DueHold.timed generation)

/-- No deadline is after `bound`. -/
structure Within (bound : Instant) (g : Gestures α) : Prop where
  presses : ∀ p ∈ g.presses, ∀ due ∈ p.phase.deadlines, due ≤ bound
  dueHolds : ∀ h ∈ g.dueHolds, h.due ≤ bound

theorem within_new (bound : Instant) : Within bound (new : Gestures α) :=
  ⟨by simp [new], by simp [new]⟩

theorem within_mono {bound bound' : Instant} {g : Gestures α} (h : Within bound g)
    (hle : bound ≤ bound') : Within bound' g :=
  ⟨fun p hp due hdue => Nat.le_trans (h.presses p hp due hdue) hle,
    fun d hd => Nat.le_trans (h.dueHolds d hd) hle⟩

theorem mem_holds {generation : Nat} {g : Gestures α} {r : TimerRequest} :
    r ∈ g.holds generation ↔
      (∃ p ∈ g.presses, p.phase.isHeld = true ∧ r ∈ p.timed generation) ∨
        ∃ h ∈ g.dueHolds, h.timed generation = r := by
  unfold holds
  rw [List.mem_append, List.mem_flatMap, List.mem_map]
  simp only [List.mem_filter, and_assoc]

theorem holds_timed {generation : Nat} {g : Gestures α} {r : TimerRequest}
    (h : r ∈ g.holds generation) : r ∈ g.timed generation := by
  rcases mem_holds.mp h with ⟨p, hp, -, hr⟩ | ⟨d, hd, rfl⟩
  · exact List.mem_append_left _ (List.mem_flatMap.mpr ⟨p, hp, hr⟩)
  · exact List.mem_append_right _ (List.mem_map_of_mem hd)

/-! ## What an operation does to the presses -/

/-- Where a press after an operation comes from. -/
inductive Origin (armed : Press α → Prop) (g : Gestures α) (q : Press α) : Prop
  | armed (h : armed q)
  | stayed (h : q ∈ g.presses)
  /-- Its timer was refused. -/
  | dropped (p : Press α) (hp : p ∈ g.presses) (h : q = dropHold p)
  /-- Its key went up in time. -/
  | window (p : Press α) (hp : p ∈ g.presses) (hwaits : q.phase.isHeld = false)
      (hdue : ∀ due ∈ q.phase.deadlines, due ∈ p.phase.deadlines)

/-- Where the pending gestures after an operation come from. -/
structure Grown (armed : Press α → Prop) (g g' : Gestures α) : Prop where
  presses : ∀ q ∈ g'.presses, Origin armed g q
  dueHolds : ∀ h ∈ g'.dueHolds, h ∈ g.dueHolds ∨
    ∃ p ∈ g.presses, ∃ tap double, p.phase = .held tap (some (h.due, h.action)) double ∧
      p.vk = h.vk ∧ p.seq = h.seq

variable {armed : Press α → Prop}

theorem grown_of_sublist {g g' : Gestures α} (hp : g'.presses.Sublist g.presses)
    (hh : g'.dueHolds.Sublist g.dueHolds) : Grown armed g g' :=
  ⟨fun _ hq => .stayed (hp.subset hq), fun _ hd => Or.inl (hh.subset hd)⟩

theorem origin_mono {g g' : Gestures α} (hp : g'.presses ⊆ g.presses) {q : Press α}
    (h : Origin armed g' q) : Origin armed g q := by
  cases h with
  | armed h => exact .armed h
  | stayed h => exact .stayed (hp h)
  | dropped p hmem h => exact .dropped p (hp hmem) h
  | window p hmem hwaits hdue => exact .window p (hp hmem) hwaits hdue

/-- After entries were taken out, the rest is as if they had not been there. -/
theorem grown_after {g g' g'' : Gestures α} (h : Grown armed g' g'')
    (hp : g'.presses.Sublist g.presses) (hh : g'.dueHolds.Sublist g.dueHolds) :
    Grown armed g g'' := by
  refine ⟨fun q hq => origin_mono hp.subset (h.presses q hq), fun d hd => ?_⟩
  rcases h.dueHolds d hd with hd | ⟨p, hmem, hrest⟩
  · exact Or.inl (hh.subset hd)
  · exact Or.inr ⟨p, hp.subset hmem, hrest⟩

/-- **No Hold comes from nowhere.** -/
theorem holds_grown {generation : Nat} {g g' : Gestures α} (h : Grown armed g g')
    {r : TimerRequest} (hr : r ∈ g'.holds generation) :
    (∃ q, armed q ∧ r ∈ q.timed generation) ∨ r ∈ g.holds generation := by
  rcases mem_holds.mp hr with ⟨q, hq, hheld, hr⟩ | ⟨d, hd, rfl⟩
  · cases h.presses q hq with
    | armed harmed => exact Or.inl ⟨q, harmed, hr⟩
    | stayed hmem => exact Or.inr (mem_holds.mpr (Or.inl ⟨q, hmem, hheld, hr⟩))
    | dropped p hp heq =>
      subst heq
      rcases timed_dropHold generation p with hnone | hsame
      · rw [hnone] at hr
        exact absurd hr List.not_mem_nil
      · rw [hsame] at hr
        have hheld' : p.phase.isHeld = true := by
          unfold dropHold at hheld
          split at hheld
          · next hphase => rw [hphase]; rfl
          · exact hheld
        exact Or.inr (mem_holds.mpr (Or.inl ⟨p, hp, hheld', hr⟩))
    | window p _ hwaits _ =>
      rw [hheld] at hwaits
      exact absurd hwaits (by decide)
  · rcases h.dueHolds d hd with hd | ⟨p, hp, tap, double, hphase, hvk, hseq⟩
    · exact Or.inr (mem_holds.mpr (Or.inr ⟨d, hd, rfl⟩))
    · refine Or.inr (mem_holds.mpr (Or.inl ⟨p, hp, by rw [hphase]; rfl, ?_⟩))
      rw [timedOf_held generation hphase, hvk, hseq]
      exact List.mem_singleton.mpr rfl

theorem dropHold_deadlines (p : Press α) : ∀ due ∈ (dropHold p).phase.deadlines,
    due ∈ p.phase.deadlines := by
  intro due hdue
  unfold dropHold at hdue
  split at hdue
  · next hphase =>
    rw [hphase]
    exact List.mem_append_right _ hdue
  · exact hdue

/-- **No deadline comes from nowhere.** -/
theorem within_grown {bound : Instant} {g g' : Gestures α} (h : Grown armed g g')
    (hwithin : Within bound g)
    (harmed : ∀ q, armed q → ∀ due ∈ q.phase.deadlines, due ≤ bound) : Within bound g' := by
  refine ⟨fun q hq due hdue => ?_, fun d hd => ?_⟩
  · cases h.presses q hq with
    | armed h => exact harmed q h due hdue
    | stayed hmem => exact hwithin.presses q hmem due hdue
    | dropped p hp heq =>
      subst heq
      exact hwithin.presses p hp due (dropHold_deadlines p due hdue)
    | window p hp _ hdues => exact hwithin.presses p hp due (hdues due hdue)
  · rcases h.dueHolds d hd with hd | ⟨p, hp, tap, double, hphase, -, -⟩
    · exact hwithin.dueHolds d hd
    · refine hwithin.presses p hp d.due ?_
      rw [hphase]
      exact List.mem_append_left _ (by simp)

/-! ## The operations -/

/-- A press that a key-down arms, with the due time of its Hold as returned. -/
def ArmedBy (vk : VirtualKey) (group : Option (GroupArming α)) (now : Instant) (seq : Nat)
    (due : Option Instant) (q : Press α) : Prop :=
  ∃ gr, group = some gr ∧ q = ⟨vk, seq, Gestures.armed gr now⟩ ∧
    due = gr.hold.map fun (term, _) => now + term

theorem arm_grown (g : Gestures α) (vk : VirtualKey) (group : Option (GroupArming α))
    (now : Instant) (seq : Nat) :
    Grown (ArmedBy vk group now seq (g.arm vk group now seq).2) g (g.arm vk group now seq).1 := by
  unfold arm
  cases group with
  | none => exact grown_of_sublist (List.Sublist.refl _) (List.Sublist.refl _)
  | some group =>
    refine ⟨fun q hq => ?_, fun d hd => Or.inl hd⟩
    rcases List.mem_append.mp hq with hq | hq
    · exact .stayed hq
    · exact .armed ⟨group, rfl, List.mem_singleton.mp hq, rfl⟩

/-- A Hold that goes to the due Holds, then an operation on what is left. -/
theorem moveHold_grown {g g' : Gestures α} {p : Press α} (hmem : p ∈ g.presses)
    {presses : List (Press α)} (hsub : presses.Sublist g.presses) {tap : Option (Instant × α)}
    {due : Instant} {action : α} {double : Option (Instant × α × GroupKey)}
    (hp : p.phase = .held tap (some (due, action)) double)
    (h : Grown armed ⟨presses, g.dueHolds ++ [⟨p.vk, p.seq, due, action⟩]⟩ g') :
    Grown armed g g' := by
  refine ⟨fun q hq => origin_mono hsub.subset (h.presses q hq), fun d hd => ?_⟩
  rcases h.dueHolds d hd with hd | ⟨p', hp', hrest⟩
  · rcases List.mem_append.mp hd with hd | hd
    · exact Or.inl hd
    · obtain rfl := List.mem_singleton.mp hd
      exact Or.inr ⟨p, hmem, tap, double, hp, rfl, rfl⟩
  · exact Or.inr ⟨p', hsub.subset hp', hrest⟩

theorem press_grown (g : Gestures α) (vk : VirtualKey) (group : Option (GroupArming α))
    (now : Instant) (seq : Nat) :
    Grown (ArmedBy vk group now seq (g.press vk group now seq).2.2) g
      (g.press vk group now seq).1 := by
  unfold press
  dsimp only
  split
  · exact arm_grown g vk group now seq
  · next earlier hfound =>
    obtain ⟨as, bs, hsplit, -, hvk, -, -⟩ := find?_split hfound
    obtain rfl : earlier.vk = vk := beq_iff_eq.mp hvk
    have hmem : earlier ∈ g.presses := by simp [hsplit]
    have hsub : (g.presses.eraseP fun p => p.vk == earlier.vk).Sublist g.presses :=
      List.eraseP_sublist
    have hrest := grown_after (g := g)
      (arm_grown { g with presses := g.presses.eraseP fun p => p.vk == earlier.vk } earlier.vk
        group now seq) hsub (List.Sublist.refl _)
    unfold supersede
    split
    · split
      · exact grown_of_sublist hsub (List.Sublist.refl _)
      · exact hrest
    · next tap hold double hphase =>
      cases hold with
      | none => exact hrest
      | some entry =>
        obtain ⟨due, action⟩ := entry
        dsimp only
        split
        · have hmoved := moveHold_grown hmem hsub hphase
            (arm_grown ⟨g.presses.eraseP fun p => p.vk == earlier.vk,
              g.dueHolds ++ [⟨earlier.vk, earlier.seq, due, action⟩]⟩ earlier.vk group now seq)
          exact hmoved
        · exact hrest

theorem releaseInTime_grown (g : Gestures α) {p : Press α} (hmem : p ∈ g.presses)
    {presses : List (Press α)} (hsub : presses.Sublist g.presses) (vk : VirtualKey)
    (now : Instant) (passed : Bool) (seq : Nat) (tap : Option (Instant × α)) (hadHold : Bool)
    {hold : Option (Instant × α)} {tap' : Option (Instant × α)}
    {double : Option (Instant × α × GroupKey)} (hp : p.phase = .held tap' hold double) :
    Grown armed g
      (releaseInTime { g with presses := presses } vk now passed seq tap hadHold double).1 := by
  unfold releaseInTime
  dsimp only
  split
  · next due action group htime =>
    refine ⟨fun q hq => ?_, fun d hd => Or.inl hd⟩
    rcases List.mem_append.mp hq with hq | hq
    · exact .stayed (hsub.subset hq)
    · obtain rfl := List.mem_singleton.mp hq
      refine .window p hmem rfl fun d hd => ?_
      obtain rfl := List.mem_singleton.mp hd
      have hdouble : double = some (d, action, group) := (Option.filter_eq_some_iff.mp htime).1
      rw [hp, hdouble]
      exact List.mem_append_right _ (by simp)
  · exact grown_of_sublist hsub (List.Sublist.refl _)

theorem release_grown (g : Gestures α) (vk : VirtualKey) (now : Instant) (passed : Bool)
    (seq : Nat) : Grown armed g (g.release vk now passed seq).1 := by
  unfold release
  dsimp only
  split
  · exact grown_of_sublist (List.Sublist.refl _) (List.Sublist.refl _)
  · next press hfound =>
    obtain ⟨as, bs, hsplit, -, hours, -, -⟩ := find?_split hfound
    rw [Bool.and_eq_true, beq_iff_eq] at hours
    obtain rfl : press.vk = vk := hours.1
    have hmem : press ∈ g.presses := by simp [hsplit]
    have hsub : (g.presses.eraseP fun p => p.vk == press.vk && p.phase.isHeld).Sublist g.presses :=
      List.eraseP_sublist
    unfold resolve
    split
    · exact grown_of_sublist hsub (List.Sublist.refl _)
    · next tap due action double hphase =>
      split
      · exact moveHold_grown hmem hsub hphase
          (grown_of_sublist (List.Sublist.refl _) (List.Sublist.refl _))
      · exact releaseInTime_grown g hmem hsub _ _ _ _ _ _ hphase
    · next tap double hphase => exact releaseInTime_grown g hmem hsub _ _ _ _ _ _ hphase

theorem onTimer_grown (g : Gestures α) (vk : VirtualKey) (seq : Nat) :
    Grown armed g (g.onTimer vk seq).1 := by
  unfold onTimer
  split
  · exact grown_of_sublist (List.Sublist.refl _) (List.Sublist.refl _)
  · next g' due action htake =>
    unfold takeTimer at htake
    split at htake
    · obtain ⟨rfl, -⟩ := Prod.mk.inj (Option.some.inj htake)
      exact grown_of_sublist List.filter_sublist List.eraseP_sublist
    · split at htake
      · exact absurd htake (by simp)
      · split at htake
        · obtain ⟨rfl, -⟩ := Prod.mk.inj (Option.some.inj htake)
          exact grown_of_sublist (List.filter_sublist.trans List.eraseP_sublist)
            (List.Sublist.refl _)
        · exact absurd htake (by simp)

theorem forget_grown (g : Gestures α) (vk : VirtualKey) (seq : Nat) :
    Grown armed g (g.forget vk seq).1 := by
  unfold forget
  dsimp only
  split
  · exact grown_of_sublist (List.Sublist.refl _) List.filter_sublist
  · split
    · exact grown_of_sublist (List.Sublist.refl _) (List.Sublist.refl _)
    · next press hfound =>
      obtain ⟨as, bs, hsplit, -, -, -, hmodify⟩ := find?_split hfound
      have hmem : press ∈ g.presses := by simp [hsplit]
      split
      · exact grown_of_sublist (List.Sublist.refl _) (List.Sublist.refl _)
      · split
        · exact grown_of_sublist List.eraseP_sublist (List.Sublist.refl _)
        · refine ⟨fun q hq => ?_, fun d hd => Or.inl hd⟩
          rw [hmodify] at hq
          rcases List.mem_append.mp hq with hq | hq
          · exact .stayed (by rw [hsplit]; exact List.mem_append_left _ hq)
          · rcases List.mem_cons.mp hq with rfl | hq
            · exact .dropped press hmem rfl
            · refine .stayed ?_
              rw [hsplit]
              exact List.mem_append_right _ (List.mem_cons_of_mem _ hq)

theorem press_due {g : Gestures α} {vk : VirtualKey} {group : Option (GroupArming α)}
    {now : Instant} {seq : Nat} {due : Instant} (h : (g.press vk group now seq).2.2 = some due) :
    ∃ gr, group = some gr ∧ ∃ x ∈ gr.hold, due = now + x.1 := by
  have harm : ∀ g' : Gestures α, (g'.arm vk group now seq).2 = some due →
      ∃ gr, group = some gr ∧ ∃ x ∈ gr.hold, due = now + x.1 := by
    intro g' harm
    unfold arm at harm
    cases group with
    | none => exact absurd harm (by simp)
    | some gr =>
      obtain ⟨x, hx, hdue⟩ := Option.map_eq_some_iff.mp harm
      exact ⟨gr, rfl, x, hx, hdue.symm⟩
  unfold press at h
  dsimp only at h
  split at h
  · exact harm _ h
  · unfold supersede at h
    split at h
    · split at h
      · exact absurd h (by simp)
      · exact harm _ h
    · exact harm _ h

/-- The window a key-up opens closes at a deadline its press had. -/
theorem release_due {g : Gestures α} {vk : VirtualKey} {now : Instant} {passed : Bool}
    {seq : Nat} {due : Instant} (h : (g.release vk now passed seq).2.windowDue = some due) :
    ∃ p ∈ g.presses, due ∈ p.phase.deadlines := by
  have hinTime : ∀ (g' : Gestures α) (tap : Option (Instant × α)) (hadHold : Bool)
      (double : Option (Instant × α × GroupKey)),
      (g'.releaseInTime vk now passed seq tap hadHold double).2.windowDue = some due →
      ∃ action group, double = some (due, action, group) := by
    intro g' tap hadHold double hdue
    unfold releaseInTime at hdue
    dsimp only at hdue
    split at hdue
    · next due' action group htime =>
      obtain ⟨_, -, rfl⟩ := Option.map_eq_some_iff.mp hdue
      exact ⟨action, group, (Option.filter_eq_some_iff.mp htime).1⟩
    · exact absurd hdue (by simp)
  unfold release at h
  dsimp only at h
  split at h
  · exact absurd h (by simp [Released.default])
  · next press hfound =>
    have hmem : press ∈ g.presses := List.mem_of_find?_eq_some hfound
    unfold resolve at h
    split at h
    · exact absurd h (by simp [Released.default])
    · next tap due' action double hphase =>
      split at h
      · exact absurd h (by simp)
      · obtain ⟨action, group, hdouble⟩ := hinTime _ _ _ _ h
        refine ⟨press, hmem, ?_⟩
        rw [hphase, hdouble]
        exact List.mem_append_right _ (by simp)
    · next tap double hphase =>
      obtain ⟨action, group, hdouble⟩ := hinTime _ _ _ _ h
      refine ⟨press, hmem, ?_⟩
      rw [hphase, hdouble]
      exact List.mem_append_right _ (by simp)

end Gestures

/-! ## The terms of a list -/

/-- The term, window or gap of a binding. -/
def termOf (b : Binding α) : Duration :=
  match b.kind with
  | .combo _ =>
    match b.trigger with
    | .immediate => 0
    | .tap ms | .hold ms | .doubleTap ms => fromMillis ms
  | .sequence _ maxGap => maxGap
  | .chord _ window => window

/-- The deferred gestures of a group have terms of the list. -/
theorem group_terms {longest : Duration} {bindings : List (Binding α)}
    (hterms : ∀ b ∈ bindings, termOf b ≤ longest) {vk : VirtualKey} {held : KeyState}
    {w : Winner α} (hw : Elected vk bindings held w) {group : GroupArming α}
    (h : w.deferredGroup vk bindings held = some group) :
    (∀ x ∈ group.hold, x.1 ≤ longest) ∧ ∀ x ∈ group.doubleTap, x.1 ≤ longest := by
  refine Winner.deferredGroup_induct
    (P := fun gr => (∀ x ∈ gr.hold, x.1 ≤ longest) ∧ ∀ x ∈ gr.doubleTap, x.1 ≤ longest) hw h
    (fun keys condition => ⟨by simp, by simp⟩) ?_
  rintro group b ⟨hhold, hdouble⟩ hb ⟨combo, hkind⟩
  have hterm := hterms b hb
  unfold termOf at hterm
  rw [hkind] at hterm
  unfold GroupArming.join
  split
  · exact ⟨hhold, hdouble⟩
  · next ms htrigger =>
    rw [htrigger] at hterm
    refine ⟨fun x hx => ?_, hdouble⟩
    obtain rfl := Option.some.inj hx
    exact hterm
  · next ms htrigger =>
    rw [htrigger] at hterm
    refine ⟨hhold, fun x hx => ?_⟩
    obtain rfl := Option.some.inj hx
    exact hterm
  · exact ⟨hhold, hdouble⟩

theorem Sequences.start_due {s : Sequences α} {held : KeyState} {action : α}
    {first : KeyCombination} {steps : List KeyCombination} {maxGap : Duration} {now : Instant}
    {seq : Nat} {due : Instant}
    (h : (s.start held action first steps maxGap now seq).2 = .advanced due) :
    due = now + maxGap := by
  unfold start at h
  split at h
  · split at h
    · exact absurd h (by simp)
    · exact (SequenceOutcome.advanced.inj h).symm
  · exact absurd h (by simp)

/-- A step is waited for as long as the gap allows. -/
theorem Sequences.onKeyDown_due (s : Sequences α) (held : KeyState) (action : α)
    (steps : List KeyCombination) (maxGap : Duration) (now : Instant) (seq : Nat) :
    ∀ due, (s.onKeyDown held action steps maxGap now seq).2 = .advanced due →
      due = now + maxGap := by
  intro due h
  unfold onKeyDown at h
  split at h
  · exact absurd h (by simp)
  · dsimp only at h
    split at h
    · split at h
      · split at h
        · exact absurd h (by simp)
        · exact (SequenceOutcome.advanced.inj h).symm
      · exact start_due h
    · exact start_due h

/-- A chord is waited for as long as its window. -/
theorem Chords.onKeyDown_due (c : Chords α) (vk : VirtualKey) (action : α)
    (chordKeys : List KeySpec) (window : Duration) (now : Instant) (seq : Nat) :
    ∀ due, (c.onKeyDown vk action chordKeys window now seq).2 = .started due →
      due = now + window := by
  intro due h
  unfold onKeyDown at h
  split at h
  · exact absurd h (by simp)
  · dsimp only at h
    split at h
    · next entry _ =>
      generalize (if entry.seen.contains vk then entry.seen else entry.seen ++ [vk]) = seen at h
      split at h
      · exact absurd h (by simp)
      · exact absurd h (by simp)
    · exact (ChordOutcome.started.inj h).symm

/-- The visit of a binding requests one timer at most, for its own term. -/
theorem visit_timers (k : KeyDown α) (acc : Engine α × Decision α) (entry : Binding α × Nat) :
    (visit k acc entry).2.timers = acc.2.timers ∨
      ∃ r, (visit k acc entry).2.timers = acc.2.timers ++ [r] ∧
        r.due = k.env.now + termOf entry.1 := by
  unfold visit
  split
  · split
    · unfold visitBlocker
      split
      · split
        · exact Or.inl rfl
        · split <;> exact Or.inl rfl
      · exact Or.inl rfl
    · exact Or.inl (visitCombo_same k entry.2 entry.1 acc.1 acc.2).2
  · next steps maxGap hkind =>
    have hterm : termOf entry.1 = maxGap := by
      unfold termOf
      rw [hkind]
    have hdue := Sequences.onKeyDown_due acc.1.sequences acc.1.keys entry.1.action steps maxGap
      k.env.now acc.1.ids.nextSeq.1
    unfold visitSequence
    split
    · exact Or.inl rfl
    · dsimp only
      split
      · exact Or.inl rfl
      · next due houtcome =>
        refine Or.inr ⟨_, rfl, ?_⟩
        rw [hterm]
        exact hdue due houtcome
      · exact Or.inl rfl
  · next keys window hkind =>
    have hterm : termOf entry.1 = window := by
      unfold termOf
      rw [hkind]
    have hdue := Chords.onKeyDown_due acc.1.chords k.vk entry.1.action keys window k.env.now
      acc.1.ids.nextSeq.1
    unfold visitChord
    split
    · exact Or.inl rfl
    · dsimp only
      split
      · exact Or.inl rfl
      · exact Or.inl rfl
      · next due houtcome =>
        refine Or.inr ⟨_, rfl, ?_⟩
        rw [hterm]
        exact hdue due houtcome
      · exact Or.inl rfl

/-- The visits keep the requests made before them, and request timers for the
terms of the list. -/
theorem visits_timers {longest : Duration} (k : KeyDown α) (entries : List (Binding α × Nat))
    (hterms : ∀ entry ∈ entries, termOf entry.1 ≤ longest) (acc : Engine α × Decision α) :
    acc.2.timers ⊆ (entries.foldl (visit k) acc).2.timers ∧
      ∀ r ∈ (entries.foldl (visit k) acc).2.timers,
        r ∈ acc.2.timers ∨ r.due ≤ k.env.now + longest := by
  induction entries generalizing acc with
  | nil => exact ⟨List.Subset.refl _, fun r hr => Or.inl hr⟩
  | cons entry entries ih =>
    obtain ⟨hkeep, hbound⟩ :=
      ih (fun x hx => hterms x (List.mem_cons_of_mem _ hx)) (visit k acc entry)
    have hterm := hterms entry List.mem_cons_self
    rcases visit_timers k acc entry with hsame | ⟨r, hnew, hdue⟩
    · rw [hsame] at hkeep hbound
      exact ⟨hkeep, hbound⟩
    · rw [hnew] at hkeep hbound
      refine ⟨fun x hx => hkeep (List.mem_append_left _ hx), fun x hx => ?_⟩
      rcases hbound x hx with hx | hx
      · rcases List.mem_append.mp hx with hx | hx
        · exact Or.inl hx
        · rw [List.mem_singleton.mp hx, hdue]
          exact Or.inr (Nat.add_le_add_left hterm _)
      · exact Or.inr hx

/-! ## Any call -/

/-- The requests of the engine's Holds, held or due. -/
def holds (e : Engine α) : List TimerRequest := e.gestures.holds e.ids.generation

theorem holds_subset_timed (e : Engine α) : e.holds ⊆ e.timed := fun _ hr =>
  mem_timed.mpr (Or.inl (Gestures.holds_timed hr))

/-- What a call does to Holds and deadlines: a Hold is there after it only if it
was before or the call asks for its timer, and no deadline is after `bound`. -/
structure Bounds (bound : Instant) (e : Engine α) (acc : Engine α × Decision α) : Prop where
  holds : ∀ r ∈ acc.1.holds, r ∈ acc.2.timers ∨ r ∈ e.holds
  within : acc.1.gestures.Within bound
  timers : ∀ r ∈ acc.2.timers, r.due ≤ bound

theorem firstKeyDown_bounds {longest : Duration} {bound : Instant} {e : Engine α}
    (k : KeyDown α) {bindings : List (Binding α)}
    (hwinner : ∀ w ∈ k.winner, Elected k.vk bindings e.keys w)
    (hterms : ∀ b ∈ bindings, termOf b ≤ longest) (h : e.gestures.Within bound)
    (hnow : k.env.now + longest ≤ bound) : Bounds bound e (e.firstKeyDown k bindings) := by
  have hgroup : ∀ gr, (k.winner.bind fun w => w.deferredGroup k.vk bindings e.keys) = some gr →
      (∀ x ∈ gr.hold, x.1 ≤ longest) ∧ ∀ x ∈ gr.doubleTap, x.1 ≤ longest := by
    intro gr hgr
    obtain ⟨w, hw, hgroup⟩ := Option.bind_eq_some_iff.mp hgr
    exact group_terms hterms (hwinner w hw) hgroup
  have hpressed := Gestures.press_grown (e.gestures.otherKeyDown k.vk e.keys k.env.now).1 k.vk
    (k.winner.bind fun w => w.deferredGroup k.vk bindings e.keys) k.env.now e.ids.nextSeq.1
  have hgrown := Gestures.grown_after (g := e.gestures) hpressed List.filter_sublist
    (List.Sublist.refl _)
  refine ⟨fun r hr => ?_, ?_, fun r hr => ?_⟩
  · rcases Gestures.holds_grown hgrown hr with ⟨q, ⟨gr, hgr, rfl, hdue⟩, hr⟩ | hr
    · obtain ⟨htoken, hrdue⟩ := Press.mem_timed.mp hr
      obtain ⟨token, due⟩ := r
      obtain rfl : token = _ := htoken
      unfold Gestures.armed Phase.timerDue at hrdue
      cases hhold : gr.hold with
      | none => simp [hhold] at hrdue
      | some x =>
        rw [hhold] at hrdue hdue
        obtain rfl : k.env.now + x.1 = due := Option.some.inj hrdue
        refine Or.inl ?_
        unfold firstKeyDown
        dsimp only
        rw [hdue]
        exact List.mem_singleton.mpr rfl
    · exact Or.inr hr
  · refine Gestures.within_grown hgrown h ?_
    rintro q ⟨gr, hgr, rfl, -⟩ due hdue
    obtain ⟨hhold, hdouble⟩ := hgroup gr hgr
    rcases List.mem_append.mp hdue with hdue | hdue
    · rw [Option.map_map, Option.mem_toList] at hdue
      obtain ⟨x, hx, rfl⟩ := Option.map_eq_some_iff.mp hdue
      exact Nat.le_trans (Nat.add_le_add_left (hhold x hx) _) hnow
    · rw [Option.map_map, Option.mem_toList] at hdue
      obtain ⟨x, hx, rfl⟩ := Option.map_eq_some_iff.mp hdue
      exact Nat.le_trans (Nat.add_le_add_left (hdouble x hx) _) hnow
  · unfold firstKeyDown at hr
    dsimp only at hr
    rw [Option.mem_toList, Option.map_eq_some_iff] at hr
    obtain ⟨due, hdue, rfl⟩ := hr
    obtain ⟨gr, hgr, x, hx, rfl⟩ := Gestures.press_due hdue
    exact Nat.le_trans (Nat.add_le_add_left ((hgroup gr hgr).1 x hx) _) hnow

theorem onKey_bounds {longest : Duration} {bound : Instant} {e : Engine α} (event : KeyEvent)
    {bindings : List (Binding α)} {env : Env} (hterms : ∀ b ∈ bindings, termOf b ≤ longest)
    (h : e.gestures.Within bound) (hnow : env.now + longest ≤ bound) :
    Bounds bound e (e.onKey event bindings env) := by
  obtain ⟨vk, direction⟩ := event
  cases direction with
  | up =>
    -- A key-up arms no Hold, and asks only for the window its press brought.
    have hgrown : Gestures.Grown (fun _ => False) e.gestures (e.gestures.release vk env.now
        ((e.keys.release vk).isPassed vk) e.ids.nextSeq.1).1 :=
      Gestures.release_grown e.gestures vk env.now _ e.ids.nextSeq.1
    refine ⟨fun r hr => ?_, ?_, fun r hr => ?_⟩
    · rcases Gestures.holds_grown hgrown hr with ⟨q, hnone, -⟩ | hr
      · exact hnone.elim
      · exact Or.inr hr
    · exact Gestures.within_grown hgrown h fun q hnone => hnone.elim
    · have hr' : r ∈ ((e.gestures.release vk env.now ((e.keys.release vk).isPassed vk)
          e.ids.nextSeq.1).2.windowDue.map (e.ids.nextSeq.2.request (.gesture vk)
            e.ids.nextSeq.1)).toList := by
        unfold onKey onKeyUp at hr
        dsimp only at hr
        rw [maskIfSwallowedUnderAltOrWin_timers] at hr
        exact hr
      rw [Option.mem_toList, Option.map_eq_some_iff] at hr'
      obtain ⟨due, hdue, rfl⟩ := hr'
      obtain ⟨p, hp, hdeadline⟩ := Gestures.release_due hdue
      exact h.presses p hp due hdeadline
  | down =>
    -- The gestures are settled before the walk; the bindings visited only add timers in bounds.
    let pressed : Engine α := { e with
      maskOwed := false, resync := e.resync.event vk true,
      keys := ((e.keys.clearReleasedModifiers env vk .all).press vk).2 }
    let k : KeyDown α := ⟨vk, env, ((e.keys.clearReleasedModifiers env vk .all).press vk).1,
      elect vk bindings pressed.keys env.foreground⟩
    have hstart : Bounds bound e
        (if k.wasRepeat then (pressed, .default) else pressed.firstKeyDown k bindings) := by
      split
      · exact ⟨fun r hr => Or.inr hr, h, fun r hr => absurd hr List.not_mem_nil⟩
      · have hfirst := firstKeyDown_bounds (e := pressed) k (fun _ hw => elect_elected hw)
          hterms h hnow
        exact ⟨hfirst.holds, hfirst.within, hfirst.timers⟩
    obtain ⟨hkeep, hbound⟩ := visits_timers k bindings.zipIdx
      (fun entry hentry => hterms _ (List.fst_mem_of_mem_zipIdx hentry))
      (if k.wasRepeat then (pressed, .default) else pressed.firstKeyDown k bindings)
    have htimers : (e.onKey ⟨vk, .down⟩ bindings env).2.timers =
        (pressed.walk k bindings).2.timers := by
      unfold onKey onKeyDown
      dsimp only
      rw [maskIfSwallowedUnderAltOrWin_timers]
    have hgestures : (e.onKey ⟨vk, .down⟩ bindings env).1.gestures =
        (if k.wasRepeat then (pressed, .default) else pressed.firstKeyDown k bindings).1.gestures :=
      visits_gestures k bindings.zipIdx _
    have hgeneration : (e.onKey ⟨vk, .down⟩ bindings env).1.ids.generation =
        (if k.wasRepeat then (pressed, .default)
          else pressed.firstKeyDown k bindings).1.ids.generation :=
      (visits_frame k bindings.zipIdx _).2.2
    refine ⟨fun r hr => ?_, ?_, fun r hr => ?_⟩
    · unfold holds at hr
      rw [hgestures, hgeneration] at hr
      rw [htimers]
      rcases hstart.holds r hr with hr | hr
      · exact Or.inl (hkeep hr)
      · exact Or.inr hr
    · rw [hgestures]
      exact hstart.within
    · rw [htimers] at hr
      rcases hbound r hr with hr | hr
      · exact hstart.timers r hr
      · exact Nat.le_trans hr hnow

/-- A call that arms nothing. -/
theorem bounds_of_grown {bound : Instant} {e e' : Engine α} {fire : List α}
    (hgrown : Gestures.Grown (fun _ => False) e.gestures e'.gestures)
    (hgeneration : e'.ids.generation = e.ids.generation) (h : e.gestures.Within bound) :
    Bounds bound e (e', ⟨false, fire, [], false⟩) := by
  refine ⟨fun r hr => ?_, ?_, fun r hr => absurd hr List.not_mem_nil⟩
  · unfold holds at hr
    rw [hgeneration] at hr
    rcases Gestures.holds_grown hgrown hr with ⟨q, hnone, -⟩ | hr
    · exact hnone.elim
    · exact Or.inr hr
  · exact Gestures.within_grown hgrown h fun q hnone => hnone.elim

/-- **Any call but a key event sets no deadline and makes no Hold.** -/
theorem quiet_bounds {bound : Instant} {e : Engine α} (h : e.gestures.Within bound) (op : Op α)
    (hquiet : ∀ event bindings env, op ≠ .key event bindings env) :
    Bounds bound e (e.step op) := by
  have hsame : ∀ {e' : Engine α} {fire : List α}, e'.gestures = e.gestures →
      e'.ids.generation = e.ids.generation → Bounds bound e (e', ⟨false, fire, [], false⟩) := by
    intro e' fire hgestures hgeneration
    refine bounds_of_grown ?_ hgeneration h
    rw [hgestures]
    exact Gestures.grown_of_sublist (List.Sublist.refl _) (List.Sublist.refl _)
  cases op with
  | key event bindings env => exact absurd rfl (hquiet event bindings env)
  | timer token =>
    unfold step onTimer
    dsimp only
    split
    · exact hsame rfl rfl
    · split
      · exact bounds_of_grown (Gestures.onTimer_grown _ _ _) rfl h
      · exact hsame rfl rfl
      · exact hsame rfl rfl
  | forget token =>
    unfold step forgetTimer
    dsimp only
    split
    · exact hsame rfl rfl
    · split
      · exact bounds_of_grown (Gestures.forget_grown _ _ _) rfl h
      · exact hsame rfl rfl
      · exact hsame rfl rfl
  | reset env reason =>
    have hnew : (e.reset env reason).gestures = .new := by
      unfold reset
      cases reason <;> rfl
    refine ⟨fun r hr => ?_, ?_, fun r hr => absurd hr List.not_mem_nil⟩
    · unfold holds at hr
      have hnone : r ∈ (Gestures.new : Gestures α).holds (e.reset env reason).ids.generation := by
        rw [← hnew]
        exact hr
      exact absurd hnone List.not_mem_nil
    · show Gestures.Within bound (e.reset env reason).gestures
      rw [hnew]
      exact Gestures.within_new bound
  | foregroundChanged => exact hsame rfl rfl
  | resyncIfDue env notes =>
    unfold step resyncIfDue
    dsimp only
    split <;> exact hsame rfl rfl
  | inputReturned => exact hsame rfl rfl
  | trackInjected event => exact hsame rfl rfl

/-- Which Holds wait under a key and a number. -/
theorem Gestures.hold_cases {g : Gestures α} {generation : Nat} {vk : VirtualKey} {seq : Nat}
    {due : Instant} (h : ⟨⟨generation, .gesture vk, seq⟩, due⟩ ∈ g.holds generation) :
    (∃ p ∈ g.presses, p.vk = vk ∧ p.seq = seq ∧
      ∃ tap action double, p.phase = .held tap (some (due, action)) double) ∨
      ∃ d ∈ g.dueHolds, isDueHold vk seq d = true := by
  rcases mem_holds.mp h with ⟨p, hp, hheld, hr⟩ | ⟨d, hd, hr⟩
  · obtain ⟨htoken, hdue⟩ := Press.mem_timed.mp hr
    injection htoken with _ hslot hseq
    injection hslot with hvk
    refine Or.inl ⟨p, hp, hvk.symm, hseq.symm, ?_⟩
    unfold Phase.timerDue at hdue
    split at hdue
    · next tap due' action double hphase =>
      obtain rfl : due' = due := Option.some.inj hdue
      exact ⟨tap, action, double, hphase⟩
    · next hphase =>
      rw [hphase] at hheld
      exact absurd hheld (by simp [Phase.isHeld])
    · exact absurd hdue (by simp)
  · injection hr with htoken _
    injection htoken with _ hslot hseq
    injection hslot with hvk
    exact Or.inr ⟨d, hd, by simp [isDueHold, hvk, hseq]⟩

/-- A forgotten timer's Hold is gone: the one it was, as numbers tell. -/
theorem Gestures.forget_drops {g : Gestures α} (hwf : g.Wf)
    (hdistinct : ∀ p ∈ g.presses, p.phase.timerDue.isSome = true → ∀ d ∈ g.dueHolds, d.seq ≠ p.seq)
    {generation : Nat} {vk : VirtualKey} {seq : Nat} {due : Instant} :
    ⟨⟨generation, .gesture vk, seq⟩, due⟩ ∉ (g.forget vk seq).1.holds generation := by
  intro hr
  have hkeys : ∀ {as bs : List (Press α)} {press : Press α}, g.presses = as ++ press :: bs →
      ∀ p ∈ as ++ bs, p.vk ≠ press.vk := by
    intro as bs press hsplit
    have hkeys := hwf.keys
    rw [hsplit] at hkeys
    exact notMem_split hkeys
  unfold forget at hr
  dsimp only at hr
  split at hr
  · next hdue =>
    -- A due Hold has the number: it goes, and no press has the number too.
    obtain ⟨d, hd, hours⟩ := List.any_eq_true.mp hdue
    rcases hold_cases hr with ⟨p, hp, -, hseq, tap, action, double, hphase⟩ | ⟨d', hd', hours'⟩
    · simp only [isDueHold, Bool.and_eq_true, beq_iff_eq] at hours
      refine hdistinct p hp ?_ d hd (hours.2.trans hseq.symm)
      rw [hphase]
      rfl
    · have hnot := (List.mem_filter.mp hd').2
      rw [hours'] at hnot
      exact absurd hnot (by decide)
  · next hnoDue =>
    have hno : ∀ d ∈ g.dueHolds, isDueHold vk seq d ≠ true := fun d hd hours =>
      hnoDue (List.any_eq_true.mpr ⟨d, hd, hours⟩)
    split at hr
    · next hnone =>
      rcases hold_cases hr with ⟨p, hp, hvk, hseq, -⟩ | ⟨d, hd, hours⟩
      · have hnot := List.find?_eq_none.mp hnone p hp
        simp [hvk, hseq] at hnot
      · exact hno d hd hours
    · next press hfound =>
      obtain ⟨as, bs, hsplit, -, hours, herase, hmodify⟩ := find?_split hfound
      rw [Bool.and_eq_true, beq_iff_eq, beq_iff_eq] at hours
      have hmem : press ∈ g.presses := by simp [hsplit]
      split at hr
      · next hphase =>
        rcases hold_cases hr with ⟨p, hp, hvk, -, tap, action, double, hheld⟩ | ⟨d, hd, hours'⟩
        · have hsame : p = press :=
            List.inj_on_of_nodup_map hwf.keys hp hmem (hvk.trans hours.1.symm)
          rw [hsame, hphase] at hheld
          exact absurd hheld (by simp)
        · exact hno d hd hours'
      · next tap hold double hphase =>
        split at hr
        · rcases hold_cases hr with ⟨p, hp, hvk, -⟩ | ⟨d, hd, hours'⟩
          · rw [herase] at hp
            exact hkeys hsplit p hp (hvk.trans hours.1.symm)
          · exact hno d hd hours'
        · rcases hold_cases hr with ⟨p, hp, hvk, -, tap', action, double', hheld⟩ | ⟨d, hd, hours'⟩
          · rw [hmodify] at hp
            have hcases : p ∈ as ++ bs ∨ p = dropHold press := by
              simp only [List.mem_append, List.mem_cons] at hp ⊢
              tauto
            rcases hcases with hp | rfl
            · exact hkeys hsplit p hp (hvk.trans hours.1.symm)
            · unfold dropHold at hheld
              rw [hphase] at hheld
              exact absurd hheld (by simp)
          · exact hno d hd hours'

/-- **A forgotten timer's Hold is gone.** -/
theorem forgetTimer_drops {e : Engine α} (h : Fresh e) (token : TimerToken) :
    ∀ r ∈ (e.forgetTimer token).1.holds, r.token ≠ token := by
  rintro r hr rfl
  obtain ⟨⟨generation, slot, seq⟩, due⟩ := r
  unfold forgetTimer at hr
  dsimp only at hr
  split at hr
  · next hstale =>
    have hgeneration := (Gestures.timed_slot (Gestures.holds_timed hr)).1
    rw [show generation = e.ids.generation from hgeneration] at hstale
    simp at hstale
  · next hcurrent =>
    obtain ⟨-, vk, hslot⟩ := Gestures.timed_slot (Gestures.holds_timed hr)
    obtain rfl : slot = .gesture vk := hslot
    obtain rfl : generation = e.ids.generation := by simpa using hcurrent
    exact Gestures.forget_drops h.wf (dueHold_distinct h) hr

end KeySwitch.Engine
