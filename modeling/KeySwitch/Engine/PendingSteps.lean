import KeySwitch.Engine.Pending
import Mathlib.Data.List.Flatten

/-!
# What the operations do to the pending entries

For each operation of the three tables: apart from the requests it makes (`new`
below), no entry waits for a timer that none waited for before. For the
gestures the same steps keep two facts about presses (`Gestures.Wf`): one press
per key, and every held press with a gesture left to resolve to.
-/

namespace KeySwitch.Engine

open Data Lib

variable {α : Type}

/-! ## Gestures -/

/-- A held press has a gesture left to resolve to. -/
def Phase.Armed : Phase α → Prop
  | .held tap hold double => tap.isSome ∨ hold.isSome ∨ double.isSome
  | .awaitSecond .. => True

namespace Gestures

/-- One press per key, each with something left to resolve to. -/
structure Wf (g : Gestures α) : Prop where
  keys : (g.presses.map Press.vk).Nodup
  armed : ∀ p ∈ g.presses, p.phase.Armed

theorem wf_new : (new : Gestures α).Wf := ⟨List.nodup_nil, by simp [new]⟩

/-- What an operation that makes the requests `new` does to the gestures. -/
structure Step (generation : Nat) (requests : List TimerRequest) (g g' : Gestures α) : Prop where
  timed : (g'.timed generation).Subperm (requests ++ g.timed generation)
  wf : g.Wf → g'.Wf

variable {generation : Nat}

theorem step_trans {r₁ r₂ : List TimerRequest} {g₁ g₂ g₃ : Gestures α}
    (h₁ : Step generation r₁ g₁ g₂) (h₂ : Step generation r₂ g₂ g₃) :
    Step generation (r₂ ++ r₁) g₁ g₃ := by
  refine ⟨h₂.timed.trans ?_, fun h => h₂.wf (h₁.wf h)⟩
  rw [List.append_assoc]
  exact (List.subperm_append_left r₂).mpr h₁.timed

/-- An operation that only takes entries out. -/
theorem step_of_sublist {g g' : Gestures α} (hp : g'.presses.Sublist g.presses)
    (hh : g'.dueHolds.Sublist g.dueHolds) : Step generation [] g g' := by
  refine ⟨?_, fun h => ⟨h.keys.sublist (hp.map _), fun p hmem => h.armed p (hp.subset hmem)⟩⟩
  rw [List.nil_append]
  exact ((hp.flatMap _).append (hh.map _)).subperm

theorem step_refl (g : Gestures α) : Step generation [] g g :=
  step_of_sublist (List.Sublist.refl _) (List.Sublist.refl _)

variable (generation) in
theorem timedOf_held {p : Press α} {tap : Option (Instant × α)} {due : Instant} {action : α}
    {double : Option (Instant × α × GroupKey)}
    (hp : p.phase = .held tap (some (due, action)) double) :
    p.timed generation = [⟨⟨generation, .gesture p.vk, p.seq⟩, due⟩] := by
  unfold Press.timed
  rw [hp]
  rfl

variable (generation) in
/-- A Hold whose term has passed leaves its press for the due Holds, with its
number and its due time. -/
theorem step_moveHold {g : Gestures α} {as bs : List (Press α)} {p : Press α}
    (hsplit : g.presses = as ++ p :: bs) {tap : Option (Instant × α)} {due : Instant} {action : α}
    {double : Option (Instant × α × GroupKey)}
    (hp : p.phase = .held tap (some (due, action)) double) :
    Step generation [] g ⟨as ++ bs, g.dueHolds ++ [⟨p.vk, p.seq, due, action⟩]⟩ := by
  refine ⟨?_, fun h => ?_⟩
  · have htimed := timedOf_held generation hp
    refine List.Perm.subperm ?_
    rw [List.perm_iff_count]
    intro r
    simp only [Gestures.timed, hsplit, List.flatMap_append, List.flatMap_cons, htimed,
      List.map_append, List.map_cons, List.map_nil, DueHold.timed, List.nil_append,
      List.count_append]
    omega
  · refine ⟨?_, fun q hq => h.armed q ?_⟩
    · have hkeys := h.keys
      rw [hsplit] at hkeys
      exact nodup_split hkeys
    · rw [hsplit]
      rcases List.mem_append.mp hq with hq | hq
      · exact List.mem_append_left _ hq
      · exact List.mem_append_right _ (List.mem_cons_of_mem _ hq)

/-- Arming a press of a key that has none. -/
theorem arm_step (g : Gestures α) {vk : VirtualKey} {group : Option (GroupArming α)}
    (now : Instant) (seq : Nat) (hvk : ∀ p ∈ g.presses, p.vk ≠ vk)
    (hgroup : ∀ gr ∈ group, gr.Nonempty) :
    Step generation
      ((g.arm vk group now seq).2.map fun due => ⟨⟨generation, .gesture vk, seq⟩, due⟩).toList
      g (g.arm vk group now seq).1 := by
  unfold arm
  cases group with
  | none => exact step_refl g
  | some group =>
    refine ⟨?_, fun h => ⟨?_, fun p hp => ?_⟩⟩
    · refine List.Perm.subperm ?_
      rw [List.perm_iff_count]
      intro r
      have htimed : Press.timed generation (⟨vk, seq, armed group now⟩ : Press α) =
          ((group.hold.map fun x => now + x.1).map fun due =>
            (⟨⟨generation, .gesture vk, seq⟩, due⟩ : TimerRequest)).toList := by
        unfold Press.timed armed
        cases group.hold <;> rfl
      simp only [Gestures.timed, List.flatMap_append, List.flatMap_cons, List.flatMap_nil,
        List.append_nil, htimed, List.count_append]
      omega
    · exact nodup_snoc h.keys hvk
    · rcases List.mem_append.mp hp with hp | hp
      · exact h.armed p hp
      · rw [List.mem_singleton.mp hp]
        have hne := hgroup group rfl
        unfold GroupArming.Nonempty at hne
        simpa [armed, Phase.Armed] using hne

variable (generation) in
/-- A first key-down of `vk` makes one request at most, the one it returns. -/
theorem press_step {g : Gestures α} (hg : g.Wf) (vk : VirtualKey)
    {group : Option (GroupArming α)} (now : Instant) (seq : Nat)
    (hgroup : ∀ gr ∈ group, gr.Nonempty) :
    Step generation
      ((g.press vk group now seq).2.2.map fun due => ⟨⟨generation, .gesture vk, seq⟩, due⟩).toList
      g (g.press vk group now seq).1 := by
  unfold press
  dsimp only
  split
  · next hnone =>
    refine arm_step g now seq (fun p hp heq => ?_) hgroup
    have := List.find?_eq_none.mp hnone p hp
    simp [heq] at this
  · next earlier hfound =>
    obtain ⟨as, bs, hsplit, -, hvk, herase, -⟩ := find?_split hfound
    rw [beq_iff_eq] at hvk
    have hothers : ∀ p ∈ as ++ bs, p.vk ≠ vk := by
      have hkeys := hg.keys
      rw [hsplit] at hkeys
      rw [← hvk]
      exact notMem_split hkeys
    rw [herase]
    have hrest : Step generation [] g { g with presses := as ++ bs } := by
      refine step_of_sublist ?_ (List.Sublist.refl _)
      rw [hsplit]
      exact (List.Sublist.refl as).append (List.sublist_cons_self _ _)
    unfold supersede
    split
    · split
      · exact hrest
      · have h := step_trans hrest (arm_step { g with presses := as ++ bs } now seq hothers hgroup)
        rwa [List.append_nil] at h
    · next tap hold double hphase =>
      cases hold with
      | none =>
        have h := step_trans hrest (arm_step { g with presses := as ++ bs } now seq hothers hgroup)
        rwa [List.append_nil] at h
      | some entry =>
        obtain ⟨due, action⟩ := entry
        dsimp only
        split
        · -- The Hold in the way is due: it moves to the holds that wait for their timers.
          have hmove := step_moveHold generation hsplit hphase
          rw [hvk] at hmove
          have h := step_trans hmove (arm_step _ now seq hothers hgroup)
          rwa [List.append_nil] at h
        · have h := step_trans hrest
            (arm_step { g with presses := as ++ bs } now seq hothers hgroup)
          rwa [List.append_nil] at h

variable (generation) in
theorem otherKeyDown_step (g : Gestures α) (vk : VirtualKey) (keys : KeyState) (now : Instant) :
    Step generation [] g (g.otherKeyDown vk keys now).1 :=
  step_of_sublist List.filter_sublist (List.Sublist.refl _)

/-- What is left of a press at its key-up makes the request of its window, if
its Tap waits for it. -/
theorem releaseInTime_step {g : Gestures α} {vk : VirtualKey} (hvk : ∀ p ∈ g.presses, p.vk ≠ vk)
    (now : Instant) (passed : Bool) (seq : Nat) (tap : Option (Instant × α)) (hadHold : Bool)
    (double : Option (Instant × α × GroupKey)) :
    Step generation
      ((g.releaseInTime vk now passed seq tap hadHold double).2.windowDue.map fun due =>
        ⟨⟨generation, .gesture vk, seq⟩, due⟩).toList
      g (g.releaseInTime vk now passed seq tap hadHold double).1 := by
  unfold releaseInTime
  dsimp only
  split
  · next due action group _ =>
    refine ⟨?_, fun h => ⟨nodup_snoc h.keys hvk, fun p hp => ?_⟩⟩
    · refine List.Perm.subperm ?_
      rw [List.perm_iff_count]
      intro r
      have htimed : Press.timed generation (⟨vk, seq, .awaitSecond due action group
            ((inTime now tap).map Prod.snd) passed⟩ : Press α) =
          ((((inTime now tap).map Prod.snd).map fun _ => due).map fun due =>
            (⟨⟨generation, .gesture vk, seq⟩, due⟩ : TimerRequest)).toList := by
        unfold Press.timed
        cases (inTime now tap).map Prod.snd <;> rfl
      simp only [Gestures.timed, List.flatMap_append, List.flatMap_cons, List.flatMap_nil,
        List.append_nil, htimed, List.count_append]
      omega
    · rcases List.mem_append.mp hp with hp | hp
      · exact h.armed p hp
      · rw [List.mem_singleton.mp hp]
        trivial
  · exact step_refl g

variable (generation) in
/-- A key-up makes one request at most, the one it returns. -/
theorem release_step {g : Gestures α} (hg : g.Wf) (vk : VirtualKey) (now : Instant)
    (passed : Bool) (seq : Nat) :
    Step generation
      ((g.release vk now passed seq).2.windowDue.map fun due =>
        ⟨⟨generation, .gesture vk, seq⟩, due⟩).toList
      g (g.release vk now passed seq).1 := by
  unfold release
  dsimp only
  split
  · exact step_refl g
  · next press hfound =>
    obtain ⟨as, bs, hsplit, -, hours, herase, -⟩ := find?_split hfound
    rw [Bool.and_eq_true, beq_iff_eq] at hours
    have hothers : ∀ p ∈ as ++ bs, p.vk ≠ vk := by
      have hkeys := hg.keys
      rw [hsplit] at hkeys
      rw [← hours.1]
      exact notMem_split hkeys
    rw [herase]
    have hrest : Step generation [] g { g with presses := as ++ bs } := by
      refine step_of_sublist ?_ (List.Sublist.refl _)
      rw [hsplit]
      exact (List.Sublist.refl as).append (List.sublist_cons_self _ _)
    have hinTime : ∀ tap hadHold double, Step generation
        ((releaseInTime { g with presses := as ++ bs } vk now passed seq tap hadHold
          double).2.windowDue.map fun due => ⟨⟨generation, .gesture vk, seq⟩, due⟩).toList
        g
        (releaseInTime { g with presses := as ++ bs } vk now passed seq tap hadHold double).1 := by
      intro tap hadHold double
      have h := step_trans hrest (releaseInTime_step hothers now passed seq tap hadHold double)
      rwa [List.append_nil] at h
    unfold resolve
    split
    · exact hrest
    · next tap due action double hphase =>
      split
      · have h := step_moveHold generation hsplit hphase
        rw [hours.1] at h
        exact h
      · exact hinTime tap true double
    · exact hinTime _ false _

variable (generation) in
theorem fireClosedWindows_step (g : Gestures α) (now : Instant) :
    Step generation [] g (g.fireClosedWindows now).1 :=
  step_of_sublist List.filter_sublist (List.Sublist.refl _)

variable (generation) in
/-- The entry a timer takes out waited for that timer. -/
theorem takeTimer_some {g g' : Gestures α} {vk : VirtualKey} {seq : Nat} {due : Instant}
    {action : α} (h : g.takeTimer vk seq = some (g', due, action)) :
    Step generation [] g g' ∧
      (g.timed generation).Perm (⟨⟨generation, .gesture vk, seq⟩, due⟩ :: g'.timed generation) := by
  unfold takeTimer at h
  split at h
  · next hold hfound =>
    obtain ⟨as, bs, hsplit, -, hours, herase, -⟩ := find?_split hfound
    simp only [Option.some.injEq, Prod.mk.injEq] at h
    obtain ⟨rfl, rfl, -⟩ := h
    simp only [isDueHold, Bool.and_eq_true, beq_iff_eq] at hours
    obtain ⟨rfl, rfl⟩ := hours
    refine ⟨step_of_sublist (List.Sublist.refl _) List.eraseP_sublist, ?_⟩
    rw [List.perm_iff_count]
    intro r
    rw [herase]
    simp only [Gestures.timed, hsplit, List.map_append, List.map_cons, DueHold.timed,
      List.count_append, List.count_cons]
    omega
  · split at h
    · exact absurd h (by simp)
    · next press hfound =>
      obtain ⟨as, bs, hsplit, -, hours, herase, -⟩ := find?_split hfound
      split at h
      · next due' action' hdue haction =>
        simp only [Option.some.injEq, Prod.mk.injEq] at h
        obtain ⟨rfl, rfl, -⟩ := h
        simp only [awaitsTimer, Bool.and_eq_true, beq_iff_eq] at hours
        obtain ⟨⟨rfl, rfl⟩, -⟩ := hours
        refine ⟨step_of_sublist List.eraseP_sublist (List.Sublist.refl _), ?_⟩
        have htimed : press.timed generation =
            [⟨⟨generation, .gesture press.vk, press.seq⟩, due'⟩] := by
          unfold Press.timed
          rw [hdue]
          rfl
        rw [List.perm_iff_count]
        intro r
        rw [herase]
        simp only [Gestures.timed, hsplit, List.flatMap_append, List.flatMap_cons, htimed,
          List.count_append, List.count_cons, List.count_nil]
        omega
      · exact absurd h (by simp)

variable (generation) in
theorem onTimer_step (g : Gestures α) (vk : VirtualKey) (seq : Nat) :
    Step generation [] g (g.onTimer vk seq).1 := by
  unfold onTimer
  split
  · exact step_refl g
  · next g' due action htake =>
    exact step_trans (takeTimer_some generation htake).1 (fireClosedWindows_step generation g' due)

/-- A token that nothing waits for takes nothing out. -/
theorem takeTimer_none {g : Gestures α} {vk : VirtualKey} {seq : Nat}
    (h : g.isLive vk seq = false) : g.takeTimer vk seq = none := by
  unfold isLive at h
  rw [Bool.or_eq_false_iff] at h
  unfold takeTimer
  split
  · next hold hfound =>
    obtain ⟨as, bs, hsplit, -, hours, -, -⟩ := find?_split hfound
    have hany : g.dueHolds.any (isDueHold vk seq) = true := by
      rw [List.any_eq_true]
      exact ⟨hold, by simp [hsplit], hours⟩
    exact absurd (hany.symm.trans h.1) (by decide)
  · split
    · rfl
    · next press hfound =>
      obtain ⟨as, bs, hsplit, -, hours, -, -⟩ := find?_split hfound
      have hany : g.presses.any (awaitsTimer vk seq) = true := by
        rw [List.any_eq_true]
        exact ⟨press, by simp [hsplit], hours⟩
      exact absurd (hany.symm.trans h.2) (by decide)

theorem onTimer_none {g : Gestures α} {vk : VirtualKey} {seq : Nat}
    (h : g.isLive vk seq = false) : g.onTimer vk seq = (g, []) := by
  unfold onTimer
  rw [takeTimer_none h]

variable (generation) in
theorem timed_dropHold (p : Press α) :
    (dropHold p).timed generation = [] ∨ (dropHold p).timed generation = p.timed generation := by
  unfold dropHold
  split
  · exact Or.inl rfl
  · exact Or.inr rfl

variable (generation) in
/-- A refused timer takes its Hold out and adds nothing. -/
theorem forget_step (g : Gestures α) (vk : VirtualKey) (seq : Nat) :
    Step generation [] g (g.forget vk seq).1 := by
  unfold forget
  dsimp only
  split
  · exact step_of_sublist (List.Sublist.refl _) List.filter_sublist
  · split
    · exact step_refl g
    · next press hfound =>
      obtain ⟨as, bs, hsplit, -, -, -, hmodify⟩ := find?_split hfound
      split
      · exact step_refl g
      · next tap hold double hphase =>
        split
        · exact step_of_sublist List.eraseP_sublist (List.Sublist.refl _)
        · next hleft =>
          rw [hmodify]
          have hdrop : dropHold press = { press with phase := .held tap none double } := by
            unfold dropHold
            rw [hphase]
          refine ⟨?_, fun h => ⟨?_, fun p hp => ?_⟩⟩
          · rw [List.nil_append]
            refine List.Sublist.subperm ?_
            simp only [Gestures.timed, hsplit, List.flatMap_append, List.flatMap_cons]
            refine List.Sublist.append ?_ (List.Sublist.refl _)
            refine List.Sublist.append (List.Sublist.refl _) ?_
            refine List.Sublist.append ?_ (List.Sublist.refl _)
            rcases timed_dropHold generation press with ht | ht
            · rw [ht]
              exact List.nil_sublist _
            · rw [ht]
          · have hkeys := h.keys
            rw [hsplit] at hkeys
            simpa [hdrop] using hkeys
          · rcases List.mem_append.mp hp with hp | hp
            · exact h.armed p (by rw [hsplit]; exact List.mem_append_left _ hp)
            · rcases List.mem_cons.mp hp with rfl | hp
              · rw [hdrop]
                simp only [Bool.and_eq_true, Option.isNone_iff_eq_none, not_and] at hleft
                cases tap with
                | some t => exact Or.inl rfl
                | none =>
                  cases double with
                  | some d => exact Or.inr (Or.inr rfl)
                  | none => exact absurd rfl (hleft rfl)
              · exact h.armed p
                  (by rw [hsplit]; exact List.mem_append_right _ (List.mem_cons_of_mem _ hp))

/-- A token that nothing waits for is forgotten without a trace: a press that
holds no Hold keeps what else it is armed for. -/
theorem forget_none {g : Gestures α} (hg : g.Wf) {vk : VirtualKey} {seq : Nat}
    (h : g.isLive vk seq = false) : g.forget vk seq = (g, false) := by
  unfold isLive at h
  rw [Bool.or_eq_false_iff] at h
  unfold forget
  dsimp only
  rw [h.1, if_neg Bool.false_ne_true]
  split
  · rfl
  · next press hfound =>
    obtain ⟨as, bs, hsplit, -, hours, -, hmodify⟩ := find?_split hfound
    have hmem : press ∈ g.presses := by simp [hsplit]
    have hdue : press.phase.timerDue = none := by
      have hnot := List.any_eq_false.mp h.2 press hmem
      simp only [awaitsTimer, hours, Bool.true_and, Option.isNone_iff_eq_none,
        Bool.not_eq_true, Option.isSome_eq_false_iff] at hnot
      exact hnot
    split
    · rfl
    · next tap hold double hphase =>
      rw [hphase] at hdue
      cases hold with
      | some entry => simp [Phase.timerDue] at hdue
      | none =>
        have harmed := hg.armed press hmem
        rw [hphase] at harmed
        have hkeep : (tap.isNone && double.isNone) = false := by
          cases tap with
          | some t => rfl
          | none =>
            cases double with
            | some d => rfl
            | none => rcases harmed with h | h | h <;> simp at h
        rw [hkeep, if_neg Bool.false_ne_true, hmodify]
        have hdrop : dropHold press = press := by
          unfold dropHold
          rw [hphase]
          obtain ⟨vk', seq', phase⟩ := press
          obtain rfl : phase = .held tap none double := hphase
          rfl
        rw [hdrop, ← hsplit]
        rfl

end Gestures

/-! ## Chords and sequences -/

/-- The request a chord's outcome makes. -/
def ChordOutcome.requests (generation seq : Nat) : ChordOutcome α → List TimerRequest
  | .started due => [⟨⟨generation, .chord, seq⟩, due⟩]
  | _ => []

/-- The request a sequence's outcome makes. -/
def SequenceOutcome.requests (generation seq : Nat) : SequenceOutcome α → List TimerRequest
  | .advanced due => [⟨⟨generation, .sequence, seq⟩, due⟩]
  | _ => []

theorem Chords.onKeyDown_timed (c : Chords α) (generation : Nat) (vk : VirtualKey) (action : α)
    (chordKeys : List KeySpec) (window : Duration) (now : Instant) (seq : Nat) :
    ((c.onKeyDown vk action chordKeys window now seq).1.timed generation).Subperm
      ((c.onKeyDown vk action chordKeys window now seq).2.requests generation seq
        ++ c.timed generation) := by
  have hopen : ((c.retainOpen now).timed generation).Subperm (c.timed generation) :=
    (List.filter_sublist.map _).subperm
  unfold onKeyDown
  dsimp only
  split
  · exact List.Subperm.refl _
  · split
    · next entry hfound =>
      obtain ⟨as, bs, hsplit, -, -, herase, hmodify⟩ := find?_split hfound
      generalize (if entry.seen.contains vk then entry.seen else entry.seen ++ [vk]) = seen
      split
      · refine List.Subperm.trans ?_ hopen
        exact (List.eraseP_sublist.map _).subperm
      · refine List.Subperm.trans ?_ hopen
        refine List.Perm.subperm ?_
        rw [hmodify]
        unfold Chords.timed
        rw [hsplit]
        simp [PendingChord.timed]
    · refine List.Subperm.trans ?_ ((List.subperm_append_left _).mpr hopen)
      refine List.Perm.subperm ?_
      simp only [Chords.timed, List.map_append, List.map_cons, List.map_nil, PendingChord.timed,
        ChordOutcome.requests]
      exact List.perm_append_comm

theorem Sequences.start_timed (s : Sequences α) (generation : Nat) (held : KeyState) (action : α)
    (first : KeyCombination) (steps : List KeyCombination) (maxGap : Duration) (now : Instant)
    (seq : Nat) :
    ((s.start held action first steps maxGap now seq).1.timed generation).Subperm
      ((s.start held action first steps maxGap now seq).2.requests generation seq
        ++ s.timed generation) := by
  unfold start
  split
  · split
    · exact List.Subperm.refl _
    · refine List.Perm.subperm ?_
      simp only [Sequences.timed, List.map_append, List.map_cons, List.map_nil,
        PendingSequence.timed, SequenceOutcome.requests]
      exact List.perm_append_comm
  · exact List.Subperm.refl _

theorem Sequences.onKeyDown_timed (s : Sequences α) (generation : Nat) (held : KeyState)
    (action : α) (steps : List KeyCombination) (maxGap : Duration) (now : Instant) (seq : Nat) :
    ((s.onKeyDown held action steps maxGap now seq).1.timed generation).Subperm
      ((s.onKeyDown held action steps maxGap now seq).2.requests generation seq
        ++ s.timed generation) := by
  have hopen : ((s.retainOpen now).timed generation).Subperm (s.timed generation) :=
    (List.filter_sublist.map _).subperm
  unfold onKeyDown
  cases steps with
  | nil => exact List.Subperm.refl _
  | cons first rest =>
    dsimp only
    split
    · next entry hfound =>
      obtain ⟨as, bs, hsplit, -, -, herase, hmodify⟩ := find?_split hfound
      have herased : (Sequences.timed generation
          ⟨(s.retainOpen now).pending.eraseP fun p => stepsEq p.steps (first :: rest)⟩).Subperm
          (s.timed generation) := List.Subperm.trans (List.eraseP_sublist.map _).subperm hopen
      split
      · split
        · exact herased
        · refine List.Subperm.trans ?_ ((List.subperm_append_left _).mpr hopen)
          rw [hmodify]
          unfold Sequences.timed
          rw [hsplit]
          simp only [List.map_append, List.map_cons, PendingSequence.timed,
            SequenceOutcome.requests]
          rw [List.subperm_ext_iff]
          intro r _
          simp only [List.count_append, List.count_cons, List.count_nil]
          omega
      · refine List.Subperm.trans (start_timed _ generation held action _ _ maxGap now seq) ?_
        exact (List.subperm_append_left _).mpr herased
    · refine List.Subperm.trans (start_timed _ generation held action _ _ maxGap now seq) ?_
      exact (List.subperm_append_left _).mpr hopen

end KeySwitch.Engine
