import KeySwitch.Engine.Schedule

/-!
# No pending entry is left without its timer

The engine with a `TimerQueue`: each call's timers go through `startTimers`, each
request the queue hands out goes to `onTimer` at once. Then the requests of all
pending entries are in the queue, each as often as entries wait for it, and a
request whose entry still waits takes that entry out.

A call adds to the pending entries at most what it requests (`step_effect`), so
only the take needs an argument: `onTimer` finds its entry by key and number,
and where numbers have wrapped around, two entries may share them. It then takes
the one due first, because the clock does not go back: a Hold becomes a due Hold
once its term has passed, before any later press of its key (`InOrder`).
-/

namespace KeySwitch.Engine

open Data Lib

variable {α : Type}

/-! ## Deadlines of one key come in order -/

/-- The deadlines of a press that it can wait for, now or after its key-up. -/
def Phase.deadlines : Phase α → List Instant
  | .held _ hold double => (hold.map Prod.fst).toList ++ (double.map Prod.fst).toList
  | .awaitSecond due _ _ _ _ => [due]

theorem Phase.timerDue_mem {phase : Phase α} {due : Instant} (h : phase.timerDue = some due) :
    due ∈ phase.deadlines := by
  unfold timerDue at h
  unfold deadlines
  split at h
  · obtain rfl := Option.some.inj h
    exact List.mem_append_left _ (by simp)
  · obtain rfl := Option.some.inj h
    exact List.mem_singleton.mpr rfl
  · exact absurd h (by simp)

namespace Gestures

/-- Due Holds are due by the clock; those of one key stand in the order of their
due times, and no press of that key has an earlier deadline. -/
structure InOrder (clock : Instant) (g : Gestures α) : Prop where
  past : ∀ h ∈ g.dueHolds, h.due ≤ clock
  holds : g.dueHolds.Pairwise fun h h' => h.vk = h'.vk → h.due ≤ h'.due
  presses : ∀ p ∈ g.presses, ∀ h ∈ g.dueHolds, h.vk = p.vk → ∀ due ∈ p.phase.deadlines,
    h.due ≤ due

variable {clock now : Instant}

theorem inOrder_new (clock : Instant) : InOrder clock (new : Gestures α) :=
  ⟨by simp [new], List.Pairwise.nil, by simp [new]⟩

theorem inOrder_of_sublist {g g' : Gestures α} (h : InOrder clock g) (hle : clock ≤ now)
    (hp : g'.presses.Sublist g.presses) (hh : g'.dueHolds.Sublist g.dueHolds) :
    InOrder now g' := by
  refine ⟨fun hold hhold => ?_, h.holds.sublist hh, fun p hmem hold hhold => ?_⟩
  · exact Nat.le_trans (h.past hold (hh.subset hhold)) hle
  · exact h.presses p (hp.subset hmem) hold (hh.subset hhold)

/-- A press armed now has no deadline before now. -/
theorem arm_inOrder {g : Gestures α} (h : InOrder now g) (vk : VirtualKey)
    (group : Option (GroupArming α)) (seq : Nat) : InOrder now (g.arm vk group now seq).1 := by
  unfold arm
  cases group with
  | none => exact h
  | some group =>
    refine ⟨h.past, h.holds, fun p hp hold hhold hvk due hdue => ?_⟩
    rcases List.mem_append.mp hp with hp | hp
    · exact h.presses p hp hold hhold hvk due hdue
    · obtain rfl := List.mem_singleton.mp hp
      have hpast := h.past hold hhold
      have hlater : now ≤ due := by
        unfold Phase.deadlines armed at hdue
        rcases List.mem_append.mp hdue with hdue | hdue
        · rw [Option.map_map, Option.mem_toList] at hdue
          obtain ⟨entry, -, rfl⟩ := Option.map_eq_some_iff.mp hdue
          exact Nat.le_add_right _ _
        · rw [Option.map_map, Option.mem_toList] at hdue
          obtain ⟨entry, -, rfl⟩ := Option.map_eq_some_iff.mp hdue
          exact Nat.le_add_right _ _
      exact Nat.le_trans hpast hlater

/-- A Hold that goes to the due Holds is the last due of its key. -/
theorem moveHold_inOrder {g : Gestures α} (hwf : g.Wf) (h : InOrder clock g) (hle : clock ≤ now)
    {as bs : List (Press α)} {p : Press α} (hsplit : g.presses = as ++ p :: bs)
    {tap : Option (Instant × α)} {due : Instant} {action : α}
    {double : Option (Instant × α × GroupKey)}
    (hp : p.phase = .held tap (some (due, action)) double)
    (hdue : due ≤ now) :
    InOrder now ⟨as ++ bs, g.dueHolds ++ [⟨p.vk, p.seq, due, action⟩]⟩ := by
  have hmem : p ∈ g.presses := by simp [hsplit]
  have hdeadline : due ∈ p.phase.deadlines := by
    rw [hp]
    exact List.mem_append_left _ (by simp)
  refine ⟨fun hold hhold => ?_, ?_, fun q hq hold hhold hvk d hd => ?_⟩
  · rcases List.mem_append.mp hhold with hhold | hhold
    · exact Nat.le_trans (h.past hold hhold) hle
    · rw [List.mem_singleton.mp hhold]
      exact hdue
  · rw [List.pairwise_append]
    refine ⟨h.holds, List.pairwise_singleton _ _, fun hold hhold last hlast hvk => ?_⟩
    obtain rfl := List.mem_singleton.mp hlast
    exact h.presses p hmem hold hhold hvk due hdeadline
  · have hkeys := hwf.keys
    rw [hsplit] at hkeys
    rcases List.mem_append.mp hhold with hhold | hhold
    · have hq' : q ∈ g.presses := by
        rw [hsplit]
        exact (List.Sublist.append (List.Sublist.refl as) (List.sublist_cons_self p bs)).subset hq
      exact h.presses q hq' hold hhold hvk d hd
    · obtain rfl := List.mem_singleton.mp hhold
      exact absurd hvk.symm (notMem_split hkeys q hq)

theorem press_inOrder {g : Gestures α} (hwf : g.Wf) (h : InOrder clock g) (hle : clock ≤ now)
    (vk : VirtualKey) (group : Option (GroupArming α)) (seq : Nat) :
    InOrder now (g.press vk group now seq).1 := by
  unfold press
  dsimp only
  split
  · exact arm_inOrder (inOrder_of_sublist h hle (List.Sublist.refl _) (List.Sublist.refl _)) _ _ _
  · next earlier hfound =>
    obtain ⟨as, bs, hsplit, -, hvk, herase, -⟩ := find?_split hfound
    rw [beq_iff_eq] at hvk
    have hrest : InOrder now { g with presses := g.presses.eraseP fun p => p.vk == vk } :=
      inOrder_of_sublist h hle List.eraseP_sublist (List.Sublist.refl _)
    unfold supersede
    split
    · split
      · exact hrest
      · exact arm_inOrder hrest _ _ _
    · next tap hold double hphase =>
      dsimp only
      cases hold with
      | none => exact arm_inOrder hrest _ _ _
      | some entry =>
        obtain ⟨due, action⟩ := entry
        dsimp only
        split
        · next hdue =>
          have hmoved := moveHold_inOrder hwf h hle hsplit hphase hdue
          rw [hvk] at hmoved
          rw [herase]
          exact arm_inOrder hmoved _ _ _
        · exact arm_inOrder hrest _ _ _

/-- A window that a key-up opens has a deadline its press had before. -/
theorem releaseInTime_inOrder {g : Gestures α} (h : InOrder now g) (vk : VirtualKey)
    (passed : Bool) (seq : Nat) (tap : Option (Instant × α)) (hadHold : Bool)
    (double : Option (Instant × α × GroupKey)) :
    InOrder now (g.releaseInTime vk now passed seq tap hadHold double).1 := by
  unfold releaseInTime
  dsimp only
  split
  · next due action group htime =>
    refine ⟨h.past, h.holds, fun p hp hold hhold hvk d hd => ?_⟩
    rcases List.mem_append.mp hp with hp | hp
    · exact h.presses p hp hold hhold hvk d hd
    · obtain rfl := List.mem_singleton.mp hp
      obtain rfl := List.mem_singleton.mp hd
      unfold inTime at htime
      have hopen := (Option.filter_eq_some_iff.mp htime).2
      exact Nat.le_trans (h.past hold hhold) (Nat.le_of_lt (of_decide_eq_true hopen))
  · exact h

theorem release_inOrder {g : Gestures α} (hwf : g.Wf) (h : InOrder clock g) (hle : clock ≤ now)
    (vk : VirtualKey) (passed : Bool) (seq : Nat) :
    InOrder now (g.release vk now passed seq).1 := by
  have hsame := inOrder_of_sublist h hle (List.Sublist.refl g.presses) (List.Sublist.refl _)
  unfold release
  dsimp only
  split
  · exact hsame
  · next press hfound =>
    obtain ⟨as, bs, hsplit, -, hours, herase, -⟩ := find?_split hfound
    rw [Bool.and_eq_true, beq_iff_eq] at hours
    have hrest : InOrder now
        { g with presses := g.presses.eraseP fun p => p.vk == vk && p.phase.isHeld } :=
      inOrder_of_sublist h hle List.eraseP_sublist (List.Sublist.refl _)
    unfold resolve
    split
    · exact hrest
    · next tap due action double hphase =>
      split
      · next hdue =>
        have hmoved := moveHold_inOrder hwf h hle hsplit hphase hdue
        rw [hours.1] at hmoved
        rw [herase]
        exact hmoved
      · exact releaseInTime_inOrder hrest _ _ _ _ _ _
    · exact releaseInTime_inOrder hrest _ _ _ _ _ _

theorem onTimer_inOrder {g : Gestures α} (h : InOrder clock g) (vk : VirtualKey) (seq : Nat) :
    InOrder clock (g.onTimer vk seq).1 := by
  unfold onTimer
  split
  · exact h
  · next g' due action htake =>
    have hclosed : ∀ {g' : Gestures α}, InOrder clock g' →
        InOrder clock (g'.fireClosedWindows due).1 := fun h =>
      inOrder_of_sublist h (Nat.le_refl _) List.filter_sublist (List.Sublist.refl _)
    unfold takeTimer at htake
    split at htake
    · obtain ⟨rfl, -⟩ := Prod.mk.inj (Option.some.inj htake)
      exact hclosed
        (inOrder_of_sublist h (Nat.le_refl _) (List.Sublist.refl _) List.eraseP_sublist)
    · split at htake
      · exact absurd htake (by simp)
      · split at htake
        · obtain ⟨rfl, -⟩ := Prod.mk.inj (Option.some.inj htake)
          exact hclosed
            (inOrder_of_sublist h (Nat.le_refl _) List.eraseP_sublist (List.Sublist.refl _))
        · exact absurd htake (by simp)

/-- A refused timer takes deadlines away. -/
theorem forget_inOrder {g : Gestures α} (h : InOrder clock g) (vk : VirtualKey) (seq : Nat) :
    InOrder clock (g.forget vk seq).1 := by
  unfold forget
  dsimp only
  split
  · exact inOrder_of_sublist h (Nat.le_refl _) (List.Sublist.refl _) List.filter_sublist
  · split
    · exact h
    · next press hfound =>
      obtain ⟨as, bs, hsplit, -, -, -, hmodify⟩ := find?_split hfound
      split
      · exact h
      · next tap hold double hphase =>
        split
        · exact inOrder_of_sublist h (Nat.le_refl _) List.eraseP_sublist (List.Sublist.refl _)
        · refine ⟨h.past, h.holds, fun p hp due' hdue' hvk d hd => ?_⟩
          rw [hmodify] at hp
          have hp' : p ∈ g.presses ∨ p = dropHold press := by
            rw [hsplit]
            simp only [List.mem_append, List.mem_cons] at hp ⊢
            tauto
          rcases hp' with hp' | rfl
          · exact h.presses p hp' due' hdue' hvk d hd
          · have hmem : press ∈ g.presses := by simp [hsplit]
            unfold dropHold at hvk hd
            rw [hphase] at hvk hd
            refine h.presses press hmem due' hdue' hvk d ?_
            rw [hphase]
            exact List.mem_append_right _ hd

/-- **The entry a timer takes out is the one due first** of those that share its
key and number. -/
theorem takeTimer_first {g g' : Gestures α} (hwf : g.Wf) (h : InOrder clock g) {generation : Nat}
    {vk : VirtualKey} {seq : Nat} {due : Instant} {action : α}
    (htake : g.takeTimer vk seq = some (g', due, action)) {r : TimerRequest}
    (hr : r ∈ g.timed generation) (htoken : r.token = ⟨generation, .gesture vk, seq⟩) :
    due ≤ r.due := by
  obtain ⟨token, rdue⟩ := r
  obtain rfl : token = ⟨generation, .gesture vk, seq⟩ := htoken
  unfold takeTimer at htake
  split at htake
  · next hold hfound =>
    obtain ⟨as, bs, hsplit, has, hours, -, -⟩ := find?_split hfound
    obtain ⟨-, hrest⟩ := Prod.mk.inj (Option.some.inj htake)
    obtain ⟨rfl, -⟩ := Prod.mk.inj hrest
    have hmem : hold ∈ g.dueHolds := by simp [hsplit]
    simp only [isDueHold, Bool.and_eq_true, beq_iff_eq] at hours
    rcases List.mem_append.mp hr with hr | hr
    · obtain ⟨p, hp, hpr⟩ := List.mem_flatMap.mp hr
      obtain ⟨htoken, hdue⟩ := Press.mem_timed.mp hpr
      injection htoken with _ hslot _
      injection hslot with hvk
      exact h.presses p hp hold hmem (hours.1.trans hvk) rdue (Phase.timerDue_mem hdue)
    · obtain ⟨d, hd, hdr⟩ := List.mem_map.mp hr
      injection hdr with htoken hdue
      injection htoken with _ hslot hseq
      injection hslot with hvk
      rw [← hdue]
      rw [hsplit] at hd
      rcases List.mem_append.mp hd with hd | hd
      · -- None before the one found has this key and number.
        have hnot := has d hd
        simp [isDueHold, hvk, hseq] at hnot
      · rcases List.mem_cons.mp hd with rfl | hd
        · exact Nat.le_refl _
        · have hholds := h.holds
          rw [hsplit, List.pairwise_append] at hholds
          exact (List.pairwise_cons.mp hholds.2.1).1 d hd (hours.1.trans hvk.symm)
  · next hnone =>
    split at htake
    · exact absurd htake (by simp)
    · next press hfound =>
      obtain ⟨as, bs, hsplit, -, hours, -, -⟩ := find?_split hfound
      split at htake
      · next due' action' hdue haction =>
        obtain ⟨-, hrest⟩ := Prod.mk.inj (Option.some.inj htake)
        obtain ⟨rfl, -⟩ := Prod.mk.inj hrest
        simp only [awaitsTimer, Bool.and_eq_true, beq_iff_eq] at hours
        rcases List.mem_append.mp hr with hr | hr
        · obtain ⟨p, hp, hpr⟩ := List.mem_flatMap.mp hr
          obtain ⟨htoken, hpdue⟩ := Press.mem_timed.mp hpr
          injection htoken with _ hslot _
          injection hslot with hvk
          -- One press per key: `p` is the press found.
          have hpress : press ∈ g.presses := by simp [hsplit]
          have hsame : p = press :=
            List.inj_on_of_nodup_map hwf.keys hp hpress (hvk.symm.trans hours.1.1.symm)
          rw [hsame, hdue] at hpdue
          exact Nat.le_of_eq (Option.some.inj hpdue)
        · obtain ⟨d, hd, hdr⟩ := List.mem_map.mp hr
          injection hdr with htoken _
          injection htoken with _ hslot hseq
          injection hslot with hvk
          have hnot := List.find?_eq_none.mp hnone d hd
          simp [isDueHold, hvk, hseq] at hnot
      · exact absurd htake (by simp)

end Gestures

/-- The time a call reads: a key event's. -/
def Op.time (clock : Instant) : Op α → Instant
  | .key _ _ env => env.now
  | _ => clock

/-- **A call at a time not before the clock keeps the deadlines in order.** -/
theorem step_inOrder {e : Engine α} (hwf : e.gestures.Wf) {clock : Instant}
    (h : e.gestures.InOrder clock) (op : Op α) (hle : clock ≤ op.time clock) :
    (e.step op).1.gestures.InOrder (op.time clock) := by
  cases op with
  | key event bindings env =>
    obtain ⟨vk, direction⟩ := event
    cases direction with
    | up =>
      exact Gestures.release_inOrder hwf h hle vk ((e.keys.release vk).isPassed vk) e.ids.nextSeq.1
    | down =>
      show (Gestures.InOrder env.now (onKeyDown _ vk bindings env).1.gestures)
      unfold onKeyDown walk
      dsimp only
      rw [visits_gestures]
      split
      · exact Gestures.inOrder_of_sublist h hle (List.Sublist.refl _) (List.Sublist.refl _)
      · unfold firstKeyDown
        -- The other keys' presses lose entries only, and the key's own press is armed at this time.
        have hothers := Gestures.otherKeyDown_step e.ids.generation e.gestures vk
          ((e.keys.clearReleasedModifiers env vk .all).press vk).2 env.now
        exact Gestures.press_inOrder (hothers.wf hwf)
          (Gestures.inOrder_of_sublist h (Nat.le_refl _) List.filter_sublist (List.Sublist.refl _))
          hle _ _ _
  | timer token =>
    show Gestures.InOrder clock (e.onTimer token).1.gestures
    unfold onTimer
    split
    · exact h
    · split
      · exact Gestures.onTimer_inOrder h _ _
      · exact h
      · exact h
  | forget token =>
    show Gestures.InOrder clock (e.forgetTimer token).1.gestures
    unfold forgetTimer
    split
    · exact h
    · split
      · exact Gestures.forget_inOrder h _ _
      · exact h
      · exact h
  | reset env reason =>
    show Gestures.InOrder clock (e.reset env reason).gestures
    unfold reset
    cases reason <;> exact Gestures.inOrder_new clock
  | foregroundChanged => exact h
  | resyncIfDue env notes =>
    show Gestures.InOrder clock (e.resyncIfDue env notes).1.gestures
    unfold resyncIfDue
    dsimp only
    split <;> exact h
  | inputReturned => exact h
  | trackInjected event => exact h

/-! ## What a timer handed back takes out -/

/-- An expiry timer takes out every entry of its token. -/
theorem expiry_delivers {e : Engine α} {token : TimerToken}
    (hslot : ∀ vk, token.slot ≠ .gesture vk) : (e.onTimer token).1.isLive token = false := by
  obtain ⟨generation, slot, seq⟩ := token
  unfold onTimer isLive
  dsimp only
  by_cases hgeneration : generation = e.ids.generation
  · subst hgeneration
    rw [bne_self_eq_false, if_neg Bool.false_ne_true]
    cases slot with
    | gesture vk => exact absurd rfl (hslot vk)
    | chord => simp [Chords.isLive, Chords.expire]
    | sequence => simp [Sequences.isLive, Sequences.expire]
  · rw [if_pos (by simpa using hgeneration)]
    simp [hgeneration]

/-- The timer of a press or a due Hold takes its entry out, the one due first if
several share the token. -/
theorem gestureTimer_takes {e : Engine α} {clock : Instant} (hwf : e.gestures.Wf)
    (horder : e.gestures.InOrder clock) {r : TimerRequest} {vk : VirtualKey}
    (hslot : r.token.slot = .gesture vk) (hfirst : ∀ r' ∈ e.timed, r.due ≤ r'.due)
    (hlive : e.isLive r.token = true) :
    ∃ r₀, (r₀ :: (e.onTimer r.token).1.timed).Subperm e.timed ∧ (r ∈ e.timed → r₀ = r) := by
  obtain ⟨⟨generation, slot, seq⟩, rdue⟩ := r
  obtain rfl : slot = .gesture vk := hslot
  unfold isLive at hlive
  rw [Bool.and_eq_true, beq_iff_eq] at hlive
  obtain ⟨rfl, hlive⟩ := hlive
  dsimp only at hlive
  cases htake : e.gestures.takeTimer vk seq with
  | none =>
    have hdead := Gestures.isLive_of_takeTimer_none htake
    rw [hlive] at hdead
    exact absurd hdead (by decide)
  | some taken =>
    obtain ⟨g', due, action⟩ := taken
    have hperm := (Gestures.takeTimer_some e.ids.generation htake).2
    have hclosed := (Gestures.fireClosedWindows_step e.ids.generation g' due).timed
    have hafter : (e.onTimer ⟨e.ids.generation, .gesture vk, seq⟩).1 =
        { e with gestures := (g'.fireClosedWindows due).1 } := by
      unfold onTimer Gestures.onTimer
      dsimp only
      rw [bne_self_eq_false, if_neg Bool.false_ne_true, htake]
    have hwhole : (⟨⟨e.ids.generation, .gesture vk, seq⟩, due⟩ ::
        { e with gestures := (g'.fireClosedWindows due).1 }.timed).Subperm e.timed := by
      unfold timed
      dsimp only
      rw [← List.cons_append, ← List.cons_append]
      refine List.Subperm.append (List.Subperm.append ?_ (List.Subperm.refl _))
        (List.Subperm.refl _)
      rw [List.nil_append] at hclosed
      exact ((List.subperm_cons _).mpr hclosed).trans hperm.symm.subperm
    refine ⟨⟨⟨e.ids.generation, .gesture vk, seq⟩, due⟩, ?_, fun hr => ?_⟩
    · rw [hafter]
      exact hwhole
    · have hearlier : rdue ≤ due := hfirst _ (hwhole.subset List.mem_cons_self)
      have hr' : (⟨⟨e.ids.generation, .gesture vk, seq⟩, rdue⟩ : TimerRequest) ∈
          e.gestures.timed e.ids.generation := by
        rcases mem_timed.mp hr with hr | hr | hr
        · exact hr
        · exact absurd (Chords.timed_slot hr).2 (by simp)
        · exact absurd (Sequences.timed_slot hr).2 (by simp)
      have hlater : due ≤ rdue := Gestures.takeTimer_first hwf horder htake hr' rfl
      rw [Nat.le_antisymm hlater hearlier]

/-- **A timer handed back takes out an entry of its token**, and its own entry if
that still waits. -/
theorem onTimer_takes {e : Engine α} {clock : Instant} (hwf : e.gestures.Wf)
    (horder : e.gestures.InOrder clock) {r : TimerRequest}
    (hfirst : ∀ r' ∈ e.timed, r.due ≤ r'.due) (hlive : e.isLive r.token = true) :
    ∃ r₀, (r₀ :: (e.onTimer r.token).1.timed).Subperm e.timed ∧ (r ∈ e.timed → r₀ = r) := by
  by_cases hgesture : ∃ vk, r.token.slot = .gesture vk
  · obtain ⟨vk, hslot⟩ := hgesture
    exact gestureTimer_takes hwf horder hslot hfirst hlive
  · have hdead : (e.onTimer r.token).1.isLive r.token = false :=
      expiry_delivers fun vk hslot => hgesture ⟨vk, hslot⟩
    have hsub : (e.onTimer r.token).1.timed.Subperm e.timed :=
      (onTimer_effect hwf r.token).timed
    have htakes : ∀ due, ⟨r.token, due⟩ ∈ e.timed →
        (⟨r.token, due⟩ :: (e.onTimer r.token).1.timed).Subperm e.timed := by
      intro due hmem
      refine List.cons_subperm_of_not_mem_of_mem (fun hin => ?_) hmem hsub
      have hlive' := ((e.onTimer r.token).1.isLive_iff r.token).mpr ⟨due, hin⟩
      rw [hdead] at hlive'
      exact absurd hlive' (by decide)
    by_cases hr : r ∈ e.timed
    · exact ⟨r, htakes r.due hr, fun _ => rfl⟩
    · obtain ⟨due, hmem⟩ := (e.isLive_iff r.token).mp hlive
      exact ⟨⟨r.token, due⟩, htakes due hmem, fun h => absurd h hr⟩

/-! ## The engine and its queue -/

/-- The engine with its timers in a queue; the clock is the time of the last key
event. -/
structure Scheduled (α : Type) where
  engine : Engine α
  queue : TimerQueue
  clock : Instant

/-- What can happen: a call, or a look at the queue at some time. -/
inductive Happening (α : Type)
  | call (op : Op α)
  | take (now : Instant)

namespace Scheduled

def new : Scheduled α := ⟨.new, .new, 0⟩

/-- The call `op`, its timers started. -/
def call (s : Scheduled α) (op : Op α) : Scheduled α × Decision α :=
  let decided := s.engine.step op
  let started := startTimers TimerQueue.scheduler decided.1 decided.2.timers s.queue
  (⟨started.1, started.2.1, op.time s.clock⟩, decided.2)

/-- What happens in a step; also the request the queue handed out, whose timer
the engine decides at once. -/
def step (s : Scheduled α) : Happening α → Scheduled α × Decision α × Option TimerRequest
  | .call op =>
    let called := s.call op
    (called.1, called.2, none)
  | .take now =>
    match s.queue.takeDue now with
    | (_, none) => (s, .default, none)
    | (queue, some r) =>
      let called := { s with queue := queue }.call (.timer r.token)
      (called.1, called.2, some r)

@[simp] theorem call_clock (s : Scheduled α) (op : Op α) :
    (s.call op).1.clock = op.time s.clock := rfl

theorem step_take_none {s : Scheduled α} {q : TimerQueue} {now : Instant}
    (h : s.queue.takeDue now = (q, none)) : s.step (.take now) = (s, .default, none) := by
  simp only [step, h]

theorem step_take_some {s : Scheduled α} {q : TimerQueue} {now : Instant} {r : TimerRequest}
    (h : s.queue.takeDue now = (q, some r)) :
    s.step (.take now) = (({ s with queue := q }.call (.timer r.token)).1,
      ({ s with queue := q }.call (.timer r.token)).2, some r) := by
  simp only [step, h]

/-- What the environment may do: the clock does not go back. -/
def admits (s : Scheduled α) : Happening α → Prop
  | .call op => s.clock ≤ op.time s.clock
  | .take _ => True

end Scheduled

/-- The machine of the engine with its queue. -/
def scheduled : Machine (Scheduled α) (Happening α) (Decision α × Option TimerRequest) :=
  ⟨Scheduled.step, Scheduled.admits⟩

/-! ## Coverage -/

namespace Scheduled

/-- The requests of all pending entries are queued, each as often as entries wait
for it; with what that rests on. -/
structure Tracked (s : Scheduled α) : Prop where
  queued : s.engine.timed.Subperm s.queue.pending
  wf : s.engine.gestures.Wf
  order : s.engine.gestures.InOrder s.clock

theorem tracked_new : Tracked (new : Scheduled α) :=
  ⟨List.nil_subperm, Gestures.wf_new, Gestures.inOrder_new 0⟩

/-- Of what the queue and the new requests cover, the live part is covered by
what `startTimers` leaves. -/
theorem started_covers {e e' : Engine α} {timers : List TimerRequest} {q : TimerQueue}
    (htimed : e'.timed.Subperm (timers ++ e.timed)) (h : e.timed.Subperm q.pending) :
    e'.timed.Subperm (startTimers TimerQueue.scheduler e' timers q).2.1.pending := by
  rw [startTimers_queue]
  have hall : e'.timed.Subperm (timers ++ q.pending) :=
    htimed.trans ((List.subperm_append_left timers).mpr h)
  dsimp only
  split
  · next hnone =>
    rw [List.isEmpty_iff] at hnone
    rw [hnone, List.nil_append] at hall
    exact hall
  · have hlive : ∀ r ∈ e'.timed, e'.isLive r.token = true := fun r hr =>
      (e'.isLive_iff r.token).mpr ⟨r.due, hr⟩
    have hfiltered := List.Subperm.filter (fun r => e'.isLive r.token) hall
    rw [List.filter_eq_self.mpr hlive, List.filter_append] at hfiltered
    refine hfiltered.trans (List.perm_append_comm.subperm.trans ?_)
    exact (List.subperm_append_left _).mpr List.filter_sublist.subperm

/-- **A call keeps every entry's request queued.** -/
theorem call_tracked {s : Scheduled α} (h : Tracked s) {op : Op α}
    (hle : s.clock ≤ op.time s.clock) : Tracked (s.call op).1 := by
  have heffect := step_effect h.wf op
  refine ⟨?_, ?_, ?_⟩
  · unfold call
    dsimp only
    have hcovers := started_covers heffect.timed h.queued
    rw [startTimers_queue] at hcovers ⊢
    exact hcovers
  · unfold call
    dsimp only
    rw [startTimers_queue]
    exact heffect.wf
  · unfold call
    dsimp only
    rw [startTimers_queue]
    exact step_inOrder h.wf h.order op hle

/-- A request that no entry waits for is not needed. -/
theorem subperm_rest {timed rest : List TimerRequest} {r : TimerRequest}
    (h : timed.Subperm (r :: rest)) (hr : r ∉ timed) : timed.Subperm rest := by
  have herased := h.erase r
  rw [List.erase_of_not_mem hr, List.erase_cons_head] at herased
  exact herased

/-- **A request handed out takes its entry with it**, and the others keep
theirs. -/
theorem take_tracked {s : Scheduled α} (h : Tracked s) {q : TimerQueue} {now : Instant}
    {r : TimerRequest} (htake : s.queue.takeDue now = (q, some r)) :
    Tracked ({ s with queue := q }.call (.timer r.token)).1 ∧
      (r ∈ s.engine.timed →
        (r :: (s.engine.onTimer r.token).1.timed).Subperm s.engine.timed) := by
  obtain ⟨-, hfirst, hperm⟩ := TimerQueue.takeDue_some htake
  have hle : s.clock ≤ (Op.timer r.token : Op α).time s.clock := Nat.le_refl _
  have heffect := onTimer_effect h.wf r.token
  have hcalled : ({ s with queue := q }.call (.timer r.token)).1 =
      ⟨(s.engine.onTimer r.token).1, q, s.clock⟩ := rfl
  rw [hcalled]
  have hentry : (s.engine.onTimer r.token).1.timed.Subperm q.pending ∧
      (r ∈ s.engine.timed →
        (r :: (s.engine.onTimer r.token).1.timed).Subperm s.engine.timed) := by
    by_cases hlive : s.engine.isLive r.token = true
    · obtain ⟨r₀, htakes, hown⟩ := onTimer_takes h.wf h.order
        (fun r' hr' => hfirst r' (h.queued.subset hr')) hlive
      have hrest := htakes.trans (h.queued.trans hperm.subperm)
      by_cases hr : r ∈ s.engine.timed
      · rw [hown hr] at htakes hrest
        exact ⟨(List.subperm_cons r).mp hrest, fun _ => htakes⟩
      · -- Numbers have wrapped around: the request is of an entry long gone.
        have hr' : r ∉ (s.engine.onTimer r.token).1.timed := fun hin =>
          hr (htakes.subset (List.mem_cons_of_mem _ hin))
        have hsub := (List.sublist_cons_self r₀ _).subperm.trans htakes
        exact ⟨subperm_rest (hsub.trans (h.queued.trans hperm.subperm)) hr',
          fun hin => absurd hin hr⟩
    · -- A stale request: nothing waits for it, and nothing goes.
      have hr : r ∉ s.engine.timed := fun hr =>
        hlive ((s.engine.isLive_iff r.token).mpr ⟨r.due, hr⟩)
      rw [onTimer_dead s.engine (Bool.eq_false_iff.mpr hlive)]
      exact ⟨subperm_rest (h.queued.trans hperm.subperm) hr, fun hr' => absurd hr' hr⟩
  exact ⟨⟨hentry.1, heffect.wf, step_inOrder h.wf h.order (.timer r.token) hle⟩, hentry.2⟩

/-- **One step keeps every entry's request queued.** -/
theorem tracked_step : (scheduled (α := α)).Invariant Tracked := by
  intro s happening h hadmits
  cases happening with
  | call op => exact call_tracked h hadmits
  | take now =>
    show Tracked (s.step (.take now)).1
    cases htake : s.queue.takeDue now with
    | mk q taken =>
    cases taken with
    | none =>
      rw [step_take_none htake]
      exact h
    | some r =>
      rw [step_take_some htake]
      exact (take_tracked h htake).1

/-- Each pending entry has its timer: a press with a Hold or a waiting Tap, a due
Hold, a chord and a sequence, each due at the entry's own deadline; and each live
token has one, due when an entry of it is. -/
structure Covered (s : Scheduled α) : Prop where
  live : ∀ token, s.engine.isLive token = true →
    ∃ due, ⟨token, due⟩ ∈ s.engine.timed ∧ ⟨token, due⟩ ∈ s.queue.pending
  presses : ∀ p ∈ s.engine.gestures.presses, ∀ due, p.phase.timerDue = some due →
    ⟨⟨s.engine.ids.generation, .gesture p.vk, p.seq⟩, due⟩ ∈ s.queue.pending
  dueHolds : ∀ h ∈ s.engine.gestures.dueHolds,
    ⟨⟨s.engine.ids.generation, .gesture h.vk, h.seq⟩, h.due⟩ ∈ s.queue.pending
  chords : ∀ c ∈ s.engine.chords.pending,
    ⟨⟨s.engine.ids.generation, .chord, c.seq⟩, c.expiresAt⟩ ∈ s.queue.pending
  sequences : ∀ q ∈ s.engine.sequences.pending,
    ⟨⟨s.engine.ids.generation, .sequence, q.seq⟩, q.expiresAt⟩ ∈ s.queue.pending

theorem covered_of_tracked {s : Scheduled α} (h : Tracked s) : Covered s := by
  have hqueued : ∀ r ∈ s.engine.timed, r ∈ s.queue.pending := fun r hr => h.queued.subset hr
  refine ⟨fun token hlive => ?_, fun p hp due hdue => ?_, fun d hd => ?_, fun c hc => ?_,
    fun q hq => ?_⟩
  · obtain ⟨due, hmem⟩ := (s.engine.isLive_iff token).mp hlive
    exact ⟨due, hmem, hqueued _ hmem⟩
  · refine hqueued _ (mem_timed.mpr (Or.inl (List.mem_append_left _ ?_)))
    exact List.mem_flatMap.mpr ⟨p, hp, Press.mem_timed.mpr ⟨rfl, hdue⟩⟩
  · exact hqueued _ (mem_timed.mpr (Or.inl (List.mem_append_right _
      (List.mem_map_of_mem (f := DueHold.timed s.engine.ids.generation) hd))))
  · exact hqueued _ (mem_timed.mpr (Or.inr (Or.inl
      (List.mem_map_of_mem (f := PendingChord.timed s.engine.ids.generation) hc))))
  · exact hqueued _ (mem_timed.mpr (Or.inr (Or.inr
      (List.mem_map_of_mem (f := PendingSequence.timed s.engine.ids.generation) hq))))

end Scheduled

/-- **Timer coverage.** In every run in which the clock does not go back, between
any two steps: each pending entry that waits for a timer has its request in the
queue, due at its deadline; and a request handed out while its entry waits takes
that entry out. -/
theorem timer_coverage {happenings : List (Happening α)}
    (hlegal : scheduled.Legal Scheduled.new happenings) :
    (scheduled.run (Scheduled.new : Scheduled α) happenings).Covered ∧
      ∀ x ∈ scheduled.trace Scheduled.new happenings, x.after.Covered ∧
        ∀ r ∈ x.output.2, r ∈ x.before.engine.timed →
          (r :: x.after.engine.timed).Subperm x.before.engine.timed := by
  have htracked := Scheduled.tracked_step.run Scheduled.tracked_new hlegal
  refine ⟨Scheduled.covered_of_tracked htracked, fun x hx => ?_⟩
  obtain ⟨hbefore, hadmits, hstep⟩ :=
    Scheduled.tracked_step.trace Scheduled.tracked_new hlegal x hx
  have hafter := Scheduled.tracked_step x.before x.input hbefore hadmits
  rw [hstep]
  refine ⟨Scheduled.covered_of_tracked hafter, fun r hr hwaits => ?_⟩
  have hr' : r ∈ (x.before.step x.input).2.2 := hr
  show (r :: (x.before.step x.input).1.engine.timed).Subperm x.before.engine.timed
  cases hinput : x.input with
  | call op =>
    rw [hinput] at hr'
    exact absurd hr' (by simp [Scheduled.step])
  | take now =>
    rw [hinput] at hr'
    cases htake : x.before.queue.takeDue now with
    | mk q taken =>
    cases taken with
    | none =>
      rw [Scheduled.step_take_none htake] at hr'
      exact absurd hr' (by simp)
    | some taken =>
      rw [Scheduled.step_take_some htake] at hr' ⊢
      obtain rfl : taken = r := by simpa using hr'
      exact (Scheduled.take_tracked hbefore htake).2 hwaits

theorem legal_call {s : Scheduled α} {op : Op α} {rest : List (Happening α)}
    (h : s.clock ≤ op.time s.clock) (hrest : scheduled.Legal (s.call op).1 rest) :
    scheduled.Legal s (.call op :: rest) := ⟨h, hrest⟩

theorem legal_take {s : Scheduled α} {now : Instant} {rest : List (Happening α)}
    (hrest : scheduled.Legal (s.step (.take now)).1 rest) :
    scheduled.Legal s (.take now :: rest) := ⟨trivial, hrest⟩

theorem legal_nil (s : Scheduled α) : scheduled.Legal s [] := trivial

/-- A 200 ms Hold of A. -/
def holdOfA : Binding Unit :=
  ⟨.combo ⟨[.key 0x41]⟩, (), true, .always, .hold 200, false, false, none⟩

/-- A world that answers "up" for every key, `ms` milliseconds in. -/
def worldAt (ms : Nat) : Env := ⟨fromMillis ms, fun _ => false, ⟨none, none, id⟩⟩

/-- A is let go after 300 ms, the timer of its Hold handed out 1 ms later. -/
def heldForATerm : List (Happening Unit) :=
  [.call (.key ⟨0x41, .down⟩ [holdOfA] (worldAt 0)),
    .call (.key ⟨0x41, .up⟩ [holdOfA] (worldAt 300)), .take (fromMillis 301)]

theorem heldForATerm_legal : scheduled.Legal Scheduled.new heldForATerm := by
  refine legal_call (Nat.zero_le _) (legal_call ?_ (legal_take (legal_nil _)))
  rw [Scheduled.call_clock]
  have hlater : (worldAt 0).now ≤ (worldAt 300).now := by decide
  exact hlater

theorem timer_coverage_hold : (scheduled.run Scheduled.new heldForATerm).Covered :=
  (timer_coverage heldForATerm_legal).1

end KeySwitch.Engine
