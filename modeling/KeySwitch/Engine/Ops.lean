import KeySwitch.Engine.PendingSteps
import KeySwitch.Lib.Machine

/-!
# Runs of the engine's operations

`Op` is one call into the engine and `operations` the machine of all of them,
with the decision each call returns. `armings` counts the numbers a call takes:
one for a key-up, one for a first key-down and one more for each chord or
sequence it is fed to.

`Effect` says what a call does to the numbers and to the entries that wait for a
timer: the numbers it hands out are new, and apart from the requests it makes no
entry waits that did not wait before.
-/

namespace KeySwitch.Engine

open Data Lib

variable {α : Type}

/-- One call into the engine. -/
inductive Op (α : Type)
  | key (event : KeyEvent) (bindings : List (Binding α)) (env : Env)
  | timer (token : TimerToken)
  | forget (token : TimerToken)
  | reset (env : Env) (reason : ResetReason)
  | foregroundChanged
  | resyncIfDue (env : Env) (notes : Nat)
  | inputReturned
  | trackInjected (event : KeyEvent)

/-- The call `op`, with what it decides. -/
def step (e : Engine α) : Op α → Engine α × Decision α
  | .key event bindings env => e.onKey event bindings env
  | .timer token => ((e.onTimer token).1, ⟨false, (e.onTimer token).2, [], false⟩)
  | .forget token => ((e.forgetTimer token).1, .default)
  | .reset env reason => (e.reset env reason, .default)
  | .foregroundChanged => (e.onForegroundChanged, .default)
  | .resyncIfDue env notes => ((e.resyncIfDue env notes).1, .default)
  | .inputReturned => (e.inputReturned, .default)
  | .trackInjected event => (e.trackInjected event, .default)

/-- The keys held once `vk` is down. -/
def heldAt (e : Engine α) (vk : VirtualKey) (env : Env) : KeyState :=
  ((e.keys.clearReleasedModifiers env vk .all).press vk).2

/-- Whether a first key-down is fed to this binding's chord or sequence. -/
def feeds (env : Env) (binding : Binding α) : Bool :=
  match binding.kind with
  | .combo _ => false
  | .sequence _ _ | .chord _ _ => binding.condition.evaluate env.foreground

/-- How many numbers the call `op` takes. -/
def armings (e : Engine α) : Op α → Nat
  | .key event bindings env =>
    match event.direction with
    | .down => if e.keys.isActive event.vk then 0 else 1 + bindings.countP (feeds env)
    | .up => 1
  | _ => 0

/-- The machine of the engine's operations, as long as numbers are left. -/
def operations : Machine (Engine α) (Op α) (Decision α) where
  step := Engine.step
  enabled e op := e.ids.lastSeq + e.armings op < 2 ^ 64

/-- How many numbers a run takes. -/
def armingsOf (e : Engine α) : List (Op α) → Nat
  | [] => 0
  | op :: ops => e.armings op + (e.step op).1.armingsOf ops

/-! ## Numbers and requests -/

theorem nextSeq_lt {ids : Ids} (h : ids.lastSeq + 1 < 2 ^ 64) :
    ids.nextSeq.1 = ids.lastSeq + 1 ∧ ids.nextSeq.2.lastSeq = ids.lastSeq + 1 := by
  unfold Ids.nextSeq
  exact ⟨Nat.mod_eq_of_lt h, Nat.mod_eq_of_lt h⟩

/-- Requests that name numbers after `last`, up to `last + n`, each once. -/
structure FreshRequests (last n : Nat) (requests : List TimerRequest) : Prop where
  nodup : (requests.map fun r => r.token.seq).Nodup
  bounds : ∀ r ∈ requests, last < r.token.seq ∧ r.token.seq ≤ last + n

theorem freshRequests_nil (last n : Nat) : FreshRequests last n [] :=
  ⟨List.nodup_nil, by simp⟩

/-- What a stretch of a call has done that took `n` numbers since `e`. -/
structure Drawn (e : Engine α) (n : Nat) (acc : Engine α × Decision α) : Prop where
  generation : acc.1.ids.generation = e.ids.generation
  lastSeq : e.ids.lastSeq + n < 2 ^ 64 → acc.1.ids.lastSeq = e.ids.lastSeq + n
  timed : acc.1.timed.Subperm (acc.2.timers ++ e.timed)
  fresh : e.ids.lastSeq + n < 2 ^ 64 → FreshRequests e.ids.lastSeq n acc.2.timers
  wf : acc.1.gestures.Wf

/-- A change of the tables that leaves the requests as they are. -/
theorem drawn_of_timed {e : Engine α} {n : Nat} {acc acc' : Engine α × Decision α}
    (h : Drawn e n acc) (hids : acc'.1.ids = acc.1.ids) (htimers : acc'.2.timers = acc.2.timers)
    (htimed : acc'.1.timed.Subperm acc.1.timed) (hwf : acc'.1.gestures.Wf) : Drawn e n acc' := by
  refine ⟨?_, ?_, ?_, ?_, hwf⟩
  · rw [hids]
    exact h.generation
  · rw [hids]
    exact h.lastSeq
  · rw [htimers]
    exact htimed.trans h.timed
  · rw [htimers]
    exact h.fresh

/-- One more number, and the request it may make. -/
theorem drawn_next {e : Engine α} {n : Nat} {acc acc' : Engine α × Decision α}
    (h : Drawn e n acc) (slot : TimerSlot) (due : Option Instant)
    (hids : acc'.1.ids = acc.1.ids.nextSeq.2)
    (htimers : acc'.2.timers = acc.2.timers ++
      (due.map (acc.1.ids.nextSeq.2.request slot acc.1.ids.nextSeq.1)).toList)
    (htimed : acc'.1.timed.Subperm
      ((due.map (acc.1.ids.nextSeq.2.request slot acc.1.ids.nextSeq.1)).toList ++ acc.1.timed))
    (hwf : acc'.1.gestures.Wf) : Drawn e (n + 1) acc' := by
  refine ⟨?_, fun hlt => ?_, ?_, fun hlt => ?_, hwf⟩
  · rw [hids]
    exact h.generation
  · have hlast := h.lastSeq (by omega)
    rw [hids, (nextSeq_lt (by omega)).2, hlast, Nat.add_assoc]
  · rw [htimers]
    refine htimed.trans ?_
    have hold := h.timed
    rw [List.subperm_ext_iff] at hold ⊢
    intro r hr
    simp only [List.count_append] at hold ⊢
    by_cases hmem : r ∈ acc.1.timed
    · have := hold r hmem
      omega
    · have := List.count_eq_zero_of_not_mem hmem
      omega
  · have hn : e.ids.lastSeq + n < 2 ^ 64 := by omega
    have hfresh := h.fresh hn
    have hlast := h.lastSeq hn
    have hseq : acc.1.ids.nextSeq.1 = e.ids.lastSeq + n + 1 := by
      rw [(nextSeq_lt (by omega)).1, hlast]
    rw [htimers]
    cases due with
    | none =>
      rw [Option.map_none, Option.toList_none, List.append_nil]
      refine ⟨hfresh.nodup, fun r hr => ?_⟩
      have := hfresh.bounds r hr
      omega
    | some due =>
      rw [Option.map_some, Option.toList_some]
      have hr' : (acc.1.ids.nextSeq.2.request slot acc.1.ids.nextSeq.1 due).token.seq =
          e.ids.lastSeq + n + 1 := hseq
      refine ⟨nodup_snoc hfresh.nodup fun r hr => ?_, fun r hr => ?_⟩
      · have := hfresh.bounds r hr
        omega
      · rcases List.mem_append.mp hr with hr | hr
        · have := hfresh.bounds r hr
          omega
        · rw [List.mem_singleton.mp hr]
          omega

/-! ## The tables under one table's change -/

theorem timed_of_gestures {e e' : Engine α} (requests : List TimerRequest)
    (hgen : e'.ids.generation = e.ids.generation)
    (h : (e'.gestures.timed e.ids.generation).Subperm
      (requests ++ e.gestures.timed e.ids.generation))
    (hc : e'.chords = e.chords) (hs : e'.sequences = e.sequences) :
    e'.timed.Subperm (requests ++ e.timed) := by
  unfold timed
  rw [hgen, hc, hs, List.append_assoc, List.append_assoc, ← List.append_assoc requests]
  exact h.append (List.Subperm.refl _)

theorem timed_of_chords {e e' : Engine α} (requests : List TimerRequest)
    (hgen : e'.ids.generation = e.ids.generation) (hg : e'.gestures = e.gestures)
    (h : (e'.chords.timed e.ids.generation).Subperm (requests ++ e.chords.timed e.ids.generation))
    (hs : e'.sequences = e.sequences) : e'.timed.Subperm (requests ++ e.timed) := by
  unfold timed
  rw [hgen, hg, hs, ← List.append_assoc, ← List.append_assoc]
  refine List.Subperm.append ?_ (List.Subperm.refl _)
  refine List.Subperm.trans ((List.subperm_append_left _).mpr h) (List.Perm.subperm ?_)
  rw [← List.append_assoc]
  exact List.perm_append_comm.append_right _

theorem timed_of_sequences {e e' : Engine α} (requests : List TimerRequest)
    (hgen : e'.ids.generation = e.ids.generation) (hg : e'.gestures = e.gestures)
    (hc : e'.chords = e.chords)
    (h : (e'.sequences.timed e.ids.generation).Subperm
      (requests ++ e.sequences.timed e.ids.generation)) :
    e'.timed.Subperm (requests ++ e.timed) := by
  unfold timed
  rw [hgen, hg, hc, ← List.append_assoc]
  refine List.Subperm.trans ((List.subperm_append_left _).mpr h) (List.Perm.subperm ?_)
  rw [← List.append_assoc]
  exact List.perm_append_comm.append_right _

/-! ## A key event -/

theorem drawn_start (e : Engine α) (hwf : e.gestures.Wf) : Drawn e 0 (e, .default) :=
  ⟨rfl, fun _ => rfl, List.Subperm.refl _, fun _ => freshRequests_nil _ _, hwf⟩

theorem firstKeyDown_drawn {e : Engine α} (hwf : e.gestures.Wf) (k : KeyDown α)
    {bindings : List (Binding α)} (hwinner : ∀ w ∈ k.winner, Elected k.vk bindings e.keys w) :
    Drawn e 1 (e.firstKeyDown k bindings) := by
  have hgroup : ∀ gr ∈ (k.winner.bind fun w => w.deferredGroup k.vk bindings e.keys),
      gr.Nonempty := by
    intro gr hgr
    obtain ⟨w, hw, hgroup⟩ := Option.bind_eq_some_iff.mp hgr
    exact Winner.deferredGroup_nonempty (hwinner w hw) hgroup
  have hothers := e.gestures.otherKeyDown_step e.ids.generation k.vk e.keys k.env.now
  have hpress := Gestures.press_step e.ids.generation (hothers.wf hwf) k.vk
    k.env.now e.ids.nextSeq.1 hgroup
  have hboth := Gestures.step_trans hothers hpress
  rw [List.append_nil] at hboth
  refine drawn_next (drawn_start e hwf) (.gesture k.vk)
    ((e.gestures.otherKeyDown k.vk e.keys k.env.now).1.press k.vk
      (k.winner.bind fun w => w.deferredGroup k.vk bindings e.keys) k.env.now
      e.ids.nextSeq.1).2.2 rfl ?_ ?_ (hboth.wf hwf)
  · exact (List.nil_append _).symm
  · exact timed_of_gestures _ rfl hboth.timed rfl rfl

/-- How many numbers the visit of a binding takes. -/
def visitArmings (k : KeyDown α) (binding : Binding α) : Nat :=
  if !k.wasRepeat && feeds k.env binding then 1 else 0

theorem visitArmings_of_feeds {k : KeyDown α} {binding : Binding α}
    (h : feeds k.env binding = binding.condition.evaluate k.env.foreground) :
    visitArmings k binding =
      if (k.wasRepeat || !binding.condition.evaluate k.env.foreground) = true then 0 else 1 := by
  unfold visitArmings
  rw [h]
  cases k.wasRepeat <;> cases binding.condition.evaluate k.env.foreground <;> rfl

theorem visitSequence_drawn {e : Engine α} {n : Nat} (k : KeyDown α)
    (steps : List KeyCombination) (maxGap : Duration) (binding : Binding α) (e₁ : Engine α)
    (d₁ : Decision α) (hkind : binding.kind = .sequence steps maxGap) (h : Drawn e n (e₁, d₁)) :
    Drawn e (n + visitArmings k binding) (visitSequence k steps maxGap binding e₁ d₁) := by
  have hfeeds : feeds k.env binding = binding.condition.evaluate k.env.foreground := by
    unfold feeds
    rw [hkind]
  unfold visitSequence
  rw [visitArmings_of_feeds hfeeds]
  by_cases hskip : (k.wasRepeat || !binding.condition.evaluate k.env.foreground) = true
  · rw [if_pos hskip, if_pos hskip]
    exact h
  · rw [if_neg hskip, if_neg hskip]
    dsimp only
    have htimed := e₁.sequences.onKeyDown_timed e₁.ids.generation e₁.keys binding.action steps
      maxGap k.env.now e₁.ids.nextSeq.1
    generalize e₁.sequences.onKeyDown e₁.keys binding.action steps maxGap k.env.now
      e₁.ids.nextSeq.1 = fed at htimed ⊢
    obtain ⟨sequences, outcome⟩ := fed
    cases outcome with
    | notMatching =>
      refine drawn_next h .sequence none rfl (List.append_nil _).symm ?_ h.wf
      exact timed_of_sequences _ rfl rfl rfl htimed
    | advanced due =>
      refine drawn_next h .sequence (some due) rfl rfl ?_ h.wf
      exact timed_of_sequences _ rfl rfl rfl htimed
    | completed action keys =>
      refine drawn_next h .sequence none rfl (List.append_nil _).symm ?_ h.wf
      exact timed_of_sequences _ rfl rfl rfl htimed

theorem visitChord_drawn {e : Engine α} {n : Nat} (k : KeyDown α) (chordKeys : List KeySpec)
    (window : Duration) (binding : Binding α) (e₁ : Engine α) (d₁ : Decision α)
    (hkind : binding.kind = .chord chordKeys window) (h : Drawn e n (e₁, d₁)) :
    Drawn e (n + visitArmings k binding) (visitChord k chordKeys window binding e₁ d₁) := by
  have hfeeds : feeds k.env binding = binding.condition.evaluate k.env.foreground := by
    unfold feeds
    rw [hkind]
  unfold visitChord
  rw [visitArmings_of_feeds hfeeds]
  by_cases hskip : (k.wasRepeat || !binding.condition.evaluate k.env.foreground) = true
  · rw [if_pos hskip, if_pos hskip]
    exact h
  · rw [if_neg hskip, if_neg hskip]
    dsimp only
    have htimed := e₁.chords.onKeyDown_timed e₁.ids.generation k.vk binding.action chordKeys
      window k.env.now e₁.ids.nextSeq.1
    generalize e₁.chords.onKeyDown k.vk binding.action chordKeys window k.env.now
      e₁.ids.nextSeq.1 = fed at htimed ⊢
    obtain ⟨chords, outcome⟩ := fed
    cases outcome with
    | notInChord =>
      refine drawn_next h .chord none rfl (List.append_nil _).symm ?_ h.wf
      exact timed_of_chords _ rfl rfl htimed rfl
    | pending =>
      refine drawn_next h .chord none rfl (List.append_nil _).symm ?_ h.wf
      exact timed_of_chords _ rfl rfl htimed rfl
    | started due =>
      refine drawn_next h .chord (some due) rfl rfl ?_ h.wf
      exact timed_of_chords _ rfl rfl htimed rfl
    | completed action keys =>
      refine drawn_next h .chord none rfl (List.append_nil _).symm ?_ h.wf
      exact timed_of_chords _ rfl rfl htimed rfl

theorem visitCombo_same (k : KeyDown α) (index : Nat) (binding : Binding α) (e : Engine α)
    (d : Decision α) : (visitCombo k index binding e d).1 = e ∧
      (visitCombo k index binding e d).2.timers = d.timers := by
  unfold visitCombo
  split
  · exact ⟨rfl, rfl⟩
  · split
    · refine ⟨rfl, ?_⟩
      dsimp only
      split <;> split <;> rfl
    · exact ⟨rfl, rfl⟩

theorem visits_gestures (k : KeyDown α) (entries : List (Binding α × Nat))
    (acc : Engine α × Decision α) : (entries.foldl (visit k) acc).1.gestures = acc.1.gestures :=
  (visits_frame k entries acc).1

theorem visit_drawn {e : Engine α} {n : Nat} (k : KeyDown α) (acc : Engine α × Decision α)
    (entry : Binding α × Nat) (h : Drawn e n acc) :
    Drawn e (n + visitArmings k entry.1) (visit k acc entry) := by
  unfold visit
  split
  · next combo hkind =>
    have hfeeds : feeds k.env entry.1 = false := by
      unfold feeds
      rw [hkind]
    unfold visitArmings
    rw [hfeeds, Bool.and_false, if_neg Bool.false_ne_true, Nat.add_zero]
    split
    · next mode _ =>
      unfold visitBlocker
      split
      · cases mode
        · exact drawn_of_timed h rfl rfl (List.Subperm.refl _) h.wf
        · dsimp only
          split
          · exact drawn_of_timed h rfl rfl (List.Subperm.refl _) h.wf
          · exact drawn_of_timed h rfl rfl (List.Subperm.refl _) h.wf
      · exact drawn_of_timed h rfl rfl (List.Subperm.refl _) h.wf
    · obtain ⟨he, htimers⟩ := visitCombo_same k entry.2 entry.1 acc.1 acc.2
      refine drawn_of_timed h ?_ htimers ?_ ?_
      · rw [he]
      · rw [he]
      · rw [he]
        exact h.wf
  · next steps maxGap hkind => exact visitSequence_drawn k steps maxGap entry.1 _ _ hkind h
  · next keys window hkind => exact visitChord_drawn k keys window entry.1 _ _ hkind h

theorem visits_drawn {e : Engine α} (k : KeyDown α) (entries : List (Binding α × Nat)) :
    ∀ {n : Nat} {acc : Engine α × Decision α}, Drawn e n acc →
      Drawn e (n + (entries.map fun entry => visitArmings k entry.1).sum)
        (entries.foldl (visit k) acc) := by
  induction entries with
  | nil => exact fun h => h
  | cons entry entries ih =>
    intro n acc h
    have hrest := ih (visit_drawn k acc entry h)
    rw [List.map_cons, List.sum_cons, ← Nat.add_assoc]
    exact hrest

theorem sum_visitArmings (k : KeyDown α) (bindings : List (Binding α)) :
    (bindings.zipIdx.map fun entry => visitArmings k entry.1).sum =
      if k.wasRepeat then 0 else bindings.countP (feeds k.env) := by
  have hmap : (bindings.zipIdx.map fun entry => visitArmings k entry.1) =
      bindings.map (visitArmings k) := by
    have hfst := congrArg (List.map (visitArmings k)) (List.zipIdx_map_fst 0 bindings)
    rwa [List.map_map] at hfst
  rw [hmap]
  clear hmap
  induction bindings with
  | nil => cases k.wasRepeat <;> rfl
  | cons b bs ih =>
    rw [List.map_cons, List.sum_cons, ih, List.countP_cons]
    unfold visitArmings
    cases k.wasRepeat <;> cases feeds k.env b <;> simp
    omega

/-- The numbers of a walk: none for a repeat. -/
theorem walk_drawn {e : Engine α} (hwf : e.gestures.Wf) (k : KeyDown α)
    (bindings : List (Binding α)) (hwinner : ∀ w ∈ k.winner, Elected k.vk bindings e.keys w) :
    Drawn e (if k.wasRepeat then 0 else 1 + bindings.countP (feeds k.env)) (e.walk k bindings) := by
  have hsum := sum_visitArmings k bindings
  unfold walk
  cases hrepeat : k.wasRepeat with
  | true =>
    rw [hrepeat] at hsum
    have h := visits_drawn k bindings.zipIdx (drawn_start e hwf)
    rw [hsum] at h
    exact h
  | false =>
    rw [hrepeat] at hsum
    have h := visits_drawn k bindings.zipIdx (firstKeyDown_drawn hwf k hwinner)
    rw [hsum] at h
    exact h

theorem maskIfSwallowedUnderAltOrWin_timers (e : Engine α) (d : Decision α) :
    (e.maskIfSwallowedUnderAltOrWin d).timers = d.timers := by
  unfold maskIfSwallowedUnderAltOrWin
  split <;> rfl

/-- A key-down repeats if the key was active. -/
theorem KeyState.press_wasActive (ks : KeyState) (vk : VirtualKey) :
    (ks.press vk).1 = ks.isActive vk := by
  by_cases h : vk < 256
  · rw [ks.press_lt h, ks.isActive_lt h]
  · rw [ks.press_ge h, ks.isActive_ge h]

theorem maskIfSwallowedUnderAltOrWin_fire (e : Engine α) (d : Decision α) :
    (e.maskIfSwallowedUnderAltOrWin d).fire = d.fire := by
  unfold maskIfSwallowedUnderAltOrWin
  split <;> rfl

theorem onKeyDown_drawn {e : Engine α} (hwf : e.gestures.Wf) (vk : VirtualKey)
    (bindings : List (Binding α)) (env : Env) :
    Drawn e (if e.keys.isActive vk then 0 else 1 + bindings.countP (feeds env))
      (e.onKeyDown vk bindings env) := by
  have hpress := e.keys.press_wasActive vk
  have hwalk := walk_drawn (e := { e with keys := (e.keys.press vk).2 }) hwf
    ⟨vk, env, (e.keys.press vk).1, elect vk bindings (e.keys.press vk).2 env.foreground⟩ bindings
    fun _ hw => elect_elected hw
  dsimp only at hwalk
  rw [hpress] at hwalk
  unfold onKeyDown
  dsimp only
  rw [hpress]
  refine ⟨hwalk.generation, hwalk.lastSeq, ?_, ?_, hwalk.wf⟩
  · rw [maskIfSwallowedUnderAltOrWin_timers]
    exact hwalk.timed
  · rw [maskIfSwallowedUnderAltOrWin_timers]
    exact hwalk.fresh

theorem onKeyUp_drawn {e : Engine α} (hwf : e.gestures.Wf) (vk : VirtualKey) (env : Env) :
    Drawn e 1 (e.onKeyUp vk env) := by
  have hrelease := Gestures.release_step e.ids.generation hwf vk env.now
    ((e.keys.release vk).isPassed vk) e.ids.nextSeq.1
  refine drawn_next (drawn_start e hwf) (.gesture vk)
    (e.gestures.release vk env.now ((e.keys.release vk).isPassed vk) e.ids.nextSeq.1).2.windowDue
    rfl ?_ ?_ (hrelease.wf hwf)
  · unfold onKeyUp
    dsimp only
    rw [maskIfSwallowedUnderAltOrWin_timers]
    rfl
  · exact timed_of_gestures _ rfl hrelease.timed rfl rfl

/-- The check before a key-down leaves the key's own flag. -/
theorem check_isActive (ks : KeyState) (env : Env) (vk : VirtualKey) :
    (ks.clearReleasedModifiers env vk .all).isActive vk = ks.isActive vk := by
  by_cases h : vk < 256
  · rw [KeyState.isActive_lt _ h, KeyState.isActive_lt _ h,
      KeyState.clearReleasedModifiers_active]
    simp
  · rw [KeyState.isActive_ge _ h, KeyState.isActive_ge _ h]

/-- The engine as a key-down's walk finds it. -/
def keyDownStart (e : Engine α) (vk : VirtualKey) (env : Env) : Engine α :=
  { e with maskOwed := false, resync := e.resync.event vk true, keys := e.heldAt vk env }

/-- A key-down as its walk sees it. -/
def keyDownOf (e : Engine α) (vk : VirtualKey) (bindings : List (Binding α)) (env : Env) :
    KeyDown α :=
  ⟨vk, env, e.keys.isActive vk, elect vk bindings (e.heldAt vk env) env.foreground⟩

/-- What a key-down does to the tables is what its walk does. -/
theorem onKey_down_walk (e : Engine α) (vk : VirtualKey) (bindings : List (Binding α)) (env : Env) :
    ∃ keys, (e.onKey ⟨vk, .down⟩ bindings env).1 =
        { ((e.keyDownStart vk env).walk (e.keyDownOf vk bindings env) bindings).1 with
          keys := keys } ∧
      (e.onKey ⟨vk, .down⟩ bindings env).2.fire =
        ((e.keyDownStart vk env).walk (e.keyDownOf vk bindings env) bindings).2.fire := by
  have hrepeat := (e.keys.clearReleasedModifiers env vk .all).press_wasActive vk
  rw [check_isActive] at hrepeat
  unfold onKey onKeyDown
  dsimp only
  rw [hrepeat]
  exact ⟨_, rfl, maskIfSwallowedUnderAltOrWin_fire _ _⟩

theorem onKey_drawn {e : Engine α} (hwf : e.gestures.Wf) (event : KeyEvent)
    (bindings : List (Binding α)) (env : Env) :
    Drawn e (e.armings (.key event bindings env)) (e.onKey event bindings env) := by
  obtain ⟨vk, direction⟩ := event
  cases direction with
  | down =>
    have h := onKeyDown_drawn (e := { e with
      maskOwed := false, resync := e.resync.event vk true,
      keys := e.keys.clearReleasedModifiers env vk .all }) hwf vk bindings env
    rw [check_isActive] at h
    exact ⟨h.generation, h.lastSeq, h.timed, h.fresh, h.wf⟩
  | up =>
    have h := onKeyUp_drawn (e := { e with
      maskOwed := false, resync := e.resync.event vk true }) hwf vk env
    exact ⟨h.generation, h.lastSeq, h.timed, h.fresh, h.wf⟩

/-! ## Any call -/

/-- What a call that takes `n` numbers does. -/
structure Effect (e : Engine α) (n : Nat) (acc : Engine α × Decision α) : Prop where
  lastSeq : e.ids.lastSeq + n < 2 ^ 64 → acc.1.ids.lastSeq = e.ids.lastSeq + n
  timed : acc.1.timed.Subperm (acc.2.timers ++ e.timed)
  fresh : e.ids.lastSeq + n < 2 ^ 64 → FreshRequests e.ids.lastSeq n acc.2.timers
  wf : acc.1.gestures.Wf

/-- A call that takes no number and makes no request. -/
theorem effect_quiet {e e' : Engine α} {fire : List α} (hlast : e'.ids.lastSeq = e.ids.lastSeq)
    (htimed : e'.timed.Subperm e.timed) (hwf : e'.gestures.Wf) :
    Effect e 0 (e', ⟨false, fire, [], false⟩) :=
  ⟨fun _ => hlast, htimed, fun _ => freshRequests_nil _ _, hwf⟩

theorem onTimer_effect {e : Engine α} (hwf : e.gestures.Wf) (token : TimerToken) :
    Effect e 0 (e.step (.timer token)) := by
  unfold step onTimer
  dsimp only
  split
  · exact effect_quiet rfl (List.Subperm.refl _) hwf
  · split
    · next vk _ =>
      have h := Gestures.onTimer_step e.ids.generation e.gestures vk token.seq
      exact effect_quiet rfl (timed_of_gestures [] rfl h.timed rfl rfl) (h.wf hwf)
    · refine effect_quiet rfl (timed_of_chords [] rfl rfl ?_ rfl) hwf
      exact (List.filter_sublist.map _).subperm
    · refine effect_quiet rfl (timed_of_sequences [] rfl rfl rfl ?_) hwf
      exact (List.filter_sublist.map _).subperm

theorem forgetTimer_effect {e : Engine α} (hwf : e.gestures.Wf) (token : TimerToken) :
    Effect e 0 (e.step (.forget token)) := by
  unfold step forgetTimer
  dsimp only
  split
  · exact effect_quiet rfl (List.Subperm.refl _) hwf
  · split
    · next vk _ =>
      have h := Gestures.forget_step e.ids.generation e.gestures vk token.seq
      exact effect_quiet rfl (timed_of_gestures [] rfl h.timed rfl rfl) (h.wf hwf)
    · exact effect_quiet rfl (List.Subperm.refl _) hwf
    · exact effect_quiet rfl (List.Subperm.refl _) hwf

theorem reset_effect (e : Engine α) (env : Env) (reason : ResetReason) :
    Effect e 0 (e.step (.reset env reason)) := by
  unfold step reset
  cases reason <;> exact effect_quiet rfl List.nil_subperm Gestures.wf_new

theorem resyncIfDue_effect {e : Engine α} (hwf : e.gestures.Wf) (env : Env) (notes : Nat) :
    Effect e 0 (e.step (.resyncIfDue env notes)) := by
  unfold step resyncIfDue
  dsimp only
  split <;> exact effect_quiet rfl (List.Subperm.refl _) hwf

/-- **Every call hands out new numbers only, and no entry waits for a timer that
none waited for before, apart from those the call requests.** -/
theorem step_effect {e : Engine α} (hwf : e.gestures.Wf) (op : Op α) :
    Effect e (e.armings op) (e.step op) := by
  cases op with
  | key event bindings env =>
    have h := onKey_drawn hwf event bindings env
    exact ⟨h.lastSeq, h.timed, h.fresh, h.wf⟩
  | timer token => exact onTimer_effect hwf token
  | forget token => exact forgetTimer_effect hwf token
  | reset env reason => exact reset_effect e env reason
  | foregroundChanged => exact effect_quiet rfl (List.Subperm.refl _) hwf
  | resyncIfDue env notes => exact resyncIfDue_effect hwf env notes
  | inputReturned => exact effect_quiet rfl (List.Subperm.refl _) hwf
  | trackInjected event => exact effect_quiet rfl (List.Subperm.refl _) hwf

end KeySwitch.Engine
