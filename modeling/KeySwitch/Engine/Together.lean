import KeySwitch.Engine.Ops
import KeySwitch.Engine.KeyEffects
import KeySwitch.Engine.Settled

/-!
# Two engines that differ in late timers only

`SameBy u` relates two engines that agree on keys, numbers and Windows' flags,
and whose pending entries agree once what is settled by `u` is taken out. A key
event at `u` or later decides the same in both (`onKey_together`), and a timer
that is due by `u` keeps them the same (`onTimer_together`).

One reading is sharper in an engine whose timer is late: a held press that is
settled counts as evidence of a swallowed key-down at its key-up. That decides
nothing, because a held press has its key-down on record (`Recorded`).
-/

namespace KeySwitch.Engine

open Data Lib

variable {α : Type}

/-- By `u`, with what each has fired, the two engines are the same. -/
structure SameBy (u : Instant) (fired : Multiset α) (e : Engine α) (fired₀ : Multiset α)
    (e₀ : Engine α) : Prop where
  keys : e.keys = e₀.keys
  maskOwed : e.maskOwed = e₀.maskOwed
  ids : e.ids = e₀.ids
  resync : e.resync = e₀.resync
  gestures : Gestures.SameBy u fired e.gestures fired₀ e₀.gestures
  chords : e.chords.retainOpen u = e₀.chords.retainOpen u
  sequences : e.sequences.retainOpen u = e₀.sequences.retainOpen u

theorem sameBy_mono {v u : Instant} (hvu : v ≤ u) {fired fired₀ : Multiset α} {e e₀ : Engine α}
    (h : SameBy v fired e fired₀ e₀) : SameBy u fired e fired₀ e₀ where
  keys := h.keys
  maskOwed := h.maskOwed
  ids := h.ids
  resync := h.resync
  gestures := Gestures.sameBy_mono hvu h.gestures
  chords := by
    rw [← e.chords.retainOpen_retainOpen hvu, h.chords, e₀.chords.retainOpen_retainOpen hvu]
  sequences := by
    rw [← e.sequences.retainOpen_retainOpen hvu, h.sequences,
      e₀.sequences.retainOpen_retainOpen hvu]

/-- Two engines in the middle of one event at `now`, with the decisions they
have come to. -/
structure Together (now : Instant) (fired fired₀ : Multiset α)
    (x x₀ : Engine α × Decision α) : Prop where
  engines : SameBy now (fired + (x.2.fire : Multiset α)) x.1
    (fired₀ + (x₀.2.fire : Multiset α)) x₀.1
  suppress : x.2.suppress = x₀.2.suppress
  timers : x.2.timers = x₀.2.timers
  mask : x.2.mask = x₀.2.mask

/-! ## A key-down -/

theorem firstKeyDown_together {fired fired₀ : Multiset α} {e e₀ : Engine α} (k : KeyDown α)
    (h : SameBy k.env.now fired e fired₀ e₀) (hwf : e.gestures.Wf) (hwf₀ : e₀.gestures.Wf)
    (bindings : List (Binding α)) :
    Together k.env.now fired fired₀ (e.firstKeyDown k bindings) (e₀.firstKeyDown k bindings) := by
  have hsettled := h.gestures.settled
  have hothers := e.gestures.otherKeyDown_catchesUp k.vk e.keys k.env.now
  have hothers₀ := e₀.gestures.otherKeyDown_catchesUp k.vk e₀.keys k.env.now
  rw [← hsettled, ← h.keys] at hothers₀
  have hsame := Gestures.sameBy_of_catchesUp h.gestures hothers hothers₀
  have hwf' := (Gestures.otherKeyDown_step 0 e.gestures k.vk e.keys k.env.now).wf hwf
  have hwf₀' := (Gestures.otherKeyDown_step 0 e₀.gestures k.vk e.keys k.env.now).wf hwf₀
  generalize hgroup : (k.winner.bind fun w => w.deferredGroup k.vk bindings e.keys) = group
  obtain ⟨hpress, hdue⟩ := Gestures.press_catchesUp hwf' k.vk group k.env.now e.ids.nextSeq.1
  obtain ⟨hpress₀, hdue₀⟩ := Gestures.press_catchesUp hwf₀' k.vk group k.env.now e.ids.nextSeq.1
  rw [← hsame.settled] at hpress₀ hdue₀
  have hboth := Gestures.sameBy_of_catchesUp hsame hpress hpress₀
  unfold firstKeyDown
  dsimp only
  rw [← h.keys, ← h.ids, hgroup]
  refine ⟨⟨rfl, h.maskOwed, rfl, h.resync, ?_, h.chords, h.sequences⟩, rfl, ?_, rfl⟩
  · dsimp only
    rw [← Multiset.coe_add, ← Multiset.coe_add, ← add_assoc, ← add_assoc]
    exact hboth
  · dsimp only
    rw [hdue, hdue₀]

/-- Asking both for suppression. -/
theorem together_swallow {now : Instant} {fired fired₀ : Multiset α} {e e₀ : Engine α}
    {d d₀ : Decision α} (h : Together now fired fired₀ (e, d) (e₀, d₀)) :
    Together now fired fired₀ (e, d.swallow) (e₀, d₀.swallow) :=
  ⟨h.engines, rfl, h.timers, h.mask⟩

/-- Both fire one more action. -/
theorem together_push {now : Instant} {fired fired₀ : Multiset α} {e e₀ : Engine α}
    {d d₀ : Decision α} (h : Together now fired fired₀ (e, d) (e₀, d₀)) (action : α) :
    Together now fired fired₀ (e, d.push action) (e₀, d₀.push action) := by
  refine ⟨⟨h.engines.keys, h.engines.maskOwed, h.engines.ids, h.engines.resync,
    ⟨h.engines.gestures.settled, ?_⟩, h.engines.chords, h.engines.sequences⟩, h.suppress,
    h.timers, h.mask⟩
  have htotal := h.engines.gestures.total
  dsimp only [Decision.push] at htotal ⊢
  rw [← Multiset.coe_add, ← Multiset.coe_add, ← add_assoc, ← add_assoc, add_right_comm, htotal,
    add_right_comm]

theorem together_pushTimer {now : Instant} {fired fired₀ : Multiset α} {e e₀ : Engine α}
    {d d₀ : Decision α} (h : Together now fired fired₀ (e, d) (e₀, d₀)) (request : TimerRequest) :
    Together now fired fired₀ (e, d.pushTimer request) (e₀, d₀.pushTimer request) := by
  refine ⟨h.engines, h.suppress, ?_, h.mask⟩
  have htimers := h.timers
  dsimp only [Decision.pushTimer] at htimers ⊢
  rw [htimers]

theorem visitBlocker_together {fired fired₀ : Multiset α} {e e₀ : Engine α} {d d₀ : Decision α}
    (k : KeyDown α) (combo : KeyCombination) (mode : BlockerMode) (condition : Condition)
    (h : Together k.env.now fired fired₀ (e, d) (e₀, d₀)) :
    Together k.env.now fired fired₀ (visitBlocker k combo mode condition e d)
      (visitBlocker k combo mode condition e₀ d₀) := by
  unfold visitBlocker
  rw [← h.engines.keys]
  split
  · cases mode with
    | swallow => exact together_swallow h
    | maskOnly =>
      dsimp only
      split
      · exact h
      · exact ⟨⟨rfl, rfl, h.engines.ids, h.engines.resync, h.engines.gestures,
          h.engines.chords, h.engines.sequences⟩, h.suppress, h.timers, rfl⟩
  · exact h

theorem visitCombo_together {fired fired₀ : Multiset α} {e e₀ : Engine α} {d d₀ : Decision α}
    (k : KeyDown α) (index : Nat) (binding : Binding α)
    (h : Together k.env.now fired fired₀ (e, d) (e₀, d₀)) :
    Together k.env.now fired fired₀ (visitCombo k index binding e d)
      (visitCombo k index binding e₀ d₀) := by
  unfold visitCombo
  have hkeys := h.engines.keys
  dsimp only at hkeys
  rw [← hkeys]
  split
  · exact h
  · split
    · have hpush : Together k.env.now fired fired₀
          (e, if !k.wasRepeat || binding.repeats then d.push binding.action else d)
          (e₀, if !k.wasRepeat || binding.repeats then d₀.push binding.action else d₀) := by
        split
        · exact together_push h binding.action
        · exact h
      dsimp only
      split
      · exact together_swallow hpush
      · exact hpush
    · exact h

theorem visitSequence_together {fired fired₀ : Multiset α} {e e₀ : Engine α} {d d₀ : Decision α}
    (k : KeyDown α) (steps : List KeyCombination) (maxGap : Duration) (binding : Binding α)
    (h : Together k.env.now fired fired₀ (e, d) (e₀, d₀)) :
    Together k.env.now fired fired₀ (visitSequence k steps maxGap binding e d)
      (visitSequence k steps maxGap binding e₀ d₀) := by
  unfold visitSequence
  split
  · exact h
  · dsimp only
    have hfed := e.sequences.onKeyDown_retainOpen e.keys binding.action steps maxGap k.env.now
      e.ids.nextSeq.1
    have hfed₀ := e₀.sequences.onKeyDown_retainOpen e₀.keys binding.action steps maxGap k.env.now
      e₀.ids.nextSeq.1
    have hkeys := h.engines.keys
    have hids := h.engines.ids
    have hopen := h.engines.sequences
    dsimp only at hkeys hids hopen
    rw [← hkeys, ← hids, ← hopen] at hfed₀
    rw [← hkeys, ← hids]
    have houtcome := hfed.1.symm.trans hfed₀.1
    have hnext := hfed.2.symm.trans hfed₀.2
    generalize e.sequences.onKeyDown e.keys binding.action steps maxGap k.env.now
      e.ids.nextSeq.1 = fed at houtcome hnext ⊢
    generalize e₀.sequences.onKeyDown e.keys binding.action steps maxGap k.env.now
      e.ids.nextSeq.1 = fed₀ at houtcome hnext ⊢
    obtain ⟨sequences, outcome⟩ := fed
    obtain ⟨sequences₀, outcome₀⟩ := fed₀
    obtain rfl : outcome = outcome₀ := houtcome
    have hstart : Together k.env.now fired fired₀
        ({ e with ids := e.ids.nextSeq.2, sequences := sequences }, d)
        ({ e₀ with keys := e.keys, ids := e.ids.nextSeq.2, sequences := sequences₀ }, d₀) :=
      ⟨⟨rfl, h.engines.maskOwed, rfl, h.engines.resync, h.engines.gestures, h.engines.chords,
        hnext⟩, h.suppress, h.timers, h.mask⟩
    cases outcome with
    | notMatching => exact hstart
    | advanced due => exact together_pushTimer (together_swallow hstart) _
    | completed action keys =>
      refine together_push (together_swallow ?_) action
      exact ⟨⟨rfl, h.engines.maskOwed, rfl, h.engines.resync, h.engines.gestures,
        h.engines.chords, hnext⟩, h.suppress, h.timers, h.mask⟩

theorem visitChord_together {fired fired₀ : Multiset α} {e e₀ : Engine α} {d d₀ : Decision α}
    (k : KeyDown α) (chordKeys : List KeySpec) (window : Duration) (binding : Binding α)
    (h : Together k.env.now fired fired₀ (e, d) (e₀, d₀)) :
    Together k.env.now fired fired₀ (visitChord k chordKeys window binding e d)
      (visitChord k chordKeys window binding e₀ d₀) := by
  unfold visitChord
  split
  · exact h
  · dsimp only
    have hfed := e.chords.onKeyDown_retainOpen k.vk binding.action chordKeys window k.env.now
      e.ids.nextSeq.1
    have hfed₀ := e₀.chords.onKeyDown_retainOpen k.vk binding.action chordKeys window k.env.now
      e₀.ids.nextSeq.1
    have hkeys := h.engines.keys
    have hids := h.engines.ids
    have hopen := h.engines.chords
    dsimp only at hkeys hids hopen
    rw [← hids, ← hopen] at hfed₀
    rw [← hids, ← hkeys]
    have houtcome := hfed.1.symm.trans hfed₀.1
    have hnext := hfed.2.symm.trans hfed₀.2
    generalize e.chords.onKeyDown k.vk binding.action chordKeys window k.env.now
      e.ids.nextSeq.1 = fed at houtcome hnext ⊢
    generalize e₀.chords.onKeyDown k.vk binding.action chordKeys window k.env.now
      e.ids.nextSeq.1 = fed₀ at houtcome hnext ⊢
    obtain ⟨chords, outcome⟩ := fed
    obtain ⟨chords₀, outcome₀⟩ := fed₀
    obtain rfl : outcome = outcome₀ := houtcome
    have hstart : Together k.env.now fired fired₀
        ({ e with ids := e.ids.nextSeq.2, chords := chords }, d)
        ({ e₀ with keys := e.keys, ids := e.ids.nextSeq.2, chords := chords₀ }, d₀) :=
      ⟨⟨rfl, h.engines.maskOwed, rfl, h.engines.resync, h.engines.gestures, hnext,
        h.engines.sequences⟩, h.suppress, h.timers, h.mask⟩
    cases outcome with
    | notInChord => exact hstart
    | pending => exact together_swallow hstart
    | started due => exact together_pushTimer (together_swallow hstart) _
    | completed action keys =>
      refine together_push (together_swallow ?_) action
      exact ⟨⟨rfl, h.engines.maskOwed, rfl, h.engines.resync, h.engines.gestures, hnext,
        h.engines.sequences⟩, h.suppress, h.timers, h.mask⟩

theorem visit_together {fired fired₀ : Multiset α} {x x₀ : Engine α × Decision α} (k : KeyDown α)
    (entry : Binding α × Nat) (h : Together k.env.now fired fired₀ x x₀) :
    Together k.env.now fired fired₀ (visit k x entry) (visit k x₀ entry) := by
  unfold visit
  split
  · split
    · exact visitBlocker_together k _ _ _ h
    · exact visitCombo_together k _ _ h
  · exact visitSequence_together k _ _ _ h
  · exact visitChord_together k _ _ _ h

theorem walk_together {fired fired₀ : Multiset α} {e e₀ : Engine α} (k : KeyDown α)
    (h : SameBy k.env.now fired e fired₀ e₀) (hwf : e.gestures.Wf) (hwf₀ : e₀.gestures.Wf)
    (bindings : List (Binding α)) :
    Together k.env.now fired fired₀ (e.walk k bindings) (e₀.walk k bindings) := by
  have hvisits : ∀ (entries : List (Binding α × Nat)) (x x₀ : Engine α × Decision α),
      Together k.env.now fired fired₀ x x₀ →
      Together k.env.now fired fired₀ (entries.foldl (visit k) x) (entries.foldl (visit k) x₀) := by
    intro entries
    induction entries with
    | nil => exact fun _ _ h => h
    | cons entry entries ih => exact fun x x₀ h => ih _ _ (visit_together k entry h)
  unfold walk
  refine hvisits bindings.zipIdx _ _ ?_
  split
  · refine ⟨?_, rfl, rfl, rfl⟩
    dsimp only [Decision.default]
    rw [Multiset.coe_nil, add_zero, add_zero]
    exact h
  · exact firstKeyDown_together k h hwf hwf₀ bindings

/-- The mask rule reads the keys only. -/
theorem together_mask {now : Instant} {fired fired₀ : Multiset α} {e e₀ : Engine α}
    {d d₀ : Decision α} (h : Together now fired fired₀ (e, d) (e₀, d₀)) :
    Together now fired fired₀ (e, e.maskIfSwallowedUnderAltOrWin d)
      (e₀, e₀.maskIfSwallowedUnderAltOrWin d₀) := by
  unfold maskIfSwallowedUnderAltOrWin
  have hkeys := h.engines.keys
  have hsuppress := h.suppress
  dsimp only at hkeys hsuppress
  rw [hkeys, hsuppress]
  split
  · exact ⟨h.engines, rfl, h.timers, rfl⟩
  · exact h

theorem onKeyDown_together {fired fired₀ : Multiset α} {e e₀ : Engine α} (vk : VirtualKey)
    (bindings : List (Binding α)) (env : Env) (h : SameBy env.now fired e fired₀ e₀)
    (hwf : e.gestures.Wf) (hwf₀ : e₀.gestures.Wf) :
    Together env.now fired fired₀ (e.onKeyDown vk bindings env)
      (e₀.onKeyDown vk bindings env) := by
  unfold onKeyDown
  dsimp only
  rw [← h.keys]
  have hpressed : SameBy env.now fired { e with keys := (e.keys.press vk).2 } fired₀
      { e₀ with keys := (e.keys.press vk).2 } :=
    ⟨rfl, h.maskOwed, h.ids, h.resync, h.gestures, h.chords, h.sequences⟩
  have hwalk := walk_together ⟨vk, env, (e.keys.press vk).1,
    elect vk bindings (e.keys.press vk).2 env.foreground⟩ hpressed hwf hwf₀ bindings
  generalize walk { e with keys := (e.keys.press vk).2 } _ bindings = walked at hwalk ⊢
  generalize walk { e₀ with keys := (e.keys.press vk).2 } _ bindings = walked₀ at hwalk ⊢
  rw [← hwalk.engines.keys, ← hwalk.suppress]
  refine together_mask ?_
  exact ⟨⟨rfl, hwalk.engines.maskOwed, hwalk.engines.ids, hwalk.engines.resync,
    hwalk.engines.gestures, hwalk.engines.chords, hwalk.engines.sequences⟩, rfl, hwalk.timers,
    hwalk.mask⟩

/-! ## Held presses are on record -/

/-- Every held press has a table entry, with its key-down on record. -/
def Recorded (e : Engine α) : Prop :=
  ∀ p ∈ e.gestures.presses, p.phase.isHeld = true →
    p.vk < 256 ∧ (e.keys.lastDown p.vk = .passed ∨ e.keys.lastDown p.vk = .suppressed)

theorem recorded_new : Recorded (new : Engine α) := by simp [Recorded, new, Gestures.new]

/-- A key-down that presses a key of a combo has a table entry. -/
theorem comboMatches_lt {combo : KeyCombination} {pressed : VirtualKey} {held : KeyState}
    {allow : Bool} (h : comboMatches combo pressed held allow = true) : pressed < 256 := by
  obtain ⟨htrigger, hdown⟩ := comboMatches_keysDown h
  unfold isTriggerKey at htrigger
  obtain ⟨key, hkey, haccepts⟩ := List.any_eq_true.mp htrigger
  rw [Bool.and_eq_true] at haccepts
  have hheld := List.all_eq_true.mp hdown key hkey
  cases key with
  | key vk =>
    have hvk : pressed = vk := by simpa [KeySpec.accepts] using haccepts.1
    by_contra hge
    rw [hvk] at hge
    rw [KeyState.isDown, KeyState.isActive_ge _ hge] at hheld
    exact absurd hheld Bool.false_ne_true
  | anySide m =>
    have hcode := haccepts.1
    simp only [KeySpec.accepts, Bool.or_eq_true, beq_iff_eq] at hcode
    cases m with
    | win =>
      rcases hcode with (rfl | rfl) | hnone
      · decide
      · decide
      · exact absurd hnone (by simp [Modifier.generic])
    | _ => rcases hcode with (rfl | rfl) | hcode <;> first | decide | (cases hcode; decide)

theorem Gestures.arm_presses {g : Gestures α} {vk : VirtualKey} {group : Option (GroupArming α)}
    {now : Instant} {seq : Nat} {p : Press α} (hp : p ∈ (g.arm vk group now seq).1.presses) :
    p ∈ g.presses ∨ (p.vk = vk ∧ group.isSome = true) := by
  cases group with
  | none => exact Or.inl hp
  | some gr =>
    rcases List.mem_append.mp hp with hp | hp
    · exact Or.inl hp
    · rw [List.mem_singleton.mp hp]
      exact Or.inr ⟨rfl, rfl⟩

/-- After a first key-down a press is one from before, or the one just armed. -/
theorem Gestures.press_presses {g : Gestures α} {vk : VirtualKey}
    {group : Option (GroupArming α)} {now : Instant} {seq : Nat} {p : Press α}
    (hp : p ∈ (g.press vk group now seq).1.presses) :
    p ∈ g.presses ∨ (p.vk = vk ∧ group.isSome = true) := by
  have hrest : ∀ {q : Press α}, q ∈ g.presses.eraseP (fun p => p.vk == vk) → q ∈ g.presses :=
    fun hq => List.eraseP_sublist.subset hq
  unfold Gestures.press at hp
  dsimp only at hp
  split at hp
  · exact arm_presses hp
  · unfold supersede at hp
    split at hp
    · split at hp
      · exact Or.inl (hrest hp)
      · exact (arm_presses hp).imp hrest id
    · dsimp only at hp
      split at hp
      · split at hp
        · exact (arm_presses hp).imp hrest id
        · exact (arm_presses hp).imp hrest id
      · exact (arm_presses hp).imp hrest id

/-- After a key-up a held press is one of another key from before. -/
theorem Gestures.release_held {g : Gestures α} (hg : g.Wf) {vk : VirtualKey} {now : Instant}
    {passed : Bool} {seq : Nat} {p : Press α}
    (hp : p ∈ (g.release vk now passed seq).1.presses) (hheld : p.phase.isHeld = true) :
    p ∈ g.presses ∧ p.vk ≠ vk := by
  unfold Gestures.release at hp
  dsimp only at hp
  split at hp
  · next hnone =>
    refine ⟨hp, fun hvk => ?_⟩
    have hnot := List.find?_eq_none.mp hnone p hp
    simp [hvk, hheld] at hnot
  · next press hfound =>
    obtain ⟨as, bs, hsplit, -, hours, herase, -⟩ := find?_split hfound
    rw [Bool.and_eq_true, beq_iff_eq] at hours
    have hrest : p ∈ as ++ bs → p ∈ g.presses ∧ p.vk ≠ vk := by
      intro hp
      have hkeys := hg.keys
      rw [hsplit] at hkeys
      refine ⟨?_, by rw [← hours.1]; exact notMem_split hkeys p hp⟩
      rw [hsplit]
      rcases List.mem_append.mp hp with hp | hp
      · exact List.mem_append_left _ hp
      · exact List.mem_append_right _ (List.mem_cons_of_mem _ hp)
    rw [herase] at hp
    have hinTime : ∀ tap hadHold double,
        p ∈ (releaseInTime { g with presses := as ++ bs } vk now passed seq tap hadHold
          double).1.presses → p ∈ g.presses ∧ p.vk ≠ vk := by
      intro tap hadHold double hp
      unfold releaseInTime at hp
      dsimp only at hp
      split at hp
      · rcases List.mem_append.mp hp with hp | hp
        · exact hrest hp
        · rw [List.mem_singleton.mp hp] at hheld
          exact absurd hheld Bool.false_ne_true
      · exact hrest hp
    unfold resolve at hp
    split at hp
    · exact hrest hp
    · split at hp
      · exact hrest hp
      · exact hinTime _ _ _ hp
    · exact hinTime _ _ _ hp

theorem Gestures.onTimer_presses {g : Gestures α} {vk : VirtualKey} {seq : Nat} {p : Press α}
    (hp : p ∈ (g.onTimer vk seq).1.presses) : p ∈ g.presses := by
  unfold Gestures.onTimer at hp
  split at hp
  · exact hp
  · next g' due action htake =>
    have hmem := (List.mem_filter.mp hp).1
    unfold takeTimer at htake
    split at htake
    · simp only [Option.some.injEq, Prod.mk.injEq] at htake
      obtain ⟨rfl, -, -⟩ := htake
      exact hmem
    · split at htake
      · exact absurd htake (by simp)
      · split at htake
        · simp only [Option.some.injEq, Prod.mk.injEq] at htake
          obtain ⟨rfl, -, -⟩ := htake
          exact List.eraseP_sublist.subset hmem
        · exact absurd htake (by simp)

/-- A walk leaves the presses from before, and the one a first key-down of a
winner arms. -/
theorem walk_presses {e : Engine α} {k : KeyDown α} {bindings : List (Binding α)} {p : Press α}
    (hp : p ∈ (e.walk k bindings).1.gestures.presses) :
    p ∈ e.gestures.presses ∨ (p.vk = k.vk ∧ k.wasRepeat = false ∧ k.winner.isSome = true) := by
  unfold walk at hp
  rw [visits_gestures] at hp
  split at hp
  · exact Or.inl hp
  · next hfirst =>
    rcases Gestures.press_presses hp with hp | ⟨hvk, hgroup⟩
    · exact Or.inl (List.mem_filter.mp hp).1
    · refine Or.inr ⟨hvk, by simpa using hfirst, ?_⟩
      cases hwinner : k.winner with
      | none =>
        rw [hwinner] at hgroup
        exact absurd hgroup (by simp)
      | some w => rfl

theorem onKeyDown_recorded {e : Engine α} (h : Recorded e) (vk : VirtualKey)
    (bindings : List (Binding α)) (env : Env) : Recorded (e.onKeyDown vk bindings env).1 := by
  have hdecided := e.onKeyDown_decided vk bindings env
  intro p hp hheld
  have hp' : p ∈ e.gestures.presses ∨
      (p.vk = vk ∧ (e.keys.press vk).1 = false ∧
        (elect vk bindings (e.keys.press vk).2 env.foreground).isSome = true) := by
    unfold onKeyDown at hp
    exact walk_presses hp
  rcases hp' with hp' | ⟨hvk, hfirst, hwinner⟩
  · obtain ⟨hlt, hrecord⟩ := h p hp' hheld
    refine ⟨hlt, ?_⟩
    by_cases hvk : p.vk = vk
    · rw [hvk] at hlt hrecord ⊢
      cases hactive : e.keys.active vk with
      | false =>
        have hown := hdecided.first hlt hactive
        split at hown
        · exact Or.inr hown
        · exact Or.inl hown
      | true =>
        rcases hrecord with hpassed | hsuppressed
        · exact Or.inl (hdecided.afterPassed hlt hactive hpassed).2
        · exact Or.inr (hdecided.afterSwallowed hlt hactive hsuppressed).2
    · rcases hdecided.others p.vk hvk with hsame | ⟨-, -, hsuppressed⟩
      · rw [hsame]
        exact hrecord
      · exact Or.inr hsuppressed
  · obtain ⟨w, hw⟩ := Option.isSome_iff_exists.mp hwinner
    obtain ⟨combo, -, hmatch⟩ := (elect_elected hw).combo
    have hlt := comboMatches_lt hmatch
    rw [hvk]
    refine ⟨hlt, ?_⟩
    rw [e.keys.press_lt hlt] at hfirst
    have hown := hdecided.first hlt hfirst
    split at hown
    · exact Or.inr hown
    · exact Or.inl hown

theorem onKeyUp_recorded {e : Engine α} (h : Recorded e) (hwf : e.gestures.Wf) (vk : VirtualKey)
    (env : Env) : Recorded (e.onKeyUp vk env).1 := by
  have hdecided := e.onKeyUp_decided vk env
  intro p hp hheld
  obtain ⟨hmem, hvk⟩ := Gestures.release_held hwf hp hheld
  rw [hdecided.others p.vk hvk]
  exact h p hmem hheld

/-- **A key event keeps the key-downs of held presses on record.** -/
theorem onKey_recorded {e : Engine α} (h : Recorded e) (hwf : e.gestures.Wf) (event : KeyEvent)
    (bindings : List (Binding α)) (env : Env) : Recorded (e.onKey event bindings env).1 := by
  obtain ⟨vk, direction⟩ := event
  cases direction with
  | down =>
    refine @onKeyDown_recorded α { e with
      maskOwed := false, resync := e.resync.event vk true,
      keys := e.keys.clearReleasedModifiers env vk .all } ?_ vk bindings env
    intro p hp hheld
    rw [KeyState.clearReleasedModifiers_lastDown]
    exact h p hp hheld
  | up =>
    exact @onKeyUp_recorded α { e with
      maskOwed := false, resync := e.resync.event vk true } h hwf vk env

theorem onTimer_recorded {e : Engine α} (h : Recorded e) (token : TimerToken) :
    Recorded (e.onTimer token).1 := by
  intro p hp hheld
  rw [onTimer_keys]
  refine h p ?_ hheld
  unfold onTimer at hp
  split at hp
  · exact hp
  · split at hp
    · exact Gestures.onTimer_presses hp
    · exact hp
    · exact hp

/-! ## A key-up, a whole key event, a timer -/

/-- Whether a key-up finds its key-down swallowed does not depend on the settled
presses. -/
theorem release_swallow {e : Engine α} (h : Recorded e) (hwf : e.gestures.Wf) (vk : VirtualKey)
    (now : Instant) (seq : Nat) :
    (((e.keys.release vk).takeBlocked vk).1 ||
        ((e.gestures.release vk now ((e.keys.release vk).isPassed vk) seq).2.gestureBound
          && !(e.keys.release vk).isPassed vk)) =
      (((e.keys.release vk).takeBlocked vk).1 ||
        (((e.gestures.settled now).release vk now ((e.keys.release vk).isPassed vk)
          seq).2.gestureBound && !(e.keys.release vk).isPassed vk)) := by
  obtain ⟨-, -, hbound⟩ :=
    Gestures.release_catchesUp hwf vk now ((e.keys.release vk).isPassed vk) seq
  rcases hbound with hbound | ⟨p, hp, rfl, hheld⟩
  · rw [hbound]
  · obtain ⟨hlt, hrecord⟩ := h p hp hheld
    rw [KeyState.isPassed_lt _ hlt, KeyState.takeBlocked_lt _ hlt, KeyState.release_lastDown]
    rcases hrecord with hrecord | hrecord <;> simp [hrecord]

theorem onKeyUp_together {fired fired₀ : Multiset α} {e e₀ : Engine α} (vk : VirtualKey)
    (env : Env) (h : SameBy env.now fired e fired₀ e₀) (hwf : e.gestures.Wf)
    (hwf₀ : e₀.gestures.Wf) (hrec : Recorded e) (hrec₀ : Recorded e₀) :
    Together env.now fired fired₀ (e.onKeyUp vk env) (e₀.onKeyUp vk env) := by
  have hsettled := h.gestures.settled
  have hswallow := release_swallow hrec hwf vk env.now e.ids.nextSeq.1
  have hswallow₀ := release_swallow hrec₀ hwf₀ vk env.now e.ids.nextSeq.1
  rw [← h.keys, ← hsettled] at hswallow₀
  obtain ⟨hrelease, hdue, -⟩ := Gestures.release_catchesUp hwf vk env.now
    ((e.keys.release vk).isPassed vk) e.ids.nextSeq.1
  obtain ⟨hrelease₀, hdue₀, -⟩ := Gestures.release_catchesUp hwf₀ vk env.now
    ((e.keys.release vk).isPassed vk) e.ids.nextSeq.1
  rw [← hsettled] at hrelease₀ hdue₀
  have hboth := Gestures.sameBy_of_catchesUp h.gestures hrelease hrelease₀
  unfold onKeyUp
  dsimp only
  rw [← h.keys, ← h.ids, hswallow, hswallow₀, hdue, hdue₀]
  refine together_mask ?_
  exact ⟨⟨rfl, h.maskOwed, rfl, h.resync, hboth, h.chords, h.sequences⟩, rfl, rfl, rfl⟩

/-- **A key event decides the same in two engines that are the same by its
time, and keeps them the same.** -/
theorem onKey_together {fired fired₀ : Multiset α} {e e₀ : Engine α} (event : KeyEvent)
    (bindings : List (Binding α)) (env : Env) (h : SameBy env.now fired e fired₀ e₀)
    (hwf : e.gestures.Wf) (hwf₀ : e₀.gestures.Wf) (hrec : Recorded e) (hrec₀ : Recorded e₀) :
    Together env.now fired fired₀ (e.onKey event bindings env) (e₀.onKey event bindings env) := by
  obtain ⟨vk, direction⟩ := event
  unfold onKey
  cases direction with
  | down =>
    have hdecided : Together env.now fired fired₀
        (onKeyDown
          { e with
            maskOwed := false, resync := e.resync.event vk true,
            keys := e.keys.clearReleasedModifiers env vk .all } vk bindings env)
        (onKeyDown
          { e₀ with
            maskOwed := false, resync := e₀.resync.event vk true,
            keys := e₀.keys.clearReleasedModifiers env vk .all } vk bindings env) := by
      refine onKeyDown_together vk bindings env ?_ hwf hwf₀
      exact ⟨by rw [h.keys], rfl, h.ids, by rw [h.resync], h.gestures, h.chords, h.sequences⟩
    refine ⟨hdecided.engines, hdecided.suppress, hdecided.timers, ?_⟩
    have hmask := hdecided.mask
    dsimp only at hmask ⊢
    rw [hmask, h.maskOwed]
  | up =>
    have hdecided : Together env.now fired fired₀
        (onKeyUp { e with maskOwed := false, resync := e.resync.event vk true } vk env)
        (onKeyUp { e₀ with maskOwed := false, resync := e₀.resync.event vk true } vk env) := by
      refine onKeyUp_together vk env ?_ hwf hwf₀ hrec hrec₀
      exact ⟨h.keys, rfl, h.ids, by rw [h.resync], h.gestures, h.chords, h.sequences⟩
    refine ⟨hdecided.engines, hdecided.suppress, hdecided.timers, ?_⟩
    have hmask := hdecided.mask
    dsimp only at hmask ⊢
    rw [hmask, h.maskOwed]

/-- **A timer that is due by `u` keeps the engine the same by `u`.** -/
theorem onTimer_together {u : Instant} {fired fired₀ : Multiset α} {e e₀ : Engine α}
    (token : TimerToken) (h : SameBy u fired e fired₀ e₀)
    (hdue : ∀ due, (⟨token, due⟩ : TimerRequest) ∈ e.timed → due ≤ u) :
    SameBy u (fired + ((e.onTimer token).2 : Multiset α)) (e.onTimer token).1 fired₀ e₀ := by
  obtain ⟨generation, slot, seq⟩ := token
  have hnothing : fired + (([] : List α) : Multiset α) = fired := by simp
  unfold onTimer
  dsimp only
  split
  · rw [hnothing]
    exact h
  · next hgeneration =>
    have hgeneration : generation = e.ids.generation := by simpa using hgeneration
    subst hgeneration
    cases slot with
    | gesture vk =>
      obtain ⟨hsettled, howed⟩ := @Gestures.onTimer_settles α e.gestures vk seq e.ids.generation u
        fun due hmem => hdue due (mem_timed.mpr (Or.inl hmem))
      refine ⟨h.keys, h.maskOwed, h.ids, h.resync, ⟨hsettled.trans h.gestures.settled, ?_⟩,
        h.chords, h.sequences⟩
      dsimp only
      rw [add_assoc, ← howed]
      exact h.gestures.total
    | chord =>
      rw [hnothing]
      refine ⟨h.keys, h.maskOwed, h.ids, h.resync, h.gestures, ?_, h.sequences⟩
      refine (e.chords.expire_retainOpen fun p hp hseq => ?_).trans h.chords
      refine hdue p.expiresAt (mem_timed.mpr (Or.inr (Or.inl (List.mem_map.mpr ⟨p, hp, ?_⟩))))
      rw [PendingChord.timed, hseq]
    | sequence =>
      rw [hnothing]
      refine ⟨h.keys, h.maskOwed, h.ids, h.resync, h.gestures, h.chords, ?_⟩
      refine (e.sequences.expire_retainOpen fun p hp hseq => ?_).trans h.sequences
      refine hdue p.expiresAt (mem_timed.mpr (Or.inr (Or.inr (List.mem_map.mpr ⟨p, hp, ?_⟩))))
      rw [PendingSequence.timed, hseq]

end KeySwitch.Engine
