import KeySwitch.Engine.CarriedTimers
import KeySwitch.Engine.Provenance

/-!
# Every call is a cue to an armed press

`cueOf` reads off what a call is to the press of an arming. A call whose list
brings no marked action moves the press as its life moves on that cue, and fires
of the marked actions what the life fires (`step_cued`); the call that arms the
press starts its life (`step_arms`).

Only gestures are marked: what chords, sequences and `Immediate` bindings fire
never is (`visits_quiet`).
-/

namespace KeySwitch.Engine

open Data Lib

variable {α : Type}

/-! ## The group of a key-down -/

/-- The gestures of the group that wins the first key-down of `vk`. -/
def groupAt (e : Engine α) (vk : VirtualKey) (bindings : List (Binding α)) (env : Env) :
    Option (GroupArming α) :=
  (elect vk bindings (e.heldAt vk env) env.foreground).bind fun w =>
    w.deferredGroup vk bindings (e.heldAt vk env)

/-- What a group arms at `now` on the key-down of `vk`, as the number `seq`. -/
def armingOf (group : GroupArming α) (vk : VirtualKey) (now : Instant) (seq : Nat) : Arming α where
  vk := vk
  seq := seq
  tap := group.tap.map fun (term, action) => (now + term, action)
  hold := group.hold.map fun (term, action) => (now + term, action)
  double := group.doubleTap.map fun (term, action) =>
    (now + term, action, ⟨group.keys, group.condition⟩)

theorem armed_eq_held (group : GroupArming α) (vk : VirtualKey) (now : Instant) (seq : Nat) :
    (⟨vk, seq, Gestures.armed group now⟩ : Press α) =
      (armingOf group vk now seq).held (armingOf group vk now seq).hold := rfl

/-- Every gesture of the group is that of a `keys` binding of the list. -/
structure GroupArming.From (bindings : List (Binding α)) (group : GroupArming α) : Prop where
  tap : ∀ x ∈ group.tap, ∃ b ∈ bindings, ∃ combo ms,
    b.kind = .combo combo ∧ b.trigger = .tap ms ∧ x.2 = b.action
  hold : ∀ x ∈ group.hold, ∃ b ∈ bindings, ∃ combo ms,
    b.kind = .combo combo ∧ b.trigger = .hold ms ∧ x.2 = b.action
  double : ∀ x ∈ group.doubleTap, ∃ b ∈ bindings, ∃ combo ms,
    b.kind = .combo combo ∧ b.trigger = .doubleTap ms ∧ x.2 = b.action

theorem join_from {bindings : List (Binding α)} {group : GroupArming α} (h : group.From bindings)
    {b : Binding α} (hb : b ∈ bindings) {combo : KeyCombination} (hkind : b.kind = .combo combo) :
    (group.join b).From bindings := by
  unfold GroupArming.join
  split
  · next ms htrigger =>
    refine ⟨fun x hx => ?_, h.hold, h.double⟩
    obtain rfl := Option.some.inj hx
    exact ⟨b, hb, combo, ms, hkind, htrigger, rfl⟩
  · next ms htrigger =>
    refine ⟨h.tap, fun x hx => ?_, h.double⟩
    obtain rfl := Option.some.inj hx
    exact ⟨b, hb, combo, ms, hkind, htrigger, rfl⟩
  · next ms htrigger =>
    refine ⟨h.tap, h.hold, fun x hx => ?_⟩
    obtain rfl := Option.some.inj hx
    exact ⟨b, hb, combo, ms, hkind, htrigger, rfl⟩
  · exact h

theorem deferredGroup_from {vk : VirtualKey} {bindings : List (Binding α)} {held : KeyState}
    {w : Winner α} (hw : Elected vk bindings held w) {group : GroupArming α}
    (h : w.deferredGroup vk bindings held = some group) : group.From bindings := by
  refine Winner.deferredGroup_induct hw h (fun keys condition => ?_) ?_
  · exact ⟨by simp, by simp, by simp⟩
  · intro group b hfrom hb hkind
    obtain ⟨combo, hkind⟩ := hkind
    exact join_from hfrom hb hkind

/-- The group of a key-down, and what elected it. -/
theorem groupAt_from {e : Engine α} {vk : VirtualKey} {bindings : List (Binding α)} {env : Env}
    {group : GroupArming α} (h : e.groupAt vk bindings env = some group) :
    group.From bindings ∧ group.Nonempty := by
  obtain ⟨w, hw, hgroup⟩ := Option.bind_eq_some_iff.mp h
  exact ⟨deferredGroup_from (elect_elected hw) hgroup,
    Winner.deferredGroup_nonempty (elect_elected hw) hgroup⟩

/-- A list without a marked action wins groups without one. -/
theorem groupAt_unmarked {tag : α → Option Gesture} {e : Engine α} {vk : VirtualKey}
    {bindings : List (Binding α)} (hlist : ∀ b ∈ bindings, tag b.action = none) {env : Env} :
    ∀ gr ∈ e.groupAt vk bindings env, gr.Unmarked tag := by
  intro gr hgr
  obtain ⟨hfrom, -⟩ := groupAt_from hgr
  refine ⟨fun x hx => ?_, fun x hx => ?_, fun x hx => ?_⟩
  · obtain ⟨b, hb, -, -, -, -, haction⟩ := hfrom.tap x hx
    rw [haction, hlist b hb]
  · obtain ⟨b, hb, -, -, -, -, haction⟩ := hfrom.hold x hx
    rw [haction, hlist b hb]
  · obtain ⟨b, hb, -, -, -, -, haction⟩ := hfrom.double x hx
    rw [haction, hlist b hb]

variable {tag : α → Option Gesture}

/-! ## What the other bindings fire -/

/-- No chord and no sequence in progress holds a marked action. -/
structure Quiet (tag : α → Option Gesture) (e : Engine α) : Prop where
  chords : ∃ c : Chords {x // tag x = none}, c.map Subtype.val = e.chords
  sequences : ∃ s : Sequences {x // tag x = none}, s.map Subtype.val = e.sequences

/-- Only deferred gestures of the list are marked. -/
def OnlyGestures (tag : α → Option Gesture) (b : Binding α) : Prop :=
  (∃ combo, b.kind = .combo combo ∧ b.trigger.isImmediate = false) ∨ tag b.action = none

/-- In the middle of a walk: what it fired of the marked actions, and the tables. -/
structure Quietly (tag : α → Option Gesture) (fired : List Gesture)
    (acc : Engine α × Decision α) : Prop where
  quiet : Quiet tag acc.1
  fires : acc.2.fire.filterMap tag = fired

theorem quietly_push {fired : List Gesture} {e : Engine α} {d : Decision α}
    (h : Quietly tag fired (e, d)) {action : α} (haction : tag action = none) :
    (d.push action).fire.filterMap tag = fired := by
  have hfires := h.fires
  unfold Decision.push
  dsimp only at hfires ⊢
  rw [List.filterMap_append, hfires, List.filterMap_cons, haction]
  exact List.append_nil _

theorem visitBlocker_quiet {fired : List Gesture} (k : KeyDown α) (combo : KeyCombination)
    (mode : BlockerMode) (condition : Condition) {e : Engine α} {d : Decision α}
    (h : Quietly tag fired (e, d)) :
    Quietly tag fired (visitBlocker k combo mode condition e d) := by
  unfold visitBlocker
  split
  · cases mode with
    | swallow => exact ⟨h.quiet, h.fires⟩
    | maskOnly =>
      dsimp only
      split
      · exact h
      · exact ⟨⟨h.quiet.chords, h.quiet.sequences⟩, h.fires⟩
  · exact h

/-- An `Immediate` binding that is not marked fires nothing marked; others wait. -/
theorem visitCombo_quiet {fired : List Gesture} (k : KeyDown α) (index : Nat) {b : Binding α}
    (himmediate : b.trigger.isImmediate = true → tag b.action = none) {e : Engine α}
    {d : Decision α} (h : Quietly tag fired (e, d)) :
    Quietly tag fired (visitCombo k index b e d) := by
  unfold visitCombo
  split
  · exact h
  · split
    · next hnow =>
      have hfires : (if (!k.wasRepeat || b.repeats) = true then d.push b.action
          else d).fire.filterMap tag = fired := by
        split
        · exact quietly_push h (himmediate hnow)
        · exact h.fires
      refine ⟨h.quiet, ?_⟩
      dsimp only
      split
      · exact hfires
      · exact hfires
    · exact h

theorem visitSequence_quiet {fired : List Gesture} (k : KeyDown α) (steps : List KeyCombination)
    (gap : Duration) {b : Binding α} (haction : tag b.action = none) {e : Engine α}
    {d : Decision α} (h : Quietly tag fired (e, d)) :
    Quietly tag fired (visitSequence k steps gap b e d) := by
  unfold visitSequence
  split
  · exact h
  · obtain ⟨s, hs⟩ := h.quiet.sequences
    dsimp only at hs ⊢
    have hfed := s.onKeyDown_map Subtype.val e.keys ⟨b.action, haction⟩ steps gap k.env.now
      e.ids.nextSeq.1
    rw [hs] at hfed
    rw [hfed]
    cases (s.onKeyDown e.keys ⟨b.action, haction⟩ steps gap k.env.now e.ids.nextSeq.1).2 with
    | notMatching => exact ⟨⟨h.quiet.chords, _, rfl⟩, h.fires⟩
    | advanced due => exact ⟨⟨h.quiet.chords, _, rfl⟩, h.fires⟩
    | completed action keys =>
      exact ⟨⟨h.quiet.chords, _, rfl⟩, quietly_push h action.property⟩

theorem visitChord_quiet {fired : List Gesture} (k : KeyDown α) (keys : List KeySpec)
    (window : Duration) {b : Binding α} (haction : tag b.action = none) {e : Engine α}
    {d : Decision α} (h : Quietly tag fired (e, d)) :
    Quietly tag fired (visitChord k keys window b e d) := by
  unfold visitChord
  split
  · exact h
  · obtain ⟨c, hc⟩ := h.quiet.chords
    dsimp only at hc ⊢
    have hfed := c.onKeyDown_map Subtype.val k.vk ⟨b.action, haction⟩ keys window k.env.now
      e.ids.nextSeq.1
    rw [hc] at hfed
    rw [hfed]
    cases (c.onKeyDown k.vk ⟨b.action, haction⟩ keys window k.env.now e.ids.nextSeq.1).2 with
    | notInChord => exact ⟨⟨⟨_, rfl⟩, h.quiet.sequences⟩, h.fires⟩
    | pending => exact ⟨⟨⟨_, rfl⟩, h.quiet.sequences⟩, h.fires⟩
    | started due => exact ⟨⟨⟨_, rfl⟩, h.quiet.sequences⟩, h.fires⟩
    | completed action keys =>
      exact ⟨⟨⟨_, rfl⟩, h.quiet.sequences⟩, quietly_push h action.property⟩

theorem visit_quiet {fired : List Gesture} (k : KeyDown α) {acc : Engine α × Decision α}
    (h : Quietly tag fired acc) {entry : Binding α × Nat} (hentry : OnlyGestures tag entry.1) :
    Quietly tag fired (visit k acc entry) := by
  -- A binding that is no `keys` binding is not marked.
  have hplain : (∀ combo, entry.1.kind ≠ .combo combo) → tag entry.1.action = none := by
    intro hkind
    rcases hentry with ⟨combo, hcombo, -⟩ | hnone
    · exact absurd hcombo (hkind combo)
    · exact hnone
  have himmediate : entry.1.trigger.isImmediate = true → tag entry.1.action = none := by
    intro hnow
    rcases hentry with ⟨_, -, hdeferred⟩ | hnone
    · rw [hdeferred] at hnow
      exact absurd hnow (by simp)
    · exact hnone
  unfold visit
  split
  · split
    · exact visitBlocker_quiet k _ _ _ h
    · exact visitCombo_quiet k _ himmediate h
  · next steps gap hkind => exact visitSequence_quiet k steps gap (hplain (by simp [hkind])) h
  · next keys window hkind => exact visitChord_quiet k keys window (hplain (by simp [hkind])) h

/-- **What the bindings of a list fire is never marked**, its gestures apart. -/
theorem visits_quiet {fired : List Gesture} (k : KeyDown α) (entries : List (Binding α × Nat))
    (hentries : ∀ entry ∈ entries, OnlyGestures tag entry.1) {acc : Engine α × Decision α}
    (h : Quietly tag fired acc) : Quietly tag fired (entries.foldl (visit k) acc) := by
  induction entries generalizing acc with
  | nil => exact h
  | cons entry entries ih =>
    exact ih (fun x hx => hentries x (List.mem_cons_of_mem _ hx))
      (visit_quiet k h (hentries entry List.mem_cons_self))

/-! ## The first key-down -/

namespace Gestures

/-- The first key-down of its own key does not count as another's. -/
theorem otherKeyDown_own {a : Arming α} {g : Gestures α} {life : Life} (h : Carries tag a g life)
    (keys : KeyState) (now : Instant) :
    Carries tag a (g.otherKeyDown a.vk keys now).1 life ∧
      (g.otherKeyDown a.vk keys now).2.filterMap tag = [] := by
  have hkeeps : ∀ p ∈ g.presses, p.marked tag = true → cancels a.vk keys now p = false := by
    intro p hp hmarked
    unfold cancels
    rw [vk_of_marked h hp hmarked, bne_self_eq_false, Bool.false_and]
  constructor
  · refine carries_of_same ?_ (by rfl) h
    unfold otherKeyDown
    dsimp only
    rw [List.filter_filter]
    refine List.filter_congr fun p hp => ?_
    cases hmarked : p.marked tag with
    | false => rfl
    | true => rw [hkeeps p hp hmarked]; rfl
  · unfold otherKeyDown
    dsimp only
    rw [filterMap_tag_deferredTap]
    have hnone : (g.presses.filter (cancels a.vk keys now)).filter (Press.marked tag) = [] := by
      rw [List.filter_eq_nil_iff]
      intro p hp hmarked
      obtain ⟨hmem, hcancels⟩ := List.mem_filter.mp hp
      rw [hkeeps p hmem hmarked] at hcancels
      exact absurd hcancels (by simp)
    rw [hnone]
    rfl

end Gestures

theorem firstKeyDown_own {a : Arming α} (ha : a.Marked tag) {e : Engine α}
    (hwf : e.gestures.Wf) {life : Life} (h : Carries tag a e.gestures life) {k : KeyDown α}
    (hvk : k.vk = a.vk) {bindings : List (Binding α)} {group : Option (GroupArming α)}
    (hgroup : (k.winner.bind fun w => w.deferredGroup k.vk bindings e.keys) = group)
    (hunmarked : ∀ gr ∈ group, gr.Unmarked tag) :
    Cued tag a k.env.now life (.down (Gestures.completesArming a group))
      (e.firstKeyDown k bindings).1.gestures (e.firstKeyDown k bindings).2.fire := by
  have hwf' := (e.gestures.otherKeyDown_step 0 k.vk e.keys k.env.now).wf hwf
  obtain ⟨hcarries, hfires⟩ := Gestures.otherKeyDown_own h e.keys k.env.now
  have hpress := Gestures.press_own ha (by rwa [hvk] at hwf') hcarries hunmarked k.env.now
    e.ids.nextSeq.1
  unfold firstKeyDown
  dsimp only
  rw [hgroup, hvk]
  refine ⟨hpress.carries, ?_⟩
  rw [List.filterMap_append, hfires, hpress.fires]
  rfl

theorem firstKeyDown_other {a : Arming α} (ha : a.Marked tag) {e : Engine α} {life : Life}
    (h : Carries tag a e.gestures life) {k : KeyDown α} (hvk : k.vk ≠ a.vk)
    {bindings : List (Binding α)} {group : Option (GroupArming α)}
    (hgroup : (k.winner.bind fun w => w.deferredGroup k.vk bindings e.keys) = group)
    (hunmarked : ∀ gr ∈ group, gr.Unmarked tag) :
    Cued tag a k.env.now life (.other (Gestures.ofCombo a k.vk) (e.keys.isPassed a.vk))
      (e.firstKeyDown k bindings).1.gestures (e.firstKeyDown k bindings).2.fire := by
  have hothers := Gestures.otherKeyDown_other ha h hvk e.keys k.env.now
  obtain ⟨hcarries, hfires⟩ := Gestures.press_other hothers.carries hvk hunmarked k.env.now
    e.ids.nextSeq.1
  unfold firstKeyDown
  dsimp only
  rw [hgroup]
  refine ⟨hcarries, ?_⟩
  rw [List.filterMap_append, hothers.fires, hfires, List.append_nil]

/-- Whether `group` fires the DoubleTap of the press at `now`, and arms nothing. -/
def Press.completedBy (p : Press α) (group : GroupArming α) (now : Instant) : Bool :=
  match p.phase with
  | .awaitSecond due _ window _ _ => decide (now < due) && Gestures.completes (some group) window
  | .held .. => false

/-- The key-down of `vk` arms `group`: it is a first key-down that the group wins,
and completes no window of an earlier press. -/
structure Arms (e : Engine α) (vk : VirtualKey) (bindings : List (Binding α)) (env : Env)
    (group : GroupArming α) : Prop where
  first : e.keys.isActive vk = false
  wins : e.groupAt vk bindings env = some group
  anew : ∀ p ∈ e.gestures.presses, p.vk = vk → p.completedBy group env.now = false

namespace Gestures

/-- A first key-down that arms the marked group, where nothing else is marked. -/
theorem press_arms {g : Gestures α} {vk : VirtualKey} {group : GroupArming α} {now : Instant}
    {seq : Nat} (h : Entries tag [] [] g)
    (hanew : ∀ p ∈ g.presses, p.vk = vk → p.completedBy group now = false)
    (hmarked : Press.marked tag ⟨vk, seq, armed group now⟩ = true) :
    Carries tag (armingOf group vk now seq) (g.press vk (some group) now seq).1
        (.held (armingOf group vk now seq).deadlines.hold) ∧
      (g.press vk (some group) now seq).2.1.filterMap tag = [] := by
  -- Whatever becomes of the key's earlier press, the new one is armed beside the rest.
  have harmed : ∀ rest : Gestures α, Entries tag [] [] rest →
      Carries tag (armingOf group vk now seq) (rest.arm vk (some group) now seq).1
        (.held (armingOf group vk now seq).deadlines.hold) := by
    intro rest hrest
    refine ⟨_, Or.inl rfl, rfl, ?_, hrest.dueHolds⟩
    unfold arm
    dsimp only
    rw [List.filter_append, hrest.presses, List.nil_append, List.filter_cons_of_pos hmarked,
      armed_eq_held]
    rfl
  have herase : ∀ test : Press α → Bool,
      Entries tag [] [] { g with presses := g.presses.eraseP test } := by
    intro test
    refine ⟨?_, h.dueHolds⟩
    rw [List.filter_eq_nil_iff]
    intro p hp
    exact Bool.eq_false_iff.mp (unmarked_of_filter h.presses (List.eraseP_sublist.subset hp))
  unfold press
  dsimp only
  split
  · exact ⟨harmed g h, rfl⟩
  · next earlier hfind =>
    have hmem := List.mem_of_find?_eq_some hfind
    have hnot := hanew earlier hmem (by simpa using List.find?_some hfind)
    have hunmarked := unmarked_of_filter h.presses hmem
    have hrest := herase fun p => p.vk == vk
    obtain ⟨pvk, pseq, phase⟩ := earlier
    have haction : ∀ {action}, action ∈ phase.actions → tag action = none := fun hmem =>
      Phase.unmarked_action hunmarked hmem
    unfold supersede
    cases phase with
    | awaitSecond due double window deferred passed =>
      -- The earlier press waited in vain; its Tap bears no mark.
      have hlate : ¬ (decide (now < due) && completes (some group) window) = true :=
        Bool.eq_false_iff.mp hnot
      dsimp only
      rw [if_neg hlate]
      refine ⟨harmed _ hrest, ?_⟩
      cases deferred with
      | none => rfl
      | some tap =>
        show [tap].filterMap tag = []
        rw [List.filterMap_cons, haction (by simp [Phase.actions])]
        rfl
    | held tap hold double =>
      cases hold with
      | none => exact ⟨harmed _ hrest, rfl⟩
      | some entry =>
        obtain ⟨due, action⟩ := entry
        refine ⟨harmed _ ?_, rfl⟩
        dsimp only
        split
        · -- A Hold that is due stays so, under no mark.
          refine ⟨hrest.presses, ?_⟩
          have hhold : DueHold.marked tag ⟨vk, pseq, due, action⟩ = false := by
            unfold DueHold.marked
            rw [haction (by simp [Phase.actions])]
            rfl
          dsimp only
          rw [List.filter_append, h.dueHolds, List.filter_cons_of_neg (by simp [hhold])]
          rfl
        · exact hrest

end Gestures

/-! ## Whole calls -/

/-- What the call `op` at `e` is to the press of `a`. -/
def cueOf (tag : α → Option Gesture) (a : Arming α) (e : Engine α) : Op α → Cue
  | .key event bindings env =>
    match event.direction with
    | .up => if event.vk = a.vk then .up ((e.keys.release event.vk).isPassed event.vk) else .nothing
    | .down =>
      if e.keys.isActive event.vk then .nothing
      else if event.vk = a.vk then
        .down (Gestures.completesArming a (e.groupAt event.vk bindings env))
      else .other (Gestures.ofCombo a event.vk) ((e.heldAt event.vk env).isPassed a.vk)
  | .timer token =>
    if token.generation != e.ids.generation then .nothing
    else
      match token.slot with
      | .gesture vk => Gestures.timerCue tag e.gestures vk token.seq
      | .chord | .sequence => .nothing
  | .forget token =>
    if token.generation != e.ids.generation then .nothing
    else
      match token.slot with
      | .gesture vk => Gestures.forgetCue a vk token.seq
      | .chord | .sequence => .nothing
  | .reset _ _ => .reset
  | _ => .nothing

theorem quietly_start {e : Engine α} (h : Quiet tag e) : Quietly tag [] (e, .default) := ⟨h, rfl⟩

/-- A stretch of a call that leaves the chords and sequences. -/
theorem quietly_of_fires {e e' : Engine α} (h : Quiet tag e) (hchords : e'.chords = e.chords)
    (hsequences : e'.sequences = e.sequences) (d : Decision α) :
    Quietly tag (d.fire.filterMap tag) (e', d) := by
  refine ⟨⟨?_, ?_⟩, rfl⟩
  · rw [hchords]
    exact h.chords
  · rw [hsequences]
    exact h.sequences

/-- A walk of a list whose only marks are its gestures. -/
theorem walk_quiet {e : Engine α} (h : Quiet tag e) (k : KeyDown α) {bindings : List (Binding α)}
    (hlist : ∀ b ∈ bindings, OnlyGestures tag b) :
    Quiet tag (e.walk k bindings).1 ∧
      (e.walk k bindings).2.fire.filterMap tag =
        (if k.wasRepeat then [] else (e.firstKeyDown k bindings).2.fire.filterMap tag) := by
  have hentries : ∀ entry ∈ bindings.zipIdx, OnlyGestures tag entry.1 := fun entry hentry =>
    hlist _ (List.fst_mem_of_mem_zipIdx hentry)
  unfold walk
  cases k.wasRepeat with
  | true =>
    have hwalk := visits_quiet k bindings.zipIdx hentries (quietly_start h)
    exact ⟨hwalk.quiet, hwalk.fires⟩
  | false =>
    have hfirst : Quietly tag ((e.firstKeyDown k bindings).2.fire.filterMap tag)
        (e.firstKeyDown k bindings) :=
      @quietly_of_fires _ _ e (e.firstKeyDown k bindings).1 h rfl rfl (e.firstKeyDown k bindings).2
    have hwalk := visits_quiet k bindings.zipIdx hentries hfirst
    exact ⟨hwalk.quiet, hwalk.fires⟩

/-- A walk moves the gestures as its first key-down does. -/
theorem walk_gestures (e : Engine α) (k : KeyDown α) (bindings : List (Binding α)) :
    (e.walk k bindings).1.gestures =
      if k.wasRepeat then e.gestures else (e.firstKeyDown k bindings).1.gestures := by
  unfold walk
  rw [visits_gestures]
  cases k.wasRepeat <;> rfl

/-- What the first key-down of a key makes of the gestures. -/
theorem first_down_gestures {e : Engine α} {vk : VirtualKey} (hfirst : e.keys.isActive vk = false)
    (bindings : List (Binding α)) (env : Env) :
    (e.onKey ⟨vk, .down⟩ bindings env).1.gestures =
      ((e.gestures.otherKeyDown vk (e.heldAt vk env) env.now).1.press vk
        (e.groupAt vk bindings env) env.now e.ids.nextSeq.1).1 := by
  obtain ⟨keys, hafter, -⟩ := e.onKey_down_walk vk bindings env
  have hrepeat : (e.keyDownOf vk bindings env).wasRepeat = false := hfirst
  rw [hafter]
  dsimp only
  rw [walk_gestures, hrepeat, if_neg Bool.false_ne_true]
  rfl

/-- A call whose list brings no marked action is its cue to the press. -/
theorem key_cued {a : Arming α} (ha : a.Marked tag) {e : Engine α} (hwf : e.gestures.Wf)
    (hquiet : Quiet tag e) {life : Life} (h : Carries tag a e.gestures life) (event : KeyEvent)
    {bindings : List (Binding α)} (hlist : ∀ b ∈ bindings, tag b.action = none) (env : Env) :
    Quiet tag (e.onKey event bindings env).1 ∧
      Cued tag a env.now life (cueOf tag a e (.key event bindings env))
        (e.onKey event bindings env).1.gestures (e.onKey event bindings env).2.fire := by
  have hidle : Life.step a.deadlines env.now life .nothing = (life, none) := by
    cases life <;> rfl
  obtain ⟨vk, direction⟩ := event
  cases direction with
  | down =>
    obtain ⟨keys, hafter, hfire⟩ := e.onKey_down_walk vk bindings env
    have hstart : Quiet tag (e.keyDownStart vk env) := ⟨hquiet.chords, hquiet.sequences⟩
    obtain ⟨hwalk, hfires⟩ := walk_quiet hstart (e.keyDownOf vk bindings env)
      fun b hb => Or.inr (hlist b hb)
    have hgestures := (e.keyDownStart vk env).walk_gestures (e.keyDownOf vk bindings env) bindings
    have hrepeat : (e.keyDownOf vk bindings env).wasRepeat = e.keys.isActive vk := rfl
    rw [hafter, hfire]
    refine ⟨⟨hwalk.chords, hwalk.sequences⟩, ?_⟩
    dsimp only
    rw [hrepeat] at hfires hgestures
    unfold cueOf
    dsimp only
    cases hactive : e.keys.isActive vk with
    -- An auto-repeat touches no press.
    | true =>
      rw [hactive] at hfires hgestures
      refine cued_of_step hidle ?_ hfires
      rw [hgestures]
      exact h
    | false =>
      rw [hactive, if_neg Bool.false_ne_true] at hfires hgestures
      rw [if_neg Bool.false_ne_true]
      by_cases hvk : vk = a.vk
      · have hfirst := firstKeyDown_own ha (e := e.keyDownStart vk env) hwf h
          (k := e.keyDownOf vk bindings env) hvk (by rfl) (groupAt_unmarked hlist)
        rw [if_pos hvk]
        refine ⟨?_, hfires.trans hfirst.fires⟩
        rw [hgestures]
        exact hfirst.carries
      · have hfirst := firstKeyDown_other ha (e := e.keyDownStart vk env) h
          (k := e.keyDownOf vk bindings env) hvk (by rfl) (groupAt_unmarked hlist)
        rw [if_neg hvk]
        refine ⟨?_, hfires.trans hfirst.fires⟩
        rw [hgestures]
        exact hfirst.carries
  | up =>
    -- A key-up concerns the marked press only where it is of its key.
    have hgestures : (e.onKey ⟨vk, .up⟩ bindings env).1.gestures =
        (e.gestures.release vk env.now ((e.keys.release vk).isPassed vk) e.ids.nextSeq.1).1 := rfl
    have hfire : (e.onKey ⟨vk, .up⟩ bindings env).2.fire =
        (e.gestures.release vk env.now ((e.keys.release vk).isPassed vk)
          e.ids.nextSeq.1).2.fired.toList := maskIfSwallowedUnderAltOrWin_fire _ _
    rw [hgestures, hfire]
    refine ⟨⟨hquiet.chords, hquiet.sequences⟩, ?_⟩
    unfold cueOf
    dsimp only
    by_cases hvk : vk = a.vk
    · subst hvk
      rw [if_pos rfl]
      exact Gestures.release_own ha hwf h env.now _ _
    · rw [if_neg hvk]
      obtain ⟨hcarries, hfires⟩ := Gestures.release_other h hvk env.now
        ((e.keys.release vk).isPassed vk) e.ids.nextSeq.1
      exact cued_of_step hidle hcarries hfires

/-- **A call that brings no marked action is its cue to the press.** -/
theorem step_cued {a : Arming α} (ha : a.Marked tag) {e : Engine α} (hfresh : Fresh e)
    (hquiet : Quiet tag e) {life : Life} (h : Carries tag a e.gestures life) {op : Op α}
    (hop : op.Within fun x => tag x = none) {now : Instant}
    (hnow : ∀ event bindings env, op = .key event bindings env → env.now = now) :
    Quiet tag (e.step op).1 ∧
      Cued tag a now life (cueOf tag a e op) (e.step op).1.gestures (e.step op).2.fire := by
  have hidle : Life.step a.deadlines now life .nothing = (life, none) := by
    cases life <;> rfl
  cases op with
  | key event bindings env =>
    have hkey := key_cued ha hfresh.wf hquiet h event hop env
    rw [hnow event bindings env rfl] at hkey
    exact hkey
  | timer token =>
    unfold step cueOf onTimer
    dsimp only
    split
    · exact ⟨hquiet, cued_of_step hidle h rfl⟩
    · cases token.slot with
      | gesture vk =>
        exact ⟨⟨hquiet.chords, hquiet.sequences⟩, Gestures.onTimer_cued ha h vk token.seq now⟩
      | chord =>
        -- Expiry only takes entries out, so those left are unmarked still.
        obtain ⟨c, hc⟩ := hquiet.chords
        refine ⟨⟨⟨c.expire token.seq, ?_⟩, hquiet.sequences⟩, cued_of_step hidle h rfl⟩
        dsimp only
        rw [← hc]
        unfold Chords.expire Chords.map
        rw [List.filter_map]
        rfl
      | sequence =>
        obtain ⟨s, hs⟩ := hquiet.sequences
        refine ⟨⟨hquiet.chords, ⟨s.expire token.seq, ?_⟩⟩, cued_of_step hidle h rfl⟩
        dsimp only
        rw [← hs]
        unfold Sequences.expire Sequences.map
        rw [List.filter_map]
        rfl
  | forget token =>
    unfold step cueOf forgetTimer
    dsimp only
    split
    · exact ⟨hquiet, cued_of_step hidle h rfl⟩
    · cases token.slot with
      | gesture vk =>
        exact ⟨⟨hquiet.chords, hquiet.sequences⟩,
          Gestures.forget_cued ha hfresh.wf (dueHold_distinct hfresh) h vk token.seq now⟩
      | chord => exact ⟨hquiet, cued_of_step hidle h rfl⟩
      | sequence => exact ⟨hquiet, cued_of_step hidle h rfl⟩
  | reset env reason =>
    have hnew : Quiet tag (e.step (.reset env reason)).1 := by
      unfold step reset
      cases reason <;> exact ⟨⟨.new, rfl⟩, ⟨.new, rfl⟩⟩
    have hgestures : (e.step (.reset env reason)).1.gestures = .new := by
      unfold step reset
      cases reason <;> rfl
    have hstep : Life.step a.deadlines now life .reset = (.ended, none) := by
      cases life <;> rfl
    refine ⟨hnew, cued_of_step hstep ?_ rfl⟩
    rw [hgestures]
    exact ⟨rfl, rfl⟩
  | resyncIfDue env notes =>
    -- A look at the modifiers leaves the gestures alone.
    have hgestures : (e.step (.resyncIfDue env notes)).1.gestures = e.gestures := by
      unfold step resyncIfDue
      dsimp only
      split <;> rfl
    have hsame : Quiet tag (e.step (.resyncIfDue env notes)).1 := by
      unfold step resyncIfDue
      dsimp only
      split <;> exact ⟨hquiet.chords, hquiet.sequences⟩
    refine ⟨hsame, cued_of_step hidle ?_ rfl⟩
    rw [hgestures]
    exact h
  | foregroundChanged => exact ⟨⟨hquiet.chords, hquiet.sequences⟩, cued_of_step hidle h rfl⟩
  | inputReturned => exact ⟨⟨hquiet.chords, hquiet.sequences⟩, cued_of_step hidle h rfl⟩
  | trackInjected event => exact ⟨⟨hquiet.chords, hquiet.sequences⟩, cued_of_step hidle h rfl⟩

/-! ## The call that arms the press -/

/-- An armed group whose gestures are marked is. -/
theorem armed_marked {group : GroupArming α} {vk : VirtualKey} {now : Instant} {seq : Nat}
    (ha : (armingOf group vk now seq).Marked tag) (hne : group.Nonempty) :
    Press.marked tag ⟨vk, seq, Gestures.armed group now⟩ = true := by
  rw [armed_eq_held]
  unfold Press.marked Phase.marked Arming.held Phase.actions
  rw [List.any_eq_true]
  rcases hne with htap | hhold | hdouble
  · obtain ⟨x, hx⟩ := Option.isSome_iff_exists.mp htap
    have hentry : (armingOf group vk now seq).tap = some (now + x.1, x.2) := by
      unfold armingOf
      rw [hx]
      rfl
    exact ⟨x.2, by simp [hentry], by rw [ha.tap _ hentry]; rfl⟩
  · obtain ⟨x, hx⟩ := Option.isSome_iff_exists.mp hhold
    have hentry : (armingOf group vk now seq).hold = some (now + x.1, x.2) := by
      unfold armingOf
      rw [hx]
      rfl
    exact ⟨x.2, by simp [hentry], by rw [ha.hold _ hentry]; rfl⟩
  · obtain ⟨x, hx⟩ := Option.isSome_iff_exists.mp hdouble
    have hentry : (armingOf group vk now seq).double =
        some (now + x.1, x.2, ⟨group.keys, group.condition⟩) := by
      unfold armingOf
      rw [hx]
      rfl
    exact ⟨x.2, by simp [hentry], by rw [ha.double _ hentry]; rfl⟩

/-- **The call that arms a marked group starts the life of its press.** -/
theorem key_arms {e : Engine α} (h : Entries tag [] [] e.gestures) (hquiet : Quiet tag e)
    {vk : VirtualKey} {bindings : List (Binding α)} {env : Env} {group : GroupArming α}
    (harms : Arms e vk bindings env group) (hlist : ∀ b ∈ bindings, OnlyGestures tag b)
    (ha : (armingOf group vk env.now e.ids.nextSeq.1).Marked tag) :
    Quiet tag (e.onKey ⟨vk, .down⟩ bindings env).1 ∧
      Carries tag (armingOf group vk env.now e.ids.nextSeq.1)
        (e.onKey ⟨vk, .down⟩ bindings env).1.gestures
        (.held (armingOf group vk env.now e.ids.nextSeq.1).deadlines.hold) ∧
      (e.onKey ⟨vk, .down⟩ bindings env).2.fire.filterMap tag = [] := by
  obtain ⟨keys, hafter, hfire⟩ := e.onKey_down_walk vk bindings env
  have hstart : Quiet tag (e.keyDownStart vk env) := ⟨hquiet.chords, hquiet.sequences⟩
  obtain ⟨hwalk, hfires⟩ := walk_quiet hstart (e.keyDownOf vk bindings env) hlist
  have hgestures := (e.keyDownStart vk env).walk_gestures (e.keyDownOf vk bindings env) bindings
  have hrepeat : (e.keyDownOf vk bindings env).wasRepeat = false := harms.first
  have hover : Carries tag (armingOf group vk env.now e.ids.nextSeq.1) e.gestures .ended := h
  obtain ⟨hothers, hothersFire⟩ := Gestures.otherKeyDown_own hover (e.heldAt vk env) env.now
  have hmarked := armed_marked ha (groupAt_from harms.wins).2
  obtain ⟨hcarries, hpressFire⟩ := Gestures.press_arms hothers
    (fun p hp hvk => harms.anew p (List.mem_filter.mp hp).1 hvk) hmarked
  have hwins : ((e.keyDownOf vk bindings env).winner.bind fun w =>
      w.deferredGroup vk bindings (e.heldAt vk env)) = some group := harms.wins
  rw [hrepeat, if_neg Bool.false_ne_true] at hfires hgestures
  rw [hafter, hfire]
  refine ⟨⟨hwalk.chords, hwalk.sequences⟩, ?_, ?_⟩
  · dsimp only
    rw [hgestures]
    unfold firstKeyDown keyDownStart
    dsimp only [keyDownOf] at hwins ⊢
    rw [hwins]
    exact hcarries
  · rw [hfires]
    unfold firstKeyDown keyDownStart
    dsimp only [keyDownOf] at hwins ⊢
    rw [hwins, List.filterMap_append]
    refine List.append_eq_nil_iff.mpr ⟨hothersFire, hpressFire⟩

end KeySwitch.Engine
