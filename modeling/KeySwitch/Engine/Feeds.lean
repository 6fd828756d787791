import KeySwitch.Engine.KeyEffects
import KeySwitch.Engine.Ops

/-!
# What reaches the chord and sequence tables

A key-down's walk stops at each binding of the list. A `Stop` records one such visit
and what it adds to the actions to fire, so that a key-down fires what the gestures
fire before the walk and then what its stops do (`onKeyDown_fire`). A first key-down
is fed to the chords and sequences whose condition holds. Apart from feeds, only
expiry timers and resets reach the two tables.

`tables` is the machine of the two tables alone, which answers what a touch fires.
The engine simulates it: each call leaves the tables as its touches do
(`step_tables`), a stop that is fed fires exactly what the tables fire on its feed
(`stop_fired`), and the stop of a chord or a sequence that is not fed fires nothing
(`stop_unfed`). So what is proved of the tables over runs holds of what the engine's
two arms fire.
-/

namespace KeySwitch.Engine

open Data Lib

variable {α : Type}

/-! ## The tables on their own -/

/-- A first key-down fed to one chord or sequence binding. -/
structure Feed (α : Type) where
  /-- The place of the binding in the list. -/
  index : Nat
  binding : Binding α
  vk : VirtualKey
  env : Env
  /-- The keys held after the key-down. -/
  held : KeyState
  /-- The number taken for an entry this feed starts or advances. -/
  seq : Nat

/-- Anything that reaches the two tables. -/
inductive Touch (α : Type)
  | feed (f : Feed α)
  /-- The expiry timer of the chord armed as `seq`, due at `due`. -/
  | expireChord (seq : Nat) (due : Instant)
  /-- The expiry timer of the sequence armed as `seq`, due at `due`. -/
  | expireSequence (seq : Nat) (due : Instant)
  | clear

/-- The pending chords and sequences, and the latest time they were touched at. -/
structure Tables (α : Type) where
  clock : Instant
  chords : Chords α
  sequences : Sequences α

/-- The action a feed to the chord table fires. -/
def ChordOutcome.fired : ChordOutcome α → Option α
  | .completed action _ => some action
  | _ => none

/-- The action a feed to the sequence table fires. -/
def SequenceOutcome.fired : SequenceOutcome α → Option α
  | .completed action _ => some action
  | _ => none

namespace Tables

def new : Tables α := ⟨0, .new, .new⟩

/-- One feed; also the action it fires. -/
def feed (t : Tables α) (f : Feed α) : Tables α × Option α :=
  match f.binding.kind with
  | .combo _ => ({ t with clock := f.env.now }, none)
  | .sequence steps maxGap =>
    let fed := t.sequences.onKeyDown f.held f.binding.action steps maxGap f.env.now f.seq
    ({ t with clock := f.env.now, sequences := fed.1 }, fed.2.fired)
  | .chord keys window =>
    let fed := t.chords.onKeyDown f.vk f.binding.action keys window f.env.now f.seq
    ({ t with clock := f.env.now, chords := fed.1 }, fed.2.fired)

def touch (t : Tables α) : Touch α → Tables α × Option α
  | .feed f => t.feed f
  | .expireChord seq due =>
    ({ t with clock := max t.clock due, chords := t.chords.expire seq }, none)
  | .expireSequence seq due =>
    ({ t with clock := max t.clock due, sequences := t.sequences.expire seq }, none)
  | .clear => ({ t with chords := .new, sequences := .new }, none)

/-- What the environment promises of a touch: the clock does not go back, a timer
comes no earlier than the deadline of the entry that waits for it, and there are
no resets. -/
def InTime (t : Tables α) : Touch α → Prop
  | .feed f => t.clock ≤ f.env.now
  | .expireChord seq due => ∀ p ∈ t.chords.pending, p.seq = seq → p.expiresAt ≤ due
  | .expireSequence seq due => ∀ p ∈ t.sequences.pending, p.seq = seq → p.expiresAt ≤ due
  | .clear => False

end Tables

/-- The machine of the two tables. -/
def tables : Machine (Tables α) (Touch α) (Option α) where
  step := Tables.touch
  enabled _ _ := True

/-- The runs of the tables that keep to what the environment promises. -/
def punctual : Machine (Tables α) (Touch α) (Option α) := tables.restrict Tables.InTime

/-! ## The stops of a key-down -/

/-- One stop of a key-down's walk: what a feed to its binding is, whether there is
one, and what the visit adds to the actions to fire. -/
structure Stop (α : Type) where
  feed : Feed α
  fed : Bool
  fired : List α

/-- Whether the stop is at a chord or a sequence. -/
def Stop.tabled (s : Stop α) : Bool :=
  match s.feed.binding.kind with
  | .combo _ => false
  | .sequence _ _ | .chord _ _ => true

/-- The stop of the walk at `entry`. -/
def stopAt (k : KeyDown α) (acc : Engine α × Decision α) (entry : Binding α × Nat) : Stop α where
  feed := ⟨entry.2, entry.1, k.vk, k.env, acc.1.keys, acc.1.ids.nextSeq.1⟩
  fed := !(k.wasRepeat || !feeds k.env entry.1)
  fired := (visit k acc entry).2.fire.drop acc.2.fire.length

/-- The stops of a walk over `entries`. -/
def stopsAlong (k : KeyDown α) : Engine α × Decision α → List (Binding α × Nat) → List (Stop α)
  | _, [] => []
  | acc, entry :: entries => stopAt k acc entry :: stopsAlong k (visit k acc entry) entries

/-- The feeds among stops. -/
def fedAt (stops : List (Stop α)) : List (Feed α) := (stops.filter Stop.fed).map Stop.feed

/-- The key-down of `vk` before its walk: the gestures have acted. -/
def startOf (e : Engine α) (vk : VirtualKey) (bindings : List (Binding α)) (env : Env) :
    Engine α × Decision α :=
  let k := e.keyDownOf vk bindings env
  if k.wasRepeat then (e.keyDownStart vk env, .default)
  else (e.keyDownStart vk env).firstKeyDown k bindings

/-- The stops of the key-down of `vk`. -/
def stopsOn (e : Engine α) (vk : VirtualKey) (bindings : List (Binding α)) (env : Env) :
    List (Stop α) :=
  stopsAlong (e.keyDownOf vk bindings env) (e.startOf vk bindings env) bindings.zipIdx

/-- The feeds of the key-down of `vk`. -/
def feedsOn (e : Engine α) (vk : VirtualKey) (bindings : List (Binding α)) (env : Env) :
    List (Feed α) :=
  fedAt (e.stopsOn vk bindings env)

/-- What the call `op` does to the two tables; a timer handed back is due at
`due`. -/
def touches (e : Engine α) (due : Instant) : Op α → List (Touch α)
  | .key event bindings env =>
    match event.direction with
    | .down => (e.feedsOn event.vk bindings env).map .feed
    | .up => []
  | .timer token =>
    if token.generation != e.ids.generation then []
    else
      match token.slot with
      | .gesture _ => []
      | .chord => [.expireChord token.seq due]
      | .sequence => [.expireSequence token.seq due]
  | .reset _ _ => [.clear]
  | _ => []

/-! ## The engine simulates the tables -/

/-- The tables hold the engine's pending chords and sequences. -/
structure Agrees (t : Tables α) (e : Engine α) : Prop where
  chords : t.chords = e.chords
  sequences : t.sequences = e.sequences

/-- What a visit adds to the actions to fire, where it adds anything. -/
theorem stopAt_fired {k : KeyDown α} {acc : Engine α × Decision α} {entry : Binding α × Nat}
    {fired : List α} (h : (visit k acc entry).2.fire = acc.2.fire ++ fired) :
    (stopAt k acc entry).fired = fired := by
  show (visit k acc entry).2.fire.drop acc.2.fire.length = fired
  rw [h, List.drop_left]

/-- A visit that fires `fired` and leaves the two tables. -/
structure Spared (acc acc' : Engine α × Decision α) (fired : List α) : Prop where
  chords : acc'.1.chords = acc.1.chords
  sequences : acc'.1.sequences = acc.1.sequences
  fire : acc'.2.fire = acc.2.fire ++ fired

theorem spared_of_fire {e e' : Engine α} {d d' : Decision α} (hc : e'.chords = e.chords)
    (hs : e'.sequences = e.sequences) (hf : d'.fire = d.fire) : Spared (e, d) (e', d') [] :=
  ⟨hc, hs, hf.trans (List.append_nil d.fire).symm⟩

theorem visitBlocker_spared (k : KeyDown α) (combo : KeyCombination) (mode : BlockerMode)
    (condition : Condition) (e : Engine α) (d : Decision α) :
    Spared (e, d) (visitBlocker k combo mode condition e d) [] := by
  unfold visitBlocker
  split
  · cases mode with
    | swallow => exact spared_of_fire rfl rfl rfl
    | maskOnly =>
      dsimp only
      split <;> exact spared_of_fire rfl rfl rfl
  · exact spared_of_fire rfl rfl rfl

theorem visitCombo_spared (k : KeyDown α) (index : Nat) (binding : Binding α) (e : Engine α)
    (d : Decision α) : ∃ fired, Spared (e, d) (visitCombo k index binding e d) fired := by
  unfold visitCombo
  split
  · exact ⟨[], spared_of_fire rfl rfl rfl⟩
  · split
    · -- Whether it blocks the key changes `suppress` alone.
      have hblock : ∀ d' : Decision α,
          (if binding.blockDefault then d'.swallow else d').fire = d'.fire := by
        intro d'
        split <;> rfl
      dsimp only
      by_cases hfires : (!k.wasRepeat || binding.repeats) = true
      · rw [if_pos hfires]
        exact ⟨[binding.action], rfl, rfl, hblock (d.push binding.action)⟩
      · rw [if_neg hfires]
        exact ⟨[], spared_of_fire rfl rfl (hblock d)⟩
    · exact ⟨[], spared_of_fire rfl rfl rfl⟩

/-- A visit that feeds nothing leaves the tables, and fires nothing but the action of
its own `keys` binding. -/
theorem visit_unfed {k : KeyDown α} {acc : Engine α × Decision α} {entry : Binding α × Nat}
    (h : (stopAt k acc entry).fed = false) :
    ∃ fired, Spared acc (visit k acc entry) fired ∧
      ((stopAt k acc entry).tabled = true → fired = []) := by
  have hskip : (k.wasRepeat || !feeds k.env entry.1) = true := Bool.not_eq_eq_eq_not.mp h
  unfold feeds at hskip
  unfold visit Stop.tabled stopAt
  cases hkind : entry.1.kind with
  | combo combo =>
    dsimp only
    split
    · next mode _ =>
      exact ⟨[], visitBlocker_spared k combo mode _ acc.1 acc.2, fun _ => rfl⟩
    · obtain ⟨fired, hspared⟩ := visitCombo_spared k entry.2 entry.1 acc.1 acc.2
      exact ⟨fired, hspared, fun htabled => absurd htabled Bool.false_ne_true⟩
  | sequence steps maxGap =>
    rw [hkind] at hskip
    dsimp only at hskip ⊢
    unfold visitSequence
    rw [if_pos hskip]
    exact ⟨[], spared_of_fire rfl rfl rfl, fun _ => rfl⟩
  | chord keys window =>
    rw [hkind] at hskip
    dsimp only at hskip ⊢
    unfold visitChord
    rw [if_pos hskip]
    exact ⟨[], spared_of_fire rfl rfl rfl, fun _ => rfl⟩

/-- A visit that feeds its binding changes the tables as the feed does, and fires
what it fires. -/
theorem visit_fed {k : KeyDown α} {acc : Engine α × Decision α} {entry : Binding α × Nat}
    (h : (stopAt k acc entry).fed = true) {t : Tables α} (ht : Agrees t acc.1) :
    Agrees (t.feed (stopAt k acc entry).feed).1 (visit k acc entry).1 ∧
      (visit k acc entry).2.fire =
        acc.2.fire ++ (t.feed (stopAt k acc entry).feed).2.toList := by
  have hfeeds : (k.wasRepeat || !feeds k.env entry.1) = false := Bool.not_eq_eq_eq_not.mp h
  unfold feeds at hfeeds
  unfold visit Tables.feed stopAt
  cases hkind : entry.1.kind with
  | combo combo =>
    rw [hkind] at hfeeds
    exact absurd hfeeds (by simp)
  | sequence steps maxGap =>
    rw [hkind] at hfeeds
    dsimp only at hfeeds ⊢
    unfold visitSequence
    rw [if_neg (by rw [hfeeds]; exact Bool.false_ne_true), ht.sequences]
    dsimp only
    generalize acc.1.sequences.onKeyDown acc.1.keys entry.1.action steps maxGap k.env.now
      acc.1.ids.nextSeq.1 = fed
    obtain ⟨sequences, outcome⟩ := fed
    cases outcome with
    | notMatching => exact ⟨⟨ht.chords, rfl⟩, (List.append_nil _).symm⟩
    | advanced due => exact ⟨⟨ht.chords, rfl⟩, (List.append_nil _).symm⟩
    | completed action keys => exact ⟨⟨ht.chords, rfl⟩, rfl⟩
  | chord keys window =>
    rw [hkind] at hfeeds
    dsimp only at hfeeds ⊢
    unfold visitChord
    rw [if_neg (by rw [hfeeds]; exact Bool.false_ne_true), ht.chords]
    dsimp only
    generalize acc.1.chords.onKeyDown k.vk entry.1.action keys window k.env.now
      acc.1.ids.nextSeq.1 = fed
    obtain ⟨chords, outcome⟩ := fed
    cases outcome with
    | notInChord => exact ⟨⟨rfl, ht.sequences⟩, (List.append_nil _).symm⟩
    | pending => exact ⟨⟨rfl, ht.sequences⟩, (List.append_nil _).symm⟩
    | started due => exact ⟨⟨rfl, ht.sequences⟩, (List.append_nil _).symm⟩
    | completed action keys => exact ⟨⟨rfl, ht.sequences⟩, rfl⟩

/-- A visit only adds to the actions to fire. -/
theorem visit_fire (k : KeyDown α) (acc : Engine α × Decision α) (entry : Binding α × Nat) :
    (visit k acc entry).2.fire = acc.2.fire ++ (stopAt k acc entry).fired := by
  cases hfed : (stopAt k acc entry).fed with
  | true =>
    obtain ⟨-, hfire⟩ := visit_fed hfed (t := ⟨0, acc.1.chords, acc.1.sequences⟩) ⟨rfl, rfl⟩
    rw [stopAt_fired hfire, hfire]
  | false =>
    obtain ⟨fired, hspared, -⟩ := visit_unfed hfed
    rw [stopAt_fired hspared.fire, hspared.fire]

/-- A walk fires what its stops fire, in order. -/
theorem visits_fire (k : KeyDown α) (entries : List (Binding α × Nat))
    (acc : Engine α × Decision α) :
    (entries.foldl (visit k) acc).2.fire =
      acc.2.fire ++ (stopsAlong k acc entries).flatMap Stop.fired := by
  induction entries generalizing acc with
  | nil => exact (List.append_nil _).symm
  | cons entry entries ih =>
    rw [List.foldl_cons, ih, visit_fire, stopsAlong, List.flatMap_cons, List.append_assoc]

/-- The tables after the visit of `entry` are those after its feed, if it is fed. -/
theorem visit_tables {k : KeyDown α} {acc : Engine α × Decision α} {entry : Binding α × Nat}
    {t : Tables α} (ht : Agrees t acc.1) :
    Agrees (tables.run t ((fedAt [stopAt k acc entry]).map .feed)) (visit k acc entry).1 := by
  unfold fedAt
  cases hfed : (stopAt k acc entry).fed with
  | true =>
    rw [List.filter_cons_of_pos hfed]
    exact (visit_fed hfed ht).1
  | false =>
    rw [List.filter_cons_of_neg (by simp [hfed])]
    obtain ⟨fired, hspared, -⟩ := visit_unfed hfed
    exact ⟨ht.chords.trans hspared.chords.symm, ht.sequences.trans hspared.sequences.symm⟩

theorem fedAt_cons (s : Stop α) (stops : List (Stop α)) :
    fedAt (s :: stops) = fedAt [s] ++ fedAt stops := by
  unfold fedAt
  rw [← List.map_append, ← List.filter_append, List.singleton_append]

/-- **A walk is the run of its feeds.** -/
theorem visits_tables (k : KeyDown α) (entries : List (Binding α × Nat))
    (acc : Engine α × Decision α) {t : Tables α} (ht : Agrees t acc.1) :
    Agrees (tables.run t ((fedAt (stopsAlong k acc entries)).map .feed))
      (entries.foldl (visit k) acc).1 := by
  induction entries generalizing acc t with
  | nil => exact ht
  | cons entry entries ih =>
    rw [stopsAlong, fedAt_cons, List.map_append, Machine.run_append]
    exact ih (visit k acc entry) (visit_tables ht)

/-- **What a stop that is fed fires is what the tables fire on its feed.** -/
theorem stop_fired {k : KeyDown α} {entries : List (Binding α × Nat)}
    {acc : Engine α × Decision α} {t : Tables α} (ht : Agrees t acc.1) {before : List (Stop α)}
    {s : Stop α} {after : List (Stop α)} (hsplit : stopsAlong k acc entries = before ++ s :: after)
    (hfed : s.fed = true) :
    s.fired = ((tables.run t ((fedAt before).map .feed)).feed s.feed).2.toList := by
  induction entries generalizing acc t before with
  | nil => simp [stopsAlong] at hsplit
  | cons entry entries ih =>
    rw [stopsAlong] at hsplit
    cases before with
    | nil =>
      obtain ⟨rfl, -⟩ := List.cons.inj hsplit
      exact stopAt_fired (visit_fed hfed ht).2
    | cons first before =>
      obtain ⟨rfl, hrest⟩ := List.cons.inj hsplit
      rw [fedAt_cons, List.map_append, Machine.run_append]
      exact ih (visit_tables ht) hrest

/-- **The stop of a chord or a sequence that is not fed fires nothing.** -/
theorem stop_unfed {k : KeyDown α} {entries : List (Binding α × Nat)}
    {acc : Engine α × Decision α} : ∀ s ∈ stopsAlong k acc entries, s.fed = false →
      s.tabled = true → s.fired = [] := by
  induction entries generalizing acc with
  | nil => exact fun s hs => absurd hs List.not_mem_nil
  | cons entry entries ih =>
    intro s hs hfed htabled
    rw [stopsAlong] at hs
    rcases List.mem_cons.mp hs with rfl | hs
    · obtain ⟨fired, hspared, hnone⟩ := visit_unfed hfed
      rw [stopAt_fired hspared.fire]
      exact hnone htabled
    · exact ih s hs hfed htabled

/-- The stops of a walk are at its entries, in order. -/
theorem stopsAlong_entries (k : KeyDown α) (entries : List (Binding α × Nat))
    (acc : Engine α × Decision α) :
    (stopsAlong k acc entries).map (fun s => (s.feed.binding, s.feed.index)) = entries := by
  induction entries generalizing acc with
  | nil => rfl
  | cons entry entries ih => exact congrArg (entry :: ·) (ih (visit k acc entry))

/-- The stops of a key-down are at the bindings of the list. -/
theorem stopsOn_listed {e : Engine α} {vk : VirtualKey} {bindings : List (Binding α)} {env : Env} :
    ∀ s ∈ e.stopsOn vk bindings env, bindings[s.feed.index]? = some s.feed.binding := by
  intro s hs
  have hmem := List.mem_map_of_mem (f := fun s : Stop α => (s.feed.binding, s.feed.index)) hs
  unfold stopsOn at hmem
  rw [stopsAlong_entries] at hmem
  exact List.mk_mem_zipIdx_iff_getElem?.mp hmem

theorem agrees_startOf {e : Engine α} {vk : VirtualKey} {bindings : List (Binding α)} {env : Env}
    {t : Tables α} (ht : Agrees t e) : Agrees t (e.startOf vk bindings env).1 := by
  unfold startOf
  dsimp only
  split <;> exact ⟨ht.chords, ht.sequences⟩

/-- **A key-down fires what the gestures fire before its walk, and then what its
stops fire, in list order.** -/
theorem onKeyDown_fire (e : Engine α) (vk : VirtualKey) (bindings : List (Binding α))
    (env : Env) :
    (e.onKey ⟨vk, .down⟩ bindings env).2.fire =
      (e.startOf vk bindings env).2.fire ++
        (e.stopsOn vk bindings env).flatMap Stop.fired := by
  obtain ⟨keys, -, hfire⟩ := e.onKey_down_walk vk bindings env
  rw [hfire]
  exact visits_fire (e.keyDownOf vk bindings env) bindings.zipIdx (e.startOf vk bindings env)

/-- **A key event leaves the tables as its feeds do.** -/
theorem onKey_tables (e : Engine α) (event : KeyEvent) (bindings : List (Binding α)) (env : Env)
    (due : Instant) {t : Tables α} (ht : Agrees t e) :
    Agrees (tables.run t (e.touches due (.key event bindings env)))
      (e.onKey event bindings env).1 := by
  obtain ⟨vk, direction⟩ := event
  cases direction with
  | up => exact ⟨ht.chords, ht.sequences⟩
  | down =>
    have hagrees := visits_tables (e.keyDownOf vk bindings env) bindings.zipIdx
      (e.startOf vk bindings env) (agrees_startOf ht)
    obtain ⟨keys, hafter, -⟩ := e.onKey_down_walk vk bindings env
    rw [hafter]
    exact ⟨hagrees.chords, hagrees.sequences⟩

/-- **Every call of the engine is the run of its touches on the tables.** -/
theorem step_tables (e : Engine α) (due : Instant) (op : Op α) {t : Tables α} (ht : Agrees t e) :
    Agrees (tables.run t (e.touches due op)) (e.step op).1 := by
  cases op with
  | key event bindings env => exact onKey_tables e event bindings env due ht
  | timer token =>
    unfold touches step onTimer
    dsimp only
    split
    · exact ht
    · cases token.slot with
      | gesture vk => exact ⟨ht.chords, ht.sequences⟩
      | chord => exact ⟨congrArg (Chords.expire · token.seq) ht.chords, ht.sequences⟩
      | sequence => exact ⟨ht.chords, congrArg (Sequences.expire · token.seq) ht.sequences⟩
  | forget token =>
    unfold step forgetTimer
    dsimp only
    split
    · exact ht
    · split <;> exact ⟨ht.chords, ht.sequences⟩
  | reset env reason =>
    unfold step reset
    cases reason <;> exact ⟨rfl, rfl⟩
  | foregroundChanged => exact ⟨ht.chords, ht.sequences⟩
  | resyncIfDue env notes =>
    unfold step resyncIfDue
    dsimp only
    split <;> exact ⟨ht.chords, ht.sequences⟩
  | inputReturned => exact ⟨ht.chords, ht.sequences⟩
  | trackInjected event => exact ⟨ht.chords, ht.sequences⟩

/-! ## Which feeds a key-down has -/

/-- The feeds of a walk are the chords and sequences whose condition holds, in list
order. -/
theorem fedAlong_entries (k : KeyDown α) (entries : List (Binding α × Nat))
    (acc : Engine α × Decision α) :
    (fedAt (stopsAlong k acc entries)).map (fun f => (f.binding, f.index)) =
      if k.wasRepeat then [] else entries.filter fun entry => feeds k.env entry.1 := by
  induction entries generalizing acc with
  | nil => cases k.wasRepeat <;> rfl
  | cons entry entries ih =>
    have hfed : (stopAt k acc entry).fed = !(k.wasRepeat || !feeds k.env entry.1) := rfl
    rw [stopsAlong, fedAt_cons, List.map_append, ih, fedAt]
    cases hrepeat : k.wasRepeat with
    | true =>
      rw [List.filter_cons_of_neg (by rw [hfed, hrepeat]; exact Bool.false_ne_true)]
      rfl
    | false =>
      rw [hrepeat] at hfed
      cases hfeeds : feeds k.env entry.1 with
      | true =>
        rw [hfeeds] at hfed
        rw [List.filter_cons_of_pos hfed, if_neg Bool.false_ne_true,
          List.filter_cons_of_pos (by exact hfeeds)]
        rfl
      | false =>
        rw [hfeeds] at hfed
        rw [List.filter_cons_of_neg (by simp [hfed]), if_neg Bool.false_ne_true,
          List.filter_cons_of_neg (by simp [hfeeds])]
        rfl

/-- What each stop of a walk records. -/
theorem stopsAlong_held (k : KeyDown α) (entries : List (Binding α × Nat))
    (acc : Engine α × Decision α) : ∀ s ∈ stopsAlong k acc entries,
      s.feed.held.active = acc.1.keys.active ∧ s.feed.vk = k.vk ∧ s.feed.env = k.env := by
  induction entries generalizing acc with
  | nil => exact fun s hs => absurd hs List.not_mem_nil
  | cons entry entries ih =>
    intro s hs
    rw [stopsAlong] at hs
    rcases List.mem_cons.mp hs with rfl | hs
    · exact ⟨rfl, rfl, rfl⟩
    · obtain ⟨hheld, hvk, henv⟩ := ih (visit k acc entry) s hs
      exact ⟨hheld.trans (visit_visited k acc entry).keys.active, hvk, henv⟩

/-- A feed of a walk is that of one of its stops. -/
theorem mem_fedAt {stops : List (Stop α)} {f : Feed α} (h : f ∈ fedAt stops) :
    ∃ s ∈ stops, s.fed = true ∧ s.feed = f := by
  obtain ⟨s, hs, rfl⟩ := List.mem_map.mp h
  obtain ⟨hs, hfed⟩ := List.mem_filter.mp hs
  exact ⟨s, hs, hfed, rfl⟩

/-- What a feed is: a first key-down at which the condition of a chord or sequence
of the list holds, with the keys held after it. -/
structure FedOn (e : Engine α) (vk : VirtualKey) (bindings : List (Binding α)) (env : Env)
    (f : Feed α) : Prop where
  first : e.keys.isActive vk = false
  key : f.vk = vk
  world : f.env = env
  listed : bindings[f.index]? = some f.binding
  fed : feeds env f.binding = true
  held : f.held.active = (e.heldAt vk env).active

/-- **A first key-down is fed to each chord and sequence whose condition holds,
once, in list order; an auto-repeat to none.** -/
theorem feedsOn_eq (e : Engine α) (vk : VirtualKey) (bindings : List (Binding α)) (env : Env) :
    (e.feedsOn vk bindings env).map (fun f => (f.binding, f.index)) =
        (if e.keys.isActive vk then [] else
          bindings.zipIdx.filter fun entry => feeds env entry.1) ∧
      ∀ f ∈ e.feedsOn vk bindings env, FedOn e vk bindings env f := by
  have hrepeat : (e.keyDownOf vk bindings env).wasRepeat = e.keys.isActive vk := rfl
  have hkeys : (e.startOf vk bindings env).1.keys = e.heldAt vk env := by
    unfold startOf
    dsimp only
    split <;> rfl
  have hentries : (e.feedsOn vk bindings env).map (fun f => (f.binding, f.index)) =
      if (e.keyDownOf vk bindings env).wasRepeat then [] else
        bindings.zipIdx.filter fun entry => feeds env entry.1 :=
    fedAlong_entries (e.keyDownOf vk bindings env) bindings.zipIdx _
  refine ⟨hrepeat ▸ hentries, fun f hf => ?_⟩
  obtain ⟨s, hs, -, rfl⟩ := mem_fedAt hf
  obtain ⟨hheld, hvk, henv⟩ := stopsAlong_held (e.keyDownOf vk bindings env) bindings.zipIdx _ s hs
  have hmem := List.mem_map_of_mem (f := fun f : Feed α => (f.binding, f.index)) hf
  rw [hentries] at hmem
  split at hmem
  · exact absurd hmem List.not_mem_nil
  · next hfirst =>
    obtain ⟨hmem, hfeeds⟩ := List.mem_filter.mp hmem
    refine ⟨?_, hvk, henv, List.mk_mem_zipIdx_iff_getElem?.mp hmem, hfeeds, ?_⟩
    · rw [← hrepeat]
      exact Bool.eq_false_iff.mpr hfirst
    · rw [hheld, hkeys]

end KeySwitch.Engine
