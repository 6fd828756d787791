import KeySwitch.Engine.Feeds
import KeySwitch.Engine.Lateness

/-!
# The chord and sequence tables in a schedule

A schedule of key events and timers touches the tables as `Timeline.touchesIn`
lists. The environment of `schedules` keeps what `punctual` asks: a timer comes
no earlier than its due time, and while numbers last no other entry has its
number (`schedule_tables`).

What a schedule fires comes in parts, from the stops of its key-downs or from its
gestures (`run_fired`). `feedsIn` are the stops that are fed to one binding, each with
what the engine fires there: just what the tables fire (`feedsIn_tables`). Which they
are does not depend on the timers (`views_of_schedule`).
-/

namespace KeySwitch.Engine

open Data Lib

variable {α : Type}

/-! ## The touches of a schedule -/

namespace Timeline

/-- What a turn does to the two tables. -/
def touches (bindings : List (Binding α)) (t : Timeline α) : Turn → List (Touch α)
  | .key =>
    match t.upcoming with
    | [] => []
    | (event, env) :: _ => t.engine.touches env.now (.key event bindings env)
  | .deliver request => t.engine.touches request.due (.timer request.token)

/-- What a list of turns does to the two tables. -/
def touchesIn (bindings : List (Binding α)) : Timeline α → List Turn → List (Touch α)
  | _, [] => []
  | t, turn :: turns => t.touches bindings turn ++ (t.step bindings turn).touchesIn bindings turns

end Timeline

theorem touchesIn_append (bindings : List (Binding α)) (t : Timeline α) (turns turns' : List Turn) :
    t.touchesIn bindings (turns ++ turns') =
      t.touchesIn bindings turns ++
        ((schedules bindings).run t turns).touchesIn bindings turns' := by
  induction turns generalizing t with
  | nil => rfl
  | cons turn turns ih =>
    rw [List.cons_append, Timeline.touchesIn, Timeline.touchesIn, ih, List.append_assoc]
    rfl

/-- Key-ups touch no chord and no sequence. -/
theorem touchesIn_ups (bindings : List (Binding α)) (vk : VirtualKey) (env : Env) (n : Nat) :
    ∀ (t : Timeline α) (rest : List (KeyEvent × Env)),
      t.upcoming = List.replicate n (⟨vk, .up⟩, env) ++ rest →
      t.touchesIn bindings (List.replicate n .key) = [] := by
  induction n with
  | zero => exact fun _ _ _ => rfl
  | succ n ih =>
    intro t rest hup
    rw [List.replicate_succ, List.cons_append] at hup
    have hnone : t.touches bindings .key = [] := by
      unfold Timeline.touches
      rw [hup]
      rfl
    have htail : (t.step bindings .key).upcoming = List.replicate n (⟨vk, .up⟩, env) ++ rest := by
      rw [upcoming_key, hup]
      rfl
    rw [List.replicate_succ, Timeline.touchesIn, hnone, ih _ rest htail]
    rfl

/-- The touches of what follows go by the engine and the events to come. -/
theorem touchesIn_congr (bindings : List (Binding α)) (turns : List Turn) {t t' : Timeline α}
    (hengine : t.engine = t'.engine) (hup : t.upcoming = t'.upcoming) :
    t.touchesIn bindings turns = t'.touchesIn bindings turns := by
  induction turns generalizing t t' with
  | nil => rfl
  | cons turn turns ih =>
    have hboth : t.touches bindings turn = t'.touches bindings turn ∧
        (t.step bindings turn).engine = (t'.step bindings turn).engine ∧
        (t.step bindings turn).upcoming = (t'.step bindings turn).upcoming := by
      obtain ⟨e, upcoming, _, _, _⟩ := t
      obtain ⟨e', upcoming', _, _, _⟩ := t'
      obtain rfl : e = e' := hengine
      obtain rfl : upcoming = upcoming' := hup
      cases turn with
      | key => cases upcoming <;> exact ⟨rfl, rfl, rfl⟩
      | deliver request => exact ⟨rfl, rfl, rfl⟩
    rw [Timeline.touchesIn, Timeline.touchesIn, hboth.1, ih hboth.2.1 hboth.2.2]

/-- The touches of the run that wraps the numbers: those of its first key-down, and
those of what comes once the numbers have wrapped. -/
theorem wrapped_touches {bindings : List (Binding α)} {chords : Chords α} {sequences : Sequences α}
    {out : List TimerRequest} {decided : List (Bool × Bool)} {n : Nat}
    (hstart : ((Timeline.start (wrappedEvents n)).step bindings .key).step bindings .key =
      ⟨atRest chords sequences 3, List.replicate n (⟨0x41, .up⟩, quiet 1) ++ secondChord, out, [],
        decided⟩)
    (hwrap : (3 + n) % 2 ^ 64 = 0) (turns : List Turn) :
    (Timeline.start (wrappedEvents n)).touchesIn bindings (wrappedTurns n turns) =
      (new : Engine α).touches 0 (.key ⟨0x41, .down⟩ bindings (quiet 0)) ++
        Timeline.touchesIn bindings
            ⟨atRest chords sequences 0, secondChord, out, [], []⟩ turns := by
  have hups :=
    (ups_run bindings chords sequences secondChord out [] n 3 decided (by decide)).1
  rw [hwrap, List.append_nil, ← hstart] at hups
  have hnone :
      (((Timeline.start (wrappedEvents n)).step bindings .key).step bindings .key).touchesIn
      bindings (List.replicate n .key) = [] := by
    rw [hstart]
    exact touchesIn_ups bindings 0x41 (quiet 1) n _ secondChord rfl
  have hup :
      ((Timeline.start (wrappedEvents n)).step bindings .key).touches bindings .key = [] := by
    unfold Timeline.touches
    rw [upcoming_key]
    rfl
  unfold wrappedTurns
  rw [Timeline.touchesIn, Timeline.touchesIn, hup, List.nil_append, touchesIn_append, hnone,
    List.nil_append, hups]
  exact congrArg (_ ++ ·) (touchesIn_congr bindings turns rfl rfl)

theorem feed_clock (t : Tables α) (f : Feed α) : (t.feed f).1.clock = f.env.now := by
  unfold Tables.feed
  split <;> rfl

/-- The feeds of one key-down come at its time. -/
theorem feeds_legal {feeds : List (Feed α)} {now : Instant} (hnow : ∀ f ∈ feeds, f.env.now = now)
    {t : Tables α} (hle : t.clock ≤ now) :
    punctual.Legal t (feeds.map .feed) ∧ (tables.run t (feeds.map .feed)).clock ≤ now := by
  induction feeds generalizing t with
  | nil => exact ⟨trivial, hle⟩
  | cons f feeds ih =>
    have hf := hnow f List.mem_cons_self
    have hclock : (t.feed f).1.clock ≤ now := by
      rw [feed_clock, hf]
    obtain ⟨hlegal, hrun⟩ := ih (fun g hg => hnow g (List.mem_cons_of_mem _ hg)) hclock
    exact ⟨⟨⟨trivial, by rw [← hf] at hle; exact hle⟩, hlegal⟩, hrun⟩

/-- What one turn does to the tables. -/
structure Touched (bindings : List (Binding α)) (t : Timeline α) (turn : Turn) (s : Tables α) :
    Prop where
  legal : punctual.Legal s (t.touches bindings turn)
  agrees : Agrees (tables.run s (t.touches bindings turn)) (t.step bindings turn).engine
  clock : ∀ x ∈ (t.step bindings turn).upcoming,
    (tables.run s (t.touches bindings turn)).clock ≤ x.2.now

theorem touched_key {bindings : List (Binding α)} {t t₀ : Timeline α} (h : Beside bindings t t₀)
    (hup : t.upcoming ≠ []) {s : Tables α} (hs : Agrees s t.engine)
    (hclock : ∀ x ∈ t.upcoming, s.clock ≤ x.2.now) : Touched bindings t .key s := by
  obtain ⟨⟨event, env⟩, rest, hup⟩ := List.exists_cons_of_ne_nil hup
  have htouches : t.touches bindings .key =
      t.engine.touches env.now (.key event bindings env) := by
    unfold Timeline.touches
    rw [hup]
  have hnow : s.clock ≤ env.now := hclock (event, env) (by rw [hup]; exact List.mem_cons_self)
  have hboth : punctual.Legal s (t.engine.touches env.now (.key event bindings env)) ∧
      (tables.run s (t.engine.touches env.now (.key event bindings env))).clock ≤ env.now := by
    obtain ⟨vk, direction⟩ := event
    cases direction with
    | up => exact ⟨trivial, hnow⟩
    | down =>
      refine feeds_legal (fun f hf => ?_) hnow
      rw [((t.engine.feedsOn_eq vk bindings env).2 f hf).world]
  have hagrees := onKey_tables t.engine event bindings env env.now hs
  refine ⟨?_, ?_, fun x hx => ?_⟩
  · rw [htouches]
    exact hboth.1
  · rw [htouches, Timeline.step_key hup]
    exact hagrees
  · rw [upcoming_key, hup] at hx
    rw [htouches]
    have hsorted := h.sorted
    rw [hup] at hsorted
    exact Nat.le_trans hboth.2 ((List.pairwise_cons.mp hsorted).1 x hx)

theorem touched_deliver {bindings : List (Binding α)} {t : Timeline α} (h : Sound t)
    {request : TimerRequest} (hadmits : t.Admits (.deliver request)) {s : Tables α}
    (hs : Agrees s t.engine) (hclock : ∀ x ∈ t.upcoming, s.clock ≤ x.2.now) :
    Touched bindings t (.deliver request) s := by
  obtain ⟨hmem, hdue⟩ := hadmits
  have hagrees := step_tables t.engine request.due (.timer request.token) hs
  have hlater : ∀ x ∈ t.upcoming, max s.clock request.due ≤ x.2.now := fun x hx =>
    Nat.max_le.mpr ⟨hclock x hx, hdue x hx⟩
  have hdone : ∀ ts, t.engine.touches request.due (.timer request.token) = ts →
      punctual.Legal s ts → (tables.run s ts).clock ≤ max s.clock request.due →
      Touched bindings t (.deliver request) s := by
    rintro ts rfl hlegal hrun
    exact ⟨hlegal, hagrees, fun x hx => Nat.le_trans hrun (hlater x hx)⟩
  by_cases hcurrent : request.token.generation = t.engine.ids.generation
  · -- The entry that waits for a timer with this number waits for this one.
    have hown : ∀ r ∈ t.engine.timed, r.token.seq = request.token.seq → r.due ≤ request.due := by
      intro r hr hseq
      rw [h.unique hmem hr hseq]
    have hstale : ¬(request.token.generation != t.engine.ids.generation) = true := by
      simpa using hcurrent
    cases hslot : request.token.slot with
    | gesture vk =>
      have htouches : t.engine.touches request.due (.timer request.token) = [] := by
        unfold touches
        dsimp only
        rw [if_neg hstale, hslot]
      exact hdone _ htouches trivial (Nat.le_max_left _ _)
    | chord =>
      have htouches : t.engine.touches request.due (.timer request.token) =
          [.expireChord request.token.seq request.due] := by
        unfold touches
        dsimp only
        rw [if_neg hstale, hslot]
      refine hdone _ htouches ⟨⟨trivial, fun p hp hseq => ?_⟩, trivial⟩ (Nat.le_refl _)
      rw [hs.chords] at hp
      exact hown _ (mem_timed.mpr (Or.inr (Or.inl
        (List.mem_map_of_mem (f := PendingChord.timed t.engine.ids.generation) hp)))) hseq
    | sequence =>
      have htouches : t.engine.touches request.due (.timer request.token) =
          [.expireSequence request.token.seq request.due] := by
        unfold touches
        dsimp only
        rw [if_neg hstale, hslot]
      refine hdone _ htouches ⟨⟨trivial, fun p hp hseq => ?_⟩, trivial⟩ (Nat.le_refl _)
      rw [hs.sequences] at hp
      exact hown _ (mem_timed.mpr (Or.inr (Or.inr
        (List.mem_map_of_mem (f := PendingSequence.timed t.engine.ids.generation) hp)))) hseq
  · refine hdone [] ?_ trivial (Nat.le_max_left _ _)
    unfold touches
    dsimp only
    rw [if_pos (by simpa using hcurrent)]

/-- **A schedule touches the tables in time**, and leaves them as the engine has
them. -/
theorem schedule_tables {bindings : List (Binding α)} {turns : List Turn} {t t₀ : Timeline α}
    (h : Beside bindings t t₀) (hlegal : (schedules bindings).Legal t turns) {s : Tables α}
    (hs : Agrees s t.engine) (hclock : ∀ x ∈ t.upcoming, s.clock ≤ x.2.now) :
    punctual.Legal s (t.touchesIn bindings turns) ∧
      Agrees (tables.run s (t.touchesIn bindings turns))
        ((schedules bindings).run t turns).engine := by
  induction turns generalizing t t₀ s with
  | nil => exact ⟨trivial, hs⟩
  | cons turn turns ih =>
    have hturn : (∃ t₀', Beside bindings (t.step bindings turn) t₀') ∧
        Touched bindings t turn s := by
      cases turn with
      | key => exact ⟨⟨_, beside_key h hlegal.1⟩, touched_key h hlegal.1 hs hclock⟩
      | deliver request =>
        exact ⟨⟨_, beside_deliver h hlegal.1⟩, touched_deliver h.sound hlegal.1 hs hclock⟩
    obtain ⟨⟨t₀', hbeside⟩, htouched⟩ := hturn
    obtain ⟨hrest, hagrees⟩ := ih hbeside hlegal.2 htouched.agrees htouched.clock
    rw [Timeline.touchesIn]
    refine ⟨(Machine.legal_append punctual).mpr ⟨htouched.legal, hrest⟩, ?_⟩
    rw [Machine.run_append]
    exact hagrees

/-! ## The parts of what a schedule fires -/

/-- Where fired actions come from: a stop of a key-down, or the gestures, which fire
before a key-down's walk, at a key-up and on a timer. -/
inductive Part (α : Type)
  | stop (s : Stop α)
  | gestures (fired : List α)

def Part.fired : Part α → List α
  | .stop s => s.fired
  | .gestures fired => fired

namespace Timeline

/-- The parts of what a turn fires. -/
def parts (bindings : List (Binding α)) (t : Timeline α) : Turn → List (Part α)
  | .key =>
    match t.upcoming with
    | [] => []
    | (event, env) :: _ =>
      match event.direction with
      | .down => .gestures (t.engine.startOf event.vk bindings env).2.fire ::
          (t.engine.stopsOn event.vk bindings env).map .stop
      | .up => [.gestures (t.engine.onKey event bindings env).2.fire]
  | .deliver request => [.gestures (t.engine.onTimer request.token).2]

/-- The parts of what a list of turns fires. -/
def partsIn (bindings : List (Binding α)) : Timeline α → List Turn → List (Part α)
  | _, [] => []
  | t, turn :: turns => t.parts bindings turn ++ (t.step bindings turn).partsIn bindings turns

end Timeline

theorem turn_fired (bindings : List (Binding α)) (t : Timeline α) (turn : Turn) :
    (t.step bindings turn).fired = t.fired ++ (t.parts bindings turn).flatMap Part.fired := by
  cases turn with
  | key =>
    unfold Timeline.parts
    cases hup : t.upcoming with
    | nil =>
      unfold Timeline.step
      rw [hup]
      exact (List.append_nil _).symm
    | cons x rest =>
      obtain ⟨⟨vk, direction⟩, env⟩ := x
      rw [Timeline.step_key hup]
      cases direction with
      | up => exact congrArg (t.fired ++ ·) (List.append_nil _).symm
      | down =>
        show t.fired ++ (t.engine.onKey ⟨vk, .down⟩ bindings env).2.fire = _
        rw [onKeyDown_fire, List.flatMap_cons, List.flatMap_map]
        rfl
  | deliver request => exact congrArg (t.fired ++ ·) (List.append_nil _).symm

/-- **What a schedule fires is what its parts fire, in order.** -/
theorem run_fired (bindings : List (Binding α)) (turns : List Turn) (t : Timeline α) :
    ((schedules bindings).run t turns).fired =
      t.fired ++ (t.partsIn bindings turns).flatMap Part.fired := by
  induction turns generalizing t with
  | nil => exact (List.append_nil _).symm
  | cons turn turns ih =>
    have hrun : ((schedules bindings).run t (turn :: turns)).fired =
        ((schedules bindings).run (t.step bindings turn) turns).fired := rfl
    rw [hrun, ih, turn_fired, Timeline.partsIn, List.flatMap_append, List.append_assoc]

/-- The stops of a schedule are at bindings of its list; at a chord or a sequence, one
that is not fed fires nothing. -/
theorem partsIn_stop {bindings : List (Binding α)} {turns : List Turn} {t : Timeline α}
    {s : Stop α} (hs : Part.stop s ∈ t.partsIn bindings turns) :
    bindings[s.feed.index]? = some s.feed.binding ∧
      (s.fed = false → s.tabled = true → s.fired = []) := by
  induction turns generalizing t with
  | nil => exact absurd hs List.not_mem_nil
  | cons turn turns ih =>
    rw [Timeline.partsIn] at hs
    rcases List.mem_append.mp hs with hs | hs
    · cases turn with
      | key =>
        unfold Timeline.parts at hs
        dsimp only at hs
        split at hs
        · exact absurd hs List.not_mem_nil
        · split at hs
          · rcases List.mem_cons.mp hs with hs | hs
            · exact absurd hs (by simp)
            · obtain ⟨s', hs', heq⟩ := List.mem_map.mp hs
              obtain rfl := Part.stop.inj heq
              exact ⟨stopsOn_listed s' hs', stop_unfed s' hs'⟩
          · exact absurd (List.mem_singleton.mp hs) (by simp)
      | deliver request => exact absurd (List.mem_singleton.mp hs) (by simp)
    · exact ih hs

/-- **The stop of a chord or a sequence that is not fed fires nothing.** -/
theorem partsIn_idle {bindings : List (Binding α)} {turns : List Turn} {t : Timeline α}
    {index : Nat} {b : Binding α} (hb : bindings[index]? = some b)
    (hkind : ∀ combo, b.kind ≠ .combo combo) {s : Stop α}
    (hs : Part.stop s ∈ t.partsIn bindings turns) (hindex : s.feed.index = index)
    (hskipped : s.fed = false) : s.fired = [] := by
  obtain ⟨hlisted, hnone⟩ := partsIn_stop hs
  rw [hindex, hb] at hlisted
  obtain rfl := Option.some.inj hlisted
  refine hnone hskipped ?_
  unfold Stop.tabled
  split
  · next combo hcombo => exact absurd hcombo (hkind combo)
  · rfl
  · rfl

/-! ## What is fed to one binding -/

/-- What a part is to the binding at `index`: a feed to it with what is fired there, or
nothing. -/
def Part.fedTo (index : Nat) : Part α → Option (Feed α × List α)
  | .stop s => if s.fed && s.feed.index == index then some (s.feed, s.fired) else none
  | .gestures _ => none

/-- The key-downs of a schedule that are fed to the binding at `index`, each with
what its visit fires. -/
def feedsIn (bindings : List (Binding α)) (events : List (KeyEvent × Env)) (turns : List Turn)
    (index : Nat) : List (Feed α × List α) :=
  ((Timeline.start events).partsIn bindings turns).filterMap (Part.fedTo index)

/-- The feeds to the binding at `index` among the moments of a run of the tables, each
with what they fire. -/
def fedTo (index : Nat) (moments : List (Moment (Tables α) (Touch α) (Option α))) :
    List (Feed α × List α) :=
  moments.filterMap fun x =>
    match x.input with
    | .feed f => if f.index = index then some (f, x.output.toList) else none
    | _ => none

theorem fedTo_own {index : Nat} {f : Feed α} (h : f.index = index) (s : Tables α)
    (touches : List (Touch α)) :
    fedTo index (tables.trace s (.feed f :: touches)) =
      (f, (s.feed f).2.toList) :: fedTo index (tables.trace (s.feed f).1 touches) := by
  show List.filterMap _ (tables.moment s (.feed f) :: _) = _
  rw [List.filterMap_cons]
  simp only [Machine.moment_input, h, if_true]
  rfl

theorem fedTo_other {index : Nat} {f : Feed α} (h : f.index ≠ index) (s : Tables α)
    (touches : List (Touch α)) :
    fedTo index (tables.trace s (.feed f :: touches)) =
      fedTo index (tables.trace (s.feed f).1 touches) := by
  show List.filterMap _ (tables.moment s (.feed f) :: _) = _
  rw [List.filterMap_cons]
  simp only [Machine.moment_input, h, if_false]
  rfl

/-- What is fed to a binding in two parts of a run. -/
theorem fedTo_append (index : Nat) (t : Tables α) (as bs : List (Touch α)) :
    fedTo index (tables.trace t (as ++ bs)) =
      fedTo index (tables.trace t as) ++ fedTo index (tables.trace (tables.run t as) bs) := by
  unfold fedTo
  rw [Machine.trace_append, List.filterMap_append]

/-- What a walk feeds to a binding is what the tables are fed. -/
theorem stops_fedTo (index : Nat) {k : KeyDown α} {entries : List (Binding α × Nat)}
    {acc : Engine α × Decision α} {s : Tables α} (hs : Agrees s acc.1) :
    ((stopsAlong k acc entries).map Part.stop).filterMap (Part.fedTo index) =
      fedTo index (tables.trace s ((fedAt (stopsAlong k acc entries)).map .feed)) := by
  induction entries generalizing acc s with
  | nil => rfl
  | cons entry entries ih =>
    have hvisited : Agrees (tables.run s ((fedAt [stopAt k acc entry]).map .feed))
        (visit k acc entry).1 := visit_tables hs
    have hrest := ih hvisited
    rw [stopsAlong, List.map_cons, List.filterMap_cons, fedAt_cons, List.map_append, fedTo_append,
      ← hrest]
    unfold fedAt
    cases hfed : (stopAt k acc entry).fed with
    | false =>
      rw [List.filter_cons_of_neg (by simp [hfed])]
      simp only [Part.fedTo, hfed, Bool.false_and, Bool.false_eq_true, if_false]
      rfl
    | true =>
      rw [List.filter_cons_of_pos hfed, List.filter_nil, List.map_singleton, List.map_singleton]
      have hfired := stopAt_fired (visit_fed hfed hs).2
      by_cases hindex : (stopAt k acc entry).feed.index = index
      · rw [fedTo_own hindex, ← hfired]
        simp only [Part.fedTo, hfed, hindex, Bool.true_and, beq_self_eq_true, if_true]
        rfl
      · rw [fedTo_other hindex]
        simp only [Part.fedTo, hfed, Bool.true_and, beq_iff_eq, hindex, if_false]
        rfl

/-- What a turn feeds to a binding is what the tables are fed. -/
theorem parts_fedTo (bindings : List (Binding α)) (t : Timeline α) (turn : Turn) (index : Nat)
    {s : Tables α} (hs : Agrees s t.engine) :
    (t.parts bindings turn).filterMap (Part.fedTo index) =
        fedTo index (tables.trace s (t.touches bindings turn)) ∧
      Agrees (tables.run s (t.touches bindings turn)) (t.step bindings turn).engine := by
  cases turn with
  | key =>
    cases hup : t.upcoming with
    | nil =>
      unfold Timeline.parts Timeline.touches Timeline.step
      rw [hup]
      exact ⟨rfl, hs⟩
    | cons x rest =>
      obtain ⟨⟨vk, direction⟩, env⟩ := x
      have htouches : t.touches bindings .key =
          t.engine.touches env.now (.key ⟨vk, direction⟩ bindings env) := by
        unfold Timeline.touches
        rw [hup]
      rw [htouches, Timeline.step_key hup]
      refine ⟨?_, onKey_tables t.engine ⟨vk, direction⟩ bindings env env.now hs⟩
      unfold Timeline.parts
      rw [hup]
      cases direction with
      | up => rfl
      | down => exact stops_fedTo index (agrees_startOf hs)
  | deliver request =>
    refine ⟨?_, step_tables t.engine request.due (.timer request.token) hs⟩
    show [] = fedTo index (tables.trace s (t.engine.touches request.due (.timer request.token)))
    unfold touches
    dsimp only
    split
    · rfl
    · split <;> rfl

theorem partsIn_fedTo (bindings : List (Binding α)) (turns : List Turn) (index : Nat)
    {t : Timeline α} {s : Tables α} (hs : Agrees s t.engine) :
    (t.partsIn bindings turns).filterMap (Part.fedTo index) =
      fedTo index (tables.trace s (t.touchesIn bindings turns)) := by
  induction turns generalizing t s with
  | nil => rfl
  | cons turn turns ih =>
    obtain ⟨hturn, hagrees⟩ := parts_fedTo bindings t turn index hs
    rw [Timeline.partsIn, Timeline.touchesIn, List.filterMap_append, fedTo_append, hturn,
      ih hagrees]

/-- **What the engine fires on the feeds to a binding is what the tables fire.** -/
theorem feedsIn_tables (bindings : List (Binding α)) (events : List (KeyEvent × Env))
    (turns : List Turn) (index : Nat) :
    feedsIn bindings events turns index =
      fedTo index (tables.trace .new ((Timeline.start events).touchesIn bindings turns)) :=
  partsIn_fedTo bindings turns index ⟨rfl, rfl⟩

/-- What a chord or a sequence fires on a key-down, by whether that completes it. -/
def fireIf (action : α) (completed : Bool) : List α := if completed then [action] else []

theorem toList_fireIf (action : α) (completed : Bool) :
    (if completed then some action else none).toList = fireIf action completed := by
  cases completed <;> rfl

theorem isEmpty_fireIf (action : α) : (fun fired => !fired.isEmpty) ∘ fireIf action = id := by
  funext completed
  cases completed <;> rfl

/-- A schedule feeds bindings of its list. -/
theorem touchesIn_listed (bindings : List (Binding α)) (turns : List Turn) (t : Timeline α) :
    ∀ f, Touch.feed f ∈ t.touchesIn bindings turns → bindings[f.index]? = some f.binding := by
  induction turns generalizing t with
  | nil => exact fun f hf => absurd hf List.not_mem_nil
  | cons turn turns ih =>
    intro f hf
    rw [Timeline.touchesIn] at hf
    rcases List.mem_append.mp hf with hf | hf
    · cases turn with
      | key =>
        unfold Timeline.touches at hf
        cases hup : t.upcoming with
        | nil =>
          rw [hup] at hf
          exact absurd hf List.not_mem_nil
        | cons x rest =>
          rw [hup] at hf
          obtain ⟨⟨vk, direction⟩, env⟩ := x
          cases direction with
          | up => exact absurd hf List.not_mem_nil
          | down =>
            obtain ⟨g, hg, heq⟩ := List.mem_map.mp hf
            obtain rfl := Touch.feed.inj heq
            exact ((t.engine.feedsOn_eq vk bindings env).2 g hg).listed
      | deliver request =>
        unfold Timeline.touches touches at hf
        dsimp only at hf
        split at hf
        · exact absurd hf List.not_mem_nil
        · split at hf <;> simp at hf
    · exact ih _ f hf

/-- The touches of a schedule that takes fewer than 2^64 numbers are in time. -/
theorem schedule_punctual {bindings : List (Binding α)} {events : List (KeyEvent × Env)}
    (hsorted : events.Pairwise fun x y => x.2.now ≤ y.2.now)
    (hfew : (new : Engine α).armingsOf (ops bindings events) < 2 ^ 64) {turns : List Turn}
    (hlegal : (schedules bindings).Legal (.start events) turns) :
    punctual.Legal .new ((Timeline.start events).touchesIn bindings turns) :=
  (schedule_tables (beside_start hsorted hfew) hlegal (s := .new) ⟨rfl, rfl⟩
    fun _ _ => Nat.zero_le _).1

/-- Feeds come in the order of their times. -/
theorem fedTo_sorted {index : Nat} {touches : List (Touch α)} {s : Tables α}
    (hlegal : punctual.Legal s touches) :
    (∀ x ∈ fedTo index (tables.trace s touches), s.clock ≤ x.1.env.now) ∧
      (fedTo index (tables.trace s touches)).Pairwise fun x y => x.1.env.now ≤ y.1.env.now := by
  induction touches generalizing s with
  | nil => exact ⟨fun x hx => absurd hx List.not_mem_nil, List.Pairwise.nil⟩
  | cons touch touches ih =>
    obtain ⟨hlater, hrest⟩ := ih hlegal.2
    have hclock : s.clock ≤ (s.touch touch).1.clock := by
      have hintime := hlegal.1.2
      cases touch with
      | feed f =>
        show s.clock ≤ (s.feed f).1.clock
        rw [feed_clock]
        exact hintime
      | expireChord seq due => exact Nat.le_max_left _ _
      | expireSequence seq due => exact Nat.le_max_left _ _
      | clear => exact Nat.le_refl _
    have hall : ∀ x ∈ fedTo index (tables.trace (s.touch touch).1 touches),
        s.clock ≤ x.1.env.now := fun x hx => Nat.le_trans hclock (hlater x hx)
    cases touch with
    | feed f =>
      by_cases hindex : f.index = index
      · rw [fedTo_own hindex]
        refine ⟨?_, List.pairwise_cons.mpr ⟨?_, hrest⟩⟩
        · intro x hx
          rcases List.mem_cons.mp hx with rfl | hx
          · exact hlegal.1.2
          · exact hall x hx
        · intro x hx
          have hx' := hlater x hx
          rw [← feed_clock s f]
          exact hx'
      · rw [fedTo_other hindex]
        exact ⟨hall, hrest⟩
    | expireChord seq due => exact ⟨hall, hrest⟩
    | expireSequence seq due => exact ⟨hall, hrest⟩
    | clear => exact ⟨hall, hrest⟩

/-! ## Timers do not change what is fed -/

/-- What a feed is, apart from the number it takes. -/
structure FeedView (α : Type) where
  index : Nat
  binding : Binding α
  vk : VirtualKey
  env : Env
  held : VirtualKey → Bool

def Feed.view (f : Feed α) : FeedView α := ⟨f.index, f.binding, f.vk, f.env, f.held.active⟩

def Touch.view : Touch α → Option (FeedView α)
  | .feed f => some f.view
  | _ => none

/-- The feeds of a key-down are read off the key tables. -/
theorem feedsOn_views {e e' : Engine α} (hkeys : e.keys = e'.keys) (vk : VirtualKey)
    (bindings : List (Binding α)) (env : Env) :
    (e.feedsOn vk bindings env).map Feed.view = (e'.feedsOn vk bindings env).map Feed.view := by
  have hviews : ∀ e : Engine α, (e.feedsOn vk bindings env).map Feed.view =
      (if e.keys.isActive vk then [] else bindings.zipIdx.filter fun x => feeds env x.1).map
        fun x => ⟨x.2, x.1, vk, env, (e.heldAt vk env).active⟩ := by
    intro e
    obtain ⟨hentries, hfed⟩ := e.feedsOn_eq vk bindings env
    rw [← hentries, List.map_map]
    refine List.map_congr_left fun f hf => ?_
    obtain ⟨-, hvk, henv, -, -, hheld⟩ := hfed f hf
    unfold Feed.view
    rw [hvk, henv, hheld]
    rfl
  have hheld : e.heldAt vk env = e'.heldAt vk env := by
    unfold heldAt
    rw [hkeys]
  rw [hviews, hviews, hkeys, hheld]

theorem touches_views {e e' : Engine α} (hkeys : e.keys = e'.keys) (event : KeyEvent)
    (bindings : List (Binding α)) (env : Env) (due due' : Instant) :
    (e.touches due (.key event bindings env)).filterMap Touch.view =
      (e'.touches due' (.key event bindings env)).filterMap Touch.view := by
  obtain ⟨vk, direction⟩ := event
  cases direction with
  | up => rfl
  | down =>
    show ((e.feedsOn vk bindings env).map .feed).filterMap Touch.view =
      ((e'.feedsOn vk bindings env).map .feed).filterMap Touch.view
    have hsome : ∀ fs : List (Feed α), (fs.map Touch.feed).filterMap Touch.view =
        fs.map Feed.view := by
      intro fs
      rw [List.filterMap_map]
      exact congrFun List.filterMap_eq_map fs
    rw [hsome, hsome, feedsOn_views hkeys]

/-- A timer feeds nothing. -/
theorem deliver_views (bindings : List (Binding α)) (t : Timeline α) (request : TimerRequest) :
    (t.touches bindings (.deliver request)).filterMap Touch.view = [] := by
  unfold Timeline.touches touches
  dsimp only
  split
  · rfl
  · split <;> rfl

/-- **What a schedule feeds, once all events are decided, is what the events feed
with no timer at all.** -/
theorem views_of_schedule {bindings : List (Binding α)} {turns : List Turn} {t t₀ : Timeline α}
    (h : Beside bindings t t₀) (hlegal : (schedules bindings).Legal t turns)
    (hend : ((schedules bindings).run t turns).upcoming = []) :
    (t.touchesIn bindings turns).filterMap Touch.view =
      (t₀.touchesIn bindings (List.replicate t₀.upcoming.length .key)).filterMap Touch.view := by
  induction turns generalizing t t₀ with
  | nil =>
    have hnil : t₀.upcoming = [] := h.follows.upcoming ▸ hend
    rw [hnil]
    rfl
  | cons turn turns ih =>
    rw [Timeline.touchesIn, List.filterMap_append]
    cases turn with
    | key =>
      obtain ⟨⟨event, env⟩, rest, hup⟩ := List.exists_cons_of_ne_nil hlegal.1
      have hup₀ : t₀.upcoming = (event, env) :: rest := h.follows.upcoming ▸ hup
      obtain ⟨u, -, hsame⟩ := h.follows.same
      have hrest := ih (beside_key h hlegal.1) hlegal.2 hend
      have htail : (t₀.step bindings .key).upcoming = rest := by
        rw [upcoming_key, hup₀]
        rfl
      have htouches : t.touches bindings .key =
          t.engine.touches env.now (.key event bindings env) := by
        unfold Timeline.touches
        rw [hup]
      have htouches₀ : t₀.touches bindings .key =
          t₀.engine.touches env.now (.key event bindings env) := by
        unfold Timeline.touches
        rw [hup₀]
      rw [hrest, htail, hup₀, List.length_cons, List.replicate_succ, Timeline.touchesIn,
        List.filterMap_append, htouches, htouches₀,
        touches_views hsame.keys event bindings env env.now env.now]
    | deliver request =>
      rw [deliver_views, List.nil_append]
      exact ih (beside_deliver h hlegal.1) hlegal.2 hend

/-- The feeds to one binding are those of the touches with its index. -/
theorem fedTo_views (index : Nat) (touches : List (Touch α)) (s : Tables α) :
    (fedTo index (tables.trace s touches)).map (fun x => x.1.view) =
      (touches.filterMap Touch.view).filter fun v => v.index == index := by
  induction touches generalizing s with
  | nil => rfl
  | cons touch touches ih =>
    have hrest := ih (s.touch touch).1
    cases touch with
    | feed f =>
      rw [List.filterMap_cons]
      dsimp only [Touch.view]
      by_cases hindex : f.index = index
      · rw [fedTo_own hindex, List.map_cons,
          List.filter_cons_of_pos (by simpa [Feed.view] using hindex)]
        exact congrArg (f.view :: ·) hrest
      · rw [fedTo_other hindex, List.filter_cons_of_neg (by simpa [Feed.view] using hindex)]
        exact hrest
    | expireChord seq due => exact hrest
    | expireSequence seq due => exact hrest
    | clear => exact hrest

/-- A schedule that decides every event. -/
structure DecidesAll (bindings : List (Binding α)) (events : List (KeyEvent × Env))
    (turns : List Turn) : Prop where
  legal : (schedules bindings).Legal (.start events) turns
  done : ((schedules bindings).run (.start events) turns).upcoming = []

/-- **Timers do not change what is fed to a binding.** -/
theorem feedsIn_views {bindings : List (Binding α)} {events : List (KeyEvent × Env)}
    (hsorted : events.Pairwise fun x y => x.2.now ≤ y.2.now)
    (hfew : (new : Engine α).armingsOf (ops bindings events) < 2 ^ 64) {turns turns' : List Turn}
    (h : DecidesAll bindings events turns) (h' : DecidesAll bindings events turns') (index : Nat) :
    (feedsIn bindings events turns index).map (fun x => x.1.view) =
      (feedsIn bindings events turns' index).map (fun x => x.1.view) := by
  have hbeside := beside_start hsorted hfew
  rw [feedsIn_tables, feedsIn_tables, fedTo_views, fedTo_views,
    views_of_schedule hbeside h.legal h.done, views_of_schedule hbeside h'.legal h'.done]

end KeySwitch.Engine
