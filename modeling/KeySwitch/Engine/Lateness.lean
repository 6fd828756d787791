import KeySwitch.Engine.Together
import KeySwitch.Engine.Tokens

/-!
# Late timers change nothing

A `Timeline` is the engine with the key events still to come and the timers it
has asked for and not been handed back. A schedule takes the events in order and
hands back each timer at some point where no event earlier than its due time is
still to come; the gesture timers all come back in the end, a chord's or
sequence's may never.

Every schedule is compared with one and the same run, that of the events with no
timer at all: by the time of the latest timer handed back, the two are the same
(`Follows`). At the end no gesture waits for a timer, so what the run without
timers still owes is what the schedule has fired.

The numbers of armings wrap at 2^64, and a run that wraps them can tell
schedules apart (`wrapped_late_expiry`): the results are about runs that do not.
-/

namespace KeySwitch.Engine

open Data Lib

variable {α : Type}

/-! ## Schedules -/

/-- What a schedule does next: the next key event, or handing back a timer. -/
inductive Turn
  | key
  | deliver (request : TimerRequest)
  deriving DecidableEq

/-- The engine in the middle of a schedule. -/
structure Timeline (α : Type) where
  engine : Engine α
  /-- The key events to come, each with what the world answers then. -/
  upcoming : List (KeyEvent × Env)
  /-- The timers asked for and not handed back. -/
  outstanding : List TimerRequest
  fired : List α
  /-- `suppress` and `mask` of each event so far. -/
  decided : List (Bool × Bool)

namespace Timeline

def start (events : List (KeyEvent × Env)) : Timeline α := ⟨.new, events, [], [], []⟩

def step (bindings : List (Binding α)) (t : Timeline α) : Turn → Timeline α
  | .key =>
    match t.upcoming with
    | [] => t
    | (event, env) :: rest =>
      let decided := t.engine.onKey event bindings env
      { engine := decided.1
        upcoming := rest
        outstanding := t.outstanding ++ decided.2.timers
        fired := t.fired ++ decided.2.fire
        decided := t.decided ++ [(decided.2.suppress, decided.2.mask)] }
  | .deliver request =>
    let fired := t.engine.onTimer request.token
    { t with
      engine := fired.1
      outstanding := t.outstanding.erase request
      fired := t.fired ++ fired.2 }

theorem step_key {bindings : List (Binding α)} {t : Timeline α} {event : KeyEvent} {env : Env}
    {rest : List (KeyEvent × Env)} (hup : t.upcoming = (event, env) :: rest) :
    t.step bindings .key =
      { engine := (t.engine.onKey event bindings env).1
        upcoming := rest
        outstanding := t.outstanding ++ (t.engine.onKey event bindings env).2.timers
        fired := t.fired ++ (t.engine.onKey event bindings env).2.fire
        decided := t.decided ++ [((t.engine.onKey event bindings env).2.suppress,
          (t.engine.onKey event bindings env).2.mask)] } := by
  unfold step
  rw [hup]

/-- A timer comes back once, after every event that is earlier than its due
time. -/
def Admits (t : Timeline α) : Turn → Prop
  | .key => t.upcoming ≠ []
  | .deliver request =>
    request ∈ t.outstanding ∧ ∀ x ∈ t.upcoming, request.due ≤ x.2.now

/-- Every event is decided and every gesture timer has come back. -/
structure Complete (t : Timeline α) : Prop where
  events : t.upcoming = []
  timers : ∀ r ∈ t.outstanding, r.token.slot = .chord ∨ r.token.slot = .sequence

instance (t : Timeline α) : (turn : Turn) → Decidable (t.Admits turn)
  | .key => decidable_of_iff (t.upcoming.isEmpty = false) List.isEmpty_eq_false_iff
  | .deliver request =>
    inferInstanceAs (Decidable (request ∈ t.outstanding ∧ ∀ x ∈ t.upcoming, request.due ≤ x.2.now))

instance (t : Timeline α) : Decidable t.Complete :=
  decidable_of_iff (t.upcoming.isEmpty = true ∧
      ∀ r ∈ t.outstanding, r.token.slot = .chord ∨ r.token.slot = .sequence)
    ⟨fun h => ⟨List.isEmpty_iff.mp h.1, h.2⟩, fun h => ⟨List.isEmpty_iff.mpr h.events, h.timers⟩⟩

end Timeline

/-- The machine of the schedules over one binding list. -/
def schedules (bindings : List (Binding α)) : Machine (Timeline α) Turn Unit where
  step t turn := (t.step bindings turn, ())
  enabled := Timeline.Admits

theorem schedules_step (bindings : List (Binding α)) (t : Timeline α) (turn : Turn) :
    ((schedules bindings).step t turn).1 = t.step bindings turn := rfl

instance (bindings : List (Binding α)) (t : Timeline α) (turn : Turn) :
    Decidable ((schedules bindings).enabled t turn) := inferInstanceAs (Decidable (t.Admits turn))

/-- A whole schedule of `events`. -/
def Schedules (bindings : List (Binding α)) (events : List (KeyEvent × Env))
    (turns : List Turn) : Prop :=
  (schedules bindings).Legal (.start events) turns ∧
    ((schedules bindings).run (.start events) turns).Complete

instance (bindings : List (Binding α)) (events : List (KeyEvent × Env)) (turns : List Turn) :
    Decidable (Schedules bindings events turns) :=
  inferInstanceAs (Decidable (_ ∧ _))

/-! ## What a schedule keeps -/

/-- The entries of the engine wait for timers that are outstanding, whose
numbers were handed out and are distinct. -/
structure Sound (t : Timeline α) : Prop where
  fresh : Fresh t.engine
  recorded : Recorded t.engine
  numbered : t.engine.ids.lastSeq < 2 ^ 64
  waiting : ∀ r ∈ t.engine.timed, r ∈ t.outstanding
  nodup : (t.outstanding.map fun r => r.token.seq).Nodup
  bound : ∀ r ∈ t.outstanding, r.token.seq ≤ t.engine.ids.lastSeq

theorem sound_start (events : List (KeyEvent × Env)) : Sound (.start events : Timeline α) where
  fresh := fresh_new
  recorded := recorded_new
  numbered := by simp [Timeline.start, new, Ids.default]
  waiting := by simp [Timeline.start, timed, new, Gestures.timed, Gestures.new, Chords.timed,
    Chords.new, Sequences.timed, Sequences.new]
  nodup := List.nodup_nil
  bound := by simp [Timeline.start]

theorem sound_key {bindings : List (Binding α)} {t : Timeline α} (h : Sound t)
    {event : KeyEvent} {env : Env} {rest : List (KeyEvent × Env)}
    (hup : t.upcoming = (event, env) :: rest)
    (hlt : t.engine.ids.lastSeq + t.engine.armings (.key event bindings env) < 2 ^ 64) :
    Sound (t.step bindings .key) := by
  have heffect := step_effect h.fresh.wf (.key event bindings env)
  have hfresh := heffect.fresh hlt
  have hlast := heffect.lastSeq hlt
  rw [Timeline.step_key hup]
  refine ⟨fresh_step t.engine (.key event bindings env) h.fresh hlt,
    onKey_recorded h.recorded h.fresh.wf event bindings env, ?_, fun r hr => ?_, ?_,
    fun r hr => ?_⟩
  · show (t.engine.onKey event bindings env).1.ids.lastSeq < 2 ^ 64
    have hlast' : (t.engine.onKey event bindings env).1.ids.lastSeq = _ := hlast
    omega
  · rcases List.mem_append.mp (heffect.timed.subset hr) with hr | hr
    · exact List.mem_append_right _ hr
    · exact List.mem_append_left _ (h.waiting r hr)
  · dsimp only
    rw [List.map_append, List.nodup_append]
    refine ⟨h.nodup, hfresh.nodup, ?_⟩
    intro a ha b hb hab
    obtain ⟨r, hr, rfl⟩ := List.mem_map.mp ha
    obtain ⟨r', hr', rfl⟩ := List.mem_map.mp hb
    have := h.bound r hr
    have := (hfresh.bounds r' hr').1
    omega
  · dsimp only at hr ⊢
    have hlast' : (t.engine.onKey event bindings env).1.ids.lastSeq =
        t.engine.ids.lastSeq + t.engine.armings (.key event bindings env) := hlast
    rw [hlast']
    rcases List.mem_append.mp hr with hr | hr
    · have := h.bound r hr
      omega
    · exact (hfresh.bounds r hr).2

/-- In a sound timeline an entry that waits for an outstanding timer's token
waits for that very timer. -/
theorem Sound.unique {t : Timeline α} (h : Sound t) {r r' : TimerRequest} (hr : r ∈ t.outstanding)
    (hr' : r' ∈ t.engine.timed) (hseq : r'.token.seq = r.token.seq) : r' = r :=
  List.inj_on_of_nodup_map h.nodup (h.waiting r' hr') hr hseq

theorem sound_deliver {bindings : List (Binding α)} {t : Timeline α} (h : Sound t)
    (request : TimerRequest) :
    Sound (t.step bindings (.deliver request)) := by
  have heffect := onTimer_effect h.fresh.wf request.token
  have htimed : (t.engine.onTimer request.token).1.timed.Subperm t.engine.timed := heffect.timed
  have hlast : (t.engine.onTimer request.token).1.ids.lastSeq = t.engine.ids.lastSeq :=
    heffect.lastSeq h.numbered
  refine ⟨fresh_step t.engine (.timer request.token) h.fresh h.numbered,
    onTimer_recorded h.recorded request.token, ?_, fun r hr => ?_, ?_, fun r hr => ?_⟩
  · show (t.engine.onTimer request.token).1.ids.lastSeq < 2 ^ 64
    rw [hlast]
    exact h.numbered
  · -- The request handed back is the one that is erased.
    have hmem : r ∈ (t.engine.onTimer request.token).1.timed := hr
    refine (List.mem_erase_of_ne fun heq => ?_).mpr (h.waiting r (htimed.subset hmem))
    have hdead := onTimer_delivers h.fresh request.token
    rw [heq] at hmem
    exact absurd ((isLive_iff _ request.token).mpr ⟨request.due, hmem⟩) (by simp [hdead])
  · exact h.nodup.sublist (List.erase_sublist.map _)
  · show r.token.seq ≤ (t.engine.onTimer request.token).1.ids.lastSeq
    rw [hlast]
    exact h.bound r (List.mem_of_mem_erase hr)

/-! ## Every schedule follows the run without timers -/

/-- By some time that no event to come is earlier than, the two timelines are
the same. -/
structure Follows (t t₀ : Timeline α) : Prop where
  upcoming : t.upcoming = t₀.upcoming
  decided : t.decided = t₀.decided
  same : ∃ u, (∀ x ∈ t.upcoming, u ≤ x.2.now) ∧ SameBy u t.fired t.engine t₀.fired t₀.engine

theorem sameBy_refl (u : Instant) (fired : Multiset α) (e : Engine α) : SameBy u fired e fired e :=
  ⟨rfl, rfl, rfl, rfl, ⟨rfl, rfl⟩, rfl, rfl⟩

/-- The calls into the engine that the events to come make. -/
def ops (bindings : List (Binding α)) (events : List (KeyEvent × Env)) : List (Op α) :=
  events.map fun x => .key x.1 bindings x.2

/-- The event to come next, decided in both. -/
theorem follows_key {bindings : List (Binding α)} {t t₀ : Timeline α} (h : Follows t t₀)
    (ht : Sound t) (ht₀ : Sound t₀) {event : KeyEvent} {env : Env}
    {rest : List (KeyEvent × Env)} (hup : t.upcoming = (event, env) :: rest)
    (hsorted : ∀ x ∈ rest, env.now ≤ x.2.now) :
    Follows (t.step bindings .key) (t₀.step bindings .key) := by
  obtain ⟨u, hu, hsame⟩ := h.same
  have hu' : u ≤ env.now := hu (event, env) (by rw [hup]; exact List.mem_cons_self)
  have hboth := onKey_together event bindings env (sameBy_mono hu' hsame) ht.fresh.wf
    ht₀.fresh.wf ht.recorded ht₀.recorded
  rw [Timeline.step_key hup, Timeline.step_key (h.upcoming ▸ hup)]
  refine ⟨rfl, ?_, env.now, hsorted, ?_⟩
  · dsimp only
    rw [h.decided, hboth.suppress, hboth.mask]
  · dsimp only
    rw [← Multiset.coe_add, ← Multiset.coe_add]
    exact hboth.engines

/-- A timer handed back in one of them. -/
theorem follows_deliver {bindings : List (Binding α)} {t t₀ : Timeline α} (h : Follows t t₀)
    (ht : Sound t) {request : TimerRequest} (hadmits : t.Admits (.deliver request)) :
    Follows (t.step bindings (.deliver request)) t₀ := by
  obtain ⟨u, hu, hsame⟩ := h.same
  obtain ⟨hmem, hdue⟩ := hadmits
  refine ⟨h.upcoming, h.decided, max u request.due, fun x hx => ?_, ?_⟩
  · exact max_le (hu x hx) (hdue x hx)
  · have hlater := sameBy_mono (le_max_left u request.due) hsame
    have htimer := onTimer_together request.token hlater fun due hwaits => by
      have heq := ht.unique hmem hwaits rfl
      rw [← heq]
      exact le_max_right u due
    unfold Timeline.step
    dsimp only
    rw [← Multiset.coe_add]
    exact htimer

/-- The rest of the events decided with no timer handed back. -/
def untimed (bindings : List (Binding α)) (t : Timeline α) : Timeline α :=
  t.upcoming.foldl (fun t _ => t.step bindings .key) t

theorem upcoming_key (bindings : List (Binding α)) (t : Timeline α) :
    (t.step bindings .key).upcoming = t.upcoming.tail := by
  cases hup : t.upcoming with
  | nil =>
    unfold Timeline.step
    rw [hup]
    exact hup
  | cons x rest => rw [Timeline.step_key hup, List.tail_cons]

theorem untimed_key (bindings : List (Binding α)) {t : Timeline α} (h : t.upcoming ≠ []) :
    untimed bindings (t.step bindings .key) = untimed bindings t := by
  unfold untimed
  rw [upcoming_key]
  cases hup : t.upcoming with
  | nil => exact absurd hup h
  | cons x rest => rfl

/-- The numbers that the events to come will take are there. -/
def Room (bindings : List (Binding α)) (t : Timeline α) : Prop :=
  t.engine.ids.lastSeq + t.engine.armingsOf (ops bindings t.upcoming) < 2 ^ 64

/-- What a schedule has in common with the run without timers. -/
structure Beside (bindings : List (Binding α)) (t t₀ : Timeline α) : Prop where
  follows : Follows t t₀
  sound : Sound t
  sound₀ : Sound t₀
  room : Room bindings t₀
  sorted : t.upcoming.Pairwise fun x y => x.2.now ≤ y.2.now

theorem beside_key {bindings : List (Binding α)} {t t₀ : Timeline α} (h : Beside bindings t t₀)
    (hup : t.upcoming ≠ []) :
    Beside bindings (t.step bindings .key) (t₀.step bindings .key) := by
  obtain ⟨⟨event, env⟩, rest, hup⟩ := List.exists_cons_of_ne_nil hup
  have hup₀ : t₀.upcoming = (event, env) :: rest := h.follows.upcoming ▸ hup
  obtain ⟨u, -, hsame⟩ := h.follows.same
  have hsorted := h.sorted
  rw [hup] at hsorted
  have hroom := h.room
  unfold Room ops at hroom
  rw [hup₀, List.map_cons, armingsOf] at hroom
  dsimp only at hroom
  -- Both take the same numbers: the keys are the same.
  have hlt₀ : t₀.engine.ids.lastSeq + t₀.engine.armings (.key event bindings env) < 2 ^ 64 := by
    omega
  have hlt : t.engine.ids.lastSeq + t.engine.armings (.key event bindings env) < 2 ^ 64 := by
    unfold armings at hlt₀ ⊢
    rw [hsame.ids, hsame.keys]
    exact hlt₀
  have hlast := (step_effect h.sound₀.fresh.wf (.key event bindings env)).lastSeq hlt₀
  refine ⟨follows_key h.follows h.sound h.sound₀ hup (List.pairwise_cons.mp hsorted).1,
    sound_key h.sound hup hlt, sound_key h.sound₀ hup₀ hlt₀, ?_, ?_⟩
  · rw [Timeline.step_key hup₀]
    unfold Room ops
    dsimp only
    have hlast' : (t₀.engine.onKey event bindings env).1.ids.lastSeq = _ := hlast
    have hrest : (t₀.engine.step (.key event bindings env)).1.armingsOf
        (rest.map fun x => .key x.1 bindings x.2) =
      (t₀.engine.onKey event bindings env).1.armingsOf
        (rest.map fun x => .key x.1 bindings x.2) := rfl
    omega
  · rw [upcoming_key, hup]
    exact (List.pairwise_cons.mp hsorted).2

theorem beside_deliver {bindings : List (Binding α)} {t t₀ : Timeline α}
    (h : Beside bindings t t₀) {request : TimerRequest} (hadmits : t.Admits (.deliver request)) :
    Beside bindings (t.step bindings (.deliver request)) t₀ :=
  ⟨follows_deliver h.follows h.sound hadmits, sound_deliver h.sound request, h.sound₀, h.room,
    h.sorted⟩

/-- Wherever a schedule ends, the run without timers has a state beside it, with
the same events to come. -/
theorem beside_run {bindings : List (Binding α)} {turns : List Turn} {t t₀ : Timeline α}
    (h : Beside bindings t t₀) (hlegal : (schedules bindings).Legal t turns) :
    ∃ t₀', Beside bindings ((schedules bindings).run t turns) t₀' ∧
      untimed bindings t₀' = untimed bindings t₀ := by
  induction turns generalizing t t₀ with
  | nil => exact ⟨t₀, h, rfl⟩
  | cons turn turns ih =>
    cases turn with
    | key =>
      obtain ⟨t₀', hbeside, huntimed⟩ := ih (beside_key h hlegal.1) hlegal.2
      refine ⟨t₀', hbeside, huntimed.trans ?_⟩
      exact untimed_key bindings (h.follows.upcoming ▸ hlegal.1)
    | deliver request => exact ih (beside_deliver h hlegal.1) hlegal.2

/-- Gestures that wait for no timer owe nothing. -/
theorem Gestures.owed_of_timed_nil {g : Gestures α} {generation : Nat}
    (h : g.timed generation = []) (u : Instant) : g.owed u = 0 := by
  unfold Gestures.timed at h
  rw [List.append_eq_nil_iff, List.flatMap_eq_nil_iff, List.map_eq_nil_iff] at h
  have hpresses : g.presses.flatMap (Press.owed u) = [] := by
    rw [List.flatMap_eq_nil_iff]
    intro p hp
    refine Press.owed_of_not_due ?_
    have hnone := h.1 p hp
    unfold Press.timed at hnone
    rw [Option.toList_eq_nil_iff, Option.map_eq_none_iff] at hnone
    unfold Press.dueBy
    rw [hnone]
    rfl
  unfold owed
  rw [hpresses, h.2]
  rfl

theorem beside_start {bindings : List (Binding α)} {events : List (KeyEvent × Env)}
    (hsorted : events.Pairwise fun x y => x.2.now ≤ y.2.now)
    (hfew : (new : Engine α).armingsOf (ops bindings events) < 2 ^ 64) :
    Beside bindings (.start events) (.start events) := by
  refine ⟨⟨rfl, rfl, 0, fun _ _ => Nat.zero_le _, sameBy_refl 0 _ _⟩, sound_start events,
    sound_start events, ?_, hsorted⟩
  unfold Room Timeline.start
  have hzero : (new : Engine α).ids.lastSeq = 0 := rfl
  dsimp only
  omega

/-- A complete schedule decided the events as the run without timers did, and
has fired what that fired and will owe by some time on. -/
theorem complete_beside {bindings : List (Binding α)} {events : List (KeyEvent × Env)}
    (hsorted : events.Pairwise fun x y => x.2.now ≤ y.2.now)
    (hfew : (new : Engine α).armingsOf (ops bindings events) < 2 ^ 64) {turns : List Turn}
    (h : Schedules bindings events turns) :
    let t := (schedules bindings).run (.start events) turns
    let t₀ := untimed bindings (.start events)
    t.decided = t₀.decided ∧ ∃ u, ∀ v, u ≤ v →
      (t.fired : Multiset α) = t₀.fired + t₀.engine.gestures.owed v := by
  intro t t₀
  obtain ⟨t₀', hbeside, huntimed⟩ := beside_run (beside_start hsorted hfew) h.1
  have hnil : t₀'.upcoming = [] := hbeside.follows.upcoming ▸ h.2.events
  have ht₀ : t₀ = t₀' := by
    have hend : untimed bindings t₀' = t₀' := by
      unfold untimed
      rw [hnil]
      rfl
    exact huntimed.symm.trans hend
  obtain ⟨u, -, hsame⟩ := hbeside.follows.same
  refine ⟨by rw [ht₀]; exact hbeside.follows.decided, u, fun v huv => ?_⟩
  have hnone : t.engine.gestures.timed t.engine.ids.generation = [] := by
    rw [List.eq_nil_iff_forall_not_mem]
    intro r hr
    obtain ⟨-, vk, hslot⟩ := Gestures.timed_slot hr
    rcases h.2.timers r (hbeside.sound.waiting r (mem_timed.mpr (Or.inl hr))) with hother | hother
    · exact absurd (hslot.symm.trans hother) (by simp)
    · exact absurd (hslot.symm.trans hother) (by simp)
  have htotal := (sameBy_mono huv hsame).gestures.total
  have howed : t.engine.gestures.owed v = 0 := Gestures.owed_of_timed_nil hnone v
  rw [howed, add_zero] at htotal
  rw [ht₀]
  exact htotal

/-- **Lateness of timers changes nothing.** Two complete schedules of the same
events, which together take fewer than 2^64 numbers, decide every event alike
and fire the same actions. -/
theorem lateness_changes_nothing (bindings : List (Binding α)) (events : List (KeyEvent × Env))
    (hsorted : events.Pairwise fun x y => x.2.now ≤ y.2.now)
    (hfew : (new : Engine α).armingsOf (ops bindings events) < 2 ^ 64) {early late : List Turn}
    (hearly : Schedules bindings events early) (hlate : Schedules bindings events late) :
    let t₁ := (schedules bindings).run (.start events) early
    let t₂ := (schedules bindings).run (.start events) late
    t₁.decided = t₂.decided ∧ t₁.fired.Perm t₂.fired := by
  intro t₁ t₂
  obtain ⟨hdecided₁, u₁, hfired₁⟩ := complete_beside hsorted hfew hearly
  obtain ⟨hdecided₂, u₂, hfired₂⟩ := complete_beside hsorted hfew hlate
  refine ⟨hdecided₁.trans hdecided₂.symm, Multiset.coe_eq_coe.mp ?_⟩
  exact (hfired₁ _ (le_max_left u₁ u₂)).trans (hfired₂ _ (le_max_right u₁ u₂)).symm

/-- A world that answers "up" for every key. -/
def quiet (now : Instant) : Env := ⟨now, fun _ => false, ⟨none, none, id⟩⟩

/-- A 200 ms Hold of A, let go after 300 ms, its timer on time or at last. -/
theorem lateness_changes_nothing_hold :
    let bindings : List (Binding Unit) :=
      [⟨.combo ⟨[.key 0x41]⟩, (), true, .always, .hold 200, false, false, none⟩]
    let events := [((⟨0x41, .down⟩ : KeyEvent), quiet 0), (⟨0x41, .up⟩, quiet (fromMillis 300))]
    let hold : TimerRequest := ⟨⟨0, .gesture 0x41, 1⟩, fromMillis 200⟩
    ((schedules bindings).run (.start events) [.key, .deliver hold, .key]).fired.Perm
      ((schedules bindings).run (.start events) [.key, .key, .deliver hold]).fired := by
  intro bindings events hold
  exact (lateness_changes_nothing bindings events (by decide) (by decide) (by decide)
    (by decide)).2

/-! ## Runs that wrap the numbers -/

theorem keys_new {ks : KeyState} (hactive : ∀ v, ks.active v = false)
    (hrecord : ∀ v, ks.lastDown v = .unknown) : ks = .new := by
  obtain ⟨active, lastDown⟩ := ks
  obtain rfl : active = fun _ => false := funext hactive
  obtain rfl : lastDown = fun _ => .unknown := funext hrecord
  rfl

/-- A goes up where no key is down. -/
theorem upA_release : ((KeyState.new.release 0x41).takeBlocked 0x41).2 = .new := by
  refine keys_new (fun v => ?_) fun v => ?_
  · rw [takeBlocked_active, release_active]
    rfl
  · rw [KeyState.takeBlocked_lt _ (by decide)]
    show (if v = 0x41 then LastDown.unknown else .unknown) = .unknown
    split <;> rfl

/-- One event of a timeline, its decision known. -/
theorem step_key_eq {bindings : List (Binding α)} {e e' : Engine α} {d : Decision α}
    {event : KeyEvent} {env : Env} (h : e.onKey event bindings env = (e', d))
    {rest : List (KeyEvent × Env)} {out : List TimerRequest} {fired : List α}
    {decided : List (Bool × Bool)} :
    Timeline.step bindings ⟨e, (event, env) :: rest, out, fired, decided⟩ .key =
      ⟨e', rest, out ++ d.timers, fired ++ d.fire, decided ++ [(d.suppress, d.mask)]⟩ := by
  rw [Timeline.step_key rfl, h]

/-- An engine with no key down and no press pending. -/
def atRest (chords : Chords α) (sequences : Sequences α) (lastSeq : Nat) : Engine α :=
  ⟨.new, .new, chords, sequences, false, ⟨0, lastSeq⟩, .new⟩

/-- A key-up then takes a number, and passes. -/
theorem atRest_up (bindings : List (Binding α)) (chords : Chords α) (sequences : Sequences α)
    (lastSeq : Nat) :
    (atRest chords sequences lastSeq).onKey ⟨0x41, .up⟩ bindings (quiet 1) =
      (atRest chords sequences ((lastSeq + 1) % 2 ^ 64), .default) := by
  have hresync : Resync.new.event 0x41 true = .new := rfl
  have hrest : (atRest chords sequences lastSeq).onKey ⟨0x41, .up⟩ bindings (quiet 1) =
      ({ atRest chords sequences ((lastSeq + 1) % 2 ^ 64) with
          keys := ((KeyState.new.release 0x41).takeBlocked 0x41).2
          resync := Resync.new.event 0x41 true }, .default) := rfl
  rw [hrest, upA_release, hresync]
  rfl

/-- A run of such key-ups takes one number each. -/
theorem ups_run (bindings : List (Binding α)) (chords : Chords α) (sequences : Sequences α)
    (rest : List (KeyEvent × Env)) (out : List TimerRequest) (turns : List Turn) :
    ∀ (n lastSeq : Nat) (decided : List (Bool × Bool)), lastSeq < 2 ^ 64 →
      let t : Timeline α := ⟨atRest chords sequences lastSeq,
        List.replicate n (⟨0x41, .up⟩, quiet 1) ++ rest, out, [], decided⟩
      let t' : Timeline α := ⟨atRest chords sequences ((lastSeq + n) % 2 ^ 64), rest, out, [],
        decided ++ List.replicate n (false, false)⟩
      (schedules bindings).run t (List.replicate n .key ++ turns) =
          (schedules bindings).run t' turns ∧
        ((schedules bindings).Legal t' turns →
          (schedules bindings).Legal t (List.replicate n .key ++ turns)) := by
  intro n
  induction n with
  | zero =>
    intro lastSeq decided hlt
    simp only [Nat.add_zero, Nat.mod_eq_of_lt hlt, List.replicate_zero, List.append_nil,
      List.nil_append]
    exact ⟨trivial, id⟩
  | succ n ih =>
    intro lastSeq decided hlt
    have hstep : (⟨atRest chords sequences lastSeq,
        List.replicate (n + 1) (⟨0x41, .up⟩, quiet 1) ++ rest, out, [], decided⟩ :
          Timeline α).step bindings .key =
        ⟨atRest chords sequences ((lastSeq + 1) % 2 ^ 64),
          List.replicate n (⟨0x41, .up⟩, quiet 1) ++ rest, out, [],
          decided ++ [(false, false)]⟩ := by
      rw [List.replicate_succ, List.cons_append, step_key_eq (atRest_up _ _ _ _)]
      simp [Decision.default]
    have hrest := ih ((lastSeq + 1) % 2 ^ 64) (decided ++ [(false, false)])
      (Nat.mod_lt _ (by decide))
    have hsum : ((lastSeq + 1) % 2 ^ 64 + n) % 2 ^ 64 = (lastSeq + (n + 1)) % 2 ^ 64 := by omega
    rw [hsum, List.append_assoc, List.singleton_append, ← List.replicate_succ, ← hstep] at hrest
    refine ⟨hrest.1, fun hturns => ⟨?_, hrest.2 hturns⟩⟩
    exact List.cons_ne_nil _ _

/-- The events after the run of key-ups: A and B go down. -/
def secondChord : List (KeyEvent × Env) := [(⟨0x41, .down⟩, quiet 1), (⟨0x42, .down⟩, quiet 1)]

/-- A goes down and up, then up `n` times more; then A and B go down. -/
def wrappedEvents (n : Nat) : List (KeyEvent × Env) :=
  (⟨0x41, .down⟩, quiet 0) :: (⟨0x41, .up⟩, quiet 1) ::
    (List.replicate n (⟨0x41, .up⟩, quiet 1) ++ secondChord)

/-- All key-ups, then `rest`. -/
def wrappedTurns (n : Nat) (rest : List Turn) : List Turn :=
  .key :: .key :: (List.replicate n .key ++ rest)

theorem wrapped_sorted (n : Nat) :
    (wrappedEvents n).Pairwise fun x y => x.2.now ≤ y.2.now := by
  have hone : ∀ x ∈ (wrappedEvents n).tail, x.2.now = 1 := by
    intro x hx
    rcases List.mem_cons.mp hx with rfl | hx
    · rfl
    · rcases List.mem_append.mp hx with hx | hx
      · rw [List.eq_of_mem_replicate hx]
        rfl
      · rcases List.mem_cons.mp hx with rfl | hx
        · rfl
        · rw [List.mem_singleton.mp hx]
          rfl
  refine List.pairwise_cons.mpr ⟨fun x _ => Nat.zero_le _, ?_⟩
  refine List.pairwise_of_forall_mem_list fun x hx y hy => ?_
  rw [hone x hx, hone y hy]

/-- What has been decided changes nothing that follows. -/
theorem run_decided (bindings : List (Binding α)) (turns : List Turn) :
    ∀ (t : Timeline α) (decided : List (Bool × Bool)),
      (∃ decided', (schedules bindings).run { t with decided := decided } turns =
        { (schedules bindings).run t turns with decided := decided' }) ∧
      ((schedules bindings).Legal t turns →
        (schedules bindings).Legal { t with decided := decided } turns) := by
  induction turns with
  | nil => exact fun t decided => ⟨⟨decided, rfl⟩, id⟩
  | cons turn turns ih =>
    intro t decided
    have hstep : ∃ decided', Timeline.step bindings { t with decided := decided } turn =
        { t.step bindings turn with decided := decided' } := by
      obtain ⟨engine, upcoming, outstanding, fired, _⟩ := t
      cases turn with
      | key =>
        cases upcoming with
        | nil => exact ⟨decided, rfl⟩
        | cons x rest => exact ⟨_, rfl⟩
      | deliver request => exact ⟨decided, rfl⟩
    obtain ⟨decided', hstep⟩ := hstep
    obtain ⟨hrun, hlegal⟩ := ih (t.step bindings turn) decided'
    rw [Machine.run_cons, Machine.run_cons, Machine.legal_cons, Machine.legal_cons, schedules_step,
      schedules_step, hstep]
    exact ⟨hrun, fun h => ⟨by cases turn <;> exact h.1, hlegal h.2⟩⟩

/-- From an engine that has taken three numbers, with no key down, the key-ups bring
the numbers back to none, and the rest goes on from there. -/
theorem wrapped_from {bindings : List (Binding α)} {chords : Chords α} {sequences : Sequences α}
    {out : List TimerRequest} {decided : List (Bool × Bool)} {n : Nat}
    (hstart : ((Timeline.start (wrappedEvents n)).step bindings .key).step bindings .key =
      ⟨atRest chords sequences 3, List.replicate n (⟨0x41, .up⟩, quiet 1) ++ secondChord, out, [],
        decided⟩)
    (hwrap : (3 + n) % 2 ^ 64 = 0) (turns : List Turn) :
    let t : Timeline α := ⟨atRest chords sequences 0, secondChord, out, [], []⟩
    (∃ decided', (schedules bindings).run (.start (wrappedEvents n)) (wrappedTurns n turns) =
        { (schedules bindings).run t turns with decided := decided' }) ∧
      ((schedules bindings).Legal t turns →
        (schedules bindings).Legal (.start (wrappedEvents n)) (wrappedTurns n turns)) := by
  intro t
  have hups := ups_run bindings chords sequences secondChord out turns n 3 decided (by decide)
  rw [hwrap] at hups
  dsimp only at hups
  rw [← hstart] at hups
  obtain ⟨hrun, hlegal⟩ := run_decided bindings turns t
    (decided ++ List.replicate n (false, false))
  have hsecond : (Timeline.step bindings (.start (wrappedEvents n)) .key).upcoming ≠ [] := by
    rw [upcoming_key]
    exact List.cons_ne_nil _ _
  unfold wrappedTurns
  rw [Machine.run_cons, Machine.run_cons, Machine.legal_cons, Machine.legal_cons, schedules_step,
    schedules_step, hups.1]
  exact ⟨hrun, fun h => ⟨List.cons_ne_nil _ _, hsecond, hups.2 (hlegal h)⟩⟩

/-! ## A chord over numbers that wrap -/

/-- A chord of A and B, open for one nanosecond. -/
def chordOfAB : Binding Unit :=
  ⟨.chord [.key 0x41, .key 0x42] 1, (), true, .always, .immediate, false, false, none⟩

/-- The timer of the first chord. -/
def firstExpiry : TimerRequest := ⟨⟨0, .chord, 2⟩, 1⟩

/-- The engine with one chord pending, started by A as number 2. -/
def withChord (keys : KeyState) (expiresAt : Instant) (lastSeq : Nat) : Engine Unit :=
  ⟨keys, .new, ⟨[⟨[.key 0x41, .key 0x42], [0x41], (), expiresAt, 2⟩]⟩, .new, false, ⟨0, lastSeq⟩,
    .new⟩

/-- A alone is down, its key-down swallowed. -/
def downA : KeyState := (KeyState.new.press 0x41).2.markBlocked 0x41

/-- A goes up again after its key-down was swallowed. -/
theorem downA_release (now : Instant) :
    ((downA.release 0x41).takeBlocked 0x41).2.clearReleasedModifiers (quiet now) 0x41 .menu =
      .new := by
  refine keys_new (fun v => ?_) fun v => ?_
  · rw [KeyState.clearReleasedModifiers_active, takeBlocked_active, release_active]
    by_cases hv : v = 0x41
    · subst hv
      rfl
    · have hactive : downA.active v = false := by
        show (if v = 0x41 then true else false) = false
        rw [if_neg hv]
      rw [hactive]
      rfl
  · rw [KeyState.clearReleasedModifiers_lastDown, KeyState.takeBlocked_lt _ (by decide)]
    show (if v = 0x41 then LastDown.unknown else if v = 0x41 then .suppressed else .unknown) =
      .unknown
    split <;> rfl

/-- The first key-up of A, which is swallowed. -/
theorem withChord_release : (withChord downA 1 2).onKey ⟨0x41, .up⟩ [chordOfAB] (quiet 1) =
    (withChord .new 1 3, ⟨true, [], [], false⟩) := by
  have hrest : (withChord downA 1 2).onKey ⟨0x41, .up⟩ [chordOfAB] (quiet 1) =
      (withChord (((downA.release 0x41).takeBlocked 0x41).2.clearReleasedModifiers (quiet 1) 0x41
        .menu) 1 3, ⟨true, [], [], false⟩) := rfl
  rw [hrest, downA_release]

/-- The first chord is pending after A goes down and up. -/
theorem wrapped_start (n : Nat) :
    ((Timeline.start (wrappedEvents n) : Timeline Unit).step [chordOfAB] .key).step
        [chordOfAB] .key =
      ⟨withChord .new 1 3, List.replicate n (⟨0x41, .up⟩, quiet 1) ++ secondChord,
        [firstExpiry], [], [(true, false), (true, false)]⟩ := by
  have hdown : (new : Engine Unit).onKey ⟨0x41, .down⟩ [chordOfAB] (quiet 0) =
      (withChord downA 1 2, ⟨true, [], [firstExpiry], false⟩) := rfl
  show Timeline.step [chordOfAB] (Timeline.step [chordOfAB] ⟨new, (⟨0x41, .down⟩, quiet 0) ::
    (⟨0x41, .up⟩, quiet 1) :: (List.replicate n (⟨0x41, .up⟩, quiet 1) ++ secondChord), [], [],
    []⟩ .key) .key = _
  rw [step_key_eq hdown, step_key_eq withChord_release]
  rfl

/-- The engine once the numbers have wrapped, with the first chord in the table and its
timer still to come. -/
def wrapped : Timeline Unit := ⟨withChord .new 1 0, secondChord, [firstExpiry], [], []⟩

theorem wrapped_run {n : Nat} (hwrap : (3 + n) % 2 ^ 64 = 0) (turns : List Turn) :
    (∃ decided, (schedules [chordOfAB]).run (.start (wrappedEvents n)) (wrappedTurns n turns) =
        { (schedules [chordOfAB]).run wrapped turns with decided := decided }) ∧
      ((schedules [chordOfAB]).Legal wrapped turns →
        (schedules [chordOfAB]).Legal (.start (wrappedEvents n)) (wrappedTurns n turns)) :=
  wrapped_from (wrapped_start n) hwrap turns

/-- The second chord takes the number of the first: it fires if no timer comes back,
and is dropped by the first one's. -/
theorem wrapped_differ {n : Nat} (hwrap : (3 + n) % 2 ^ 64 = 0) :
    let early := wrappedTurns n [.key, .key]
    let late := wrappedTurns n [.key, .deliver firstExpiry, .key]
    Schedules [chordOfAB] (wrappedEvents n) early ∧ Schedules [chordOfAB] (wrappedEvents n) late ∧
      ¬((schedules [chordOfAB]).run (.start (wrappedEvents n)) early).fired.Perm
        ((schedules [chordOfAB]).run (.start (wrappedEvents n)) late).fired := by
  intro early late
  obtain ⟨⟨_, hearly⟩, hlegal⟩ := wrapped_run hwrap [.key, .key]
  obtain ⟨⟨_, hlate⟩, hlegal'⟩ := wrapped_run hwrap [.key, .deliver firstExpiry, .key]
  refine ⟨⟨hlegal (by decide +kernel), ?_⟩, ⟨hlegal' (by decide +kernel), ?_⟩, ?_⟩
  · rw [hearly]
    exact ⟨by rfl, by dsimp only; decide +kernel⟩
  · rw [hlate]
    exact ⟨by rfl, by dsimp only; decide +kernel⟩
  · rw [hearly, hlate]
    exact fun hperm => absurd hperm.length_eq (by dsimp only; decide +kernel)

/-- **Numbers that wrap can tell schedules apart.** With a chord of A and B, the
events of `wrappedEvents` at 2^64 - 3 key-ups fire the chord's action if no
timer comes back, and nothing if the first chord's comes back late, before B:
the second chord has its number. -/
theorem wrapped_late_expiry :
    ∃ early late, (wrappedEvents (2 ^ 64 - 3)).Pairwise (fun x y => x.2.now ≤ y.2.now) ∧
      Schedules [chordOfAB] (wrappedEvents (2 ^ 64 - 3)) early ∧
      Schedules [chordOfAB] (wrappedEvents (2 ^ 64 - 3)) late ∧
      ¬((schedules [chordOfAB]).run (.start (wrappedEvents (2 ^ 64 - 3))) early).fired.Perm
        ((schedules [chordOfAB]).run (.start (wrappedEvents (2 ^ 64 - 3))) late).fired := by
  have hwrap : (3 + (2 ^ 64 - 3)) % 2 ^ 64 = 0 := by decide
  generalize 2 ^ 64 - 3 = n at hwrap ⊢
  exact ⟨_, _, wrapped_sorted n, wrapped_differ hwrap⟩

end KeySwitch.Engine
