import KeySwitch.Engine.Erasure
import KeySwitch.Engine.PressLife
import KeySwitch.Engine.Tokens

/-!
# Where a fired action comes from

Actions are marked with the call whose list brought them and, for a `keys`
binding, with its gesture. `provenance` runs the engine's operations over marked
actions; it also keeps the clock of the calls and the timers asked for so far,
which say when the environment may hand a timer back. Once the marks are erased
its runs are those of `operations` (`provenance_erases`).

For the call `n`, `markOf n` picks the gestures of that call's list and nothing
else. Until the call no entry of the engine is picked (`untouched_run`).
-/

namespace KeySwitch.Engine

open Data Lib

variable {α : Type}

/-! ## Marks -/

/-- An action, the number of the call that brought it, and the gesture it is for. -/
structure Marked (α : Type) where
  action : α
  origin : Nat
  gesture : Option Gesture

/-- The gesture that fires the action of `b`, if one does. -/
def bindingGesture (b : Binding α) : Option Gesture :=
  match b.kind with
  | .combo _ => gestureOf b.trigger
  | .sequence _ _ | .chord _ _ => none

/-- `b` in the list of the call `origin`. -/
def mark (origin : Nat) (b : Binding α) : Binding (Marked α) :=
  b.map fun action => ⟨action, origin, bindingGesture b⟩

def Op.mark (origin : Nat) : Op α → Op (Marked α)
  | .key event bindings env => .key event (bindings.map (Engine.mark origin)) env
  | .timer token => .timer token
  | .forget token => .forget token
  | .reset env reason => .reset env reason
  | .foregroundChanged => .foregroundChanged
  | .resyncIfDue env notes => .resyncIfDue env notes
  | .inputReturned => .inputReturned
  | .trackInjected event => .trackInjected event

theorem Op.mark_map (origin : Nat) (op : Op α) : (op.mark origin).map Marked.action = op := by
  cases op with
  | key event bindings env =>
    show Op.key event ((bindings.map (Engine.mark origin)).map (Binding.map Marked.action)) env = _
    rw [List.map_map]
    congr 1
    exact List.map_id' bindings
  | _ => rfl

/-- The gestures of the call `n`'s list. -/
def markOf (n : Nat) (m : Marked α) : Option Gesture := if m.origin = n then m.gesture else none

/-- A binding of the call `n` is picked for its gesture, and no other is. -/
theorem markOf_mark (n origin : Nat) (b : Binding α) :
    markOf n (mark origin b).action = if origin = n then bindingGesture b else none := rfl

/-! ## The machine -/

/-- The engine over marked actions, the time of the last call, how many calls
there were, and the timers they asked for. -/
structure Provenance (α : Type) where
  engine : Engine (Marked α)
  now : Instant
  turn : Nat
  issued : List TimerRequest

namespace Provenance

def start : Provenance α := ⟨Engine.new, 0, 0, []⟩

/-- A call at a time. -/
def step (s : Provenance α) (call : Instant × Op α) : Provenance α × Decision (Marked α) :=
  let decided := s.engine.step (call.2.mark s.turn)
  (⟨decided.1, call.1, s.turn + 1, s.issued ++ decided.2.timers⟩, decided.2)

/-- A key event reads the clock; a timer was asked for and is due. It may come late,
more than once, or for an entry that is gone. -/
def Admits (s : Provenance α) (call : Instant × Op α) : Prop :=
  s.now ≤ call.1 ∧
    match call.2 with
    | .key _ _ env => env.now = call.1
    | .timer token => ∃ r ∈ s.issued, r.token = token ∧ r.due ≤ call.1
    | _ => True

end Provenance

/-- The engine's operations at the times of a clock, over marked actions. -/
def provenance : Machine (Provenance α) (Instant × Op α) (Decision (Marked α)) where
  step := Provenance.step
  enabled := Provenance.Admits

/-- A key event is decided over the marked list. -/
theorem provenance_key (s : Provenance α) (now : Instant) (event : KeyEvent)
    (bindings : List (Binding α)) (env : Env) :
    (provenance.step s (now, .key event bindings env)).1.engine =
      (s.engine.onKey event (bindings.map (mark s.turn)) env).1 := rfl

theorem provenance_now (s : Provenance α) (call : Instant × Op α) :
    (provenance.step s call).1.now = call.1 := rfl

theorem admits_key {s : Provenance α} {now : Instant} (h : s.now ≤ now) (event : KeyEvent)
    (bindings : List (Binding α)) (env : Env) (hnow : env.now = now) :
    provenance.enabled s (now, .key event bindings env) := ⟨h, hnow⟩

theorem admits_timer {s : Provenance α} {now : Instant} (h : s.now ≤ now) {r : TimerRequest}
    (hr : r ∈ s.issued) (hdue : r.due ≤ now) : provenance.enabled s (now, .timer r.token) :=
  ⟨h, r, hr, rfl, hdue⟩

theorem provenance_timer (s : Provenance α) (now : Instant) (token : TimerToken) :
    (provenance.moment s (now, .timer token)).output.fire = (s.engine.onTimer token).2 := rfl

/-- Without the marks, a moment of `provenance` is one of `operations`. -/
def erase (x : Moment (Provenance α) (Instant × Op α) (Decision (Marked α))) :
    Moment (Engine α) (Op α) (Decision α) :=
  ⟨x.before.engine.map Marked.action, x.input.2, x.output.map Marked.action,
    x.after.engine.map Marked.action⟩

theorem step_erase (s : Provenance α) (call : Instant × Op α) :
    (s.engine.map Marked.action).step call.2 =
      mapAcc Marked.action (s.engine.step (call.2.mark s.turn)) := by
  have h := step_map Marked.action s.engine (call.2.mark s.turn)
  rwa [Op.mark_map] at h

/-- **The marks change nothing**: without them, a run of `provenance` is the run of
the engine's operations. -/
theorem provenance_erases (s : Provenance α) (calls : List (Instant × Op α)) :
    (provenance.trace s calls).map erase =
      operations.trace (s.engine.map Marked.action) (calls.map Prod.snd) := by
  induction calls generalizing s with
  | nil => rfl
  | cons call calls ih =>
    have hstep := step_erase s call
    have hmoment : erase (provenance.moment s call) =
        operations.moment (s.engine.map Marked.action) call.2 := by
      unfold erase Machine.moment operations
      dsimp only
      rw [hstep]
      rfl
    have hafter : (provenance.step s call).1.engine.map Marked.action =
        (operations.step (s.engine.map Marked.action) call.2).1 := by
      show _ = ((s.engine.map Marked.action).step call.2).1
      rw [hstep]
      rfl
    rw [List.map_cons, Machine.trace, Machine.trace, List.map_cons, hmoment, ih, hafter]

/-! ## Numbers -/

theorem countP_mark (env : Env) (origin : Nat) (bindings : List (Binding α)) :
    (bindings.map (mark origin)).countP (feeds env) = bindings.countP (feeds env) := by
  rw [List.countP_map]
  rfl

/-- Marks take no numbers. -/
theorem armings_mark (s : Provenance α) (call : Instant × Op α) :
    s.engine.armings (call.2.mark s.turn) = (s.engine.map Marked.action).armings call.2 := by
  obtain ⟨now, op⟩ := call
  cases op with
  | key event bindings env =>
    unfold armings Op.mark
    dsimp only
    rw [countP_mark]
    rfl
  | _ => rfl

/-- `provenance` as long as numbers are left. -/
def numbered : Machine (Provenance α) (Instant × Op α) (Decision (Marked α)) :=
  provenance.restrict fun s call =>
    s.engine.ids.lastSeq + s.engine.armings (call.2.mark s.turn) < 2 ^ 64

@[simp] theorem numbered_run (s : Provenance α) (calls : List (Instant × Op α)) :
    numbered.run s calls = provenance.run s calls := rfl

theorem numbered_legal {s : Provenance α} (hfresh : Fresh s.engine)
    {calls : List (Instant × Op α)} (hlegal : provenance.Legal s calls)
    (hroom : s.engine.ids.lastSeq +
      (s.engine.map Marked.action).armingsOf (calls.map Prod.snd) < 2 ^ 64) :
    numbered.Legal s calls := by
  induction calls generalizing s with
  | nil => trivial
  | cons call calls ih =>
    rw [List.map_cons, armingsOf, ← armings_mark] at hroom
    have hnow : s.engine.ids.lastSeq + s.engine.armings (call.2.mark s.turn) < 2 ^ 64 := by omega
    have hlast : ((provenance (α := α)).step s call).1.engine.ids.lastSeq =
        s.engine.ids.lastSeq + s.engine.armings (call.2.mark s.turn) :=
      lastSeq_step hfresh.wf hnow
    refine ⟨⟨hlegal.1, hnow⟩, ih (s := (provenance.step s call).1) (fresh_step _ _ hfresh hnow)
      hlegal.2 ?_⟩
    have hafter : (provenance.step s call).1.engine.map Marked.action =
        ((s.engine.map Marked.action).step call.2).1 := by
      rw [step_erase]
      rfl
    rw [hlast, hafter]
    omega

/-- Every entry that waits for a timer asked for it, and no number was handed out
twice. -/
structure Accounted (s : Provenance α) : Prop where
  fresh : Fresh s.engine
  issued : ∀ r ∈ s.engine.timed, r ∈ s.issued
  nodup : (s.issued.map fun r => r.token.seq).Nodup
  bound : ∀ r ∈ s.issued, r.token.seq ≤ s.engine.ids.lastSeq

theorem accounted_start : Accounted (Provenance.start : Provenance α) where
  fresh := fresh_new
  issued := by simp [Provenance.start, timed, new, Gestures.timed, Gestures.new, Chords.timed,
    Chords.new, Sequences.timed, Sequences.new]
  nodup := List.nodup_nil
  bound := by simp [Provenance.start]

/-- One call keeps the account. -/
theorem accounted_step : (numbered (α := α)).Invariant Accounted := by
  intro s call h henabled
  have hlt := henabled.2
  have heffect := step_effect h.fresh.wf (call.2.mark s.turn)
  have hfresh := heffect.fresh hlt
  have hlast : (s.engine.step (call.2.mark s.turn)).1.ids.lastSeq =
      s.engine.ids.lastSeq + s.engine.armings (call.2.mark s.turn) := heffect.lastSeq hlt
  refine ⟨fresh_step _ _ h.fresh hlt, fun r hr => ?_, ?_, fun r hr => ?_⟩
  · rcases List.mem_append.mp (heffect.timed.subset hr) with hr | hr
    · exact List.mem_append_right _ hr
    · exact List.mem_append_left _ (h.issued r hr)
  · show ((s.issued ++ (s.engine.step (call.2.mark s.turn)).2.timers).map _).Nodup
    rw [List.map_append, List.nodup_append]
    refine ⟨h.nodup, hfresh.nodup, ?_⟩
    intro a ha b hb hab
    obtain ⟨r, hr, rfl⟩ := List.mem_map.mp ha
    obtain ⟨r', hr', rfl⟩ := List.mem_map.mp hb
    have := h.bound r hr
    have := (hfresh.bounds r' hr').1
    omega
  · show r.token.seq ≤ (s.engine.step (call.2.mark s.turn)).1.ids.lastSeq
    rw [hlast]
    rcases List.mem_append.mp hr with hr | hr
    · have := h.bound r hr
      omega
    · exact (hfresh.bounds r hr).2

/-- A number names one request. -/
theorem Accounted.unique {s : Provenance α} (h : Accounted s) {r r' : TimerRequest}
    (hr : r ∈ s.issued) (hr' : r' ∈ s.issued) (hseq : r.token.seq = r'.token.seq) : r = r' :=
  List.inj_on_of_nodup_map h.nodup hr hr' hseq

/-- An entry that an admitted timer takes out is due. -/
theorem Accounted.due {s : Provenance α} (h : Accounted s) {now : Instant} {token : TimerToken}
    (hadmits : s.Admits (now, .timer token)) {due : Instant}
    (hlive : ⟨token, due⟩ ∈ s.engine.timed) : due ≤ now := by
  obtain ⟨-, r, hr, rfl, hdue⟩ := hadmits
  have hsame := h.unique (h.issued _ hlive) hr rfl
  rw [← hsame] at hdue
  exact hdue

/-! ## Entries that a predicate picks -/

/-- Every action in the engine has `P`. -/
def Within {β : Type} (P : β → Prop) (e : Engine β) : Prop :=
  ∃ e' : Engine {x // P x}, e'.map Subtype.val = e

theorem binding_within {β : Type} {P : β → Prop} {bindings : List (Binding β)}
    (h : ∀ b ∈ bindings, P b.action) :
    ∃ bindings' : List (Binding {x // P x}),
      bindings'.map (Binding.map Subtype.val) = bindings := by
  induction bindings with
  | nil => exact ⟨[], rfl⟩
  | cons b bindings ih =>
    obtain ⟨rest, hrest⟩ := ih fun b hb => h b (List.mem_cons_of_mem _ hb)
    refine ⟨b.map (fun _ => ⟨b.action, h b List.mem_cons_self⟩) :: rest, ?_⟩
    rw [List.map_cons, hrest]
    rfl

/-- Every action that the call brings has `P`. -/
def Op.Within {β : Type} (P : β → Prop) : Op β → Prop
  | .key _ bindings _ => ∀ b ∈ bindings, P b.action
  | _ => True

theorem op_within {β : Type} {P : β → Prop} {op : Op β} (h : op.Within P) :
    ∃ op' : Op {x // P x}, op'.map Subtype.val = op := by
  cases op with
  | key event bindings env =>
    obtain ⟨bindings', rfl⟩ := binding_within h
    exact ⟨.key event bindings' env, rfl⟩
  | timer token => exact ⟨.timer token, rfl⟩
  | forget token => exact ⟨.forget token, rfl⟩
  | reset env reason => exact ⟨.reset env reason, rfl⟩
  | foregroundChanged => exact ⟨.foregroundChanged, rfl⟩
  | resyncIfDue env notes => exact ⟨.resyncIfDue env notes, rfl⟩
  | inputReturned => exact ⟨.inputReturned, rfl⟩
  | trackInjected event => exact ⟨.trackInjected event, rfl⟩

/-- What a call leaves and fires comes from the tables and the list. -/
theorem step_within {β : Type} {P : β → Prop} {e : Engine β} (he : e.Within P) {op : Op β}
    (hop : op.Within P) : (e.step op).1.Within P ∧ ∀ x ∈ (e.step op).2.fire, P x := by
  obtain ⟨e', rfl⟩ := he
  obtain ⟨op', rfl⟩ := op_within hop
  rw [step_map]
  refine ⟨⟨(e'.step op').1, rfl⟩, fun x hx => ?_⟩
  obtain ⟨y, -, rfl⟩ := List.mem_map.mp hx
  exact y.property

/-- A call other than `n` brings no action of `n`. -/
theorem op_within_other {n origin : Nat} (h : origin ≠ n) (op : Op α) :
    (op.mark origin).Within fun m => markOf n m = none := by
  cases op with
  | key event bindings env =>
    intro b hb
    obtain ⟨b, -, rfl⟩ := List.mem_map.mp hb
    rw [markOf_mark, if_neg h]
  | _ => exact trivial

/-- **Until the call `n`, no action of `n` is in the engine, and none fires.** -/
theorem untouched_run {n : Nat} {s : Provenance α}
    (h : s.engine.Within fun m => markOf n m = none) {calls : List (Instant × Op α)}
    (hn : s.turn + calls.length ≤ n) :
    ((provenance.run s calls).engine.Within fun m => markOf n m = none) ∧
      (provenance.run s calls).turn = s.turn + calls.length ∧
      ∀ x ∈ provenance.trace s calls, x.output.fire.filterMap (markOf n) = [] := by
  induction calls generalizing s with
  | nil => exact ⟨h, rfl, by simp [Machine.trace]⟩
  | cons call calls ih =>
    rw [List.length_cons] at hn
    have hother : s.turn ≠ n := by omega
    obtain ⟨hafter, hfire⟩ := step_within h (op_within_other hother call.2)
    have hrest := @ih (provenance.step s call).1 hafter
      (by show s.turn + 1 + calls.length ≤ n; omega)
    refine ⟨hrest.1, ?_, fun x hx => ?_⟩
    · rw [Machine.run_cons, hrest.2.1, List.length_cons]
      show s.turn + 1 + calls.length = _
      omega
    · rw [Machine.trace, List.mem_cons] at hx
      rcases hx with rfl | hx
      · rw [List.filterMap_eq_nil_iff]
        exact hfire
      · exact hrest.2.2 x hx

end KeySwitch.Engine
