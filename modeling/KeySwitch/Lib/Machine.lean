import Mathlib.Data.List.Basic

/-!
# Deterministic machines and what holds along their runs

A machine takes one input at a time, answers with an output, and says which
inputs its environment may give it in a state. A `Moment` is one step with the
states around it, and the trace of a run is its list of moments.

The rules every development over a machine needs are proved once here: an
invariant kept by each enabled step holds at every moment (`Invariant.trace`),
a trace splits where its inputs do (`trace_split`), and a reading that no moment
of a stretch changes is the same at both its ends (`stays`).
-/

namespace KeySwitch.Lib

/-- A machine: its step, and the inputs its environment may give it. -/
structure Machine (σ ι ο : Type) where
  step : σ → ι → σ × ο
  enabled : σ → ι → Prop

/-- One step of a run. -/
structure Moment (σ ι ο : Type) where
  before : σ
  input : ι
  output : ο
  after : σ

namespace Machine

variable {σ ι ο γ : Type} (m : Machine σ ι ο)

/-- The step of `m` at `s` under `i`. -/
def moment (s : σ) (i : ι) : Moment σ ι ο := ⟨s, i, (m.step s i).2, (m.step s i).1⟩

/-- The state after a list of inputs. -/
def run (s : σ) (is : List ι) : σ := is.foldl (fun s i => (m.step s i).1) s

/-- The moments of a run, first to last. -/
def trace (s : σ) : List ι → List (Moment σ ι ο)
  | [] => []
  | i :: is => m.moment s i :: trace (m.step s i).1 is

/-- Every input of the run is one the environment may give when it comes. -/
def Legal (s : σ) : List ι → Prop
  | [] => True
  | i :: is => m.enabled s i ∧ Legal (m.step s i).1 is

/-- Legality can be computed where the inputs' admission can. -/
instance decidableLegal [∀ s i, Decidable (m.enabled s i)] : ∀ s is, Decidable (m.Legal s is)
  | _, [] => isTrue trivial
  | s, i :: is =>
    have := decidableLegal (m.step s i).1 is
    inferInstanceAs (Decidable (m.enabled s i ∧ m.Legal (m.step s i).1 is))

@[simp] theorem moment_before (s : σ) (i : ι) : (m.moment s i).before = s := rfl

@[simp] theorem moment_input (s : σ) (i : ι) : (m.moment s i).input = i := rfl

@[simp] theorem moment_output (s : σ) (i : ι) : (m.moment s i).output = (m.step s i).2 := rfl

@[simp] theorem moment_after (s : σ) (i : ι) : (m.moment s i).after = (m.step s i).1 := rfl

@[simp] theorem run_nil (s : σ) : m.run s [] = s := rfl

@[simp] theorem run_cons (s : σ) (i : ι) (is : List ι) :
    m.run s (i :: is) = m.run (m.step s i).1 is := rfl

theorem legal_cons {s : σ} {i : ι} {is : List ι} :
    m.Legal s (i :: is) ↔ m.enabled s i ∧ m.Legal (m.step s i).1 is := Iff.rfl

/-- Where the environment may do anything, every run is legal. -/
theorem legal_of_enabled (h : ∀ s i, m.enabled s i) (s : σ) (is : List ι) : m.Legal s is := by
  induction is generalizing s with
  | nil => exact trivial
  | cons i is ih => exact ⟨h s i, ih _⟩

theorem run_append (s : σ) (is js : List ι) : m.run s (is ++ js) = m.run (m.run s is) js :=
  List.foldl_append ..

theorem trace_cons (s : σ) (i : ι) (is : List ι) :
    m.trace s (i :: is) = m.moment s i :: m.trace (m.moment s i).after is := rfl

/-- A trace has one moment for each input. -/
theorem trace_inputs (s : σ) (is : List ι) : (m.trace s is).map Moment.input = is := by
  induction is generalizing s with
  | nil => rfl
  | cons i is ih => rw [trace, List.map_cons, ih, moment_input]

theorem trace_append (s : σ) (is js : List ι) :
    m.trace s (is ++ js) = m.trace s is ++ m.trace (m.run s is) js := by
  induction is generalizing s with
  | nil => rfl
  | cons i is ih => simp only [List.cons_append, trace, run_cons, ih]

theorem legal_append {s : σ} {is js : List ι} :
    m.Legal s (is ++ js) ↔ m.Legal s is ∧ m.Legal (m.run s is) js := by
  induction is generalizing s with
  | nil => simp [Legal]
  | cons i is ih => simp only [List.cons_append, Legal, ih, run_cons, and_assoc]

/-! ## Invariants -/

/-- What every enabled step keeps. -/
def Invariant (Inv : σ → Prop) : Prop :=
  ∀ s i, Inv s → m.enabled s i → Inv (m.step s i).1

variable {m}

namespace Invariant

variable {Inv : σ → Prop}

/-- An invariant holds after every legal run. -/
theorem run (hinv : m.Invariant Inv) {s : σ} {is : List ι} (hs : Inv s) (hl : m.Legal s is) :
    Inv (m.run s is) := by
  induction is generalizing s with
  | nil => exact hs
  | cons i is ih => exact ih (hinv s i hs hl.1) hl.2

/-- Every moment of a legal run is an enabled step of a state that has the
invariant. -/
theorem trace (hinv : m.Invariant Inv) {s : σ} {is : List ι} (hs : Inv s) (hl : m.Legal s is) :
    ∀ x ∈ m.trace s is,
      Inv x.before ∧ m.enabled x.before x.input ∧ x = m.moment x.before x.input := by
  induction is generalizing s with
  | nil => simp [Machine.trace]
  | cons i is ih =>
    intro x hx
    rw [Machine.trace, List.mem_cons] at hx
    rcases hx with rfl | hx
    · exact ⟨hs, hl.1, rfl⟩
    · exact ih (hinv s i hs hl.1) hl.2 x hx

/-- A machine that takes the same steps wherever the invariant holds has the same
traces. -/
theorem trace_eq (hinv : m.Invariant Inv) {m' : Machine σ ι ο}
    (hstep : ∀ s i, Inv s → m.enabled s i → m'.step s i = m.step s i) {s : σ} {is : List ι}
    (hs : Inv s) (hl : m.Legal s is) : m'.trace s is = m.trace s is := by
  induction is generalizing s with
  | nil => rfl
  | cons i is ih =>
    have hsame := hstep s i hs hl.1
    show m'.moment s i :: m'.trace (m'.step s i).1 is = m.moment s i :: m.trace (m.step s i).1 is
    unfold moment
    rw [hsame, ih (hinv s i hs hl.1) hl.2]

end Invariant

/-! ## Fewer runs -/

variable (m) in
/-- The machine whose environment also keeps to `P`. -/
def restrict (P : σ → ι → Prop) : Machine σ ι ο where
  step := m.step
  enabled s i := m.enabled s i ∧ P s i

instance [∀ s i, Decidable (m.enabled s i)] (P : σ → ι → Prop) [∀ s i, Decidable (P s i)]
    (s : σ) (i : ι) : Decidable ((m.restrict P).enabled s i) :=
  inferInstanceAs (Decidable (m.enabled s i ∧ P s i))

@[simp] theorem restrict_step (P : σ → ι → Prop) (s : σ) (i : ι) :
    (m.restrict P).step s i = m.step s i := rfl

@[simp] theorem restrict_run (P : σ → ι → Prop) (s : σ) (is : List ι) :
    (m.restrict P).run s is = m.run s is := rfl

/-- Which inputs are admitted does not change what they do. -/
@[simp] theorem restrict_trace (P : σ → ι → Prop) (s : σ) (is : List ι) :
    (m.restrict P).trace s is = m.trace s is := by
  induction is generalizing s with
  | nil => rfl
  | cons i is ih =>
    show m.moment s i :: (m.restrict P).trace (m.step s i).1 is = _
    rw [ih]
    rfl

/-! ## Stretches of a trace -/

/-- A trace splits where its inputs do. -/
theorem trace_split {s : σ} {is : List ι} {pre post : List (Moment σ ι ο)} {x : Moment σ ι ο}
    (h : m.trace s is = pre ++ x :: post) :
    ∃ js i ks, is = js ++ i :: ks ∧ pre = m.trace s js ∧ x = m.moment (m.run s js) i ∧
      post = m.trace x.after ks := by
  induction is generalizing s pre with
  | nil => simp [Machine.trace] at h
  | cons i is ih =>
    rw [Machine.trace] at h
    cases pre with
    | nil =>
      obtain ⟨rfl, rfl⟩ := List.cons.inj h
      exact ⟨[], i, is, rfl, rfl, rfl, rfl⟩
    | cons p pre =>
      obtain ⟨rfl, htail⟩ := List.cons.inj h
      obtain ⟨js, j, ks, rfl, rfl, hx, hpost⟩ := ih htail
      exact ⟨i :: js, j, ks, rfl, rfl, hx, hpost⟩

/-- A reading that no moment of a stretch changes is the same at its end. -/
theorem stays {f : σ → γ} {s : σ} {is : List ι}
    (h : ∀ x ∈ m.trace s is, f x.after = f x.before) : f (m.run s is) = f s := by
  induction is generalizing s with
  | nil => rfl
  | cons i is ih =>
    rw [Machine.trace] at h
    rw [run_cons, ih fun x hx => h x (List.mem_cons_of_mem _ hx)]
    exact h _ List.mem_cons_self

/-! ## What only grows -/

section Later

variable {R : σ → σ → Prop} (hrefl : ∀ s, R s s)
  (htrans : ∀ s s' s'', R s s' → R s' s'' → R s s'') (hstep : ∀ s i, R s (m.step s i).1)

include hrefl htrans hstep

/-- What every step brings about, a run does. -/
theorem run_later (s : σ) (is : List ι) : R s (m.run s is) := by
  induction is generalizing s with
  | nil => exact hrefl s
  | cons i is ih => exact htrans _ _ _ (hstep s i) (ih _)

/-- So the end of a run is later than each of its moments. -/
theorem trace_later {s : σ} {is : List ι} {x : Moment σ ι ο} (hx : x ∈ m.trace s is) :
    R x.after (m.run s is) := by
  induction is generalizing s with
  | nil => exact absurd hx List.not_mem_nil
  | cons i is ih =>
    rw [Machine.trace, List.mem_cons] at hx
    rcases hx with rfl | hx
    · exact run_later hrefl htrans hstep _ is
    · exact ih hx

end Later

end Machine

end KeySwitch.Lib
