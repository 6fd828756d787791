import Mathlib.Data.List.Induction

/-!
# Programs that ask

A `Dialogue` is a program seen from what it calls: it is done with a result, or asks a
question and goes on with the answer. What the other side is like is no part of it, so
that a result about every `Path` of a dialogue holds whatever the answers are, and one
about the paths whose answers are fair holds for a fair other side.

A path lists the exchanges from first to last. `path_bind` splits it where one part of
a program hands over to the next, which is how a program is proved part by part;
`talk` runs a dialogue against answers that are given, and `within` in a world that answers.
-/

namespace KeySwitch.Lib

variable {Q : Type} {A : Q → Type} {β γ δ : Type}

/-- A program that asks: questions of `Q`, each with its type of answers. -/
inductive Dialogue (Q : Type) (A : Q → Type) (β : Type)
  | done (result : β)
  | ask (question : Q) (next : A question → Dialogue Q A β)

/-- A question and the answer to it. -/
structure Exchange (Q : Type) (A : Q → Type) where
  question : Q
  answer : A question

namespace Dialogue

/-- The one program, then the other with its result. -/
def bind : Dialogue Q A β → (β → Dialogue Q A γ) → Dialogue Q A γ
  | done result, f => f result
  | ask question next, f => ask question fun answer => (next answer).bind f

/-- The program with its result read differently. -/
def map (f : β → γ) (p : Dialogue Q A β) : Dialogue Q A γ := p.bind fun b => done (f b)

/-- The exchanges of one run, and its result. -/
inductive Path : Dialogue Q A β → List (Exchange Q A) → β → Prop
  | done (result : β) : Path (.done result) [] result
  | ask {question : Q} {next : A question → Dialogue Q A β} {answer : A question}
      {es : List (Exchange Q A)} {result : β} (h : Path (next answer) es result) :
      Path (.ask question next) (⟨question, answer⟩ :: es) result

theorem path_done {result b : β} {es : List (Exchange Q A)} :
    Path (.done result) es b ↔ es = [] ∧ b = result := by
  constructor
  · intro h
    cases h
    exact ⟨rfl, rfl⟩
  · rintro ⟨rfl, rfl⟩
    exact .done _

theorem path_ask {question : Q} {next : A question → Dialogue Q A β}
    {es : List (Exchange Q A)} {b : β} :
    Path (.ask question next) es b ↔
      ∃ answer rest, es = ⟨question, answer⟩ :: rest ∧ Path (next answer) rest b := by
  constructor
  · intro h
    cases h with
    | ask h => exact ⟨_, _, rfl, h⟩
  · rintro ⟨answer, rest, rfl, h⟩
    exact .ask h

/-- A path of two programs is a path of the one and a path of the other. -/
theorem path_bind {p : Dialogue Q A β} {f : β → Dialogue Q A γ} {es : List (Exchange Q A)}
    {c : γ} : Path (p.bind f) es c ↔
      ∃ es₁ b es₂, es = es₁ ++ es₂ ∧ Path p es₁ b ∧ Path (f b) es₂ c := by
  induction p generalizing es with
  | done result =>
    constructor
    · exact fun h => ⟨[], result, es, rfl, .done result, h⟩
    · rintro ⟨es₁, b, es₂, rfl, hp, hf⟩
      obtain ⟨rfl, rfl⟩ := path_done.mp hp
      exact hf
  | ask question next ih =>
    constructor
    · intro h
      obtain ⟨answer, rest, rfl, hrest⟩ := path_ask.mp h
      obtain ⟨es₁, b, es₂, rfl, hp, hf⟩ := (ih answer).mp hrest
      exact ⟨_, b, es₂, rfl, .ask hp, hf⟩
    · rintro ⟨es₁, b, es₂, rfl, hp, hf⟩
      obtain ⟨answer, rest, rfl, hrest⟩ := path_ask.mp hp
      exact .ask ((ih answer).mpr ⟨rest, b, es₂, rfl, hrest, hf⟩)

theorem path_map {f : β → γ} {p : Dialogue Q A β} {es : List (Exchange Q A)} {c : γ} :
    Path (p.map f) es c ↔ ∃ b, Path p es b ∧ c = f b := by
  unfold map
  rw [path_bind]
  constructor
  · rintro ⟨es₁, b, es₂, rfl, hp, hdone⟩
    obtain ⟨rfl, rfl⟩ := path_done.mp hdone
    exact ⟨b, by rwa [List.append_nil], rfl⟩
  · rintro ⟨b, hp, rfl⟩
    exact ⟨es, b, [], (List.append_nil es).symm, hp, .done _⟩

/-! ## What a program may ask -/

/-- Every question of every path satisfies `ok`. -/
def Only (ok : Q → Prop) (p : Dialogue Q A β) : Prop :=
  ∀ es b, Path p es b → ∀ e ∈ es, ok e.question

section Only

variable {ok : Q → Prop}

theorem only_done (result : β) : Only ok (done result : Dialogue Q A β) := by
  intro es b h e he
  obtain ⟨rfl, -⟩ := path_done.mp h
  exact absurd he List.not_mem_nil

theorem only_ask {question : Q} {next : A question → Dialogue Q A β} (hok : ok question)
    (hnext : ∀ answer, Only ok (next answer)) : Only ok (ask question next) := by
  intro es b h e he
  obtain ⟨answer, rest, rfl, hrest⟩ := path_ask.mp h
  rcases List.mem_cons.mp he with rfl | he
  · exact hok
  · exact hnext answer rest b hrest e he

theorem only_bind {p : Dialogue Q A β} {f : β → Dialogue Q A γ} (hp : Only ok p)
    (hf : ∀ b, Only ok (f b)) : Only ok (p.bind f) := by
  intro es c h e he
  obtain ⟨es₁, b, es₂, rfl, hpath, hrest⟩ := path_bind.mp h
  rcases List.mem_append.mp he with he | he
  · exact hp es₁ b hpath e he
  · exact hf b es₂ c hrest e he

theorem only_map {p : Dialogue Q A β} (hp : Only ok p) (f : β → γ) : Only ok (p.map f) :=
  only_bind hp fun _ => only_done _

end Only

/-! ## Runs of many calls -/

/-- The runs of `act`, which takes one input after the other: each with the exchanges of
its call. -/
inductive Runs {σ ι : Type} (act : σ → ι → Dialogue Q A σ) :
    σ → List (ι × List (Exchange Q A)) → σ → Prop
  | nil (s : σ) : Runs act s [] s
  | cons {s s' s'' : σ} {i : ι} {es : List (Exchange Q A)}
      {rest : List (ι × List (Exchange Q A))} (h : Path (act s i) es s')
      (hrest : Runs act s' rest s'') : Runs act s ((i, es) :: rest) s''

section Runs

variable {σ ι : Type} {act : σ → ι → Dialogue Q A σ}

theorem runs_nil {s s' : σ} : Runs act s [] s' ↔ s' = s := by
  constructor
  · intro h
    cases h
    rfl
  · rintro rfl
    exact .nil _

theorem runs_cons {s s'' : σ} {i : ι} {es : List (Exchange Q A)}
    {rest : List (ι × List (Exchange Q A))} :
    Runs act s ((i, es) :: rest) s'' ↔ ∃ s', Path (act s i) es s' ∧ Runs act s' rest s'' := by
  constructor
  · intro h
    cases h with
    | cons h hrest => exact ⟨_, h, hrest⟩
  · rintro ⟨s', h, hrest⟩
    exact .cons h hrest

theorem runs_append {s s'' : σ} {before after : List (ι × List (Exchange Q A))} :
    Runs act s (before ++ after) s'' ↔ ∃ s', Runs act s before s' ∧ Runs act s' after s'' := by
  induction before generalizing s with
  | nil =>
    simp only [List.nil_append, runs_nil]
    exact ⟨fun h => ⟨s, rfl, h⟩, fun ⟨_, heq, h⟩ => heq ▸ h⟩
  | cons entry before ih =>
    obtain ⟨i, es⟩ := entry
    rw [List.cons_append, runs_cons]
    constructor
    · rintro ⟨s', h, hrest⟩
      obtain ⟨s₁, hbefore, hafter⟩ := ih.mp hrest
      exact ⟨s₁, runs_cons.mpr ⟨s', h, hbefore⟩, hafter⟩
    · rintro ⟨s₁, hbefore, hafter⟩
      obtain ⟨s', h, hrest⟩ := runs_cons.mp hbefore
      exact ⟨s', h, ih.mpr ⟨s₁, hrest, hafter⟩⟩

theorem runs_single {s s' : σ} {i : ι} {es : List (Exchange Q A)} :
    Runs act s [(i, es)] s' ↔ Path (act s i) es s' := by
  rw [runs_cons]
  exact ⟨fun ⟨_, h, hnil⟩ => runs_nil.mp hnil ▸ h, fun h => ⟨s', h, .nil s'⟩⟩

/-- What holds at the start, and is kept by every call with the history that led to it,
holds after every run. -/
theorem runs_induct {P : List (ι × List (Exchange Q A)) → σ → Prop} {start : σ}
    (hstart : P [] start)
    (hcall : ∀ history s i es s', P history s → Path (act s i) es s' →
      P (history ++ [(i, es)]) s') {history : List (ι × List (Exchange Q A))} {s : σ}
    (h : Runs act start history s) : P history s := by
  induction history using List.reverseRecOn generalizing s with
  | nil =>
    rw [runs_nil] at h
    exact h ▸ hstart
  | append_singleton history entry ih =>
    obtain ⟨s', hbefore, hlast⟩ := runs_append.mp h
    exact hcall history s' entry.1 entry.2 s (ih hbefore) (runs_single.mp hlast)

end Runs

/-! ## Against given answers -/

/-- The run against `answer`, which knows the exchanges so far. -/
def talk (answer : List (Exchange Q A) → (q : Q) → A q) :
    Dialogue Q A β → List (Exchange Q A) → List (Exchange Q A) × β
  | done result, _ => ([], result)
  | ask question next, before =>
    let e : Exchange Q A := ⟨question, answer before question⟩
    let rest := talk answer (next e.answer) (before ++ [e])
    (e :: rest.1, rest.2)

/-- Every dialogue can be held: it ends, whatever the answers. -/
theorem talk_path (answer : List (Exchange Q A) → (q : Q) → A q) (p : Dialogue Q A β)
    (before : List (Exchange Q A)) :
    Path p (talk answer p before).1 (talk answer p before).2 := by
  induction p generalizing before with
  | done result => exact .done result
  | ask question next ih => exact .ask (ih _ _)

/-! ## In a world -/

/-- The run in a world, which answers each question and changes with it. -/
def within {W : Type} (answer : (q : Q) → W → W × A q) : Dialogue Q A β → W → W × β
  | done result, w => (w, result)
  | ask question next, w =>
    let made := answer question w
    within answer (next made.2) made.1

section Within

variable {W : Type} {answer : (q : Q) → W → W × A q}

theorem within_bind (p : Dialogue Q A β) (f : β → Dialogue Q A γ) (w : W) :
    within answer (p.bind f) w = within answer (f (within answer p w).2) (within answer p w).1 := by
  induction p generalizing w with
  | done result => rfl
  | ask question next ih => exact ih _ _

theorem within_path (answer : (q : Q) → W → W × A q) (p : Dialogue Q A β) (w : W) :
    ∃ es, Path p es (within answer p w).2 := by
  induction p generalizing w with
  | done result => exact ⟨[], .done result⟩
  | ask question next ih =>
    obtain ⟨es, h⟩ := ih (answer question w).2 (answer question w).1
    exact ⟨_, .ask h⟩

/-- What the answers to the questions a program may ask do to the world, and what happens
one after the other, the program does. -/
theorem within_only {ok : Q → Prop} {R : W → W → Prop} (hrefl : ∀ w, R w w)
    (htrans : ∀ w w' w'', R w w' → R w' w'' → R w w'')
    (hanswer : ∀ q w, ok q → R w (answer q w).1) {p : Dialogue Q A β} (hp : Only ok p) (w : W) :
    R w (within answer p w).1 := by
  induction p generalizing w with
  | done result => exact hrefl w
  | ask question next ih =>
    obtain ⟨es, hpath⟩ := within_path answer (next (answer question w).2) (answer question w).1
    have hasked : ok question := hp _ _ (.ask hpath) ⟨_, _⟩ List.mem_cons_self
    refine htrans _ _ _ (hanswer question w hasked) (ih _ ?_ _)
    exact fun es b h e he => hp _ _ (.ask h) e (List.mem_cons_of_mem _ he)

end Within

end Dialogue

end KeySwitch.Lib
