import Mathlib.Data.List.Basic

/-!
# Lines of a text

A text is cut into lines at its breaks: `cr lf`, and `cr` or `lf` alone. A line has
neither (`lines_free`), and lines joined with `cr lf` are cut into themselves again
(`lines_join`), also by a reader who knows no other break (`pairLines_join`). So
`join (lines text)` is the text with every break written the one way, and doing it again
changes nothing.

Everything is over an alphabet with two letters `cr` and `lf`; `lines_flatMap` says that
an encoding that keeps these two keeps the lines.
-/

namespace KeySwitch.Lib

section Lines

variable {α : Type}

/-- A letter before the first of some lines. -/
def pushLine (unit : α) : List (List α) → List (List α)
  | [] => [[unit]]
  | line :: rest => (unit :: line) :: rest

/-- The lines as one text, a `cr lf` between them. -/
def join (cr lf : α) : List (List α) → List α
  | [] => []
  | [line] => line
  | line :: next :: rest => line ++ cr :: lf :: join cr lf (next :: rest)

/-- A line without a letter of a break. -/
def Free (cr lf : α) (line : List α) : Prop := ∀ unit ∈ line, unit ≠ cr ∧ unit ≠ lf

/-- Every `cr` has an `lf` after it, and every `lf` a `cr` before it. -/
structure Paired (cr lf : α) (text : List α) : Prop where
  after : ∀ before rest, text = before ++ cr :: rest → ∃ rest', rest = lf :: rest'
  before : ∀ before rest, text = before ++ lf :: rest → ∃ before', before = before' ++ [cr]

variable {cr lf : α}

theorem free_nil : Free cr lf [] := fun _ h => absurd h List.not_mem_nil

theorem free_cons {unit : α} {line : List α} :
    Free cr lf (unit :: line) ↔ (unit ≠ cr ∧ unit ≠ lf) ∧ Free cr lf line :=
  List.forall_mem_cons

theorem pushLine_free {unit : α} {ls : List (List α)} (hunit : unit ≠ cr ∧ unit ≠ lf)
    (h : ∀ line ∈ ls, Free cr lf line) : ∀ line ∈ pushLine unit ls, Free cr lf line := by
  cases ls with
  | nil =>
    intro line hline
    rw [List.mem_singleton.mp hline]
    exact free_cons.mpr ⟨hunit, free_nil⟩
  | cons first rest =>
    obtain ⟨hfirst, hrest⟩ := List.forall_mem_cons.mp h
    exact List.forall_mem_cons.mpr ⟨free_cons.mpr ⟨hunit, hfirst⟩, hrest⟩

theorem pushLine_ne_nil (unit : α) (ls : List (List α)) : pushLine unit ls ≠ [] := by
  cases ls with
  | nil => exact List.cons_ne_nil _ _
  | cons line rest => exact List.cons_ne_nil _ _

theorem join_nil_cons {ls : List (List α)} (h : ls ≠ []) :
    join cr lf ([] :: ls) = cr :: lf :: join cr lf ls := by
  cases ls with
  | nil => exact absurd rfl h
  | cons next rest => rfl

theorem join_pushLine {unit : α} {ls : List (List α)} (h : ls ≠ []) :
    join cr lf (pushLine unit ls) = unit :: join cr lf ls := by
  cases ls with
  | nil => exact absurd rfl h
  | cons line rest =>
    cases rest with
    | nil => rfl
    | cons next rest => rfl

/-- Letters of a free line are no letters of a break. -/
theorem Free.split {line before rest text : List α} {unit : α} (h : Free cr lf line)
    (hunit : unit = cr ∨ unit = lf) (hsplit : line ++ text = before ++ unit :: rest) :
    ∃ before', before = line ++ before' ∧ text = before' ++ unit :: rest := by
  induction line generalizing before with
  | nil => exact ⟨before, rfl, hsplit⟩
  | cons first line ih =>
    obtain ⟨hfirst, hline⟩ := free_cons.mp h
    cases before with
    | nil =>
      obtain ⟨rfl, -⟩ := List.cons.inj hsplit
      rcases hunit with rfl | rfl
      · exact absurd rfl hfirst.1
      · exact absurd rfl hfirst.2
    | cons head before =>
      obtain ⟨rfl, hrest⟩ := List.cons.inj hsplit
      obtain ⟨before', rfl, htext⟩ := ih hline hrest
      exact ⟨before', rfl, htext⟩

/-- Joined lines have their breaks in pairs. -/
theorem join_paired (hne : cr ≠ lf) {ls : List (List α)} (h : ∀ line ∈ ls, Free cr lf line) :
    Paired cr lf (join cr lf ls) := by
  induction ls with
  | nil =>
    exact ⟨fun before rest h => by simp [join] at h, fun before rest h => by simp [join] at h⟩
  | cons line ls ih =>
    obtain ⟨hline, hls⟩ := List.forall_mem_cons.mp h
    cases ls with
    | nil =>
      have hnone : ∀ (unit : α) (before rest : List α), unit = cr ∨ unit = lf →
          line ≠ before ++ unit :: rest := by
        intro unit before rest hunit hsplit
        obtain ⟨before', -, hnil⟩ := hline.split hunit ((List.append_nil line).trans hsplit)
        exact absurd hnil (by simp)
      exact ⟨fun before rest hsplit => absurd hsplit (hnone cr before rest (Or.inl rfl)),
        fun before rest hsplit => absurd hsplit (hnone lf before rest (Or.inr rfl))⟩
    | cons next ls =>
      obtain ⟨hafter, hbefore⟩ := ih hls
      constructor
      · intro before rest hsplit
        obtain ⟨before', -, htext⟩ := hline.split (Or.inl rfl) hsplit
        cases before' with
        | nil => exact ⟨_, (List.cons.inj htext).2.symm⟩
        | cons first before' =>
          have hlf := (List.cons.inj htext).2
          cases before' with
          | nil => exact absurd (List.cons.inj hlf).1 hne.symm
          | cons second before' => exact hafter before' rest (List.cons.inj hlf).2
      · intro before rest hsplit
        obtain ⟨before', rfl, htext⟩ := hline.split (Or.inr rfl) hsplit
        cases before' with
        | nil => exact absurd (List.cons.inj htext).1 hne
        | cons first before' =>
          obtain ⟨rfl, hlf⟩ := List.cons.inj htext
          cases before' with
          | nil => exact ⟨line, rfl⟩
          | cons second before' =>
            obtain ⟨rfl, hlater⟩ := List.cons.inj hlf
            obtain ⟨before'', rfl⟩ := hbefore before' rest hlater
            exact ⟨line ++ cr :: lf :: before'', by simp⟩

/-- A last letter of no break. -/
theorem Paired.snoc {text : List α} {unit : α} (h : Paired cr lf text)
    (hunit : unit ≠ cr ∧ unit ≠ lf) : Paired cr lf (text ++ [unit]) := by
  have hsplit : ∀ (before rest : List α) (u : α), u ≠ unit →
      text ++ [unit] = before ++ u :: rest →
        ∃ rest', rest = rest' ++ [unit] ∧ text = before ++ u :: rest' := by
    intro before rest u hne heq
    rcases List.eq_nil_or_concat rest with rfl | ⟨rest', last, rfl⟩
    · exact absurd (List.cons.inj (List.append_inj' heq rfl).2).1 hne.symm
    · rw [List.concat_eq_append, ← List.cons_append, ← List.append_assoc] at heq
      obtain ⟨htext, hlast⟩ := List.append_inj' heq rfl
      exact ⟨rest', by rw [List.concat_eq_append, ← hlast], htext⟩
  constructor
  · intro before rest heq
    obtain ⟨rest', rfl, htext⟩ := hsplit before rest cr hunit.1.symm heq
    obtain ⟨after, rfl⟩ := h.after before rest' htext
    exact ⟨after ++ [unit], rfl⟩
  · intro before rest heq
    obtain ⟨rest', rfl, htext⟩ := hsplit before rest lf hunit.2.symm heq
    exact h.before before rest' htext

variable [DecidableEq α]

/-- The lines of a text. -/
def lines (cr lf : α) : List α → List (List α)
  | [] => [[]]
  | [unit] => if unit = cr ∨ unit = lf then [[], []] else [[unit]]
  | unit :: next :: rest =>
    if unit = cr ∧ next = lf then [] :: lines cr lf rest
    else if unit = cr ∨ unit = lf then [] :: lines cr lf (next :: rest)
    else pushLine unit (lines cr lf (next :: rest))

/-- The lines of a text in which only `cr lf` is a break. -/
def pairLines (cr lf : α) : List α → List (List α)
  | [] => [[]]
  | [unit] => [[unit]]
  | unit :: next :: rest =>
    if unit = cr ∧ next = lf then [] :: pairLines cr lf rest
    else pushLine unit (pairLines cr lf (next :: rest))

/-! ## One letter -/

theorem lines_pair (text : List α) : lines cr lf (cr :: lf :: text) = [] :: lines cr lf text := by
  rw [lines, if_pos ⟨rfl, rfl⟩]

theorem lines_break {unit : α} {text : List α} (h : unit = cr ∨ unit = lf)
    (halone : unit = cr → text.head? ≠ some lf) :
    lines cr lf (unit :: text) = [] :: lines cr lf text := by
  cases text with
  | nil => simp only [lines, if_pos h]
  | cons next rest =>
    rw [lines, if_neg, if_pos h]
    rintro ⟨hcr, rfl⟩
    exact halone hcr rfl

theorem lines_other {unit : α} (text : List α) (h : unit ≠ cr ∧ unit ≠ lf) :
    lines cr lf (unit :: text) = pushLine unit (lines cr lf text) := by
  have hneither : ¬(unit = cr ∨ unit = lf) := not_or.mpr h
  cases text with
  | nil =>
    simp only [lines, if_neg hneither]
    rfl
  | cons next rest => rw [lines, if_neg fun hpair => h.1 hpair.1, if_neg hneither]

theorem pairLines_pair (text : List α) :
    pairLines cr lf (cr :: lf :: text) = [] :: pairLines cr lf text := by
  rw [pairLines, if_pos ⟨rfl, rfl⟩]

theorem pairLines_other {unit : α} (text : List α) (h : unit ≠ cr) :
    pairLines cr lf (unit :: text) = pushLine unit (pairLines cr lf text) := by
  cases text with
  | nil =>
    simp only [pairLines]
    rfl
  | cons next rest => rw [pairLines, if_neg fun hpair => h hpair.1]

/-- A text begins with a break, alone or in a pair, or with another letter. -/
theorem lines_cases (cr lf : α) {P : List α → Prop} (hnil : P [])
    (hpair : ∀ text, P text → P (cr :: lf :: text))
    (hbreak : ∀ unit text, (unit = cr ∨ unit = lf) → (unit = cr → text.head? ≠ some lf) → P text →
      P (unit :: text))
    (hother : ∀ unit text, unit ≠ cr ∧ unit ≠ lf → P text → P (unit :: text)) (text : List α) :
    P text := by
  fun_induction lines cr lf text with
  | case1 => exact hnil
  | case2 unit h => exact hbreak unit [] h (fun _ => by simp) hnil
  | case3 unit h => exact hother unit [] (not_or.mp h) hnil
  | case4 unit next rest h ih =>
    obtain ⟨rfl, rfl⟩ := h
    exact hpair rest ih
  | case5 unit next rest h h' ih =>
    refine hbreak unit (next :: rest) h' (fun hcr hhead => h ⟨hcr, ?_⟩) ih
    exact Option.some.inj hhead
  | case6 unit next rest h h' ih => exact hother unit (next :: rest) (not_or.mp h') ih

/-! ## Whole texts -/

theorem lines_ne_nil (text : List α) : lines cr lf text ≠ [] := by
  refine lines_cases (P := fun text => lines cr lf text ≠ []) cr lf (by simp [lines]) ?_ ?_ ?_ text
  · intro text _
    rw [lines_pair]
    exact List.cons_ne_nil _ _
  · intro unit text h halone _
    rw [lines_break h halone]
    exact List.cons_ne_nil _ _
  · intro unit text h _
    rw [lines_other text h]
    exact pushLine_ne_nil _ _

/-- **No line has a letter of a break.** -/
theorem lines_free (text : List α) : ∀ line ∈ lines cr lf text, Free cr lf line := by
  refine lines_cases (P := fun text => ∀ line ∈ lines cr lf text, Free cr lf line) cr lf
    (by simp [lines, free_nil]) ?_ ?_ ?_ text
  · intro text ih
    rw [lines_pair]
    exact List.forall_mem_cons.mpr ⟨free_nil, ih⟩
  · intro unit text h halone ih
    rw [lines_break h halone]
    exact List.forall_mem_cons.mpr ⟨free_nil, ih⟩
  · intro unit text h ih
    rw [lines_other text h]
    exact pushLine_free h ih

/-- A line and what follows it. -/
theorem lines_append {line : List α} (h : Free cr lf line) (text : List α) :
    lines cr lf (line ++ cr :: lf :: text) = line :: lines cr lf text ∧
      lines cr lf line = [line] := by
  induction line with
  | nil => exact ⟨lines_pair text, by rw [lines]⟩
  | cons unit line ih =>
    obtain ⟨hunit, hline⟩ := free_cons.mp h
    obtain ⟨hmore, hlast⟩ := ih hline
    rw [List.cons_append, lines_other _ hunit, lines_other _ hunit, hmore, hlast]
    exact ⟨rfl, rfl⟩

theorem pairLines_append {line : List α} (h : Free cr lf line) (text : List α) :
    pairLines cr lf (line ++ cr :: lf :: text) = line :: pairLines cr lf text ∧
      pairLines cr lf line = [line] := by
  induction line with
  | nil => exact ⟨pairLines_pair text, by rw [pairLines]⟩
  | cons unit line ih =>
    obtain ⟨hunit, hline⟩ := free_cons.mp h
    obtain ⟨hmore, hlast⟩ := ih hline
    rw [List.cons_append, pairLines_other _ hunit.1, pairLines_other _ hunit.1, hmore, hlast]
    exact ⟨rfl, rfl⟩

/-- **Joined lines are cut into themselves.** -/
theorem lines_join {ls : List (List α)} (hne : ls ≠ []) (h : ∀ line ∈ ls, Free cr lf line) :
    lines cr lf (join cr lf ls) = ls := by
  induction ls with
  | nil => exact absurd rfl hne
  | cons line ls ih =>
    obtain ⟨hline, hls⟩ := List.forall_mem_cons.mp h
    cases ls with
    | nil => exact (lines_append hline []).2
    | cons next ls =>
      rw [join, (lines_append hline _).1, ih (List.cons_ne_nil _ _) hls]

/-- Also where only `cr lf` is a break. -/
theorem pairLines_join {ls : List (List α)} (hne : ls ≠ []) (h : ∀ line ∈ ls, Free cr lf line) :
    pairLines cr lf (join cr lf ls) = ls := by
  induction ls with
  | nil => exact absurd rfl hne
  | cons line ls ih =>
    obtain ⟨hline, hls⟩ := List.forall_mem_cons.mp h
    cases ls with
    | nil => exact (pairLines_append hline []).2
    | cons next ls =>
      rw [join, (pairLines_append hline _).1, ih (List.cons_ne_nil _ _) hls]

end Lines

/-! ## Encodings -/

section Encoding

variable {α β : Type} {cr lf : α} {cr' lf' : β} {encode : α → List β}

/-- An encoding that keeps the letters of the breaks apart from all others. -/
structure KeepsBreaks (cr lf : α) (cr' lf' : β) (encode : α → List β) : Prop where
  ofCr : encode cr = [cr']
  ofLf : encode lf = [lf']
  ofOther : ∀ unit, unit ≠ cr ∧ unit ≠ lf → Free cr' lf' (encode unit) ∧ encode unit ≠ []

theorem join_flatMap (h : KeepsBreaks cr lf cr' lf' encode) (ls : List (List α)) :
    (join cr lf ls).flatMap encode = join cr' lf' (ls.map fun line => line.flatMap encode) := by
  fun_induction join cr lf ls with
  | case1 => rfl
  | case2 line => rfl
  | case3 line next rest ih =>
    rw [List.flatMap_append, List.flatMap_cons, List.flatMap_cons, h.ofCr, h.ofLf, ih]
    rfl

variable [DecidableEq α] [DecidableEq β]

/-- Encoded letters that are no break, before a text. -/
theorem lines_encoded {units : List β} (hne : units ≠ []) (h : Free cr' lf' units)
    (text : List β) : lines cr' lf' (units ++ text) =
      (match lines cr' lf' text with
        | [] => [units]
        | line :: rest => (units ++ line) :: rest) := by
  induction units with
  | nil => exact absurd rfl hne
  | cons unit units ih =>
    obtain ⟨hunit, hunits⟩ := free_cons.mp h
    rw [List.cons_append, lines_other _ hunit]
    cases units with
    | nil =>
      rw [List.nil_append]
      cases lines cr' lf' text <;> rfl
    | cons second units =>
      rw [ih (List.cons_ne_nil _ _) hunits]
      cases lines cr' lf' text <;> rfl

/-- **An encoding that keeps the breaks keeps the lines.** -/
theorem lines_flatMap (h : KeepsBreaks cr lf cr' lf' encode) (hne : cr' ≠ lf') (text : List α) :
    lines cr' lf' (text.flatMap encode) =
      (lines cr lf text).map fun line => line.flatMap encode := by
  refine lines_cases (P := fun text => lines cr' lf' (text.flatMap encode) =
    (lines cr lf text).map fun line => line.flatMap encode) cr lf (by simp [lines]) ?_ ?_ ?_ text
  · intro text ih
    rw [List.flatMap_cons, List.flatMap_cons, h.ofCr, h.ofLf, lines_pair, List.map_cons, ← ih]
    exact lines_pair _
  · intro unit text hunit halone ih
    rw [lines_break hunit halone, List.map_cons, ← ih, List.flatMap_cons]
    rcases hunit with rfl | rfl
    · rw [h.ofCr]
      refine lines_break (Or.inl rfl) fun _ hhead => ?_
      -- The encoding of the letter after a lone `cr` does not begin with an `lf`.
      cases text with
      | nil => exact absurd hhead (by simp)
      | cons next rest =>
        rw [List.flatMap_cons] at hhead
        by_cases hcr : next = unit
        · rw [hcr, h.ofCr] at hhead
          exact hne (Option.some.inj hhead)
        · have hlf : next ≠ lf := fun hlf => halone rfl (by rw [hlf]; rfl)
          obtain ⟨hfree, hnonempty⟩ := h.ofOther next ⟨hcr, hlf⟩
          obtain ⟨first, units, hunits⟩ := List.exists_cons_of_ne_nil hnonempty
          rw [hunits] at hhead hfree
          exact (free_cons.mp hfree).1.2 (Option.some.inj hhead)
    · rw [h.ofLf]
      exact lines_break (Or.inr rfl) fun hcr => absurd hcr.symm hne
  · intro unit text hunit ih
    obtain ⟨hfree, hnonempty⟩ := h.ofOther unit hunit
    rw [List.flatMap_cons, lines_encoded hnonempty hfree, lines_other _ hunit, ih]
    cases lines cr lf text with
    | nil => simp [pushLine]
    | cons line rest => simp [pushLine]

end Encoding

end KeySwitch.Lib
