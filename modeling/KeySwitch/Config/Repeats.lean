import KeySwitch.Config.Accepted
import KeySwitch.Engine.Duplicates

/-!
# What a duplicate warning says is so

A load warns of each binding that repeats an earlier one of the file. The list is then sorted
and made live, and a `keys` binding that was warned of never does anything in it: the sort
keeps what it repeats in front of it (`sortDown_removed`), and there the engine passes over it
(`onKey_repeated`). So the live list decides every call as it would without all of them.

They are taken out one by one from the end of the file, so that what a binding repeats is
still there when its turn comes.
-/

namespace KeySwitch.Config

open Data Engine Lib

/-- The list that `update_bindings` makes live. -/
def liveList (bindings : List (LoadedBinding BindAction)) : List (Binding BindAction) :=
  sortBySpecificity (bindings.map LoadedBinding.toBinding)

/-- Whether a load warns of this entry of the list that it repeats an earlier one. -/
def warned (users : List (LoadedBinding BindAction)) (entry : LoadedBinding BindAction × Nat) :
    Bool :=
  ((users.take entry.2).findIdx? fun other => entry.1.duplicates other.toBinding).isSome

/-- The bindings without the `keys` bindings warned of. -/
def withoutRepeats (users : List (LoadedBinding BindAction)) : List (LoadedBinding BindAction) :=
  (users.zipIdx.filter fun entry => !(isCombo entry.1.kind && warned users entry)).map Prod.fst

/-- A call of the engine over this list. -/
def callOver (bindings : List (Binding BindAction)) : Op BindAction → Op BindAction
  | .key event _ env => .key event bindings env
  | op => op

/-- What a run over one list decides, and the states it goes through. -/
def decisions (e : Engine BindAction) (bindings : List (Binding BindAction))
    (ops : List (Op BindAction)) : List (Decision BindAction × Engine BindAction) :=
  (operations.trace e (ops.map (callOver bindings))).map fun m => (m.output, m.after)

/-! ## There is a message for each -/

/-- The messages are of the entries warned of, in the order of the file. -/
theorem duplicateWarnings_warned (raw : List RawBinding) (users : List (LoadedBinding BindAction)) :
    (duplicateWarnings raw users).length = (users.zipIdx.filter (warned users)).length := by
  unfold duplicateWarnings
  rw [List.length_filterMap_eq_countP, ← List.countP_eq_length_filter]
  refine List.countP_congr fun entry _ => ?_
  rw [Option.isSome_map]
  exact Iff.rfl

theorem warned_iff {users : List (LoadedBinding BindAction)}
    {entry : LoadedBinding BindAction × Nat} :
    warned users entry = true ↔
      ∃ earlier ∈ users.take entry.2, entry.1.duplicates earlier.toBinding = true := by
  unfold warned
  rw [List.findIdx?_isSome, List.any_eq_true]

/-! ## One binding taken out -/

/-- The sort keeps a `keys` binding behind the one that it repeats. -/
theorem repeatTakenOut_sorted {as bs : List (Binding BindAction)} {b earlier : Binding BindAction}
    (hearlier : earlier ∈ as) (hrepeats : Repeats b earlier) :
    RepeatTakenOut (sortBySpecificity (as ++ b :: bs)) (sortBySpecificity (as ++ bs)) := by
  have hcount : b.kind.keyCount = earlier.kind.keyCount := by
    obtain ⟨keys, keys', hkind, hkind', hperm⟩ := (twins_of_repeats hrepeats).keys
    rw [hkind, hkind']
    exact hperm.length_eq
  obtain ⟨xs, ys, hwith, hwithout, hbefore⟩ := sortDown_removed
    (fun b : Binding BindAction => b.kind.keyCount) as bs b
  exact ⟨xs, ys, b, earlier, hwith, hwithout,
    hbefore earlier hearlier (Nat.le_of_eq hcount), hrepeats⟩

/-! ## All of them -/

/-- What is left of the entries from `start` on. -/
def keptFrom (users rest : List (LoadedBinding BindAction)) (start : Nat) :
    List (LoadedBinding BindAction) :=
  ((rest.zipIdx start).filter fun entry =>
    !(isCombo entry.1.kind && warned users entry)).map Prod.fst

theorem keptFrom_cons (users rest : List (LoadedBinding BindAction)) (b : LoadedBinding BindAction)
    (start : Nat) :
    keptFrom users (b :: rest) start =
      if isCombo b.kind && warned users (b, start) then keptFrom users rest (start + 1)
      else b :: keptFrom users rest (start + 1) := by
  unfold keptFrom
  rw [List.zipIdx_cons, List.filter_cons]
  cases isCombo b.kind && warned users (b, start) <;> simp

/-- From the end of the file on, the list decides the same without what was warned of. -/
theorem onKey_keptFrom (e : Engine BindAction) (event : KeyEvent) (env : Env)
    {users : List (LoadedBinding BindAction)} (hchecked : ∀ b ∈ users, Checked b)
    (blockers : List (LoadedBinding BindAction)) (rest : List (LoadedBinding BindAction)) :
    ∀ before, users = before ++ rest →
      e.onKey event (liveList (users ++ blockers)) env =
        e.onKey event (liveList (before ++ (keptFrom users rest before.length ++ blockers)))
          env := by
  induction rest with
  | nil =>
    intro before heq
    rw [heq, List.append_nil]
    rfl
  | cons b rest ih =>
    intro before heq
    have hsnoc : users = (before ++ [b]) ++ rest := by
      rw [heq, List.append_assoc]
      rfl
    have hrest := ih (before ++ [b]) hsnoc
    rw [List.length_append, List.length_singleton] at hrest
    rw [hrest, keptFrom_cons]
    split
    · next hwarned =>
      obtain ⟨hcombo, hwarned⟩ := (Bool.and_eq_true ..).mp hwarned
      obtain ⟨earlier, hearlier, hduplicates⟩ := warned_iff.mp hwarned
      rw [heq, List.take_left] at hearlier
      have hkeys : ∃ keys, b.kind = .combo keys ∧ keys.Distinct := by
        have hkind := (hchecked b (heq ▸ List.mem_append_right _ List.mem_cons_self)).kind
        cases hkeys : b.kind with
        | combo keys =>
          rw [hkeys] at hkind
          exact ⟨keys, rfl, hkind.2⟩
        | sequence _ _ =>
          rw [hkeys] at hcombo
          exact absurd hcombo (by simp [isCombo])
        | chord _ _ =>
          rw [hkeys] at hcombo
          exact absurd hcombo (by simp [isCombo])
      have hrepeats : Repeats b.toBinding earlier.toBinding := ⟨hkeys, hduplicates⟩
      have hmem : earlier.toBinding ∈ before.map LoadedBinding.toBinding :=
        List.mem_map_of_mem hearlier
      have hsplit : ∀ rest : List (LoadedBinding BindAction),
          (before ++ rest).map LoadedBinding.toBinding =
            before.map LoadedBinding.toBinding ++ rest.map LoadedBinding.toBinding :=
        fun _ => List.map_append
      unfold liveList
      rw [List.append_assoc, hsplit, List.singleton_append, List.map_cons, hsplit]
      exact onKey_repeated e event env (repeatTakenOut_sorted hmem hrepeats)
    · rw [List.append_assoc]
      rfl

theorem step_over (e : Engine BindAction) {users : List (LoadedBinding BindAction)}
    (hchecked : ∀ b ∈ users, Checked b) (blockers : List (LoadedBinding BindAction))
    (op : Op BindAction) :
    e.step (callOver (liveList (users ++ blockers)) op) =
      e.step (callOver (liveList (withoutRepeats users ++ blockers)) op) := by
  cases op with
  | key event bindings env => exact onKey_keptFrom e event env hchecked blockers users [] rfl
  | _ => rfl

theorem decisions_withoutRepeats (e : Engine BindAction)
    {users : List (LoadedBinding BindAction)} (hchecked : ∀ b ∈ users, Checked b)
    (blockers : List (LoadedBinding BindAction)) (ops : List (Op BindAction)) :
    decisions e (liveList (users ++ blockers)) ops =
      decisions e (liveList (withoutRepeats users ++ blockers)) ops := by
  induction ops generalizing e with
  | nil => rfl
  | cons op ops ih =>
    have hmoment : operations.step e (callOver (liveList (users ++ blockers)) op) =
        operations.step e (callOver (liveList (withoutRepeats users ++ blockers)) op) :=
      step_over e hchecked blockers op
    unfold decisions at ih ⊢
    rw [List.map_cons, List.map_cons, Machine.trace_cons, Machine.trace_cons, List.map_cons,
      List.map_cons]
    dsimp only [Machine.moment_output, Machine.moment_after]
    rw [hmoment, ih]

/-- What holds of the `keys` bindings that a load of `text` warns of. -/
structure RepeatsInert {P : Type} (rd : Reading) (fromStr : List Char → Except P RawConfig)
    (registry : SystemFunction → List (Option String)) (text : List Char) : Prop where
  inert : ∀ parsed, parseRonStr rd fromStr (getSystemCombination rd registry) text = .ok parsed →
    ∃ raw users blockers, fromStr (stripBom text) = .ok raw ∧
      LoadedFrom rd registry raw users blockers parsed ∧
      (duplicateWarnings raw.bindings users).length = (users.zipIdx.filter (warned users)).length ∧
      ∀ e ops, decisions e (liveList parsed.bindings) ops =
        decisions e (liveList (withoutRepeats users ++ blockers)) ops

/-- **What a duplicate warning says is so.** A load gives one warning for each binding that
repeats an earlier one, and over the list that goes live, in every run and from every state, the
engine decides each call and ends as without all `keys` bindings that were warned of. -/
theorem warned_keys_inert {P : Type} (rd : Reading) (fromStr : List Char → Except P RawConfig)
    (registry : SystemFunction → List (Option String)) (text : List Char) :
    RepeatsInert rd fromStr registry text := by
  refine ⟨fun parsed h => ?_⟩
  obtain ⟨raw, users, blockers, hraw, hfrom⟩ := loadedFrom_of_parseRonStr h
  have hchecked : ∀ b ∈ users, Checked b := by
    intro b hb
    apply hfrom.checked
    rw [hfrom.bindings]
    exact List.mem_append_left _ hb
  refine ⟨raw, users, blockers, hraw, hfrom, duplicateWarnings_warned raw.bindings users,
    fun e ops => ?_⟩
  rw [hfrom.bindings]
  exact decisions_withoutRepeats e hchecked blockers ops

end KeySwitch.Config
