import KeySwitch.Engine.KeyEffects
import KeySwitch.Engine.Ops
import KeySwitch.Lib.FirstBest

/-!
# Only the winner acts

A key-down is decided as if the list held, of its `keys` user bindings, only the
elected winner and the members of its gesture group. The election, the scan for
the group and the visits each go over the whole list with indices of their own;
each is rewritten here around the place of the winner (`bindings = as ++ w :: bs`)
as a loop over bindings alone, which a losing binding does not change.

Auto-blockers fire nothing: without them too, only what they are for changes, the
suppression and the mask, and with the suppression the record of the key pressed.
-/

namespace KeySwitch.Engine

open Data Lib

variable {α : Type}

/-! ## The election around the winner -/

/-- Whether a binding competes: a `keys` user binding whose keys match and whose
`when:` holds. -/
def competes (vk : VirtualKey) (held : KeyState) (foreground : ForegroundInfo)
    (b : Binding α) : Bool :=
  match b.kind with
  | .combo combo =>
    !b.isAutoBlocker && comboMatches combo vk held b.allowExtraModifiers
      && b.condition.evaluate foreground
  | _ => false

/-- `>=` on the ranks of two bindings. -/
def outranks (a b : Binding α) : Bool := rankGe (rank a) (rank b)

theorem outranks_preorder : TotalPreorder (outranks (α := α)) := by
  refine ⟨fun x y => ?_, fun x y z hxy hyz => ?_⟩
  · unfold outranks rankGe
    rcases Nat.lt_trichotomy (rank x).1 (rank y).1 with hlt | heq | hgt
    · exact Or.inr (by simp [hlt])
    · rw [heq]
      cases (rank x).2 <;> cases (rank y).2 <;> simp
    · exact Or.inl (by simp [hgt])
  · unfold outranks rankGe at *
    simp only [Bool.or_eq_true, decide_eq_true_eq, Bool.and_eq_true, beq_iff_eq,
      Bool.not_eq_true'] at *
    rcases hxy with hxy | ⟨hxy, hx⟩
    · rcases hyz with hyz | ⟨hyz, -⟩
      · exact Or.inl (Nat.lt_trans hyz hxy)
      · exact Or.inl (hyz ▸ hxy)
    · rcases hyz with hyz | ⟨hyz, hy⟩
      · exact Or.inl (hxy ▸ hyz)
      · refine Or.inr ⟨hxy.trans hyz, ?_⟩
        rcases hy with hy | hz
        · rcases hx with hx | hx
          · exact Or.inl hx
          · rw [hx] at hy
            exact absurd hy (by decide)
        · exact Or.inr hz

/-- The election's loop is the search for the first best competitor. -/
theorem elect_eq_firstBest (vk : VirtualKey) (bindings : List (Binding α)) (held : KeyState)
    (foreground : ForegroundInfo) :
    elect vk bindings held foreground =
      (firstBest (fun x => competes vk held foreground x.1) (fun x y => outranks x.1 y.1)
        bindings.zipIdx).map fun x => ⟨x.2, x.1⟩ := by
  have hstep : ∀ (best : Option (Binding α × Nat)) (x : Binding α × Nat),
      electStep vk held foreground (best.map fun x => ⟨x.2, x.1⟩) x =
        (bestStep (fun x => competes vk held foreground x.1) (fun x y => outranks x.1 y.1)
          best x).map fun x => ⟨x.2, x.1⟩ := by
    intro best x
    have hany : ((best.map fun x => (⟨x.2, x.1⟩ : Winner α)).any fun w =>
        rankGe (rank w.binding) (rank x.1)) = best.any fun y => outranks y.1 x.1 := by
      cases best <;> rfl
    have hbest : bestStep (fun x => competes vk held foreground x.1)
        (fun x y => outranks x.1 y.1) best x =
          if competes vk held foreground x.1 && !(best.any fun y => outranks y.1 x.1) then some x
          else best := rfl
    have hother : competes vk held foreground x.1 = false →
        bestStep (fun x => competes vk held foreground x.1) (fun x y => outranks x.1 y.1) best x =
          best := by
      intro hno
      rw [hbest, hno]
      rfl
    -- Only a keys binding competes; its four conditions are tested in another order.
    cases hkind : x.1.kind with
    | combo combo =>
      have hcompetes : competes vk held foreground x.1 = (!x.1.isAutoBlocker
          && comboMatches combo vk held x.1.allowExtraModifiers
          && x.1.condition.evaluate foreground) := by
        unfold competes
        rw [hkind]
      rw [hbest, hcompetes]
      unfold electStep
      rw [hkind]
      dsimp only
      rw [hany]
      cases x.1.isAutoBlocker <;> cases (best.any fun y => outranks y.1 x.1) <;>
        cases comboMatches combo vk held x.1.allowExtraModifiers <;>
        cases x.1.condition.evaluate foreground <;> rfl
    | sequence steps maxGap =>
      rw [hother (by unfold competes; rw [hkind])]
      unfold electStep
      rw [hkind]
    | chord keys window =>
      rw [hother (by unfold competes; rw [hkind])]
      unfold electStep
      rw [hkind]
  have hfold : ∀ (entries : List (Binding α × Nat)) (best : Option (Binding α × Nat)),
      entries.foldl (electStep vk held foreground) (best.map fun x => ⟨x.2, x.1⟩) =
        (entries.foldl (bestStep (fun x => competes vk held foreground x.1)
          (fun x y => outranks x.1 y.1)) best).map fun x => ⟨x.2, x.1⟩ := by
    intro entries
    induction entries with
    | nil => exact fun _ => rfl
    | cons x entries ih =>
      intro best
      rw [List.foldl_cons, List.foldl_cons, hstep, ih]
  exact hfold bindings.zipIdx none

/-- A split of the numbered list is one of the list. -/
theorem zipIdx_split {l : List (Binding α)} {eas ebs : List (Binding α × Nat)} {b : Binding α}
    {i : Nat} (h : l.zipIdx = eas ++ (b, i) :: ebs) :
    ∃ as bs, l = as ++ b :: bs ∧ i = as.length ∧ eas = as.zipIdx ∧
      ebs = bs.zipIdx (as.length + 1) := by
  have hlist : l = eas.map Prod.fst ++ b :: ebs.map Prod.fst := by
    have hfst := congrArg (List.map Prod.fst) h
    rwa [List.zipIdx_map_fst, List.map_append, List.map_cons] at hfst
  rw [hlist, List.zipIdx_append, List.zipIdx_cons, Nat.zero_add] at h
  obtain ⟨heas, hrest⟩ := List.append_inj h (by simp)
  obtain ⟨hb, hebs⟩ := List.cons.inj hrest
  exact ⟨eas.map Prod.fst, ebs.map Prod.fst, hlist, (Prod.mk.inj hb).2.symm, heas.symm,
    hebs.symm⟩

theorem zipIdx_middle (as : List (Binding α)) (b : Binding α) (bs : List (Binding α)) :
    (as ++ b :: bs).zipIdx = as.zipIdx ++ (b, as.length) :: bs.zipIdx (as.length + 1) := by
  rw [List.zipIdx_append, List.zipIdx_cons, Nat.zero_add]

theorem index_before {as : List (Binding α)} {entry : Binding α × Nat} (h : entry ∈ as.zipIdx) :
    entry.2 ≠ as.length := by
  have hlt := List.snd_lt_of_mem_zipIdx h
  rw [Nat.add_zero] at hlt
  exact Nat.ne_of_lt hlt

theorem index_after {bs : List (Binding α)} {entry : Binding α × Nat} {n : Nat}
    (h : entry ∈ bs.zipIdx (n + 1)) : entry.2 ≠ n :=
  Nat.ne_of_gt (List.le_snd_of_mem_zipIdx h)

/-- `b` wins the key-down, with `as` before it in the list and `bs` after it. -/
abbrev Wins (vk : VirtualKey) (held : KeyState) (foreground : ForegroundInfo)
    (as : List (Binding α)) (b : Binding α) (bs : List (Binding α)) : Prop :=
  IsFirstBest (competes vk held foreground) outranks as b bs

theorem elect_none {vk : VirtualKey} {bindings : List (Binding α)} {held : KeyState}
    {foreground : ForegroundInfo} (h : ∀ b ∈ bindings, competes vk held foreground b = false) :
    elect vk bindings held foreground = none := by
  rw [elect_eq_firstBest, firstBest_none fun x hx => h x.1 (List.fst_mem_of_mem_zipIdx hx)]
  rfl

theorem elect_of_wins {vk : VirtualKey} {held : KeyState} {foreground : ForegroundInfo}
    {as : List (Binding α)} {b : Binding α} {bs : List (Binding α)}
    (h : Wins vk held foreground as b bs) :
    elect vk (as ++ b :: bs) held foreground = some ⟨as.length, b⟩ := by
  have hentries : IsFirstBest (fun x : Binding α × Nat => competes vk held foreground x.1)
      (fun x y => outranks x.1 y.1) as.zipIdx (b, as.length) (bs.zipIdx (as.length + 1)) :=
    ⟨h.stands, fun x hx => h.before x.1 (List.fst_mem_of_mem_zipIdx hx),
      fun x hx => h.after x.1 (List.fst_mem_of_mem_zipIdx hx)⟩
  rw [elect_eq_firstBest, zipIdx_middle, firstBest_of_split hentries]
  rfl

/-- **The election**: nothing competes, or the winner stands at its index. -/
theorem elect_cases (vk : VirtualKey) (bindings : List (Binding α)) (held : KeyState)
    (foreground : ForegroundInfo) :
    (elect vk bindings held foreground = none ∧
      ∀ b ∈ bindings, competes vk held foreground b = false) ∨
    ∃ as b bs, bindings = as ++ b :: bs ∧ Wins vk held foreground as b bs := by
  have hge : TotalPreorder fun x y : Binding α × Nat => outranks x.1 y.1 :=
    ⟨fun x y => outranks_preorder.total x.1 y.1,
      fun x y z => outranks_preorder.trans x.1 y.1 z.1⟩
  rcases firstBest_cases (fun x => competes vk held foreground x.1) hge bindings.zipIdx with
    ⟨hnone, hno⟩ | ⟨eas, ⟨b, i⟩, ebs, hsplit, -, hbest⟩
  · have hall : ∀ b ∈ bindings, competes vk held foreground b = false := by
      intro b hb
      obtain ⟨i, hi⟩ := List.mem_iff_getElem?.mp hb
      exact hno (b, i) (List.mk_mem_zipIdx_iff_getElem?.mpr hi)
    exact Or.inl ⟨elect_none hall, hall⟩
  · obtain ⟨as, bs, rfl, rfl, rfl, rfl⟩ := zipIdx_split hsplit
    refine Or.inr ⟨as, b, bs, rfl, hbest.stands, fun a ha => ?_, fun c hc => ?_⟩
    · obtain ⟨i, hi⟩ := List.mem_iff_getElem?.mp ha
      exact hbest.before (a, i) (List.mk_mem_zipIdx_iff_getElem?.mpr hi)
    · obtain ⟨i, hi⟩ := List.mem_iff_getElem?.mp hc
      refine hbest.after (c, as.length + 1 + i) ?_
      rw [List.mk_mem_zipIdx_iff_le_and_getElem?_sub]
      exact ⟨Nat.le_add_right _ _, by rw [Nat.add_sub_cancel_left]; exact hi⟩

/-! ## The group around the winner -/

/-- Whether a binding other than the winner is in its gesture group. -/
def joins (winner b : Binding α) (vk : VirtualKey) (held : KeyState) : Bool :=
  !(winner.trigger.isImmediate || b.trigger.isImmediate) &&
    match b.combination, winner.combination with
    | some combo, some winnerCombo =>
      combo.eq winnerCombo && decide (b.condition = winner.condition)
        && comboMatches combo vk held b.allowExtraModifiers
    | _, _ => false

theorem admits_other {w : Winner α} {index : Nat} (h : index ≠ w.index) (b : Binding α)
    (vk : VirtualKey) (held : KeyState) :
    w.admits index b vk held = joins w.binding b vk held := by
  unfold Winner.admits joins
  rw [if_neg (by simpa using h)]
  cases hdeferred : w.binding.trigger.isImmediate || b.trigger.isImmediate
  · rfl
  · rfl

/-- A binding of the group claims its trigger kind. -/
def claimStep (acc : GroupArms × GroupArming α) (b : Binding α) : GroupArms × GroupArming α :=
  let claimed := acc.1.claim b.trigger
  (claimed.2, if claimed.1 then acc.2.join b else acc.2)

/-- The scan's turn for a binding other than the winner. -/
def joinStep (winner : Binding α) (vk : VirtualKey) (held : KeyState)
    (acc : GroupArms × GroupArming α) (b : Binding α) : GroupArms × GroupArming α :=
  if b.isAutoBlocker || !joins winner b vk held then acc else claimStep acc b

/-- The gesture group of `winner`, with `bs` after it in the list. -/
def groupOf (winner : Binding α) (vk : VirtualKey) (held : KeyState) (bs : List (Binding α)) :
    Option (GroupArming α) :=
  if winner.trigger.isImmediate then none
  else
    winner.combination.map fun keys =>
      (bs.foldl (joinStep winner vk held) (claimStep
        (GroupArms.default, ⟨keys, winner.condition, none, none, none, false⟩) winner)).2

theorem joinSteps_zipIdx {w : Winner α} {vk : VirtualKey} {held : KeyState}
    (bs : List (Binding α)) {n : Nat} (hn : w.index < n) (acc : GroupArms × GroupArming α) :
    (bs.zipIdx n).foldl (w.groupStep vk held) acc = bs.foldl (joinStep w.binding vk held) acc := by
  induction bs generalizing n acc with
  | nil => rfl
  | cons b bs ih =>
    have hstep : w.groupStep vk held acc (b, n) = joinStep w.binding vk held acc b := by
      unfold Winner.groupStep joinStep
      dsimp only
      rw [admits_other (Nat.ne_of_gt hn)]
      rfl
    rw [List.zipIdx_cons, List.foldl_cons, List.foldl_cons, hstep]
    exact ih (Nat.lt_succ_of_lt hn) _

theorem deferredGroup_split {b : Binding α} (huser : b.isAutoBlocker = false) (vk : VirtualKey)
    (held : KeyState) (as bs : List (Binding α)) :
    (⟨as.length, b⟩ : Winner α).deferredGroup vk (as ++ b :: bs) held = groupOf b vk held bs := by
  unfold Winner.deferredGroup groupOf
  split
  · rfl
  · have hdrop : (as ++ b :: bs).zipIdx.drop as.length =
        (b, as.length) :: bs.zipIdx (as.length + 1) := by
      rw [zipIdx_middle, List.drop_left' (by simp)]
    have hown : ∀ acc, (⟨as.length, b⟩ : Winner α).groupStep vk held acc (b, as.length) =
        claimStep acc b := by
      intro acc
      unfold Winner.groupStep Winner.admits
      rw [huser]
      simp only [beq_self_eq_true, if_true, Bool.not_true, Bool.or_self, Bool.false_eq_true,
        if_false]
      rfl
    dsimp only
    rw [hdrop]
    congr 1
    funext keys
    rw [List.foldl_cons, hown]
    exact congrArg Prod.snd (joinSteps_zipIdx bs (Nat.lt_succ_self _) _)

/-! ## The visits around the winner -/

/-- A `keys` user binding. -/
def isUserCombo (b : Binding α) : Bool := b.combination.isSome && !b.isAutoBlocker

theorem isUserCombo_iff {b : Binding α} : isUserCombo b = true ↔
    ∃ combo, b.kind = .combo combo ∧ b.autoBlocker = none := by
  unfold isUserCombo Binding.combination Binding.isAutoBlocker
  cases b.kind <;> cases b.autoBlocker <;> simp

/-- An auto-blocker. -/
def isBlocker (b : Binding α) : Bool := b.combination.isSome && b.isAutoBlocker

/-- The visit of a binding that did not win: a `keys` user binding does nothing,
since a member of a gesture group has acted as one press already. -/
def visitOther (k : KeyDown α) (acc : Engine α × Decision α) (b : Binding α) :
    Engine α × Decision α :=
  match b.kind with
  | .combo combo =>
    match b.autoBlocker with
    | some mode => visitBlocker k combo mode b.condition acc.1 acc.2
    | none => acc
  | .sequence steps maxGap => visitSequence k steps maxGap b acc.1 acc.2
  | .chord keys window => visitChord k keys window b acc.1 acc.2

/-- The visit of the winner. -/
def visitWinner (wasRepeat : Bool) (b : Binding α) (acc : Engine α × Decision α) :
    Engine α × Decision α :=
  if b.trigger.isImmediate then
    let d := if !wasRepeat || b.repeats then acc.2.push b.action else acc.2
    (acc.1, if b.blockDefault then d.swallow else d)
  else acc

theorem visit_other {k : KeyDown α} {entry : Binding α × Nat}
    (h : ∀ w ∈ k.winner, entry.2 ≠ w.index) (acc : Engine α × Decision α) :
    visit k acc entry = visitOther k acc entry.1 := by
  unfold visit visitOther
  cases hkind : entry.1.kind with
  | combo combo =>
    dsimp only
    cases hmode : entry.1.autoBlocker with
    | some mode => rfl
    | none =>
      dsimp only
      unfold visitCombo
      split
      · rfl
      · next hadmits =>
        rw [if_neg]
        -- A member of the group has a deferred trigger.
        intro himmediate
        simp only [Bool.not_eq_true', Bool.not_eq_false] at hadmits
        obtain ⟨w, hw, hadmits⟩ := (Option.any_eq_true _ _).mp hadmits
        rw [admits_other (h w hw)] at hadmits
        unfold joins at hadmits
        rw [himmediate, Bool.or_true] at hadmits
        exact absurd hadmits (by simp)
  | sequence steps maxGap => rfl
  | chord keys window => rfl

theorem visit_winner {k : KeyDown α} {index : Nat} {b : Binding α}
    (hwinner : k.winner = some ⟨index, b⟩) (huser : isUserCombo b = true)
    (acc : Engine α × Decision α) : visit k acc (b, index) = visitWinner k.wasRepeat b acc := by
  obtain ⟨combo, hkind, hmode⟩ := isUserCombo_iff.mp huser
  have hadmits : (k.winner.any fun w => w.admits index b k.vk acc.1.keys) = true := by
    rw [hwinner]
    simp [Winner.admits]
  have hvisit : visit k acc (b, index) = visitCombo k index b acc.1 acc.2 := by
    unfold visit
    rw [hkind]
    dsimp only
    rw [hmode]
  rw [hvisit]
  unfold visitCombo visitWinner
  rw [hadmits]
  rfl

theorem visits_other {k : KeyDown α} {entries : List (Binding α × Nat)}
    (h : ∀ entry ∈ entries, ∀ w ∈ k.winner, entry.2 ≠ w.index) (acc : Engine α × Decision α) :
    entries.foldl (visit k) acc = (entries.map Prod.fst).foldl (visitOther k) acc := by
  induction entries generalizing acc with
  | nil => rfl
  | cons entry entries ih =>
    rw [List.foldl_cons, List.map_cons, List.foldl_cons, visit_other (h entry List.mem_cons_self)]
    exact ih (fun x hx => h x (List.mem_cons_of_mem _ hx)) _

theorem visits_split {k : KeyDown α} {as bs : List (Binding α)} {b : Binding α}
    (hwinner : k.winner = some ⟨as.length, b⟩) (huser : isUserCombo b = true)
    (acc : Engine α × Decision α) :
    (as ++ b :: bs).zipIdx.foldl (visit k) acc =
      bs.foldl (visitOther k) (visitWinner k.wasRepeat b (as.foldl (visitOther k) acc)) := by
  have hbefore : ∀ entry ∈ as.zipIdx, ∀ w ∈ k.winner, entry.2 ≠ w.index := by
    intro entry hentry w hw
    rw [hwinner] at hw
    obtain rfl := Option.some.inj hw
    exact index_before hentry
  have hafter : ∀ entry ∈ bs.zipIdx (as.length + 1), ∀ w ∈ k.winner, entry.2 ≠ w.index := by
    intro entry hentry w hw
    rw [hwinner] at hw
    obtain rfl := Option.some.inj hw
    exact index_after hentry
  rw [zipIdx_middle, List.foldl_append, List.foldl_cons, visits_other hbefore,
    visit_winner hwinner huser, visits_other hafter, List.zipIdx_map_fst, List.zipIdx_map_fst]

/-! ## A key-down around its winner -/

/-- A key-down with no winner: its `keys` user bindings do nothing. -/
theorem walk_none (e : Engine α) {k : KeyDown α} (hnone : k.winner = none)
    (bindings : List (Binding α)) :
    e.walk k bindings = bindings.foldl (visitOther k)
      (if k.wasRepeat then (e, .default) else e.firstKeyDown k []) := by
  have hothers : ∀ entry ∈ bindings.zipIdx, ∀ w ∈ k.winner, entry.2 ≠ w.index := by
    intro entry _ w hw
    rw [hnone] at hw
    exact absurd hw (by simp)
  have hpress : e.firstKeyDown k bindings = e.firstKeyDown k [] := by
    unfold firstKeyDown
    rw [hnone]
    rfl
  unfold walk
  rw [visits_other hothers, List.zipIdx_map_fst, hpress]

/-- What a first key-down does with the gestures, given the group it arms. -/
def pressGroup (e : Engine α) (vk : VirtualKey) (now : Instant) (group : Option (GroupArming α)) :
    Engine α × Decision α :=
  let others := e.gestures.otherKeyDown vk e.keys now
  let next := e.ids.nextSeq
  let pressed := others.1.press vk group now next.1
  ({ e with gestures := pressed.1, ids := next.2 },
    { suppress := group.any GroupArming.block
      fire := others.2 ++ pressed.2.1
      timers := (pressed.2.2.map (next.2.request (.gesture vk) next.1)).toList
      mask := false })

/-- A key-down with a winner: the group it leads, then the bindings before it,
the winner and the bindings after it. -/
theorem walk_winner (e : Engine α) {k : KeyDown α} {as bs : List (Binding α)} {b : Binding α}
    (hwinner : k.winner = some ⟨as.length, b⟩) (huser : isUserCombo b = true) :
    e.walk k (as ++ b :: bs) =
      bs.foldl (visitOther k) (visitWinner k.wasRepeat b (as.foldl (visitOther k)
        (if k.wasRepeat then (e, .default)
          else e.pressGroup k.vk k.env.now (groupOf b k.vk e.keys bs)))) := by
  obtain ⟨combo, -, hmode⟩ := isUserCombo_iff.mp huser
  have hblocker : b.isAutoBlocker = false := by
    unfold Binding.isAutoBlocker
    rw [hmode]
    rfl
  have hpress : e.firstKeyDown k (as ++ b :: bs) =
      e.pressGroup k.vk k.env.now (groupOf b k.vk e.keys bs) := by
    unfold firstKeyDown pressGroup
    rw [hwinner, Option.bind_some, deferredGroup_split hblocker]
  unfold walk
  rw [visits_split hwinner huser, hpress]

theorem competes_user {vk : VirtualKey} {held : KeyState} {foreground : ForegroundInfo}
    {b : Binding α} (h : competes vk held foreground b = true) : isUserCombo b = true := by
  unfold competes at h
  split at h
  · next combo hkind =>
    refine isUserCombo_iff.mpr ⟨combo, hkind, ?_⟩
    unfold Binding.isAutoBlocker at h
    cases hmode : b.autoBlocker with
    | none => rfl
    | some mode =>
      rw [hmode] at h
      exact absurd h (by simp)
  · exact absurd h (by decide)

/-! ## Taking bindings out -/

/-- The visit of a binding other than the winner does not read the winner. -/
theorem visitOther_winner (vk : VirtualKey) (env : Env) (wasRepeat : Bool)
    (w w' : Option (Winner α)) :
    visitOther ⟨vk, env, wasRepeat, w⟩ = visitOther ⟨vk, env, wasRepeat, w'⟩ := rfl

/-- The scan for the group passes over bindings that are not in it. -/
theorem groupOf_filter {winner : Binding α} {vk : VirtualKey} {held : KeyState}
    {keep : Binding α → Bool} {bs : List (Binding α)}
    (h : ∀ c ∈ bs, keep c = false → c.isAutoBlocker = true ∨ joins winner c vk held = false) :
    groupOf winner vk held (bs.filter keep) = groupOf winner vk held bs := by
  have hidle : ∀ c ∈ bs, keep c = false → ∀ acc, joinStep winner vk held acc c = acc := by
    intro c hc hkeep acc
    unfold joinStep
    rw [if_pos]
    rcases h c hc hkeep with hblocker | hjoins
    · rw [hblocker, Bool.true_or]
    · rw [hjoins, Bool.not_false, Bool.or_true]
  unfold groupOf
  split
  · rfl
  · congr 1
    funext keys
    rw [foldl_filter_idle hidle]

/-- A `keys` user binding that is not the winner does nothing when visited. -/
theorem visitOther_user {b : Binding α} (h : isUserCombo b = true) (k : KeyDown α)
    (acc : Engine α × Decision α) : visitOther k acc b = acc := by
  obtain ⟨combo, hkind, hmode⟩ := isUserCombo_iff.mp h
  unfold visitOther
  rw [hkind]
  dsimp only
  rw [hmode]

/-- The list with every `keys` user binding removed that neither wins the key-down
nor is in the winner's gesture group. -/
def onlyActing (vk : VirtualKey) (bindings : List (Binding α)) (held : KeyState)
    (foreground : ForegroundInfo) : List (Binding α) :=
  let winner := elect vk bindings held foreground
  (bindings.zipIdx.filter fun entry =>
    !isUserCombo entry.1 || winner.any fun w => w.admits entry.2 entry.1 vk held).map Prod.fst

/-- The list without its auto-blockers. -/
def withoutBlockers (bindings : List (Binding α)) : List (Binding α) :=
  bindings.filter fun b => !isBlocker b

theorem filter_zipIdx_fst {p : Binding α × Nat → Bool} {q : Binding α → Bool}
    {bindings : List (Binding α)} {n : Nat} (h : ∀ entry ∈ bindings.zipIdx n, p entry = q entry.1) :
    ((bindings.zipIdx n).filter p).map Prod.fst = bindings.filter q := by
  rw [List.filter_congr h]
  have hmap := List.filter_map (p := q) (f := Prod.fst) (l := bindings.zipIdx n)
  rw [List.zipIdx_map_fst] at hmap
  rw [hmap]
  rfl

theorem onlyActing_none {vk : VirtualKey} {bindings : List (Binding α)} {held : KeyState}
    {foreground : ForegroundInfo} (h : elect vk bindings held foreground = none) :
    onlyActing vk bindings held foreground = bindings.filter fun b => !isUserCombo b := by
  unfold onlyActing
  rw [h]
  exact filter_zipIdx_fst fun entry _ => by simp

theorem onlyActing_winner {vk : VirtualKey} {held : KeyState} {foreground : ForegroundInfo}
    {as bs : List (Binding α)} {b : Binding α} (h : Wins vk held foreground as b bs) :
    onlyActing vk (as ++ b :: bs) held foreground =
      as.filter (fun c => !isUserCombo c || joins b c vk held) ++
        b :: bs.filter fun c => !isUserCombo c || joins b c vk held := by
  have hother : ∀ entry : Binding α × Nat, entry.2 ≠ as.length →
      (!isUserCombo entry.1 || (some (⟨as.length, b⟩ : Winner α)).any fun w =>
        w.admits entry.2 entry.1 vk held) = (!isUserCombo entry.1 || joins b entry.1 vk held) := by
    intro entry hindex
    rw [Option.any_some, admits_other hindex]
  have hself : (!isUserCombo b || (some (⟨as.length, b⟩ : Winner α)).any fun w =>
      w.admits as.length b vk held) = true := by
    simp [Winner.admits]
  unfold onlyActing
  rw [elect_of_wins h, zipIdx_middle]
  dsimp only
  rw [List.filter_append, List.filter_cons, if_pos hself, List.map_append, List.map_cons]
  congr 1
  · exact filter_zipIdx_fst fun entry hentry => hother entry (index_before hentry)
  · congr 1
    exact filter_zipIdx_fst fun entry hentry => hother entry (index_after hentry)

/-- **A walk over the list of the bindings that act is the walk over the whole
list.** -/
theorem walk_onlyActing (e : Engine α) (vk : VirtualKey) (env : Env) (wasRepeat : Bool)
    (bindings : List (Binding α)) :
    e.walk ⟨vk, env, wasRepeat,
        elect vk (onlyActing vk bindings e.keys env.foreground) e.keys env.foreground⟩
        (onlyActing vk bindings e.keys env.foreground) =
      e.walk ⟨vk, env, wasRepeat, elect vk bindings e.keys env.foreground⟩ bindings := by
  rcases elect_cases vk bindings e.keys env.foreground with ⟨hnone, hno⟩ | ⟨as, b, bs, rfl, hwins⟩
  · have hnone' : elect vk (bindings.filter fun b => !isUserCombo b) e.keys env.foreground = none :=
      elect_none fun b hb => hno b (List.mem_of_mem_filter hb)
    rw [onlyActing_none hnone, hnone', hnone, walk_none e rfl, walk_none e rfl]
    refine foldl_filter_idle (fun b _ hdropped acc => visitOther_user ?_ _ acc) _
    simpa using hdropped
  · have huser := competes_user hwins.stands
    have hidle : ∀ (k : KeyDown α) (cs : List (Binding α)), ∀ c ∈ cs,
        (!isUserCombo c || joins b c vk e.keys) = false → ∀ acc, visitOther k acc c = acc := by
      intro k cs c _ hdropped acc
      rw [Bool.or_eq_false_iff] at hdropped
      exact visitOther_user (by simpa using hdropped.1) k acc
    have hgroup : groupOf b vk e.keys
        (bs.filter fun c => !isUserCombo c || joins b c vk e.keys) = groupOf b vk e.keys bs := by
      refine groupOf_filter fun c _ hdropped => Or.inr ?_
      rw [Bool.or_eq_false_iff] at hdropped
      exact hdropped.2
    have hwins' := isFirstBest_sublist hwins
      (List.filter_sublist (p := fun c => !isUserCombo c || joins b c vk e.keys))
      (List.filter_sublist (p := fun c => !isUserCombo c || joins b c vk e.keys))
    rw [onlyActing_winner hwins, elect_of_wins hwins', elect_of_wins hwins, walk_winner e rfl huser,
      walk_winner e rfl huser]
    dsimp only
    rw [hgroup, foldl_filter_idle (hidle _ bs), foldl_filter_idle (hidle _ as),
      visitOther_winner vk env wasRepeat _ (some ⟨as.length, b⟩)]

/-! ## What an auto-blocker changes -/

/-- Two stages of a walk that differ in the suppression and the masks at most. -/
structure Alike (x y : Engine α × Decision α) : Prop where
  keys : x.1.keys = y.1.keys
  gestures : x.1.gestures = y.1.gestures
  chords : x.1.chords = y.1.chords
  sequences : x.1.sequences = y.1.sequences
  ids : x.1.ids = y.1.ids
  resync : x.1.resync = y.1.resync
  fire : x.2.fire = y.2.fire
  timers : x.2.timers = y.2.timers

theorem alike_refl (x : Engine α × Decision α) : Alike x x :=
  ⟨rfl, rfl, rfl, rfl, rfl, rfl, rfl, rfl⟩

/-- Two such stages, one written as changes of the other. -/
theorem alike_cases {x y : Engine α × Decision α} (h : Alike x y) :
    x = ({ y.1 with maskOwed := x.1.maskOwed },
      { y.2 with suppress := x.2.suppress, mask := x.2.mask }) := by
  obtain ⟨⟨keys, gestures, chords, sequences, owed, ids, resync⟩, suppress, fire, timers, mask⟩ := x
  obtain ⟨hkeys, hgestures, hchords, hsequences, hids, hresync, hfire, htimers⟩ := h
  dsimp only at *
  rw [hkeys, hgestures, hchords, hsequences, hids, hresync, hfire, htimers]

theorem visitBlocker_alike (k : KeyDown α) (combo : KeyCombination) (mode : BlockerMode)
    (condition : Condition) (e : Engine α) (d : Decision α) :
    Alike (visitBlocker k combo mode condition e d) (e, d) := by
  unfold visitBlocker
  split
  · cases mode with
    | swallow => exact ⟨rfl, rfl, rfl, rfl, rfl, rfl, rfl, rfl⟩
    | maskOnly =>
      dsimp only
      split <;> exact ⟨rfl, rfl, rfl, rfl, rfl, rfl, rfl, rfl⟩
  · exact alike_refl _

theorem alike_symm {x y : Engine α × Decision α} (h : Alike x y) : Alike y x :=
  ⟨h.keys.symm, h.gestures.symm, h.chords.symm, h.sequences.symm, h.ids.symm, h.resync.symm,
    h.fire.symm, h.timers.symm⟩

theorem alike_trans {x y z : Engine α × Decision α} (h : Alike x y) (h' : Alike y z) :
    Alike x z :=
  ⟨h.keys.trans h'.keys, h.gestures.trans h'.gestures, h.chords.trans h'.chords,
    h.sequences.trans h'.sequences, h.ids.trans h'.ids, h.resync.trans h'.resync,
    h.fire.trans h'.fire, h.timers.trans h'.timers⟩

/-- No visit reads the suppression or a mask. -/
theorem visitOther_alike (k : KeyDown α) {x y : Engine α × Decision α} (h : Alike x y)
    (b : Binding α) : Alike (visitOther k x b) (visitOther k y b) := by
  rw [alike_cases h]
  unfold visitOther
  cases b.kind with
  | combo combo =>
    dsimp only
    cases b.autoBlocker with
    | some mode =>
      have hboth := alike_cases h ▸ h
      exact alike_trans (visitBlocker_alike k combo mode b.condition _ _)
        (alike_trans hboth (alike_symm (visitBlocker_alike k combo mode b.condition _ _)))
    | none => exact alike_cases h ▸ h
  | sequence steps maxGap =>
    dsimp only
    unfold visitSequence
    split
    · exact ⟨rfl, rfl, rfl, rfl, rfl, rfl, rfl, rfl⟩
    · dsimp only
      split <;> exact ⟨rfl, rfl, rfl, rfl, rfl, rfl, rfl, rfl⟩
  | chord keys window =>
    dsimp only
    unfold visitChord
    split
    · exact ⟨rfl, rfl, rfl, rfl, rfl, rfl, rfl, rfl⟩
    · dsimp only
      split <;> exact ⟨rfl, rfl, rfl, rfl, rfl, rfl, rfl, rfl⟩

theorem visitWinner_alike (wasRepeat : Bool) (b : Binding α) {x y : Engine α × Decision α}
    (h : Alike x y) : Alike (visitWinner wasRepeat b x) (visitWinner wasRepeat b y) := by
  rw [alike_cases h]
  unfold visitWinner
  split
  · dsimp only
    split <;> split <;> exact ⟨rfl, rfl, rfl, rfl, rfl, rfl, rfl, rfl⟩
  · exact ⟨rfl, rfl, rfl, rfl, rfl, rfl, rfl, rfl⟩

theorem visitOther_blocker {b : Binding α} (h : isBlocker b = true) (k : KeyDown α)
    (acc : Engine α × Decision α) : Alike (visitOther k acc b) acc := by
  unfold isBlocker Binding.combination Binding.isAutoBlocker at h
  unfold visitOther
  cases hkind : b.kind with
  | combo combo =>
    dsimp only
    cases hmode : b.autoBlocker with
    | some mode => exact visitBlocker_alike k combo mode b.condition acc.1 acc.2
    | none => exact alike_refl acc
  | sequence steps maxGap =>
    rw [hkind] at h
    exact absurd h (by simp)
  | chord keys window =>
    rw [hkind] at h
    exact absurd h (by simp)

theorem visitsOther_withoutBlockers (k : KeyDown α) (bs : List (Binding α))
    {x y : Engine α × Decision α} (h : Alike x y) :
    Alike ((withoutBlockers bs).foldl (visitOther k) x) (bs.foldl (visitOther k) y) := by
  induction bs generalizing x y with
  | nil => exact h
  | cons b bs ih =>
    unfold withoutBlockers
    cases hblocker : isBlocker b with
    | true =>
      rw [List.filter_cons_of_neg (by simp [hblocker]), List.foldl_cons]
      exact ih (alike_trans h (alike_symm (visitOther_blocker hblocker k y)))
    | false =>
      rw [List.filter_cons_of_pos (by simp [hblocker]), List.foldl_cons, List.foldl_cons]
      exact ih (visitOther_alike k h b)

/-- **Auto-blockers change nothing of a walk but the suppression and the masks.** -/
theorem walk_withoutBlockers (e : Engine α) (vk : VirtualKey) (env : Env) (wasRepeat : Bool)
    (bindings : List (Binding α)) :
    Alike
      (e.walk ⟨vk, env, wasRepeat, elect vk (withoutBlockers bindings) e.keys env.foreground⟩
        (withoutBlockers bindings))
      (e.walk ⟨vk, env, wasRepeat, elect vk bindings e.keys env.foreground⟩ bindings) := by
  rcases elect_cases vk bindings e.keys env.foreground with ⟨hnone, hno⟩ | ⟨as, b, bs, rfl, hwins⟩
  · have hnone' : elect vk (withoutBlockers bindings) e.keys env.foreground = none :=
      elect_none fun b hb => hno b (List.mem_of_mem_filter hb)
    rw [hnone', hnone, walk_none e rfl, walk_none e rfl]
    exact visitsOther_withoutBlockers _ bindings (alike_refl _)
  · have huser := competes_user hwins.stands
    have hstays : withoutBlockers (as ++ b :: bs) =
        withoutBlockers as ++ b :: withoutBlockers bs := by
      unfold withoutBlockers
      rw [List.filter_append, List.filter_cons_of_pos]
      obtain ⟨combo, -, hmode⟩ := isUserCombo_iff.mp huser
      unfold isBlocker Binding.isAutoBlocker
      rw [hmode]
      simp
    have hgroup : groupOf b vk e.keys (withoutBlockers bs) = groupOf b vk e.keys bs := by
      refine groupOf_filter fun c _ hdropped => Or.inl ?_
      unfold isBlocker at hdropped
      simp only [Bool.not_eq_false', Bool.and_eq_true] at hdropped
      exact hdropped.2
    have hwins' : Wins vk e.keys env.foreground (withoutBlockers as) b (withoutBlockers bs) :=
      isFirstBest_sublist hwins List.filter_sublist List.filter_sublist
    rw [hstays, elect_of_wins hwins', elect_of_wins hwins, walk_winner e rfl huser,
      walk_winner e rfl huser]
    dsimp only
    rw [hgroup, visitOther_winner vk env wasRepeat _ (some ⟨as.length, b⟩)]
    refine visitsOther_withoutBlockers _ bs (visitWinner_alike _ _ ?_)
    exact visitsOther_withoutBlockers _ as (alike_refl _)

/-- Two outcomes of a key-down of `vk` that differ at most in what an auto-blocker
is for: the suppression, the masks and the record of `vk`. -/
structure SameButBlocking (vk : VirtualKey) (x y : Engine α × Decision α) : Prop where
  fire : x.2.fire = y.2.fire
  timers : x.2.timers = y.2.timers
  gestures : x.1.gestures = y.1.gestures
  chords : x.1.chords = y.1.chords
  sequences : x.1.sequences = y.1.sequences
  ids : x.1.ids = y.1.ids
  resync : x.1.resync = y.1.resync
  active : x.1.keys.active = y.1.keys.active
  lastDown : ∀ v ≠ vk, x.1.keys.lastDown v = y.1.keys.lastDown v

theorem onKeyDown_withoutBlockers (e : Engine α) (vk : VirtualKey) (bindings : List (Binding α))
    (env : Env) :
    SameButBlocking vk (e.onKeyDown vk (withoutBlockers bindings) env)
      (e.onKeyDown vk bindings env) := by
  have hwalk := walk_withoutBlockers { e with keys := (e.keys.press vk).2 } vk env
    (e.keys.press vk).1 bindings
  unfold onKeyDown
  dsimp only at hwalk ⊢
  refine ⟨?_, ?_, hwalk.gestures, hwalk.chords, hwalk.sequences, hwalk.ids, hwalk.resync, ?_, ?_⟩
  · rw [maskIfSwallowedUnderAltOrWin_fire, maskIfSwallowedUnderAltOrWin_fire]
    exact hwalk.fire
  · rw [maskIfSwallowedUnderAltOrWin_timers, maskIfSwallowedUnderAltOrWin_timers]
    exact hwalk.timers
  · rw [followRecord_active, followRecord_active, hwalk.keys]
  · intro v hv
    rw [followRecord_lastDown_ne _ hv, followRecord_lastDown_ne _ hv, hwalk.keys]

/-! ## An auto-repeat -/

/-- Only the winner fires on an auto-repeat. -/
theorem visitOther_repeat {k : KeyDown α} (hrepeat : k.wasRepeat = true)
    (acc : Engine α × Decision α) (b : Binding α) : (visitOther k acc b).2.fire = acc.2.fire := by
  unfold visitOther
  cases b.kind with
  | combo combo =>
    dsimp only
    cases b.autoBlocker with
    | some mode => exact (visitBlocker_alike k combo mode b.condition acc.1 acc.2).fire
    | none => rfl
  | sequence steps maxGap =>
    dsimp only
    unfold visitSequence
    rw [hrepeat, Bool.true_or, if_pos rfl]
  | chord keys window =>
    dsimp only
    unfold visitChord
    rw [hrepeat, Bool.true_or, if_pos rfl]

theorem visitsOther_repeat {k : KeyDown α} (hrepeat : k.wasRepeat = true) (bs : List (Binding α))
    (acc : Engine α × Decision α) : (bs.foldl (visitOther k) acc).2.fire = acc.2.fire := by
  induction bs generalizing acc with
  | nil => rfl
  | cons b bs ih => rw [List.foldl_cons, ih, visitOther_repeat hrepeat]

/-- What a winner fires on an auto-repeat. -/
def repeatFire (winner : Option (Winner α)) : List α :=
  ((winner.filter fun w => w.binding.trigger.isImmediate && w.binding.repeats).map
    fun w => w.binding.action).toList

theorem walk_repeat (e : Engine α) (vk : VirtualKey) (env : Env) (bindings : List (Binding α)) :
    (e.walk ⟨vk, env, true, elect vk bindings e.keys env.foreground⟩ bindings).2.fire =
      repeatFire (elect vk bindings e.keys env.foreground) := by
  rcases elect_cases vk bindings e.keys env.foreground with ⟨hnone, -⟩ | ⟨as, b, bs, rfl, hwins⟩
  · rw [hnone, walk_none e rfl, visitsOther_repeat rfl]
    rfl
  · rw [elect_of_wins hwins, walk_winner e rfl (competes_user hwins.stands), visitsOther_repeat rfl]
    have hfire : (as.foldl (visitOther ⟨vk, env, true, some ⟨as.length, b⟩⟩)
        (e, .default)).2.fire = [] := visitsOther_repeat rfl as _
    dsimp only
    unfold visitWinner repeatFire
    rw [Option.filter_some]
    cases himmediate : b.trigger.isImmediate with
    | false => simpa using hfire
    | true =>
      cases hrepeats : b.repeats with
      | false => cases b.blockDefault <;> simpa [Decision.swallow] using hfire
      | true =>
        cases b.blockDefault <;> simpa [Decision.swallow, Decision.push] using hfire

/-- What an auto-repeat fires. -/
theorem onKey_repeat_fire (e : Engine α) (vk : VirtualKey) (bindings : List (Binding α))
    (env : Env) (hactive : e.keys.isActive vk = true) :
    (e.onKey ⟨vk, .down⟩ bindings env).2.fire =
      repeatFire (elect vk bindings (e.heldAt vk env) env.foreground) := by
  have hrepeat : ((e.keys.clearReleasedModifiers env vk .all).press vk).1 = true := by
    rw [KeyState.press_wasActive, check_isActive]
    exact hactive
  have hwalk := walk_repeat
    { e with maskOwed := false, resync := e.resync.event vk true, keys := e.heldAt vk env } vk env
    bindings
  show (onKeyDown _ vk bindings env).2.fire = _
  unfold onKeyDown
  dsimp only at hwalk ⊢
  rw [maskIfSwallowedUnderAltOrWin_fire, hrepeat]
  exact hwalk

/-! ## The result -/

/-- **Only the winner acts.** The decision of a key-down and the engine it leaves
are those for the list without the `keys` user bindings that neither win it nor
are in the winner's gesture group; without the auto-blockers too, only the
suppression, the masks and the record of the key pressed may differ; and an
auto-repeat fires nothing but an `Immediate` winner with `repeat`. -/
theorem only_winner_acts (e : Engine α) (vk : VirtualKey) (bindings : List (Binding α))
    (env : Env) :
    let held := e.heldAt vk env
    let acting := onlyActing vk bindings held env.foreground
    let decided := e.onKey ⟨vk, .down⟩ bindings env
    e.onKey ⟨vk, .down⟩ acting env = decided ∧
      SameButBlocking vk (e.onKey ⟨vk, .down⟩ (withoutBlockers acting) env) decided ∧
      (e.keys.isActive vk = true →
        decided.2.fire = repeatFire (elect vk bindings held env.foreground)) := by
  intro held acting decided
  have hacting : e.onKey ⟨vk, .down⟩ acting env = decided := by
    have hwalk := walk_onlyActing
      { e with maskOwed := false, resync := e.resync.event vk true, keys := held } vk env
      ((e.keys.clearReleasedModifiers env vk .all).press vk).1 bindings
    show (_, _) = (_, _)
    unfold onKeyDown
    dsimp only at hwalk ⊢
    have hheld : ((e.keys.clearReleasedModifiers env vk .all).press vk).2 = held := rfl
    rw [hheld, hwalk]
  refine ⟨hacting, ?_, fun hactive => ?_⟩
  · rw [← hacting]
    have h := onKeyDown_withoutBlockers
      { e with maskOwed := false, resync := e.resync.event vk true,
               keys := e.keys.clearReleasedModifiers env vk .all } vk acting env
    exact ⟨h.fire, h.timers, h.gestures, h.chords, h.sequences, h.ids, h.resync, h.active,
      h.lastDown⟩
  · exact onKey_repeat_fire e vk bindings env hactive

/-- `Shift+A`, `A` alone with `repeat`, and an auto-blocker of `A`. -/
def repeatsOnA : List (Binding Nat) :=
  [⟨.combo ⟨[.anySide .shift, .key 0x41]⟩, 1, true, .always, .immediate, false, true, none⟩,
    ⟨.combo ⟨[.key 0x41]⟩, 2, false, .always, .immediate, false, true, none⟩,
    ⟨.combo ⟨[.key 0x41]⟩, 0, true, .always, .immediate, true, false, some .swallow⟩]

/-- An auto-repeat of `A` fires the binding of `A` alone. -/
theorem only_winner_acts_repeat :
    (({ new with keys := (KeyState.new.setActive 0x41 true) } : Engine Nat).onKey
      ⟨0x41, .down⟩ repeatsOnA ⟨5, fun _ => true, ⟨none, none, id⟩⟩).2.fire = [2] :=
  (only_winner_acts { new with keys := (KeyState.new.setActive 0x41 true) } 0x41 repeatsOnA
    ⟨5, fun _ => true, ⟨none, none, id⟩⟩).2.2 (by decide)

end KeySwitch.Engine
