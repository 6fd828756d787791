import KeySwitch.Engine.OnlyWinner

/-!
# A repeated `keys` binding does nothing

The loader warns of a binding that repeats an earlier one: the same keys, trigger
kind, `when:` and `allowExtraModifiers`. A `keys` binding it warns of never acts.
It competes only where the earlier one does, with the same rank, and so does not
win; it joins a gesture group only where the earlier one does too, and finds its
trigger kind claimed; and its own visit does nothing. Without it every call into
the engine decides the same and leaves the same state.

That the lists are sorted by specificity is not needed, only that the repeated
binding stands after the one it repeats.
-/

namespace KeySwitch.Engine

open Data Lib

variable {α : Type}

/-- A `keys` binding that repeats `earlier`. -/
structure Repeats (b earlier : Binding α) : Prop where
  combo : ∃ keys, b.kind = .combo keys ∧ keys.Distinct
  duplicates : b.duplicates earlier = true

/-- `bindings'` is `bindings` without a `keys` binding that repeats one before it. -/
def RepeatTakenOut (bindings bindings' : List (Binding α)) : Prop :=
  ∃ (as bs : List (Binding α)) (b earlier : Binding α), bindings = as ++ b :: bs ∧
    bindings' = as ++ bs ∧ earlier ∈ as ∧ Repeats b earlier

/-! ## What the two have in common -/

/-- All that the engine asks of a `keys` binding before its action. -/
structure Twins (b earlier : Binding α) : Prop where
  user : isUserCombo b = true
  earlierUser : isUserCombo earlier = true
  keys : ∃ keys keys', b.kind = .combo keys ∧ earlier.kind = .combo keys' ∧
    keys.keys.Perm keys'.keys
  trigger : b.trigger.sameKind earlier.trigger = true
  condition : b.condition = earlier.condition
  extra : b.allowExtraModifiers = earlier.allowExtraModifiers

theorem twins_of_repeats {b earlier : Binding α} (h : Repeats b earlier) : Twins b earlier := by
  obtain ⟨⟨keys, hkind, hdistinct⟩, hdup⟩ := h
  unfold Binding.duplicates at hdup
  rw [hkind] at hdup
  simp only [Bool.and_eq_true, Bool.not_eq_true', decide_eq_true_eq, beq_iff_eq] at hdup
  obtain ⟨⟨⟨⟨⟨huser, hearlier⟩, hkeys⟩, htrigger⟩, hcondition⟩, hextra⟩ := hdup
  unfold Binding.isAutoBlocker at huser hearlier
  cases hkind' : earlier.kind with
  | combo keys' =>
    rw [hkind'] at hkeys
    exact ⟨isUserCombo_iff.mpr ⟨keys, hkind, by simpa using huser⟩,
      isUserCombo_iff.mpr ⟨keys', hkind', by simpa using hearlier⟩,
      ⟨keys, keys', hkind, hkind', KeyCombination.perm_of_eq hdistinct hkeys⟩, htrigger,
      hcondition, hextra⟩
  | sequence steps maxGap =>
    rw [hkind'] at hkeys
    exact absurd hkeys (by simp [BindingKind.sameKeys])
  | chord keys window =>
    rw [hkind'] at hkeys
    exact absurd hkeys (by simp [BindingKind.sameKeys])

/-- The order of its keys is nothing to whether a combination matches. -/
theorem comboMatches_perm {a b : KeyCombination} (h : a.keys.Perm b.keys) (vk : VirtualKey)
    (held : KeyState) (allow : Bool) :
    comboMatches a vk held allow = comboMatches b vk held allow := by
  have honly : a.isModifierOnly = b.isModifierOnly := h.all_eq
  unfold comboMatches isTriggerKey keysDown
  rw [KeyCombination.modifiers_perm h, honly, h.all_eq, h.any_eq]

variable {b earlier : Binding α}

theorem twins_competes (h : Twins b earlier) (vk : VirtualKey) (held : KeyState)
    (foreground : ForegroundInfo) :
    competes vk held foreground b = competes vk held foreground earlier := by
  obtain ⟨keys, keys', hkind, hkind', hperm⟩ := h.keys
  obtain ⟨_, _, hmode⟩ := isUserCombo_iff.mp h.user
  obtain ⟨_, _, hmode'⟩ := isUserCombo_iff.mp h.earlierUser
  unfold competes Binding.isAutoBlocker
  rw [hkind, hkind', hmode, hmode']
  dsimp only
  rw [comboMatches_perm hperm, h.condition, h.extra]

theorem twins_rank (h : Twins b earlier) : rank b = rank earlier := by
  obtain ⟨keys, keys', hkind, hkind', hperm⟩ := h.keys
  unfold rank
  rw [hkind, hkind', h.condition]
  exact congrArg (·, _) hperm.length_eq

theorem sameKind_isImmediate {t t' : Trigger} (h : t.sameKind t' = true) :
    t.isImmediate = t'.isImmediate := by
  cases t <;> cases t' <;> simp [Trigger.sameKind, Trigger.isImmediate] at *

theorem eq_perm_left {a b c : KeyCombination} (h : a.keys.Perm b.keys) : a.eq c = b.eq c := by
  unfold KeyCombination.eq
  rw [h.length_eq, h.all_eq]

theorem twins_joins (h : Twins b earlier) (winner : Binding α) (vk : VirtualKey)
    (held : KeyState) : joins winner b vk held = joins winner earlier vk held := by
  obtain ⟨keys, keys', hkind, hkind', hperm⟩ := h.keys
  unfold joins
  rw [Binding.combination_eq_some.mpr hkind, Binding.combination_eq_some.mpr hkind',
    sameKind_isImmediate h.trigger]
  cases winner.combination with
  | none => rfl
  | some winnerCombo =>
    dsimp only
    rw [eq_perm_left hperm, comboMatches_perm hperm, h.condition, h.extra]

/-! ## The group: the trigger kind is claimed -/

/-- A trigger of this kind has acted on this key-down. -/
def Claimed (arms : GroupArms) (t : Trigger) : Prop := arms.claim t = (false, arms)

theorem claim_claims {t t' : Trigger} (h : t.sameKind t' = true) (hdeferred : t.isImmediate = false)
    (arms : GroupArms) : Claimed (arms.claim t').2 t := by
  unfold Claimed
  cases t <;> cases t' <;> simp [Trigger.sameKind, Trigger.isImmediate, GroupArms.claim] at *

theorem claim_keeps {t : Trigger} {arms : GroupArms} (h : Claimed arms t) (t' : Trigger) :
    Claimed (arms.claim t').2 t := by
  unfold Claimed at *
  obtain ⟨tap, hold, doubleTap⟩ := arms
  cases t <;> cases t' <;> simp [GroupArms.claim] at h ⊢ <;> exact h

theorem claimStep_claims {acc : GroupArms × GroupArming α} {t : Trigger}
    (ht : t.sameKind earlier.trigger = true) (hdeferred : t.isImmediate = false) :
    Claimed (claimStep acc earlier).1 t := claim_claims ht hdeferred acc.1

theorem joinSteps_keep {winner : Binding α} {vk : VirtualKey} {held : KeyState} {t : Trigger}
    (bs : List (Binding α)) {acc : GroupArms × GroupArming α} (h : Claimed acc.1 t) :
    Claimed (bs.foldl (joinStep winner vk held) acc).1 t := by
  induction bs generalizing acc with
  | nil => exact h
  | cons c bs ih =>
    refine ih ?_
    unfold joinStep
    split
    · exact h
    · exact claim_keeps h c.trigger

/-- The scan passes over a repeated binding once the earlier one has had its turn. -/
theorem joinStep_idle {winner : Binding α} {vk : VirtualKey} {held : KeyState}
    {acc : GroupArms × GroupArming α}
    (h : joins winner b vk held = true → Claimed acc.1 b.trigger) :
    joinStep winner vk held acc b = acc := by
  unfold joinStep
  split
  · rfl
  · next hacts =>
    rw [Bool.not_eq_true, Bool.or_eq_false_iff, Bool.not_eq_false'] at hacts
    have hclaim : acc.1.claim b.trigger = (false, acc.1) := h hacts.2
    unfold claimStep
    rw [hclaim]
    rfl

/-- A member of the group has a deferred trigger. -/
theorem joins_deferred {winner : Binding α} {vk : VirtualKey} {held : KeyState}
    (h : joins winner b vk held = true) : b.trigger.isImmediate = false := by
  unfold joins at h
  cases hb : b.trigger.isImmediate with
  | false => rfl
  | true =>
    rw [hb, Bool.or_true] at h
    exact absurd h (by simp)

/-- A member of the group that competes has the winner's rank. -/
theorem joins_rank {winner : Binding α} {vk : VirtualKey} {held : KeyState}
    (h : joins winner b vk held = true) : rank b = rank winner := by
  unfold joins at h
  rw [Bool.and_eq_true] at h
  have hmatch := h.2
  split at hmatch
  · next combo winnerCombo hcombo hwinnerCombo =>
    simp only [Bool.and_eq_true, decide_eq_true_eq] at hmatch
    have hlength : combo.keys.length = winnerCombo.keys.length := by
      have heq := hmatch.1.1
      unfold KeyCombination.eq at heq
      rw [Bool.and_eq_true, beq_iff_eq] at heq
      exact heq.1
    unfold rank
    rw [Binding.combination_eq_some.mp hcombo, Binding.combination_eq_some.mp hwinnerCombo,
      hmatch.1.2]
    exact congrArg (·, _) hlength
  · exact absurd hmatch (by decide)

/-- A user binding that joins the group of a winner competes with it. -/
theorem joins_competes {winner : Binding α} {vk : VirtualKey} {held : KeyState}
    {foreground : ForegroundInfo} (hwinner : competes vk held foreground winner = true)
    (huser : isUserCombo b = true) (h : joins winner b vk held = true) :
    competes vk held foreground b = true := by
  obtain ⟨combo, hkind, hmode⟩ := isUserCombo_iff.mp huser
  obtain ⟨winnerCombo, hwinnerKind, -⟩ := isUserCombo_iff.mp (competes_user hwinner)
  have hcondition : winner.condition.evaluate foreground = true := by
    unfold competes at hwinner
    rw [hwinnerKind] at hwinner
    dsimp only at hwinner
    rw [Bool.and_eq_true] at hwinner
    exact hwinner.2
  unfold joins at h
  rw [Bool.and_eq_true, Binding.combination_eq_some.mpr hkind,
    Binding.combination_eq_some.mpr hwinnerKind] at h
  have hmatch := h.2
  simp only [Bool.and_eq_true, decide_eq_true_eq] at hmatch
  unfold competes Binding.isAutoBlocker
  rw [hkind, hmode]
  dsimp only
  rw [hmatch.2, hmatch.1.2, hcondition]
  rfl

/-! ## One key-down -/

/-- The group of a winner that stands before the repeated binding. -/
theorem groupOf_repeat {w : Binding α} {vk : VirtualKey} {held : KeyState}
    {foreground : ForegroundInfo} {xs zs bs : List (Binding α)} (htwins : Twins b earlier)
    (hwins : Wins vk held foreground xs w (zs ++ bs))
    (hearlier : earlier ∈ xs ∨ earlier = w ∨ earlier ∈ zs) :
    groupOf w vk held (zs ++ b :: bs) = groupOf w vk held (zs ++ bs) := by
  unfold groupOf
  split
  · rfl
  · congr 1
    funext keys
    rw [List.foldl_append, List.foldl_cons, List.foldl_append, joinStep_idle]
    intro hjoins
    have hjoins' := hjoins
    rw [twins_joins htwins] at hjoins'
    have hdeferred := joins_deferred hjoins
    rcases hearlier with hbefore | rfl | hafter
    · -- It would have won in the winner's place.
      have hcompetes := joins_competes hwins.stands htwins.earlierUser hjoins'
      have hworse := hwins.before earlier hbefore hcompetes
      unfold outranks at hworse
      rw [joins_rank hjoins'] at hworse
      have hself := outranks_preorder.total w w
      rw [or_self] at hself
      exact absurd (hself.symm.trans hworse) (by decide)
    · exact joinSteps_keep zs (claimStep_claims htwins.trigger hdeferred)
    · obtain ⟨ys, ys', rfl⟩ := List.append_of_mem hafter
      rw [List.foldl_append, List.foldl_cons]
      refine joinSteps_keep ys' ?_
      obtain ⟨_, _, hmode⟩ := isUserCombo_iff.mp htwins.earlierUser
      have hblocker : earlier.isAutoBlocker = false := by
        unfold Binding.isAutoBlocker
        rw [hmode]
        rfl
      unfold joinStep
      rw [hblocker, hjoins', if_neg (by decide)]
      exact claimStep_claims htwins.trigger hdeferred

/-- The winner stands after the repeated binding, which would have its rank's place
only where the earlier one has. -/
theorem walk_repeated_after (e : Engine α) (vk : VirtualKey) (env : Env) (wasRepeat : Bool)
    {as zs ys : List (Binding α)} {w : Binding α} (htwins : Twins b earlier)
    (hmem : earlier ∈ as) (hwins : Wins vk e.keys env.foreground (as ++ zs) w ys) :
    e.walk ⟨vk, env, wasRepeat, elect vk (as ++ b :: zs ++ w :: ys) e.keys env.foreground⟩
        (as ++ b :: zs ++ w :: ys) =
      e.walk ⟨vk, env, wasRepeat, elect vk (as ++ zs ++ w :: ys) e.keys env.foreground⟩
        (as ++ zs ++ w :: ys) := by
  have huser := competes_user hwins.stands
  have hworse : competes vk e.keys env.foreground b = true → outranks b w = false := by
    intro hb
    unfold outranks
    rw [twins_rank htwins]
    rw [twins_competes htwins] at hb
    exact hwins.before earlier (List.mem_append_left _ hmem) hb
  have hwins' : Wins vk e.keys env.foreground (as ++ b :: zs) w ys := by
    refine ⟨hwins.stands, fun a ha hstands => ?_, hwins.after⟩
    rcases List.mem_append.mp ha with ha | ha
    · exact hwins.before a (List.mem_append_left _ ha) hstands
    · rcases List.mem_cons.mp ha with rfl | ha
      · exact hworse hstands
      · exact hwins.before a (List.mem_append_right _ ha) hstands
  rw [elect_of_wins hwins', elect_of_wins hwins, walk_winner e rfl huser, walk_winner e rfl huser,
    List.foldl_append, List.foldl_cons, visitOther_user htwins.user, List.foldl_append]
  rfl

/-- The winner stands before the repeated binding, which joins its group in vain. -/
theorem walk_repeated_before (e : Engine α) (vk : VirtualKey) (env : Env) (wasRepeat : Bool)
    {xs zs bs : List (Binding α)} {w : Binding α} (htwins : Twins b earlier)
    (hmem : earlier ∈ xs ++ w :: zs) (hwins : Wins vk e.keys env.foreground xs w (zs ++ bs)) :
    e.walk ⟨vk, env, wasRepeat, elect vk (xs ++ w :: (zs ++ b :: bs)) e.keys env.foreground⟩
        (xs ++ w :: (zs ++ b :: bs)) =
      e.walk ⟨vk, env, wasRepeat, elect vk (xs ++ w :: (zs ++ bs)) e.keys env.foreground⟩
        (xs ++ w :: (zs ++ bs)) := by
  have huser := competes_user hwins.stands
  have hearlier : earlier ∈ xs ∨ earlier = w ∨ earlier ∈ zs := by simpa using hmem
  have hworse : competes vk e.keys env.foreground b = true → outranks w b = true := by
    intro hb
    rw [twins_competes htwins] at hb
    have hge : outranks w earlier = true := by
      rcases hearlier with hbefore | rfl | hafter
      · have hno := hwins.before earlier hbefore hb
        rcases outranks_preorder.total earlier w with hge | hge
        · exact absurd (hge.symm.trans hno) (by decide)
        · exact hge
      · have hself := outranks_preorder.total earlier earlier
        rwa [or_self] at hself
      · exact hwins.after earlier (List.mem_append_left _ hafter) hb
    unfold outranks at hge ⊢
    rw [twins_rank htwins]
    exact hge
  have hwins' : Wins vk e.keys env.foreground xs w (zs ++ b :: bs) := by
    refine ⟨hwins.stands, hwins.before, fun c hc hstands => ?_⟩
    rcases List.mem_append.mp hc with hc | hc
    · exact hwins.after c (List.mem_append_left _ hc) hstands
    · rcases List.mem_cons.mp hc with rfl | hc
      · exact hworse hstands
      · exact hwins.after c (List.mem_append_right _ hc) hstands
  rw [elect_of_wins hwins', elect_of_wins hwins, walk_winner e rfl huser, walk_winner e rfl huser,
    groupOf_repeat htwins hwins hearlier, List.foldl_append, List.foldl_cons,
    visitOther_user htwins.user, List.foldl_append]

/-- A walk without a repeated `keys` binding is the walk with it. -/
theorem walk_repeated (e : Engine α) (vk : VirtualKey) (env : Env) (wasRepeat : Bool)
    {as : List (Binding α)} (bs : List (Binding α)) (htwins : Twins b earlier)
    (hmem : earlier ∈ as) :
    e.walk ⟨vk, env, wasRepeat, elect vk (as ++ b :: bs) e.keys env.foreground⟩ (as ++ b :: bs) =
      e.walk ⟨vk, env, wasRepeat, elect vk (as ++ bs) e.keys env.foreground⟩ (as ++ bs) := by
  rcases elect_cases vk (as ++ bs) e.keys env.foreground with
    ⟨hnone, hno⟩ | ⟨xs, w, ys, hsplit, hwins⟩
  · have hno' : ∀ c ∈ as ++ b :: bs, competes vk e.keys env.foreground c = false := by
      intro c hc
      rcases List.mem_append.mp hc with hc | hc
      · exact hno c (List.mem_append_left _ hc)
      · rcases List.mem_cons.mp hc with rfl | hc
        · rw [twins_competes htwins]
          exact hno earlier (List.mem_append_left _ hmem)
        · exact hno c (List.mem_append_right _ hc)
    rw [elect_none hno', hnone, walk_none e rfl, walk_none e rfl, List.foldl_append,
      List.foldl_cons, visitOther_user htwins.user, List.foldl_append]
  · have hafter : ∀ zs, xs = as ++ zs → bs = zs ++ w :: ys →
        e.walk ⟨vk, env, wasRepeat, elect vk (as ++ b :: bs) e.keys env.foreground⟩
            (as ++ b :: bs) =
          e.walk ⟨vk, env, wasRepeat, elect vk (as ++ bs) e.keys env.foreground⟩ (as ++ bs) := by
      rintro zs rfl rfl
      have h := walk_repeated_after e vk env wasRepeat htwins hmem hwins
      rwa [List.append_assoc, List.append_assoc, List.cons_append] at h
    rcases List.append_eq_append_iff.mp hsplit with ⟨zs, hxs, hbs⟩ | ⟨zs, has, hys⟩
    · exact hafter zs hxs hbs
    · cases zs with
      | nil => exact hafter [] (by simpa using has.symm) hys.symm
      | cons w' zs =>
        obtain ⟨rfl, rfl⟩ := List.cons.inj hys
        subst has
        have h := walk_repeated_before e vk env wasRepeat htwins hmem hwins
        rwa [List.append_assoc, List.append_assoc, List.cons_append, List.cons_append]

/-! ## Every call, every run -/

theorem onKey_repeated (e : Engine α) (event : KeyEvent) (env : Env)
    {bindings bindings' : List (Binding α)} (h : RepeatTakenOut bindings bindings') :
    e.onKey event bindings env = e.onKey event bindings' env := by
  obtain ⟨as, bs, b, earlier, rfl, rfl, hmem, hrepeats⟩ := h
  have hdown : ∀ (e : Engine α) (vk : VirtualKey),
      e.onKeyDown vk (as ++ b :: bs) env = e.onKeyDown vk (as ++ bs) env := by
    intro e vk
    have hwalk := walk_repeated { e with keys := (e.keys.press vk).2 } vk env (e.keys.press vk).1
      bs (twins_of_repeats hrepeats) hmem
    dsimp only at hwalk
    unfold onKeyDown
    dsimp only
    rw [hwalk]
  unfold onKey
  cases event.direction with
  | down =>
    dsimp only
    rw [hdown]
  | up => rfl

/-- `op'` is the call `op`, or a key event decided over its list without a `keys`
binding that repeats an earlier one. -/
inductive RepeatDropped : Op α → Op α → Prop
  | same (op : Op α) : RepeatDropped op op
  | key (event : KeyEvent) (env : Env) {bindings bindings' : List (Binding α)}
      (h : RepeatTakenOut bindings bindings') :
      RepeatDropped (.key event bindings env) (.key event bindings' env)

theorem step_repeated (e : Engine α) {op op' : Op α} (h : RepeatDropped op op') :
    e.step op = e.step op' := by
  cases h with
  | same => rfl
  | key event env h => exact onKey_repeated e event env h

/-- **A repeated `keys` binding is inert**: over any run, from any state, every call
decides the same without it and leaves the same state. -/
theorem repeated_binding_inert (e : Engine α) {ops ops' : List (Op α)}
    (h : List.Forall₂ RepeatDropped ops ops') :
    (operations.trace e ops).map (fun m => (m.output, m.after)) =
      (operations.trace e ops').map fun m => (m.output, m.after) := by
  induction h generalizing e with
  | nil => rfl
  | @cons op op' ops ops' hop _ ih =>
    have hmoment : operations.step e op = operations.step e op' := step_repeated e hop
    rw [Machine.trace_cons, Machine.trace_cons, List.map_cons, List.map_cons]
    dsimp only [Machine.moment_output, Machine.moment_after]
    rw [hmoment, ih]

/-- A `Hold` of Shift+F1 twice, the second time with its keys in the other order and
another term, action and `blockDefault`, and a `Tap` of F1. -/
def holdTwice : List (Binding Nat) :=
  [⟨.combo ⟨[.anySide .shift, .key 0x70]⟩, 1, true, .always, .hold 300, false, false, none⟩,
    ⟨.combo ⟨[.key 0x70, .anySide .shift]⟩, 2, false, .always, .hold 500, false, true, none⟩,
    ⟨.combo ⟨[.key 0x70]⟩, 3, true, .always, .tap 200, false, false, none⟩]

/-- Windows with no key down and no window in the foreground. -/
def quietEnv : Env := ⟨0, fun _ => false, ⟨none, none, id⟩⟩

theorem repeated_binding_inert_holdTwice :
    (operations.trace Engine.new
        [.key ⟨VK_LSHIFT, .down⟩ holdTwice quietEnv, .key ⟨0x70, .down⟩ holdTwice quietEnv]).map
        (fun m => (m.output, m.after)) =
      (operations.trace Engine.new
        [.key ⟨VK_LSHIFT, .down⟩ (holdTwice.eraseIdx 1) quietEnv,
          .key ⟨0x70, .down⟩ (holdTwice.eraseIdx 1) quietEnv]).map
        fun m => (m.output, m.after) := by
  have hdropped : RepeatTakenOut holdTwice (holdTwice.eraseIdx 1) := by
    refine ⟨holdTwice.take 1, holdTwice.drop 2, _, _, rfl, rfl, List.mem_singleton.mpr rfl,
      ⟨_, rfl, ?_⟩, ?_⟩
    · unfold KeyCombination.Distinct
      decide
    · decide
  exact repeated_binding_inert Engine.new
    (.cons (.key _ _ hdropped) (.cons (.key _ _ hdropped) .nil))

end KeySwitch.Engine
