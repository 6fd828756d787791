import KeySwitch.Executor.PasteWaits

/-!
# A paste ends

Each of a paste's waits has a budget of its own, and the waits can follow each other in
any order the code allows. The failed opens are counted by the paste itself; the waits
for the modifiers are `MODIFIER_POLL` apart within `MODIFIER_LIMIT`; and a wait for the
restore of the paste before ends with a tick that moves that restore's deadline.

`Going` is what a paste that may be tried again has kept of its waits, read off the
tries so far. One step lemma for each kind of wait keeps it and pays the try from its
budget; `triedFrom_budgets` is the induction over the tries, and `paste_ends` adds the
budgets up.
-/

namespace KeySwitch.Executor

open Data Lib Dialogue

/-! ## The clock between tries -/

/-- No later call of the paste is before `time`. -/
def Reached (tries : List PasteTry) (time : Instant) : Prop :=
  (∃ now ∈ clock tries, time ≤ now) ∨
    ∃ last deadline, tries.getLast? = some last ∧ last.deadline? = some deadline ∧ time ≤ deadline

section Clock

variable {tries : List PasteTry} {t : PasteTry}

theorem mem_times_of_poll {poll : Poll × List PortCall} (h : poll ∈ t.polls) :
    poll.1.time ∈ t.times :=
  List.mem_append_left _ (List.mem_map.mpr ⟨poll, h, rfl⟩)

theorem clock_le (hclock : (clock (tries ++ [t])).Pairwise (· ≤ ·)) {early late : Instant}
    (hearly : early ∈ clock tries) (hlate : late ∈ t.times) : early ≤ late := by
  rw [clock_snoc, List.pairwise_append] at hclock
  exact hclock.2.2 early hearly late hlate

/-- Within a try the polls come first. -/
theorem poll_le (hclock : (clock (tries ++ [t])).Pairwise (· ≤ ·)) {poll : Poll × List PortCall}
    (hpoll : poll ∈ t.polls) {now : Instant} (hnow : now ∈ t.calls.filterMap nowOf) :
    poll.1.time ≤ now := by
  rw [clock_snoc, List.pairwise_append] at hclock
  have htimes := hclock.2.1
  unfold PasteTry.times at htimes
  rw [List.pairwise_append] at htimes
  exact htimes.2.2 _ (List.mem_map.mpr ⟨poll, hpoll, rfl⟩) now hnow

theorem Reached.le {time now : Instant} (h : Reached tries time) (hticked : Ticked tries t)
    (hclock : (clock (tries ++ [t])).Pairwise (· ≤ ·)) (hnow : now ∈ t.calls.filterMap nowOf) :
    time ≤ now := by
  rcases h with ⟨early, hearly, hle⟩ | ⟨last, deadline, hlast, hdeadline, hle⟩
  · exact Nat.le_trans hle (clock_le hclock hearly (List.mem_append_right _ hnow))
  · obtain ⟨deadline', hdeadline', poll, hpoll, tick, htick, hat⟩ := hticked last hlast
    obtain rfl := Option.some.inj (hdeadline.symm.trans hdeadline')
    have htime : poll.1.time = tick := by rw [htick]; rfl
    exact Nat.le_trans hle (Nat.le_trans hat (htime ▸ poll_le hclock hpoll hnow))

theorem Reached.snoc {time : Instant} (h : Reached tries time) (hticked : Ticked tries t) :
    Reached (tries ++ [t]) time := by
  refine Or.inl ?_
  rw [clock_snoc]
  rcases h with ⟨early, hearly, hle⟩ | ⟨last, deadline, hlast, hdeadline, hle⟩
  · exact ⟨early, List.mem_append_left _ hearly, hle⟩
  · obtain ⟨deadline', hdeadline', poll, hpoll, tick, htick, hat⟩ := hticked last hlast
    obtain rfl := Option.some.inj (hdeadline.symm.trans hdeadline')
    have htime : poll.1.time = tick := by rw [htick]; rfl
    exact ⟨_, List.mem_append_right _ (mem_times_of_poll hpoll), by
      rw [htime]
      exact Nat.le_trans hle hat⟩

end Clock

/-! ## The budgets -/

/-- All of `tries` are before the limit that starts with the first of them. -/
def WithinLimit (limit : Duration) (tries : List PasteTry) : Prop :=
  ∀ first, tries.head? = some first → ∀ t ∈ tries, t.time < first.time + limit

theorem WithinLimit.snoc {limit : Duration} {tries : List PasteTry} {t : PasteTry}
    (h : WithinLimit limit tries)
    (hnow : t.time < ((tries.head?.map PasteTry.time).getD t.time) + limit) :
    WithinLimit limit (tries ++ [t]) := by
  intro first hfirst t' ht'
  cases tries with
  | nil =>
    cases hfirst
    rw [List.mem_singleton.mp ht']
    exact hnow
  | cons head rest =>
    cases hfirst
    rcases List.mem_append.mp ht' with ht' | ht'
    · exact h _ rfl t' ht'
    · rw [List.mem_singleton.mp ht']
      exact hnow

/-- The most tries that wait for the restore of the paste before. -/
def CHAIN_WAITS : Nat := CHAIN_WAIT_LIMIT / SETTLE + 1

/-- The most tries that wait for the modifiers. -/
def MODIFIER_WAITS : Nat := MODIFIER_LIMIT / MODIFIER_POLL

/-- What the waits of a paste keep to. -/
structure WithinBudgets (tries : List PasteTry) : Prop where
  chain : WithinLimit CHAIN_WAIT_LIMIT (waits .chain tries)
  /-- A wait for the restore of the paste before is over at its limit. -/
  chainDeadline : ∀ first, (waits .chain tries).head? = some first → ∀ t ∈ waits .chain tries,
    ∀ deadline, t.deadline? = some deadline → deadline ≤ first.time + CHAIN_WAIT_LIMIT
  modifiers : WithinLimit MODIFIER_LIMIT (waits .modifiers tries)
  chainCount : (waits .chain tries).length ≤ CHAIN_WAITS
  modifiersCount : (waits .modifiers tries).length ≤ MODIFIER_WAITS
  opens : (waits .opened tries).length ≤ OPEN_BACKOFF.length

/-- A paste that waits for the restore `pending` of the one before, since `since`. -/
structure ChainWaits (tries : List PasteTry) (s : PasteSession) (since : Instant)
    (pending : Pending) : Prop where
  kept : s.pending = some pending
  waiting : pending.due = false
  started : ∃ now ∈ clock tries, since ≤ now
  last : ∃ last, tries.getLast? = some last ∧
    last.deadline? = some (min pending.restoreAt (since + CHAIN_WAIT_LIMIT))
  /-- Each wait but the first moved the deadline, until it is at the hard limit. -/
  moved : (waits .chain tries).length = 1 ∨
    since + ((waits .chain tries).length - 1) * SETTLE ≤ pending.restoreAt ∨
    pending.hardLimit ≤ pending.restoreAt

/-- What a paste that may be tried again has kept of its waits. -/
structure Going (tries : List PasteTry) (s : PasteSession) (state : Attempt) : Prop where
  opens : (waits .opened tries).length = state.openTries
  chainSince : state.chainSince = (waits .chain tries).head?.map PasteTry.time
  modifiersSince : state.modifiersSince = (waits .modifiers tries).head?.map PasteTry.time
  /-- The waits for the modifiers are `MODIFIER_POLL` apart. -/
  apart : ∀ since, state.modifiersSince = some since →
    Reached tries (since + (waits .modifiers tries).length * MODIFIER_POLL)
  chain : PasteSession.NoChain s state ∨ tries = [] ∨
    ∃ since pending, state.chainSince = some since ∧ ChainWaits tries s since pending

/-! ## One more try -/

section Step

variable {tries : List PasteTry} {s s' : PasteSession} {t : PasteTry} {state : Attempt}
  {now : Instant}

theorem withinBudgets_nil : WithinBudgets [] := by
  constructor
  · exact fun first h => absurd h (by simp [waits])
  · exact fun first h => absurd h (by simp [waits])
  · exact fun first h => absurd h (by simp [waits])
  · exact Nat.zero_le _
  · exact Nat.zero_le _
  · exact Nat.zero_le _

theorem going_nil (s : PasteSession) (foreground : TargetWindow) :
    Going [] s (.new foreground) := by
  constructor
  · rfl
  · rfl
  · rfl
  · exact fun since h => absurd h (by simp [Attempt.new])
  · exact Or.inr (Or.inl rfl)

/-- A try that is over adds to no wait. -/
theorem WithinBudgets.last (h : WithinBudgets tries) (hover : t.kind = none) :
    WithinBudgets (tries ++ [t]) := by
  have hsame : ∀ kind, waits kind (tries ++ [t]) = waits kind tries := by
    intro kind
    rw [waits_snoc, hover]
    exact List.append_nil _
  constructor
  · rw [hsame]
    exact h.chain
  · rw [hsame]
    exact h.chainDeadline
  · rw [hsame]
    exact h.modifiers
  · rw [hsame]
    exact h.chainCount
  · rw [hsame]
    exact h.modifiersCount
  · rw [hsame]
    exact h.opens

/-- A wait of one kind leaves the others as they were. -/
theorem waits_other {kind : WaitKind} (kind' : WaitKind) (hkind : t.kind = some kind)
    (hne : kind' ≠ kind) : waits kind' (tries ++ [t]) = waits kind' tries := by
  rw [waits_snoc, hkind, if_neg fun h => hne (Option.some.inj h).symm, List.append_nil]

theorem waits_same {kind : WaitKind} (hkind : t.kind = some kind) :
    waits kind (tries ++ [t]) = waits kind tries ++ [t] := by
  rw [waits_snoc, if_pos hkind]

/-- The first wait of a kind is when its budget starts. -/
theorem since_snoc {kind : WaitKind} {since : Option Instant}
    (hsince : since = (waits kind tries).head?.map PasteTry.time) (hkind : t.kind = some kind)
    (htime : t.time = now) :
    some (since.getD now) = (waits kind (tries ++ [t])).head?.map PasteTry.time := by
  rw [waits_same hkind, hsince]
  cases waits kind tries with
  | nil => simp [htime]
  | cons first rest => rfl

/-- **A failed open is paid from its budget.** -/
theorem opened_step (hbudgets : WithinBudgets tries) (h : Going tries s state)
    (hticked : Ticked tries t)
    (hwait : PasteSession.WaitPath s' state .opened now t.calls t.tried) :
    WithinBudgets (tries ++ [t]) ∧
      ∃ kept, t.tried.state = some kept ∧ Going (tries ++ [t]) t.tried.session kept := by
  obtain ⟨hkind, -, -⟩ := PasteTry.of_wait hwait
  have hchain : waits .chain (tries ++ [t]) = waits .chain tries :=
    waits_other .chain hkind (by simp)
  have hmodifiers : waits .modifiers (tries ++ [t]) = waits .modifiers tries :=
    waits_other .modifiers hkind (by simp)
  have hopened : waits .opened (tries ++ [t]) = waits .opened tries ++ [t] := waits_same hkind
  obtain ⟨state', hstate, hnone, hsince, hsince', hopens, hleft⟩ :
      ∃ state', t.tried.state = some state' ∧ PasteSession.NoChain t.tried.session state' ∧
        state'.chainSince = state.chainSince ∧ state'.modifiersSince = state.modifiersSince ∧
        state'.openTries = state.openTries + 1 ∧ state.openTries < OPEN_BACKOFF.length := by
    generalize t.calls = calls at hwait
    generalize t.tried = tried at hwait
    cases hwait with
    | opened before hchain hsince hmodifiers hopens hleft hdeadline =>
      exact ⟨_, rfl, hchain, hsince, hmodifiers, hopens, hleft⟩
  have hcount : (waits .opened (tries ++ [t])).length = state.openTries + 1 := by
    rw [hopened, List.length_append, h.opens]
    rfl
  refine ⟨⟨?_, ?_, ?_, ?_, ?_, ?_⟩, state', hstate, ⟨?_, ?_, ?_, ?_, Or.inl hnone⟩⟩
  · rw [hchain]
    exact hbudgets.chain
  · rw [hchain]
    exact hbudgets.chainDeadline
  · rw [hmodifiers]
    exact hbudgets.modifiers
  · rw [hchain]
    exact hbudgets.chainCount
  · rw [hmodifiers]
    exact hbudgets.modifiersCount
  · rw [hcount]
    exact hleft
  · rw [hcount, hopens]
  · rw [hsince, hchain]
    exact h.chainSince
  · rw [hsince', hmodifiers]
    exact h.modifiersSince
  · intro since hsome
    rw [hsince'] at hsome
    rw [hmodifiers]
    exact (h.apart since hsome).snoc hticked

theorem lt_since_add {now since limit : Nat} (h : now - since < limit) : now < since + limit := by
  omega

/-- A wait for the modifiers `MODIFIER_POLL` after the last, within the limit. -/
theorem modifiers_within {since now count : Nat} (hapart : since + count * MODIFIER_POLL ≤ now)
    (hwait : now - since < MODIFIER_LIMIT) : count + 1 ≤ MODIFIER_WAITS := by
  have hpoll : MODIFIER_POLL = 5000000 := rfl
  have hlimit : MODIFIER_LIMIT = 3000000000 := rfl
  have hwaits : MODIFIER_WAITS = 600 := rfl
  rw [hpoll] at hapart
  rw [hlimit] at hwait
  rw [hwaits]
  omega

/-- **A wait for the modifiers is paid from its budget.** -/
theorem modifiers_step (hbudgets : WithinBudgets tries) (h : Going tries s state)
    (hticked : Ticked tries t) (hclock : (clock (tries ++ [t])).Pairwise (· ≤ ·))
    (hwait : PasteSession.WaitPath s' state .modifiers now t.calls t.tried) :
    WithinBudgets (tries ++ [t]) ∧
      ∃ kept, t.tried.state = some kept ∧ Going (tries ++ [t]) t.tried.session kept := by
  obtain ⟨hkind, htime, hnow⟩ := PasteTry.of_wait hwait
  have hchain : waits .chain (tries ++ [t]) = waits .chain tries :=
    waits_other .chain hkind (by simp)
  have hopened : waits .opened (tries ++ [t]) = waits .opened tries :=
    waits_other .opened hkind (by simp)
  have hmodifiers : waits .modifiers (tries ++ [t]) = waits .modifiers tries ++ [t] :=
    waits_same hkind
  obtain ⟨state', htried, hsame, hnone, hlimit⟩ : ∃ state', t.tried = ⟨s',
        some { state' with modifiersSince := some (state.modifiersSince.getD now) },
        .waitUntil (now + MODIFIER_POLL)⟩ ∧
      PasteSession.SameBudgets state state' ∧ PasteSession.NoChain s' state' ∧
      now - state.modifiersSince.getD now < MODIFIER_LIMIT := by
    generalize t.calls = calls at hwait
    generalize t.tried = tried at hwait
    cases hwait with
    | modifiers before hbefore hsame hchain hwait => exact ⟨_, rfl, hsame, hchain, hwait⟩
  have hcount : (waits .modifiers (tries ++ [t])).length = (waits .modifiers tries).length + 1 := by
    rw [hmodifiers, List.length_append]
    rfl
  -- The waits so far are apart, so that their number is bounded by the time they took.
  have hapart : state.modifiersSince.getD now +
      (waits .modifiers tries).length * MODIFIER_POLL ≤ now := by
    cases hsince : state.modifiersSince with
    | some since => exact (h.apart since hsince).le hticked hclock hnow
    | none =>
      have hempty := h.modifiersSince
      rw [hsince] at hempty
      have hnil : waits .modifiers tries = [] := by
        rw [← List.head?_eq_none_iff]
        exact Option.map_eq_none_iff.mp hempty.symm
      rw [hnil]
      simp
  rw [htried]
  refine ⟨⟨?_, ?_, ?_, ?_, ?_, ?_⟩, _, rfl, ⟨?_, ?_, ?_, ?_, Or.inl hnone⟩⟩
  · rw [hchain]
    exact hbudgets.chain
  · rw [hchain]
    exact hbudgets.chainDeadline
  · rw [hmodifiers]
    refine hbudgets.modifiers.snoc ?_
    rw [htime, ← h.modifiersSince]
    exact lt_since_add hlimit
  · rw [hchain]
    exact hbudgets.chainCount
  · rw [hcount]
    exact modifiers_within hapart hlimit
  · rw [hopened]
    exact hbudgets.opens
  · rw [hopened, hsame.opens]
    exact h.opens
  · rw [hsame.chain, hchain]
    exact h.chainSince
  · exact since_snoc h.modifiersSince hkind htime
  · rintro since hsome
    cases hsome
    refine Or.inr ⟨t, now + MODIFIER_POLL, List.getLast?_concat, ?_, ?_⟩
    · unfold PasteTry.deadline?
      rw [htried]
    · rw [hcount, Nat.succ_mul, ← Nat.add_assoc]
      exact Nat.add_le_add_right hapart MODIFIER_POLL

/-- A restore that waits is polled past its deadline before each further wait for it. -/
theorem chain_within {since restoreAt count : Nat}
    (hmoved : count = 1 ∨ since + (count - 1) * SETTLE ≤ restoreAt)
    (hwait : restoreAt < since + CHAIN_WAIT_LIMIT) : count + 1 ≤ CHAIN_WAITS := by
  have hsettle : SETTLE = 100000000 := rfl
  have hlimit : CHAIN_WAIT_LIMIT = 1000000000 := rfl
  have hwaits : CHAIN_WAITS = 11 := rfl
  rw [hsettle] at hmoved
  rw [hlimit] at hwait
  rw [hwaits]
  omega

/-- One more `SETTLE` for one more wait. -/
theorem settle_moved {since restoreAt count : Nat}
    (h : count = 1 ∨ since + (count - 1) * SETTLE ≤ restoreAt) :
    since + count * SETTLE ≤ max since restoreAt + SETTLE := by
  have hsettle : SETTLE = 100000000 := rfl
  rw [hsettle] at h ⊢
  omega

/-- A further wait for the same restore: a tick has moved its deadline since the last. -/
theorem ChainWaits.again {since : Instant} {pending pending' : Pending}
    (h : ChainWaits tries s since pending) (hticked : Ticked tries t)
    (hclock : (clock (tries ++ [t])).Pairwise (· ≤ ·))
    (hpolls : Dialogue.Runs PasteSession.poll s t.polls s')
    (hpending : s'.pending = some pending') (hdue : pending'.due = false)
    (hnow : now ∈ t.calls.filterMap nowOf) (hwait : now < since + CHAIN_WAIT_LIMIT) :
    (waits .chain tries).length + 1 ≤ CHAIN_WAITS ∧
      (since + (waits .chain tries).length * SETTLE ≤ pending'.restoreAt ∨
        pending'.hardLimit ≤ pending'.restoreAt) := by
  obtain ⟨last, hlast, hdeadline⟩ := h.last
  obtain ⟨deadline, hdeadline', poll, hpoll, tick, htick, hat⟩ := hticked last hlast
  obtain rfl := Option.some.inj (hdeadline.symm.trans hdeadline')
  have htime : poll.1.time = tick := by rw [htick]; rfl
  have hbefore : tick < since + CHAIN_WAIT_LIMIT :=
    Nat.lt_of_le_of_lt (htime ▸ poll_le hclock hpoll hnow) hwait
  -- The tick is at or after the deadline, which is before the limit.
  have hreached : pending.restoreAt ≤ tick :=
    (min_le_iff.mp hat).resolve_right (Nat.not_le.mpr hbefore)
  obtain ⟨pending₀, hpending₀, -, hhard, hdelayed⟩ := polls_delay hpolls hpending hdue
  obtain rfl := Option.some.inj (h.kept.symm.trans hpending₀)
  cases hdelayed with
  | untouched hsame hearly =>
    exact absurd hreached (Nat.not_le.mpr (hearly poll hpoll tick htick))
  | moved hlimit hmoved =>
    obtain ⟨early, hearly, hstarted⟩ := h.started
    have hmoved := hmoved since fun p hp =>
      Nat.le_trans hstarted (clock_le hclock hearly (mem_times_of_poll hp))
    have hold : (waits .chain tries).length = 1 ∨
        since + ((waits .chain tries).length - 1) * SETTLE ≤ pending.restoreAt :=
      h.moved.imp_right fun h => h.resolve_right (Nat.not_le.mpr hlimit)
    refine ⟨chain_within hold (Nat.lt_of_le_of_lt hreached hbefore), ?_⟩
    rw [hhard]
    rcases min_le_iff.mp hmoved with hle | hle
    · exact Or.inl (Nat.le_trans (settle_moved hold) hle)
    · exact Or.inr hle

/-- **A wait for the restore of the paste before is paid from its budget.** -/
theorem chain_step (hbudgets : WithinBudgets tries) (h : Going tries s state)
    (hticked : Ticked tries t) (hclock : (clock (tries ++ [t])).Pairwise (· ≤ ·))
    (hpolls : Dialogue.Runs PasteSession.poll s t.polls s')
    (hwait : PasteSession.WaitPath s' state .chain now t.calls t.tried) :
    WithinBudgets (tries ++ [t]) ∧
      ∃ kept, t.tried.state = some kept ∧ Going (tries ++ [t]) t.tried.session kept := by
  obtain ⟨hkind, htime, hnow⟩ := PasteTry.of_wait hwait
  have hmodifiers : waits .modifiers (tries ++ [t]) = waits .modifiers tries :=
    waits_other .modifiers hkind (by simp)
  have hopened : waits .opened (tries ++ [t]) = waits .opened tries :=
    waits_other .opened hkind (by simp)
  have hchain : waits .chain (tries ++ [t]) = waits .chain tries ++ [t] := waits_same hkind
  obtain ⟨pending, hpending, hdue, hahead, hlimit, htried⟩ : ∃ pending,
      s'.pending = some pending ∧ pending.due = false ∧ state.wentAhead = false ∧
        now < state.chainSince.getD now + CHAIN_WAIT_LIMIT ∧ t.tried = ⟨s',
          some { state with chainSince := some (state.chainSince.getD now) },
          .waitUntil (min pending.restoreAt (state.chainSince.getD now + CHAIN_WAIT_LIMIT))⟩ := by
    generalize t.calls = calls at hwait
    generalize t.tried = tried at hwait
    cases hwait with
    | chain before hbefore waits hdue hahead hwait => exact ⟨_, waits, hdue, hahead, hwait, rfl⟩
  have hcount : (waits .chain (tries ++ [t])).length = (waits .chain tries).length + 1 := by
    rw [hchain, List.length_append]
    rfl
  have hsince := since_snoc h.chainSince hkind htime
  -- Every wait before was for the same restore.
  obtain ⟨hwithin, hmoved, hstarted⟩ : (waits .chain tries).length + 1 ≤ CHAIN_WAITS ∧
      ((waits .chain tries).length + 1 = 1 ∨ state.chainSince.getD now +
        ((waits .chain tries).length + 1 - 1) * SETTLE ≤ pending.restoreAt ∨
          pending.hardLimit ≤ pending.restoreAt) ∧
      ∃ early ∈ clock (tries ++ [t]), state.chainSince.getD now ≤ early := by
    rcases h.chain with hnone | rfl | ⟨since, pending₀, hsome, hwaits⟩
    · rcases hnone with hwent | hnone
      · exact absurd (hahead.symm.trans hwent) (by simp)
      · exact absurd ⟨pending, hpending, hdue⟩ (polls_not_waiting hnone hpolls)
    · have hfirst : state.chainSince = none := h.chainSince
      refine ⟨by decide, Or.inl rfl, now, ?_, by rw [hfirst]; exact Nat.le_refl _⟩
      rw [clock_snoc]
      exact List.mem_append_right _ (List.mem_append_right _ hnow)
    · rw [hsome] at hlimit ⊢
      obtain ⟨hwithin, hmoved⟩ := hwaits.again hticked hclock hpolls hpending hdue hnow hlimit
      obtain ⟨early, hearly, hle⟩ := hwaits.started
      refine ⟨hwithin, Or.inr hmoved, early, ?_, hle⟩
      rw [clock_snoc]
      exact List.mem_append_left _ hearly
  have hdeadline : t.deadline? =
      some (min pending.restoreAt (state.chainSince.getD now + CHAIN_WAIT_LIMIT)) := by
    unfold PasteTry.deadline?
    rw [htried]
  rw [htried]
  refine ⟨⟨?_, ?_, ?_, ?_, ?_, ?_⟩, _, rfl, ⟨?_, hsince, ?_, ?_, Or.inr (Or.inr
    ⟨_, pending, rfl, hpending, hdue, hstarted, ⟨t, List.getLast?_concat, hdeadline⟩, ?_⟩)⟩⟩
  · rw [hchain]
    refine hbudgets.chain.snoc ?_
    rw [htime, ← h.chainSince]
    exact hlimit
  · intro first hfirst t' ht' deadline hd
    have hstart : first.time = state.chainSince.getD now := by
      rw [hfirst] at hsince
      exact (Option.some.inj hsince).symm
    rw [hchain] at hfirst ht'
    rcases List.mem_append.mp ht' with ht' | ht'
    · refine hbudgets.chainDeadline first ?_ t' ht' deadline hd
      rwa [List.head?_append_of_ne_nil _ (List.ne_nil_of_mem ht')] at hfirst
    · rw [List.mem_singleton.mp ht', hdeadline] at hd
      cases hd
      rw [hstart]
      exact Nat.min_le_right _ _
  · rw [hmodifiers]
    exact hbudgets.modifiers
  · rw [hcount]
    exact hwithin
  · rw [hmodifiers]
    exact hbudgets.modifiersCount
  · rw [hopened]
    exact hbudgets.opens
  · rw [hopened]
    exact h.opens
  · rw [hmodifiers]
    exact h.modifiersSince
  · intro since hsome
    rw [hmodifiers]
    exact (h.apart since hsome).snoc hticked
  · rw [hcount]
    exact hmoved

end Step

/-! ## Every run of tries -/

/-- The invariant: the waits keep to their budgets, and a paste that may be tried again
knows how much of them is left. -/
theorem triedFrom_budgets {spec : PasteSpec} {start s : PasteSession} {tries : List PasteTry}
    {state : Option Attempt} (h : TriedFrom spec start tries s state)
    (hclock : (clock tries).Pairwise (· ≤ ·)) :
    WithinBudgets tries ∧
      ((∀ last, tries.getLast? = some last → last.deadline?.isSome = true) →
        ∀ foreground, Going tries s (state.getD (.new foreground))) := by
  induction h with
  | start => exact ⟨withinBudgets_nil, fun _ foreground => going_nil _ foreground⟩
  | @again tries s s' state t h hticked hpolls htry ih =>
    obtain ⟨hbudgets, hgoing⟩ := ih (by
      rw [clock_snoc, List.pairwise_append] at hclock
      exact hclock.1)
    have hgoing := hgoing fun last hlast => by
      obtain ⟨deadline, hdeadline, -⟩ := hticked last hlast
      rw [hdeadline]
      rfl
    cases hstep : t.tried.step with
    | done =>
      have hover : t.deadline? = none := by
        unfold PasteTry.deadline?
        rw [hstep]
      refine ⟨hbudgets.last (by unfold PasteTry.kind; rw [hover]; rfl), fun hgoes => ?_⟩
      have hsome := hgoes t List.getLast?_concat
      rw [hover] at hsome
      exact absurd hsome (by simp)
    | waitUntil deadline =>
      obtain ⟨tried, heq, hpath⟩ := PasteSession.attempt_path htry
      cases heq
      obtain ⟨foreground, kind, now, hwait⟩ := PasteSession.attempt_waits hpath hstep
      have hkept : WithinBudgets (tries ++ [t]) ∧
          ∃ kept, t.tried.state = some kept ∧ Going (tries ++ [t]) t.tried.session kept := by
        cases kind with
        | chain => exact chain_step hbudgets (hgoing foreground) hticked hclock hpolls hwait
        | modifiers => exact modifiers_step hbudgets (hgoing foreground) hticked hclock hwait
        | opened => exact opened_step hbudgets (hgoing foreground) hticked hwait
      obtain ⟨hwithin, kept, hstate, hnext⟩ := hkept
      refine ⟨hwithin, fun _ foreground => ?_⟩
      rw [hstate]
      exact hnext

/-! ## The end -/

/-- Only the last of the tries can be over. -/
theorem triedFrom_waiting {spec : PasteSpec} {start s : PasteSession} {tries : List PasteTry}
    {state : Option Attempt} (h : TriedFrom spec start tries s state) :
    ∀ t ∈ tries.dropLast, t.kind.isSome = true := by
  induction h with
  | start => exact fun t ht => absurd ht (by simp)
  | @again tries s s' state t h hticked hpolls htry ih =>
    rw [List.dropLast_concat]
    intro t' ht'
    rcases List.eq_nil_or_concat tries with rfl | ⟨earlier, last, rfl⟩
    · exact absurd ht' List.not_mem_nil
    · rw [List.concat_eq_append] at ht' ih hticked
      rw [List.dropLast_concat] at ih
      rcases List.mem_append.mp ht' with ht' | ht'
      · exact ih t' ht'
      · obtain ⟨deadline, hdeadline, -⟩ := hticked last List.getLast?_concat
        rw [List.mem_singleton.mp ht']
        unfold PasteTry.kind
        rw [hdeadline]
        rfl

/-- A try that waits waits for one thing. -/
theorem waits_count (tries : List PasteTry) :
    tries.countP (fun t => t.kind.isSome) = (waits .chain tries).length +
      (waits .modifiers tries).length + (waits .opened tries).length := by
  unfold waits
  induction tries with
  | nil => rfl
  | cons t tries ih =>
    rw [List.countP_cons, ih]
    cases hkind : t.kind with
    | none => simp [hkind]
    | some kind => cases kind <;> simp [hkind] <;> omega

/-- The most tries of a paste. -/
def MAX_TRIES : Nat := CHAIN_WAITS + MODIFIER_WAITS + OPEN_BACKOFF.length + 1

/-- How a paste of `spec` ends, `tries` being its tries so far. -/
structure PasteEnds (spec : PasteSpec) (tries : List PasteTry) : Prop where
  budgets : WithinBudgets tries
  bounded : tries.length ≤ MAX_TRIES
  ended : tries.length = MAX_TRIES →
    ∃ last, tries.getLast? = some last ∧ last.tried.step = .done
  /-- Whatever the answers are, a try returns. -/
  returns : ∀ (answer : List PortCall → (q : Question) → q.Answer) (s : PasteSession)
    (state : Option Attempt), ∃ es tried, talk answer (s.attempt state spec) [] = (es, some tried)
  /-- No try would take its loop past the second turn. -/
  turns : ∀ rounds, 2 ≤ rounds → ∀ (s : PasteSession) (state : Option Attempt) es tried,
    Path (s.advance rounds state spec) es tried → tried.isSome = true

/-- **A paste ends**: tried again after a tick at or after the time each try waits for, it
is over by its `MAX_TRIES`th try, each of its three waits within its own budget. -/
theorem paste_ends {spec : PasteSpec} {start s : PasteSession} {tries : List PasteTry}
    {state : Option Attempt} (h : TriedFrom spec start tries s state)
    (hclock : (clock tries).Pairwise (· ≤ ·)) : PasteEnds spec tries := by
  have hbudgets := (triedFrom_budgets h hclock).1
  have hwaiting := triedFrom_waiting h
  have hchain := hbudgets.chainCount
  have hmodifiers := hbudgets.modifiersCount
  have hopens := hbudgets.opens
  have hcount := waits_count tries
  refine ⟨hbudgets, ?_, ?_, ?_, ?_⟩
  · unfold MAX_TRIES
    have hsub := (List.dropLast_sublist tries).countP_le (p := fun t => t.kind.isSome)
    rw [List.countP_eq_length.mpr hwaiting, List.length_dropLast] at hsub
    omega
  · intro hlength
    unfold MAX_TRIES at hlength
    rcases List.eq_nil_or_concat tries with rfl | ⟨earlier, last, rfl⟩
    · exact absurd hlength (by simp)
    · rw [List.concat_eq_append] at *
      refine ⟨last, List.getLast?_concat, ?_⟩
      cases hstep : last.tried.step with
      | done => rfl
      | waitUntil deadline =>
        -- All of them would wait, and there are not so many waits.
        have hlast : last.kind.isSome = true := by
          unfold PasteTry.kind PasteTry.deadline?
          rw [hstep]
          rfl
        rw [List.dropLast_concat] at hwaiting
        rw [List.countP_append, List.countP_eq_length.mpr hwaiting,
          List.countP_singleton, hlast, if_pos rfl] at hcount
        rw [List.length_append, List.length_singleton] at hlength
        omega
  · intro answer s state
    obtain ⟨tried, hsome, -⟩ :=
      PasteSession.attempt_path (talk_path answer (s.attempt state spec) [])
    exact ⟨_, tried, Prod.ext rfl hsome⟩
  · intro rounds hrounds s state es tried hpath
    obtain ⟨t, rfl, -⟩ := PasteSession.advance_path hrounds hpath
    rfl

/-- The answers of the idle desk at `now`, its modifiers held or not. -/
def deskAt (held : Bool) (now : Instant) (before : List PortCall) : (q : Question) → q.Answer
  | .modifierDown => held
  | .now => now
  | q => idleDesk true before q

/-- A try of `pasteA` there, after `polls`. -/
def tryAt (held : Bool) (now : Instant) (s : PasteSession) (state : Option Attempt)
    (polls : Polls) : PasteTry :=
  let tried := talk (deskAt held now) (s.attempt state pasteA) []
  ⟨polls, tried.1, tried.2.getD ⟨s, none, .done⟩⟩

/-- A try with a modifier held, and the one after its release. -/
def heldTry : PasteTry := tryAt true 0 .new none []
def releasedTry : PasteTry :=
  tryAt false (fromMillis 5) heldTry.tried.session heldTry.tried.state
    [(.tick (fromMillis 5), [])]

theorem paste_ends_released : PasteEnds pasteA ([] ++ [heldTry] ++ [releasedTry]) :=
  paste_ends
    (.again (.again (.start : TriedFrom pasteA .new [] .new none) (fun last h => absurd h (by simp))
        (.nil _) (talk_path (deskAt true 0) _ []))
      (fun last h => by
        cases h
        exact ⟨fromMillis 5, rfl, _, List.mem_cons_self, _, rfl, Nat.le_refl _⟩)
      (.cons (talk_path (deskAt false 0) _ []) (.nil _))
      (talk_path (deskAt false (fromMillis 5)) _ []))
    (by decide +kernel)

end KeySwitch.Executor
