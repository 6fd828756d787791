import KeySwitch.Engine.FeedRuns
import KeySwitch.Lib.Attempts

/-!
# Chords fire when all their keys come within one window

A chord's pending entry mirrors the attempt open for it: the key-downs the chord
considers, from the one that opened the attempt on. All chords share one table,
which any of them prunes and searches; but an entry of another key set is never
found in its place, and pruning or a timer takes an entry only once its window
has passed, when the attempt is over anyway (`Mirrors`).

So what a chord fires is a function of the key-downs it considers, their times
and codes, and of nothing else (`chord_fires`).
-/

namespace KeySwitch.Engine

open Data Lib

variable {α : Type}

/-! ## What the loader checks -/

/-- The loader's checks of a chord's keys. -/
structure ChordChecked (keys : List KeySpec) : Prop where
  atLeastTwo : 2 ≤ keys.length
  apart : keys.Pairwise fun a b => a.overlaps b = false

theorem ChordChecked.nodup {keys : List KeySpec} (h : ChordChecked keys) : keys.Nodup := by
  refine h.apart.imp fun hab heq => ?_
  rw [heq, KeySpec.overlaps_self] at hab
  exact absurd hab (by decide)

/-- One code never presses all keys of a chord. -/
theorem ChordChecked.not_single {keys : List KeySpec} (h : ChordChecked keys) (vk : VirtualKey) :
    (keys.all fun key => key.accepts vk) = false := by
  have htwo := h.atLeastTwo
  have hapart := h.apart
  match keys, htwo, hapart with
  | a :: b :: rest, _, hapart =>
    have hab := (List.pairwise_cons.mp hapart).1 b List.mem_cons_self
    cases ha : a.accepts vk with
    | false => simp [ha]
    | true => simp [KeySpec.accepts_apart hab ha]

/-- Two distinct lists of chord keys that hold the same keys are permutations. -/
theorem perm_of_sameKeys {a b : List KeySpec} (ha : a.Nodup) (h : sameKeys a b = true) :
    a.Perm b := by
  unfold sameKeys at h
  rw [Bool.and_eq_true, beq_iff_eq, List.all_eq_true] at h
  have hsubset : a ⊆ b := fun key hkey => by simpa using h.2 key hkey
  exact (List.subperm_of_subset ha hsubset).perm_of_length_le (Nat.le_of_eq h.1.symm)

theorem sameKeys_self (keys : List KeySpec) : sameKeys keys keys = true := by
  simp [sameKeys]

/-! ## The entry of one key set -/

/-- A key-down that a chord considers. -/
structure Down where
  now : Instant
  vk : VirtualKey
  deriving DecidableEq, Repr

/-- Whether the key-downs press every chord key. -/
def pressAll (keys : List KeySpec) (downs : List Down) : Bool :=
  keys.all fun key => downs.any fun d => key.accepts d.vk

/-- A key-down joins the attempt whose window is open, or opens one. -/
abbrev chordJoin (window : Duration) : List Down → Down → List Down := joinWithin Down.now window

/-- An attempt is complete when every key has been pressed in its window. -/
abbrev chordDone (keys : List KeySpec) (window : Duration) : List Down → Down → Bool :=
  doneWithin Down.now window (pressAll keys)

/-- The pending entries of a key set. -/
def Chords.of (c : Chords α) (keys : List KeySpec) : List (PendingChord α) :=
  c.pending.filter fun p => sameKeys p.chordKeys keys

/-- The table holds the attempt of a chord: nothing if none is open, or an entry
with its codes that is due when its window ends, unless the window has passed. -/
structure Mirrors (keys : List KeySpec) (window : Duration) (action : α) (clock : Instant)
    (attempt : List Down) (c : Chords α) : Prop where
  nodup : ∀ p ∈ c.pending, p.chordKeys.Nodup
  entry : (attempt = [] ∧ c.of keys = []) ∨
    ∃ first rest, attempt = first :: rest ∧
      ((∃ seen seq, c.of keys = [⟨keys, seen, action, first.now + window, seq⟩] ∧
          ∀ v, v ∈ seen ↔ ∃ d ∈ attempt, d.vk = v) ∨
        (c.of keys = [] ∧ first.now + window ≤ clock))

variable {keys keys' : List KeySpec} {window window' : Duration} {action action' : α}
  {clock now : Instant} {attempt : List Down} {c : Chords α} {vk : VirtualKey} {seq : Nat}

theorem mirrors_new : Mirrors keys window action clock [] (.new : Chords α) :=
  ⟨fun _ hp => absurd hp List.not_mem_nil, Or.inl ⟨rfl, rfl⟩⟩

/-- Time passes. -/
theorem mirrors_mono (hle : clock ≤ now) (h : Mirrors keys window action clock attempt c) :
    Mirrors keys window action now attempt c := by
  refine ⟨h.nodup, ?_⟩
  rcases h.entry with hnone | ⟨first, rest, hattempt, hentry | ⟨hgone, hpast⟩⟩
  · exact Or.inl hnone
  · exact Or.inr ⟨first, rest, hattempt, Or.inl hentry⟩
  · exact Or.inr ⟨first, rest, hattempt, Or.inr ⟨hgone, Nat.le_trans hpast hle⟩⟩

/-- Entries go whose windows have passed: a chord's entry only once its attempt is
over. -/
theorem mirrors_filter {keep : PendingChord α → Bool}
    (hkeep : ∀ p ∈ c.pending, keep p = false → p.expiresAt ≤ clock)
    (h : Mirrors keys window action clock attempt c) :
    Mirrors keys window action clock attempt ⟨c.pending.filter keep⟩ := by
  have hof : Chords.of ⟨c.pending.filter keep⟩ keys = (c.of keys).filter keep := by
    unfold Chords.of
    rw [List.filter_filter, List.filter_filter]
    simp only [Bool.and_comm]
  refine ⟨fun p hp => h.nodup p (List.mem_of_mem_filter hp), ?_⟩
  rw [hof]
  rcases h.entry with ⟨hattempt, hnone⟩
    | ⟨first, rest, hattempt, ⟨seen, seq, hentry, hseen⟩ | ⟨hgone, hpast⟩⟩
  · exact Or.inl ⟨hattempt, by rw [hnone]; rfl⟩
  · refine Or.inr ⟨first, rest, hattempt, ?_⟩
    rw [hentry]
    have hmem : (⟨keys, seen, action, first.now + window, seq⟩ : PendingChord α) ∈ c.pending :=
      List.mem_of_mem_filter (p := fun p => sameKeys p.chordKeys keys)
        (show _ ∈ c.of keys from hentry ▸ List.mem_singleton_self _)
    cases hp : keep ⟨keys, seen, action, first.now + window, seq⟩ with
    | true => exact Or.inl ⟨seen, seq, by rw [List.filter_cons_of_pos hp]; rfl, hseen⟩
    | false =>
      exact Or.inr ⟨by rw [List.filter_cons_of_neg (by simp [hp])]; rfl, hkeep _ hmem hp⟩
  · exact Or.inr ⟨first, rest, hattempt, Or.inr ⟨by rw [hgone]; rfl, hpast⟩⟩

/-- A timer takes out entries whose windows have passed. -/
theorem mirrors_expire (hdue : ∀ p ∈ c.pending, p.seq = seq → p.expiresAt ≤ clock)
    (h : Mirrors keys window action clock attempt c) :
    Mirrors keys window action clock attempt (c.expire seq) :=
  mirrors_filter (fun p hp hdropped => hdue p hp (by simpa using hdropped)) h

theorem mirrors_retainOpen (hle : clock ≤ now) (h : Mirrors keys window action clock attempt c) :
    Mirrors keys window action now attempt (c.retainOpen now) :=
  mirrors_filter (fun p _ hdropped => by simpa using hdropped) (mirrors_mono hle h)

/-- What a chord finds once the table is pruned: its attempt, if it is open. -/
theorem retainOpen_cases (hle : clock ≤ now) (h : Mirrors keys window action clock attempt c) :
    (opensTo Down.now window attempt now = true ∧ ∃ first rest seen seq,
      attempt = first :: rest ∧
        (c.retainOpen now).of keys = [⟨keys, seen, action, first.now + window, seq⟩] ∧
        ∀ v, v ∈ seen ↔ ∃ d ∈ attempt, d.vk = v) ∨
      (opensTo Down.now window attempt now = false ∧ (c.retainOpen now).of keys = []) := by
  have hopen : ∀ p ∈ (c.retainOpen now).of keys, now < p.expiresAt := by
    intro p hp
    have hmem := List.mem_of_mem_filter hp
    simpa using (List.mem_filter.mp hmem).2
  rcases (mirrors_retainOpen hle h).entry with ⟨rfl, hnone⟩ |
    ⟨first, rest, rfl, ⟨seen, seq, hentry, hseen⟩ | ⟨hgone, hpast⟩⟩
  · exact Or.inr ⟨rfl, hnone⟩
  · have hlt := hopen _ (hentry ▸ List.mem_singleton_self _)
    exact Or.inl ⟨by simpa [opensTo] using hlt, first, rest, seen, seq, rfl, hentry, hseen⟩
  · exact Or.inr ⟨by simpa [opensTo] using hpast, hgone⟩

theorem complete_eq {seen : List VirtualKey} {downs : List Down}
    (h : ∀ v, v ∈ seen ↔ ∃ d ∈ downs, d.vk = v) :
    Chords.complete keys seen = pressAll keys downs := by
  unfold Chords.complete pressAll
  congr 1
  funext key
  rw [Bool.eq_iff_iff, List.any_eq_true, List.any_eq_true]
  constructor
  · rintro ⟨v, hv, haccepts⟩
    obtain ⟨d, hd, rfl⟩ := (h v).mp hv
    exact ⟨d, hd, haccepts⟩
  · rintro ⟨d, hd, haccepts⟩
    exact ⟨d.vk, (h d.vk).mpr ⟨d, hd, rfl⟩, haccepts⟩

/-- A code that is seen again is not added twice. -/
theorem mem_joined {seen : List VirtualKey} {downs : List Down}
    (h : ∀ v, v ∈ seen ↔ ∃ d ∈ downs, d.vk = v) (now : Instant) (vk : VirtualKey) (v : VirtualKey) :
    v ∈ (if seen.contains vk then seen else seen ++ [vk]) ↔
      ∃ d ∈ downs ++ [(⟨now, vk⟩ : Down)], d.vk = v := by
  have hboth : (∃ d ∈ downs ++ [(⟨now, vk⟩ : Down)], d.vk = v) ↔ v ∈ seen ∨ vk = v := by
    rw [h]
    constructor
    · rintro ⟨d, hd, rfl⟩
      rcases List.mem_append.mp hd with hd | hd
      · exact Or.inl ⟨d, hd, rfl⟩
      · rw [List.mem_singleton.mp hd]
        exact Or.inr rfl
    · rintro (⟨d, hd, rfl⟩ | rfl)
      · exact ⟨d, List.mem_append_left _ hd, rfl⟩
      · exact ⟨_, List.mem_append_right _ (List.mem_singleton_self _), rfl⟩
  rw [hboth]
  split
  · next hin =>
    have hvk : vk ∈ seen := by simpa using hin
    exact ⟨Or.inl, fun hv => hv.elim id fun heq => heq ▸ hvk⟩
  · rw [List.mem_append, List.mem_singleton, eq_comm]

/-- **A key-down that the chord considers fires exactly where it completes the
attempt**, and the entry follows. -/
theorem mirrors_own (seq : Nat) (hchecked : ChordChecked keys) (hle : clock ≤ now)
    (h : Mirrors keys window action clock attempt c)
    (haccepts : (keys.any fun key => key.accepts vk) = true) :
    (c.onKeyDown vk action keys window now seq).2.fired =
        (if completes (chordJoin window) (chordDone keys window) attempt ⟨now, vk⟩ then some action
          else none) ∧
      Mirrors keys window action now
        (nextAttempt (chordJoin window) (chordDone keys window) attempt ⟨now, vk⟩)
        (c.onKeyDown vk action keys window now seq).1 := by
  have hretained := mirrors_retainOpen hle h
  unfold Chords.onKeyDown nextAttempt
  rw [haccepts]
  simp only [Bool.not_true, Bool.false_eq_true, if_false]
  have hfind : (c.retainOpen now).pending.find? (fun p => sameKeys p.chordKeys keys) =
      ((c.retainOpen now).of keys).head? := List.head?_filter.symm
  rw [hfind]
  rcases retainOpen_cases hle h with
    ⟨hopens, first, rest, seen, seq', rfl, hentry, hseen⟩ | ⟨hopens, hgone⟩
  · -- The chord's window is still open: the entry is the attempt, and the key joins both.
    have hfound : (c.retainOpen now).pending.find? (fun p => sameKeys p.chordKeys keys) =
        some ⟨keys, seen, action, first.now + window, seq'⟩ := by
      rw [hfind, hentry]
      rfl
    have hjoin : chordJoin window (first :: rest) ⟨now, vk⟩ =
        first :: (rest ++ [⟨now, vk⟩]) := if_pos hopens
    have hseen' := mem_joined hseen now vk
    rw [hentry]
    dsimp only [List.head?_cons]
    generalize (if seen.contains vk then seen else seen ++ [vk]) = seen' at hseen' ⊢
    have hcompletes :
        completes (chordJoin window) (chordDone keys window) (first :: rest) ⟨now, vk⟩ =
        Chords.complete keys seen' := by
      unfold completes
      rw [hjoin, complete_eq hseen']
      have hwindow : opensTo Down.now window (first :: (rest ++ [(⟨now, vk⟩ : Down)])) now = true :=
        hopens
      unfold chordDone doneWithin
      rw [hwindow, Bool.true_and]
      rfl
    rw [hcompletes]
    cases Chords.complete keys seen' with
    | true =>
      simp only [if_true]
      refine ⟨rfl, ?_, Or.inl ⟨rfl, filter_eraseP_marked hfound hentry⟩⟩
      exact fun p hp => hretained.nodup p (List.mem_of_mem_eraseP hp)
    | false =>
      simp only [Bool.false_eq_true, if_false]
      refine ⟨rfl, ?_, Or.inr ⟨first, rest ++ [⟨now, vk⟩], hjoin, Or.inl ⟨seen', seq', ?_, ?_⟩⟩⟩
      · intro p hp
        rcases mem_modifyFirst hfound hp with hp | rfl
        · exact hretained.nodup p hp
        · have hnodup := hretained.nodup _ (List.mem_of_find?_eq_some hfound)
          exact hnodup
      · exact filter_modifyFirst_marked hfound hentry (sameKeys_self keys)
      · rw [hjoin]
        exact hseen'
  · -- No window is open: the key starts a new entry and a new attempt, and cannot end one alone.
    rw [hgone]
    have hjoin : chordJoin window attempt ⟨now, vk⟩ = [⟨now, vk⟩] := by
      unfold chordJoin joinWithin
      rw [hopens]
      rfl
    have hcompletes :
        completes (chordJoin window) (chordDone keys window) attempt ⟨now, vk⟩ = false := by
      unfold completes
      rw [hjoin]
      have hsingle : pressAll keys [⟨now, vk⟩] = false := by
        have hnot := hchecked.not_single vk
        simpa [pressAll] using hnot
      unfold chordDone doneWithin
      rw [hsingle, Bool.and_false]
    rw [hcompletes]
    simp only [List.head?_nil, Bool.false_eq_true, if_false]
    refine ⟨rfl, ?_, Or.inr ⟨⟨now, vk⟩, [], hjoin, Or.inl ⟨[vk], seq, ?_, ?_⟩⟩⟩
    · intro p hp
      rcases List.mem_append.mp hp with hp | hp
      · exact hretained.nodup p hp
      · rw [List.mem_singleton.mp hp]
        exact hchecked.nodup
    · unfold Chords.of at hgone ⊢
      rw [List.filter_append, hgone, List.filter_cons_of_pos (by exact sameKeys_self keys)]
      rfl
    · rw [hjoin]
      intro v
      simp [eq_comm]

/-- A key-down that the chord does not consider fires nothing. -/
theorem onKeyDown_unconsidered (c : Chords α) (action : α) (window : Duration) (now : Instant)
    (seq : Nat) (h : (keys.any fun key => key.accepts vk) = false) :
    c.onKeyDown vk action keys window now seq = (c, .notInChord) := by
  unfold Chords.onKeyDown
  rw [h]
  rfl

/-- **A key-down fed to a chord of another key set** leaves the attempt. -/
theorem mirrors_other (hnodup' : keys'.Nodup)
    (hother : ¬∀ key, key ∈ keys' ↔ key ∈ keys) (hle : clock ≤ now)
    (h : Mirrors keys window action clock attempt c) :
    Mirrors keys window action now attempt (c.onKeyDown vk action' keys' window' now seq).1 := by
  have hretained := mirrors_retainOpen hle h
  unfold Chords.onKeyDown
  split
  · exact mirrors_mono hle h
  · -- No entry is of both key sets.
    have hboth : ∀ a : List KeySpec, a.Nodup → sameKeys a keys' = true →
        sameKeys a keys = false := by
      intro a ha hours
      rw [Bool.eq_false_iff]
      intro hmine
      have hperm := (perm_of_sameKeys ha hours).symm.trans (perm_of_sameKeys ha hmine)
      exact hother fun key => hperm.mem_iff
    dsimp only
    split
    · next entry hfound =>
      have hmem := List.mem_of_find?_eq_some hfound
      have hours : sameKeys entry.chordKeys keys' = true := by
        simpa using List.find?_some hfound
      have hmarked := hboth entry.chordKeys (hretained.nodup entry hmem) hours
      generalize (if entry.seen.contains vk then entry.seen else entry.seen ++ [vk]) = seen'
      split
      · refine ⟨fun p hp => hretained.nodup p (List.mem_of_mem_eraseP hp), ?_⟩
        have hof := filter_eraseP_unmarked (fun p : PendingChord α => sameKeys p.chordKeys keys)
          hfound hmarked
        unfold Chords.of
        rw [hof]
        exact hretained.entry
      · refine ⟨fun p hp => ?_, ?_⟩
        · rcases mem_modifyFirst hfound hp with hp | rfl
          · exact hretained.nodup p hp
          · exact hretained.nodup entry hmem
        · have hof := fun f hf => filter_modifyFirst_unmarked (f := f)
            (fun p : PendingChord α => sameKeys p.chordKeys keys) hfound hmarked hf
          unfold Chords.of
          rw [hof _ hmarked]
          exact hretained.entry
    · refine ⟨fun p hp => ?_, ?_⟩
      · rcases List.mem_append.mp hp with hp | hp
        · exact hretained.nodup p hp
        · rw [List.mem_singleton.mp hp]
          exact hnodup'
      · unfold Chords.of
        rw [List.filter_append, List.filter_cons_of_neg
          (by simp [hboth keys' hnodup' (sameKeys_self keys')]), List.filter_nil, List.append_nil]
        exact hretained.entry

/-! ## Runs of the tables -/

/-- What the loader makes sure of in a list, apart from the warning about chords
of the same keys: it holds where that warning does not come. -/
structure ChordsChecked (bindings : List (Binding α)) : Prop where
  checked : ∀ b ∈ bindings, ∀ keys window, b.kind = .chord keys window → ChordChecked keys
  distinct : ∀ (i j : Nat) (b b' : Binding α) keys window keys' window', bindings[i]? = some b →
    bindings[j]? = some b' → b.kind = .chord keys window → b'.kind = .chord keys' window' →
    (∀ key, key ∈ keys' ↔ key ∈ keys) → i = j

/-- Whether a chord of these keys considers a feed to it. -/
def considers (keys : List KeySpec) (f : Feed α) : Bool := keys.any fun key => key.accepts f.vk

def Feed.down (f : Feed α) : Down := ⟨f.env.now, f.vk⟩

/-- What the feeds of a chord come to: those it considers fire as they complete
its attempts, the others fire nothing. -/
structure FiresAttempts (keys : List KeySpec) (window : Duration) (action : α)
    (attempt : List Down) (fed : List (Feed α × List α)) : Prop where
  considered : (fed.filter fun x => considers keys x.1).map Prod.snd =
    (completions (chordJoin window) (chordDone keys window) attempt
      ((fed.filter fun x => considers keys x.1).map fun x => x.1.down)).map (fireIf action)
  others : ∀ x ∈ fed, considers keys x.1 = false → x.2 = []

theorem fires_own {fed : List (Feed α × List α)} {f : Feed α} {out : List α}
    (hconsiders : considers keys f = true)
    (hout : out = fireIf action
      (completes (chordJoin window) (chordDone keys window) attempt f.down))
    (h : FiresAttempts keys window action
      (nextAttempt (chordJoin window) (chordDone keys window) attempt f.down) fed) :
    FiresAttempts keys window action attempt ((f, out) :: fed) := by
  refine ⟨?_, fun x hx hnot => ?_⟩
  · rw [List.filter_cons_of_pos (by exact hconsiders), List.map_cons, List.map_cons, completions,
      List.map_cons, ← h.considered, hout]
  · rcases List.mem_cons.mp hx with rfl | hx
    · rw [hconsiders] at hnot
      exact absurd hnot (by decide)
    · exact h.others x hx hnot

theorem fires_unconsidered {fed : List (Feed α × List α)} {f : Feed α}
    (hnot : considers keys f = false) (h : FiresAttempts keys window action attempt fed) :
    FiresAttempts keys window action attempt ((f, []) :: fed) := by
  refine ⟨?_, fun x hx hx' => ?_⟩
  · rw [List.filter_cons_of_neg (by simp [hnot])]
    exact h.considered
  · rcases List.mem_cons.mp hx with rfl | hx
    · rfl
    · exact h.others x hx hx'

/-- **What a chord fires in a run of the tables.** -/
theorem chord_fires {bindings : List (Binding α)} (hchecked : ChordsChecked bindings) {index : Nat}
    {b : Binding α} (hb : bindings[index]? = some b) (hkind : b.kind = .chord keys window)
    {touches : List (Touch α)}
    (hlisted : ∀ f, .feed f ∈ touches → bindings[f.index]? = some f.binding) {s : Tables α}
    (hlegal : punctual.Legal s touches)
    (h : Mirrors keys window b.action s.clock attempt s.chords) :
    FiresAttempts keys window b.action attempt (fedTo index (tables.trace s touches)) := by
  have hkeys := hchecked.checked b (List.mem_of_getElem? hb) keys window hkind
  induction touches generalizing s attempt with
  | nil => exact ⟨rfl, fun x hx => absurd hx List.not_mem_nil⟩
  | cons touch touches ih =>
    have hrest : ∀ {attempt : List Down},
        Mirrors keys window b.action (s.touch touch).1.clock attempt (s.touch touch).1.chords →
        FiresAttempts keys window b.action attempt
          (fedTo index (tables.trace (s.touch touch).1 touches)) :=
      fun h => ih (fun f hf => hlisted f (List.mem_cons_of_mem _ hf)) hlegal.2 h
    have hintime := hlegal.1.2
    cases touch with
    | clear => exact absurd hintime id
    | expireChord seq due =>
      refine hrest (mirrors_expire (fun p hp hseq => ?_)
        (mirrors_mono (Nat.le_max_left s.clock due) h))
      exact Nat.le_trans (hintime p hp hseq) (Nat.le_max_right _ _)
    | expireSequence seq due => exact hrest (mirrors_mono (Nat.le_max_left s.clock due) h)
    | feed f =>
      have hle : s.clock ≤ f.env.now := hintime
      have hlist := hlisted f List.mem_cons_self
      by_cases hindex : f.index = index
      · -- The chord's own turn.
        rw [hindex, hb] at hlist
        have hbinding : f.binding = b := (Option.some.inj hlist).symm
        have hfeed : s.feed f =
            ({ s with clock := f.env.now
                      chords := (s.chords.onKeyDown f.vk b.action keys window f.env.now f.seq).1 },
              (s.chords.onKeyDown f.vk b.action keys window f.env.now f.seq).2.fired) := by
          unfold Tables.feed
          rw [hbinding, hkind]
        have htouch : s.touch (.feed f) = s.feed f := rfl
        rw [htouch, hfeed] at hrest
        rw [fedTo_own hindex, hfeed]
        cases hconsiders : considers keys f with
        | true =>
          obtain ⟨hfired, hmirrors⟩ := mirrors_own f.seq hkeys hle h hconsiders
          exact fires_own hconsiders (hfired ▸ toList_fireIf _ _) (hrest hmirrors)
        | false =>
          rw [onKeyDown_unconsidered _ _ _ _ _ hconsiders] at hrest ⊢
          exact fires_unconsidered hconsiders (hrest (mirrors_mono hle h))
      · rw [fedTo_other hindex]
        refine hrest ?_
        show Mirrors keys window b.action (s.feed f).1.clock attempt (s.feed f).1.chords
        rw [feed_clock]
        unfold Tables.feed
        split
        · exact mirrors_mono hle h
        · exact mirrors_mono hle h
        · next keys' window' hkind' =>
          have hkeys' := hchecked.checked f.binding
            (List.mem_of_getElem? hlist) keys' window' hkind'
          refine mirrors_other hkeys'.nodup (fun hsame => hindex ?_) hle h
          exact (hchecked.distinct _ _ _ _ _ _ _ _ hb hlist hkind hkind' hsame).symm

/-! ## The result -/

/-- The key-downs of a schedule that the chord of `keys` at `index` considers: the
first ones with a code of the chord at which its condition holds; each with what
the chord fires on it. -/
def consideredBy (bindings : List (Binding α)) (events : List (KeyEvent × Env))
    (turns : List Turn) (index : Nat) (keys : List KeySpec) : List (Down × List α) :=
  ((feedsIn bindings events turns index).filter fun x => considers keys x.1).map
    fun x => (x.1.down, x.2)

/-- The attempt open after the key-downs considered so far. -/
def attemptAfter (keys : List KeySpec) (window : Duration) (downs : List Down) : List Down :=
  openAttempt (chordJoin window) (chordDone keys window) [] downs

/-- Whether a key-down completes the attempt open after `downs`, or the one it opens:
its time is before the end of the window and all keys have been pressed. -/
def completesAfter (keys : List KeySpec) (window : Duration) (downs : List Down) (d : Down) :
    Bool :=
  completes (chordJoin window) (chordDone keys window) (attemptAfter keys window downs) d

/-- What a chord is for, said of the key-downs it considers. -/
structure ChordCorrect (keys : List KeySpec) (window : Duration) (action : α)
    (fed : List (Down × List α)) : Prop where
  /-- The action fires exactly where an attempt is completed. -/
  fires : ∀ pre d fired post, fed = pre ++ (d, fired) :: post →
    fired = if completesAfter keys window (pre.map Prod.fst) d then [action] else []
  /-- The key-downs of a completed attempt are the latest ones, all in one window,
  and press every key. -/
  within : ∀ pre d post, fed.map Prod.fst = pre ++ d :: post →
    completesAfter keys window pre d = true →
    ∃ used first, used <:+ pre ++ [d] ∧ used.head? = some first ∧ pressAll keys used = true ∧
      ∀ x ∈ used, first.now ≤ x.now ∧ x.now < first.now + window
  /-- No key-down counts for two of them. -/
  once : ∀ pre d mid post, fed.map Prod.fst = pre ++ d :: (mid ++ post) →
    completesAfter keys window pre d = true →
    attemptAfter keys window (pre ++ d :: mid) <:+ mid

/-- Firing as attempts complete is being correct, where times do not go back. -/
theorem chordCorrect_of_fires {fed : List (Feed α × List α)}
    (hsorted : fed.Pairwise fun x y => x.1.env.now ≤ y.1.env.now)
    (h : FiresAttempts keys window action [] fed) :
    ChordCorrect keys window action
      ((fed.filter fun x => considers keys x.1).map fun x => (x.1.down, x.2)) := by
  have hdowns : ((fed.filter fun x => considers keys x.1).map fun x => (x.1.down, x.2)).map
      Prod.fst = (fed.filter fun x => considers keys x.1).map fun x => x.1.down := by
    rw [List.map_map]
    rfl
  have hfired : ((fed.filter fun x => considers keys x.1).map fun x => (x.1.down, x.2)).map
      Prod.snd = (fed.filter fun x => considers keys x.1).map Prod.snd := by
    rw [List.map_map]
    rfl
  have hconsidered := h.considered
  rw [← hfired, ← hdowns] at hconsidered
  have htimes : ((fed.filter fun x => considers keys x.1).map fun x => (x.1.down, x.2)).Pairwise
      fun x y => x.1.now ≤ y.1.now :=
    List.pairwise_map.mpr (hsorted.sublist List.filter_sublist)
  generalize (fed.filter fun x => considers keys x.1).map (fun x => (x.1.down, x.2)) = considered
    at hconsidered htimes
  have hpairs : (considered.map Prod.fst).Pairwise fun x y => x.now ≤ y.now :=
    List.pairwise_map.mpr htimes
  refine ⟨?_, ?_, ?_⟩
  · intro pre d fired post hsplit
    exact completions_split hconsidered hsplit
  · intro pre d post hsplit hcompletes
    rw [hsplit] at hpairs
    have hbefore : (pre ++ [d]).Pairwise fun x y => x.now ≤ y.now :=
      hpairs.sublist ((List.Sublist.refl pre).append
        (List.singleton_sublist.mpr List.mem_cons_self))
    exact joinWithin_window hbefore hcompletes
  · intro pre d mid post _ hcompletes
    exact openAttempt_after joinWithin_last hcompletes mid

/-- What a chord fires in a schedule. -/
theorem schedule_fires {bindings : List (Binding α)} (hchecked : ChordsChecked bindings)
    {index : Nat} {b : Binding α} (hb : bindings[index]? = some b)
    (hkind : b.kind = .chord keys window) {events : List (KeyEvent × Env)}
    (hsorted : events.Pairwise fun x y => x.2.now ≤ y.2.now)
    (hfew : (new : Engine α).armingsOf (ops bindings events) < 2 ^ 64) {turns : List Turn}
    (hlegal : (schedules bindings).Legal (.start events) turns) :
    FiresAttempts keys window b.action [] (feedsIn bindings events turns index) := by
  rw [feedsIn_tables]
  exact chord_fires hchecked hb hkind (touchesIn_listed bindings turns _)
    (schedule_punctual hsorted hfew hlegal) mirrors_new

/-- The key-downs considered can be read off the views of the feeds. -/
theorem considered_views (keys : List KeySpec) (fed : List (Feed α × List α)) :
    (fed.filter fun x => considers keys x.1).map (fun x => x.1.down) =
      ((fed.map fun x => x.1.view).filter fun v => keys.any fun key => key.accepts v.vk).map
        fun v => ⟨v.env.now, v.vk⟩ := by
  rw [List.filter_map, List.map_map]
  rfl

/-- What a chord fires goes by the key-downs it considers. -/
theorem considered_eq {fed : List (Feed α × List α)}
    (h : FiresAttempts keys window action [] fed) :
    ((fed.filter fun x => considers keys x.1).map fun x => (x.1.down, x.2)) =
      ((fed.filter fun x => considers keys x.1).map fun x => x.1.down).zip
        ((completions (chordJoin window) (chordDone keys window) []
          ((fed.filter fun x => considers keys x.1).map fun x => x.1.down)).map
              (fireIf action)) := by
  rw [← h.considered, List.zip_map']

/-- Whether a considered key-down fires is whether it completes an attempt. -/
theorem considered_flags {fed : List (Feed α × List α)}
    (h : FiresAttempts keys window action [] fed) :
    ((fed.filter fun x => considers keys x.1).map fun x => (x.1.down, x.2)).map
        (fun x => !x.2.isEmpty) =
      completions (chordJoin window) (chordDone keys window) []
        (((fed.filter fun x => considers keys x.1).map fun x => (x.1.down, x.2)).map
          Prod.fst) := by
  have hmap := congrArg (List.map fun fired => !fired.isEmpty) h.considered
  rw [List.map_map, List.map_map] at hmap
  rw [isEmpty_fireIf, List.map_id] at hmap
  rw [List.map_map, List.map_map]
  exact hmap

/-- **Chords are correct.** In every schedule of events that take fewer than 2^64
numbers, over a list that passes the loader's checks and has no two chords of the
same keys: the engine's visits of a chord fire its action on a key-down it considers
exactly where that completes an attempt, and nothing on any other; what the schedule
fires is what its visits and its gestures fire; timers do not change which key-downs
a chord considers, nor what it fires; and two chords of the same keys and window that
consider the same key-downs, in whatever schedules over whatever lists, fire on the
same ones. -/
theorem chord_correct {bindings : List (Binding α)} (hchecked : ChordsChecked bindings)
    {index : Nat} {b : Binding α} (hb : bindings[index]? = some b)
    (hkind : b.kind = .chord keys window) {events : List (KeyEvent × Env)}
    (hsorted : events.Pairwise fun x y => x.2.now ≤ y.2.now)
    (hfew : (new : Engine α).armingsOf (ops bindings events) < 2 ^ 64) {turns : List Turn}
    (hlegal : (schedules bindings).Legal (.start events) turns) :
    ChordCorrect keys window b.action (consideredBy bindings events turns index keys) ∧
      (∀ x ∈ feedsIn bindings events turns index, considers keys x.1 = false → x.2 = []) ∧
      (∀ s, .stop s ∈ (Timeline.start events).partsIn bindings turns → s.feed.index = index →
        s.fed = false → s.fired = []) ∧
      ((schedules bindings).run (.start events) turns).fired =
        ((Timeline.start events).partsIn bindings turns).flatMap Part.fired ∧
      (∀ turns', DecidesAll bindings events turns → DecidesAll bindings events turns' →
        consideredBy bindings events turns index keys =
          consideredBy bindings events turns' index keys) ∧
      ∀ (bindings' : List (Binding α)) (events' : List (KeyEvent × Env)) (turns' : List Turn)
        (index' : Nat) (b' : Binding α), ChordsChecked bindings' →
        bindings'[index']? = some b' → b'.kind = .chord keys window →
        (events'.Pairwise fun x y => x.2.now ≤ y.2.now) →
        (new : Engine α).armingsOf (ops bindings' events') < 2 ^ 64 →
        (schedules bindings').Legal (.start events') turns' →
        (consideredBy bindings events turns index keys).map Prod.fst =
          (consideredBy bindings' events' turns' index' keys).map Prod.fst →
        (consideredBy bindings events turns index keys).map (fun x => !x.2.isEmpty) =
          (consideredBy bindings' events' turns' index' keys).map fun x => !x.2.isEmpty := by
  have hfires : ∀ turns, (schedules bindings).Legal (.start events) turns →
      FiresAttempts keys window b.action [] (feedsIn bindings events turns index) :=
    fun turns hlegal => schedule_fires hchecked hb hkind hsorted hfew hlegal
  have hfired := hfires turns hlegal
  have hpunctual := schedule_punctual hsorted hfew hlegal
  refine ⟨?_, hfired.others, fun s hs hindex hskipped => ?_, run_fired bindings turns _, ?_, ?_⟩
  · refine chordCorrect_of_fires ?_ hfired
    rw [feedsIn_tables]
    exact (fedTo_sorted hpunctual).2
  · refine partsIn_idle hb (fun combo hcombo => ?_) hs hindex hskipped
    rw [hkind] at hcombo
    exact nomatch hcombo
  · intro turns' hall hall'
    have hdowns := considered_views keys (feedsIn bindings events turns index)
    rw [feedsIn_views hsorted hfew hall hall' index, ← considered_views] at hdowns
    unfold consideredBy
    rw [considered_eq hfired, considered_eq (hfires turns' hall'.legal), hdowns]
  · intro bindings' events' turns' index' b' hchecked' hb' hkind' hsorted' hfew' hlegal' hdowns
    have hfired' := schedule_fires hchecked' hb' hkind' hsorted' hfew' hlegal'
    unfold consideredBy at hdowns ⊢
    rw [considered_flags hfired, considered_flags hfired', hdowns]

theorem chordOfAB_checked : ChordsChecked [chordOfAB] := by
  refine ⟨fun b hb keys window hkind => ?_, fun i j b b' _ _ _ _ hb hb' _ _ _ => ?_⟩
  · rw [List.mem_singleton.mp hb] at hkind
    obtain ⟨rfl, rfl⟩ := BindingKind.chord.inj hkind
    exact ⟨by decide, by decide⟩
  · have hi := (List.getElem?_eq_some_iff.mp hb).1
    have hj := (List.getElem?_eq_some_iff.mp hb').1
    simp at hi hj
    omega

/-- A and B go down at once: the chord fires on B. -/
theorem chord_correct_ab :
    let events := [((⟨0x41, .down⟩ : KeyEvent), quiet 0), (⟨0x42, .down⟩, quiet 0)]
    let considered := consideredBy [chordOfAB] events [.key, .key] 0 [.key 0x41, .key 0x42]
    considered = [(⟨0, 0x41⟩, []), (⟨0, 0x42⟩, [()])] ∧
      ChordCorrect [.key 0x41, .key 0x42] 1 () considered := by
  intro events considered
  have hlegal : (schedules [chordOfAB]).Legal (.start events) [.key, .key] := by decide
  have hlisted : [chordOfAB][0]? = some chordOfAB := rfl
  exact ⟨by decide +kernel, (chord_correct chordOfAB_checked hlisted rfl (by decide) (by decide)
    hlegal).1⟩

/-! ## Numbers that wrap -/

/-- The key-downs considered in the run that wraps the numbers: A starts a chord, and
at time 1 a second one, which takes the number of the first; the first one's timer
comes, and B goes down. -/
theorem wrapped_considered {n : Nat} (hwrap : (3 + n) % 2 ^ 64 = 0) :
    consideredBy [chordOfAB] (wrappedEvents n)
        (wrappedTurns n [.key, .deliver firstExpiry, .key]) 0 [.key 0x41, .key 0x42] =
      [(⟨0, 0x41⟩, []), (⟨1, 0x41⟩, []), (⟨1, 0x42⟩, [])] := by
  have htouches := wrapped_touches (wrapped_start n) hwrap [.key, .deliver firstExpiry, .key]
  unfold consideredBy
  rw [feedsIn_tables, htouches]
  decide +kernel

/-- **Numbers that wrap can lose a chord.** In the events of `wrappedEvents` at
2^64 - 3 key-ups, with the first chord's timer handed back before B, the key-down
of B completes the second attempt within its window and fires nothing. -/
theorem wrapped_chord_lost :
    ∃ turns, ChordsChecked [chordOfAB] ∧
      (wrappedEvents (2 ^ 64 - 3)).Pairwise (fun x y => x.2.now ≤ y.2.now) ∧
      DecidesAll [chordOfAB] (wrappedEvents (2 ^ 64 - 3)) turns ∧
      ¬ChordCorrect [.key 0x41, .key 0x42] 1 ()
        (consideredBy [chordOfAB] (wrappedEvents (2 ^ 64 - 3)) turns 0
          [.key 0x41, .key 0x42]) := by
  have hwrap : (3 + (2 ^ 64 - 3)) % 2 ^ 64 = 0 := by decide
  generalize 2 ^ 64 - 3 = n at hwrap ⊢
  obtain ⟨-, hlate, -⟩ := wrapped_differ hwrap
  refine ⟨_, chordOfAB_checked, wrapped_sorted n, ⟨hlate.1, hlate.2.events⟩, fun hcorrect => ?_⟩
  rw [wrapped_considered hwrap] at hcorrect
  have hlost := hcorrect.fires [(⟨0, 0x41⟩, []), (⟨1, 0x41⟩, [])] ⟨1, 0x42⟩ [] [] rfl
  exact absurd hlost (by decide)

end KeySwitch.Engine
