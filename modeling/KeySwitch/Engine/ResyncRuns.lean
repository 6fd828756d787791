import KeySwitch.Engine.Resync
import KeySwitch.Engine.Ops
import KeySwitch.Lib.Machine

/-!
# What the modifier reads owe to the past

`Resync` keeps two counts, a note count, two sets and a flag. What they stand for is
a relation between a code and the calls made so far: `due c` says that something
could have hidden an event of `c` since `c` was last read, `touched c` that an event
of `c` is newer than the last plan that could read. Both are said here of the log of
the calls alone, the newest first, and `Agrees` says that the fields stand for them.
A plan then names the codes that are due and not touched, unless input is away
(`plan_names_due`).

The hiding count wraps. It starts one ahead of the count of the last read, so that
the agreement needs fewer than 2^64 moves with the start among them
(`start_forgotten`: one more, and the start is forgotten).
-/

namespace KeySwitch.Engine

open Data Lib

/-! ## Sets of codes -/

namespace ModifierSet

/-- Each code has a bit of its own. -/
theorem bit_twoPow : ∀ c ∈ MODIFIERS, ∃ i < 16, bit c = BitVec.twoPow 16 i := by
  decide

variable {c : VirtualKey}

theorem contains_eq_bit (hc : c ∈ MODIFIERS) :
    ∃ i < 16, ∀ s : ModifierSet, s.contains c = s.bits.getLsbD i := by
  obtain ⟨i, hi, hbit⟩ := bit_twoPow c hc
  refine ⟨i, hi, fun s => ?_⟩
  have hne : BitVec.twoPow 16 i ≠ 0#16 := by
    intro h
    have hlsb := congrArg (fun x : BitVec 16 => x.getLsbD i) h
    simp [hi] at hlsb
  unfold contains
  rw [hbit, BitVec.and_twoPow]
  cases s.bits.getLsbD i with
  | true => simpa using hne
  | false => simp

theorem contains_union (hc : c ∈ MODIFIERS) (s s' : ModifierSet) :
    (s.union s').contains c = (s.contains c || s'.contains c) := by
  obtain ⟨i, -, hset⟩ := contains_eq_bit hc
  rw [hset, hset, hset]
  exact BitVec.getLsbD_or

theorem contains_without (hc : c ∈ MODIFIERS) (s s' : ModifierSet) :
    (s.without s').contains c = (s.contains c && !s'.contains c) := by
  obtain ⟨i, hi, hset⟩ := contains_eq_bit hc
  rw [hset, hset, hset]
  show (s.bits &&& ~~~s'.bits).getLsbD i = _
  rw [BitVec.getLsbD_and, BitVec.getLsbD_not, decide_eq_true hi, Bool.true_and]

theorem contains_empty (c : VirtualKey) : empty.contains c = false := by
  unfold contains empty
  simp

theorem contains_all : ∀ c ∈ MODIFIERS, all.contains c = true := by
  decide

end ModifierSet

namespace Resync

/-! ## The calls and their log -/

/-- One call into a `Resync`. -/
inductive Call
  | bump
  | inputLeft
  | inputReturned
  | event (vk : VirtualKey) (decided : Bool)
  | readEverything
  | plan (notes : Nat)
  deriving DecidableEq, Repr

/-- The call, and the codes it names if it is a plan. -/
def call (r : Resync) : Call → Resync × ModifierSet
  | .bump => (r.bump, .empty)
  | .inputLeft => (r.inputLeft, .empty)
  | .inputReturned => (r.inputReturned, .empty)
  | .event vk decided => (r.event vk decided, .empty)
  | .readEverything => (r.readEverything, .empty)
  | .plan notes => r.plan notes

/-- The machine of the calls. -/
def calls : Machine Resync Call ModifierSet := ⟨call, fun _ _ => True⟩

/-- The calls made and what each named, the newest first. -/
abbrev Log := List (Call × ModifierSet)

/-- The log of the calls `cs` since the daemon's start. -/
def log (cs : List Call) : Log :=
  ((calls.trace new cs).map fun m => (m.input, m.output)).reverse

theorem log_snoc (cs : List Call) (c : Call) :
    log (cs ++ [c]) = (c, ((calls.run new cs).call c).2) :: log cs := by
  unfold log
  rw [calls.trace_append, List.map_append, List.reverse_append]
  rfl

/-! ## What the log says -/

/-- Whether keyboard input is known to be away: it left, and neither came back nor was
an event decided since. -/
def away : Log → Bool
  | [] => false
  | (.inputLeft, _) :: _ => true
  | (.inputReturned, _) :: _ => false
  | (.event _ true, _) :: _ => false
  | _ :: l => away l

/-- The note count of the latest plan. -/
def lastNotes : Log → Nat
  | [] => 0
  | (.plan notes, _) :: _ => notes
  | _ :: l => lastNotes l

/-- Whether a call after `l` says that input may have been hidden. -/
def hides (c : Call) (l : Log) : Bool :=
  match c with
  | .bump | .inputLeft | .inputReturned => true
  | .plan notes => notes != lastNotes l
  | .event _ _ | .readEverything => false

/-- How often the hiding count moved. -/
def moves : Log → Nat
  | [] => 0
  | (c, _) :: l => moves l + (hides c l).toNat

/-- Whether the call covers the code `c`: a plan that named it, or a read of every
key. -/
def covers (c : VirtualKey) (entry : Call × ModifierSet) : Bool :=
  match entry.1 with
  | .readEverything => true
  | _ => entry.2.contains c

/-- Whether something that can hide input happened since `c` was last covered; the
daemon's start is the first such thing. -/
def due (c : VirtualKey) : Log → Bool
  | [] => true
  | entry :: l => if covers c entry then false else hides entry.1 l || due c l

/-- Whether an event touched `c` since the last plan made while input was not away, or
since every key was read. -/
def touched (c : VirtualKey) : Log → Bool
  | [] => false
  | (.event vk _, _) :: l => (ModifierSet.touchedBy vk).contains c || touched c l
  | (.readEverything, _) :: _ => false
  | (.plan _, _) :: l => away l && touched c l
  | _ :: l => touched c l

/-- Whether a plan with the note count `notes`, made after `l`, finds `c` due. -/
def dueAt (notes : Nat) (c : VirtualKey) (l : Log) : Bool :=
  hides (.plan notes) l || due c l

/-! ## The fields stand for the log -/

/-- What the fields of a `Resync` stand for after the calls of `l`. -/
structure Agrees (r : Resync) (l : Log) : Prop where
  away : r.inputAway = away l
  notes : r.notesSeen = lastNotes l
  count : r.hidingCount = 1 + moves l
  read : r.resynced ≤ r.hidingCount
  fresh : ∀ c ∈ MODIFIERS, r.fresh.contains c = touched c l
  due : ∀ c ∈ MODIFIERS, due c l = (r.hidingCount != r.resynced || r.owed.contains c)

theorem agrees_new : Agrees new [] where
  away := rfl
  notes := rfl
  count := rfl
  read := by decide
  fresh c _ := ModifierSet.contains_empty c
  due c _ := rfl

theorem moves_cons (c : Call) (named : ModifierSet) (l : Log) :
    moves ((c, named) :: l) = moves l + (hides c l).toNat := rfl

theorem due_cons (k : VirtualKey) (entry : Call × ModifierSet) (l : Log) :
    Resync.due k (entry :: l) =
      if covers k entry then false else hides entry.1 l || Resync.due k l := rfl

/-- The count and what is due, after a call that may move the count. -/
structure Moved (r : Resync) (c : Call) (l : Log) : Prop where
  count : r.hidingCount = 1 + moves l + (hides c l).toNat
  read : r.resynced ≤ r.hidingCount
  due : ∀ k ∈ MODIFIERS,
    (hides c l || Resync.due k l) = (r.hidingCount != r.resynced || r.owed.contains k)

/-- A call that hides input moves the count past the count of the last read. -/
theorem moved_bump {r : Resync} {l : Log} (h : Agrees r l) {c : Call} (hhides : hides c l = true)
    (hlimit : moves l + 1 < 2 ^ 64 - 1) {r' : Resync}
    (hcount : r'.hidingCount = (r.hidingCount + 1) % 2 ^ 64) (hread : r'.resynced = r.resynced) :
    Moved r' c l := by
  have hle := h.read
  have hnow := h.count
  have hnext : r'.hidingCount = r.hidingCount + 1 := by
    rw [hcount, Nat.mod_eq_of_lt (by omega)]
  have hahead : (r'.hidingCount != r'.resynced) = true := by
    rw [bne_iff_ne]
    omega
  refine ⟨?_, by omega, fun k _ => ?_⟩
  · rw [hnext, hnow, hhides]
    rfl
  · rw [hahead, hhides, Bool.true_or, Bool.true_or]

theorem moved_idle {r : Resync} {l : Log} (h : Agrees r l) {c : Call} (hhides : hides c l = false)
    {r' : Resync} (hcount : r'.hidingCount = r.hidingCount) (hread : r'.resynced = r.resynced)
    (howed : r'.owed = r.owed) : Moved r' c l := by
  refine ⟨?_, ?_, fun k hk => ?_⟩
  · rw [hcount, hhides, h.count]
    rfl
  · rw [hcount, hread]
    exact h.read
  · rw [hcount, hread, howed, hhides, Bool.false_or]
    exact h.due k hk

/-- A call that covers no code. -/
theorem agrees_of_moved {r : Resync} {c : Call} {l : Log} (h : Moved r c l) {named : ModifierSet}
    (hcovers : ∀ k, covers k (c, named) = false)
    (haway : r.inputAway = Resync.away ((c, named) :: l))
    (hnotes : r.notesSeen = lastNotes ((c, named) :: l))
    (hfresh : ∀ k ∈ MODIFIERS, r.fresh.contains k = touched k ((c, named) :: l)) :
    Agrees r ((c, named) :: l) := by
  refine ⟨haway, hnotes, ?_, h.read, hfresh, fun k hk => ?_⟩
  · rw [h.count, moves_cons, Nat.add_assoc]
  · rw [due_cons, hcovers k, if_neg (by decide)]
    exact h.due k hk

theorem event_agrees {r : Resync} {l : Log} (h : Agrees r l) (vk : VirtualKey) (decided : Bool) :
    Agrees (r.event vk decided) ((.event vk decided, .empty) :: l) := by
  have hmoved : Moved (r.event vk decided) (.event vk decided) l := moved_idle h rfl rfl rfl rfl
  refine agrees_of_moved hmoved (fun k => ModifierSet.contains_empty k) ?_ h.notes ?_
  · show (r.inputAway && !decided) = _
    rw [h.away]
    cases decided with
    | true => exact Bool.and_false _
    | false => exact Bool.and_true _
  · intro k hk
    show (r.fresh.union (ModifierSet.touchedBy vk)).contains k = _
    rw [ModifierSet.contains_union hk, h.fresh k hk, Bool.or_comm]
    rfl

theorem readEverything_agrees {r : Resync} {l : Log} (h : Agrees r l) :
    Agrees r.readEverything ((.readEverything, .empty) :: l) := by
  refine ⟨h.away, h.notes, h.count, Nat.le_refl _, fun k _ => ModifierSet.contains_empty k,
    fun k _ => ?_⟩
  show false = (r.hidingCount != r.hidingCount || ModifierSet.empty.contains k)
  rw [bne_self_eq_false, ModifierSet.contains_empty]
  rfl

/-! ## A plan -/

/-- The first half of a plan: a changed note count moves the hiding count. -/
def noteChange (r : Resync) (notes : Nat) : Resync :=
  if notes != r.notesSeen then { r with notesSeen := notes }.bump else r

theorem noteChange_moved {r : Resync} {l : Log} (h : Agrees r l) {notes : Nat}
    (hlimit : moves l + (hides (.plan notes) l).toNat < 2 ^ 64 - 1) :
    Moved (r.noteChange notes) (.plan notes) l ∧ (r.noteChange notes).notesSeen = notes ∧
      (r.noteChange notes).inputAway = Resync.away l ∧
      ∀ k ∈ MODIFIERS, (r.noteChange notes).fresh.contains k = touched k l := by
  have hhides : hides (.plan notes) l = (notes != r.notesSeen) := by
    rw [h.notes]
    rfl
  unfold noteChange
  cases hchanged : notes != r.notesSeen with
  | true =>
    rw [hchanged] at hhides
    rw [hhides] at hlimit
    exact ⟨moved_bump h hhides hlimit rfl rfl, rfl, h.away, h.fresh⟩
  | false =>
    rw [hchanged] at hhides
    exact ⟨moved_idle h hhides rfl rfl rfl, (bne_eq_false_iff_eq.mp hchanged).symm, h.away,
      h.fresh⟩

/-- What a plan would read if no event were newer. -/
def planned (r : Resync) : ModifierSet :=
  if r.hidingCount != r.resynced then ModifierSet.all else r.owed

theorem planned_contains (r : Resync) {k : VirtualKey} (hk : k ∈ MODIFIERS) :
    r.planned.contains k = (r.hidingCount != r.resynced || r.owed.contains k) := by
  unfold planned
  cases r.hidingCount != r.resynced with
  | true => rw [if_pos rfl, ModifierSet.contains_all k hk, Bool.true_or]
  | false => rw [if_neg (by decide), Bool.false_or]

theorem plan_away {r : Resync} {notes : Nat} (h : (r.noteChange notes).inputAway = true) :
    r.plan notes = (r.noteChange notes, .empty) := by
  show (if (r.noteChange notes).inputAway then _ else _) = _
  rw [if_pos h]
  rfl

theorem plan_here {r : Resync} {notes : Nat} (h : (r.noteChange notes).inputAway = false) :
    r.plan notes =
      let noted := r.noteChange notes
      let read := noted.planned.without noted.fresh
      ({ noted with
          resynced := noted.hidingCount, owed := noted.planned.without read, fresh := .empty },
        read) := by
  show (if (r.noteChange notes).inputAway then _ else _) = _
  rw [h, if_neg (by decide)]
  rfl

/-- What a plan names: the codes that are due and not touched, unless input is away. -/
theorem plan_named {r : Resync} {l : Log} (h : Agrees r l) {notes : Nat}
    (hlimit : moves l + (hides (.plan notes) l).toNat < 2 ^ 64 - 1) {k : VirtualKey}
    (hk : k ∈ MODIFIERS) :
    (r.plan notes).2.contains k = (!Resync.away l && dueAt notes k l && !touched k l) := by
  obtain ⟨hmoved, -, haway, hfresh⟩ := noteChange_moved h hlimit
  cases hl : Resync.away l with
  | true =>
    rw [plan_away (haway.trans hl), ModifierSet.contains_empty]
    rfl
  | false =>
    rw [plan_here (haway.trans hl)]
    dsimp only
    rw [ModifierSet.contains_without hk, planned_contains _ hk, ← hmoved.due k hk, hfresh k hk]
    rfl

theorem plan_agrees {r : Resync} {l : Log} (h : Agrees r l) {notes : Nat}
    (hlimit : moves l + (hides (.plan notes) l).toNat < 2 ^ 64 - 1) :
    Agrees (r.plan notes).1 ((.plan notes, (r.plan notes).2) :: l) := by
  obtain ⟨hmoved, hnotes, haway, hfresh⟩ := noteChange_moved h hlimit
  cases hl : Resync.away l with
  | true =>
    rw [plan_away (haway.trans hl)]
    refine agrees_of_moved hmoved (fun k => ModifierSet.contains_empty k) haway hnotes ?_
    intro k hk
    show _ = (Resync.away l && touched k l)
    rw [hl, Bool.true_and]
    exact hfresh k hk
  | false =>
    have hnamed := fun k hk => plan_named h hlimit (k := k) hk
    rw [plan_here (haway.trans hl)] at hnamed ⊢
    dsimp only at hnamed ⊢
    refine ⟨haway, hnotes, ?_, Nat.le_refl _, fun k _ => ?_, fun k hk => ?_⟩
    · show (r.noteChange notes).hidingCount = _
      rw [hmoved.count, moves_cons, Nat.add_assoc]
    · show ModifierSet.empty.contains k = (Resync.away l && touched k l)
      rw [ModifierSet.contains_empty, hl, Bool.false_and]
    · -- What is due and not named is owed.
      rw [due_cons]
      unfold covers
      dsimp only
      rw [hnamed k hk, hl, bne_self_eq_false, Bool.false_or, ModifierSet.contains_without hk,
        hnamed k hk, hl, planned_contains _ hk, ← hmoved.due k hk]
      unfold dueAt
      cases (hides (.plan notes) l || Resync.due k l) <;> cases touched k l <;> rfl

/-! ## Runs -/

/-- **One call** keeps the agreement, below the limit. -/
theorem call_agrees {r : Resync} {l : Log} (h : Agrees r l) (c : Call)
    (hlimit : moves l + (hides c l).toNat < 2 ^ 64 - 1) :
    Agrees (r.call c).1 ((c, (r.call c).2) :: l) := by
  have hbumped : ∀ {r' : Resync}, hides c l = true → (∀ k, covers k (c, .empty) = false) →
      r'.hidingCount = (r.hidingCount + 1) % 2 ^ 64 → r'.resynced = r.resynced →
      r'.inputAway = Resync.away ((c, .empty) :: l) →
      r'.notesSeen = lastNotes ((c, .empty) :: l) →
      (∀ k ∈ MODIFIERS, r'.fresh.contains k = touched k ((c, .empty) :: l)) →
      Agrees r' ((c, .empty) :: l) := by
    intro r' hhides hcovers hcount hread haway hnotes hfresh
    rw [hhides] at hlimit
    exact agrees_of_moved (moved_bump h hhides hlimit hcount hread) hcovers haway hnotes hfresh
  cases c with
  | bump =>
    exact hbumped rfl (fun k => ModifierSet.contains_empty k) rfl rfl h.away h.notes h.fresh
  | inputLeft =>
    exact hbumped rfl (fun k => ModifierSet.contains_empty k) rfl rfl rfl h.notes h.fresh
  | inputReturned =>
    exact hbumped rfl (fun k => ModifierSet.contains_empty k) rfl rfl rfl h.notes h.fresh
  | event vk decided => exact event_agrees h vk decided
  | readEverything => exact readEverything_agrees h
  | plan notes => exact plan_agrees h hlimit

theorem run_agrees (cs : List Call) (hlimit : moves (log cs) < 2 ^ 64 - 1) :
    Agrees (calls.run new cs) (log cs) := by
  induction cs using List.reverseRecOn with
  | nil => exact agrees_new
  | append_singleton cs c ih =>
    rw [log_snoc, moves_cons] at hlimit
    rw [log_snoc, calls.run_append]
    exact call_agrees (ih (by omega)) c hlimit

theorem moves_append (cs ds : List Call) : moves (log cs) ≤ moves (log (cs ++ ds)) := by
  induction ds using List.reverseRecOn with
  | nil => rw [List.append_nil]
  | append_singleton ds d ih =>
    rw [← List.append_assoc, log_snoc, moves_cons]
    omega

/-! ## The result -/

/-- In every run of calls whose count moves less than `limit` times after the start,
a plan names a code iff input is not away, the code is due and no event touched it. -/
def NamesWhatIsDue (limit : Nat) : Prop :=
  ∀ (cs : List Call) (notes : Nat), moves (log (cs ++ [.plan notes])) < limit →
    ∀ c ∈ MODIFIERS, ((calls.run new cs).plan notes).2.contains c = true ↔
      away (log cs) = false ∧ dueAt notes c (log cs) = true ∧ touched c (log cs) = false

/-- The plan after `cs` leaves `c` out for no other reason than that it was touched. -/
structure LeftOut (cs : List Call) (notes : Nat) (c : VirtualKey) : Prop where
  here : away (log cs) = false
  due : dueAt notes c (log cs) = true
  touched : touched c (log cs) = true

/-- Every plan of `ds`, called after `cs`, is made while input is away or finds `c`
freshly touched. -/
def TouchedAgain (cs ds : List Call) (c : VirtualKey) : Prop :=
  ∀ ds₁ notes ds₂, ds = ds₁ ++ .plan notes :: ds₂ →
    away (log (cs ++ ds₁)) = true ∨ touched c (log (cs ++ ds₁)) = true

/-- A code left out is named by the first later plan, made while input is not away, at
which it is not freshly touched; `between` says what may be called before it. -/
def NamesWhatItLeftOut (limit : Nat) (between : List Call → Prop) : Prop :=
  ∀ (cs ds : List Call) (notes notes' : Nat),
    moves (log (cs ++ .plan notes :: ds ++ [.plan notes'])) < limit → between ds →
      ∀ c ∈ MODIFIERS, LeftOut cs notes c → TouchedAgain (cs ++ [.plan notes]) ds c →
        away (log (cs ++ .plan notes :: ds)) = false →
          touched c (log (cs ++ .plan notes :: ds)) = false →
            ((calls.run new (cs ++ .plan notes :: ds)).plan notes').2.contains c = true

theorem plan_names_due : NamesWhatIsDue (2 ^ 64 - 1) := by
  intro cs notes hlimit c hc
  rw [log_snoc, moves_cons] at hlimit
  rw [plan_named (run_agrees cs (by omega)) hlimit hc, Bool.and_eq_true, Bool.and_eq_true,
    Bool.not_eq_true', Bool.not_eq_true', and_assoc]

/-- A code that is due stays due until a call covers it. -/
theorem due_stays {cs ds : List Call} {c : VirtualKey} (hc : c ∈ MODIFIERS)
    (hlimit : moves (log (cs ++ ds)) < 2 ^ 64 - 1) (hdue : due c (log cs) = true)
    (hread : .readEverything ∉ ds) (htouched : TouchedAgain cs ds c) :
    due c (log (cs ++ ds)) = true := by
  induction ds using List.reverseRecOn with
  | nil =>
    rw [List.append_nil]
    exact hdue
  | append_singleton ds d ih =>
    have hbefore : due c (log (cs ++ ds)) = true := by
      refine ih ?_ (fun hmem => hread (List.mem_append_left _ hmem)) ?_
      · have hle := moves_append (cs ++ ds) [d]
        rw [List.append_assoc] at hle
        omega
      · rintro ds₁ notes ds₂ rfl
        exact htouched ds₁ notes (ds₂ ++ [d]) (by simp)
    rw [← List.append_assoc] at hlimit ⊢
    have hcovers : covers c (d, ((calls.run new (cs ++ ds)).call d).2) = false := by
      cases d with
      | readEverything => exact absurd (List.mem_append_right _ (List.mem_singleton.mpr rfl)) hread
      | bump | inputLeft | inputReturned | event => exact ModifierSet.contains_empty c
      | plan notes =>
        show ((calls.run new (cs ++ ds)).plan notes).2.contains c = false
        rw [Bool.eq_false_iff, ne_eq, plan_names_due (cs ++ ds) notes hlimit c hc]
        rintro ⟨haway, -, hfree⟩
        rcases htouched ds notes [] rfl with h | h
        · rw [haway] at h
          exact absurd h (by decide)
        · rw [hfree] at h
          exact absurd h (by decide)
    rw [log_snoc, due_cons, hcovers, if_neg (by decide), hbefore, Bool.or_true]

/-- **No hidden input is forgotten**, as long as the hiding count moves fewer than 2^64
times, the daemon's start being the first: a plan names the codes that are due and not
touched, and a code left out because it was touched is named by the first plan that
finds it not touched again, unless every key is read before. -/
theorem no_hidden_input_forgotten :
    NamesWhatIsDue (2 ^ 64 - 1) ∧
      NamesWhatItLeftOut (2 ^ 64 - 1) fun ds => .readEverything ∉ ds := by
  refine ⟨plan_names_due, ?_⟩
  intro cs ds notes notes' hlimit hread c hc hleft htouched haway hfree
  have hsplit : cs ++ .plan notes :: ds = cs ++ [.plan notes] ++ ds := by
    rw [List.append_assoc, List.singleton_append]
  rw [hsplit] at hlimit haway hfree ⊢
  have hlimit' := moves_append (cs ++ [.plan notes] ++ ds) [.plan notes']
  have hlimit'' := moves_append (cs ++ [.plan notes]) ds
  have hnamed : ((calls.run new cs).plan notes).2.contains c = false := by
    rw [Bool.eq_false_iff, ne_eq, plan_names_due cs notes (by omega) c hc]
    rintro ⟨-, -, hno⟩
    rw [hleft.touched] at hno
    exact absurd hno (by decide)
  have hdue : due c (log (cs ++ [.plan notes])) = true := by
    have hcovers : covers c (.plan notes, ((calls.run new cs).call (.plan notes)).2) = false :=
        hnamed
    rw [log_snoc, due_cons, hcovers, if_neg (by decide)]
    exact hleft.due
  rw [plan_names_due _ notes' hlimit c hc]
  refine ⟨haway, ?_, hfree⟩
  unfold dueAt
  rw [due_stays hc (by omega) hdue hread htouched, Bool.or_true]

/-! ## Where the count wraps -/

theorem run_bumps (n : Nat) :
    calls.run new (List.replicate n .bump) = { new with hidingCount := (1 + n) % 2 ^ 64 } := by
  induction n with
  | zero => rfl
  | succ n ih =>
    rw [List.replicate_succ', calls.run_append, ih]
    show ({ new with hidingCount := ((1 + n) % 2 ^ 64 + 1) % 2 ^ 64 } : Resync) = _
    rw [Nat.mod_add_mod, Nat.add_assoc]

theorem log_bumps (n : Nat) :
    log (List.replicate n .bump) = List.replicate n (.bump, .empty) := by
  induction n with
  | zero => rfl
  | succ n ih =>
    rw [List.replicate_succ', log_snoc, ih]
    rfl

/-- A log of bumps alone: every code is due and none is touched. -/
theorem bumps_due (n : Nat) (c : VirtualKey) :
    let l : Log := List.replicate n (.bump, .empty)
    moves l = n ∧ away l = false ∧ lastNotes l = 0 ∧ due c l = true ∧ touched c l = false := by
  induction n with
  | zero => exact ⟨rfl, rfl, rfl, rfl, rfl⟩
  | succ n ih =>
    obtain ⟨hmoves, haway, hnotes, hdue, htouched⟩ := ih
    refine ⟨?_, haway, hnotes, ?_, htouched⟩
    · show moves _ + 1 = n + 1
      rw [hmoves]
    · show (if covers c (.bump, .empty) then false else true) = true
      rw [if_neg]
      unfold covers
      rw [ModifierSet.contains_empty]
      decide

/-- One move more and the start is forgotten: 2^64 - 1 bumps bring the count back to
that of the last read, and the first plan reads nothing. And a code left out is not
read again if every key was read since. -/
theorem start_forgotten :
    ¬NamesWhatIsDue (2 ^ 64) ∧ ¬NamesWhatItLeftOut (2 ^ 64) fun _ => True := by
  refine ⟨fun h => ?_, fun h => ?_⟩
  · obtain ⟨hmoves, haway, hnotes, hdue, htouched⟩ := bumps_due (2 ^ 64 - 1) VK_SHIFT
    rw [← log_bumps] at hmoves haway hnotes hdue htouched
    have hquiet : hides (.plan 0) (log (List.replicate (2 ^ 64 - 1) .bump)) = false := by
      unfold hides
      rw [hnotes]
      rfl
    have hnamed := h (List.replicate (2 ^ 64 - 1) .bump) 0
      (by rw [log_snoc, moves_cons, hquiet, hmoves]; decide) VK_SHIFT (by decide)
    have hyes := hnamed.mpr ⟨haway, by unfold dueAt; rw [hdue, Bool.or_true], htouched⟩
    rw [run_bumps] at hyes
    exact absurd hyes (by decide)
  · have hnamed := h [.event VK_LSHIFT true] [.readEverything] 0 0 (by decide) trivial VK_LSHIFT
      (by decide) ⟨by decide, by decide, by decide⟩ ?_ (by decide) (by decide)
    · exact absurd hnamed (by decide)
    · intro ds₁ notes ds₂ hsplit
      have hmem : Call.plan notes ∈ [Call.readEverything] := by
        rw [hsplit]
        simp
      exact absurd hmem (by simp)

/-- `LShift` pressed before the first plan, which leaves it out, is named by the next. -/
theorem no_hidden_input_forgotten_lshift :
    ((calls.run new [.event VK_LSHIFT true, .plan 0]).plan 0).2.contains VK_LSHIFT = true :=
  no_hidden_input_forgotten.2 [.event VK_LSHIFT true] [] 0 0 (by decide) (by simp) VK_LSHIFT
    (by decide) ⟨by decide, by decide, by decide⟩ (fun _ _ _ h => absurd h (by simp)) (by decide)
    (by decide)

end Resync

/-! ## The engine's calls -/

variable {α : Type}

/-- The calls that one call into the engine makes of its `Resync`. -/
def resyncCalls : Op α → List Resync.Call
  | .key event _ _ => [.event event.vk true]
  | .reset _ reason =>
    match reason with
    | .remappingSwitched | .hookReinstalled => [.readEverything]
    | .reloaded => []
    | .inputLeft => [.inputLeft]
  | .foregroundChanged => [.bump]
  | .resyncIfDue _ notes => [.plan notes]
  | .inputReturned => [.inputReturned]
  | .trackInjected event => [.event event.vk false]
  | .timer _ | .forget _ => []

theorem walk_resync (e : Engine α) (k : KeyDown α) (bindings : List (Binding α)) :
    (e.walk k bindings).1.resync = e.resync := by
  unfold walk
  rw [(visits_frame k bindings.zipIdx _).2.1]
  split <;> rfl

theorem onKey_resync (e : Engine α) (event : KeyEvent) (bindings : List (Binding α)) (env : Env) :
    (e.onKey event bindings env).1.resync = e.resync.event event.vk true := by
  unfold onKey
  cases event.direction with
  | down =>
    show (walk _ _ bindings).1.resync = _
    rw [walk_resync]
  | up => rfl

theorem onTimer_resync (e : Engine α) (token : TimerToken) :
    (e.onTimer token).1.resync = e.resync := by
  unfold onTimer
  split
  · rfl
  · split <;> rfl

theorem forgetTimer_resync (e : Engine α) (token : TimerToken) :
    (e.forgetTimer token).1.resync = e.resync := by
  unfold forgetTimer
  split
  · rfl
  · split <;> rfl

/-- **Every call into the engine** drives its `Resync` by the calls named here. -/
theorem step_resync (e : Engine α) (op : Op α) :
    (e.step op).1.resync = Resync.calls.run e.resync (resyncCalls op) := by
  cases op with
  | key event bindings env => exact onKey_resync e event bindings env
  | timer token => exact onTimer_resync e token
  | forget token => exact forgetTimer_resync e token
  | reset env reason => cases reason <;> rfl
  | foregroundChanged => rfl
  | resyncIfDue env notes =>
    show (e.resyncIfDue env notes).1.resync = (e.resync.plan notes).1
    unfold resyncIfDue
    dsimp only
    split <;> rfl
  | inputReturned => rfl
  | trackInjected event => rfl

/-- A run of the engine is one of its `Resync`, which the results above are about. -/
theorem run_resync (ops : List (Op α)) :
    (operations.run Engine.new ops).resync =
      Resync.calls.run Resync.new (ops.flatMap resyncCalls) := by
  have hrun : ∀ (ops : List (Op α)) (e : Engine α),
      (operations.run e ops).resync = Resync.calls.run e.resync (ops.flatMap resyncCalls) := by
    intro ops
    induction ops with
    | nil => exact fun _ => rfl
    | cons op ops ih =>
      intro e
      rw [operations.run_cons, ih, List.flatMap_cons, Resync.calls.run_append, ← step_resync]
      rfl
  exact hrun ops Engine.new

end KeySwitch.Engine
