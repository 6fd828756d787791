import KeySwitch.Lib.Checked
import Mathlib.Data.List.Count

/-!
# Counting raw keyboard records

The watchdog compares what the keyboard hook saw with the raw input Windows delivered
beside it. One buffered read gives many records in one buffer, each as long as its own
header says, the next at the next pointer boundary. `countRawKeys` walks them: it counts
the key events the hook would have seen, and as unread every record it cannot read.

The walk never reads outside the buffer and its arithmetic never overflows, whatever the
bytes are. It counts what a `Walk` of the records says (`countFrom_walk`), and every
buffer has one (`walk_exists`).
-/

namespace KeySwitch.Hook

open Lib

/-! ## Layout -/

/-- What the daemon is built for. -/
inductive Target
  | bits32
  | bits64
  deriving DecidableEq, Repr

namespace Target

/-- The bits of a `usize`. -/
def width : Target → Nat
  | bits32 => 32
  | bits64 => 64

/-- The bytes of a pointer, `RAWINPUT_ALIGN`. -/
def pointer : Target → Nat
  | bits32 => 4
  | bits64 => 8

/-- The bytes of a `RAWINPUTHEADER`: type, size, a handle and a message parameter. -/
def header (t : Target) : Nat := 8 + 2 * t.pointer

/-- Where the data of a `RAWINPUT` begins. -/
def body (t : Target) : Nat := t.header

end Target

/-- Offsets in a `RAWINPUTHEADER`. -/
def DW_TYPE : Nat := 0
def DW_SIZE : Nat := 4
/-- Offsets in a `RAWKEYBOARD`, and its size. -/
def MAKE_CODE : Nat := 0
def V_KEY : Nat := 6
def RAWKEYBOARD_SIZE : Nat := 16
def RIM_TYPEKEYBOARD : Nat := 1
/-- The make code of a keyboard overrun: no key. -/
def KEYBOARD_OVERRUN_MAKE_CODE : Nat := 0xFF

/-- A slice of bytes. It takes at most half of the address space. -/
structure Bytes (t : Target) where
  data : List UInt8
  short : data.length < 2 ^ (t.width - 1)

/-! ## One event -/

/-- Whether a raw keyboard event reaches the keyboard hook: no overrun, and a virtual key
of the hook's documented range. -/
def qualifies (makeCode vkey : Nat) : Bool :=
  makeCode != KEYBOARD_OVERRUN_MAKE_CODE && 1 ≤ vkey && vkey ≤ 254

/-- A `RAWINPUT`: its type, and what its data has as a keyboard's. -/
structure RawInput where
  kind : Nat
  makeCode : Nat
  vkey : Nat

/-- The standard read of one event, `none` if it failed: whether it is a key event that
the hook would see, and how many events are counted as unread. -/
def rawKeyEvent : Option RawInput → Bool × Nat
  | none => (false, 1)
  | some raw =>
    if raw.kind ≠ RIM_TYPEKEYBOARD then (false, 0) else (qualifies raw.makeCode raw.vkey, 0)

/-! ## The walk -/

/-- What one buffered read held. -/
structure BlockCount where
  keys : Nat
  unread : Nat
  deriving DecidableEq, Repr

/-- A number from its bytes, the lowest first. -/
def fromLe : List UInt8 → Nat
  | [] => 0
  | byte :: rest => byte.toNat + 256 * fromLe rest

/-- The number in the `size` bytes at `start`, if they are there. -/
def numberAt {t : Target} (bytes : Bytes t) (start size : Nat) : Option Nat :=
  (addFits t.width start size).bind fun stop =>
    if stop ≤ bytes.data.length then some (fromLe ((bytes.data.drop start).take size)) else none

def u32At {t : Target} (bytes : Bytes t) (start : Nat) : Option Nat := numberAt bytes start 4

def u16At {t : Target} (bytes : Bytes t) (start : Nat) : Option Nat := numberAt bytes start 2

/-- `a` or the next multiple of `n` after it. -/
def nextMultipleOf (w a n : Nat) : Option Nat :=
  if a % n = 0 then some a else addFits w a (n - a % n)

namespace BlockCount

def addKey (block : BlockCount) : Option BlockCount :=
  (addFits 64 block.keys 1).map fun keys => { block with keys := keys }

/-- `n` records more that could not be read. -/
def addUnread (block : BlockCount) (n : Nat) : Option BlockCount :=
  (addFits 64 block.unread n).map fun unread => { block with unread := unread }

end BlockCount

/-- Counts the record at `start`; `none` if a step of it overflows. -/
def countRecord {t : Target} (bytes : Bytes t) (start kind size : Nat) (block : BlockCount) :
    Option BlockCount :=
  if kind ≠ RIM_TYPEKEYBOARD then some block
  else if t.body + RAWKEYBOARD_SIZE ≤ size then
    (addFits t.width start t.body).bind fun data =>
    (addFits t.width data MAKE_CODE).bind fun makeAt =>
    (addFits t.width data V_KEY).bind fun vkeyAt =>
      match u16At bytes makeAt, u16At bytes vkeyAt with
      | some makeCode, some vkey => if qualifies makeCode vkey then block.addKey else some block
      | _, _ => some block
  else block.addUnread 1

/-- The turns of the loop for the last `left` records, the first of them at `start`;
`none` if a step overflows. -/
def countFrom {t : Target} (bytes : Bytes t) : Nat → Nat → BlockCount → Option BlockCount
  | 0, _, block => some block
  | left + 1, start, block =>
    (addFits t.width start DW_TYPE).bind fun kindAt =>
    (addFits t.width start DW_SIZE).bind fun sizeAt =>
      match u32At bytes kindAt, u32At bytes sizeAt with
      | some kind, some size =>
        -- A sum past `usize` saturates: it is past the buffer too.
        if size < t.header ∨ bytes.data.length < min (start + size) (2 ^ t.width - 1) then
          block.addUnread (left + 1)
        else
          (countRecord bytes start kind size block).bind fun block =>
          (addFits t.width start size).bind fun past =>
          (nextMultipleOf t.width past t.pointer).bind fun next => countFrom bytes left next block
      | _, _ => block.addUnread (left + 1)

/-- Counts the key events among the `count` records that a buffered read wrote. -/
def countRawKeys {t : Target} (bytes : Bytes t) (count : UInt32) : Option BlockCount :=
  countFrom bytes count.toNat 0 ⟨0, 0⟩

/-! ## The records of a buffer -/

/-- A record: where it starts, its type and its size. -/
structure RawRecord where
  start : Nat
  kind : Nat
  size : Nat
  deriving DecidableEq, Repr

section Records

variable {t : Target} (bytes : Bytes t)

/-- The number in the `size` bytes at `start`. -/
def leAt (start size : Nat) : Nat := fromLe ((bytes.data.drop start).take size)

/-- The record at `start`, if its header and its size fit. -/
def recordAt (start : Nat) : Option RawRecord :=
  let size := leAt bytes (start + DW_SIZE) 4
  if t.header ≤ size ∧ start + t.header ≤ bytes.data.length ∧ start + size ≤ bytes.data.length then
    some ⟨start, leAt bytes (start + DW_TYPE) 4, size⟩
  else none

/-- `a` rounded up to pointer alignment. -/
def roundUp (t : Target) (a : Nat) : Nat := (a + (t.pointer - 1)) / t.pointer * t.pointer

/-- Well-formed records from `start` on, and where the next one would start. -/
inductive Records : Nat → List RawRecord → Nat → Prop
  | nil (start : Nat) : Records start [] start
  | cons {start stop : Nat} {r : RawRecord} {rs : List RawRecord}
      (h : recordAt bytes start = some r) (rest : Records (roundUp t (start + r.size)) rs stop) :
      Records start (r :: rs) stop

/-- Whether it has the fields of a key. -/
def RawRecord.hasKey (t : Target) (r : RawRecord) : Bool := t.body + RAWKEYBOARD_SIZE ≤ r.size

/-- The record as the standard read gives it. -/
def RawRecord.input (r : RawRecord) : RawInput :=
  ⟨r.kind, leAt bytes (r.start + t.body + MAKE_CODE) 2, leAt bytes (r.start + t.body + V_KEY) 2⟩

/-- A key event that the hook would see. -/
def RawRecord.isKey (r : RawRecord) : Bool := r.hasKey t && (rawKeyEvent (some (r.input bytes))).1

/-- A keyboard record too short for its key fields. -/
def RawRecord.isShort (t : Target) (r : RawRecord) : Bool :=
  r.kind == RIM_TYPEKEYBOARD && !r.hasKey t

/-- The walk over `left` records from `start` on: those it reads, and how many it does
not, since the first of them does not fit. -/
inductive Walk : Nat → Nat → List RawRecord → Nat → Prop
  | done (start : Nat) : Walk 0 start [] 0
  | ended {left start : Nat} (h : recordAt bytes start = none) :
      Walk (left + 1) start [] (left + 1)
  | record {left start lost : Nat} {r : RawRecord} {rs : List RawRecord}
      (h : recordAt bytes start = some r)
      (rest : Walk left (roundUp t (start + r.size)) rs lost) :
      Walk (left + 1) start (r :: rs) lost

end Records

/-! ## One turn -/

section Turn

variable {t : Target} {bytes : Bytes t} {start : Nat}

/-- Nothing near the buffer's end is past `usize`. -/
theorem near_fits (bytes : Bytes t) {a : Nat} (h : a ≤ bytes.data.length + 64) :
    a < 2 ^ t.width := by
  have hshort := bytes.short
  cases t with
  | bits32 =>
    have hlen : bytes.data.length < 2 ^ 31 := hshort
    show a < 2 ^ 32
    omega
  | bits64 =>
    have hlen : bytes.data.length < 2 ^ 63 := hshort
    show a < 2 ^ 64
    omega

theorem pointer_le (t : Target) : t.pointer ≤ 8 ∧ 0 < t.pointer := by
  cases t <;> decide

theorem header_le (t : Target) : 8 ≤ t.header ∧ t.header ≤ 24 := by
  cases t <;> decide

theorem numberAt_some {size : Nat} (h : start + size ≤ bytes.data.length) :
    numberAt bytes start size = some (leAt bytes start size) := by
  unfold numberAt
  rw [addFits_eq (near_fits bytes (Nat.le_add_right_of_le h)), Option.bind_some, if_pos h]
  rfl

theorem numberAt_none {size : Nat} (h : bytes.data.length < start + size)
    (hnear : start + size ≤ bytes.data.length + 64) : numberAt bytes start size = none := by
  unfold numberAt
  rw [addFits_eq (near_fits bytes hnear), Option.bind_some, if_neg (Nat.not_le.mpr h)]

theorem nextMultipleOf_eq {a : Nat} (h : a ≤ bytes.data.length) :
    nextMultipleOf t.width a t.pointer = some (roundUp t a) := by
  have hfits : a + (t.pointer - a % t.pointer) < 2 ^ t.width := by
    obtain ⟨hle, -⟩ := pointer_le t
    exact near_fits bytes (by omega)
  unfold nextMultipleOf roundUp
  rw [addFits_eq hfits]
  cases t with
  | bits32 =>
    show (if a % 4 = 0 then some a else some (a + (4 - a % 4))) = some ((a + 3) / 4 * 4)
    by_cases hmod : a % 4 = 0
    · rw [if_pos hmod]
      congr 1
      omega
    · rw [if_neg hmod]
      congr 1
      omega
  | bits64 =>
    show (if a % 8 = 0 then some a else some (a + (8 - a % 8))) = some ((a + 7) / 8 * 8)
    by_cases hmod : a % 8 = 0
    · rw [if_pos hmod]
      congr 1
      omega
    · rw [if_neg hmod]
      congr 1
      omega

theorem roundUp_le (t : Target) (a : Nat) : roundUp t a ≤ a + 8 := by
  unfold roundUp
  obtain ⟨hle, -⟩ := pointer_le t
  have hdiv := Nat.div_mul_le_self (a + (t.pointer - 1)) t.pointer
  omega

/-- What a record at `start` says of it. -/
theorem recordAt_some {r : RawRecord} (h : recordAt bytes start = some r) :
    r.start = start ∧ r.kind = leAt bytes (start + DW_TYPE) 4 ∧
      r.size = leAt bytes (start + DW_SIZE) 4 ∧ t.header ≤ r.size ∧
      start + r.size ≤ bytes.data.length := by
  unfold recordAt at h
  dsimp only at h
  split at h
  · next hfits =>
    obtain rfl := Option.some.inj h
    exact ⟨rfl, rfl, rfl, hfits.1, hfits.2.2⟩
  · exact absurd h (by simp)

/-- How the record at `start` counts. -/
def RawRecord.count (bytes : Bytes t) (r : RawRecord) (block : BlockCount) : Option BlockCount :=
  if r.isKey bytes then block.addKey else if r.isShort t then block.addUnread 1 else some block

theorem countRecord_eq {r : RawRecord} (h : recordAt bytes start = some r) (block : BlockCount) :
    countRecord bytes start r.kind r.size block = r.count bytes block := by
  obtain ⟨hstart, -, -, -, hend⟩ := recordAt_some h
  unfold countRecord RawRecord.count RawRecord.isKey RawRecord.isShort RawRecord.hasKey rawKeyEvent
    RawRecord.input
  by_cases hkind : r.kind = RIM_TYPEKEYBOARD
  · by_cases hlong : t.body + RAWKEYBOARD_SIZE ≤ r.size
    · -- The fields lie in the record, and so in the buffer.
      have hin : ∀ field ≤ 14, start + t.body + field + 2 ≤ bytes.data.length := by
        intro field hfield
        have hsize : RAWKEYBOARD_SIZE = 16 := rfl
        omega
      have hadd : ∀ a b, a + b ≤ bytes.data.length → addFits t.width a b = some (a + b) :=
        fun a b hab => addFits_eq (near_fits bytes (Nat.le_add_right_of_le hab))
      have hmake : u16At bytes (start + t.body + MAKE_CODE) =
          some (leAt bytes (start + t.body + MAKE_CODE) 2) := numberAt_some (hin _ (by decide))
      have hvkey : u16At bytes (start + t.body + V_KEY) =
          some (leAt bytes (start + t.body + V_KEY) 2) := numberAt_some (hin _ (by decide))
      have hmake' := hin MAKE_CODE (by decide)
      have hvkey' := hin V_KEY (by decide)
      rw [hadd start t.body (by omega), Option.bind_some, hadd _ MAKE_CODE (by omega),
        Option.bind_some, hadd _ V_KEY (by omega), Option.bind_some, hmake, hvkey]
      simp [hkind, hlong, hstart]
    · simp [hkind, hlong]
  · simp [hkind]

/-- **A record that does not fit ends the walk.** -/
theorem countFrom_none {left : Nat} (hnear : start ≤ bytes.data.length + 8)
    (h : recordAt bytes start = none) (block : BlockCount) :
    countFrom bytes (left + 1) start block = block.addUnread (left + 1) := by
  have hkindAt : addFits t.width start DW_TYPE = some (start + DW_TYPE) :=
    addFits_eq (near_fits bytes (by simp only [DW_TYPE]; omega))
  have hsizeAt : addFits t.width start DW_SIZE = some (start + DW_SIZE) :=
    addFits_eq (near_fits bytes (by simp only [DW_SIZE]; omega))
  unfold countFrom
  rw [hkindAt, Option.bind_some, hsizeAt, Option.bind_some]
  by_cases hsize : start + 8 ≤ bytes.data.length
  · have hkindRead : u32At bytes (start + DW_TYPE) = some (leAt bytes (start + DW_TYPE) 4) :=
      numberAt_some (by simp only [DW_TYPE]; omega)
    have hsizeRead : u32At bytes (start + DW_SIZE) = some (leAt bytes (start + DW_SIZE) 4) :=
      numberAt_some (by simp only [DW_SIZE]; omega)
    rw [hkindRead, hsizeRead]
    dsimp only
    rw [if_pos]
    -- Had both fit, there would be a record.
    by_contra hnot
    obtain ⟨hheader, hpast⟩ := not_or.mp hnot
    have hlen : bytes.data.length + 1 < 2 ^ t.width :=
      near_fits bytes (Nat.add_le_add_left (by decide) _)
    have hsome : recordAt bytes start =
        some ⟨start, leAt bytes (start + DW_TYPE) 4, leAt bytes (start + DW_SIZE) 4⟩ := by
      unfold recordAt
      exact if_pos (by omega)
    rw [hsome] at h
    exact absurd h (by simp)
  · have hsizeRead : u32At bytes (start + DW_SIZE) = none :=
      numberAt_none (by simp only [DW_SIZE]; omega) (by simp only [DW_SIZE]; omega)
    rw [hsizeRead]
    cases u32At bytes (start + DW_TYPE) <;> rfl

/-- **A record that fits is counted, and the walk goes on at the next boundary.** -/
theorem countFrom_some {left : Nat} {r : RawRecord} (h : recordAt bytes start = some r)
    (block : BlockCount) : countFrom bytes (left + 1) start block =
      (r.count bytes block).bind fun block =>
        countFrom bytes left (roundUp t (start + r.size)) block := by
  obtain ⟨-, hkind, hsize, hheader, hend⟩ := recordAt_some h
  obtain ⟨hheader8, -⟩ := header_le t
  have hkindAt : addFits t.width start DW_TYPE = some (start + DW_TYPE) :=
    addFits_eq (near_fits bytes (by simp only [DW_TYPE]; omega))
  have hsizeAt : addFits t.width start DW_SIZE = some (start + DW_SIZE) :=
    addFits_eq (near_fits bytes (by simp only [DW_SIZE]; omega))
  have hkindRead : u32At bytes (start + DW_TYPE) = some r.kind := by
    rw [hkind]
    exact numberAt_some (by simp only [DW_TYPE]; omega)
  have hsizeRead : u32At bytes (start + DW_SIZE) = some r.size := by
    rw [hsize]
    exact numberAt_some (by simp only [DW_SIZE]; omega)
  have hpast : addFits t.width start r.size = some (start + r.size) :=
    addFits_eq (near_fits bytes (Nat.le_add_right_of_le hend))
  have hgoes : ¬(r.size < t.header ∨
      bytes.data.length < min (start + r.size) (2 ^ t.width - 1)) := by
    omega
  rw [countFrom, hkindAt, Option.bind_some, hsizeAt, Option.bind_some, hkindRead, hsizeRead]
  dsimp only
  rw [if_neg hgoes, countRecord_eq h, hpast]
  simp only [Option.bind_some, nextMultipleOf_eq hend]

end Turn

/-! ## Whole walks -/

section Walk

variable {t : Target} {bytes : Bytes t} {left start lost : Nat} {rs : List RawRecord}

/-- Every buffer has a walk. -/
theorem walk_exists (bytes : Bytes t) (left start : Nat) :
    ∃ rs lost, Walk bytes left start rs lost := by
  induction left generalizing start with
  | zero => exact ⟨[], 0, .done start⟩
  | succ left ih =>
    cases h : recordAt bytes start with
    | none => exact ⟨[], left + 1, .ended h⟩
    | some r =>
      obtain ⟨rs, lost, hrest⟩ := ih (roundUp t (start + r.size))
      exact ⟨r :: rs, lost, .record h hrest⟩

/-- It accounts for every record. -/
theorem walk_length (h : Walk bytes left start rs lost) : rs.length + lost = left := by
  induction h with
  | done start => rfl
  | ended h => exact Nat.zero_add _
  | record h rest ih =>
    rw [List.length_cons]
    omega

/-- Well-formed records are what it reads. -/
theorem walk_of_records {stop : Nat} (h : Records bytes start rs stop) (hle : rs.length ≤ left)
    (hstop : rs.length < left → recordAt bytes stop = none) :
    Walk bytes left start rs (left - rs.length) := by
  induction h generalizing left with
  | nil start =>
    cases left with
    | zero => exact .done start
    | succ left => exact .ended (hstop (Nat.succ_pos left))
  | cons h rest ih =>
    cases left with
    | zero => exact absurd hle (by simp)
    | succ left =>
      rw [List.length_cons] at hle hstop ⊢
      rw [Nat.add_sub_add_right]
      exact .record h (ih (Nat.le_of_succ_le_succ hle) fun hlt => hstop (Nat.succ_lt_succ hlt))

/-- A record is a key event or a short one, not both. -/
theorem not_short_of_key {r : RawRecord} (h : r.isKey bytes = true) : r.isShort t = false := by
  unfold RawRecord.isKey at h
  rw [Bool.and_eq_true] at h
  unfold RawRecord.isShort
  rw [h.1]
  simp

theorem keys_add_short_le (rs : List RawRecord) :
    rs.countP (RawRecord.isKey bytes) + rs.countP (RawRecord.isShort t) ≤ rs.length := by
  induction rs with
  | nil => exact Nat.le_refl 0
  | cons r rs ih =>
    rw [List.countP_cons, List.countP_cons, List.length_cons]
    cases hkey : r.isKey bytes with
    | true =>
      rw [not_short_of_key hkey]
      simp only [if_true, Bool.false_eq_true, if_false]
      omega
    | false =>
      simp only [Bool.false_eq_true, if_false]
      split
      · omega
      · omega

/-- **The count is the one of the walk.** -/
theorem countFrom_walk (h : Walk bytes left start rs lost)
    (hnear : start ≤ bytes.data.length + 8) (block : BlockCount)
    (hkeys : block.keys + left < 2 ^ 64) (hunread : block.unread + left < 2 ^ 64) :
    countFrom bytes left start block = some ⟨block.keys + rs.countP (RawRecord.isKey bytes),
      block.unread + rs.countP (RawRecord.isShort t) + lost⟩ := by
  induction h generalizing block with
  | done start => rfl
  | ended h =>
    rw [countFrom_none hnear h]
    unfold BlockCount.addUnread
    rw [addFits_eq hunread]
    rfl
  | @record left start lost r rs h rest ih =>
    have hnext : roundUp t (start + r.size) ≤ bytes.data.length + 8 := by
      obtain ⟨-, -, -, -, hend⟩ := recordAt_some h
      exact Nat.le_trans (roundUp_le t _) (Nat.add_le_add_right hend 8)
    rw [countFrom_some h, List.countP_cons, List.countP_cons]
    unfold RawRecord.count
    cases hkey : r.isKey bytes with
    | true =>
      have hadd : block.addKey = some { block with keys := block.keys + 1 } := by
        unfold BlockCount.addKey
        rw [addFits_eq (by omega)]
        rfl
      rw [not_short_of_key hkey, if_pos rfl, hadd, Option.bind_some,
        ih hnext { block with keys := block.keys + 1 } (by simp only; omega) (by simp only; omega)]
      simp only [if_true, Bool.false_eq_true, if_false, Nat.add_zero]
      congr 2
      omega
    | false =>
      cases hshort : r.isShort t with
      | true =>
        have hadd : block.addUnread 1 = some { block with unread := block.unread + 1 } := by
          unfold BlockCount.addUnread
          rw [addFits_eq (by omega)]
          rfl
        simp only [Bool.false_eq_true, if_false, if_true]
        rw [hadd, Option.bind_some, ih hnext { block with unread := block.unread + 1 }
          (by simp only; omega) (by simp only; omega)]
        simp only [Nat.add_zero]
        congr 2
        omega
      | false =>
        simp only [Bool.false_eq_true, if_false, Option.bind_some, Nat.add_zero]
        exact ih hnext block (by omega) (by omega)

end Walk

/-- What the count of a buffer's first `count` records is. -/
structure RawCount {t : Target} (bytes : Bytes t) (count : Nat) (block : BlockCount) : Prop where
  /-- Where every record fits: the key events, and the records too short for one. -/
  whole : ∀ rs stop, Records bytes 0 rs stop → rs.length = count →
    block = ⟨rs.countP (RawRecord.isKey bytes), rs.countP (RawRecord.isShort t)⟩
  /-- Where one does not fit: those before it, and it and all later ones as unread. -/
  cut : ∀ rs stop, Records bytes 0 rs stop → rs.length < count → recordAt bytes stop = none →
    block = ⟨rs.countP (RawRecord.isKey bytes),
      rs.countP (RawRecord.isShort t) + (count - rs.length)⟩
  bounded : block.keys + block.unread ≤ count

/-- **Raw records are counted exactly**, whatever the bytes: the walk ends, with every read
inside the buffer and no overflow. -/
theorem raw_counts {t : Target} (bytes : Bytes t) (count : UInt32) :
    ∃ block, countRawKeys bytes count = some block ∧ RawCount bytes count.toNat block := by
  have hcount : count.toNat < 2 ^ 32 := count.toNat_lt
  have hof : ∀ {rs lost}, Walk bytes count.toNat 0 rs lost → countRawKeys bytes count =
      some ⟨rs.countP (RawRecord.isKey bytes), rs.countP (RawRecord.isShort t) + lost⟩ := by
    intro rs lost hwalk
    have hbound : 0 + count.toNat < 2 ^ 64 := by omega
    have hblock := countFrom_walk hwalk (Nat.zero_le _) ⟨0, 0⟩ hbound hbound
    rw [Nat.zero_add, Nat.zero_add] at hblock
    exact hblock
  obtain ⟨rs, lost, hwalk⟩ := walk_exists bytes count.toNat 0
  refine ⟨_, hof hwalk, ?_, ?_, ?_⟩
  · intro rs' stop hrecords hlen
    have hwalk' := walk_of_records hrecords (Nat.le_of_eq hlen) fun hlt =>
      absurd hlen (Nat.ne_of_lt hlt)
    rw [hlen, Nat.sub_self] at hwalk'
    exact Option.some.inj ((hof hwalk).symm.trans (hof hwalk'))
  · intro rs' stop hrecords hlen hstop
    have hwalk' := walk_of_records hrecords (Nat.le_of_lt hlen) fun _ => hstop
    exact Option.some.inj ((hof hwalk).symm.trans (hof hwalk'))
  · have hlen := walk_length hwalk
    have hle : rs.countP (RawRecord.isKey bytes) + rs.countP (RawRecord.isShort t) ≤ rs.length :=
      keys_add_short_le rs
    show rs.countP (RawRecord.isKey bytes) + (rs.countP (RawRecord.isShort t) + lost) ≤ count.toNat
    omega

end KeySwitch.Hook
