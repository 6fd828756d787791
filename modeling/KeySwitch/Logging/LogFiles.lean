import KeySwitch.Lib.Places
import Mathlib.Algebra.Group.Nat.Defs
import Mathlib.Data.List.Infix
import Mathlib.Data.List.Induction

/-!
# The rotating log files

`writeLine` appends a line to `daemon.log`. A file that already holds something and would
pass the limit is rotated first: every file moves one place down, the oldest one is dropped.
A rotation is one rename after the other and stops at the first that fails, so it can stop
halfway and leave a gap in the numbers.

`Tail` is what the files are for: the files there are, oldest first, are the last lines
written, each file a stretch of them and a line whole in one file. It stands after every
call, whatever renames fail, and a call takes lines from it only with the whole oldest file
(`log_tail`).

A file outgrows the limit by a line of its own or by a rotation that failed while it was
`daemon.log`. Once it has been rotated after all, it is the new `daemon.log` that was never
kept from rotating, and the file is still too large (`log_tail_overgrown`).
-/

namespace KeySwitch.Logging

open Lib

/-! ## The files -/

/-- The bytes of a line or of a file. -/
abbrev Text := List UInt8

def U64_MAX : Nat := 2 ^ 64 - 1

/-- The size `daemon.log` may reach before it rotates: 1 MiB. -/
def MAX_FILE_BYTES : Nat := 1024 * 1024

/-- How many files a rotation keeps. -/
def KEPT_FILES : Nat := 3

/-- The folder of the log: `daemon.log` is file 0, `daemon.{index}.log` file `index`. -/
abbrev Folder := Places Text

/-- A length in bytes, as a `u64`. -/
def len (text : Text) : Nat := min text.length U64_MAX

/-- `u64::saturating_add`. -/
def saturatingAdd (a b : Nat) : Nat := min (a + b) U64_MAX

inductive WriteError
  /-- The files could not be rotated; the line went into `daemon.log`. -/
  | rotate
  /-- The line is lost for the file. -/
  | write
  deriving DecidableEq, Repr

/-- What the file system answers during one call. -/
structure FileCalls where
  opens : Bool
  measures : Bool
  /-- Whether a file that exists can be renamed, by its index. -/
  renames : Nat → Bool
  reopens : Bool
  /-- How many bytes of the line are written before the write fails, if it does. -/
  cutAt : Option Nat

inductive ErrorKind
  | notFound
  | other
  deriving DecidableEq, Repr

/-- `fs::rename` of file `index` to the next number. It does not find a file that does not
exist, and fails in another way for one that does. -/
def rename (fs : FileCalls) (folder : Folder) (index : Nat) : Except ErrorKind Folder :=
  match folder index with
  | none => .error .notFound
  | some _ => if fs.renames index then .ok (folder.moveUp index) else .error .other

/-- The renames of a rotation from `index` on down, and whether none of them failed. -/
def rotateFrom (fs : FileCalls) (folder : Folder) : Nat → Folder × Except WriteError Unit
  | 0 => (folder, .ok ())
  | index + 1 =>
    match rename fs folder index with
    | .ok folder => rotateFrom fs folder index
    | .error .notFound => rotateFrom fs folder index
    | .error .other => (folder, .error .rotate)

/-- Moves every file one place down and drops the oldest. Stops at the first rename that
fails. -/
def rotate (fs : FileCalls) (folder : Folder) : Folder × Except WriteError Unit :=
  rotateFrom fs folder (KEPT_FILES - 1)

/-- `open`: `daemon.log` is created if it does not exist. -/
def openLog (folder : Folder) : Folder := Function.update folder 0 (some ((folder 0).getD []))

/-- `write_all` to `daemon.log`, then the result of the rotation. -/
def append (fs : FileCalls) (folder : Folder) (text : Text) (rotated : Except WriteError Unit) :
    Folder × Except WriteError Unit :=
  match fs.cutAt with
  | none => (Function.update folder 0 (some ((folder 0).getD [] ++ text)), rotated)
  | some sent =>
    (Function.update folder 0 (some ((folder 0).getD [] ++ text.take sent)), .error .write)

/-- Appends `text` to `daemon.log`, which is rotated first if it holds something and would
pass the limit. -/
def writeLine (limit : Nat) (fs : FileCalls) (folder : Folder) (text : Text) :
    Folder × Except WriteError Unit :=
  if !fs.opens then (folder, .error .write)
  else
    let folder := openLog folder
    if !fs.measures then (folder, .error .write)
    else
      let size := len ((folder 0).getD [])
      if 0 < size && limit < saturatingAdd size (len text) then
        let (folder, rotated) := rotate fs folder
        if !fs.reopens then (folder, .error .write)
        else append fs (openLog folder) text rotated
      else append fs folder text (.ok ())

/-! ## Runs in which only renames fail -/

/-- A line given to `writeLine`, and which of its renames succeed. -/
structure Call where
  text : Text
  renames : Nat → Bool

/-- Opens and writes succeed. -/
def Call.fs (call : Call) : FileCalls := ⟨true, true, call.renames, true, none⟩

/-- A line that was written, and the result of its call. -/
structure Record where
  text : Text
  result : Except WriteError Unit

/-- Whether the call met a rotation that failed. -/
def Record.rotationFailed (record : Record) : Prop := record.result = .error .rotate

/-- The folder and the lines written so far. -/
structure Written where
  folder : Folder
  records : List Record

def Written.empty : Written := ⟨fun _ => none, []⟩

def Written.call (limit : Nat) (s : Written) (call : Call) : Written :=
  let (folder, result) := writeLine limit call.fs s.folder call.text
  ⟨folder, s.records ++ [⟨call.text, result⟩]⟩

/-- The calls one after the other, from an empty folder. -/
def Written.run (limit : Nat) (calls : List Call) : Written :=
  calls.foldl (Written.call limit) .empty

theorem Written.run_snoc (limit : Nat) (calls : List Call) (call : Call) :
    Written.run limit (calls ++ [call]) = (Written.run limit calls).call limit call := by
  unfold Written.run
  rw [List.foldl_append]
  rfl

/-! ## What the files are for -/

/-- The bytes of a file with these lines. -/
def content (file : List Record) : Text := (file.map Record.text).flatten

/-- A file is within the limit, or is one line, or a rotation failed since it was started. -/
def WithinLimit (limit : Nat) (file : List Record) : Prop :=
  len (content file) ≤ limit ∨ (∃ record ∈ file, content file = record.text) ∨
    ∃ record ∈ file, record.rotationFailed

/-- The files in `folder`, oldest first, are `files`. -/
structure Holds (limit : Nat) (folder : Folder) (files : List (List Record)) : Prop where
  /-- The files that exist, the highest number first, have these lines, each whole in one file. -/
  listed : Places.listed folder KEPT_FILES = files.map content
  started : ∀ file ∈ files, file ≠ []
  limited : ∀ file ∈ files, WithinLimit limit file

/-- The files in the folder are `files`, and together these are the last lines written, in
order. -/
structure Tail (limit : Nat) (s : Written) (files : List (List Record)) : Prop
    extends Holds limit s.folder files where
  suffix : files.flatten <:+ s.records

/-- What one call makes of the files: the oldest one may go, when there are as many as are
kept; then the line goes into the newest or into a new one. -/
def Advances (before : List (List Record)) (record : Record) (after : List (List Record)) : Prop :=
  ∃ kept, (kept = before ∨ before.length = KEPT_FILES ∧ kept = before.tail) ∧
    (after = kept ++ [[record]] ∨
      ∃ older newest, kept = older ++ [newest] ∧ after = older ++ [newest ++ [record]])

/-! ## One rotation -/

section Rotation

variable {fs : FileCalls} {folder : Folder}

theorem rename_cases (fs : FileCalls) (folder : Folder) (index : Nat) :
    folder index = none ∧ rename fs folder index = .error .notFound ∨
      (∃ text, folder index = some text) ∧ rename fs folder index = .ok (folder.moveUp index) ∨
      (∃ text, folder index = some text) ∧ rename fs folder index = .error .other := by
  unfold rename
  cases hfile : folder index with
  | none => exact .inl ⟨rfl, rfl⟩
  | some text =>
    by_cases hrename : fs.renames index = true
    · exact .inr (.inl ⟨⟨text, rfl⟩, by simp [hrename]⟩)
    · exact .inr (.inr ⟨⟨text, rfl⟩, by simp [hrename]⟩)

/-- How a rotation ends: with no `daemon.log`, or with an error. -/
def RotationEnds (rotated : Folder × Except WriteError Unit) : Prop :=
  rotated.2 = .ok () ∧ rotated.1 0 = none ∨ rotated.2 = .error .rotate

/-- Below a free place the renames keep every file. -/
theorem rotateFrom_of_free {index : Nat} (hfree : folder index = none)
    (hlt : index < KEPT_FILES) :
    RotationEnds (rotateFrom fs folder index) ∧
      Places.listed (rotateFrom fs folder index).1 KEPT_FILES =
        Places.listed folder KEPT_FILES := by
  induction index generalizing folder with
  | zero => exact ⟨.inl ⟨rfl, hfree⟩, rfl⟩
  | succ index ih =>
    unfold rotateFrom
    rcases rename_cases fs folder index with ⟨hnone, hrename⟩ | ⟨-, hrename⟩ | ⟨-, hrename⟩
    · rw [hrename]
      exact ih hnone (by omega)
    · rw [hrename]
      -- The file moves into the free place and leaves a free one.
      obtain ⟨hends, hlisted⟩ := ih (folder.moveUp_same index) (by omega)
      exact ⟨hends, hlisted.trans (Places.listed_moveUp hfree hlt)⟩
    · rw [hrename]
      exact ⟨.inr rfl, rfl⟩

/-- **A rotation keeps every file, or drops the oldest of as many as are kept.** -/
theorem rotate_spec {text : Text} (hlog : folder 0 = some text) :
    RotationEnds (rotate fs folder) ∧
      (Places.listed (rotate fs folder).1 KEPT_FILES = Places.listed folder KEPT_FILES ∨
        (Places.listed folder KEPT_FILES).length = KEPT_FILES ∧
          Places.listed (rotate fs folder).1 KEPT_FILES =
            (Places.listed folder KEPT_FILES).tail) := by
  have hstart : rotate fs folder =
      match rename fs folder 1 with
      | .ok folder => rotateFrom fs folder 1
      | .error .notFound => rotateFrom fs folder 1
      | .error .other => (folder, .error .rotate) := rfl
  rw [hstart]
  rcases rename_cases fs folder 1 with ⟨hnone, hrename⟩ | ⟨⟨rotated, hfile⟩, hrename⟩ | ⟨-, hrename⟩
  · rw [hrename]
    obtain ⟨hends, hlisted⟩ := @rotateFrom_of_free fs folder 1 hnone (by decide)
    exact ⟨hends, .inl hlisted⟩
  · -- The file at 1 goes over the oldest, if there is one: then all three were there.
    rw [hrename]
    obtain ⟨hends, hlisted⟩ :=
      @rotateFrom_of_free fs (folder.moveUp 1) 1 (folder.moveUp_same 1) (by decide)
    have hmoved : Places.listed folder KEPT_FILES =
        (folder 2).toList ++ Places.listed (folder.moveUp 1) KEPT_FILES :=
      Places.listed_moveUp_last folder 1
    refine ⟨hends, ?_⟩
    cases holdest : folder 2 with
    | none =>
      rw [holdest] at hmoved
      exact .inl (hlisted.trans hmoved.symm)
    | some oldest =>
      rw [holdest] at hmoved
      refine .inr ⟨?_, ?_⟩
      · show (Places.listed folder 3).length = 3
        simp only [Places.listed, holdest, hfile, hlog]
        rfl
      · rw [hmoved]
        exact hlisted
  · rw [hrename]
    exact ⟨.inr rfl, .inl rfl⟩

end Rotation

/-! ## One call -/

section Lengths

theorem len_append (a b : Text) : len (a ++ b) = saturatingAdd (len a) (len b) := by
  unfold len saturatingAdd
  rw [List.length_append]
  omega

theorem len_eq_zero {text : Text} : len text = 0 ↔ text = [] := by
  unfold len U64_MAX
  rw [← List.length_eq_zero_iff]
  omega

end Lengths

section OneCall

variable {limit : Nat} {folder : Folder} {files kept : List (List Record)} {record : Record}

theorem content_snoc (file : List Record) (record : Record) :
    content (file ++ [record]) = content file ++ record.text := by
  unfold content
  rw [List.map_append, List.flatten_append]
  simp

theorem content_singleton (record : Record) : content [record] = record.text := by
  unfold content
  simp

/-- The files that a rotation keeps. -/
theorem Holds.tail {rotated : Folder} (h : Holds limit folder files)
    (hlisted : Places.listed rotated KEPT_FILES = (Places.listed folder KEPT_FILES).tail) :
    Holds limit rotated files.tail where
  listed := by rw [hlisted, h.listed, List.map_tail]
  started file hfile := h.started file (List.mem_of_mem_tail hfile)
  limited file hfile := h.limited file (List.mem_of_mem_tail hfile)

theorem listed_put (folder : Folder) (text : Text) :
    Places.listed (Function.update folder 0 (some text)) KEPT_FILES =
      Places.listed (Function.update folder 0 none) KEPT_FILES ++ [text] :=
  Places.listed_update_zero folder (some text) 2

theorem listed_log (folder : Folder) :
    Places.listed folder KEPT_FILES =
      Places.listed (Function.update folder 0 none) KEPT_FILES ++ (folder 0).toList :=
  Places.listed_zero folder 2

/-- **A line goes into a new `daemon.log`, or behind the lines of the one there is.** -/
theorem Holds.write (h : Holds limit folder files)
    (hfits : ∀ text, folder 0 = some text → text = [] ∨ len (text ++ record.text) ≤ limit ∨
      record.rotationFailed) :
    ∃ after, Holds limit
        (Function.update folder 0 (some ((folder 0).getD [] ++ record.text))) after ∧
      after.flatten = files.flatten ++ [record] ∧
      (after = files ++ [[record]] ∨
        ∃ older newest, files = older ++ [newest] ∧ after = older ++ [newest ++ [record]]) := by
  cases hlog : folder 0 with
  | none =>
    -- The record starts a file of its own, behind all there are.
    have hlisted := listed_log folder
    rw [hlog, h.listed, Option.toList_none, List.append_nil] at hlisted
    refine ⟨files ++ [[record]], ⟨?_, ?_, ?_⟩, by simp, .inl rfl⟩
    · rw [listed_put, ← hlisted, List.map_append, List.map_singleton, content_singleton]
      rfl
    · intro file hfile
      rcases List.mem_append.mp hfile with hfile | hfile
      · exact h.started file hfile
      · rw [List.mem_singleton.mp hfile]
        exact List.cons_ne_nil _ _
    · intro file hfile
      rcases List.mem_append.mp hfile with hfile | hfile
      · exact h.limited file hfile
      · rw [List.mem_singleton.mp hfile]
        exact .inr (.inl ⟨record, List.mem_singleton_self _, content_singleton record⟩)
  | some text =>
    have hlisted := listed_log folder
    rw [hlog, h.listed] at hlisted
    -- The newest file is `daemon.log`.
    obtain ⟨older, tail, rfl, holder, htail⟩ := List.map_eq_append_iff.mp hlisted
    obtain ⟨newest, rfl, hnewest⟩ := List.map_eq_singleton_iff.mp htail
    refine ⟨older ++ [newest ++ [record]], ⟨?_, ?_, ?_⟩, by simp, .inr ⟨older, newest, rfl, rfl⟩⟩
    · rw [listed_put, ← holder, List.map_append, List.map_singleton, content_snoc, hnewest]
      rfl
    · intro file hfile
      rcases List.mem_append.mp hfile with hfile | hfile
      · exact h.started file (List.mem_append_left _ hfile)
      · rw [List.mem_singleton.mp hfile]
        simp
    · intro file hfile
      rcases List.mem_append.mp hfile with hfile | hfile
      · exact h.limited file (List.mem_append_left _ hfile)
      · rw [List.mem_singleton.mp hfile]
        have hrecord : record ∈ newest ++ [record] :=
          List.mem_append_right _ (List.mem_singleton_self _)
        rcases hfits text hlog with rfl | hfits | hfailed
        · refine .inr (.inl ⟨record, hrecord, ?_⟩)
          rw [content_snoc, hnewest]
          rfl
        · refine .inl ?_
          rw [content_snoc, hnewest]
          exact hfits
        · exact .inr (.inr ⟨record, hrecord, hfailed⟩)

/-- What a call writes, and whether it rotates before. -/
theorem writeLine_call (limit : Nat) (call : Call) (folder : Folder) :
    writeLine limit call.fs folder call.text =
      if 0 < len ((folder 0).getD []) ∧ limit < len ((folder 0).getD [] ++ call.text) then
        append call.fs (rotate call.fs folder).1 call.text (rotate call.fs folder).2
      else append call.fs folder call.text (.ok ()) := by
  have hopened : ∀ (folder : Folder) (result : Except WriteError Unit),
      append call.fs (openLog folder) call.text result =
        append call.fs folder call.text result := by
    intro folder result
    show (Function.update (openLog folder) 0 (some ((openLog folder 0).getD [] ++ _)), _) =
      (Function.update folder 0 (some ((folder 0).getD [] ++ _)), _)
    unfold openLog
    rw [Function.update_self, Function.update_idem]
    rfl
  have hsize : (openLog folder 0).getD [] = (folder 0).getD [] := by
    unfold openLog
    rw [Function.update_self]
    rfl
  have hstart : writeLine limit call.fs folder call.text =
      if 0 < len ((openLog folder 0).getD []) &&
          limit < saturatingAdd (len ((openLog folder 0).getD [])) (len call.text) then
        append call.fs (openLog (rotate call.fs (openLog folder)).1) call.text
          (rotate call.fs (openLog folder)).2
      else append call.fs (openLog folder) call.text (.ok ()) := rfl
  rw [hstart, hopened, hopened, hsize, ← len_append]
  simp only [Bool.and_eq_true, decide_eq_true_eq]
  by_cases hrotates : 0 < len ((folder 0).getD []) ∧ limit < len ((folder 0).getD [] ++ call.text)
  · rw [if_pos hrotates, if_pos hrotates]
    -- A file that holds something is there already.
    have hthere : openLog folder = folder := by
      unfold openLog
      cases hlog : folder 0 with
      | none =>
        rw [hlog] at hrotates
        exact absurd hrotates.1 (by decide)
      | some text =>
        rw [Option.getD_some, ← hlog]
        exact Function.update_eq_self 0 folder
    rw [hthere]
  · rw [if_neg hrotates, if_neg hrotates]

theorem call_eq (limit : Nat) (s : Written) (call : Call) :
    s.call limit call = ⟨(writeLine limit call.fs s.folder call.text).1,
      s.records ++ [⟨call.text, (writeLine limit call.fs s.folder call.text).2⟩]⟩ := rfl

/-- **Every call keeps the tail**: it writes its line whole, and takes no line from the tail
but with the oldest file. -/
theorem Tail.call {s : Written} (h : Tail limit s files) (call : Call) :
    ∃ record after, record.text = call.text ∧
      (s.call limit call).records = s.records ++ [record] ∧
      Tail limit (s.call limit call) after ∧ Advances files record after := by
  rw [call_eq, writeLine_call]
  -- Behind the files that are kept, the line is written.
  have hwritten : ∀ (folder : Folder) (kept : List (List Record)) (result : Except WriteError Unit),
      Holds limit folder kept → kept.flatten <:+ s.records →
      (kept = files ∨ files.length = KEPT_FILES ∧ kept = files.tail) →
      (∀ text, folder 0 = some text → text = [] ∨ len (text ++ call.text) ≤ limit ∨
        result = .error .rotate) →
      ∃ record after, record.text = call.text ∧
        s.records ++ [⟨call.text, (append call.fs folder call.text result).2⟩] =
          s.records ++ [record] ∧
        Tail limit ⟨(append call.fs folder call.text result).1,
          s.records ++ [⟨call.text, (append call.fs folder call.text result).2⟩]⟩ after ∧
        Advances files record after := by
    intro folder kept result hkept hsuffix hfrom hfits
    obtain ⟨after, hafter, hflatten, hadvance⟩ :=
      @Holds.write limit folder kept ⟨call.text, result⟩ hkept hfits
    refine ⟨⟨call.text, result⟩, after, rfl, rfl, ⟨hafter, ?_⟩, kept, hfrom, hadvance⟩
    rw [hflatten]
    obtain ⟨dropped, hdropped⟩ := hsuffix
    exact ⟨dropped, by rw [← List.append_assoc, hdropped]; rfl⟩
  split
  · next hrotates =>
    obtain ⟨text, hlog⟩ : ∃ text, s.folder 0 = some text := by
      cases hlog : s.folder 0 with
      | none =>
        rw [hlog] at hrotates
        exact absurd hrotates.1 (by decide)
      | some text => exact ⟨text, rfl⟩
    obtain ⟨hends, hlisted⟩ := @rotate_spec call.fs s.folder text hlog
    have hfits : ∀ text, (rotate call.fs s.folder).1 0 = some text → text = [] ∨
        len (text ++ call.text) ≤ limit ∨ (rotate call.fs s.folder).2 = .error .rotate := by
      intro text htext
      rcases hends with ⟨-, hnone⟩ | hfailed
      · rw [hnone] at htext
        exact absurd htext (by simp)
      · exact .inr (.inr hfailed)
    rcases hlisted with hsame | ⟨hfull, htail⟩
    · exact hwritten _ files _ ⟨hsame.trans h.listed, h.started, h.limited⟩ h.suffix (.inl rfl)
        hfits
    · rw [h.listed, List.length_map] at hfull
      refine hwritten _ files.tail _ (h.toHolds.tail htail) ?_ (.inr ⟨hfull, rfl⟩) hfits
      cases hfiles : files with
      | nil =>
        rw [hfiles] at hfull
        exact absurd hfull (by decide)
      | cons oldest kept =>
        have hsuffix := h.suffix
        rw [hfiles, List.flatten_cons] at hsuffix
        exact (List.suffix_append oldest _).trans hsuffix
  · next hstays =>
    refine hwritten _ files _ h.toHolds h.suffix (.inl rfl) ?_
    intro text hlog
    rw [hlog, Option.getD_some] at hstays
    by_cases hempty : text = []
    · exact .inl hempty
    · have hsize : 0 < len text := Nat.pos_of_ne_zero fun h => hempty (len_eq_zero.mp h)
      exact .inr (.inl (by omega))

end OneCall

/-! ## Every run -/

/-- **The files are the last lines written, after every call and whatever renames fail**: a
line leaves them only with the whole oldest file, and a file passes the limit only by a line
of its own or if a rotation failed since it was started as `daemon.log`. -/
theorem log_tail (limit : Nat) (calls : List Call) :
    ∃ files : Nat → List (List Record),
      (∀ n ≤ calls.length, Tail limit (Written.run limit (calls.take n)) (files n)) ∧
      ∀ n call, calls[n]? = some call → ∃ record, record.text = call.text ∧
        (Written.run limit (calls.take (n + 1))).records =
          (Written.run limit (calls.take n)).records ++ [record] ∧
        Advances (files n) record (files (n + 1)) := by
  induction calls using List.reverseRecOn with
  | nil =>
    refine ⟨fun _ => [], ?_, fun n call h => absurd h (by simp)⟩
    intro n hn
    rw [List.take_nil]
    exact { listed := rfl, started := by simp, limited := by simp, suffix := List.nil_suffix }
  | append_singleton calls last ih =>
    obtain ⟨files, htails, hadvances⟩ := ih
    have hbefore := htails calls.length (Nat.le_refl _)
    rw [List.take_length] at hbefore
    obtain ⟨record, after, htext, hrecords, htail, hadvance⟩ := hbefore.call last
    have htake : ∀ n ≤ calls.length, (calls ++ [last]).take n = calls.take n :=
      fun n hn => List.take_append_of_le_length hn
    have hall : (calls ++ [last]).take (calls.length + 1) = calls ++ [last] :=
      List.take_of_length_le (by simp)
    -- The states before the last call keep their files, and the new one has those of the step.
    refine ⟨fun n => if n ≤ calls.length then files n else after, ?_, ?_⟩
    · intro n hn
      dsimp only
      by_cases hold : n ≤ calls.length
      · rw [htake n hold, if_pos hold]
        exact htails n hold
      · obtain rfl : n = calls.length + 1 := by
          rw [List.length_append, List.length_singleton] at hn
          omega
        rw [hall, if_neg hold, Written.run_snoc]
        exact htail
    · intro n call hcall
      by_cases hold : n < calls.length
      · rw [htake n (Nat.le_of_lt hold), htake (n + 1) hold]
        dsimp only
        rw [if_pos (Nat.le_of_lt hold), if_pos (Nat.succ_le_of_lt hold)]
        rw [List.getElem?_append_left hold] at hcall
        exact hadvances n call hcall
      · obtain ⟨hlt, hlast⟩ := List.getElem?_eq_some_iff.mp hcall
        obtain rfl : n = calls.length := by
          rw [List.length_append, List.length_singleton] at hlt
          omega
        rw [List.getElem_append_right (Nat.le_refl _)] at hlast
        rw [htake _ (Nat.le_refl _), List.take_length, hall, Written.run_snoc]
        dsimp only
        rw [if_pos (Nat.le_refl _), if_neg (Nat.not_succ_le_self _)]
        refine ⟨record, ?_, hrecords, hadvance⟩
        rw [htext]
        simpa using congrArg Call.text hlast

/-! ## The writer -/

/-- What the console is told about the files. -/
inductive Notice
  | worksAgain
  | failed (error : WriteError)
  deriving DecidableEq, Repr

/-- The writer: whether the last line did not go into the files as it should. -/
structure Writer where
  failing : Bool
  folder : Folder

/-- Writes `line` to the files. The notice that ends a streak of failures, `worksAgain`, goes
into the files too, with the calls of `noticeFs`. -/
def Writer.writeFiles (limit : Nat) (worksAgain : Text) (fs noticeFs : FileCalls) (w : Writer)
    (line : Text) : Writer × Option Notice :=
  match writeLine limit fs w.folder line with
  | (folder, .ok ()) =>
    if w.failing then
      (⟨false, (writeLine limit noticeFs folder worksAgain).1⟩, some .worksAgain)
    else (⟨false, folder⟩, none)
  | (folder, .error error) =>
    if w.failing then (⟨true, folder⟩, none) else (⟨true, folder⟩, some (.failed error))

/-- The writer after it wrote `lines`, each with the renames of the notice after it. -/
def Writer.run (limit : Nat) (worksAgain : Text) (lines : List (Call × (Nat → Bool))) : Writer :=
  lines.foldl (fun w line => (w.writeFiles limit worksAgain line.1.fs
    (Call.mk worksAgain line.2).fs line.1.text).1) ⟨false, fun _ => none⟩

/-- Whether a rotation failed since `daemon.log` was started, with the first of its lines. -/
def FailedSinceStart (s : Written) : Prop :=
  ∃ since, since <:+ s.records ∧ s.folder 0 = some (content since) ∧
    ∃ record ∈ since, record.rotationFailed

/-- No file is past the limit but for one line of its own, or where a rotation failed since
`daemon.log` was started. -/
def LimitedSinceStart (limit : Nat) (s : Written) : Prop :=
  ∀ index text, s.folder index = some text → len text ≤ limit ∨
    (∃ record ∈ s.records, text = record.text) ∨ FailedSinceStart s

/-- Three lines, of which two do not fit one file, where only the first rotation fails. -/
def overgrown (text : Text) : List Call :=
  [⟨text, fun _ => true⟩, ⟨text, fun _ => false⟩, ⟨text, fun _ => true⟩]

theorem run_overgrown {limit : Nat} {text : Text} (hsome : 0 < len text)
    (hpast : limit < len (text ++ text)) :
    (Written.run limit (overgrown text)).folder 0 = some text ∧
      (Written.run limit (overgrown text)).folder 1 = some (text ++ text) ∧
      (Written.run limit (overgrown text)).records =
        [⟨text, .ok ()⟩, ⟨text, .error .rotate⟩, ⟨text, .ok ()⟩] := by
  let started : Folder := Function.update (fun _ => none) 0 (some text)
  let grown : Folder := Function.update started 0 (some (text ++ text))
  have hfirst : Written.call limit .empty ⟨text, fun _ => true⟩ =
      ⟨started, [⟨text, .ok ()⟩]⟩ := by
    have hstays : ¬(0 < len ((Written.empty.folder 0).getD []) ∧
        limit < len ((Written.empty.folder 0).getD [] ++ text)) := fun h => absurd h.1 (by decide)
    rw [call_eq, writeLine_call, if_neg hstays]
    rfl
  -- The rotation fails, and the line is written all the same.
  have hsecond : Written.call limit ⟨started, [⟨text, .ok ()⟩]⟩ ⟨text, fun _ => false⟩ =
      ⟨grown, [⟨text, .ok ()⟩, ⟨text, .error .rotate⟩]⟩ := by
    have hrotates : 0 < len ((started 0).getD []) ∧
        limit < len ((started 0).getD [] ++ text) := ⟨hsome, hpast⟩
    rw [call_eq, writeLine_call, if_pos hrotates]
    rfl
  -- The log is past the limit now, so the third call rotates it, past the limit as it is.
  have hthird : Written.call limit ⟨grown, [⟨text, .ok ()⟩, ⟨text, .error .rotate⟩]⟩
      ⟨text, fun _ => true⟩ =
      ⟨Function.update (grown.moveUp 0) 0 (some text),
        [⟨text, .ok ()⟩, ⟨text, .error .rotate⟩, ⟨text, .ok ()⟩]⟩ := by
    have hrotates : 0 < len ((grown 0).getD []) ∧ limit < len ((grown 0).getD [] ++ text) := by
      have hmore : len (text ++ text) ≤ len ((text ++ text) ++ text) := by
        unfold len
        rw [@List.length_append _ (text ++ text) text]
        omega
      have htwice : len text ≤ len (text ++ text) := by
        unfold len
        rw [List.length_append]
        omega
      exact ⟨Nat.lt_of_lt_of_le hsome htwice, Nat.lt_of_lt_of_le hpast hmore⟩
    rw [call_eq, writeLine_call, if_pos hrotates]
    rfl
  have hrun : Written.run limit (overgrown text) =
      ⟨Function.update (grown.moveUp 0) 0 (some text),
        [⟨text, .ok ()⟩, ⟨text, .error .rotate⟩, ⟨text, .ok ()⟩]⟩ := by
    show (((Written.empty.call limit _).call limit _).call limit _) = _
    rw [hfirst, hsecond, hthird]
  rw [hrun]
  refine ⟨rfl, ?_, rfl⟩
  show Function.update (grown.moveUp 0) 0 (some text) 1 = _
  rw [Function.update_of_ne Nat.one_ne_zero]
  rfl

/-- **A file that outgrew the limit while its rotations failed is still too large when it has
been rotated**, and nothing has failed since the new `daemon.log` was started. -/
theorem log_tail_overgrown :
    ¬LimitedSinceStart MAX_FILE_BYTES
      (Written.run MAX_FILE_BYTES (overgrown (List.replicate 600000 0x61))) := by
  have hlength : (List.replicate 600000 (0x61 : UInt8)).length = 600000 := List.length_replicate
  generalize List.replicate 600000 (0x61 : UInt8) = text at hlength
  have hlong : (text ++ text).length = 1200000 := by
    rw [List.length_append, hlength]
  have hlen : len text = 600000 := by
    unfold len
    rw [hlength]
    rfl
  have hlenLong : len (text ++ text) = 1200000 := by
    unfold len
    rw [hlong]
    rfl
  obtain ⟨hlog, hrotated, hrecords⟩ :=
    @run_overgrown MAX_FILE_BYTES text (by rw [hlen]; decide) (by rw [hlenLong]; decide)
  intro h
  rcases h 1 (text ++ text) hrotated with hfits | ⟨record, hrecord, hline⟩ | hfailed
  · rw [hlenLong] at hfits
    exact absurd hfits (by decide)
  · -- Every line is one text.
    have htext : record.text = text := by
      rw [hrecords] at hrecord
      simp only [List.mem_cons, List.not_mem_nil, or_false] at hrecord
      rcases hrecord with rfl | rfl | rfl <;> rfl
    rw [htext] at hline
    have := congrArg List.length hline
    omega
  · obtain ⟨since, hsince, hcontent, record, hrecord, hrecordFailed⟩ := hfailed
    -- The second line would be among those of the new `daemon.log`.
    rw [hlog] at hcontent
    have hone : (content since).length = 600000 := by
      rw [← Option.some.inj hcontent, hlength]
    obtain ⟨before, hbefore⟩ := hsince
    rw [hrecords] at hbefore
    have hlines : ∀ file : List Record, (∀ line ∈ file, line.text = text) →
        (content file).length = file.length * 600000 := by
      intro file hfile
      induction file with
      | nil => rfl
      | cons line file ih =>
        obtain ⟨hline, hfile⟩ := List.forall_mem_cons.mp hfile
        show (line.text ++ content file).length = _
        rw [List.length_append, hline, hlength, ih hfile, List.length_cons]
        omega
    have hsince := hlines since fun line hline => by
      have hmem : line ∈ before ++ since := List.mem_append_right _ hline
      rw [hbefore] at hmem
      simp only [List.mem_cons, List.not_mem_nil, or_false] at hmem
      rcases hmem with rfl | rfl | rfl <;> rfl
    have hlast : since.length = 1 := by omega
    obtain ⟨line, rfl⟩ := List.length_eq_one_iff.mp hlast
    have hline := congrArg List.getLast? hbefore
    rw [List.getLast?_append_of_ne_nil _ (List.cons_ne_nil _ _)] at hline
    have hok : line = ⟨text, .ok ()⟩ := Option.some.inj hline
    rw [List.mem_singleton.mp hrecord, hok] at hrecordFailed
    exact absurd hrecordFailed (by unfold Record.rotationFailed; simp)

end KeySwitch.Logging
