import KeySwitch.Lib.Lines
import KeySwitch.Logging.Stamps
import Mathlib.Data.List.DropRight

/-!
# Records as lines

A record has one text, in which its message may have breaks. The console gets it without the
timestamp; the log file gets each of its lines after the record's timestamp and tag, so that
who reads the file line by line meets no line without them. A log file of any records reads
back: each of its lines is of one record, and the lines of a record put together are its
text, but for the `\r` of a break `\r\n` (`log_reads_back`).
-/

namespace KeySwitch.Logging

open Lib

/-! ## The record's text -/

/-- `log::Level`, the more severe first. -/
inductive Level
  | error
  | warn
  | info
  | debug
  | trace
  deriving DecidableEq, Repr

def Level.asStr : Level → List Char
  | error => "ERROR".toList
  | warn => "WARN".toList
  | info => "INFO".toList
  | debug => "DEBUG".toList
  | trace => "TRACE".toList

/-- The target of an error that ends the daemon. -/
def FATAL_TARGET : List Char := "key_switch_rs::fatal".toList

/-- The crate's own records name no target in their line. -/
def OWN_TARGET : List Char := "key_switch_rs".toList

def tag (level : Level) (target : List Char) : List Char :=
  if level = .error ∧ target = FATAL_TARGET then "FATAL".toList else level.asStr

/-- Whether `target` is this crate or one of its modules. -/
def isOwnTarget (target : List Char) : Bool :=
  OWN_TARGET.isPrefixOf target &&
    ((target.drop OWN_TARGET.length).isEmpty ||
      "::".toList.isPrefixOf (target.drop OWN_TARGET.length))

/-- One record: its text, and where in it the console's text and the record's own begin. -/
structure LogLine where
  text : List Char
  consoleFrom : Nat
  bodyFrom : Nat

def isBreak (c : Char) : Bool := c = '\r' || c = '\n'

def LogLine.new (now : SystemTime) (level : Level) (target args : List Char) : LogLine :=
  let stamped := writeTimestamp now ++ [' ']
  let tagged := stamped ++ '[' :: (tag level target ++ "] ".toList)
  let named := if isOwnTarget target then tagged else tagged ++ (target ++ ": ".toList)
  ⟨(named ++ args).rdropWhile isBreak, stamped.length, tagged.length⟩

/-! ## Its forms -/

/-- `str::lines`: the lines of a text, each without its break `\n` or `\r\n`. -/
def strLines : List Char → List (List Char)
  | [] => []
  | '\n' :: rest => [] :: strLines rest
  | '\r' :: '\n' :: rest => [] :: strLines rest
  | c :: rest => pushLine c (strLines rest)

/-- `str::get` of a range from the start. -/
def getTo (text : List Char) (stop : Nat) : Option (List Char) :=
  if stop ≤ text.length then some (text.take stop) else none

/-- `str::get` of a range to the end. -/
def getFrom (text : List Char) (start : Nat) : Option (List Char) :=
  if start ≤ text.length then some (text.drop start) else none

namespace LogLine

/-- The record as `daemon.log` gets it: each of its lines after its timestamp and tag. -/
def fileText (line : LogLine) : List Char :=
  let repeated := (getTo line.text line.bodyFrom).getD []
  (strLines line.text).zipIdx.flatMap fun entry =>
    (if 0 < entry.2 then repeated else []) ++ entry.1 ++ ['\n']

/-- The record as the console gets it. -/
def consoleText (line : LogLine) : List Char :=
  (getFrom line.text line.consoleFrom).getD line.text ++ ['\n']

end LogLine

/-! ## Lines -/

/-- A text with its breaks `\r\n` written `\n`. -/
def unixBreaks : List Char → List Char
  | [] => []
  | '\r' :: '\n' :: rest => '\n' :: unixBreaks rest
  | c :: rest => c :: unixBreaks rest

/-- The lines of a text that may be empty: at least one. -/
def bodyLines (body : List Char) : List (List Char) :=
  match strLines body with
  | [] => [[]]
  | lines => lines

theorem bodyLines_ne_nil (body : List Char) : bodyLines body ≠ [] := by
  unfold bodyLines
  split
  · simp
  · next h => exact h

theorem strLines_free (text : List Char) : ∀ line ∈ strLines text, '\n' ∉ line := by
  fun_induction strLines text with
  | case1 => exact fun _ h => absurd h List.not_mem_nil
  | case2 rest ih => exact List.forall_mem_cons.mpr ⟨List.not_mem_nil, ih⟩
  | case3 rest ih => exact List.forall_mem_cons.mpr ⟨List.not_mem_nil, ih⟩
  | case4 c rest hbreak _ ih =>
    have hc : '\n' ≠ c := fun h => hbreak h.symm
    cases hlines : strLines rest with
    | nil => exact List.forall_mem_singleton.mpr (by simpa using hc)
    | cons line more =>
      rw [hlines] at ih
      obtain ⟨hline, hmore⟩ := List.forall_mem_cons.mp ih
      exact List.forall_mem_cons.mpr ⟨by simp [hc, hline], hmore⟩

theorem bodyLines_free (body : List Char) : ∀ line ∈ bodyLines body, '\n' ∉ line := by
  unfold bodyLines
  split
  · simp
  · exact strLines_free body

theorem strLines_other {c : Char} (hlf : c ≠ '\n') (hcr : c ≠ '\r') (rest : List Char) :
    strLines (c :: rest) = pushLine c (strLines rest) := by
  rw [strLines]
  · exact hlf
  · exact fun _ h => absurd h hcr

/-- What stands before a text and has no break is before its first line. -/
theorem strLines_append {before : List Char} (hne : before ≠ [])
    (hfree : ∀ c ∈ before, isBreak c = false) (text : List Char) :
    ∃ first rest, bodyLines text = first :: rest ∧
      strLines (before ++ text) = (before ++ first) :: rest := by
  induction before with
  | nil => exact absurd rfl hne
  | cons c before ih =>
    obtain ⟨hc, hbefore⟩ := List.forall_mem_cons.mp hfree
    have hother : c ≠ '\n' ∧ c ≠ '\r' := by
      unfold isBreak at hc
      simp only [Bool.or_eq_false_iff, decide_eq_false_iff_not] at hc
      exact ⟨hc.2, hc.1⟩
    rw [List.cons_append, strLines_other hother.1 hother.2]
    by_cases hlast : before = []
    · subst hlast
      unfold bodyLines
      cases hlines : strLines text with
      | nil => exact ⟨[], [], rfl, by rw [List.nil_append, hlines]; rfl⟩
      | cons first rest => exact ⟨first, rest, rfl, by rw [List.nil_append, hlines]; rfl⟩
    · obtain ⟨first, rest, hbody, hlines⟩ := ih hlast hbefore
      exact ⟨first, rest, hbody, by rw [hlines]; rfl⟩

/-- A text that does not end with a break. -/
def Open (text : List Char) : Prop := ∀ c, text.getLast? = some c → isBreak c = false

theorem open_tail {c : Char} {rest : List Char} (h : Open (c :: rest)) : Open rest := by
  intro last hlast
  refine h last ?_
  rw [List.getLast?_cons, hlast]
  rfl

theorem strLines_ne_nil {text : List Char} (hne : text ≠ []) : strLines text ≠ [] := by
  fun_cases strLines text with
  | case1 => exact absurd rfl hne
  | case2 rest => exact List.cons_ne_nil _ _
  | case3 rest => exact List.cons_ne_nil _ _
  | case4 c rest => exact pushLine_ne_nil _ _

/-- The lines of a text put together are the text with the one break. -/
theorem intercalate_strLines {text : List Char} (h : Open text) :
    ['\n'].intercalate (strLines text) = unixBreaks text := by
  fun_induction strLines text with
  | case1 => rfl
  | case2 rest ih =>
    have hne : rest ≠ [] := by
      rintro rfl
      exact absurd (h '\n' rfl) (by decide)
    rw [List.intercalate_cons_of_ne_nil (strLines_ne_nil hne), ih (open_tail h)]
    rfl
  | case3 rest ih =>
    have hne : rest ≠ [] := by
      rintro rfl
      exact absurd (h '\n' rfl) (by decide)
    have hrest := open_tail (open_tail h)
    rw [List.intercalate_cons_of_ne_nil (strLines_ne_nil hne), ih hrest]
    rfl
  | case4 c rest hlf hcrlf ih =>
    have htext : unixBreaks (c :: rest) = c :: unixBreaks rest := by
      rw [unixBreaks]
      exact hcrlf
    rw [htext, ← ih (open_tail h)]
    cases strLines rest with
    | nil => rfl
    | cons line more =>
      cases more with
      | nil => rfl
      | cons next more => rfl

theorem intercalate_bodyLines {body : List Char} (h : Open body) :
    ['\n'].intercalate (bodyLines body) = unixBreaks body := by
  rw [← intercalate_strLines h]
  unfold bodyLines
  cases strLines body with
  | nil => rfl
  | cons line more => rfl

/-! ## The parts of a record -/

structure LogRecord where
  now : SystemTime
  level : Level
  target : List Char
  args : List Char

namespace LogRecord

def line (r : LogRecord) : LogLine := .new r.now r.level r.target r.args

/-- What each of its lines in the file begins with. -/
def mark (r : LogRecord) : List Char :=
  writeTimestamp r.now ++ ' ' :: '[' :: (tag r.level r.target ++ "] ".toList)

/-- The record's own text: the target, unless it is the crate's, and the message, without the
breaks at its end. -/
def body (r : LogRecord) : List Char :=
  ((if isOwnTarget r.target then [] else r.target ++ ": ".toList) ++ r.args).rdropWhile isBreak

end LogRecord

theorem rdropWhile_append {a : List Char} (h : ∃ front last, a = front ++ [last] ∧
    isBreak last = false) (b : List Char) :
    (a ++ b).rdropWhile isBreak = a ++ b.rdropWhile isBreak := by
  induction b using List.reverseRecOn with
  | nil =>
    obtain ⟨front, last, rfl, hlast⟩ := h
    rw [List.append_nil, List.rdropWhile_concat_neg _ _ _ (by simp [hlast]), List.rdropWhile_nil,
      List.append_nil]
  | append_singleton b c ih =>
    rw [← List.append_assoc]
    by_cases hc : isBreak c = true
    · rw [List.rdropWhile_concat_pos _ _ _ hc, List.rdropWhile_concat_pos _ _ _ hc, ih]
    · rw [List.rdropWhile_concat_neg _ _ _ hc, List.rdropWhile_concat_neg _ _ _ hc,
        List.append_assoc]

theorem open_rdropWhile (text : List Char) : Open (text.rdropWhile isBreak) := by
  intro c hc
  by_cases hnil : text.rdropWhile isBreak = []
  · rw [hnil] at hc
    exact absurd hc (by simp)
  · have hlast := List.rdropWhile_last_not isBreak text hnil
    rw [List.getLast?_eq_some_getLast hnil] at hc
    obtain rfl := Option.some.inj hc
    simpa using hlast

/-! ## No break in a mark -/

theorem padded_free (width n : Nat) : ∀ c ∈ padded width n, isBreak c = false := by
  intro c hc
  have hdigit : c.isDigit = true := by
    unfold padded List.leftpad at hc
    rcases List.mem_append.mp hc with h | h
    · rw [List.eq_of_mem_replicate h]
      rfl
    · exact Nat.isDigit_of_mem_toDigits (by decide) (by decide) h
  unfold isBreak
  rw [Bool.or_eq_false_iff, decide_eq_false_iff_not, decide_eq_false_iff_not]
  constructor
  · rintro rfl
    exact absurd hdigit (by decide)
  · rintro rfl
    exact absurd hdigit (by decide)

theorem stampText_free (date : Date) (ofDay subsecMillis : Nat) :
    ∀ c ∈ stampText date ofDay subsecMillis, isBreak c = false := by
  unfold stampText
  simp only [List.forall_mem_append, List.forall_mem_cons]
  have hend : ∀ c ∈ ([] : List Char), isBreak c = false := fun _ h => absurd h List.not_mem_nil
  exact ⟨padded_free _ _, rfl, padded_free _ _, rfl, padded_free _ _, rfl, padded_free _ _, rfl,
    padded_free _ _, rfl, padded_free _ _, rfl, padded_free _ _, rfl, hend⟩

theorem computedText_free (date : Option Date) (ofDay subsecMillis : Nat) :
    ∀ c ∈ computedText date ofDay subsecMillis, isBreak c = false := by
  cases date with
  | some date => exact stampText_free date ofDay subsecMillis
  | none => exact fun _ h => absurd h List.not_mem_nil

theorem mark_free (r : LogRecord) : ∀ c ∈ r.mark, isBreak c = false := by
  have hstamp : ∀ c ∈ writeTimestamp r.now, isBreak c = false := computedText_free _ _ _
  have htag : ∀ c ∈ tag r.level r.target, isBreak c = false := by
    unfold tag
    split
    · simp [isBreak]
    · cases r.level <;> simp [Level.asStr, isBreak]
  unfold LogRecord.mark
  simp only [List.forall_mem_append, List.forall_mem_cons]
  exact ⟨hstamp, rfl, rfl, htag, by simp [isBreak]⟩

theorem mark_last (r : LogRecord) :
    ∃ front last, r.mark = front ++ [last] ∧ isBreak last = false :=
  ⟨writeTimestamp r.now ++ ' ' :: '[' :: (tag r.level r.target ++ [']']), ' ',
    by simp [LogRecord.mark], rfl⟩

/-! ## The file reads back -/

theorem line_text (r : LogRecord) : r.line.text = r.mark ++ r.body := by
  have hparts : r.line.text = (r.mark ++ ((if isOwnTarget r.target then [] else
      r.target ++ ": ".toList) ++ r.args)).rdropWhile isBreak := by
    unfold LogRecord.line LogLine.new LogRecord.mark
    dsimp only
    split
    · simp
    · simp
  rw [hparts, rdropWhile_append (mark_last r)]
  rfl

theorem line_bodyFrom (r : LogRecord) : r.line.bodyFrom = r.mark.length := by
  unfold LogRecord.line LogLine.new LogRecord.mark
  simp

/-- The lines of a record in the file: each of its lines after its mark. -/
def LogRecord.fileLines (r : LogRecord) : List (List Char) := (bodyLines r.body).map (r.mark ++ ·)

/-- The lines after the first are each given the mark. -/
theorem flatMap_further (mark : List Char) (rest : List (List Char)) (index : Nat) :
    ((rest.zipIdx (index + 1)).flatMap fun entry =>
      (if 0 < entry.2 then mark else []) ++ entry.1 ++ ['\n']) =
        (rest.map (mark ++ ·)).flatMap fun line => line ++ ['\n'] := by
  induction rest generalizing index with
  | nil => rfl
  | cons line rest ih =>
    rw [List.zipIdx_cons, List.flatMap_cons, List.map_cons, List.flatMap_cons, ih,
      if_pos (Nat.succ_pos index)]

theorem fileText_eq (r : LogRecord) :
    r.line.fileText = r.fileLines.flatMap fun line => line ++ ['\n'] := by
  have hne : r.mark ≠ [] := by
    obtain ⟨front, last, h, -⟩ := mark_last r
    rw [h]
    simp
  obtain ⟨first, rest, hbody, hlines⟩ := strLines_append hne (mark_free r) r.body
  have hrepeated : getTo r.line.text r.line.bodyFrom = some r.mark := by
    unfold getTo
    rw [line_text, line_bodyFrom, if_pos (by simp), List.take_left]
  -- The first line has the mark from the record's text.
  unfold LogLine.fileText LogRecord.fileLines
  rw [hrepeated, line_text, hlines, hbody, List.zipIdx_cons, List.flatMap_cons, List.map_cons,
    List.flatMap_cons, if_neg (Nat.lt_irrefl 0), List.nil_append, Option.getD_some,
    flatMap_further]

theorem consoleText_eq (r : LogRecord) :
    writeTimestamp r.now ++ ' ' :: r.line.consoleText = r.mark ++ r.body ++ ['\n'] := by
  have hfrom : r.line.consoleFrom = (writeTimestamp r.now ++ [' ']).length := by
    unfold LogRecord.line LogLine.new
    dsimp only
  have hmark : r.mark ++ r.body = (writeTimestamp r.now ++ [' ']) ++
      ('[' :: (tag r.level r.target ++ "] ".toList) ++ r.body) := by
    unfold LogRecord.mark
    simp
  have hgot : getFrom r.line.text r.line.consoleFrom =
      some ('[' :: (tag r.level r.target ++ "] ".toList) ++ r.body) := by
    unfold getFrom
    rw [line_text, hfrom, hmark, if_pos (by simp), List.drop_left]
  unfold LogLine.consoleText
  rw [hgot, hmark]
  simp

/-- Lines that end with the break are cut into themselves, and nothing after the last. -/
theorem splitOn_lines {lines : List (List Char)} (h : ∀ line ∈ lines, '\n' ∉ line) :
    (lines.flatMap fun line => line ++ ['\n']).splitOn '\n' = lines ++ [[]] := by
  induction lines with
  | nil => rfl
  | cons line lines ih =>
    obtain ⟨hline, hlines⟩ := List.forall_mem_cons.mp h
    rw [List.flatMap_cons, List.append_assoc, List.singleton_append,
      List.splitOn_append_cons_self_of_not_mem hline, ih hlines]
    rfl

/-- How a log of these records reads, line by line. -/
structure ReadsBack (records : List LogRecord) : Prop where
  /-- The lines of the file are those of the records, in their order. -/
  lines : (records.flatMap fun r => r.line.fileText).splitOn '\n' =
    records.flatMap LogRecord.fileLines ++ [[]]
  /-- Each has its record's mark, and without it they are the record's text. -/
  marked : ∀ r ∈ records, ∃ own, own ≠ [] ∧ r.fileLines = own.map (r.mark ++ ·) ∧
    ['\n'].intercalate own = unixBreaks r.body
  /-- The console gets the record's text once marked, without the timestamp. -/
  console : ∀ r ∈ records,
    writeTimestamp r.now ++ ' ' :: r.line.consoleText = r.mark ++ r.body ++ ['\n']

/-- **A log reads back line by line.** Each line of the file has the timestamp and the tag of
its record, whatever breaks the messages have, and the lines of a record are its text. -/
theorem log_reads_back (records : List LogRecord) : ReadsBack records := by
  refine ⟨?_, fun r _ => ⟨bodyLines r.body, bodyLines_ne_nil _, rfl,
    intercalate_bodyLines (open_rdropWhile _)⟩, fun r _ => consoleText_eq r⟩
  have htext : (records.flatMap fun r => r.line.fileText) =
      (records.flatMap LogRecord.fileLines).flatMap fun line => line ++ ['\n'] := by
    rw [List.flatMap_assoc]
    exact congrArg (records.flatMap ·) (funext fileText_eq)
  rw [htext]
  refine splitOn_lines fun line hline => ?_
  obtain ⟨r, -, hown⟩ := List.mem_flatMap.mp hline
  obtain ⟨own, hbody, rfl⟩ := List.mem_map.mp hown
  intro hbreak
  rcases List.mem_append.mp hbreak with h | h
  · exact absurd (mark_free r _ h) (by decide)
  · exact bodyLines_free _ own hbody h

end KeySwitch.Logging
