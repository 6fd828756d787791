import KeySwitch.Config.Loader
import KeySwitch.Lib.Dialogue

/-!
# The config file

At startup the daemon reads its config file, and if there is none beside the executable it
writes the template first. A reload reads the file and never writes. Both are dialogues with
the file system, in which other programs change the file as they like.

Whatever it answers, the daemon writes only into a file that it has just created, and creates
one only where its read found none and the file is the one beside the executable; what it
returns is what it makes of the last text it read (`load_paths`).
-/

namespace KeySwitch.Config

open Lib

inductive FileCall
  | readToString
  | createDirAll
  /-- Creates the file, unless it exists. -/
  | createNew
  | writeAll (text : List Char)

def FileCall.Answer : FileCall → Type
  | readToString => Except IoKind (List Char)
  | createDirAll | createNew | writeAll _ => Except IoKind Unit

abbrev Filing := Dialogue FileCall FileCall.Answer

abbrev FileExchange := Exchange FileCall FileCall.Answer

/-- Where the config file is. -/
inductive ConfigPath
  | commandLine
  | besideExe
  deriving DecidableEq

variable {P : Type}

/-- What a read comes to. -/
def readResult (answer : Except IoKind (List Char)) : Except (ConfigError P) (List Char) :=
  match answer with
  | .ok text => .ok text
  | .error .notFound => .error .missing
  | .error kind => .error (.io .file kind)

def readConfig : Filing (Except (ConfigError P) (List Char)) :=
  .ask .readToString fun (answer : Except IoKind (List Char)) => .done (readResult answer)

/-- A file that appeared after the read is left as it is. -/
def writeDefault (template : List Char) : Filing (Except (ConfigError P) Unit) :=
  .ask .createDirAll fun (made : Except IoKind Unit) =>
  match made with
  | .error kind => .done (.error (.io .folder kind))
  | .ok () =>
    .ask .createNew fun (made : Except IoKind Unit) =>
    match made with
    | .error .alreadyExists => .done (.ok ())
    | .error kind => .done (.error (.io .file kind))
    | .ok () =>
      .ask (.writeAll template) fun (written : Except IoKind Unit) =>
      .done (written.mapError (.io .file))

variable (parse : List Char → Except (ConfigError P) ParsedConfig)

/-- `load`, at startup. -/
def load (template : List Char) (config : ConfigPath) :
    Filing (Except (ConfigError P) ParsedConfig) :=
  readConfig.bind fun read =>
  match config, read with
  | .besideExe, .error .missing =>
    (writeDefault template).bind fun written =>
    match written with
    | .error e => .done (.error e)
    | .ok () => readConfig.map fun read => read.bind parse
  | _, read => .done (read.bind parse)

def reload : Filing (Except (ConfigError P) ParsedConfig) :=
  readConfig.map fun read => read.bind parse

/-! ## What the calls come to -/

section Paths

open Dialogue

variable {parse : List Char → Except (ConfigError P) ParsedConfig} {es : List FileExchange}
  {template : List Char}

/-- The exchange of a read. -/
def readOf (answer : Except IoKind (List Char)) : FileExchange := ⟨.readToString, answer⟩

theorem readConfig_path {read : Except (ConfigError P) (List Char)}
    (h : Path readConfig es read) : ∃ answer, es = [readOf answer] ∧ read = readResult answer := by
  obtain ⟨answer, rest, rfl, hrest⟩ := path_ask.mp h
  obtain ⟨rfl, rfl⟩ := path_done.mp hrest
  exact ⟨answer, rfl, rfl⟩

/-- Each write puts the template into a file created just before. -/
def OnlyCreated (template : List Char) : List FileExchange → Prop
  | [] => True
  | ⟨.createNew, (.ok () : Except IoKind Unit)⟩ :: ⟨.writeAll text, _⟩ :: rest =>
    text = template ∧ OnlyCreated template rest
  | ⟨.writeAll _, _⟩ :: _ => False
  | _ :: rest => OnlyCreated template rest

theorem writeDefault_path {result : Except (ConfigError P) Unit}
    (h : Path (writeDefault template) es result) (rest : List FileExchange)
    (hrest : OnlyCreated template rest) : OnlyCreated template (es ++ rest) := by
  obtain ⟨made, after, rfl, hmade⟩ := path_ask.mp h
  match made with
  | .error kind =>
    obtain ⟨rfl, -⟩ := path_done.mp hmade
    exact hrest
  | .ok () =>
    obtain ⟨created, after, rfl, hcreated⟩ := path_ask.mp hmade
    match created with
    | .error .alreadyExists =>
      obtain ⟨rfl, -⟩ := path_done.mp hcreated
      exact hrest
    | .error .notFound =>
      obtain ⟨rfl, -⟩ := path_done.mp hcreated
      exact hrest
    | .error .other =>
      obtain ⟨rfl, -⟩ := path_done.mp hcreated
      exact hrest
    | .ok () =>
      obtain ⟨written, after, rfl, hwritten⟩ := path_ask.mp hcreated
      obtain ⟨rfl, -⟩ := path_done.mp hwritten
      exact ⟨rfl, hrest⟩

/-- What a path of `load` does to the file, and where its list is from. -/
structure LoadPath (parse : List Char → Except (ConfigError P) ParsedConfig)
    (template : List Char) (config : ConfigPath) (es : List FileExchange)
    (result : Except (ConfigError P) ParsedConfig) : Prop where
  created : OnlyCreated template es
  /-- More than a read is done only where there is no file, and beside the executable. -/
  first : ∃ answer rest, es = readOf answer :: rest ∧
    (rest = [] ∨ config = .besideExe ∧ answer = .error .notFound)
  /-- The list is that of the last text read. -/
  loaded : ∀ parsed, result = .ok parsed →
    ∃ before answer, es = before ++ [readOf answer] ∧
      (readResult answer).bind parse = .ok parsed

theorem load_once {config : ConfigPath} {answer : Except IoKind (List Char)} :
    LoadPath parse template config [readOf answer] ((readResult answer).bind parse) :=
  ⟨trivial, ⟨answer, [], rfl, .inl rfl⟩, fun _ hparsed => ⟨[], answer, rfl, hparsed⟩⟩

/-- The file beside the executable is made, and read again. -/
theorem load_created {result : Except (ConfigError P) ParsedConfig}
    (h : Path ((writeDefault template).bind fun written =>
      match written with
      | .error e => .done (.error e)
      | .ok () => readConfig.map fun read => read.bind parse) es result) :
    LoadPath parse template .besideExe (readOf (.error .notFound) :: es) result := by
  obtain ⟨es₁, written, es₂, rfl, hwrite, hrest⟩ := path_bind.mp h
  match written with
  | .error e =>
    obtain ⟨rfl, rfl⟩ := path_done.mp hrest
    exact ⟨writeDefault_path hwrite [] trivial, ⟨_, _, rfl, .inr ⟨rfl, rfl⟩⟩,
      fun _ h => absurd h (by simp)⟩
  | .ok () =>
    obtain ⟨read, hread, rfl⟩ := path_map.mp hrest
    obtain ⟨answer, rfl, rfl⟩ := readConfig_path hread
    exact ⟨writeDefault_path hwrite [readOf answer] trivial, ⟨_, _, rfl, .inr ⟨rfl, rfl⟩⟩,
      fun _ hparsed => ⟨readOf (.error .notFound) :: es₁, answer, rfl, hparsed⟩⟩

/-- **At startup the daemon writes the template alone, into a file it has just created**,
and creates one only beside the executable, where its read found none; the list it returns
is that of the last text it read. -/
theorem load_paths {config : ConfigPath} {result : Except (ConfigError P) ParsedConfig}
    (h : Path (load parse template config) es result) :
    LoadPath parse template config es result := by
  obtain ⟨es₁, read, es₂, rfl, hread, hrest⟩ := path_bind.mp h
  obtain ⟨answer, rfl, rfl⟩ := readConfig_path hread
  match config, answer with
  | .besideExe, .error .notFound => exact load_created hrest
  | .besideExe, .ok _ | .besideExe, .error .alreadyExists | .besideExe, .error .other
  | .commandLine, .ok _ | .commandLine, .error .notFound | .commandLine, .error .alreadyExists
  | .commandLine, .error .other =>
    obtain ⟨rfl, rfl⟩ := path_done.mp hrest
    exact load_once

/-- At the first start the template is written and read back. -/
theorem load_paths_first :
    let parse : List Char → Except (ConfigError Unit) ParsedConfig := fun _ => .ok ⟨[], []⟩
    LoadPath parse ['(', ')'] .besideExe
      [readOf (.error .notFound), ⟨.createDirAll, (.ok () : Except IoKind Unit)⟩,
        ⟨.createNew, (.ok () : Except IoKind Unit)⟩,
        ⟨.writeAll ['(', ')'], (.ok () : Except IoKind Unit)⟩, readOf (.ok ['(', ')'])]
      (.ok ⟨[], []⟩) :=
  load_paths (.ask (.ask (.ask (.ask (.ask (.done _))))))

end Paths

end KeySwitch.Config
