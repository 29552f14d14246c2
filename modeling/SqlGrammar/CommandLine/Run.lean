import SqlGrammar.CommandLine.Files
import SqlGrammar.CommandLine.Options
import SqlGrammar.Dialect.Firebird
import SqlGrammar.Schema.Query

/-!
What the command line does: read the settings, read the input, compile it, show the statement. Files
are reached through a `World`, so that the same steps run on real files and on files in memory.
-/

namespace SqlGrammar.CommandLine

/-- Where files come from. -/
structure World (m : Type → Type) where
  /-- The content of a file, or why it cannot be read. -/
  read : String → m (Except FileFault String)
  /-- The whole standard input, or why it cannot be read. -/
  input : m (Except FileFault String)
  /-- The directory of the user's settings. -/
  settingsDirectory : Option String

/-- Why the input could not be compiled. -/
inductive Failure
  | unreadable (file : String) (fault : FileFault)
  | badInput (fault : FileFault)
  | badQuery (file : String) (error : Schema.ReadError)
  | badInsert (file : String) (error : Schema.ReadError)
  | other (error : Error)
  deriving DecidableEq

def Failure.message : Failure → String
  | unreadable file fault => "failed to read " ++ file ++ ": " ++ fault.message
  | badInput fault => fault.message
  | badQuery file error => "invalid query in " ++ file ++ ": " ++ error.message
  | badInsert file error => "invalid insert in " ++ file ++ ": " ++ error.message
  | other error => error.message

structure Outcome where
  code : Nat
  output : String
  errors : String
  deriving DecidableEq

section

variable {m : Type → Type} [Monad m]

/-- The settings in a file, given what reading it came to. -/
def settingsIn (path : String) : Except FileFault String → Except Failure Settings
  | .error fault =>
    .error (.other (.configuration ("Failed to read " ++ path ++ ": " ++ fault.message)))
  | .ok text => (Settings.ofText text).mapError fun fault => .other (.toml fault)

def loadSettings (w : World m) (path : String) : m (Except Failure Settings) := do
  return settingsIn path (← w.read path)

/-- The settings in the first of some files that is there, else the defaults. -/
def findSettings (w : World m) : List String → m (Except Failure Settings)
  | [] => return .ok {}
  | path :: paths => do
    match ← w.read path with
    | .error fault =>
      if fault.isAbsence then findSettings w paths else return settingsIn path (.error fault)
    | .ok text => return settingsIn path (.ok text)

/-- Where settings are looked for: in the current directory, then in the user's. -/
def settingsPaths (w : World m) : List String :=
  "qail.toml" :: (w.settingsDirectory.map (· ++ "/qail/firebird.toml")).toList

/-- The text of the input; `-` is the standard input. -/
def readInput (w : World m) (file : String) : m (Except Failure String) := do
  if file = "-" then return (← w.input).mapError .badInput
  else return (← w.read file).mapError (.unreadable file)

end

/-- A row count given on the command line takes the place of the one in the query. -/
def override (clause : PagingClause) (raw : Option String) (count : Option UInt64) :
    Except Failure (Option UInt64) :=
  match raw with
  | none => .ok count
  | some raw => match readRowCount clause raw with
    | .ok n => .ok (some n)
    | .error e => .error (.other e)

/-- A select whose row counts may be given from outside. -/
def compileSelect (d : Dialect) (file text : String) (limit offset : Option String) :
    Except Failure Statement := do
  let query ← (Query.ofText text).mapError (.badQuery file)
  let limit ← override .limit limit query.limit
  let offset ← override .offset offset query.offset
  return d.selectStatement { query with limit := limit, offset := offset }

def compileInsert (d : Dialect) (file text : String) (returning : Option String) :
    Except Failure Statement := do
  let insert ← (Insert.ofText text).mapError (.badInsert file)
  let query : Query := { table := insert.table }
  match returning with
  | none => return d.insertStatement query insert.values
  | some column =>
    (d.insertReturningStatement query insert.values (some column)).mapError .other

def compile (d : Dialect) (command : Command) (text : String) : Except Failure Statement :=
  match command with
  | .select file limit offset => compileSelect d file text limit offset
  | .insert file returning => compileInsert d file text returning
  | .exists file => ((Query.ofText text).mapError (.badQuery file)).map d.existsStatement

def Command.file : Command → String
  | .select file _ _ => file
  | .insert file _ => file
  | .exists file => file

def DialectName.dialect : DialectName → Settings → Dialect
  | firebird => .firebird
  | generic => .generic

/-- Bindings, one on a line, counted from the given number. -/
def bindingLines (i : Nat) : List Value → String
  | [] => ""
  | v :: vs => "  ?" ++ Text.natural i ++ " = " ++ v.display ++ "\n" ++ bindingLines (i + 1) vs

def showStatement (format : Format) (s : Statement) : String :=
  match format with
  | .json => s.toJson.pretty ++ "\n"
  | .text =>
    "Generated SQL:\n" ++ s.sql ++ "\n" ++
      (if s.bindings.isEmpty then "" else "\nBindings:\n" ++ bindingLines 1 s.bindings)

def failed (f : Failure) : Outcome := ⟨1, "", "Error: " ++ f.message⟩

/-- Does what was asked for. The settings are read before the input. -/
def invoke {m : Type → Type} [Monad m] (w : World m) (i : Invocation) : m Outcome := do
  let settings ← match i.settingsFile with
    | some path => loadSettings w path
    | none => findSettings w (settingsPaths w)
  match settings with
  | .error f => return failed f
  | .ok settings =>
    match ← readInput w i.command.file with
    | .error f => return failed f
    | .ok text =>
      match compile (i.dialect.dialect settings) i.command text with
      | .error f => return failed f
      | .ok statement => return ⟨0, showStatement i.format statement, ""⟩

def usage : String :=
  "Compile query descriptions to Firebird SQL\n\n" ++
  "Usage: qail-firebird [OPTIONS] <COMMAND>\n\n" ++
  "Commands:\n" ++
  "  select <FILE> [--limit <N>] [--offset <N>]  Compile a SELECT from a JSON query " ++
  "(`-` reads stdin)\n" ++
  "  insert <FILE> [-r, --returning <COLUMN>]    Compile an INSERT\n" ++
  "  exists <FILE>                               Compile the existence check for a JSON query\n" ++
  "\n" ++
  "Options:\n" ++
  "  -d, --dialect <firebird|generic>  Target grammar\n" ++
  "  -c, --config <FILE>               Grammar config file\n" ++
  "  -f, --format <text|json>          Output format\n" ++
  "  -v, --verbose                     Verbose output\n" ++
  "  -h, --help                        Print help\n" ++
  "  -V, --version                     Print version\n"

def run {m : Type → Type} [Monad m] (w : World m) (outside : Option String) (args : List String) :
    m Outcome :=
  match parse outside args with
  | .ok i => invoke w i
  | .error .version => return ⟨0, "qail-firebird 0.1.0\n", ""⟩
  | .error .help => return ⟨0, usage, ""⟩
  | .error .misuse => return ⟨2, "", usage⟩

end SqlGrammar.CommandLine
