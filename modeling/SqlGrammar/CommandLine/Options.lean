/-!
The arguments of the command line. General options may stand before the command and after it; where
both give one, the one after the command counts. An option is given at most once on each side, and
its value may not start with a dash unless it is tied to the option by `=` or, for a short option,
written right after it. A value that stands apart from its option is taken up with the next argument
on the same side, so what a command finds wrong among its own arguments goes before a bad value in
front of the command.
-/

namespace SqlGrammar.CommandLine

inductive DialectName
  | firebird
  | generic
  deriving DecidableEq

inductive Format
  | text
  | json
  deriving DecidableEq

inductive Command
  | select (file : String) (limit offset : Option String)
  | insert (file : String) (returning : Option String)
  | exists (file : String)
  deriving DecidableEq

structure Invocation where
  dialect : DialectName
  settingsFile : Option String
  format : Format
  verbose : Bool
  command : Command
  deriving DecidableEq

/-- Why there is nothing to do, or nothing that can be done. -/
inductive Stop
  | help
  | version
  | misuse
  deriving DecidableEq

/-- Where arguments stand: before the command, or after one. -/
inductive Place
  | front
  | select
  | insert
  | exists
  deriving DecidableEq

inductive Name
  | dialect
  | config
  | format
  | verbose
  | limit
  | offset
  | returning
  | help
  | version
  deriving DecidableEq

def Name.takesValue : Name → Bool
  | verbose | help | version => false
  | _ => true

def longName? (p : Place) (s : String) : Option Name :=
  match s, p with
  | "dialect", _ => some .dialect
  | "config", _ => some .config
  | "format", _ => some .format
  | "verbose", _ => some .verbose
  | "help", _ => some .help
  | "version", .front => some .version
  | "limit", .select => some .limit
  | "offset", .select => some .offset
  | "returning", .insert => some .returning
  | _, _ => none

def shortName? (p : Place) (c : Char) : Option Name :=
  match c, p with
  | 'd', _ => some .dialect
  | 'c', _ => some .config
  | 'f', _ => some .format
  | 'v', _ => some .verbose
  | 'h', _ => some .help
  | 'V', .front => some .version
  | 'r', .insert => some .returning
  | _, _ => none

/-- What was given at one place. -/
structure Given where
  dialect : Option DialectName := none
  config : Option String := none
  format : Option Format := none
  verbose : Bool := false
  limit : Option String := none
  offset : Option String := none
  returning : Option String := none
  file : Option String := none
  deriving DecidableEq

namespace Given

/-- A value for an option that has none yet. -/
def once {α : Type} (old : Option α) (new : α) : Except Stop (Option α) :=
  if old.isSome then .error .misuse else .ok (some new)

def set (g : Given) (name : Name) (value : String) : Except Stop Given :=
  match name, value with
  | .dialect, "firebird" => (once g.dialect .firebird).map fun d => { g with dialect := d }
  | .dialect, "generic" => (once g.dialect .generic).map fun d => { g with dialect := d }
  | .format, "text" => (once g.format .text).map fun f => { g with format := f }
  | .format, "json" => (once g.format .json).map fun f => { g with format := f }
  | .config, s => (once g.config s).map fun c => { g with config := c }
  | .limit, s => (once g.limit s).map fun l => { g with limit := l }
  | .offset, s => (once g.offset s).map fun o => { g with offset := o }
  | .returning, s => (once g.returning s).map fun r => { g with returning := r }
  | _, _ => .error .misuse

def flag (g : Given) : Name → Except Stop Given
  | .verbose => if g.verbose then .error .misuse else .ok { g with verbose := true }
  | .help => .error .help
  | .version => .error .version
  | _ => .error .misuse

/-- Gives the option that waits its value. -/
def settle (g : Given) : Option (Name × String) → Except Stop Given
  | none => .ok g
  | some (name, value) => g.set name value

/-- Takes an argument that is no option, after the command: the file. -/
def setFile (g : Given) (s : String) : Except Stop Given :=
  (once g.file s).map fun f => { g with file := f }

end Given

/-- What an argument in short form leads to: options without a value, or those and an option that
waits for its value. -/
inductive Short
  | done (g : Given)
  | waiting (g : Given) (name : Name)

/-- Reads the options of an argument in short form, one after the other. The first one that takes a
value takes what is left of the argument, less a `=` in front. -/
def shortOptions (p : Place) (g : Given) : List Char → Except Stop Short
  | [] => .ok (.done g)
  | c :: r =>
    match shortName? p c with
    | none => .error .misuse
    | some name =>
      if name.takesValue then
        match r with
        | [] => .ok (.waiting g name)
        | '=' :: r => (g.set name (String.ofList r)).map .done
        | r => (g.set name (String.ofList r)).map .done
      else do
        let g ← g.flag name
        shortOptions p g r

/-- An argument at its start. -/
inductive Shape
  | dashes
  /-- A long option, with its value if that is tied to it. -/
  | long (name : String) (value : Option String)
  | short (options : List Char)
  | plain

/-- The shape of an argument. A single dash is no option. -/
def shapeOf (s : String) : Shape :=
  match s.toList with
  | ['-', '-'] => .dashes
  | '-' :: '-' :: r =>
    match r.dropWhile (· ≠ '=') with
    | [] => .long (String.ofList r) none
    | _ :: v => .long (String.ofList (r.takeWhile (· ≠ '='))) (some (String.ofList v))
  | '-' :: c :: r => .short (c :: r)
  | _ => .plain

/-- Whether an argument can be the value of the option before it. -/
def isValue (s : String) : Bool :=
  match shapeOf s with
  | .plain => true
  | _ => false

def commandPlace? : String → Option Place
  | "select" => some .select
  | "insert" => some .insert
  | "exists" => some .exists
  | _ => none

/-- Reads the arguments after the dashes `--`: each is the file. -/
def readFiles (g : Given) : List String → Except Stop Given
  | [] => .ok g
  | a :: as => do
    let g ← g.setFile a
    readFiles g as

def helpOn : List String → Stop
  | [] => .help
  | [topic] => if (commandPlace? topic).isSome ∨ topic = "help" then .help else .misuse
  | _ => .misuse

/-- What the arguments at a place come to: what they give, the last value if it is not taken up yet,
and the command with the arguments after it. -/
structure Reading where
  given : Given
  waiting : Option (Name × String) := none
  command : Option (Place × List String) := none

/-- Reads arguments at a place, with an option and its value waiting. What follows a command is not
read here but given back. -/
def readArguments (p : Place) (g : Given) (waiting : Option (Name × String)) :
    List String → Except Stop Reading
  | [] => .ok ⟨g, waiting, none⟩
  | a :: as =>
    match shapeOf a with
    | .dashes =>
      if p = .front then .error .misuse
      else do return ⟨← readFiles (← g.settle waiting) as, none, none⟩
    | .long s value =>
      match longName? p s, value with
      | none, _ => .error .misuse
      | some name, some v => do
        let g ← g.settle waiting
        let g ← if name.takesValue then g.set name v else .error .misuse
        readArguments p g none as
      | some name, none => do
        let g ← g.settle waiting
        if name.takesValue then
          match as with
          | v :: as => if isValue v then readArguments p g (some (name, v)) as else .error .misuse
          | [] => .error .misuse
        else readArguments p (← g.flag name) none as
    | .short options => do
      let g ← g.settle waiting
      match ← shortOptions p g options with
      | .done g => readArguments p g none as
      | .waiting g name =>
        match as with
        | v :: as => if isValue v then readArguments p g (some (name, v)) as else .error .misuse
        | [] => .error .misuse
    | .plain =>
      if p = .front then
        match commandPlace? a with
        | some place => .ok ⟨g, waiting, some (place, as)⟩
        | none => .error (if a = "help" then helpOn as else .misuse)
      else do
        let g ← g.settle waiting
        readArguments p (← g.setFile a) none as

def commandOf (p : Place) (g : Given) : Except Stop Command :=
  match p, g.file with
  | .select, some file => .ok (.select file g.limit g.offset)
  | .insert, some file => .ok (.insert file g.returning)
  | .exists, some file => .ok (.exists file)
  | _, _ => .error .misuse

/-- Reads all arguments. A settings file that is named nowhere else may come from outside. -/
def parse (outside : Option String) (args : List String) : Except Stop Invocation := do
  let front ← readArguments .front {} none args
  match front.command with
  | none => .error .misuse
  | some (place, args) => do
    let own ← readArguments place {} none args
    let g ← own.given.settle own.waiting
    let command ← commandOf place g
    let front ← front.given.settle front.waiting
    return {
      dialect := ((g.dialect <|> front.dialect).getD .firebird)
      settingsFile := g.config <|> front.config <|> outside
      format := ((g.format <|> front.format).getD .text)
      verbose := g.verbose || front.verbose
      command := command }

end SqlGrammar.CommandLine
