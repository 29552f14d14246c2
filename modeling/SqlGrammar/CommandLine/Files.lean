/-!
Files as the command line meets them: why one cannot be read, and the files of a folder that is held
in memory. A path is walked name by name, and every step needs a folder to stand in, also the step
to the parent and the one that stays. Of what lies outside the folder nothing is known but that
there are folders.
-/

namespace SqlGrammar.CommandLine

/-- Why a file cannot be read. -/
inductive FileFault
  | missing
  | denied
  /-- A name is looked up in something that is no folder. -/
  | notFolder
  /-- The path leads to a folder. -/
  | isFolder
  | nameTooLong
  /-- The bytes are no text. -/
  | notText
  /-- Any other reason, in the words of the system. -/
  | other (text : String)
  deriving DecidableEq

/-- The wording of a fault, with the number that the system has for it. -/
def FileFault.message : FileFault → String
  | missing => "No such file or directory (os error 2)"
  | denied => "Permission denied (os error 13)"
  | notFolder => "Not a directory (os error 20)"
  | isFolder => "Is a directory (os error 21)"
  | nameTooLong => "File name too long (os error 36)"
  | notText => "stream did not contain valid UTF-8"
  | other text => text

/-- Nothing is there under this path. -/
def FileFault.isAbsence : FileFault → Bool
  | missing | notFolder | nameTooLong => true
  | _ => false

/-- The files of a folder and of the folders in it, each with the names that lead to it. -/
structure Folder where
  files : List (List String × String)
  deriving DecidableEq

namespace Folder

/-- Where a walk stands: under some names in the folder, or in a folder outside of it. -/
inductive Place
  | inside (names : List String)
  | outside
  deriving DecidableEq

/-- The longest name of a file, in bytes. -/
def maxName : Nat := 255

/-- The longest path, in bytes. -/
def maxPath : Nat := 4095

/-- Whether a place is a folder: what has no content but leads to a file. -/
def isFolder (f : Folder) : Place → Bool
  | .outside => true
  | .inside [] => true
  | .inside names => (f.files.lookup names).isNone && f.files.any fun e => names.isPrefixOf e.1

def isThere (f : Folder) (p : Place) : Bool :=
  f.isFolder p || match p with
    | .outside => true
    | .inside names => (f.files.lookup names).isSome

def Place.parent : Place → Place
  | inside [] => outside
  | inside names => inside names.dropLast
  | outside => outside

def step (f : Folder) (p : Place) (name : String) : Except FileFault Place :=
  if ! f.isFolder p then .error .notFolder
  else if name = "" ∨ name = "." then .ok p
  else if name = ".." then .ok p.parent
  else if maxName < name.utf8ByteSize then .error .nameTooLong
  else match p with
    | .outside => .error .missing
    | .inside names =>
      let next := Place.inside (names ++ [name])
      if f.isThere next then .ok next else .error .missing

def walk (f : Folder) : Place → List String → Except FileFault Place
  | p, [] => .ok p
  | p, name :: names => do f.walk (← f.step p name) names

/-- The names of a path. A `/` at the start or the end, or a second one in a row, makes an empty
name, which stays where it is. -/
def names (path : String) : List String := (path.toList.splitOn '/').map String.ofList

/-- The content of the file at a path. A path that starts with `/` starts outside the folder. -/
def read (f : Folder) (path : String) : Except FileFault String :=
  if path = "" then .error .missing
  else if maxPath < path.utf8ByteSize then .error .nameTooLong
  else do
    let start := if path.startsWith "/" then Place.outside else .inside []
    match ← f.walk start (names path) with
    | .outside => .error .isFolder
    | .inside names => match f.files.lookup names with
      | some content => .ok content
      | none => .error .isFolder

end Folder

end SqlGrammar.CommandLine
