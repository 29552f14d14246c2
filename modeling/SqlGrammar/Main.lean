import SqlGrammar.CommandLine.Run

/-!
The program: the command line on real files.
-/

namespace SqlGrammar.CommandLine

/-- The number of a failure of the system. Some come with their sign changed. -/
def systemNumber (code : UInt32) : Nat := min code.toNat (-code).toNat

def faultOf (e : IO.Error) : FileFault :=
  match e with
  | .noFileOrDirectory .. => .missing
  | .permissionDenied .. => .denied
  | .inappropriateType _ code _ => if systemNumber code = 21 then .isFolder else .notFolder
  | .invalidArgument _ code _ =>
    if systemNumber code = 36 then .nameTooLong else .other (toString e)
  | e => .other (toString e)

def decodeText (bytes : ByteArray) : Except FileFault String :=
  match String.fromUTF8? bytes with
  | some s => .ok s
  | none => .error .notText

partial def readAllBytes (s : IO.FS.Stream) (soFar : ByteArray) : IO ByteArray := do
  let chunk ← s.read 65536
  if chunk.isEmpty then return soFar else readAllBytes s (soFar ++ chunk)

def userDirectory : IO (Option String) := do
  match ← IO.getEnv "XDG_CONFIG_HOME" with
  | some d => if d.startsWith "/" then return some d else homeDirectory
  | none => homeDirectory
where
  homeDirectory : IO (Option String) := do
    return (← IO.getEnv "HOME").map (· ++ "/.config")

/-- The files of the machine. -/
def machine : IO (World IO) := do
  return {
    read := fun path => do
      try
        return decodeText (← IO.FS.readBinFile path)
      catch e => return .error (faultOf e)
    input := do
      return decodeText (← readAllBytes (← IO.getStdin) .empty)
    settingsDirectory := ← userDirectory }

end SqlGrammar.CommandLine

open SqlGrammar.CommandLine in
def main (args : List String) : IO UInt32 := do
  let outcome ← run (← machine) (← IO.getEnv "QAIL_FIREBIRD_CONFIG") args
  (← IO.getStdout).putStr outcome.output
  if outcome.errors ≠ "" then (← IO.getStderr).putStrLn outcome.errors
  return .ofNat outcome.code
