import TreeQuery.Command.Run

/-!
# The program

Reads the tree that the command line names, runs the command line on it, and writes its outcome.
-/

namespace TreeQuery.Command

/-- The number of an error of the system, which may be given with its sign turned. -/
def systemCode? : IO.Error → Option Nat
  | .noFileOrDirectory _ code _ => some (magnitude code)
  | .permissionDenied _ code _ => some (magnitude code)
  | .inappropriateType _ code _ => some (magnitude code)
  | .invalidArgument _ code _ => some (magnitude code)
  | .noSuchThing _ code _ => some (magnitude code)
  | _ => none
where
  magnitude (code : UInt32) : Nat := code.toInt32.toInt.natAbs

/-- Why a file cannot be read. -/
def readError (error : IO.Error) : ReadError :=
  match (systemCode? error).bind SystemError.ofCode? with
  | some known => .system known
  | none => .other (toString error)

/-- The text at a path, or the cause why there is none. -/
def readPath (path : String) : IO (Except ReadError String) := do
  try
    let bytes ← IO.FS.readBinFile path
    return (String.fromUTF8? bytes).elim (.error .notText) .ok
  catch error => return .error (readError error)

end TreeQuery.Command

open TreeQuery.Command in
/-- Run the command line. -/
def main (arguments : List String) : IO UInt32 := do
  let invocation := Invocation.read arguments
  let text ← match invocation.path? with
    | none => pure (.ok "")
    | some path => readPath path
  let outcome := invocation.outcome fun _ => text
  IO.print outcome.standardOutput
  IO.eprint outcome.standardError
  return outcome.exit.toUInt32
