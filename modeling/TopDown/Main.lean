import TopDown.Command.Arguments

/-!
# The command line program

Checks a program and shows its parse tree. The process ends with the code of the status, with two
after a refused command line, and with one after a breakdown.
-/

namespace TopDown

/-- The number of an error of the operating system. -/
def errorNumber : IO.Error → Nat
  | .noFileOrDirectory _ code _ => code.toNat
  | .permissionDenied _ code _ => code.toNat
  | .inappropriateType _ code _ => code.toNat
  | .invalidArgument _ code _ => code.toNat
  | .resourceExhausted _ code _ => code.toNat
  | _ => 0

def diskError (path : String) (e : IO.Error) : FileError :=
  .refused ((Refusal.all.find? (·.number = errorNumber e)).getD .notFound) path

/-- The files on disk. -/
def disk : FileSystem IO where
  read path := do
    if Files.isMalformed path then return .error .malformed
    try return .ok (← IO.FS.readBinFile path)
    catch e => return .error (diskError path e)
  write path content := do
    if Files.isMalformed path then return .error .malformed
    try
      IO.FS.writeFile path content
      return .ok ()
    catch e => return .error (diskError path e)

def usage : String :=
  "usage: topdown [-h] [-s] [-f FORMAT] [-o OUTFILE] [--url] [-d] source\n"

/-- Shows what a run lets the outside see. -/
def display (r : Report) (debug : Bool) : IO Unit := do
  (← IO.getStderr).putStr (r.errors debug)
  (← IO.getStdout).putStr r.output

end TopDown

open TopDown in
def main (words : List String) : IO UInt32 := do
  match Invocation.ofArguments? words with
  | none =>
    IO.eprint usage
    return 2
  | some i =>
    let report ← i.request.run disk
    display report i.debug
    match report.ending with
    | .ok status => return status.code.toUInt32
    | .error breakdown =>
      IO.eprintln breakdown.message
      return 1
