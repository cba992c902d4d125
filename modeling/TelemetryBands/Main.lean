import TelemetryBands.Program.Perform

/-!
# The command line

Gathers what a command reads, carries it out, and writes what it leaves behind.
-/

namespace TelemetryBands.Program

/-- The number by which the system says that a path leads to a directory. -/
def directoryCode : UInt32 := 21

/-- Reads a file. A path that leads through a file, or is too long, leads to nothing. -/
def readFile (name : String) : IO (Except Obstacle (List UInt8)) := do
  try
    return .ok (← IO.FS.readBinFile name).toList
  catch
    | .permissionDenied _ _ _ => return .error .locked
    | .inappropriateType _ code _ =>
      return .error (if code = directoryCode then .directory else .missing)
    | _ => return .error .missing

/-- Reads what a command is going to look at. -/
def gather (command : Command) : IO Inputs := do
  let stdin ← IO.getStdin
  let found ← command.files.mapM fun name => return (name, ← readFile name)
  let bytes ← if command.readsStdin then stdin.readBinToEnd else pure .empty
  return {
    file := fun name => (found.lookup name).getD (.error .missing)
    stdin := bytes.toList
    terminal := ← stdin.isTty }

/-- Writes files; answers whether all could be written. -/
def writeFiles : List Write → IO Bool
  | [] => return true
  | w :: writes => do
    let written ← try IO.FS.writeFile w.name w.text; pure true catch _ => pure false
    if written then writeFiles writes else return false

/-- Writes what a command leaves behind, and answers with the status to exit with. -/
def leave (outcome : Outcome) : IO UInt32 := do
  let outcome := if ← writeFiles outcome.writes then outcome else Outcome.writeFailed
  IO.print outcome.stdout
  match outcome.ending with
  | .done => pure ()
  | .failed problem => IO.eprintln problem.toJson.compact
  | .misused => IO.eprint helpText
  return outcome.ending.status.toUInt32

end TelemetryBands.Program

open TelemetryBands.Program in
/-- Runs the program on the words of its command line. -/
def main (words : List String) : IO UInt32 := do
  match Command.read words with
  | .ok command => leave (command.perform (← gather command))
  | .error stop => leave stop.outcome
