import TelemetryBands.Program.Problem

/-!
# Outcomes of commands

What a command leaves behind: files, the text on the standard output and how it ended.
-/

namespace TelemetryBands.Program

/-- A file with the text that it gets. -/
structure Write where
  name : String
  text : String
  deriving DecidableEq, Repr

/-- How a command ended. -/
inductive Ending where
  | done
  | failed (problem : Problem)
  /-- The command line cannot be read. -/
  | misused
  deriving DecidableEq, Repr

/-- The status that the program exits with. -/
def Ending.status : Ending → Nat
  | .done => 0
  | .failed _ => 1
  | .misused => 2

/-- What a command leaves behind. -/
structure Outcome where
  /-- The files in the order in which they are written, all before anything is shown. -/
  writes : List Write
  stdout : String
  ending : Ending
  deriving DecidableEq, Repr

namespace Outcome

/-- Only shows a text. -/
def ofText (text : String) : Outcome :=
  ⟨[], text, .done⟩

/-- Fails without showing anything. -/
def fail (problem : Problem) : Outcome :=
  ⟨[], "", .failed problem⟩

/-- Shows a report, and fails if it tells of a problem. -/
def report (text : String) : Option Problem → Outcome
  | none => ofText text
  | some problem => ⟨[], text, .failed problem⟩

/-- The outcome that was made, or the failure that a problem is. -/
def ofExcept : Except Problem Outcome → Outcome
  | .ok outcome => outcome
  | .error problem => fail problem

/-- What remains of an outcome when a file cannot be written. -/
def writeFailed : Outcome :=
  fail .file

end Outcome

end TelemetryBands.Program
