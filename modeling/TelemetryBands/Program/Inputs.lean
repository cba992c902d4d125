import TelemetryBands.Feed
import TelemetryBands.Program.Command
import TelemetryBands.Program.Problem

/-!
# What a command reads

The files and the standard input as a command finds them, and the feeds and texts that it reads from
them.
-/

namespace TelemetryBands.Program

/-- Why a file has no bytes. -/
inductive Obstacle where
  | missing
  | locked
  | directory
  deriving DecidableEq, Repr

/-- The text of an obstacle. -/
def Obstacle.text : Obstacle → String
  | .missing => "No such file or directory (os error 2)"
  | .locked => "Permission denied (os error 13)"
  | .directory => "Is a directory (os error 21)"

/-- What a command finds when it starts. -/
structure Inputs where
  file : String → Except Obstacle (List UInt8)
  stdin : List UInt8
  /-- Whether somebody types the standard input. -/
  terminal : Bool

namespace Inputs

/-- The text of bytes that must be one. -/
def textOf (bytes : List UInt8) : Except Problem String :=
  match Feed.textOf? bytes with
  | some text => .ok text
  | none => .error .file

/-- The text of a file. -/
def fileText (i : Inputs) (name : String) : Except Problem String :=
  match i.file name with
  | .ok bytes => textOf bytes
  | .error _ => .error .file

/-- The text of a file or of the standard input. -/
def text (i : Inputs) (name : String) : Except Problem String :=
  if name = standardName then textOf i.stdin else i.fileText name

/-- The inputs that remain when the text of a name was read: the standard input is read once. -/
def after (i : Inputs) (name : String) : Inputs :=
  if name = standardName then { i with stdin := [] } else i

/-- The items of a feed from a file or from the standard input. A directory is a feed that breaks
off at once. -/
def feed (i : Inputs) (name : String) : Except Problem (List (Except Failure FeedItem)) :=
  if name = standardName then .ok (Feed.ofBytes i.stdin).items
  else
    match i.file name with
    | .ok bytes => .ok (Feed.ofBytes bytes).items
    | .error .directory => .ok [.error Feed.notText]
    | .error _ => .error .file

end Inputs

end TelemetryBands.Program
