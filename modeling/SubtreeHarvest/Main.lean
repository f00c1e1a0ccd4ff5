/-
The command: reads its input, runs, and writes what the run comes to.
-/
import SubtreeHarvest.Command.Run

namespace SubtreeHarvest.Command

/-- All that can be read of an open file. -/
def readAll (handle : IO.FS.Handle) : IO Markup.Cursor := do
  try
    let bytes ← handle.readBinToEnd
    return .ofBytes bytes.toList
  catch e => return .failingBehind 0 (toString e) []

/-- The content at a path, if it can be opened. -/
def openFile? (path : String) : IO (Option Markup.Cursor) := do
  try
    let handle ← IO.FS.Handle.mk path .read
    return some (← readAll handle)
  catch _ => return none

/-- Creates a file, and says whether that worked. -/
def createFile (path : String) : IO Bool := do
  try
    IO.FS.writeFile path ""
    return true
  catch _ => return false

/-- The content of standard input. -/
def readStandardInput : IO Markup.Cursor := do
  try
    let bytes ← (← IO.getStdin).readBinToEnd
    return .ofBytes bytes.toList
  catch e => return .failingBehind 0 (toString e) []

/-- Finds out what a run needs of its surroundings. -/
def lookAround (arguments : Arguments) : IO Surroundings := do
  let source? ← match arguments.input with
    | some path => openFile? path
    | none => some <$> readStandardInput
  let canCreate ← match source?, arguments.output with
    | some _, some path => createFile path
    | _, _ => pure true
  return ⟨source?.getD (.ofBytes []), fun _ => source?, fun _ => canCreate⟩

/-- Writes what a run comes to where it belongs, and says whether that worked. -/
def writeOut (arguments : Arguments) (text : String) : IO Bool := do
  try
    match arguments.output with
    | some path => IO.FS.writeFile path text
    | none => IO.print text
    return true
  catch _ => return false

/-- Delivers what a run comes to. -/
def deliver (arguments : Arguments) (outcome : Outcome) : IO UInt32 := do
  let delivered ← match outcome.written with
    | some text => writeOut arguments text
    | none => pure true
  let outcome := if delivered then outcome else outcome.lost
  if let some complaint := outcome.complaint then
    IO.eprintln ("Error: " ++ complaint.message)
    if let some failure := complaint.cause? then
      IO.eprintln ("\nCaused by:\n    " ++ failure.describe)
  return outcome.exitCode.toUInt32

end SubtreeHarvest.Command

open SubtreeHarvest.Command

def main (args : List String) : IO UInt32 := do
  match Arguments.parse args with
  | .ok arguments =>
    let surroundings ← lookAround arguments
    deliver arguments (run surroundings arguments)
  | .error refusal =>
    IO.print refusal.written
    return refusal.exitCode.toUInt32
