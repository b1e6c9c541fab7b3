import Stencil.CommandLine.Run
/-!
# The program

Runs the command line on the real disk.
-/

namespace Stencil

/-- The answer of an operation, or none if it fails. -/
def answered {α : Type} (x : IO α) : IO (Option α) :=
  try return some (← x) catch _ => return none

/-- Whether an operation succeeds. -/
def succeeds (x : IO Unit) : IO Bool := do
  return (← answered x).isSome

/-- The real disk. -/
def realDisk : Disk IO where
  kind? path := answered do
    return if ← (← IO.FS.realPath path).isDir then .folder else .file
  names? path := answered do
    return (← (← IO.FS.realPath path).readDir).toList.map fun e => e.fileName
  read? path := answered (IO.FS.readFile path)
  write path text := succeeds (IO.FS.writeFile path text)
  makeFolder path := succeeds (IO.FS.createDir path)
  fullPath? path := answered do return (← IO.FS.realPath path).toString

end Stencil

open Stencil in
/-- Runs the program, prints what it says and ends with its code. -/
def main (args : List String) : IO UInt32 := do
  let outcome ← CommandLine.run realDisk args
  IO.print outcome.output
  for note in outcome.notes do IO.eprintln note
  for message in outcome.failure do IO.eprintln ("Error: " ++ message)
  return outcome.code.toUInt32
