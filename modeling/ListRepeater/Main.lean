import ListRepeater.Demo
/-!
# The program

Prints the demonstration.
-/
open ListRepeater

def main : IO UInt32 := do
  let run := Demo.run
  for line in run.lines do
    IO.println line
  return run.exitCode.toUInt32
