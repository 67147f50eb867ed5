import ReadPlan.Demo

/-!
# ReadPlan.Main — the demonstration as a program

Prints the lines of the demonstration, and its log records on the error stream.
-/

namespace ReadPlan

namespace Demo

/-- A log record as a line. -/
def logLine (entry : LogRecord) : String :=
  let level :=
    match entry.level with
    | .debug => "DEBUG"
    | .warning => "WARNING"
  level ++ ": " ++ entry.message

end Demo

end ReadPlan

open ReadPlan in
def main : IO UInt32 := do
  let outcome := Demo.lines
  for entry in outcome.log do
    IO.eprintln (Demo.logLine entry)
  match outcome.result with
  | .ok lines =>
    for line in lines do
      IO.println line
    return 0
  | .error failure =>
    IO.eprintln failure.message
    return 1
