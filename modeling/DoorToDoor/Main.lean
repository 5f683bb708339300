import DoorToDoor.Corridor

/-!
# The command line

Plans the journeys of the corridor and prints them. The first argument names a file of settings;
without it the settings of the example are used.
-/

open DoorToDoor

/-- The source of settings that the arguments name. -/
def settingsSource (args : List String) : IO Corridor.Source :=
  match args with
  | [] => return .builtIn
  | path :: _ => do
    try
      return .file (some (← IO.FS.readBinFile path))
    catch _ =>
      return .file none

/-- Runs the corridor, prints the report and the time it took, and fails if the run ended early. -/
def main (args : List String) : IO UInt32 := do
  let started ← IO.monoNanosNow
  let report := Corridor.run (← settingsSource args)
  for line in report.lines do
    IO.println line
  match report.error? with
  | some e =>
    IO.eprintln ("Error: " ++ e.message)
    return 1
  | none =>
    let elapsed := Float.ofNat ((← IO.monoNanosNow) - started) / 1000000
    IO.println ("Routed " ++ Corridor.number Corridor.requests.length ++ " requests in " ++
      Decimal.fixed 3 elapsed ++ " ms")
    return 0
