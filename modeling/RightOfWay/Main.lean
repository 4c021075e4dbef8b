import RightOfWay.Command.Session

namespace RightOfWay.Command

/-- What the operating system says about a path that cannot be written. -/
def storeReason : IO.Error → String
  | .noFileOrDirectory _ code details => s!"{details} (os error {code})"
  | .permissionDenied _ code details => s!"{details} (os error {code})"
  | .inappropriateType _ code details => s!"{details} (os error {code})"
  | .resourceExhausted _ code details => s!"{details} (os error {code})"
  | .invalidArgument _ code details => s!"{details} (os error {code})"
  | e => toString e

/-- Stores a text under a path; gives the reason if that fails. -/
def storeText (path text : String) : IO (Except String Unit) := do
  try
    IO.FS.writeFile path text
    return .ok ()
  catch e => return .error (storeReason e)

end RightOfWay.Command

open RightOfWay.Command

def main (args : List String) : IO UInt32 := do
  let clock := (← IO.monoNanosNow).toUInt64
  match Session.ofArguments args clock default with
  | .ended o => report args o
  | .storing events path text resume =>
    log args events
    report args (resume (← storeText path text))
where
  log (args : List String) (events : List Event) : IO Unit := do
    for e in events.filter (Filter.ofArguments args).shows do
      IO.eprintln e.text
  report (args : List String) (o : Outcome) : IO UInt32 := do
    IO.eprint o.notice
    log args o.events
    IO.print o.output
    return o.exitCode.toUInt32
