import Reckoner.Command.Arguments
import Reckoner.Repl.Session
import Reckoner.Report

/-!
The program: carries out what its arguments ask for, writes results to standard output and failures to
standard error, and ends with 0 after success, 1 after a failure and 2 if the arguments cannot be
understood.
-/
namespace Reckoner.Program

/-- The lines that are written for a failure. -/
def failureLines (failure : Failure) : List String :=
  (Report.heading? failure).toList ++ (Report.location? .round none failure).toList ++
    (Report.help failure).map fun help => s!"    Help: {help}"

/-- Writes a failure to standard error. -/
def showFailure (failure : Failure) : IO Unit := do
  let stderr ← IO.getStderr
  (failureLines failure).forM stderr.putStrLn

/-- Writes what a session has printed and the failures it has shown, and forgets them. -/
def flush (session : Repl.Session) : IO Repl.Session := do
  let stdout ← IO.getStdout
  stdout.putStr session.engine.host.printed
  stdout.flush
  session.failures.forM showFailure
  let host := { session.engine.host with printed := "" }
  return { session with engine := { session.engine with host := host }, failures := [] }

/-- Feeds lines to a session until it ends. -/
partial def converse (input : IO.FS.Stream) (session : Repl.Session) : IO Unit := do
  let session ← flush session
  if session.ended then return
  let line ← input.getLine
  if line.isEmpty then
    let _ ← flush (session.feed .finish)
    return
  let text := if line.endsWith "\n" then String.ofList line.toList.dropLast else line
  converse input (session.feed (.line text))

/-- Carries out a request and gives the exit code. -/
def perform : Command.Request → IO UInt32
  | .help topic => do
    IO.print topic.text
    return 0
  | .version => do
    IO.print Command.versionText
    return 0
  | .evaluate options _ => do
    let outcome := options.run
    IO.print outcome.printed
    match outcome.result with
    | .ok _ => return 0
    | .error failure =>
      showFailure failure
      return 1
  | .interact bindings _ => do
    match Repl.Session.start bindings with
    | .ok session =>
      converse (← IO.getStdin) session
      return 0
    | .error failure =>
      showFailure failure
      return 1

end Reckoner.Program

/-- Reads the arguments and carries out the request. -/
def main (arguments : List String) : IO UInt32 := do
  match Reckoner.Command.readRequest arguments with
  | some request => Reckoner.Program.perform request
  | none =>
    let stderr ← IO.getStderr
    stderr.putStr Reckoner.Command.HelpTopic.program.text
    return 2
