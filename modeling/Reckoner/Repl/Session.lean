import Reckoner.Command.Evaluate
import Reckoner.Repl.Token

/-!
The interactive session. Lines are collected until they can be evaluated together; the value or the
failure is shown, and the next entry begins. A blank entry ends the session, and so does the end of the
input. Two integer variables are there from the start.
-/
namespace Reckoner.Repl

/-- What the user does. -/
inductive Input where
  /-- Types a line and ends it. -/
  | line (text : String)
  /-- Drops what was typed since the last entry. -/
  | interrupt
  /-- Ends the session. -/
  | finish

/-- The state of a session: what has been typed for the next entry, and the failures shown so far. -/
structure Session where
  engine : Engine
  typed : String
  failures : List Failure
  ended : Bool

namespace Session

/-- The greeting. -/
def banner : String :=
  "calx REPL. Empty line or Ctrl+D to exit; Ctrl+C to abort entry"

/-- Prints a line. -/
def print (session : Session) (line : String) : Session :=
  { session with
    engine := { session.engine with host := session.engine.host.printLine line } }

/-- A session whose variables are `x`, `y` and those of the bindings, which may replace the two. -/
def start (bindings : Command.Bindings) : Except Failure Session :=
  let setUp : EngineAction Unit := do
    Library.registerAll
    Engine.define "x" (.int 1)
    Engine.define "y" (.int 2)
    bindings.apply
  match (Engine.new Engine.defaultPassLimit).run setUp with
  | (.ok _, engine) => .ok (print ⟨engine, "", [], false⟩ banner)
  | (.error failure, _) => .error failure

/-- Ends the session. -/
def finish (session : Session) : Session :=
  { session.print "Goodbye!" with ended := true }

/-- Evaluates an entry, or ends the session if the entry is blank. -/
def submit (session : Session) (entry : String) : Session :=
  let session := { session with typed := "" }
  if entry.toList.all Text.isBlank then session.finish
  else
    let action : EngineAction Unit := do
      Command.printValue (← Command.interpret entry false)
    match session.engine.run action with
    | (.ok _, engine) => { session with engine := engine }
    | (.error failure, engine) =>
      { session with engine := engine, failures := session.failures ++ [failure] }

/-- What the session does about an input. -/
def feed (session : Session) (input : Input) : Session :=
  if session.ended then session
  else
    match input with
    | .line text =>
      let typed := session.typed ++ text
      if isComplete typed then session.submit typed else { session with typed := typed ++ "\n" }
    | .interrupt => { session with typed := "" }
    | .finish => (session.print "").finish

/-- What the session does about several inputs. -/
def feedAll (session : Session) (inputs : List Input) : Session :=
  inputs.foldl feed session

end Session

end Reckoner.Repl
