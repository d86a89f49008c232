import LedgerIndex.App.Program
import LedgerIndex.Scripted.HttpServer
import LedgerIndex.Scripted.SqlServer

/-!
# The command line

Reads the settings file and the environment, does what the command line asks for, and prints what
comes of it.  The machine has no network: no node answers, and no database server can be reached.
-/

namespace LedgerIndex

open App

/-- A node that never answers. -/
def silentNode : Scripted.HttpScript := ⟨[], .lost, [], none⟩

/-- The machine, as far as it is looked at. -/
def hostWith (files : List (String × File)) (environment : List (String × String)) :
    Host Scripted.HttpScript Scripted.SqlScript :=
  ⟨files, environment, fun _ => silentNode, none, none, .new [] none⟩

/-- The text of a file, if it can be read. -/
def readText (path : String) : IO (List (String × File)) := do
  try
    return [(path, .text (← IO.FS.readFile path))]
  catch _ => return []

/-- The variables of the environment with the given names. -/
def readEnvironment : List String → IO (List (String × String))
  | [] => return []
  | name :: rest => do
    let others ← readEnvironment rest
    match ← IO.getEnv name with
    | some value => return (name, value) :: others
    | none => return others

/-- Prints how the program ended, and answers its code. -/
def printExit (e : Exit) : IO UInt32 := do
  IO.print e.output
  match e.error with
  | some text => IO.eprintln text
  | none => pure ()
  return e.code.toUInt32

/-- One line about a round. -/
def roundLine (m : Host.Indexer Scripted.HttpScript Scripted.SqlScript) : String :=
  m.loop.config.id ++ ": " ++ m.loop.status.state.name ++ ", " ++
    toString m.loop.status.failures ++ " failed"

/-- Runs an indexer, round after round. -/
partial def runRounds (m : Host.Indexer Scripted.HttpScript Scripted.SqlScript) :
    IO (Except Error Unit) := do
  IO.sleep m.loop.config.pollInterval.toUInt32
  match m.turn with
  | (some ending, _) => return ending
  | (none, m) =>
    IO.println (roundLine m)
    runRounds { m with log := [] }

/-- Does what a command asks for. -/
def perform (a : Arguments) : IO UInt32 := do
  let files ← readText (a.options.config.getD usualConfig)
  let host := hostWith files (← readEnvironment ["SCHEMAINDEX_RPC_URL", "DATABASE_URL"])
  let stamp := Int.ofNat (← IO.monoMsNow)
  match a.command with
  | .run isForced =>
    match (host.settings a.options).bind fun s => (host.start s isForced stamp).1 with
    | .error text => printExit (.failure text)
    | .ok m =>
      let ending ← runRounds m
      printExit (host.stop m ending).1
  | _ => printExit (host.execute a stamp 0).1

end LedgerIndex

/-- Reads the command line. -/
def main (words : List String) : IO UInt32 := do
  match LedgerIndex.App.Parsed.ofWords words with
  | .command a => LedgerIndex.perform a
  | _ =>
    let environment ← LedgerIndex.readEnvironment ["SCHEMAINDEX_RPC_URL", "DATABASE_URL"]
    LedgerIndex.printExit ((LedgerIndex.hostWith [] environment).runCommandLine words 0 0).1
