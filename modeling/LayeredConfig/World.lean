import LayeredConfig.FileSystem
import LayeredConfig.Node.Basic

/-!
# The world of a loader

What loading a configuration can see and change beside nodes: files, the process environment, what
the host says about versions, the log, and what each loader remembers.

An `Action` may fail, and what it changed before it failed stays changed.
-/

namespace LayeredConfig

/-- How serious a log entry is. -/
inductive LogLevel where
  | debug
  | info
  | warning
  | error
  | exception
deriving DecidableEq, Repr, Inhabited

/-- One line of the log: an event with named details, and the failure that it reports, if it
reports one as such. -/
structure LogEntry where
  level : LogLevel
  event : String
  details : Entries Value
  cause : Option Failure
deriving Inhabited

/-- What asking for the revision of a checkout leads to. -/
inductive RevisionOutcome where
  | output (text : String)
  | exitStatus (status : Int)
  | timedOut
  | toolMissing
deriving Repr, Inhabited

/-- What the host says about versions. -/
structure Host where
  /-- The installed packages with their versions. -/
  installed : List (String × Option String)
  /-- The complaint of the package lookup about a package that is not installed, if it makes
  one. -/
  lookupComplaint : Option String
  revision : RevisionOutcome
deriving Repr, Inhabited

/-- The database settings of the environments, as texts. -/
abbrev DatabaseSettings := Entries (Entries (Option String))

/-- What a loader remembers; an entry once made is never replaced. -/
structure Memo where
  path : Option String
  data : Option NodeId
  config : Option NodeId
  early : Option NodeId
  databases : Option DatabaseSettings
deriving Repr, Inhabited

/-- Everything that an action sees and changes. -/
structure World where
  memory : Memory
  log : Array LogEntry
  files : FileSystem
  environment : Entries String
  host : Host
  memos : Array Memo
  /-- How often each scripted collaborator was called. -/
  tallies : Array Nat
deriving Inhabited

/-- An action in the world. -/
abbrev Action := EStateM Failure World

/-- An evaluation as an action. -/
def onMemory {α : Type} (x : Eval α) : Action α := fun w ↦
  match x w.memory with
  | .ok a m => .ok a { w with memory := m }
  | .error f m => .error f { w with memory := m }

instance : MonadLift Eval Action := ⟨onMemory⟩

/-- An outcome as an action. -/
def ofOutcome {α : Type} : Except Failure α → Action α
  | .ok a => pure a
  | .error f => throw f

/-- Adds a line to the log. -/
def record (level : LogLevel) (event : String) (details : Entries Value) : Action Unit :=
  modify fun w ↦ { w with log := w.log.push ⟨level, event, details, none⟩ }

/-- Adds a line that reports a failure to the log. -/
def recordFailure (cause : Failure) (event : String) (details : Entries Value) : Action Unit :=
  modify fun w ↦ { w with log := w.log.push ⟨.exception, event, details, some cause⟩ }

/-- The text of a failure; empty where its wording is not fixed. -/
def failureText (f : Failure) : Action String := do
  let m := (← get).memory
  return (f.message m.nameOf).getD ""

end LayeredConfig
