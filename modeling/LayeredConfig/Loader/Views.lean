import LayeredConfig.Loader.Derivation
import LayeredConfig.Loader.Source

/-!
# The views of a loader

The configuration of the current environment, the configuration without an environment, and the
database settings of the environments. A configuration is the common section with the section of
the environment merged over it and the derived values filled in. It is only given out if it
satisfies the rules, and it is frozen.
-/

namespace LayeredConfig

namespace Loader

/-- Merges the sections that an environment consists of. -/
def mergeSections (environment : Value) (data : NodeId) : Eval NodeId := do
  let n ← Node.create .null
  Node.merge n (← Node.get data (.text commonSection))
  if ← truthyValue environment then Node.merge n (← Node.get data environment)
  return n

/-- Checks the rules; a violation is noted in the log. -/
def validate (l : Loader) (environment : Value) (n : NodeId) : Action Unit :=
  tryCatch (checkRules ⟨n, environment, []⟩ l.rules) fun failure ↦ do
    if let .configuration (.validationFailure keyPath _ problem) := failure then
      let names := (← get).memory.nameOf
      record .error "config_validation_failed"
        [("environment", environment), ("key_path", .text keyPath),
          ("problem", .text (problem.message names))]
    throw failure

/-- Builds the configuration of an environment; a value that does not count as set is none. -/
def load (l : Loader) (environment : Value) : Action NodeId := do
  let data ← l.data
  let n ← (mergeSections environment data : Eval NodeId)
  l.derive n
  l.validate environment n
  onMemory (Node.freeze n)
  let named ← onMemory (truthyValue environment)
  record .info "config_loaded"
    [("environment", if named then environment else .text "early"), ("path", .text (← l.path))]
  return n

/-- The current environment. -/
def currentEnvironment (l : Loader) : Action Value :=
  match l.environment with
  | some ask => ask
  | none => throw (.configuration (.general
      [.scalar (.text "no environment_resolver configured, use early_config() instead")]))

/-- The configuration of the current environment. -/
def config (l : Loader) : Action NodeId :=
  l.remembered .config do l.load (← l.currentEnvironment)

/-- The configuration without an environment. -/
def earlyConfig (l : Loader) : Action NodeId := l.remembered .early (l.load .null)

/-! ## Database settings -/

/-- Whether a section has database settings that count as set. -/
def hasDatabase (data : NodeId) (title : Value) : Eval Bool :=
  Node.present data [title, .text "database"]

/-- The database settings of a section; a missing section or block has none. -/
def databaseBlock (data : NodeId) (title : Value) : Eval (List (Value × Value)) := do
  if !(← hasDatabase data title) then return []
  match ← Node.get data title with
  | .node content =>
    match ← Node.get content (.text "database") with
    | .node block =>
      match ← Node.toMapping block with
      | .mapping entries => return entries
      | _ => return []
    | other =>
      refuse (.invalidStructure (.databaseNotMapping (← displayValue title) (← snapshot other)))
  | _ => return []

/-- The text of a setting; nothing stays nothing. -/
def settingText : Value → Eval (Option String)
  | .null => return none
  | v => some <$> displayValue v

/-- The settings of an environment: its own over the common ones, as texts. -/
def databaseSettings (common own : List (Value × Value)) : Eval (Entries (Option String)) := do
  let merged := own.foldl (fun all (k, v) ↦ Value.insertEntry k v all) common
  merged.mapM fun (k, v) ↦ return (← displayValue k, ← settingText v)

/-- Adds the settings of the given environments. -/
def collectDatabases (data : NodeId) (common : List (Value × Value)) (all : DatabaseSettings) :
    List Value → Eval DatabaseSettings
  | [] => return all
  | environment :: rest => do
    if !(← hasDatabase data environment) then collectDatabases data common all rest
    else
      let settings ← databaseSettings common (← databaseBlock data environment)
      collectDatabases data common (all.put (← displayValue environment) settings) rest

/-- Builds the database settings. -/
def readDatabases (l : Loader) : Action DatabaseSettings := do
  let data ← l.data
  let common ← (databaseBlock data (.text commonSection) : Eval (List (Value × Value)))
  onMemory (collectDatabases data common [] l.databaseEnvironments)

/-- The database settings of every environment that has some of its own. -/
def databases (l : Loader) : Action DatabaseSettings := l.remembered .databases l.readDatabases

end Loader

end LayeredConfig
