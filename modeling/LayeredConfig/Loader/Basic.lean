import LayeredConfig.Rule.Basic
import LayeredConfig.Version

/-!
# Loaders

A loader turns the first configuration file that exists into configuration trees. It is described
by the files it may read, the rules its trees have to satisfy, and its collaborators: what tells
the current environment, what turns a stored password into the password, and what tells the
version of a package.

A loader computes each of its views at most once. What it has computed is kept in the world under
the loader's number, and `Loader.remembered` is the only function that writes there: it never
computes what is remembered and never replaces it.
-/

namespace LayeredConfig

/-- A source of configuration trees. -/
structure Loader where
  /-- Under which number the world keeps what this loader remembers. -/
  number : Nat
  /-- The files that may be read; the first that exists is. -/
  paths : List String
  rules : List Rule
  /-- Tells the current environment, if anything does. -/
  environment : Option (Action Value)
  /-- Turns a stored password into the password. -/
  password : Value → Action Value
  /-- Tells the version of a package. -/
  version : Value → Action Value
  /-- The environments whose database settings are reported. -/
  databaseEnvironments : List Value
  /-- What the expressions of a file may refer to beside the process environment. -/
  context : List (Value × Value)

/-- The environments whose database settings are reported unless others are named. -/
def standardDatabaseEnvironments : List Value :=
  [.text "production", .text "development", .text "test"]

/-- The section that holds for all environments. -/
def commonSection : String := "common"

/-- A view of a loader, as the place where the loader remembers it. -/
structure View (α : Type) where
  known : Memo → Option α
  keep : α → Memo → Memo

namespace View

/-- The file that is read. -/
def path : View String := ⟨Memo.path, fun a m ↦ { m with path := some a }⟩

/-- The contents of the file. -/
def data : View NodeId := ⟨Memo.data, fun a m ↦ { m with data := some a }⟩

/-- The configuration of the current environment. -/
def config : View NodeId := ⟨Memo.config, fun a m ↦ { m with config := some a }⟩

/-- The configuration without an environment. -/
def early : View NodeId := ⟨Memo.early, fun a m ↦ { m with early := some a }⟩

/-- The database settings of the environments. -/
def databases : View DatabaseSettings := ⟨Memo.databases, fun a m ↦ { m with databases := some a }⟩

end View

/-- What the loader of the given number remembers. -/
def World.memo (w : World) (number : Nat) : Memo := w.memos[number]?.getD default

namespace Loader

/-- Makes a loader. Without a file to read there is none. -/
def create (paths : List String) (rules : List Rule) (environment : Option (Action Value))
    (password version : Value → Action Value)
    (databaseEnvironments : List Value) (context : List (Value × Value)) : Action Loader := do
  if paths.isEmpty then throw .noCandidates
  let number ← modifyGet fun w ↦ (w.memos.size, { w with memos := w.memos.push default })
  return { number, paths, rules, environment, password, version, databaseEnvironments, context }

/-- A view as it is remembered, or computed and from then on remembered. -/
def remembered {α : Type} (l : Loader) (v : View α) (compute : Action α) : Action α := do
  match v.known ((← get).memo l.number) with
  | some a => return a
  | none =>
    let a ← compute
    modify fun w ↦ { w with memos := w.memos.modify l.number (v.keep a) }
    return a

/-- The first of the paths at which something exists. -/
def discover (l : Loader) : Action String := do
  match l.paths.find? (← get).files.exists? with
  | some path =>
    record .info "config_source_selected" [("path", .text path)]
    return path
  | none => throw (.configuration (.sourceNotFound l.paths))

/-- The path of the file that the loader reads. -/
def path (l : Loader) : Action String := l.remembered .path l.discover

end Loader

end LayeredConfig
