import LayeredConfig.Loader.Views

/-!
# Connections

The database settings of a configuration as an entry of the server's table of connections: the
adapter becomes a backend, every other setting is taken over as it stands, and one that does not
count as set becomes the empty text.
-/

namespace LayeredConfig

/-- The backend of the adapter that keeps its tables in a named schema. -/
def schemaBackend : String := "django.db.backends.postgresql"

/-- The backends of the adapters that a configuration may name. -/
def backends : List (String × String) := [
  ("postgresql", schemaBackend),
  ("postgres", schemaBackend),
  ("sqlite3", "django.db.backends.sqlite3"),
  ("mysql", "django.db.backends.mysql")]

/-- How many seconds a connection is kept open. -/
def connectionAge : Int := 60

/-- The fields of a connection that are taken over, and the settings that they come from. -/
def copiedFields : List (String × String) := [
  ("NAME", "database"), ("USER", "username"), ("PASSWORD", "password"),
  ("HOST", "host"), ("PORT", "port")]

/-- The backend of an adapter. -/
def backendOf (adapter : Value) : Eval String := do
  if let some kind := adapter.unhashable? then throw (.unhashable kind)
  match adapter.text?.bind (List.lookup · backends) with
  | some backend => return backend
  | none => throw (.improperlyConfigured (← snapshot adapter))

/-- A setting, or the empty text for one that does not count as set. -/
def settingOrEmpty (read : String → Eval Value) (key : String) : Eval Value := do
  let v ← read key
  return if ← truthyValue v then v else .text ""

/-- The options of a connection to the backend with schemas. -/
def schemaOptions (read : String → Eval Value) : Eval String := do
  let schema := "-c search_path=public"
  if !(← truthyValue (← read "min_messages")) then return schema
  return schema ++ " -c client_min_messages=" ++ (← displayValue (← read "min_messages"))

/-- The connection that settings describe. -/
def connectionOf (read : String → Eval Value) : Eval Value := do
  let backend ← backendOf (← settingOrEmpty read "adapter")
  let copied ← copiedFields.mapM fun (field, key) ↦
    return (Value.text field, ← settingOrEmpty read key)
  let common := (Value.text "ENGINE", Value.text backend) :: copied ++
    [(.text "CONN_MAX_AGE", .int connectionAge)]
  if backend ≠ schemaBackend then return .mapping common
  let options ← schemaOptions read
  return .mapping (common ++
    [(.text "OPTIONS", .mapping [(.text "options", .text options)])])

/-- Reads the settings of a mapping, where a missing one is null, or of a node. -/
def settingReader (settings : Value) (key : String) : Eval Value :=
  match settings with
  | .mapping entries => return (Value.lookupEntry? (.text key) entries).getD .null
  | .node n => Node.get n (.text key)
  | v => throw (.missingAttribute v.qualifiedKindName "get")

/-- The connection that a mapping or a node of settings describes. -/
def connection (settings : Value) : Eval Value := connectionOf (settingReader settings)

/-- Database settings as a value. -/
def settingsValue (settings : Entries (Option String)) : Value :=
  .mapping (settings.map fun (k, v) ↦ (.text k, (v.map Value.text).getD .null))

end LayeredConfig
