import LayeredConfig.Loader.Basic
import LayeredConfig.Template.Fill
import LayeredConfig.Yaml.Document

/-!
# The contents of a configuration file

The file is a template. Filled in, it is a document whose sections become a tree, in which every
stored database password is then replaced by the password behind it. Nothing is merged yet, and
the tree is frozen.
-/

namespace LayeredConfig

namespace Loader

/-- Refuses a file for its structure. -/
private def decline {α : Type} (fault : StructureFault) : Action α :=
  throw (.configuration (.invalidStructure fault))

/-- What the names of a template stand for: the process environment, the directory of the file,
and the context of the loader, which may replace both. -/
def givenNames (l : Loader) (path : String) : Action (List (Value × Value)) := do
  let w ← get
  let inherited := w.environment.map fun (name, value) ↦ (Value.text name, Value.text value)
  return l.context.foldl (fun given (k, v) ↦ Value.insertEntry k v given)
    [(.text "env", .mapping inherited), (.text "root", .text (w.files.parentText path))]

/-- The text of a file with its template filled in. -/
def expand (l : Loader) (path text : String) : Action String := do
  let given ← l.givenNames path
  match Template.parts? text with
  | none => decline (.invalidTemplate path)
  | some parts => onMemory (Template.fill parts given)

/-- The value of a document. -/
def parse (path text : String) : Action Value :=
  match Yaml.load text with
  | .ok v => return v
  | .error (.document .malformed) => decline (.invalidMarkup path)
  | .error (.document (.value fault)) => throw (.document fault)
  | .error .endless => throw .nestedTooDeep

/-- The value that the file at a path holds. -/
def readDocument (l : Loader) (path : String) : Action Value := do
  match (← get).files.find? path with
  | none => throw (.noSuchFile (FileSystem.pathText path))
  | some .directory => throw (.isDirectory (FileSystem.pathText path))
  | some (.document v) => return v
  | some (.bytes content) =>
    match FileSystem.decodeText? content with
    | none => throw .notUtf8
    | some text => parse path (← l.expand path text)

/-- Replaces the stored password of a section by the password behind it, if there is one. -/
def revealPassword (l : Loader) (title : String) (content : Value) : Action Unit := do
  match content with
  | .node section_ =>
    if ← onMemory (Node.present section_ [.text "database"]) then
      match ← onMemory (Node.get section_ (.text "database")) with
      | .node database =>
        if ← onMemory (Node.present database [.text "password"]) then
          let password ← l.password (← onMemory (Node.get database (.text "password")))
          onMemory (Node.set database (.text "password") password)
          record .debug "database_password_decrypted" [("section", .text title)]
      | _ => pure ()
  | _ => pure ()

/-- Reads the file at a path and reveals its passwords. -/
def readFrom (l : Loader) (path : String) : Action NodeId := do
  let n ← (Node.create (← l.readDocument path) : Eval NodeId)
  let sections ← onMemory (Node.items n)
  sections.forM fun (title, content) ↦ l.revealPassword title content
  onMemory (Node.freeze n)
  return n

/-- Reads the file. -/
def readData (l : Loader) : Action NodeId := do l.readFrom (← l.path)

/-- The contents of the file with passwords revealed; nothing is merged. -/
def data (l : Loader) : Action NodeId := l.remembered .data l.readData

end Loader

end LayeredConfig
