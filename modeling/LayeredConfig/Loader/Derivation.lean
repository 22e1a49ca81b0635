import LayeredConfig.Loader.Basic

/-!
# Derived values

Values that a loader fills into a merged tree before it is validated: which of the two modes the
server runs in, the defaults that depend on the mode, the address that mail is sent from, and the
version.

The two predicates on the mode are computations, so they follow a later change of the mode. The
defaults are stored once, and a value that is already there is left alone.
-/

namespace LayeredConfig

namespace Loader

/-- Stores a computation that tells whether the mode is the given one. -/
def definePredicate (n : NodeId) (key mode : String) : Eval Unit := do
  let d ← modifyGet fun m ↦ m.define (.holds n "app_mode" (.text mode))
  Node.set n (.text key) (.deferred d)

/-- Stores a value under a key that holds nothing. -/
def fillNull (n : NodeId) (value : Value) (key : String) : Eval Unit := do
  match ← Node.valueOf n (.text key) with
  | .null => Node.set n (.text key) value
  | _ => pure ()

/-- The address that mail is sent from: the host's, unless one is set. -/
def deriveReplyAddress (n : NodeId) : Eval Unit := do
  let address ← Node.valueOf n (.text "email_reply_address")
  if !(← truthyValue address) then
    if ← Node.hasKey n (.text "host") then
      let host ← displayValue (← Node.get n (.text "host"))
      Node.set n (.text "email_reply_address") (.text ("no-reply@" ++ host))

/-- Names the application after its mode, unless it has a name. -/
def deriveName (n : NodeId) (katello : Bool) : Eval Unit := do
  let name ← Node.valueOf n (.text "app_name")
  if !(← truthyValue name) then
    Node.set n (.text "app_name") (.text (if katello then "Katello" else "Headpin"))

/-- The derived values that need no collaborator. Tells whether the mode is `katello`. -/
def deriveValues (n : NodeId) : Eval Bool := do
  definePredicate n "is_katello" "katello"
  definePredicate n "is_headpin" "headpin"
  let mode ← Node.get n (.text "is_katello")
  let katello ← truthyValue mode
  deriveName n katello
  fillNull n (.bool true) "use_cp"
  ["use_pulp", "use_foreman", "use_elasticsearch"].forM (fillNull n mode)
  deriveReplyAddress n
  return katello

/-- The package that carries the version of the server. -/
def packageName (katello : Bool) : String :=
  if katello then "katello-common" else "katello-headpin"

/-- Fills the derived values into a tree. -/
def derive (l : Loader) (n : NodeId) : Action Unit := do
  let katello ← (deriveValues n : Eval Bool)
  let version ← l.version (.text (packageName katello))
  onMemory (Node.set n (.text "katello_version") version)

end Loader

end LayeredConfig
