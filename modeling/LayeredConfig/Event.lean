import LayeredConfig.Value

/-!
# Events

The calls that leave this library: a computation that a read ran, and every question put to a
collaborator of a loader. Their order is part of what the operations do.
-/

namespace LayeredConfig

/-- One call. -/
inductive Event where
  /-- The computation with this label ran. -/
  | evaluated (label : String)
  /-- The current environment was asked for. -/
  | environmentAsked
  /-- A stored password was handed over to be read. -/
  | decrypted (value : Value)
  /-- The version of a package was asked for. -/
  | versionAsked (package : Value)
  /-- The version source with this label was asked. -/
  | sourceAsked (label : String) (package : Value)
  /-- The installed packages were asked. -/
  | metadataAsked (package : Value)
  /-- The revision of the checkout in this directory was asked for. -/
  | revisionAsked (directory : String) (timeout : Scalar)
deriving Repr, Inhabited

end LayeredConfig
