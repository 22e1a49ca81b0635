import LayeredConfig.Tree

/-!
# Failures

What can go wrong, as causes. The wording of every failure is in one place,
`ConfigurationError.message` and `Failure.message`.

A `ConfigurationError` is raised by the configuration itself: a key that is missing, a document of
the wrong shape, a violated rule, a password that cannot be read. The other failures come from
what surrounds it: the caller, the operating system, or a computation that the caller supplied.

A value inside a failure is kept as a tree, the snapshot of what it held when the failure arose.
-/

namespace LayeredConfig

/-- The wording of an error that was raised with explicit arguments: none is empty, one is its
text, several are written as a tuple. -/
def statedText (names : DeferredId → String) : List Tree → String
  | [] => ""
  | [t] => t.display names
  | several => (Tree.seq .tuple several).quoted names

/-- Why a value cannot become a configuration tree. -/
inductive StructureFault where
  | notMapping (found : Tree)
  | keyNotText (key : Tree)
  | invalidMarkup (path : String)
  | invalidTemplate (path : String)
  | databaseNotMapping (place : String) (found : Tree)
  | stated (arguments : List Tree)
deriving Inhabited

/-- Why a password or its key cannot be read. -/
inductive SecretFault where
  | keyNotBase64
  | keyLength (bytes : Nat)
  | passwordNotBase64
  | mismatch
  | keyMissing
  | stated (arguments : List Tree)
deriving Inhabited

/-- What a rule found wrong. -/
inductive Problem where
  | required
  | notOneOf (allowed : List Tree) (found : Tree)
  | empty
  | notCollection (found : Tree)
  | notMapping
  | stated (problem : Tree)
deriving Inhabited

/-- An error of the configuration. -/
inductive ConfigurationError where
  | general (arguments : List Tree)
  | notFound (key : Tree)
  | invalidKeyType (key : Tree)
  | invalidStructure (fault : StructureFault)
  | validationFailure (keyPath : String) (environment : Tree) (problem : Problem)
  | sourceNotFound (candidates : List String)
  | secretDecryption (fault : SecretFault)
  | readOnlyNode (key : Tree)
deriving Inhabited

/-- What can be wrong with the scalars of a document that is otherwise well-formed. -/
inductive DocumentFault where
  /-- A number, date or escape names no value. -/
  | valueOutOfRange
  /-- A word tagged as a truth value is none. -/
  | unknownTruthValue
  /-- A text tagged as a number is empty. -/
  | emptyNumber
  /-- A text tagged as a timestamp has another layout. -/
  | malformedTimestamp
  /-- An escape or a number is too large to be represented. -/
  | tooLarge
deriving DecidableEq, Repr, Inhabited

/-- What can go wrong while a template that was read successfully is filled in. -/
inductive TemplateFault where
  /-- A loop or an operation met a value of the wrong kind. -/
  | wrongKind
  | missingTemplate
  /-- A parameter names nothing. -/
  | missingVariable
  | missingItem
  | wrongValue
  | tooLarge
  /-- The name of the parent of a template is not set. -/
  | namelessParent
deriving DecidableEq, Repr, Inhabited

/-- Everything that an operation can fail with. -/
inductive Failure where
  | configuration (error : ConfigurationError)
  /-- A value of this kind cannot be a key. -/
  | unhashable (kind : String)
  | notCallable (found : Tree)
  | noKeys
  | noCandidates
  /-- The segment of a key path at this position is no text. -/
  | pathSegment (position : Nat) (kind : String)
  /-- A computation or collaborator supplied by the caller gave up. -/
  | computation (message : String)
  /-- The package lookup of the host complained about a package. -/
  | lookupComplaint (message : String)
  | nonceLength
  | passphraseKind (kind : String)
  | missingItem (key : Tree)
  | missingAttribute (kind member : String)
  | isDirectory (path : String)
  | noSuchFile (path : String)
  | notUtf8
  | document (fault : DocumentFault)
  | template (fault : TemplateFault)
  | nestedTooDeep
  | improperlyConfigured (adapter : Tree)
  | undefinedSetting (name : String)
  | invalidTruthValue (text : String)
  | unbalancedQuotes
  | danglingEscape
deriving Inhabited

/-- The wording of a structure fault. What exactly is wrong with markup or a template is not part
of it. -/
def StructureFault.message (names : DeferredId → String) : StructureFault → String
  | .notMapping found => found.quoted names ++ " is not a mapping"
  | .keyNotText key => "keys must be str, " ++ key.quoted names ++ " is not"
  | .invalidMarkup path => path ++ " is not valid YAML"
  | .invalidTemplate path => path ++ " has an invalid template expression"
  | .databaseNotMapping place found =>
    "'" ++ place ++ ".database' must be a mapping, not " ++ found.quoted names
  | .stated arguments => statedText names arguments

/-- The wording of a secret fault. -/
def SecretFault.message (names : DeferredId → String) : SecretFault → String
  | .keyNotBase64 => "passphrase key is not valid base64"
  | .keyLength bytes => "passphrase key must decode to 32 bytes, got " ++ toString bytes
  | .passwordNotBase64 => "encrypted password is not valid base64"
  | .mismatch => "encrypted password does not match the passphrase key"
  | .keyMissing => "an encrypted password was found but KATELLO_PASSPHRASE_KEY is not set"
  | .stated arguments => statedText names arguments

/-- The wording of what a rule found. -/
def Problem.message (names : DeferredId → String) : Problem → String
  | .required => "is required"
  | .notOneOf allowed found =>
    "should be one of " ++ (Tree.seq .list allowed).quoted names ++ ", but was " ++
      found.quoted names
  | .empty => "must not be empty"
  | .notCollection found => "must be a string, list or mapping, but was " ++ found.quoted names
  | .notMapping => "must be a mapping"
  | .stated problem => problem.display names

/-- Whether the value counts as set. A node counts as set when it holds an entry. -/
def Tree.truthy : Tree → Bool
  | .scalar s => s.truthy
  | .seq _ items => !items.isEmpty
  | .set items => !items.isEmpty
  | .mapping entries => !entries.isEmpty
  | .node _ _ entries => !entries.isEmpty
  | .deferred _ => true

/-- The wording of a configuration error, given the written forms of the computations. -/
def ConfigurationError.message (names : DeferredId → String) : ConfigurationError → String
  | .general arguments => statedText names arguments
  | .notFound key => "missing key '" ++ key.display names ++ "' in configuration"
  | .invalidKeyType key => key.quoted names ++ " should be a str"
  | .invalidStructure fault => fault.message names
  | .validationFailure keyPath environment problem =>
    let scope :=
      if environment.truthy then "'" ++ environment.display names ++ "' environment"
      else "early configuration"
    "Key: '" ++ keyPath ++ "' in " ++ scope ++ " " ++ problem.message names
  | .sourceNotFound candidates =>
    "no config file found, candidates: " ++ " ".intercalate candidates
  | .secretDecryption fault => fault.message names
  | .readOnlyNode (.scalar .null) => "configuration is read-only"
  | .readOnlyNode key => "configuration is read-only, cannot set '" ++ key.display names ++ "'"

/-- The wording of a failure; `none` where it is not fixed. -/
def Failure.message (names : DeferredId → String) : Failure → Option String
  | .configuration error => some (error.message names)
  | .unhashable kind => some ("unhashable type: '" ++ kind ++ "'")
  | .notCallable found => some (found.quoted names ++ " is not callable")
  | .noKeys => some "supply at least one key"
  | .noCandidates => some "config_file_paths must not be empty"
  | .pathSegment position kind =>
    some ("sequence item " ++ toString position ++ ": expected str instance, " ++ kind ++ " found")
  | .computation message => some message
  | .lookupComplaint message => some message
  | .nonceLength => some "Nonce must be between 8 and 128 bytes"
  | .passphraseKind kind =>
    some ("argument should be a bytes-like object or ASCII string, not '" ++ kind ++ "'")
  | .missingItem key => some (key.quoted names)
  | .missingAttribute kind member =>
    some ("'" ++ kind ++ "' object has no attribute '" ++ member ++ "'")
  | .isDirectory path => some ("[Errno 21] Is a directory: " ++ Quoted.text path)
  | .noSuchFile path => some ("[Errno 2] No such file or directory: " ++ Quoted.text path)
  | .notUtf8 => none
  | .document _ => none
  | .template _ => none
  | .nestedTooDeep => some "maximum recursion depth exceeded"
  | .improperlyConfigured adapter =>
    some ("Unsupported database adapter '" ++ adapter.display names ++ "'.")
  | .undefinedSetting name =>
    some (name ++ " not found. Declare it as envvar or define a default value.")
  | .invalidTruthValue text => some ("Invalid truth value: " ++ text)
  | .unbalancedQuotes => some "No closing quotation"
  | .danglingEscape => some "No escaped character"

end LayeredConfig
