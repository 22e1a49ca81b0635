import LayeredConfig.Text.Blank
import LayeredConfig.World

/-!
# Versions

The version of a package is asked from several sources in order. A source that fails is noted in
the log and passed over, a source that has no answer is passed over silently, and the first answer
that counts as set is the version. When no source has one, the version is `Unknown`.
-/

namespace LayeredConfig

/-- Where a version may come from. -/
inductive VersionSource where
  /-- The installed packages. -/
  | metadata
  /-- The revision of the checkout in a directory, or in the one of this program. -/
  | revision (directory : Option String) (timeout : Scalar)
  /-- A source that always gives the same answer. -/
  | answering (label : String) (version : Value)
  /-- A source that always fails. -/
  | failing (label message : String)
deriving Repr, Inhabited

namespace VersionSource

/-- The name of the kind of source. -/
def kindName : VersionSource → String
  | .metadata => "PackageMetadataSource"
  | .revision .. => "GitRevisionSource"
  | .answering .. => "Source"
  | .failing .. => "Source"

/-- The directory of this program's own checkout. -/
def ownDirectory : String := "<ENGINE>"

/-- The time in seconds after which asking for the revision is given up. -/
def defaultTimeout : Scalar := .float (.ofInt 5)

/-- The revision of this program's own checkout. -/
def ownRevision : VersionSource := .revision none defaultTimeout

/-- The command that asks for a revision, as it is written in errors. -/
def revisionCommand : String := "['git', 'rev-parse', '--short', 'HEAD']"

/-- The names of the signals that can end a process. -/
def signalNames : List (Nat × String) := [
  (1, "SIGHUP"), (2, "SIGINT"), (3, "SIGQUIT"), (4, "SIGILL"), (5, "SIGTRAP"), (6, "SIGABRT"),
  (7, "SIGBUS"), (8, "SIGFPE"), (9, "SIGKILL"), (10, "SIGUSR1"), (11, "SIGSEGV"), (12, "SIGUSR2"),
  (13, "SIGPIPE"), (14, "SIGALRM"), (15, "SIGTERM"), (16, "SIGSTKFLT"), (17, "SIGCHLD"),
  (18, "SIGCONT"), (19, "SIGSTOP"), (20, "SIGTSTP"), (21, "SIGTTIN"), (22, "SIGTTOU"),
  (23, "SIGURG"), (24, "SIGXCPU"), (25, "SIGXFSZ"), (26, "SIGVTALRM"), (27, "SIGPROF"),
  (28, "SIGWINCH"), (29, "SIGIO"), (30, "SIGPWR"), (31, "SIGSYS"), (34, "SIGRTMIN"),
  (64, "SIGRTMAX")]

/-- What the end of the revision command says; a negative status is a signal. -/
def exitText (status : Int) : String :=
  let command := "Command '" ++ revisionCommand ++ "' "
  if status < 0 then
    match List.lookup status.natAbs signalNames with
    | some name =>
      command ++ "died with <Signals." ++ name ++ ": " ++ toString status.natAbs ++ ">."
    | none => command ++ "died with unknown signal " ++ toString status.natAbs ++ "."
  else command ++ "returned non-zero exit status " ++ toString status ++ "."

/-- The revision is not known; the log says why. -/
def revisionUnavailable (error : String) : Action Value := do
  record .debug "git_revision_unavailable" [("error", .text error)]
  return .null

/-- What the revision of a checkout says about its version. -/
def revisionAnswer (timeout : Scalar) : RevisionOutcome → Action Value
  | .output text =>
    let revision := trimText text
    return if revision.isEmpty then .null else .text ("git hash (" ++ revision ++ ")")
  | .exitStatus status => revisionUnavailable (exitText status)
  | .timedOut => revisionUnavailable
      ("Command '" ++ revisionCommand ++ "' timed out after " ++ timeout.display ++ " seconds")
  | .toolMissing => revisionUnavailable "git"

/-- Asks a source for the version of a package. -/
def lookup (package : Value) : VersionSource → Action Value
  | .metadata => do
    onMemory (emit (.metadataAsked package))
    let host := (← get).host
    match package.text?.bind fun name ↦ List.lookup name host.installed, host.lookupComplaint with
    | some version, _ => return (version.map Value.text).getD .null
    | none, some message => throw (.lookupComplaint message)
    | none, none => return .null
  | .revision directory timeout => do
    let place := match directory with
      | some path => if path.isEmpty then ownDirectory else FileSystem.pathText path
      | none => ownDirectory
    onMemory (emit (.revisionAsked place timeout))
    revisionAnswer timeout (← get).host.revision
  | .answering label version => do
    onMemory (emit (.sourceAsked label package))
    return version
  | .failing label message => do
    onMemory (emit (.sourceAsked label package))
    throw (.computation message)

end VersionSource

/-- The version when no source has one. -/
def unknownVersion : String := "Unknown"

/-- Asks sources in order. -/
structure VersionResolver where
  sources : List VersionSource
deriving Repr, Inhabited

namespace VersionResolver

/-- The installed packages first, then the revision of the checkout. -/
def default : VersionResolver := ⟨[.metadata, .ownRevision]⟩

/-- The first answer that counts as set. -/
def resolveFrom (package : Value) : List VersionSource → Action Value
  | [] => return .text unknownVersion
  | source :: rest => do
    let answer ← tryCatch (source.lookup package) fun failure ↦ do
      record .warning "version_source_failed"
        [("source", .text source.kindName), ("package", package),
          ("error", .text (← failureText failure))]
      return .null
    if ← onMemory (truthyValue answer) then
      record .debug "version_resolved"
        [("source", .text source.kindName), ("package", package), ("version", answer)]
      return answer
    resolveFrom package rest

/-- The version of a package. -/
def resolve (r : VersionResolver) (package : Value) : Action Value := resolveFrom package r.sources

end VersionResolver

end LayeredConfig
