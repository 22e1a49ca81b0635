import LayeredConfig.Loader.Views
import LayeredConfig.Rule.Katello
import LayeredConfig.Server.Fault
import LayeredConfig.Server.Request

/-!
# Endpoints

A server answers two questions. Its status is the name, the version and the mode of its
configuration. Its health is whether the database can be reached and the configuration can be
loaded; the health probe always has an answer, while a status that cannot be had is answered with
an error.

Every request leaves one line in the log and carries an identifier, which is the client's if it
sent one.
-/

namespace LayeredConfig

/-- The identifier that an answer carries. -/
inductive Identifier where
  | absent
  /-- A new one, which differs from all others. -/
  | fresh
  | given (text : String)
deriving DecidableEq, Repr, Inhabited

/-- What is sent back: a response with the identifier of the request. -/
structure Answer where
  response : Response
  identifier : Identifier
deriving Inhabited

namespace Endpoint

/-- The path of the health probe. -/
def healthPath : String := "/health/"

/-- The path of the status. -/
def statusPath : String := "/api/v1/status/"

/-- The paths of the description of the API. -/
def descriptionPaths : List String := ["/api/schema/", "/api/docs/"]

/-- The paths that something answers under. -/
def paths : List String := healthPath :: statusPath :: descriptionPaths

/-! ## Status -/

/-- The name under which the log knows the status. -/
def statusView : String := "StatusView"

/-- A value as text; null stays null. -/
def textOrNull (v : Value) : Eval Value :=
  match v with
  | .null => return .null
  | v => return .text (← displayValue v)

/-- A mode as it is reported: one of the known ones where its text is one. -/
def reportedMode (v : Value) : Eval Value := do
  let text ← displayValue v
  return if Katello.appModes.contains text then .text text else v

/-- What the status says about a configuration. -/
def statusOf (config : NodeId) : Eval Value := do
  let name ← Node.get config (.text "app_name")
  let version ← Node.get config (.text "katello_version")
  let mode ← Node.get config (.text "app_mode")
  return .mapping [(.text "name", ← textOrNull name), (.text "version", ← textOrNull version),
    (.text "mode", ← reportedMode mode)]

/-- What the status says about itself. -/
def statusDescription : Value := .mapping [
  (.text "name", .text "Status"),
  (.text "description", .text "GET /status/ – identify the running server."),
  (.text "renders", .list [.text "application/json"]),
  (.text "parses", .list [.text "application/json", .text "application/x-www-form-urlencoded",
    .text "multipart/form-data"])]

/-- A response for what went wrong inside the status. -/
def statusFault (fault : Fault) : Action Response := do
  return (← fault.answer (some statusView)).getD ⟨500, none⟩

/-- Refuses a request for the status. -/
def refuseStatus (reason : RefusalReason) : Action Response :=
  statusFault (.refusal ⟨reason, none⟩)

/-- The status of the server that owns the loader. -/
def status (l : Loader) : Action Response :=
  tryCatch (do return ⟨200, some (← onMemory (statusOf (← l.config)))⟩)
    fun failure ↦ statusFault (.failure failure)

/-- Whether a range of media types, written with parameters, covers the one of the status. -/
def acceptsJson (range : String) : Bool :=
  let media := trimChars (range.toList.takeWhile (· ≠ ';'))
  let kind := lowerCase (String.ofList (media.takeWhile (· ≠ '/')))
  let part := lowerCase (String.ofList ((media.dropWhile (· ≠ '/')).drop 1))
  (kind == "*" || kind == "application") && (part == "*" || part == "json")

/-- Answers a request for the status. The client has to be content with JSON. -/
def answerStatus (l : Loader) (r : Request) : Action Response := do
  let format := (r.parameter? "format").getD ""
  if !format.isEmpty && format != "json" then refuseStatus .unknown
  else
    let ranges := splitAt (· == ',') ((r.header? "Accept").getD "*/*").toList
    if !ranges.any (acceptsJson <| String.ofList ·) then refuseStatus .notAcceptable
    else if ["GET", "HEAD"].contains r.verb then status l
    else if r.verb = "OPTIONS" then return ⟨200, some statusDescription⟩
    else refuseStatus (.method r.verb)

/-! ## Health -/

/-- The state of the database, given the error of connecting to it. -/
def databaseState : Option String → Action String
  | none => return "ok"
  | some error => do
    record .error "health_check_db_failure" [("error", .text error)]
    return "error: " ++ error

/-- The state of the configuration. -/
def configurationState (l : Loader) : Action String :=
  tryCatch (do
      discard l.config
      return "ok")
    fun failure ↦
      match failure with
      | .configuration _ => do
        let text ← failureText failure
        record .error "health_check_config_failure" [("error", .text text)]
        return "error: " ++ text
      | other => throw other

/-- The health of the server that owns the loader. -/
def health (l : Loader) (databaseError : Option String) : Action Response := do
  let database ← databaseState databaseError
  let configuration ← configurationState l
  let healthy := database == "ok" && configuration == "ok"
  return ⟨if healthy then 200 else 503, some (.mapping [
    (.text "status", .text (if healthy then "ok" else "degraded")),
    (.text "db", .text database), (.text "config", .text configuration)])⟩

/-! ## Requests -/

/-- The response to a request; a failure that nothing answers becomes an internal error. -/
def responseTo (l : Loader) (databaseError : Option String) (r : Request) : Action Response :=
  tryCatch
    (if r.route = healthPath then health l databaseError
    else if r.route = statusPath then answerStatus l r
    else return ⟨404, none⟩)
    fun _ ↦ return ⟨500, none⟩

/-- Whether only a slash is missing at the end of the path. -/
def lacksSlash (r : Request) : Bool :=
  !r.route.endsWith "/" && paths.contains (r.route ++ "/")

/-- The identifier of a request. -/
def identifierOf (r : Request) : Identifier :=
  match r.header? "X-Request-ID" with
  | none | some "" => .fresh
  | some text => .given text

/-- Answers a request. A path that lacks its last slash is redirected to the complete one. -/
def answer (l : Loader) (databaseError : Option String) (r : Request) : Action Answer := do
  let response ← responseTo l databaseError r
  record (if 500 ≤ response.status then .error else .info) "http_request"
    [("method", .text r.verb), ("path", .text r.path), ("status", .int response.status)]
  if lacksSlash r then return ⟨⟨301, none⟩, .absent⟩
  let body := if r.verb = "HEAD" then none else response.body
  return ⟨{ response with body }, identifierOf r⟩

end Endpoint

end LayeredConfig
