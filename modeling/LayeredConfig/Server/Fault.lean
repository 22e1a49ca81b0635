import LayeredConfig.World

/-!
# Faults

What keeps a server from answering a request as asked, and what it answers instead: an error of the
configuration, an error that names its own status and code, or a request that is refused for a
reason that the protocol of requests has a status for. Any other failure has no answer; it is
noted in the log and left to the server.
-/

namespace LayeredConfig

/-- A status and, where there is one, a body. -/
structure Response where
  status : Nat
  body : Option Value
deriving Inhabited

/-! ## Errors with a code -/

/-- An error that names the status that it is answered with, and a code for programs. -/
structure ServiceError where
  status : Nat
  code : Value
  detail : Value
deriving Inhabited

namespace ServiceError

/-- An error of the server itself. -/
def internal : ServiceError := ⟨500, .text "server_error", .text "Internal server error."⟩

/-- The configuration cannot be had. -/
def unavailable : ServiceError :=
  ⟨503, .text "configuration_unavailable", .text "Configuration could not be loaded."⟩

/-- The error with a detail and a code of its own, as far as they count as set. -/
def withDetail (e : ServiceError) (f : Forest) (detail code : Value) : ServiceError :=
  { e with
    detail := if f.truthy detail then detail else e.detail
    code := if f.truthy code then code else e.code }

/-- What the error is answered with. -/
def response (e : ServiceError) : Response :=
  ⟨e.status, some (.mapping [(.text "code", e.code), (.text "detail", e.detail)])⟩

end ServiceError

/-! ## Refused requests -/

/-- Why a request is refused. -/
inductive RefusalReason where
  | general
  | invalid
  | malformed
  | wrongCredentials
  | noCredentials
  | forbidden
  | unknown
  | method (name : String)
  | notAcceptable
  | mediaType (name : String)
  /-- Too many requests; the next one may come after this many seconds. -/
  | throttled (seconds : Option Int)
deriving Repr, Inhabited

/-- A refused request. -/
structure Refusal where
  reason : RefusalReason
  /-- What to say instead of the standard wording. -/
  detail : Option Value
deriving Inhabited

namespace RefusalReason

/-- The status of the answer. -/
def status : RefusalReason → Nat
  | .general => 500
  | .invalid | .malformed => 400
  | .wrongCredentials | .noCredentials => 401
  | .forbidden => 403
  | .unknown => 404
  | .method _ => 405
  | .notAcceptable => 406
  | .mediaType _ => 415
  | .throttled _ => 429

/-- The standard wording. -/
def wording : RefusalReason → String
  | .general => "A server error occurred."
  | .invalid => "Invalid input."
  | .malformed => "Malformed request."
  | .wrongCredentials => "Incorrect authentication credentials."
  | .noCredentials => "Authentication credentials were not provided."
  | .forbidden => "You do not have permission to perform this action."
  | .unknown => "Not found."
  | .method name => "Method \"" ++ name ++ "\" not allowed."
  | .notAcceptable => "Could not satisfy the request Accept header."
  | .mediaType name => "Unsupported media type \"" ++ name ++ "\" in request."
  | .throttled _ => "Request was throttled."

/-- What follows the wording, whichever it is. -/
def addition : RefusalReason → String
  | .throttled (some seconds) =>
    " Expected available in " ++ toString seconds ++
      (if seconds = 1 then " second." else " seconds.")
  | _ => ""

end RefusalReason

/-- The text of a detail that is no collection; bytes are read as UTF-8. -/
private def detailText (names : DeferredId → String) : Tree → String
  | .scalar (.bytes bs) =>
    (String.fromUTF8? ⟨bs.toArray⟩).getD ((Tree.scalar (.bytes bs)).display names)
  | t => t.display names

mutual

/-- A detail with everything that is no collection turned into text. -/
def detailTexts (names : DeferredId → String) : Tree → Value
  | .seq _ items => .list (detailItems names items)
  | .mapping entries => .mapping (detailEntries names entries)
  | t => .text (detailText names t)
termination_by structural x => x

private def detailItems (names : DeferredId → String) : List Tree → List Value
  | [] => []
  | t :: rest => detailTexts names t :: detailItems names rest
termination_by structural x => x

private def detailEntries (names : DeferredId → String) :
    List (Tree × Tree) → List (Value × Value)
  | [] => []
  | (k, v) :: rest => (k.toValue, detailTexts names v) :: detailEntries names rest
termination_by structural x => x

end

namespace Refusal

/-- What the refusal says. Invalid input is answered with a list or a mapping of complaints. -/
def complaint (r : Refusal) (m : Memory) : Value :=
  let said := detailTexts m.nameOf (m.view (r.detail.getD (.text r.reason.wording)))
  match r.reason, said with
  | .invalid, .text s => .list [.text s]
  | _, .text s => .text (s ++ r.reason.addition)
  | _, said => said

/-- What the refusal is answered with. -/
def response (r : Refusal) (m : Memory) : Response :=
  let body := match r.complaint m with
    | .text s => .mapping [(.text "detail", .text s)]
    | said => said
  ⟨r.reason.status, some body⟩

end Refusal

/-! ## Answers -/

/-- What keeps a request from being answered as asked. -/
inductive Fault where
  | failure (f : Failure)
  | service (e : ServiceError)
  | refusal (r : Refusal)
deriving Inhabited

/-- What a fault is answered with, if it has an answer. The log names the view that it came from. -/
def Fault.answer (view : Option String) (fault : Fault) : Action (Option Response) := do
  let place := ("view", (view.map Value.text).getD .null)
  match fault with
  | .failure (.configuration error) =>
    let text ← failureText (.configuration error)
    record .error "configuration_unavailable" [("error", .text text), place]
    let f := (← get).memory.forest
    return some (ServiceError.unavailable.withDetail f (.text text) .null).response
  | .failure other =>
    recordFailure other "unhandled_exception" [place]
    return none
  | .service e => return some e.response
  | .refusal r => return some (r.response (← get).memory)

end LayeredConfig
