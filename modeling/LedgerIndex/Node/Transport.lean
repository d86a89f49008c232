import LedgerIndex.Error
import LedgerIndex.Node.Message
import LedgerIndex.Node.Retry

/-!
# Calls over HTTP

A call is one request, sent until it is answered or has failed for good.  A lost connection, the
status 429 and the statuses from 500 to 599 may pass and are retried; any other status that is not
a success, a body that is no response, and an error that the node reports are final.  A status that
only announces another answer counts as a lost connection where none follows, and so does a number
that is no status.
-/

namespace LedgerIndex.Node

/-- What comes back for a request. -/
inductive Reply where
  /-- the connection was closed without an answer -/
  | lost
  | answer (status : Nat) (body : String)
  deriving DecidableEq, Repr, Inhabited

/-- An HTTP server, as one who sends it requests sees it. -/
class HttpServer (η : Type) where
  post : Request → η → Reply × η

/-- What one attempt comes to. -/
inductive Attempt where
  | answered (r : Response)
  /-- may pass by itself -/
  | transient (text : String)
  | final (text : String)
  deriving Inhabited

namespace Reply

/-- A status tells of success. -/
def isSuccess (status : Nat) : Bool := 200 ≤ status && status < 300

/-- A status tells of a failure that may pass. -/
def isPassing (status : Nat) : Bool := status == 429 || (500 ≤ status && status < 600)

/-- The number is a status that ends an exchange: it has three digits, and does not announce a
further answer, as those below 200 do; only 101 ends what was begun. -/
def isFinal (status : Nat) : Bool := status == 101 || (200 ≤ status && status < 1000)

/-- The statuses that never come with a body. -/
def bodiless : List Nat := [101, 204, 304]

/-- The body that comes with a status. -/
def bodyWith (status : Nat) (body : String) : String :=
  if bodiless.contains status then "" else body

/-- No answer came from the server at `url`. -/
def unsent (url : String) : Attempt :=
  .transient ("error sending request for url (" ++ url ++ ")")

/-- What a reply from the server at `url` makes of the attempt. -/
def attempt (url : String) : Reply → Attempt
  | lost => unsent url
  | answer status sent =>
    let body := bodyWith status sent
    if !isFinal status then unsent url
    else if isSuccess status then
      match Response.parse body with
      | .ok r => .answered r
      | .error _ => .final "invalid JSON-RPC response: error decoding response body"
    else
      let text := "HTTP " ++ toString status ++ ": " ++ body
      if isPassing status then .transient text else .final text

end Reply

/-- A way to call a node. -/
structure Transport where
  url : String
  policy : RetryPolicy
  /-- the number of the next request -/
  nextId : Nat
  deriving Inhabited

namespace Transport

variable {η : Type} [HttpServer η]

/-- A transport that has sent nothing yet. -/
def new (url : String) (policy : RetryPolicy) : Transport := ⟨url, policy, 1⟩

/-- A call failed. -/
def failure (r : Request) (text : String) : Error := .rpc (r.method ++ ": " ++ text)

/-- Sends a request, from the given attempt on.  Fuel counts the attempts that are left. -/
def attempts (url : String) (policy : RetryPolicy) (r : Request) :
    Nat → Nat → η → Except Error Json × η
  | 0, _, server => (.error (failure r "no attempts are left"), server)
  | fuel + 1, attempt, server =>
    let (reply, server) := HttpServer.post r server
    match reply.attempt url with
    | .answered response =>
      (response.outcome.mapError fun e => failure r e.text, server)
    | .final text => (.error (failure r text), server)
    | .transient text =>
      match policy.pause? attempt with
      | some _ => attempts url policy r fuel (attempt + 1) server
      | none => (.error (failure r text), server)

/-- Calls a method.  Each call has a number of its own, its retries keep it. -/
def call (t : Transport) (method : String) (params : List Json) (server : η) :
    Except Error Json × Transport × η :=
  let (answer, server) :=
    attempts t.url t.policy ⟨t.nextId, method, params⟩ (t.policy.maxRetries + 1) 1 server
  (answer, { t with nextId := t.nextId + 1 }, server)

end Transport

end LedgerIndex.Node
