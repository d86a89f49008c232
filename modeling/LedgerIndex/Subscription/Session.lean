import LedgerIndex.Subscription.Registry
import LedgerIndex.Subscription.Request

/-!
# Sessions of subscribers

A session serves one client over a web socket: it registers a connection, takes requests from the
client, and forwards what is queued for the connection.  When it ends, for whatever reason, the
connection is removed.
-/

namespace LedgerIndex

/-- What a session sends to its client. -/
inductive Frame where
  | text (s : String)
  /-- the end, with a code and a reason if there is one -/
  | close (reason : Option (Nat × String))
  deriving DecidableEq, Repr, Inhabited

/-- What comes from a client. -/
inductive Inbound where
  | text (s : String)
  /-- data that is not text -/
  | other
  /-- the client closes the connection, or it is lost -/
  | ended
  deriving DecidableEq, Repr, Inhabited

/-- What a session reacts to. -/
inductive SessionEvent where
  | inbound (i : Inbound)
  /-- it is time to forward the next message, which may fail -/
  | forward (isWritten : Bool)
  /-- the call to stop was raised or lowered -/
  | signalled (isRaised : Bool)
  /-- no one is left who could call to stop -/
  | abandoned
  deriving DecidableEq, Repr, Inhabited

/-- A session. -/
structure Session where
  /-- the number of its connection, unless it was refused -/
  id : Option Nat
  isOpen : Bool
  /-- what was sent to the client -/
  sent : List Frame
  deriving Inhabited

namespace Session

/-- The code that tells a client to come back later. -/
def tryAgain : Nat := 1013

/-- Takes on a client.  One too many is told so and refused. -/
def accept (r : Registry) : Session × Registry :=
  match r.register with
  | (.ok id, r) => (⟨some id, true, []⟩, r)
  | (.error e, r) => (⟨none, false, [.close (some (tryAgain, e.message))]⟩, r)

/-- Sends a frame. -/
def send (s : Session) (f : Frame) : Session := { s with sent := s.sent ++ [f] }

/-- Ends the session of a connection. -/
def finish (s : Session) (id : Nat) (r : Registry) : Session × Registry :=
  ({ s with isOpen := false }, ((r.remove id).2.dropMailbox id).2)

/-- Reacts to what comes from the client.  A text that is no request is passed over. -/
def receive (s : Session) (id : Nat) (r : Registry) : Inbound → Session × Registry
  | .text t =>
    match Request.parse t with
    | .ok (.subscribe filters) => (s, (r.setFilters id filters).2)
    | .error _ => (s, r)
  | .other => (s, r)
  | .ended => s.finish id r

/-- Forwards the next message.  When there is none and there will be none, the session ends. -/
def forward (s : Session) (id : Nat) (r : Registry) (isWritten : Bool) : Session × Registry :=
  match r.receive id (some 1) with
  | (some (p :: _, _), r) =>
    if isWritten then (s.send (.text p.toJson.text), r) else s.finish id r
  | (some ([], .closed), r) | (none, r) => s.finish id r
  | (some ([], _), r) => (s, r)

/-- Reacts to an event. -/
def react (s : Session) (r : Registry) (e : SessionEvent) : Session × Registry :=
  match s.isOpen, s.id with
  | true, some id =>
    match e with
    | .inbound i => s.receive id r i
    | .forward isWritten => s.forward id r isWritten
    | .signalled false => (s, r)
    | .signalled true | .abandoned => (s.send (.close none)).finish id r
  | _, _ => (s, r)

/-- Forwards all that is queued. -/
def flush (s : Session) (r : Registry) : Session × Registry :=
  let queued := ((s.id.bind r.mailbox?).map (·.queue.length)).getD 0
  (List.replicate queued (SessionEvent.forward true)).foldl (fun (s, r) e => s.react r e) (s, r)

end Session

end LedgerIndex
