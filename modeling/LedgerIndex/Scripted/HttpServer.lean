import LedgerIndex.Node.Client
import LedgerIndex.Sync.Run

/-!
# An HTTP server that follows a script

It answers requests with replies written down beforehand, and keeps what it was asked.
-/

namespace LedgerIndex.Scripted

/-- A server and how far its script has come. -/
structure HttpScript where
  replies : List Node.Reply
  /-- the reply to all further requests -/
  otherwise : Node.Reply
  /-- the requests so far -/
  requests : List Node.Request
  /-- the call to stop is raised when so many requests have come -/
  stopsAfter : Option Nat
  deriving Inhabited

namespace HttpScript

/-- A server with a script.  Its further replies tell of a failure. -/
def new (replies : List Node.Reply) : HttpScript :=
  ⟨replies, .answer 500 "end of script", [], none⟩

/-- Answers a request with the next reply. -/
def post (r : Node.Request) (s : HttpScript) : Node.Reply × HttpScript :=
  let s := { s with requests := s.requests ++ [r] }
  match s.replies with
  | [] => (s.otherwise, s)
  | reply :: replies => (reply, { s with replies })

instance : Node.HttpServer HttpScript := ⟨post⟩

/-- Enough requests have come. -/
def isDone (s : HttpScript) : Bool :=
  match s.stopsAfter with
  | none => false
  | some n => n ≤ s.requests.length

instance : Sync.StopSignal HttpScript := ⟨isDone, fun _ s => (.elapsed, s)⟩

end HttpScript

/-- The words of the reader of JSON are left out. -/
instance : Node.Wording := ⟨fun _ => none⟩

end LedgerIndex.Scripted
