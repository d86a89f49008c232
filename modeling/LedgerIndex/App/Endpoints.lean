import LedgerIndex.App.Target
import LedgerIndex.Json.Text
import LedgerIndex.Sync.Status

/-!
# Endpoints

What the program answers about itself over HTTP: `/health` tells whether the ledger's head was
reached, `/metrics` gives the numbers.
-/

namespace LedgerIndex.App

/-- The health of an indexer. -/
structure Health where
  isCaughtUp : Bool
  state : Sync.State
  checkpoint : Option UInt64
  head : Option UInt64
  subscribers : Nat
  deriving Inhabited

/-- The numbers of an indexer. -/
structure Metrics where
  checkpoint : Option UInt64
  progress : Option Progress
  status : Sync.Status
  subscribers : Nat
  deriving Inhabited

namespace Health

/-- The health that a status tells of. -/
def ofStatus (s : Sync.Status) (subscribers : Nat) : Health :=
  ⟨s.isCaughtUp, s.state, s.checkpoint?, s.progress.map (·.head), subscribers⟩

/-- The HTTP status: an indexer that is catching up is not available yet. -/
def code (h : Health) : Nat := if h.isCaughtUp then 200 else 503

/-- The members of the answer that hold for any build and any time. -/
def toJson (h : Health) : Json :=
  .ofMembers
    [ ("status", .string (if h.isCaughtUp then "ok" else "syncing")),
      ("state", .string h.state.name), ("caught_up", .bool h.isCaughtUp),
      ("checkpoint", .ofOption .ofUInt64 h.checkpoint), ("head", .ofOption .ofUInt64 h.head),
      ("subscribers", .ofInt h.subscribers) ]

end Health

namespace Metrics

/-- The numbers that a status tells of. -/
def ofStatus (s : Sync.Status) (subscribers : Nat) : Metrics :=
  ⟨s.checkpoint?, s.progress, s, subscribers⟩

/-- The answer, with doubles written by `double`. -/
def toJson (double : Float → Json) (m : Metrics) : Json :=
  .ofMembers
    [ ("checkpoint", .ofOption .ofUInt64 m.checkpoint),
      ("head", .ofOption (fun p => .ofUInt64 p.head) m.progress),
      ("lag", .ofOption (fun p => .ofUInt64 p.lag) m.progress),
      ("percent", .ofOption (fun p => double p.percent) m.progress),
      ("rate", .ofOption (fun p => double p.rate) m.progress),
      ("eta_secs", .ofOption double (m.progress.bind (·.eta))),
      ("pages", .ofInt m.status.pages), ("transactions", .ofInt m.status.transactions),
      ("domain_events", .ofInt m.status.events), ("state_changes", .ofInt m.status.changes),
      ("skipped_events", .ofInt m.status.skipped), ("fetch_failures", .ofInt m.status.failures),
      ("consecutive_fetch_failures", .ofInt m.status.failuresInRow),
      ("subscribers", .ofInt m.subscribers) ]

end Metrics

/-- The answer to a request for a target: the HTTP status, and a body if there is one. -/
def endpoint (s : Sync.Status) (subscribers : Nat) (target : String) : Nat × Option Json :=
  match Target.parse target with
  | some "/health" =>
    let health := Health.ofStatus s subscribers
    (health.code, some health.toJson)
  | some "/metrics" =>
    (200, some ((Metrics.ofStatus s subscribers).toJson fun x => .number (.ofFloat x)))
  | some _ => (404, none)
  | none => (400, none)

end LedgerIndex.App
