import LedgerIndex.Subscription.Session

/-!
# The server of subscribers

One registry, and a session for each client that was taken on.
-/

namespace LedgerIndex

/-- A server and its sessions, those that have ended included. -/
structure SubscriptionServer where
  registry : Registry
  sessions : List Session
  /-- new clients are taken on -/
  isRunning : Bool
  deriving Inhabited

namespace SubscriptionServer

/-- A server without clients. -/
def new (maxClients capacity : Nat) : SubscriptionServer := ⟨.new maxClients capacity, [], true⟩

/-- Takes on a client, and answers its session.  A client that is refused gets no place. -/
def connect (s : SubscriptionServer) : Session × SubscriptionServer :=
  let (session, registry) := Session.accept s.registry
  (session,
    { s with
      registry
      sessions := if session.isOpen then s.sessions ++ [session] else s.sessions })

/-- One session reacts to an event. -/
def react (s : SubscriptionServer) (n : Nat) (e : SessionEvent) : SubscriptionServer :=
  match s.sessions[n]? with
  | none => s
  | some session =>
    let (session, registry) := session.react s.registry e
    { s with registry, sessions := s.sessions.set n session }

/-- Every session does something in turn. -/
def each (s : SubscriptionServer) (act : Session → Registry → Session × Registry) :
    SubscriptionServer :=
  let (sessions, registry) := s.sessions.foldl
    (fun (done, registry) session =>
      let (session, registry) := act session registry
      (done ++ [session], registry))
    ([], s.registry)
  { s with registry, sessions }

/-- Hands out the messages for a batch, and forwards them to the clients. -/
def push (s : SubscriptionServer) (b : Batch) : Delivery × SubscriptionServer :=
  let (delivery, registry) := s.registry.fanOut b
  (delivery, each { s with registry } Session.flush)

/-- The call to stop is raised or lowered.  When it is raised the server and its sessions end. -/
def signal (s : SubscriptionServer) (isRaised : Bool) : SubscriptionServer :=
  each { s with isRunning := s.isRunning && !isRaised }
    fun session registry => session.react registry (.signalled isRaised)

end SubscriptionServer

end LedgerIndex
