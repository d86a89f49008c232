import LedgerIndex.Error
import LedgerIndex.Subscription.Filter

/-!
# The registry of subscribers

Each connection has filters, and a mailbox of bounded length from which its subscriber reads.
The mailbox belongs to the reader: it outlives the connection, so that what was queued can still
be read, and when the reader drops it the connection is found dead at the next message that it
wants.
-/

namespace LedgerIndex

/-- A connection, known by its number. -/
structure Connection where
  id : Nat
  filters : List Filter
  deriving DecidableEq, Repr, Inhabited

/-- The connection wants a message. -/
def Connection.wants (c : Connection) (p : Push) : Bool := c.filters.any (·.wants p)

/-- What was queued for a connection and not yet read. -/
structure Mailbox where
  id : Nat
  queue : List Push
  deriving Inhabited

/-- What came of handing out messages. -/
structure Delivery where
  delivered : Nat
  /-- messages that found a mailbox full -/
  dropped : Nat
  /-- connections whose reader was gone -/
  pruned : Nat
  deriving DecidableEq, Repr, Inhabited

namespace Delivery

/-- Nothing was handed out. -/
def none : Delivery := ⟨0, 0, 0⟩

/-- Both together. -/
def add (a b : Delivery) : Delivery :=
  ⟨a.delivered + b.delivered, a.dropped + b.dropped, a.pruned + b.pruned⟩

instance : Add Delivery := ⟨add⟩

end Delivery

/-- Queues a message if the mailbox is not full, and tells whether it did. -/
def Mailbox.offer (capacity : Nat) (m : Mailbox) (p : Push) : Bool × Mailbox :=
  if m.queue.length < capacity then (true, { m with queue := m.queue ++ [p] }) else (false, m)

/-- Offers messages to a reader, those that its connection wants. -/
def Connection.serve (capacity : Nat) (c : Connection) : List Push → Mailbox → Delivery × Mailbox
  | [], m => (.none, m)
  | p :: rest, m =>
    if c.wants p then
      match m.offer capacity p with
      | (true, m) => let (d, m) := serve capacity c rest m; (⟨1, 0, 0⟩ + d, m)
      | (false, m) => let (d, m) := serve capacity c rest m; (⟨0, 1, 0⟩ + d, m)
    else serve capacity c rest m

/-- The connections, and the mailboxes of those readers that are still there. -/
structure Registry where
  maxClients : Nat
  /-- the most messages in a mailbox -/
  capacity : Nat
  /-- numbers are given out in order, none of them twice -/
  nextId : Nat
  connections : List Connection
  mailboxes : List Mailbox
  deriving Inhabited

namespace Registry

/-- A registry without connections.  A mailbox holds at least one message. -/
def new (maxClients capacity : Nat) : Registry := ⟨maxClients, max capacity 1, 1, [], []⟩

/-- The number of connections. -/
def size (r : Registry) : Nat := r.connections.length

/-- The connection with a number. -/
def connection? (r : Registry) (id : Nat) : Option Connection :=
  r.connections.find? (·.id == id)

/-- The mailbox of a connection's reader. -/
def mailbox? (r : Registry) (id : Nat) : Option Mailbox := r.mailboxes.find? (·.id == id)

/-- Adds a connection without filters and answers its number, unless there are enough. -/
def register (r : Registry) : Except Error Nat × Registry :=
  if r.maxClients ≤ r.size then
    (.error (.subscription ("connection limit reached (" ++ toString r.maxClients ++ ")")), r)
  else
    (.ok r.nextId,
      { r with
        nextId := r.nextId + 1
        connections := r.connections ++ [⟨r.nextId, []⟩]
        mailboxes := r.mailboxes ++ [⟨r.nextId, []⟩] })

/-- Replaces the filters of a connection.  Answers whether there is one. -/
def setFilters (r : Registry) (id : Nat) (filters : List Filter) : Bool × Registry :=
  ((r.connection? id).isSome,
    { r with
      connections := r.connections.map fun c => if c.id = id then { c with filters } else c })

/-- Removes a connection.  Answers whether there was one. -/
def remove (r : Registry) (id : Nat) : Bool × Registry :=
  ((r.connection? id).isSome, { r with connections := r.connections.filter (·.id != id) })

/-- Drops the mailbox of a reader.  Answers whether there was one. -/
def dropMailbox (r : Registry) (id : Nat) : Bool × Registry :=
  ((r.mailbox? id).isSome, { r with mailboxes := r.mailboxes.filter (·.id != id) })

/-! ## Handing out messages -/

/-- Puts a mailbox in the place of the one with its number. -/
def putMailbox (r : Registry) (m : Mailbox) : Registry :=
  { r with mailboxes := r.mailboxes.map fun other => if other.id = m.id then m else other }

/-- Hands out messages to one connection.  If it wants one and its reader is gone, the connection
is dead and is removed. -/
def visit (messages : List Push) (sofar : Delivery × Registry) (c : Connection) :
    Delivery × Registry :=
  let (d, r) := sofar
  match r.mailbox? c.id with
  | some m =>
    let (more, m) := c.serve r.capacity messages m
    (d + more, r.putMailbox m)
  | none =>
    if messages.any c.wants then (d + ⟨0, 0, 1⟩, (r.remove c.id).2) else (d, r)

/-- Hands out messages to all connections. -/
def pushAll (r : Registry) (messages : List Push) : Delivery × Registry :=
  r.connections.foldl (visit messages) (.none, r)

/-- Hands out the messages for a batch. -/
def fanOut (r : Registry) (b : Batch) : Delivery × Registry := r.pushAll b.messages

/-! ## Reading -/

/-- Why reading stopped. -/
inductive ReadEnd where
  /-- as many messages were read as were asked for -/
  | more
  /-- nothing is queued -/
  | empty
  /-- nothing is queued, and the connection is gone -/
  | closed
  deriving DecidableEq, Repr

/-- Reads messages from a mailbox, at most `limit` of them if one is given. -/
def receive (r : Registry) (id : Nat) (limit : Option Nat) :
    Option (List Push × ReadEnd) × Registry :=
  match r.mailbox? id with
  | none => (none, r)
  | some m =>
    let count := limit.getD (m.queue.length + 1)
    let ending : ReadEnd :=
      if count ≤ m.queue.length then .more
      else if (r.connection? id).isSome then .empty else .closed
    (some (m.queue.take count, ending),
      { r with
        mailboxes := r.mailboxes.map fun other =>
          if other.id = id then { other with queue := other.queue.drop count } else other })

end Registry

end LedgerIndex
