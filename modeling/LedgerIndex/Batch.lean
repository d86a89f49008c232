import LedgerIndex.Cursor
import LedgerIndex.Ledger.EventType
import LedgerIndex.Ledger.Payload
import LedgerIndex.Ledger.Transaction
import LedgerIndex.Table.Change

/-!
# Batches

A page of transactions, sorted into what is to be stored: a record for each call, an entry for
each log event, the changes of table rows, and the cursor past the page.  Each event is sorted by
itself, and the batch of a page is put together from the batches of its transactions.
-/

namespace LedgerIndex

/-! ## Log records -/

/-- A call as it is logged.  A transaction without calls is logged as one empty call. -/
structure CallRecord where
  sender : String
  checkpoint : UInt64
  digest : String
  package : String
  module : String
  function : String
  arguments : Json
  /-- the point to resume after this transaction -/
  cursor : String
  /-- when the page was taken in, in milliseconds -/
  createdAt : Int
  deriving Inhabited

/-- A log entry that an event made. -/
structure EventRecord where
  sender : String
  checkpoint : UInt64
  digest : String
  name : String
  rawName : String
  value : Json
  /-- when the page was taken in, in milliseconds -/
  createdAt : Int
  deriving Inhabited

/-! ## Batches -/

/-- What a page comes to. -/
structure Batch where
  calls : List CallRecord
  events : List EventRecord
  /-- in the order of the page -/
  changes : List Change
  /-- the last transaction of the page -/
  cursor : Option Cursor
  /-- events that are not well formed -/
  skipped : Nat
  /-- events of types that are not wanted -/
  filtered : Nat
  deriving Inhabited

namespace Batch

/-- The batch of no transactions. -/
def empty : Batch := ⟨[], [], [], none, 0, 0⟩

/-- A batch followed by another. -/
def append (a b : Batch) : Batch :=
  { calls := a.calls ++ b.calls
    events := a.events ++ b.events
    changes := a.changes ++ b.changes
    cursor := b.cursor.or a.cursor
    skipped := a.skipped + b.skipped
    filtered := a.filtered + b.filtered }

instance : Append Batch := ⟨append⟩

/-- The batch of a page without transactions. -/
def isEmpty (b : Batch) : Bool := b.calls.isEmpty && b.cursor.isNone

/-- The changes that set a row. -/
def sets (b : Batch) : List Change := b.changes.filter fun c => !c.isRemove

/-- The changes that remove a row. -/
def removes (b : Batch) : List Change := b.changes.filter (·.isRemove)

/-! ## Sorting a page -/

/-- The records of the calls of a transaction, at least one. -/
def callRecords (now : Int) (t : Transaction) : List CallRecord :=
  let record (package module function : String) (arguments : Json) : CallRecord :=
    ⟨t.sender, t.checkpoint, t.digest, package, module, function, arguments, t.digest, now⟩
  if t.calls.isEmpty then [record "" "" "" (.array [])]
  else t.calls.map fun c => record c.package c.module c.function c.arguments

/-- What one event of a transaction adds to a batch. -/
def ofEvent (filter : TypeFilter) (now : Int) (t : Transaction) (e : RawEvent) : Batch :=
  if filter.accepts e.type then
    match Payload.parse e.payload with
    | .error _ => { empty with skipped := 1 }
    | .ok (.entry name rawName value) =>
      { empty with events := [⟨e.sender, t.checkpoint, t.digest, name, rawName, value, now⟩] }
    | .ok (.set key value) =>
      { empty with changes := [⟨key, some value, t.checkpoint, t.digest, e.sender⟩] }
    | .ok (.remove key) =>
      { empty with changes := [⟨key, none, t.checkpoint, t.digest, e.sender⟩] }
  else { empty with filtered := 1 }

/-- The batches put together in order. -/
def concat (bs : List Batch) : Batch := bs.foldr (· ++ ·) empty

/-- The batch of one transaction. -/
def ofTransaction (filter : TypeFilter) (now : Int) (t : Transaction) : Batch :=
  { concat (t.events.map (ofEvent filter now t)) with
    calls := callRecords now t
    cursor := some ⟨t.digest, t.checkpoint⟩ }

/-- The batch of a page. -/
def ofPage (filter : TypeFilter) (now : Int) (page : List Transaction) : Batch :=
  concat (page.map (ofTransaction filter now))

end Batch

end LedgerIndex
