import LedgerIndex.Decimal.Word
import LedgerIndex.Node.Calls
import LedgerIndex.Node.Page
import LedgerIndex.Node.Transport

/-!
# Asking a node

A client asks a node for pages of transactions and for its latest checkpoint, and turns what the
node writes into transactions of the ledger.  A page with one block that cannot be placed in the
ledger is no page at all.
-/

namespace LedgerIndex.Node

/-! ## From blocks to transactions -/

/-- A word of 64 bits, sent as a number or as a text. -/
def wordOf? : Json → Option UInt64
  | .string s => Decimal.word? s
  | .number n => n.toUInt64?
  | _ => none

namespace Block

/-- The block's checkpoint. -/
def checkpoint? (b : Block) : Option UInt64 := b.checkpoint.bind Decimal.word?

/-- The transaction of the ledger that a block is.  It has to have a checkpoint; a missing time
counts as zero. -/
def toTransaction (b : Block) : Except Error Transaction :=
  match b.checkpoint? with
  | none => .error (.rpc ("transaction " ++ b.digest ++ " has no checkpoint"))
  | some checkpoint =>
    .ok
      { digest := b.digest
        checkpoint := checkpoint
        timestamp := (b.timestamp.bind Decimal.word?).getD 0
        sender := (b.data.map (·.sender)).getD ""
        calls := (b.data.map fun d => calls d.transaction).getD []
        events := b.events.map fun e => ⟨e.type, e.sender, e.parsedJson⟩ }

end Block

/-- What the reader of JSON says of a value that is no page.  The words are its own. -/
class Wording where
  /-- nothing, where the words are left out -/
  misfit? : Json → Option String

namespace Page

/-- The transactions of a page; the first block that is none decides. -/
def transactions (p : Page) : Except Error (List Transaction) :=
  p.blocks.mapM Block.toTransaction

variable [Wording]

/-- The text for a result that is no page. -/
def invalidText (result : Json) : String :=
  match Wording.misfit? result with
  | some words => "invalid transaction page: " ++ words
  | none => "invalid transaction page"

/-- The page that a node's result is. -/
def ofResult (result : Json) : Except Error Page :=
  match shape.ofJson? result with
  | some p => .ok p
  | none => .error (.rpc (invalidText result))

/-- The transactions of the page that a node's result is. -/
def transactionsOf (result : Json) : Except Error (List Transaction) := do
  (← ofResult result).transactions

end Page

/-- The checkpoint that a node's result is. -/
def headOf (result : Json) : Except Error UInt64 :=
  match wordOf? result with
  | some n => .ok n
  | none => .error (.rpc ("invalid checkpoint number: " ++ result.text))

/-! ## The client -/

/-- A client, and the server it speaks to. -/
structure Client (η : Type) where
  transport : Transport
  server : η
  deriving Inhabited

namespace Client

variable {η : Type} [HttpServer η]

/-- Calls a method of the node. -/
def call (c : Client η) (method : String) (params : List Json) : Except Error Json × Client η :=
  let (answer, transport, server) := c.transport.call method params c.server
  (answer, ⟨transport, server⟩)

/-- The parameters of the query for a page, in ascending order. -/
def pageParams (filter : ObjectFilter) (after : Option String) (limit : Nat) : List Json :=
  [ .ofMembers
      [ ("filter", filter.toJson),
        ("options", .ofMembers [("showInput", .bool true), ("showEvents", .bool true)]) ],
    .ofOption .string after, .ofInt limit, .bool false ]

/-- Asks for a page of transactions after a digest. -/
def fetchPage [Wording] (c : Client η) (filter : ObjectFilter) (after : Option String)
    (limit : Nat) : Except Error (List Transaction) × Client η :=
  let (answer, c) := c.call "suix_queryTransactionBlocks" (pageParams filter after limit)
  (answer.bind Page.transactionsOf, c)

/-- Asks for the latest checkpoint. -/
def headCheckpoint (c : Client η) : Except Error UInt64 × Client η :=
  let (answer, c) := c.call "sui_getLatestCheckpointSequenceNumber" []
  (answer.bind headOf, c)

end Client

end LedgerIndex.Node
