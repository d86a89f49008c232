import LedgerIndex.Sync.Run

/-!
# A ledger that follows a script

Answers written down beforehand: the pages one after the other, the heads, and the moments at
which a call to stop comes.  Its clock never stands still.
-/

namespace LedgerIndex.Scripted

/-- An answer to the question for a page. -/
structure PageAnswer where
  page : Except Error (List Transaction)
  /-- the call to stop is raised or lowered meanwhile -/
  signal : Option Bool

/-- A script and how far it has come. -/
structure LedgerScript where
  pages : List PageAnswer
  /-- the last one is given again and again -/
  heads : List (Except Error UInt64)
  /-- the call to stop is raised when a page is asked for and there are no more -/
  stopsWhenDone : Bool
  isRaised : Bool
  /-- no one is left who could call -/
  isAbandoned : Bool
  /-- the clock, in nanoseconds -/
  time : Nat
  /-- the time to write on records -/
  stamp : Int

namespace LedgerScript

/-- Answers with the next page, an empty one after the last. -/
def fetchPage (_ : ObjectFilter) (_ : Option String) (_ : Nat) (s : LedgerScript) :
    Except Error (List Transaction) × LedgerScript :=
  match s.pages with
  | [] => (.ok [], { s with isRaised := s.isRaised || s.stopsWhenDone })
  | a :: pages => (a.page, { s with pages, isRaised := a.signal.getD s.isRaised })

/-- Answers with the next head, zero if there never was one. -/
def headCheckpoint (s : LedgerScript) : Except Error UInt64 × LedgerScript :=
  match s.heads with
  | [] => (.ok 0, s)
  | [head] => (head, s)
  | head :: heads => (head, { s with heads })

/-- A millisecond passes at each look at the clock. -/
def now (s : LedgerScript) : Nat × LedgerScript :=
  (s.time, { s with time := s.time + Nat.pow 10 6 })

instance : Ledger LedgerScript := ⟨fetchPage, headCheckpoint⟩

instance : Clock LedgerScript := ⟨now, fun s => (s.stamp, s)⟩

instance : Sync.StopSignal LedgerScript :=
  ⟨(·.isRaised), fun _ s => (if s.isAbandoned then .abandoned else .elapsed, s)⟩

end LedgerScript

end LedgerIndex.Scripted
