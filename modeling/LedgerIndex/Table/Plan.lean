import LedgerIndex.Table.Change

/-!
# Plans of changes

A page may change one row many times.  Changes are ranked by checkpoint, and by their place in
the page where checkpoints are equal.  For each key the plan keeps the set of highest rank, and
the removal of highest rank if it outranks that set.  A store applies all sets, then all removals,
and so touches each row at most twice whatever the page holds.
-/

namespace LedgerIndex

/-- A change with its place in the page. -/
structure Placed where
  place : Nat
  change : Change
  deriving Inhabited

namespace Placed

/-- The change comes later in the order of checkpoints and places. -/
def outranks (a b : Placed) : Bool :=
  b.change.checkpoint < a.change.checkpoint ||
    (b.change.checkpoint == a.change.checkpoint && b.place < a.place)

/-- The one of higher rank, `b` if there is no other yet. -/
def higher : Option Placed → Placed → Placed
  | none, b => b
  | some a, b => if b.outranks a then b else a

end Placed

/-- The changes of highest rank to one key, among those seen so far. -/
structure Winners where
  key : Key
  set : Option Placed
  remove : Option Placed
  deriving Inhabited

namespace Winners

/-- No change to the key was seen. -/
def none (key : Key) : Winners := ⟨key, .none, .none⟩

/-- Takes one more change to the key into account. -/
def add (w : Winners) (p : Placed) : Winners :=
  if p.change.isRemove then { w with remove := some (Placed.higher w.remove p) }
  else { w with set := some (Placed.higher w.set p) }

/-- The removal, if it counts: it has to outrank the set. -/
def tombstone? (w : Winners) : Option Placed :=
  match w.remove, w.set with
  | some r, some s => if r.outranks s then some r else .none
  | r, .none => r
  | .none, _ => .none

/-- Takes one more change into account, among the winners of all keys. -/
def enter (p : Placed) : List Winners → List Winners
  | [] => [(none p.change.key).add p]
  | w :: rest => if w.key = p.change.key then w.add p :: rest else w :: enter p rest

/-- The winners among some placed changes, keys in the order in which they first occur. -/
def ofPlaced (changes : List Placed) : List Winners :=
  changes.foldl (fun ws p => enter p ws) []

end Winners

/-- What a store does with the changes of a page: the sets, then the removals. -/
structure Plan where
  sets : List Change
  removes : List Change
  deriving Inhabited

namespace Plan

/-- The changes in the order of their places. -/
def inOrder (ps : List Placed) : List Change :=
  (ps.mergeSort fun a b => a.place ≤ b.place).map (·.change)

/-- The changes of a page with their places. -/
def placed (changes : List Change) : List Placed :=
  changes.zipIdx.map fun (c, i) => ⟨i, c⟩

/-- The plan for the changes of a page. -/
def ofChanges (changes : List Change) : Plan :=
  let winners := Winners.ofPlaced (placed changes)
  { sets := inOrder (winners.filterMap (·.set))
    removes := inOrder (winners.filterMap (·.tombstone?)) }

/-- There is nothing to do. -/
def isEmpty (p : Plan) : Bool := p.sets.isEmpty && p.removes.isEmpty

end Plan

end LedgerIndex
