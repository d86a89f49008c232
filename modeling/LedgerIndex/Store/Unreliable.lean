import LedgerIndex.Store.Basic

/-!
# Stores that fail on cue

A store with a list of the commits that fail.  A commit that fails leaves the store as it was.
-/

namespace LedgerIndex

/-- A store, and what goes wrong with it. -/
structure Unreliable (σ : Type) where
  store : σ
  /-- the cursor cannot be loaded -/
  refusesLoad : Bool
  /-- the commits that fail, counted from one -/
  failing : List Nat
  /-- the commits so far -/
  commits : Nat
  deriving Inhabited

namespace Unreliable

variable {σ : Type} [CommitStore σ]

/-- Loads a cursor, if that works. -/
def loadCursor (indexer : String) (u : Unreliable σ) :
    Except Error (Option StoredCursor) × Unreliable σ :=
  if u.refusesLoad then (.error (.storage "load refused"), u)
  else
    let (found, store) := CommitStore.loadCursor indexer u.store
    (found, { u with store })

/-- Takes in a batch, if that works this time. -/
def commit (now : Int) (indexer : String) (b : Batch) (u : Unreliable σ) :
    Except Error CommitSummary × Unreliable σ :=
  let u := { u with commits := u.commits + 1 }
  if u.failing.contains u.commits then
    (.error (.storage ("commit " ++ toString u.commits ++ " refused")), u)
  else
    let (summary, store) := CommitStore.commit now indexer b u.store
    (summary, { u with store })

instance : CommitStore (Unreliable σ) := ⟨loadCursor, commit⟩

end Unreliable

end LedgerIndex
