import LedgerIndex.Proofs.Sql.Statements
import LedgerIndex.Proofs.Store.Commits

/-!
# Cursors move with their batches

What a sync loop relies on: a store that takes a batch in has the cursor of the batch, and a store
that fails is as it was (`Atomic`).  A store in memory is such a store, with whatever keeps to it,
and so are the tables of an embedded database.
-/

namespace LedgerIndex

/-- A store takes in a batch with its cursor, or fails and stays as it was.  It tells the cursor of
an indexer truthfully, or fails.  What it holds is its `contents`. -/
structure Atomic (σ : Type) [CommitStore σ] {α : Type} (contents : σ → α)
    (cursorIn : α → String → Option Cursor) : Prop where
  loaded {indexer s found s'} : CommitStore.loadCursor indexer s = (.ok found, s') →
    found.map (·.cursor) = cursorIn (contents s) indexer ∧ contents s' = contents s
  refused {indexer s e s'} : CommitStore.loadCursor indexer s = (.error e, s') →
    contents s' = contents s
  stored {now indexer b s summary s'} : CommitStore.commit now indexer b s = (.ok summary, s') →
    cursorIn (contents s') indexer = b.cursor.or (cursorIn (contents s) indexer)
  rejected {now indexer b s e s'} : CommitStore.commit now indexer b s = (.error e, s') →
    contents s' = contents s

namespace Memory

/-- The cursor of an indexer, whenever it was stored. -/
def cursorOf (m : Memory) (indexer : String) : Option Cursor := (m.cursor? indexer).map (·.cursor)

theorem cursorOf_commit (m : Memory) (now : Int) (indexer : String) (b : Batch) :
    (m.commit now indexer b).2.cursorOf indexer = b.cursor.or (m.cursorOf indexer) := by
  cases hb : b.cursor with
  | none =>
    have hcursors : (m.commit now indexer b).2.cursors = m.cursors := by
      rw [commit, hb]
      exact (sameLogs_applyPlan _ _).cursors
    rw [cursorOf, cursor?, hcursors]
    rfl
  | some c =>
    rw [cursorOf, cursor?_commit hb]
    rfl

end Memory

/-- A store that keeps to one in memory moves its cursors as that one does. -/
theorem Keeps.atomic {σ : Type} [CommitStore σ] {view : σ → Memory} (h : Keeps σ view) :
    Atomic σ view Memory.cursorOf where
  loaded {indexer s found s'} hs := by
    obtain ⟨hfound, hview⟩ := h.loaded hs
    exact ⟨by rw [hfound]; rfl, hview⟩
  refused hs := h.refused hs
  stored {now indexer b s summary s'} hs := by
    have hcursor := Memory.cursorOf_commit (view s) now indexer b
    rwa [h.stored hs] at hcursor
  rejected hs := h.rejected hs

namespace Sql.Tables

/-- The cursor of an indexer, whenever it was stored. -/
def cursorOf (t : Tables) (indexer : String) : Option Cursor := (t.cursor? indexer).map (·.cursor)

/-- A cursor is stored with its checkpoint as a signed number, and read as it was. -/
theorem cursorOf_upsertCursor (t : Tables) (now : Int) (indexer : String) (c : Cursor) :
    (t.upsertCursor now indexer c).cursorOf indexer = some c := by
  simp [cursorOf, cursor?, upsertCursor]

theorem cursorOf_tookIn (t : Tables) (now : Int) (indexer : String) (b : Batch) :
    (t.tookIn now indexer b).cursorOf indexer = b.cursor.or (t.cursorOf indexer) := by
  rw [tookIn, tombstones_eq]
  cases b.cursor with
  | none => rfl
  | some c => exact cursorOf_upsertCursor ..

/-- The tables of an embedded database never fail. -/
theorem atomic : Atomic Tables id cursorOf where
  loaded h := by cases h; exact ⟨rfl, rfl⟩
  refused h := by cases h
  stored {now indexer b t summary t'} h := by
    change lift (t.commit now indexer b) = _ at h
    rw [commit_eq] at h
    cases h
    exact cursorOf_tookIn t now indexer b
  rejected {now indexer b t e t'} h := by
    change lift (t.commit now indexer b) = _ at h
    rw [commit_eq] at h
    cases h

end Sql.Tables

end LedgerIndex
