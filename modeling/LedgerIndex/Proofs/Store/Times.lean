import LedgerIndex.Proofs.Batch.Pages
import LedgerIndex.Proofs.Sql.Mirror
import LedgerIndex.Proofs.Store.Atomic

/-!
# Times are only written down

A store writes down when it took something in, and nothing that it does goes by that.  So of what it
holds, times aside, one can tell what it answers and what it will hold (`TimeBlind`).  A store in
memory and the tables of an embedded database are blind to times, and a store that fails on cue is so
if the store behind it is.
-/

namespace LedgerIndex

/-! ## Stores -/

/-- A store that does not go by times.  Its `contents` leave them aside; they tell the cursor that
it answers, and what it holds when it has taken a batch in.  Whether it takes a batch in they need
not tell. -/
structure TimeBlind (σ : Type) [CommitStore σ] {α : Type} (contents : σ → α)
    (cursorIn : String → α → Except Error (Option Cursor))
    (take : String → Batch → α → CommitSummary × α) : Prop where
  answered (indexer s) :
    (CommitStore.loadCursor indexer s).1.map (·.map (·.cursor)) = cursorIn indexer (contents s)
  asked (indexer s) : contents (CommitStore.loadCursor indexer s).2 = contents s
  stored {now indexer b s summary s'} : CommitStore.commit now indexer b s = (.ok summary, s') →
    (summary, contents s') = take indexer (b.atTime 0) (contents s)
  rejected {now indexer b s e s'} : CommitStore.commit now indexer b s = (.error e, s') →
    contents s' = contents s

/-! ### In memory -/

namespace Memory

/-- A store as it would be, had all been taken in at another time. -/
def atTime (m : Memory) (time : Int) : Memory :=
  { m with
    calls := m.calls.map (·.atTime time)
    events := m.events.map (·.atTime time)
    cursors := m.cursors.map (·.atTime time) }

theorem applySet_atTime (m : Memory) (c : Change) (time : Int) :
    (m.atTime time).applySet c = (m.applySet c).atTime time := by
  have hrow : (m.atTime time).row? c.key = m.row? c.key := rfl
  rw [applySet, applySet, hrow]
  cases m.row? c.key <;> rfl

theorem foldl_atTime {f : Memory → Change → Memory} {time : Int}
    (hf : ∀ m c, f (m.atTime time) c = (f m c).atTime time) (m : Memory) (changes : List Change) :
    changes.foldl f (m.atTime time) = (changes.foldl f m).atTime time := by
  induction changes generalizing m with
  | nil => rfl
  | cons c changes ih => rw [List.foldl_cons, List.foldl_cons, hf, ih]

theorem applyPlan_atTime (m : Memory) (p : Plan) (time : Int) :
    (m.atTime time).applyPlan p = (m.applyPlan p).atTime time := by
  rw [applyPlan, applyPlan, foldl_atTime fun m c => applySet_atTime m c time]
  exact foldl_atTime (fun _ _ => rfl) _ p.removes

theorem saveCursor_atTime (m : Memory) (now time : Int) (indexer : String) (c : Cursor) :
    (m.atTime time).saveCursor time indexer c = (m.saveCursor now indexer c).atTime time := by
  simp [saveCursor, deleteCursor, atTime, StoredCursor.atTime, List.filter_map, Function.comp_def]

theorem commit_atTime (m : Memory) (now time : Int) (indexer : String) (b : Batch) :
    (m.atTime time).commit time indexer (b.atTime time) =
      ((m.commit now indexer b).1, (m.commit now indexer b).2.atTime time) := by
  have hlogged : ({ m.atTime time with
      calls := (m.atTime time).calls ++ (b.atTime time).calls
      events := (m.atTime time).events ++ (b.atTime time).events } : Memory) =
      ({ m with calls := m.calls ++ b.calls, events := m.events ++ b.events } : Memory).atTime
        time := by
    simp [atTime, Batch.atTime]
  rw [commit, commit, hlogged]
  dsimp only
  rw [show (b.atTime time).changes = b.changes from rfl,
    show (b.atTime time).cursor = b.cursor from rfl, applyPlan_atTime]
  refine Prod.ext (by simp [Batch.atTime]) ?_
  cases b.cursor with
  | none => rfl
  | some c => exact saveCursor_atTime _ now time indexer c

/-- A store in memory does not go by times. -/
theorem timeBlind : TimeBlind Memory (·.atTime 0) (fun indexer m => .ok (m.cursorOf indexer))
    (fun indexer b m => m.commit 0 indexer b) where
  answered indexer m := by
    change Except.ok (m.cursorOf indexer) = .ok ((m.atTime 0).cursorOf indexer)
    simp [cursorOf, cursor?, atTime, StoredCursor.atTime, List.find?_map, Function.comp_def]
  asked _ _ := rfl
  stored {now indexer b m summary m'} h := by
    cases h
    exact (commit_atTime m now 0 indexer b).symm
  rejected h := by cases h

end Memory

/-! ### That fail on cue -/

/-- A store that fails on cue does not go by times if the store behind it does not. -/
theorem TimeBlind.unreliable {σ α : Type} [CommitStore σ] {contents : σ → α}
    {cursorIn : String → α → Except Error (Option Cursor)}
    {take : String → Batch → α → CommitSummary × α} (h : TimeBlind σ contents cursorIn take) :
    TimeBlind (Unreliable σ) (fun u => (u.refusesLoad, contents u.store))
      (fun indexer a => if a.1 then .error (.storage "load refused") else cursorIn indexer a.2)
      (fun indexer b a => ((take indexer b a.2).1, a.1, (take indexer b a.2).2)) where
  answered indexer u := by
    change (u.loadCursor indexer).1.map _ = _
    rw [Unreliable.loadCursor]
    cases u.refusesLoad with
    | true => rfl
    | false => exact h.answered indexer u.store
  asked indexer u := by
    change (fun u : Unreliable σ => (u.refusesLoad, contents u.store)) (u.loadCursor indexer).2 = _
    rw [Unreliable.loadCursor]
    split
    · rfl
    · exact Prod.ext rfl (h.asked indexer u.store)
  stored {now indexer b u summary u'} hu := by
    obtain ⟨e, hfail⟩ | hpass := Unreliable.commit_cases now indexer b u
    · rw [hfail] at hu
      cases hu
    · rw [hpass, Prod.mk.injEq] at hu
      obtain ⟨hsummary, rfl⟩ := hu
      have hbehind : CommitStore.commit now indexer b u.store =
          (.ok summary, (CommitStore.commit now indexer b u.store).2) := Prod.ext hsummary rfl
      rw [← h.stored hbehind]
  rejected {now indexer b u e u'} hu := by
    obtain ⟨e', hfail⟩ | hpass := Unreliable.commit_cases now indexer b u
    · rw [hfail] at hu
      cases hu
      rfl
    · rw [hpass, Prod.mk.injEq] at hu
      obtain ⟨he, rfl⟩ := hu
      have hbehind : CommitStore.commit now indexer b u.store =
          (.error e, (CommitStore.commit now indexer b u.store).2) := Prod.ext he rfl
      exact Prod.ext rfl (h.rejected hbehind)

/-! ### In tables -/

namespace Sql

/-- A row of the call log as it would be, had it been written at another time. -/
def CallRow.atTime (r : CallRow) (time : Int) : CallRow := { r with createdAt := time }

/-- A row of the event log as it would be, had it been written at another time. -/
def EventRow.atTime (r : EventRow) (time : Int) : EventRow := { r with createdAt := time }

/-- A row of the table of cursors as it would be, had it been written at another time. -/
def CursorRow.atTime (r : CursorRow) (time : Int) : CursorRow := { r with updatedAt := time }

namespace Tables

/-- The tables as they would be, had all been taken in at another time. -/
def atTime (t : Tables) (time : Int) : Tables :=
  { t with
    calls := t.calls.map (·.atTime time)
    events := t.events.map (·.atTime time)
    cursors := t.cursors.map (·.atTime time) }

theorem tombstones_atTime (t : Tables) (time : Int) (removes : List Change) :
    removes.foldl tombstone (t.atTime time) = (removes.foldl tombstone t).atTime time := by
  induction removes generalizing t with
  | nil => rfl
  | cons c removes ih => exact ih (t.tombstone c)

theorem upsertCursor_atTime (t : Tables) (now time : Int) (indexer : String) (c : Cursor) :
    (t.atTime time).upsertCursor time indexer c = (t.upsertCursor now indexer c).atTime time := by
  simp [upsertCursor, deleteCursor, atTime, CursorRow.atTime, List.filter_map, Function.comp_def]

theorem tookIn_atTime (t : Tables) (now time : Int) (indexer : String) (b : Batch) :
    (t.atTime time).tookIn time indexer (b.atTime time) = (t.tookIn now indexer b).atTime time := by
  have hlogged : ({ t.atTime time with
      calls := (t.atTime time).calls ++ (b.atTime time).calls.map .ofRecord
      events := (t.atTime time).events ++ (b.atTime time).events.map .ofRecord } : Tables) =
      ({ t with
        calls := t.calls ++ b.calls.map .ofRecord
        events := t.events ++ b.events.map .ofRecord } : Tables).atTime time := by
    simp [atTime, Batch.atTime, Function.comp_def, CallRow.ofRecord, CallRow.atTime,
      CallRecord.atTime, EventRow.ofRecord, EventRow.atTime, EventRecord.atTime]
  rw [tookIn, tookIn, hlogged, show (b.atTime time).changes = b.changes from rfl,
    show (b.atTime time).cursor = b.cursor from rfl]
  generalize ({ t with
    calls := t.calls ++ b.calls.map .ofRecord
    events := t.events ++ b.events.map .ofRecord } : Tables) = logged
  have hsets (sets : List Change) :
      (logged.atTime time).applySets sets = (logged.applySets sets).atTime time := rfl
  rw [hsets, tombstones_atTime]
  cases b.cursor with
  | none => rfl
  | some c => exact upsertCursor_atTime _ now time indexer c

/-- The tables of an embedded database do not go by times. -/
theorem timeBlind : TimeBlind Tables (·.atTime 0) (fun indexer t => .ok (t.cursorOf indexer))
    (fun indexer b t => (Statement.summary b, t.tookIn 0 indexer b)) where
  answered indexer t := by
    change Except.ok (t.cursorOf indexer) = .ok ((t.atTime 0).cursorOf indexer)
    simp [cursorOf, cursor?, atTime, CursorRow.atTime, List.find?_map, Function.comp_def]
  asked _ _ := rfl
  stored {now indexer b t summary t'} h := by
    change lift (t.commit now indexer b) = _ at h
    rw [commit_eq] at h
    cases h
    refine Prod.ext ?_ (tookIn_atTime t now 0 indexer b).symm
    simp [Statement.summary, Batch.atTime]
  rejected {now indexer b t e t'} h := by
    change lift (t.commit now indexer b) = _ at h
    rw [commit_eq] at h
    cases h

end Tables

end Sql

end LedgerIndex
