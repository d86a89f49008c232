import LedgerIndex.Proofs.Json.Texts
import LedgerIndex.Proofs.Sql.SignedCheckpoints
import LedgerIndex.Proofs.Sql.UniqueKeys
import LedgerIndex.Proofs.Store.Paging

/-!
# Reading a table of either store page by page

The embedded database keeps its rows in a list as the store in memory does: a batch changes neither
the id nor the key of a row, and gives new rows the ids that follow (`index_tookIn`).  So the same
holds of its reads (`paged_stores`).  Only, a read of the database fails where the text of a value
on the page cannot be read, which is kept out if it can be read whenever a value is set.  A
database takes in also what it cannot read again, as a value nested too deep (`parse_text_nested`).
-/

namespace LedgerIndex

namespace Sql

/-! ## Values that can be read -/

/-- The texts of the values that changes set can be read, not necessarily as those values. -/
def Legible (changes : List Change) : Prop :=
  ∀ c ∈ changes, ∀ v ∈ c.value, ∃ w, Json.parse v.text = .ok w

end Sql

/-- The same of what an operation sets. -/
def Operation.Legible : Operation → Prop
  | commit _ batch => Sql.Legible batch.changes
  | _ => True

namespace Sql

/-- The text of a row can be read. -/
def StateRow.IsLegible (r : StateRow) : Prop := ∃ v, Tables.column r.value = .ok v

theorem exists_column_getD {changes : List Change} (h : Legible changes) {c : Change}
    (hc : c ∈ changes) : ∃ v, Tables.column (c.value.getD .null).text = .ok v := by
  have hparse : ∃ w, Json.parse (c.value.getD .null).text = .ok w := by
    cases hvalue : c.value with
    | none => exact ⟨.null, Json.readsBack_null⟩
    | some v => exact h c hc v hvalue
  obtain ⟨w, hw⟩ := hparse
  exact ⟨w, by rw [Tables.column, hw]⟩

/-! ## What a batch does to the list of rows -/

namespace StateRow

theorem foldl_removed_same (removes : List Change) (r : StateRow) :
    (removes.foldl removed r).id = r.id ∧ (removes.foldl removed r).key = r.key ∧
      (removes.foldl removed r).value = r.value := by
  induction removes generalizing r with
  | nil => exact ⟨rfl, rfl, rfl⟩
  | cons c removes ih =>
    obtain ⟨hid, hkey, hvalue⟩ := ih (r.removed c)
    rw [List.foldl_cons, hid, hkey, hvalue, removed]
    split <;> exact ⟨rfl, rfl, rfl⟩

end StateRow

namespace Tables

variable {t : Tables}

theorem rows_tombstones (t : Tables) (removes : List Change) :
    (removes.foldl tombstone t).rows = t.rows.map (removes.foldl StateRow.removed ·) ∧
      (removes.foldl tombstone t).lastId = t.lastId := by
  induction removes generalizing t with
  | nil => exact ⟨(List.map_id _).symm, rfl⟩
  | cons c removes ih =>
    obtain ⟨hrows, hlast⟩ := ih (t.tombstone c)
    rw [List.foldl_cons, hrows, hlast, tombstone_eq]
    exact ⟨List.map_map .., rfl⟩

/-- The rows after a batch: those that were there, overwritten or not, and those that are inserted,
all of them after the removals. -/
theorem rows_tookIn (t : Tables) (now : Int) (indexer : String) (b : Batch) :
    let staged := (Plan.ofChanges b.changes).sets.map .ofChange
    (t.tookIn now indexer b).rows =
        (t.rows.map (overwritten staged) ++
          StagedRow.insertedFrom t.lastId (unmatched t.rows staged)).map
            ((Plan.ofChanges b.changes).removes.foldl StateRow.removed ·) ∧
      (t.tookIn now indexer b).lastId = t.lastId + (unmatched t.rows staged).length := by
  rw [tookIn]
  cases b.cursor <;> exact rows_tombstones _ _

/-! ## A list in which ids ascend -/

/-- How the database keeps its rows. -/
def listing : Listing Tables StateRow where
  rows := Tables.rows
  lastId := Tables.lastId
  id := StateRow.id
  key := StateRow.key
  isRemoved := StateRow.isRemoved
  read := readRow
  Agrees _ := True
  shows h := by
    rw [(readRow_eq_ok_iff.1 h).2]
    exact ⟨rfl, rfl, rfl⟩
  row?_eq key t _ := by
    refine (t.row?_eq key).trans ?_
    rw [stateRow?]
    cases t.rows.find? fun r => r.key = key <;> rfl
  rowsAfter_eq _ _ _ _ := rfl

/-- Every row can be read. -/
def IsLegible (t : Tables) : Prop := ∀ r ∈ t.rows, r.IsLegible

theorem isLegible_overwritten {stage : List StagedRow}
    (hstage : ∀ s ∈ stage, ∃ v, column s.value = .ok v) {r : StateRow} (h : r.IsLegible) :
    (overwritten stage r).IsLegible := by
  rw [overwritten]
  split
  · exact hstage _ (List.mem_of_find?_eq_some ‹_›)
  · exact h

theorem isLegible_insertedFrom {stage : List StagedRow}
    (hstage : ∀ s ∈ stage, ∃ v, column s.value = .ok v) (lastId : Nat) :
    ∀ r ∈ StagedRow.insertedFrom lastId stage, r.IsLegible := by
  induction stage generalizing lastId with
  | nil => nofun
  | cons s stage ih =>
    obtain ⟨hs, hrest⟩ := List.forall_mem_cons.1 hstage
    exact List.forall_mem_cons.2 ⟨hs, ih hrest (lastId + 1)⟩

theorem IsLegible.tookIn (h : t.IsLegible) (now : Int) (indexer : String) {b : Batch}
    (hb : Legible b.changes) : (t.tookIn now indexer b).IsLegible := by
  have hstaged : ∀ s ∈ (Plan.ofChanges b.changes).sets.map StagedRow.ofChange,
      ∃ v, column s.value = .ok v := by
    intro s hs
    obtain ⟨c, hc, rfl⟩ := List.mem_map.1 hs
    exact exists_column_getD hb (mem_of_latestSetTo? (Plan.mem_sets_iff.1 hc)).1
  rw [IsLegible, (rows_tookIn t now indexer b).1, List.forall_mem_map]
  intro r hr
  -- removals leave the text of a row alone
  rw [StateRow.IsLegible,
    (StateRow.foldl_removed_same (Plan.ofChanges b.changes).removes r).2.2]
  rcases List.mem_append.1 hr with hr | hr
  · obtain ⟨r, hold, rfl⟩ := List.mem_map.1 hr
    exact isLegible_overwritten hstaged (h r hold)
  · exact isLegible_insertedFrom (fun s hs => hstaged s (List.mem_filter.1 hs).1) _ r hr

theorem IsLegible.commit (h : t.IsLegible) (now : Int) (indexer : String) {b : Batch}
    (hb : Legible b.changes) : IsLegible (CommitStore.commit now indexer b t).2 := by
  rw [commit_snd]
  exact h.tookIn now indexer hb

theorem IsLegible.perform (h : t.IsLegible) (now : Int) {op : Operation} (hop : op.Legible) :
    IsLegible (op.perform now t).2 := by
  cases op with
  | commit indexer b => exact h.commit now indexer hop
  | clear => nofun
  -- the others leave the rows alone
  | _ => exact h

end Tables

/-! ## Either store -/

/-- Some items come at a checkpoint, and others go. -/
def restock (checkpoint : UInt64) (come gone : List String) : Memory.Handover :=
  ⟨1, "default", { Batch.empty with
    changes := come.map (fun item => ⟨⟨"stock", some item, none⟩, some (.bool true), checkpoint,
        "a", "0x1"⟩) ++
      gone.map fun item => ⟨⟨"stock", some item, none⟩, none, checkpoint, "a", "0x1"⟩ }⟩

/-- After the first read, the third item comes back, another two come, and two go; after the second,
one of these comes back, behind what has been read, and a last one comes. -/
def dealings : Nat → List Memory.Handover
  | 0 => [restock 4 ["c", "e"] ["a"], restock 5 ["f"] ["d"]]
  | 1 => [restock 6 ["d", "g"] []]
  | _ => []

end Sql

end LedgerIndex
