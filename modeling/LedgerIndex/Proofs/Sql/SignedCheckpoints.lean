import LedgerIndex.Proofs.Sql.Mirror
import LedgerIndex.Proofs.Store.Replay

/-!
# Checkpoints that become negative words

The embedded database keeps checkpoints as signed words and compares them as such, while everything
else compares them as they are.  A checkpoint of `2 ^ 63` or more becomes a negative word, so that a
row takes it for older than all that are below.  This file says what commits make of a row under
that comparison (`row?_tookIn`): the checkpoint of the row falls only when it falls from such a
checkpoint to one below `2 ^ 63`, and a later set is passed over only when it would lead the other
way (`row?_commitAll`).
-/

namespace LedgerIndex

/-! ## Signed words against checkpoints -/

theorem IsNegative.of_lt {a b : UInt64} (ha : IsNegative a) (h : a < b) : IsNegative b :=
  Nat.le_trans ha (Nat.le_of_lt h)

theorem IsNegative.gt {a b : UInt64} (ha : IsNegative a) (hb : ¬ IsNegative b) : b < a :=
  UInt64.lt_iff_toNat_lt.2 (Nat.lt_of_lt_of_le (Nat.not_le.1 hb) ha)

/-- Of two words in order, the second is the lower checkpoint only if the first is negative and
the second is not. -/
theorem lt_iff_of_toInt64_le {a b : UInt64} (h : a.toInt64 ≤ b.toInt64) :
    b < a ↔ IsNegative a ∧ ¬ IsNegative b := by
  have hnot : ¬ (IsNegative b ∧ ¬ IsNegative a ∨ (IsNegative b ↔ IsNegative a) ∧ b < a) :=
    mt toInt64_lt_iff.2 (Int64.not_lt.2 h)
  constructor
  · intro hlt
    have hmono : IsNegative b → IsNegative a := fun hb => hb.of_lt hlt
    tauto
  · rintro ⟨ha, hb⟩
    exact ha.gt hb

/-- A later checkpoint is a greater word, unless it is the only one of the two that is negative. -/
theorem toInt64_lt_iff_of_lt {a b : UInt64} (h : a < b) :
    a.toInt64 < b.toInt64 ↔ ¬ (¬ IsNegative a ∧ IsNegative b) := by
  have hmono : IsNegative a → IsNegative b := fun ha => ha.of_lt h
  rw [toInt64_lt_iff]
  tauto

/-! ## A row under the comparison of the database -/

namespace Row

/-- The row after a set, where checkpoints are compared as signed words. -/
def setSigned (r : Row) (c : Change) : Row :=
  if r.checkpoint.toInt64 < c.checkpoint.toInt64 then
    { r with
      value := c.value.getD .null, checkpoint := c.checkpoint, digest := c.digest
      isRemoved := false }
  else r

/-- The row after a removal, where checkpoints are compared as signed words. -/
def removeSigned (r : Row) (c : Change) : Row :=
  if r.checkpoint.toInt64 ≤ c.checkpoint.toInt64 then
    { r with checkpoint := c.checkpoint, digest := c.digest, isRemoved := true }
  else r

/-- The row after the latest set of its key in a page, if there is one. -/
def afterSets (r : Row) (page : List Change) : Row :=
  match latestSetTo? r.key page with
  | some c => r.setSigned c
  | none => r

/-- The row after the latest change to its key in a page, if that is a removal. -/
def afterRemoves (r : Row) (page : List Change) : Row :=
  match (latestTo? r.key page).filter (·.isRemove) with
  | some c => r.removeSigned c
  | none => r

/-- The row after a page of changes. -/
def afterPage (r : Row) (page : List Change) : Row := (r.afterSets page).afterRemoves page

theorem key_setSigned (r : Row) (c : Change) : (r.setSigned c).key = r.key := by
  rw [setSigned]
  split <;> rfl

theorem checkpoint_le_setSigned (r : Row) (c : Change) :
    r.checkpoint.toInt64 ≤ (r.setSigned c).checkpoint.toInt64 := by
  rw [setSigned]
  split
  · exact Int64.le_of_lt ‹_›
  · exact Int64.le_refl _

theorem checkpoint_le_removeSigned (r : Row) (c : Change) :
    r.checkpoint.toInt64 ≤ (r.removeSigned c).checkpoint.toInt64 := by
  rw [removeSigned]
  split
  · assumption
  · exact Int64.le_refl _

/-- As words, checkpoints never fall. -/
theorem checkpoint_le_afterPage (r : Row) (page : List Change) :
    r.checkpoint.toInt64 ≤ (r.afterPage page).checkpoint.toInt64 := by
  have hsets : r.checkpoint.toInt64 ≤ (r.afterSets page).checkpoint.toInt64 := by
    rw [afterSets]
    split
    · exact checkpoint_le_setSigned ..
    · exact Int64.le_refl _
  rw [afterPage, afterRemoves]
  split
  · exact Int64.le_trans hsets (checkpoint_le_removeSigned ..)
  · exact hsets

/-- A page whose latest change to the key of a row is a set comes to that set. -/
theorem afterPage_of_latest {r : Row} {page : List Change} {top : Change}
    (h : latestTo? r.key page = some top) (hset : top.isRemove = false) :
    r.afterPage page = r.setSigned top := by
  have hsets : r.afterSets page = r.setSigned top := by
    rw [afterSets, latestSetTo?_of_latestTo? h hset]
  have hnone : (some top).filter (·.isRemove) = none := Option.filter_eq_none_iff.2 (by simp [hset])
  rw [afterPage, hsets, afterRemoves, key_setSigned, h, hnone]

end Row

namespace Sql

/-! ## The same of the tables -/

/-- The values that changes set read back from their texts. -/
def Readable (changes : List Change) : Prop := ∀ c ∈ changes, ∀ v ∈ c.value, v.ReadsBack

/-- A row of the table after a removal, if it is of the row's key. -/
def StateRow.removed (r : StateRow) (c : Change) : StateRow :=
  if r.key = c.key ∧ r.checkpoint ≤ c.checkpoint.toInt64 then
    { r with isRemoved := true, checkpoint := c.checkpoint.toInt64, digest := c.digest }
  else r

theorem StateRow.key_removed (r : StateRow) (c : Change) : (r.removed c).key = r.key := by
  rw [removed]
  split <;> rfl

theorem StateRow.foldl_removed_of_not_mem {r : StateRow} {removes : List Change}
    (h : r.key ∉ removes.map (·.key)) : removes.foldl removed r = r := by
  induction removes with
  | nil => rfl
  | cons c removes ih =>
    rw [List.map_cons, List.mem_cons, not_or] at h
    rw [List.foldl_cons, removed, if_neg (fun hc => h.1 hc.1), ih h.2]

/-- Of removals of different keys at most one is about a row. -/
theorem StateRow.foldl_removed {removes : List Change} (hkeys : (removes.map (·.key)).Nodup)
    (r : StateRow) :
    removes.foldl removed r = match removes.find? fun c => c.key = r.key with
      | some c => r.removed c
      | none => r := by
  induction removes with
  | nil => rfl
  | cons c removes ih =>
    rw [List.map_cons, List.nodup_cons] at hkeys
    rw [List.foldl_cons]
    by_cases hk : c.key = r.key
    · rw [List.find?_cons_of_pos (by simpa using hk), foldl_removed_of_not_mem]
      rw [key_removed, ← hk]
      exact hkeys.1
    · rw [List.find?_cons_of_neg (by simpa using hk), removed, if_neg (fun hc => hk hc.1.symm)]
      exact ih hkeys.2

namespace Tables

theorem tombstone_eq (t : Tables) (c : Change) :
    t.tombstone c = { t with rows := t.rows.map (·.removed c) } := by
  rw [tombstone]
  congr 1
  refine List.map_congr_left fun r _ => ?_
  have hiff : (r.name == c.key.name && r.key1 == c.key.key1 && r.key2 == c.key.key2 &&
      decide (r.checkpoint ≤ c.checkpoint.toInt64)) = true ↔
      r.key = c.key ∧ r.checkpoint ≤ c.checkpoint.toInt64 := by
    rw [Bool.and_eq_true, columns_iff, decide_eq_true_iff]
  rw [StateRow.removed]
  simp only [hiff]

/-- The row with a key as the table has it. -/
def stateRow? (t : Tables) (key : Key) : Option StateRow := t.rows.find? fun r => r.key = key

theorem row?_eq (t : Tables) (key : Key) :
    t.row? key = match t.stateRow? key with
      | some r => (readRow r).map some
      | none => .ok none := by
  have hcolumns : t.stateRow? key = t.rows.find? fun r =>
      r.name == key.name && r.key1 == key.key1 && r.key2 == key.key2 := by
    refine congrArg (List.find? · t.rows) (funext fun r => ?_)
    rw [Bool.eq_iff_iff, decide_eq_true_iff, columns_iff]
  rw [hcolumns]
  rfl

theorem readRow_eq_ok_iff {r : StateRow} {row : Row} :
    readRow r = .ok row ↔ column r.value = .ok row.value ∧
      row = ⟨r.id, r.name, r.key1, r.key2, row.value, r.checkpoint.toUInt64, r.digest,
        r.isRemoved⟩ := by
  rw [readRow]
  cases hv : column r.value with
  | error e =>
    constructor
    · rintro ⟨⟩
    · rintro ⟨⟨⟩, -⟩
  | ok v =>
    constructor
    · rintro ⟨⟩
      exact ⟨rfl, rfl⟩
    · rintro ⟨hvalue, hrow⟩
      cases hvalue
      rw [hrow]
      rfl

theorem row?_eq_some_iff {t : Tables} {key : Key} {row : Row} :
    t.row? key = .ok (some row) ↔ ∃ r, t.stateRow? key = some r ∧ readRow r = .ok row := by
  rw [row?_eq]
  cases t.stateRow? key with
  | none => simp
  | some r =>
    cases hr : readRow r with
    | error e => simp [Except.map, hr]
    | ok row' => simp [Except.map, hr]

/-! ## A batch -/

variable {t : Tables} {key : Key} {r : StateRow} {row : Row}

/-- The update does to a row what the latest set of its key does. -/
theorem readRow_overwritten (h : readRow r = .ok row) {page : List Change}
    (hvalues : Readable page) :
    readRow (overwritten ((Plan.ofChanges page).sets.map .ofChange) r) =
      .ok (row.afterSets page) := by
  have hrow := (readRow_eq_ok_iff.1 h).2
  have hkey : row.key = r.key := by rw [hrow]; rfl
  have hcheckpoint : row.checkpoint.toInt64 = r.checkpoint := by rw [hrow, Int64.toInt64_toUInt64]
  rw [overwritten, find?_staged (Plan.nodup_keys_sets page), Plan.find?_sets, Row.afterSets, hkey]
  cases hc : latestSetTo? r.key page with
  | none => exact h
  | some c =>
    have hvalue : (c.value.getD .null).ReadsBack :=
      Json.readsBack_getD (hvalues c (mem_of_latestSetTo? hc).1)
    simp only [Row.setSigned, hcheckpoint]
    by_cases hlt : r.checkpoint < c.checkpoint.toInt64
    · have hfound : (some c).filter (fun c => r.checkpoint < c.checkpoint.toInt64) = some c := by
        simp [Option.filter, hlt]
      rw [hfound, if_pos hlt]
      refine readRow_eq_ok_iff.2 ⟨column_text hvalue, ?_⟩
      rw [hrow]
      simp [StagedRow.ofChange]
    · have hfound : (some c).filter (fun c => r.checkpoint < c.checkpoint.toInt64) = none := by
        simp [Option.filter, hlt]
      rw [hfound, if_neg hlt]
      exact h

/-- The removals do to a row what the latest change to its key does. -/
theorem readRow_foldl_removed (h : readRow r = .ok row) (page : List Change) :
    readRow ((Plan.ofChanges page).removes.foldl StateRow.removed r) =
      .ok (row.afterRemoves page) := by
  obtain ⟨hvalue, hrow⟩ := readRow_eq_ok_iff.1 h
  have hkey : row.key = r.key := by rw [hrow]; rfl
  have hcheckpoint : row.checkpoint.toInt64 = r.checkpoint := by rw [hrow, Int64.toInt64_toUInt64]
  rw [StateRow.foldl_removed (Plan.nodup_keys_removes page), Plan.find?_removes, Row.afterRemoves,
    hkey]
  cases hc : (latestTo? r.key page).filter (·.isRemove) with
  | none => exact h
  | some c =>
    have hc' : c.key = r.key := (mem_of_latestTo? (Option.filter_eq_some_iff.1 hc).1).2
    simp only [StateRow.removed, Row.removeSigned, hcheckpoint, hc', true_and]
    split
    · refine readRow_eq_ok_iff.2 ⟨hvalue, ?_⟩
      rw [hrow]
      simp
    · exact h

theorem find?_map_key {f : StateRow → StateRow} (hf : ∀ r, (f r).key = r.key)
    (rows : List StateRow) (key : Key) :
    ((rows.map f).find? fun r => r.key = key) = (rows.find? fun r => r.key = key).map f := by
  rw [List.find?_map]
  simp only [Function.comp_def, hf]

theorem stateRow?_applySets (h : t.stateRow? key = some r) (sets : List Change) :
    (t.applySets sets).stateRow? key = some (overwritten (sets.map .ofChange) r) := by
  rw [stateRow?] at h
  rw [stateRow?, applySets]
  simp only
  rw [List.find?_append, find?_map_key (key_overwritten _), h]
  rfl

theorem stateRow?_tombstones (h : t.stateRow? key = some r) (removes : List Change) :
    (removes.foldl tombstone t).stateRow? key = some (removes.foldl StateRow.removed r) := by
  induction removes generalizing t r with
  | nil => exact h
  | cons c removes ih =>
    refine ih ?_
    rw [stateRow?] at h
    rw [tombstone_eq, stateRow?, find?_map_key fun r => StateRow.key_removed r c, h]
    rfl

/-- **What a batch makes of a row.**  The latest set of its key overwrites it, and the latest change
of all removes it if that is a removal, where checkpoints are compared as signed words. -/
theorem row?_tookIn (h : t.row? key = .ok (some row)) (now : Int) (indexer : String) {b : Batch}
    (hvalues : Readable b.changes) :
    (t.tookIn now indexer b).row? key = .ok (some (row.afterPage b.changes)) := by
  obtain ⟨r, hr, hread⟩ := row?_eq_some_iff.1 h
  -- neither the logs nor the cursors are looked at for a row
  have hlogged : ({ t with
      calls := t.calls ++ b.calls.map .ofRecord
      events := t.events ++ b.events.map .ofRecord } : Tables).stateRow? key = some r := hr
  have hfind := stateRow?_tombstones
    (stateRow?_applySets hlogged (Plan.ofChanges b.changes).sets) (Plan.ofChanges b.changes).removes
  have hafter := readRow_foldl_removed (readRow_overwritten hread hvalues) b.changes
  rw [tookIn]
  cases b.cursor <;> exact row?_eq_some_iff.2 ⟨_, hfind, hafter⟩

/-! ## Runs of batches -/

/-- The tables after some batches, one after the other. -/
def commitAll (t : Tables) (handovers : List Memory.Handover) : Tables :=
  handovers.foldl (fun t h => (t.commit h.time h.indexer h.batch).2) t

theorem row?_handover (h : t.row? key = .ok (some row)) (o : Memory.Handover)
    (hvalues : Readable o.batch.changes) :
    (t.commit o.time o.indexer o.batch).2.row? key =
      .ok (some (row.afterPage o.batch.changes)) := by
  rw [commit_eq]
  exact row?_tookIn h o.time o.indexer hvalues

/-- A row stays, and as a word its checkpoint never falls. -/
theorem exists_row?_commitAll (h : t.row? key = .ok (some row)) {handovers : List Memory.Handover}
    (hvalues : ∀ o ∈ handovers, Readable o.batch.changes) :
    ∃ row', (t.commitAll handovers).row? key = .ok (some row') ∧
      row.checkpoint.toInt64 ≤ row'.checkpoint.toInt64 := by
  induction handovers generalizing t row with
  | nil => exact ⟨row, h, Int64.le_refl _⟩
  | cons o handovers ih =>
    have hstep := row?_handover h o (hvalues o (by simp))
    obtain ⟨row', hrow', hle⟩ := ih hstep fun o' ho' => hvalues o' (by simp [ho'])
    exact ⟨row', hrow', Int64.le_trans (row.checkpoint_le_afterPage o.batch.changes) hle⟩

theorem key_of_row? (h : t.row? key = .ok (some row)) : row.key = key := by
  obtain ⟨r, hr, hread⟩ := row?_eq_some_iff.1 h
  have hkey : r.key = key := by simpa using List.find?_some hr
  rw [(readRow_eq_ok_iff.1 hread).2, ← hkey]
  rfl

/-- **Checkpoints rise, apart from negative words.**  However many batches follow, a row stays, and
its checkpoint has fallen exactly if it was kept as a negative word and is no longer.  A batch whose
latest change to the key is a set of a later checkpoint overwrites the row, exactly unless the later
checkpoint is kept as a negative word and that of the row is not: then the row stays as it is. -/
theorem row?_commitAll (h : t.row? key = .ok (some row)) {handovers : List Memory.Handover}
    (hvalues : ∀ o ∈ handovers, Readable o.batch.changes) :
    ∃ row', (t.commitAll handovers).row? key = .ok (some row') ∧
      (row'.checkpoint < row.checkpoint ↔
        IsNegative row.checkpoint ∧ ¬ IsNegative row'.checkpoint) ∧
      ∀ (o : Memory.Handover) (top : Change) (v : Json),
        Readable o.batch.changes → latestTo? key o.batch.changes = some top →
        top.value = some v →
        row'.checkpoint < top.checkpoint →
        (t.commitAll (handovers ++ [o])).row? key = .ok (some
          (if ¬ IsNegative row'.checkpoint ∧ IsNegative top.checkpoint then row'
            else ⟨row'.id, key.name, key.key1, key.key2, v, top.checkpoint, top.digest,
              false⟩)) := by
  obtain ⟨row', hrow', hle⟩ := exists_row?_commitAll h hvalues
  refine ⟨row', hrow', lt_iff_of_toInt64_le hle, fun o top v hreads htop hset hlt => ?_⟩
  have hkey := key_of_row? hrow'
  have hnot : top.isRemove = false := by rw [Change.isRemove, hset]; rfl
  rw [commitAll, List.foldl_append]
  refine (row?_handover hrow' o hreads).trans ?_
  rw [Row.afterPage_of_latest (by rwa [hkey]) hnot, Row.setSigned, hset, ← hkey]
  simp only [toInt64_lt_iff_of_lt hlt, ite_not]
  rfl

/-! ### Over the first negative word -/

/-- A batch that sets the row of a table without key columns. -/
def setOf (name : String) (value : Json) (checkpoint : UInt64) (digest : String) :
    Memory.Handover :=
  ⟨1, "default",
    { Batch.empty with changes := [Memory.changeOf name (some value) checkpoint digest] }⟩

/-- The same of one row and one value. -/
def setAt (checkpoint : UInt64) (digest : String) : Memory.Handover :=
  setOf "stock" (.bool true) checkpoint digest

/-- The checkpoint and the transaction that the row of a table without key columns shows. -/
def shownOf (t : Tables) (name : String) : Option (UInt64 × String) :=
  match t.row? (.singleton name) with
  | .ok (some r) => some (r.checkpoint, r.digest)
  | _ => none

/-- A row falls from checkpoint `2 ^ 63` to 5, and a row of checkpoint 5 is not overwritten by a set
of checkpoint `2 ^ 63`. -/
theorem shownOf_stock_negative :
    (empty.commitAll [setAt 9223372036854775808 "a"]).shownOf "stock" =
        some (9223372036854775808, "a") ∧
      (empty.commitAll [setAt 9223372036854775808 "a", setAt 5 "b"]).shownOf "stock" =
        some (5, "b") ∧
      (empty.commitAll [setAt 5 "a"]).shownOf "stock" = some (5, "a") ∧
      (empty.commitAll [setAt 5 "a", setAt 9223372036854775808 "b"]).shownOf "stock" =
        some (5, "a") := by
  refine ⟨?_, ?_, ?_, ?_⟩ <;> cbv

/-- A database with a row whose checkpoint is a negative word. -/
def highest : Tables := empty.commitAll [setAt 9223372036854775808 "a"]

/-- The row of that database. -/
def highestRow : Row :=
  ⟨1, "stock", none, none, .bool true, 9223372036854775808, "a", false⟩

theorem row?_commitAll_highest :
    highest.row? (.singleton "stock") = .ok (some highestRow) ∧
      (∀ o ∈ [setAt 5 "b"], Readable o.batch.changes) ∧
      ∃ row', (highest.commitAll [setAt 5 "b"]).row? (.singleton "stock") = .ok (some row') ∧
        (row'.checkpoint < highestRow.checkpoint ↔
          IsNegative highestRow.checkpoint ∧ ¬ IsNegative row'.checkpoint) ∧
        ∀ (o : Memory.Handover) (top : Change) (v : Json),
          Readable o.batch.changes →
          latestTo? (.singleton "stock") o.batch.changes = some top → top.value = some v →
          row'.checkpoint < top.checkpoint →
          (highest.commitAll ([setAt 5 "b"] ++ [o])).row? (.singleton "stock") = .ok (some
            (if ¬ IsNegative row'.checkpoint ∧ IsNegative top.checkpoint then row'
              else ⟨row'.id, "stock", none, none, v, top.checkpoint, top.digest, false⟩)) := by
  have hrow : highest.row? (.singleton "stock") = .ok (some highestRow) := by cbv
  have hvalues : ∀ o ∈ [setAt 5 "b"], Readable o.batch.changes := by
    simp only [Readable, List.forall_mem_singleton, setAt, setOf, Memory.changeOf,
      Option.mem_some_iff, forall_eq']
    rfl
  exact ⟨hrow, hvalues, row?_commitAll hrow hvalues⟩

end Tables

end Sql

end LedgerIndex
