import LedgerIndex.Proofs.Sql.Statements
import LedgerIndex.Proofs.Store.Reconcile
import Mathlib.Algebra.Group.Int.Defs
import Mathlib.Algebra.Group.Nat.Defs

/-!
# Tables that mirror a store in memory

The embedded database holds the rows of a store in memory with their values as texts, their
checkpoints as signed words, and their ids moved by the number of rows that were deleted before.
Below `2 ^ 63` signed words are in the order of the unsigned ones, so an update finds a row older in
the database exactly if it is older in memory, and commits keep the two alike (`Mirrors.commit`).
-/

namespace LedgerIndex

/-! ## Checkpoints as signed words -/

/-- The checkpoint is kept as a negative word. -/
def IsNegative (checkpoint : UInt64) : Prop := 2 ^ 63 ≤ checkpoint.toNat

instance (checkpoint : UInt64) : Decidable (IsNegative checkpoint) :=
  inferInstanceAs (Decidable (2 ^ 63 ≤ checkpoint.toNat))

theorem toInt_toInt64 (a : UInt64) :
    a.toInt64.toInt = if IsNegative a then (a.toNat - 2 ^ 64 : Int) else (a.toNat : Int) := by
  have hword : a.toInt64.toInt = a.toBitVec.toInt := rfl
  rw [hword, BitVec.toInt_eq_toNat_cond, UInt64.toNat_toBitVec]
  split <;> split <;> simp only [IsNegative] at * <;> omega

/-- Negative words come first; apart from that words are in the order of the checkpoints. -/
theorem toInt64_lt_iff {a b : UInt64} :
    a.toInt64 < b.toInt64 ↔
      IsNegative a ∧ ¬ IsNegative b ∨ (IsNegative a ↔ IsNegative b) ∧ a < b := by
  rw [Int64.lt_iff_toInt_lt, toInt_toInt64, toInt_toInt64, UInt64.lt_iff_toNat_lt]
  have ha := a.toNat_lt
  have hb := b.toNat_lt
  split <;> split <;> simp only [IsNegative] at * <;> omega

theorem toInt64_lt_iff_of_low {a b : UInt64} (ha : a.toNat < 2 ^ 63) (hb : b.toNat < 2 ^ 63) :
    a.toInt64 < b.toInt64 ↔ a < b := by
  have ha' : ¬ IsNegative a := Nat.not_le.2 ha
  have hb' : ¬ IsNegative b := Nat.not_le.2 hb
  rw [toInt64_lt_iff]
  tauto

theorem toInt64_le_iff_of_low {a b : UInt64} (ha : a.toNat < 2 ^ 63) (hb : b.toNat < 2 ^ 63) :
    a.toInt64 ≤ b.toInt64 ↔ a ≤ b := by
  rw [← Int64.not_lt, toInt64_lt_iff_of_low hb ha, UInt64.not_lt]

/-! ## Values that the database keeps -/

/-- The text of a value reads back as the value. -/
def Json.ReadsBack (v : Json) : Prop := Json.parse v.text = .ok v

theorem Json.readsBack_null : Json.null.ReadsBack := by
  rw [ReadsBack]
  rfl

theorem Json.readsBack_getD {value : Option Json} (h : ∀ v ∈ value, v.ReadsBack) :
    (value.getD .null).ReadsBack := by
  cases value with
  | none => exact Json.readsBack_null
  | some v => exact h v rfl

namespace Sql

/-- A change whose checkpoint is not negative as a signed word, and whose value reads back. -/
structure Storable (c : Change) : Prop where
  low : c.checkpoint.toNat < 2 ^ 63
  value : ∀ v ∈ c.value, v.ReadsBack

/-- The same of a row. -/
structure StorableRow (r : Row) : Prop where
  low : r.checkpoint.toNat < 2 ^ 63
  value : r.value.ReadsBack

theorem Storable.value_getD {c : Change} (h : Storable c) : (c.value.getD .null).ReadsBack :=
  Json.readsBack_getD h.value

theorem Storable.create {c : Change} (h : Storable c) (id : Int) : StorableRow (.create id c) :=
  ⟨h.low, h.value_getD⟩

theorem StorableRow.set {r : Row} {c : Change} (hr : StorableRow r) (hc : Storable c) :
    StorableRow (r.set c) := by
  rw [Row.set]
  split
  · exact ⟨hc.low, hc.value_getD⟩
  · exact hr

theorem StorableRow.remove {r : Row} {c : Change} (hr : StorableRow r) (hc : Storable c) :
    StorableRow (r.remove c) := by
  rw [Row.remove]
  split
  · exact ⟨hc.low, hr.value⟩
  · exact hr

/-! ## Rows -/

/-- The row of the database for a row in memory, whose id is moved. -/
def StateRow.ofRow (moved : Nat) (r : Row) : StateRow :=
  ⟨r.id + moved, r.name, r.key1, r.key2, r.value.text, r.checkpoint.toInt64, r.digest, r.isRemoved⟩

theorem StateRow.ofRow_set {r : Row} {c : Change} (hr : StorableRow r) (hc : Storable c)
    (moved : Nat) :
    ofRow moved (r.set c) =
      if (ofRow moved r).checkpoint < c.checkpoint.toInt64 then
        { ofRow moved r with
          value := (c.value.getD .null).text, checkpoint := c.checkpoint.toInt64,
          digest := c.digest, isRemoved := false }
      else ofRow moved r := by
  have hiff : (ofRow moved r).checkpoint < c.checkpoint.toInt64 ↔ r.checkpoint < c.checkpoint :=
    toInt64_lt_iff_of_low hr.low hc.low
  rw [Row.set]
  by_cases h : r.checkpoint < c.checkpoint
  · rw [if_pos h, if_pos (hiff.2 h)]
    rfl
  · rw [if_neg h, if_neg fun h' => h (hiff.1 h')]

theorem StateRow.ofRow_remove {r : Row} {c : Change} (hr : StorableRow r) (hc : Storable c)
    (moved : Nat) :
    ofRow moved (r.remove c) =
      if (ofRow moved r).checkpoint ≤ c.checkpoint.toInt64 then
        { ofRow moved r with
          isRemoved := true, checkpoint := c.checkpoint.toInt64, digest := c.digest }
      else ofRow moved r := by
  have hiff : (ofRow moved r).checkpoint ≤ c.checkpoint.toInt64 ↔ r.checkpoint ≤ c.checkpoint :=
    toInt64_le_iff_of_low hr.low hc.low
  rw [Row.remove]
  by_cases h : r.checkpoint ≤ c.checkpoint
  · rw [if_pos h, if_pos (hiff.2 h)]
    rfl
  · rw [if_neg h, if_neg fun h' => h (hiff.1 h')]

/-! ## Sets -/

/-- Among sets of different keys, the one that has a key and passes a test is the one that has the
key, if it passes. -/
theorem find?_key_and {sets : List Change} (hkeys : (sets.map (·.key)).Nodup) (key : Key)
    (test : Change → Bool) :
    (sets.find? fun c => decide (c.key = key) && test c) =
      (sets.find? fun c => c.key = key).filter test := by
  induction sets with
  | nil => rfl
  | cons c sets ih =>
    rw [List.map_cons, List.nodup_cons] at hkeys
    by_cases hk : c.key = key
    · have hnone : (sets.find? fun d => decide (d.key = key) && test d) = none := by
        refine List.find?_eq_none.2 fun d hd => ?_
        have hne : d.key ≠ key := fun h => hkeys.1 (List.mem_map.2 ⟨d, hd, h.trans hk.symm⟩)
        simp [hne]
      rw [List.find?_cons, List.find?_cons, hnone]
      cases ht : test c <;> simp [hk, ht, Option.filter]
    · rw [List.find?_cons_of_neg (by simp [hk]), List.find?_cons_of_neg (by simp [hk])]
      exact ih hkeys.2

variable {moved : Nat} {m : Memory} {t : Tables} {sets : List Change}

theorem sameKey_ofChange (c : Change) (r : StateRow) :
    (StagedRow.ofChange c).sameKey r = decide (c.key = r.key) := by
  rw [Bool.eq_iff_iff, StagedRow.sameKey_iff, decide_eq_true_iff]
  exact eq_comm

/-- The staged row that overwrites a row is that of the set of its key, if the set is newer. -/
theorem find?_staged (hkeys : (sets.map (·.key)).Nodup) (r : StateRow) :
    ((sets.map StagedRow.ofChange).find? fun s => s.sameKey r && r.checkpoint < s.checkpoint) =
      ((sets.find? fun c => c.key = r.key).filter fun c =>
        r.checkpoint < c.checkpoint.toInt64).map .ofChange := by
  rw [List.find?_map, ← find?_key_and hkeys]
  simp only [Function.comp_def, sameKey_ofChange]
  rfl

/-- The update does to a row what the set of its key does in memory. -/
theorem overwritten_ofRow (hkeys : (sets.map (·.key)).Nodup) (hsets : ∀ c ∈ sets, Storable c)
    {r : Row} (hr : StorableRow r) :
    Tables.overwritten (sets.map .ofChange) (.ofRow moved r) =
      .ofRow moved (r.overwritten sets r.key) := by
  have hkey : (StateRow.ofRow moved r).key = r.key := rfl
  rw [Tables.overwritten, find?_staged hkeys, hkey, Row.overwritten]
  cases hc : sets.find? fun c => c.key = r.key with
  | none => rfl
  | some c =>
    have hstorable := hsets c (List.mem_of_find?_eq_some hc)
    simp only [StateRow.ofRow_set hr hstorable]
    by_cases hlt : (StateRow.ofRow moved r).checkpoint < c.checkpoint.toInt64
    · simp [Option.filter, hlt, StagedRow.ofChange]
    · simp [Option.filter, hlt]

theorem unmatched_ofRow (hkeyed : m.Keyed) :
    Tables.unmatched (m.rows.map (.ofRow moved)) (sets.map .ofChange) =
      (m.unmatched sets).map .ofChange := by
  rw [Tables.unmatched, Memory.unmatched, List.filter_map]
  refine congrArg _ (List.filter_congr fun c _ => ?_)
  rw [Bool.eq_iff_iff, Memory.isNone_row?_iff_keys, hkeyed.keys_eq, List.mem_map, not_exists]
  simp only [Function.comp_apply, List.any_map, Bool.not_eq_true', List.any_eq_false,
    decide_eq_true_iff, not_and]
  rfl

theorem insertedFrom_ofChange (lastId : Nat) (sets : List Change) :
    StagedRow.insertedFrom (lastId + moved) (sets.map .ofChange) =
      ((Row.created lastId sets).map (·.2)).map (.ofRow moved) := by
  induction sets generalizing lastId with
  | nil => rfl
  | cons c sets ih =>
    have hid : ((lastId + moved : Nat) : Int) + 1 = (lastId : Int) + 1 + moved := by omega
    rw [List.map_cons, StagedRow.insertedFrom, Row.created, List.map_cons, List.map_cons, hid,
      Nat.add_right_comm lastId moved 1, ih]
    rfl

end Sql

/-! ## The two stores -/

/-- A cursor as if it had been stored at another time. -/
def StoredCursor.atTime (c : StoredCursor) (time : Int) : StoredCursor :=
  { c with updatedAt := time }

namespace Sql

/-- The cursor that a row of the table of cursors stands for. -/
def CursorRow.read (r : CursorRow) : StoredCursor :=
  ⟨r.indexer, ⟨r.digest, r.checkpoint.toUInt64⟩, r.updatedAt⟩

/-- A batch whose changes and entries the database keeps faithfully. -/
structure StorableBatch (b : Batch) : Prop where
  changes : ∀ c ∈ b.changes, Storable c
  events : ∀ e ∈ b.events, e.value.ReadsBack

/-- The tables hold what the store in memory holds, with ids moved and times apart. -/
structure Mirrors (moved : Nat) (m : Memory) (t : Tables) : Prop where
  calls : t.calls = m.calls.map .ofRecord
  events : t.events = m.events.map .ofRecord
  rows : t.rows = m.rows.map (.ofRow moved)
  lastId : t.lastId = m.lastId + moved
  cursors : t.cursors.map (·.read.atTime 0) = m.cursors.map (·.atTime 0)
  numbered : m.Numbered
  keyed : m.Keyed
  storable : ∀ r ∈ m.rows, StorableRow r
  readable : ∀ e ∈ m.events, e.value.ReadsBack

namespace Mirrors

theorem empty : Mirrors 0 .empty .empty where
  calls := rfl
  events := rfl
  rows := rfl
  lastId := rfl
  cursors := rfl
  numbered := Memory.numbered_empty
  keyed := Memory.keyed_empty
  storable r hr := by cases hr
  readable e he := by cases he

theorem log (h : Mirrors moved m t) (calls : List CallRecord) {events : List EventRecord}
    (hevents : ∀ e ∈ events, e.value.ReadsBack) :
    Mirrors moved { m with calls := m.calls ++ calls, events := m.events ++ events }
      { t with calls := t.calls ++ calls.map .ofRecord, events := t.events ++ events.map .ofRecord }
    where
  calls := by simp [h.calls]
  events := by simp [h.events]
  rows := h.rows
  lastId := h.lastId
  cursors := h.cursors
  numbered := h.numbered
  keyed := h.keyed
  storable := h.storable
  readable e he := (List.mem_append.1 he).elim (h.readable e) (hevents e)

theorem applySets (h : Mirrors moved m t) (hkeys : (sets.map (·.key)).Nodup)
    (hsets : ∀ c ∈ sets, Storable c) : Mirrors moved (m.applySets sets) (t.applySets sets) where
  calls := h.calls
  events := h.events
  rows := by
    have hold : (m.rows.map (.ofRow moved)).map (Tables.overwritten (sets.map .ofChange)) =
        (m.table.map fun e => e.2.overwritten sets e.1).map (.ofRow moved) := by
      rw [h.keyed.map_table fun key r => r.overwritten sets key, List.map_map, List.map_map]
      exact List.map_congr_left fun r hr => overwritten_ofRow hkeys hsets (h.storable r hr)
    rw [Tables.applySets, Memory.rows_applySets]
    simp only
    rw [h.rows, h.lastId, hold, unmatched_ofRow h.keyed, insertedFrom_ofChange, List.map_append]
  lastId := by
    rw [Tables.applySets, Memory.applySets]
    simp only
    rw [h.rows, h.lastId, unmatched_ofRow h.keyed, List.length_map]
    omega
  cursors := h.cursors
  numbered := h.numbered.applySets sets
  keyed := by
    rw [← Memory.foldl_applySet hkeys]
    exact List.foldlRecOn sets _ h.keyed fun _ hkeyed c _ => hkeyed.applySet c
  storable r hr := by
    rw [Memory.rows_applySets] at hr
    rcases List.mem_append.1 hr with hr | hr
    · obtain ⟨e, he, rfl⟩ := List.mem_map.1 hr
      have hstorable := h.storable e.2 (List.mem_map_of_mem he)
      rw [Row.overwritten]
      split
      · rename_i c hc
        exact hstorable.set (hsets c (List.mem_of_find?_eq_some hc))
      · exact hstorable
    · obtain ⟨e, he, rfl⟩ := List.mem_map.1 hr
      obtain ⟨c, hc, id, rfl⟩ := Row.exists_of_mem_created he
      exact (hsets c (List.mem_filter.1 hc).1).create id
  readable := h.readable

theorem applyRemove (h : Mirrors moved m t) {c : Change} (hc : Storable c) :
    Mirrors moved (m.applyRemove c) (t.tombstone c) where
  calls := h.calls
  events := h.events
  rows := by
    rw [Tables.tombstone, Memory.applyRemove, Memory.rows_editRow,
      h.keyed.map_table fun key r => if key = c.key then r.remove c else r]
    simp only
    rw [h.rows, List.map_map, List.map_map]
    refine List.map_congr_left fun r hr => ?_
    rw [Function.comp_apply, Function.comp_apply]
    by_cases hk : r.key = c.key
    · rw [if_pos hk, StateRow.ofRow_remove (h.storable r hr) hc]
      simp [(columns_iff _ _).2 (show (StateRow.ofRow moved r).key = c.key from hk)]
    · have hcolumns := mt (columns_iff _ _).1 (show (StateRow.ofRow moved r).key ≠ c.key from hk)
      rw [if_neg hk, if_neg]
      rw [Bool.and_eq_true]
      exact fun hand => hcolumns hand.1
  lastId := h.lastId
  cursors := h.cursors
  numbered := h.numbered.applyRemove c
  keyed := h.keyed.applyRemove c
  storable r hr := by
    rw [Memory.applyRemove, Memory.rows_editRow] at hr
    obtain ⟨e, he, rfl⟩ := List.mem_map.1 hr
    have hstorable := h.storable e.2 (List.mem_map_of_mem he)
    split
    · exact hstorable.remove hc
    · exact hstorable
  readable := h.readable

theorem applyRemoves (h : Mirrors moved m t) {removes : List Change}
    (hremoves : ∀ c ∈ removes, Storable c) :
    Mirrors moved (removes.foldl Memory.applyRemove m) (removes.foldl Tables.tombstone t) := by
  induction removes generalizing m t with
  | nil => exact h
  | cons c removes ih =>
    exact ih (h.applyRemove (hremoves c (by simp))) fun d hd => hremoves d (by simp [hd])

theorem deleteCursor (h : Mirrors moved m t) (indexer : String) :
    Mirrors moved (m.deleteCursor indexer) (t.deleteCursor indexer) where
  calls := h.calls
  events := h.events
  rows := h.rows
  lastId := h.lastId
  cursors := by
    have hfilter := congrArg (List.filter (·.indexer != indexer)) h.cursors
    rwa [List.filter_map, List.filter_map] at hfilter
  numbered := h.numbered
  keyed := h.keyed
  storable := h.storable
  readable := h.readable

theorem saveCursor (h : Mirrors moved m t) (now now' : Int) (indexer : String) (c : Cursor) :
    Mirrors moved (m.saveCursor now indexer c) (t.upsertCursor now' indexer c) where
  calls := h.calls
  events := h.events
  rows := h.rows
  lastId := h.lastId
  cursors := by
    have hnew : (CursorRow.mk indexer c.digest c.checkpoint.toInt64 now').read.atTime 0 =
        (StoredCursor.mk indexer c now).atTime 0 := by
      simp [CursorRow.read, StoredCursor.atTime]
    rw [Tables.upsertCursor, Memory.saveCursor]
    simp only [List.map_cons, hnew]
    rw [(h.deleteCursor indexer).cursors]
  numbered := h.numbered
  keyed := h.keyed
  storable := h.storable
  readable := h.readable

/-- What a batch makes of the tables mirrors what it makes of the store in memory. -/
theorem commit (h : Mirrors moved m t) {b : Batch} (hb : StorableBatch b) (now now' : Int)
    (indexer : String) :
    Mirrors moved (m.commit now indexer b).2 (t.tookIn now' indexer b) := by
  have hsets : ∀ c ∈ (Plan.ofChanges b.changes).sets, Storable c := fun c hc =>
    hb.changes c (mem_of_latestSetTo? (Plan.mem_sets_iff.1 hc)).1
  have hremoves : ∀ c ∈ (Plan.ofChanges b.changes).removes, Storable c := fun c hc =>
    hb.changes c (mem_of_latestTo? (Plan.mem_removes_iff.1 hc).2).1
  have hkeys := Plan.nodup_keys_sets b.changes
  have hplan := ((h.log b.calls hb.events).applySets hkeys hsets).applyRemoves hremoves
  rw [← Memory.foldl_applySet hkeys] at hplan
  rw [Memory.commit, Tables.tookIn]
  cases b.cursor with
  | none => exact hplan
  | some c => exact hplan.saveCursor now now' indexer c

/-- Clearing starts the ids in memory anew, but not those of the database. -/
theorem clear (h : Mirrors moved m t) :
    Mirrors (moved + m.rows.length) .empty
      { t with calls := [], events := [], rows := [], cursors := [] } where
  calls := rfl
  events := rfl
  rows := rfl
  lastId := by
    rw [h.numbered.length_rows, h.lastId, Nat.add_comm]
    exact (Nat.zero_add _).symm
  cursors := rfl
  numbered := Memory.numbered_empty
  keyed := Memory.keyed_empty
  storable r hr := by cases hr
  readable e he := by cases he

end Mirrors

/-! ## Queries -/

end Sql

/-- A row with its id moved. -/
def Row.moved (places : Nat) (r : Row) : Row := { r with id := r.id + places }

namespace Sql

namespace Tables

theorem column_text {v : Json} (h : v.ReadsBack) : column v.text = .ok v := by
  rw [column, show Json.parse v.text = .ok v from h]

theorem readRow_ofRow {r : Row} (h : StorableRow r) :
    readRow (.ofRow moved r) = .ok (r.moved moved) := by
  rw [readRow, StateRow.ofRow, column_text h.value, UInt64.toUInt64_toInt64]
  rfl

theorem readEvent_ofRecord {e : EventRecord} (h : e.value.ReadsBack) :
    readEvent (.ofRecord e) = .ok e := by
  rw [readEvent, EventRow.ofRecord, column_text h, UInt64.toUInt64_toInt64]
  rfl

end Tables

/-- Reading what was written, one after the other. -/
theorem mapM_map_ok {α β γ ε : Type} {l : List α} {write : α → β} {read : β → Except ε γ}
    {f : α → γ} (h : ∀ a ∈ l, read (write a) = .ok (f a)) :
    (l.map write).mapM read = .ok (l.map f) := by
  induction l with
  | nil => rfl
  | cons a l ih =>
    rw [List.map_cons, List.mapM_cons, h a (by simp), ih fun b hb => h b (by simp [hb])]
    rfl

namespace Mirrors

theorem row? (h : Mirrors moved m t) (key : Key) :
    t.row? key = .ok ((m.row? key).map (·.moved moved)) := by
  have hfind : (t.rows.find? fun r =>
      r.name == key.name && r.key1 == key.key1 && r.key2 == key.key2) =
      (m.row? key).map (.ofRow moved) := by
    rw [h.rows, List.find?_map, h.keyed.row?_eq]
    refine congrArg _ (congrArg (List.find? · m.rows) (funext fun r => ?_))
    rw [Bool.eq_iff_iff, beq_iff_eq]
    exact columns_iff (.ofRow moved r) key
  rw [Tables.row?, hfind]
  cases hr : m.row? key with
  | none => rfl
  | some r =>
    have hmem : r ∈ m.rows := List.mem_map_of_mem (Memory.mem_table_of_row? hr)
    simp only [Option.map_some, Tables.readRow_ofRow (h.storable r hmem)]
    rfl

theorem liveRows (h : Mirrors moved m t) (name : String) :
    t.liveRows name = (m.liveRows name).map (.ofRow moved) := by
  rw [Tables.liveRows, h.rows, List.filter_map]
  rfl

/-- Rows are listed in the same order, and continued from the moved id. -/
theorem rowsAfter (h : Mirrors moved m t) (name : String) (after : Option Int) (limit : Nat) :
    t.rowsAfter name (after.map (· + moved)) limit =
      .ok ((m.rowsAfter name after limit).map (·.moved moved)) := by
  have hafter : ((m.liveRows name).map (StateRow.ofRow moved)).filter
        (fun r => (after.map (· + (moved : Int))).getD 0 < r.id) =
      ((m.liveRows name).filter fun r => after.getD 0 < r.id).map (.ofRow moved) := by
    rw [List.filter_map]
    refine congrArg _ (List.filter_congr fun r hr => ?_)
    have hpos := h.numbered.id_pos (List.mem_filter.1 hr).1
    rw [Function.comp_apply, decide_eq_decide, StateRow.ofRow]
    cases after <;> simp only [Option.map_none, Option.map_some, Option.getD_none, Option.getD_some]
      <;> omega
  rw [Tables.rowsAfter, h.liveRows, hafter, ← List.map_take]
  refine mapM_map_ok fun r hr => Tables.readRow_ofRow (h.storable r ?_)
  exact (List.mem_filter.1 (List.mem_filter.1 (List.mem_of_mem_take hr)).1).1

theorem lastEvents (h : Mirrors moved m t) (name : String) (limit : Nat) :
    t.lastEvents name limit = .ok (m.lastEvents name limit) := by
  rw [Tables.lastEvents, h.events, ← List.map_reverse, List.filter_map, ← List.map_take]
  refine (mapM_map_ok (f := id) fun e he => Tables.readEvent_ofRecord (h.readable e ?_)).trans ?_
  · exact List.mem_reverse.1 (List.mem_filter.1 (List.mem_of_mem_take he)).1
  · rw [List.map_id]
    rfl

theorem counts (h : Mirrors moved m t) : t.counts = m.counts := by
  rw [Tables.counts, Memory.counts, h.calls, h.events, h.rows, List.countP_map]
  simp only [List.length_map]
  rfl

theorem cursor? (h : Mirrors moved m t) (indexer : String) :
    (t.cursor? indexer).map (·.atTime 0) = (m.cursor? indexer).map (·.atTime 0) := by
  have hfind := congrArg (List.find? (·.indexer == indexer)) h.cursors
  rw [List.find?_map, List.find?_map] at hfind
  rw [Tables.cursor?, Memory.cursor?, Option.map_map]
  exact hfind

end Mirrors

end Sql

end LedgerIndex
