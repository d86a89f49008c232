import LedgerIndex.Proofs.Table.Plan
import LedgerIndex.Sql.Tables

/-!
# What the statements of a batch do to the tables

A batch is carried out in statements: inserts in pieces of bounded size, a stage, one update and
one insert over it, and one statement for each removal.  The pieces come to the whole list
(`executeAll_map`), and the insert meets no row of the same key (`insertRows_ok`), so that the
statements of a batch never fail.
-/

namespace LedgerIndex

/-- Pieces put together again. -/
theorem flatten_chunks {n : Nat} (hn : 0 < n) (l : List α) : (chunks n l).flatten = l := by
  induction l using chunks.induct (n := n) with
  | case1 l h ih => rw [chunks, if_pos h, List.flatten_cons, ih, List.take_append_drop]
  | case2 l h =>
    rw [chunks, if_neg h]
    have : l = [] := by simpa [hn] using h
    rw [this]
    rfl

namespace Sql

/-! ## Keys -/

/-- The key of a row of the table of rows. -/
def StateRow.key (r : StateRow) : Key := ⟨r.name, r.key1, r.key2⟩

/-- The key of a staged row. -/
def StagedRow.key (s : StagedRow) : Key := ⟨s.name, s.key1, s.key2⟩

/-- Two columns hold the same: both are absent, or both are the same text. -/
inductive SameColumn : Option String → Option String → Prop
  | absent : SameColumn none none
  | text (s : String) : SameColumn (some s) (some s)

/-- Two keys are of the same table and the same in both columns. -/
structure SameColumns (a b : Key) : Prop where
  name : a.name = b.name
  key1 : SameColumn a.key1 b.key1
  key2 : SameColumn a.key2 b.key2

theorem sameColumn_iff {a b : Option String} : SameColumn a b ↔ a = b := by
  constructor
  · rintro (_ | s) <;> rfl
  · rintro rfl
    cases a with
    | none => exact .absent
    | some s => exact .text s

/-- The plan of a batch tells keys apart as the database does. -/
theorem sameColumns_iff {a b : Key} : SameColumns a b ↔ a = b := by
  constructor
  · rintro ⟨hname, h1, h2⟩
    obtain ⟨name, key1, key2⟩ := a
    obtain ⟨name', key1', key2'⟩ := b
    simp only [sameColumn_iff] at hname h1 h2
    rw [hname, h1, h2]
  · rintro rfl
    exact ⟨rfl, sameColumn_iff.2 rfl, sameColumn_iff.2 rfl⟩

theorem columns_iff (r : StateRow) (key : Key) :
    (r.name == key.name && r.key1 == key.key1 && r.key2 == key.key2) = true ↔ r.key = key := by
  cases key
  simp [StateRow.key, and_assoc]

/-- So do the update and the insert over the stage. -/
theorem sameKey_iff_sameColumns {s : StagedRow} {r : StateRow} :
    s.sameKey r ↔ SameColumns r.key s.key :=
  (columns_iff r s.key).trans sameColumns_iff.symm

theorem IndexValue.ofColumn_eq_iff {a b : Option String} :
    ofColumn a = ofColumn b ↔ SameColumn a b := by
  rw [sameColumn_iff]
  cases a <;> cases b <;> simp [ofColumn]

/-- So does the unique index, which has a blob for an absent column. -/
theorem indexEntry_eq_iff_sameColumns {r s : StateRow} :
    r.indexEntry = s.indexEntry ↔ SameColumns r.key s.key := by
  rw [StateRow.indexEntry, StateRow.indexEntry, Prod.mk.injEq, Prod.mk.injEq,
    IndexValue.ofColumn_eq_iff, IndexValue.ofColumn_eq_iff]
  exact ⟨fun ⟨hname, h1, h2⟩ => ⟨hname, h1, h2⟩, fun ⟨hname, h1, h2⟩ => ⟨hname, h1, h2⟩⟩

theorem StagedRow.sameKey_iff {s : StagedRow} {r : StateRow} : s.sameKey r ↔ r.key = s.key :=
  sameKey_iff_sameColumns.trans sameColumns_iff

namespace Tables

/-! ## Statements in order -/

theorem executeAll_cons_ok {t t' : Tables} {s : Statement} (h : t.execute s = .ok t')
    (rest : List Statement) : t.executeAll (s :: rest) = t'.executeAll rest := by
  rw [executeAll, h]
  rfl

theorem executeAll_append (t : Tables) (l r : List Statement) :
    t.executeAll (l ++ r) = (do (← t.executeAll l).executeAll r) := by
  induction l generalizing t with
  | nil => rfl
  | cons s l ih =>
    rw [List.cons_append, executeAll, executeAll]
    cases t.execute s with
    | error v => rfl
    | ok t' => exact ih t'

theorem executeAll_append_ok {t t' : Tables} {l : List Statement} (h : t.executeAll l = .ok t')
    (r : List Statement) : t.executeAll (l ++ r) = t'.executeAll r := by
  rw [executeAll_append, h]
  rfl

/-- Statements that each put a piece into the tables put the pieces together. -/
theorem executeAll_map (put : Tables → List α → Tables) {f : List α → Statement}
    (hexec : ∀ (t : Tables) (piece : List α), t.execute (f piece) = .ok (put t piece))
    (hnil : ∀ t, put t [] = t) (happend : ∀ t l r, put (put t l) r = put t (l ++ r))
    (t : Tables) (pieces : List (List α)) :
    t.executeAll (pieces.map f) = .ok (put t pieces.flatten) := by
  induction pieces generalizing t with
  | nil => rw [List.flatten_nil, hnil]; rfl
  | cons piece pieces ih =>
    rw [List.map_cons, executeAll, hexec, List.flatten_cons, ← happend]
    exact ih (put t piece)

theorem executeAll_insertCalls (t : Tables) (calls : List CallRecord) :
    t.executeAll ((chunks maxInsertRows calls).map .insertCalls) =
      .ok { t with calls := t.calls ++ calls.map .ofRecord } := by
  rw [executeAll_map (fun t l => { t with calls := t.calls ++ l.map .ofRecord })
    (fun _ _ => rfl) (by simp) (by simp), flatten_chunks (by decide)]

theorem executeAll_insertEvents (t : Tables) (events : List EventRecord) :
    t.executeAll ((chunks maxInsertRows events).map .insertEvents) =
      .ok { t with events := t.events ++ events.map .ofRecord } := by
  rw [executeAll_map (fun t l => { t with events := t.events ++ l.map .ofRecord })
    (fun _ _ => rfl) (by simp) (by simp), flatten_chunks (by decide)]

theorem executeAll_stage (t : Tables) (sets : List Change) :
    t.executeAll ((chunks maxInsertRows sets).map .stage) =
      .ok { t with stage := t.stage ++ sets.map .ofChange } := by
  rw [executeAll_map (fun t l => { t with stage := t.stage ++ l.map .ofChange })
    (fun _ _ => rfl) (by simp) (by simp), flatten_chunks (by decide)]

theorem executeAll_tombstones (t : Tables) (now : Int) (removes : List Change) :
    t.executeAll (removes.map (.tombstone now)) = .ok (removes.foldl tombstone t) := by
  induction removes generalizing t with
  | nil => rfl
  | cons c removes ih => exact ih (t.tombstone c)

/-- Removals change the rows only. -/
theorem tombstones_eq (t : Tables) (removes : List Change) :
    removes.foldl tombstone t = { t with rows := (removes.foldl tombstone t).rows } := by
  induction removes generalizing t with
  | nil => rfl
  | cons c removes ih => exact ih (t.tombstone c)

/-! ## The insert from the stage -/

end Tables

/-- The row that a staged row is inserted as. -/
def StagedRow.inserted (id : Int) (s : StagedRow) : StateRow :=
  ⟨id, s.name, s.key1, s.key2, s.value, s.checkpoint, s.digest, false⟩

/-- The rows that staged rows are inserted as, one after the other. -/
def StagedRow.insertedFrom (lastId : Nat) : List StagedRow → List StateRow
  | [] => []
  | s :: rest => s.inserted (lastId + 1) :: insertedFrom (lastId + 1) rest

namespace Tables

theorem insertRow_ok {t : Tables} {s : StagedRow} (h : ∀ r ∈ t.rows, r.key ≠ s.key) :
    t.insertRow s =
      .ok { t with rows := t.rows ++ [s.inserted (t.lastId + 1)], lastId := t.lastId + 1 } := by
  have hnone : ¬ t.rows.any fun other =>
      other.indexEntry == (s.inserted (t.lastId + 1)).indexEntry := by
    rw [List.any_eq_true]
    rintro ⟨r, hr, heq⟩
    exact h r hr (sameColumns_iff.1 (indexEntry_eq_iff_sameColumns.1 (beq_iff_eq.1 heq)))
  rw [insertRow]
  exact if_neg hnone

/-- Rows whose keys are new and different are all inserted. -/
theorem insertRows_ok {t : Tables} {staged : List StagedRow}
    (hnew : ∀ r ∈ t.rows, ∀ s ∈ staged, r.key ≠ s.key) (hkeys : (staged.map (·.key)).Nodup) :
    t.insertRows staged =
      .ok { t with
        rows := t.rows ++ StagedRow.insertedFrom t.lastId staged
        lastId := t.lastId + staged.length } := by
  induction staged generalizing t with
  | nil => simp [insertRows, StagedRow.insertedFrom]
  | cons s staged ih =>
    rw [List.map_cons, List.nodup_cons] at hkeys
    rw [insertRows, insertRow_ok fun r hr => hnew r hr s (by simp)]
    have hnew' : ∀ r ∈ t.rows ++ [s.inserted (t.lastId + 1)], ∀ d ∈ staged, r.key ≠ d.key := by
      intro r hr d hd
      rcases List.mem_append.1 hr with hr | hr
      · exact hnew r hr d (by simp [hd])
      · rw [List.mem_singleton.1 hr]
        exact fun hk => hkeys.1 (List.mem_map.2 ⟨d, hd, hk.symm⟩)
    refine (ih hnew' hkeys.2).trans ?_
    simp [StagedRow.insertedFrom, Nat.add_comm, Nat.add_left_comm]

/-- A row after the staged row of its key, if that is newer. -/
def overwritten (stage : List StagedRow) (r : StateRow) : StateRow :=
  match stage.find? fun s => s.sameKey r && r.checkpoint < s.checkpoint with
  | some s =>
    { r with value := s.value, checkpoint := s.checkpoint, digest := s.digest, isRemoved := false }
  | none => r

theorem key_overwritten (stage : List StagedRow) (r : StateRow) :
    (overwritten stage r).key = r.key := by
  rw [overwritten]
  split <;> rfl

/-- The staged rows whose key is not among those of the rows. -/
def unmatched (rows : List StateRow) (stage : List StagedRow) : List StagedRow :=
  stage.filter fun s => !rows.any fun r => r.key = s.key

theorem updateFromStage_eq (t : Tables) :
    t.updateFromStage = { t with rows := t.rows.map (overwritten t.stage) } := rfl

/-- The update changes no key, so the insert finds the same keys as before it. -/
theorem missing_updateFromStage (t : Tables) :
    t.updateFromStage.missing = unmatched t.rows t.stage := by
  rw [missing, unmatched]
  refine List.filter_congr fun s _ => ?_
  have hsame (r : StateRow) : s.sameKey (overwritten t.stage r) = decide (r.key = s.key) := by
    rw [Bool.eq_iff_iff, StagedRow.sameKey_iff, key_overwritten, decide_eq_true_iff]
  rw [updateFromStage_eq]
  simp only [List.any_map, Function.comp_def, hsame]

/-- The tables after some sets, put through the stage. -/
def applySets (t : Tables) (sets : List Change) : Tables :=
  let staged := sets.map .ofChange
  { t with
    rows := t.rows.map (overwritten staged) ++
      StagedRow.insertedFrom t.lastId (unmatched t.rows staged)
    lastId := t.lastId + (unmatched t.rows staged).length
    stage := if sets.isEmpty then t.stage else staged }

/-- Sets of different keys go through the stage without a violation. -/
theorem executeAll_reconcileSets (t : Tables) (now : Int) {sets : List Change}
    (hkeys : (sets.map (·.key)).Nodup) :
    t.executeAll (Statement.reconcileSets now sets) = .ok (t.applySets sets) := by
  rw [Statement.reconcileSets, applySets]
  cases hempty : sets.isEmpty with
  | true =>
    rw [List.isEmpty_iff.1 hempty]
    have hrows : t.rows.map (overwritten []) = t.rows := (List.map_congr_left fun _ _ => rfl).trans
      (List.map_id _)
    simp [unmatched, StagedRow.insertedFrom, executeAll, hrows]
  | false =>
    set staged : List StagedRow := sets.map .ofChange with hstaged
    have hstage : executeAll { t with stage := [] } ((chunks maxInsertRows sets).map .stage) =
        .ok { t with stage := staged } := by
      rw [executeAll_stage]
      rfl
    have hmissing := missing_updateFromStage { t with stage := staged }
    have hnew : ∀ r ∈ ({ t with stage := staged } : Tables).updateFromStage.rows,
        ∀ s ∈ unmatched t.rows staged, r.key ≠ s.key := by
      intro r hr s hs
      obtain ⟨r₀, hr₀, rfl⟩ := List.mem_map.1 hr
      have hany : ¬ t.rows.any fun r => r.key = s.key := by simpa using (List.mem_filter.1 hs).2
      refine fun hk => hany (List.any_eq_true.2 ⟨r₀, hr₀, ?_⟩)
      rw [← hk, decide_eq_true_iff]
      exact (key_overwritten staged r₀).symm
    have hdistinct : ((unmatched t.rows staged).map (·.key)).Nodup := by
      refine List.Nodup.sublist ((List.filter_sublist (l := staged)).map _) ?_
      rw [hstaged, List.map_map]
      exact hkeys
    have hinsert := insertRows_ok hnew hdistinct
    rw [← hmissing] at hinsert
    rw [if_neg (by simp), if_neg (by simp), List.cons_append, executeAll_cons_ok rfl,
      executeAll_append_ok hstage, executeAll_cons_ok rfl,
      executeAll_cons_ok (s := .insertFromStage now) hinsert, hmissing]
    rfl

/-! ## Batches -/

/-- The tables after a batch. -/
def tookIn (t : Tables) (now : Int) (indexer : String) (b : Batch) : Tables :=
  let plan := Plan.ofChanges b.changes
  let logged : Tables := { t with
    calls := t.calls ++ b.calls.map .ofRecord, events := t.events ++ b.events.map .ofRecord }
  let reconciled := plan.removes.foldl tombstone (logged.applySets plan.sets)
  match b.cursor with
  | some cursor => reconciled.upsertCursor now indexer cursor
  | none => reconciled

/-- The statements of a batch are all carried out. -/
theorem executeAll_ofBatch (t : Tables) (now : Int) (indexer : String) (b : Batch) :
    t.executeAll (Statement.ofBatch now indexer b) = .ok (t.tookIn now indexer b) := by
  rw [Statement.ofBatch]
  simp only [List.append_assoc]
  rw [executeAll_append_ok (executeAll_insertCalls t b.calls),
    executeAll_append_ok (executeAll_insertEvents _ b.events),
    executeAll_append_ok (executeAll_reconcileSets _ now (Plan.nodup_keys_sets b.changes)),
    executeAll_append_ok (executeAll_tombstones _ now _), tookIn]
  cases b.cursor <;> rfl

/-- A batch is always taken in. -/
theorem commit_eq (t : Tables) (now : Int) (indexer : String) (b : Batch) :
    t.commit now indexer b = (.ok (Statement.summary b), t.tookIn now indexer b) := by
  rw [commit, executeAll_ofBatch]

end Tables

end Sql

end LedgerIndex
