import LedgerIndex.Proofs.Sql.Statements
import LedgerIndex.Proofs.Store.Operations
import Mathlib

/-!
# Keys are unique in the embedded database

The database compares keys in three places: the plan of a batch before anything is staged, the
update and the insert when they look for the row of a staged row, and the unique index when a row is
inserted.  All three come to the same equality, under which an absent column equals an absent column
and a text equals the same text only (`sameColumns_iff`, `sameKey_iff_sameColumns`,
`indexEntry_eq_iff_sameColumns`).  So the rows that a batch stages differ in
their keys, each row is updated from at most one of them, and those that are inserted meet no row
that is there: a batch never fails on the unique index, and no two rows ever have the same key
(`uniqueKeys_commit`).
-/

namespace LedgerIndex

namespace Statement

/-! ## The statements of a batch -/

/-- The statements of a batch up to the update over the stage: what is logged and what is staged. -/
def untilStaged (b : Batch) : List Statement :=
  (chunks maxInsertRows b.calls).map .insertCalls ++
    (chunks maxInsertRows b.events).map .insertEvents ++
    .createStage :: (chunks maxInsertRows (Plan.ofChanges b.changes).sets).map .stage

/-- Where sets are planned, they are staged before the update and the insert over the stage. -/
theorem exists_ofBatch_eq {b : Batch}
    (h : (Plan.ofChanges b.changes).sets.isEmpty = false) (now : Int) (indexer : String) :
    ∃ rest, .updateFromStage now ∉ rest ∧ ofBatch now indexer b =
      untilStaged b ++ .updateFromStage now :: .insertFromStage now :: rest := by
  refine ⟨(Plan.ofChanges b.changes).removes.map (.tombstone now) ++
    (b.cursor.toList.map (.upsertCursor now indexer)), by simp, ?_⟩
  rw [ofBatch, reconcileSets, h, untilStaged]
  cases b.cursor <;> simp

/-- Nothing else is an update over the stage, so there is one place only where a batch comes to
it. -/
theorem eq_untilStaged {now : Int} {indexer : String} {b : Batch}
    {before rest : List Statement}
    (h : ofBatch now indexer b = before ++ .updateFromStage now :: rest) :
    before = untilStaged b := by
  have hupdate : updateFromStage now ∈ ofBatch now indexer b := by
    rw [h]
    simp
  have hsets : (Plan.ofChanges b.changes).sets.isEmpty = false := by
    cases hempty : (Plan.ofChanges b.changes).sets.isEmpty with
    | false => rfl
    | true =>
      rw [ofBatch, reconcileSets, hempty] at hupdate
      cases hc : b.cursor <;> simp [hc] at hupdate
  obtain ⟨after, hafter, hbatch⟩ := exists_ofBatch_eq hsets now indexer
  rw [hbatch] at h
  refine ((List.append_cons_inj_of_notMem ?_ ?_).1 h).1.symm
  · simp [untilStaged]
  · simp [hafter]

end Statement

namespace Sql

namespace Tables

/-! ## What the keys of rows are -/

/-- The keys that have a row, in the order of the rows. -/
def keys (t : Tables) : List Key := t.rows.map (·.key)

/-- No two rows have the same key. -/
def UniqueKeys (t : Tables) : Prop := t.rows.Pairwise fun r s => ¬ SameColumns r.key s.key

theorem uniqueKeys_iff {t : Tables} : t.UniqueKeys ↔ t.keys.Nodup := by
  simp only [UniqueKeys, sameColumns_iff, keys, List.Nodup, List.pairwise_map, ne_eq]

theorem keys_insertedFrom (lastId : Nat) (staged : List StagedRow) :
    (StagedRow.insertedFrom lastId staged).map (·.key) = staged.map (·.key) := by
  induction staged generalizing lastId with
  | nil => rfl
  | cons s staged ih =>
    rw [StagedRow.insertedFrom, List.map_cons, List.map_cons, ih]
    rfl

theorem keys_applySets (t : Tables) (sets : List Change) :
    (t.applySets sets).keys =
      t.keys ++ (unmatched t.rows (sets.map .ofChange)).map (·.key) := by
  rw [keys, applySets, List.map_append, keys_insertedFrom, List.map_map]
  exact congrArg (· ++ _) (List.map_congr_left fun r _ => key_overwritten _ r)

theorem keys_tombstones (t : Tables) (removes : List Change) :
    (removes.foldl tombstone t).keys = t.keys := by
  induction removes generalizing t with
  | nil => rfl
  | cons c removes ih =>
    rw [List.foldl_cons, ih, keys, tombstone, List.map_map]
    refine List.map_congr_left fun r _ => ?_
    rw [Function.comp_apply]
    split <;> rfl

/-- A batch adds the keys that it sets and that had no row. -/
theorem keys_tookIn (t : Tables) (now : Int) (indexer : String) (b : Batch) :
    (t.tookIn now indexer b).keys =
      t.keys ++
        (unmatched t.rows ((Plan.ofChanges b.changes).sets.map .ofChange)).map (·.key) := by
  rw [tookIn]
  cases b.cursor <;> exact (keys_tombstones _ _).trans (keys_applySets _ _)

theorem nodup_keys_staged (page : List Change) :
    (((Plan.ofChanges page).sets.map StagedRow.ofChange).map (·.key)).Nodup := by
  rw [List.map_map]
  exact Plan.nodup_keys_sets page

theorem not_mem_keys_of_unmatched {t : Tables} {stage : List StagedRow} {s : StagedRow}
    (h : s ∈ unmatched t.rows stage) : s.key ∉ t.keys := by
  have hnone : ∀ r ∈ t.rows, r.key ≠ s.key := by simpa using (List.mem_filter.1 h).2
  intro hmem
  obtain ⟨r, hr, hk⟩ := List.mem_map.1 hmem
  exact hnone r hr hk

theorem UniqueKeys.tookIn {t : Tables} (h : t.UniqueKeys) (now : Int) (indexer : String)
    (b : Batch) : (t.tookIn now indexer b).UniqueKeys := by
  rw [uniqueKeys_iff] at h ⊢
  rw [keys_tookIn]
  refine h.append ((nodup_keys_staged b.changes).sublist (List.filter_sublist.map _)) ?_
  intro key hold hnew
  obtain ⟨s, hs, rfl⟩ := List.mem_map.1 hnew
  exact not_mem_keys_of_unmatched hs hold

theorem mem_keys_tookIn {t : Tables} {now : Int} {indexer : String} {b : Batch} {key : Key} :
    key ∈ (t.tookIn now indexer b).keys ↔ key ∈ t.keys ∨ key ∈ b.sets.map (·.key) := by
  have hstaged : ((Plan.ofChanges b.changes).sets.map StagedRow.ofChange).map (·.key) =
      (Plan.ofChanges b.changes).sets.map (·.key) := List.map_map
  rw [keys_tookIn, List.mem_append, Batch.sets, ← Plan.mem_keys_sets, ← hstaged]
  constructor
  · rintro (hold | hnew)
    · exact Or.inl hold
    · exact Or.inr ((List.filter_sublist.map _).subset hnew)
  · rintro (hold | hset)
    · exact Or.inl hold
    · by_cases hold : key ∈ t.keys
      · exact Or.inl hold
      · obtain ⟨s, hs, rfl⟩ := List.mem_map.1 hset
        have hnone : !t.rows.any fun r => r.key = s.key := by
          simpa [keys] using hold
        exact Or.inr (List.mem_map.2 ⟨s, List.mem_filter.2 ⟨hs, hnone⟩, rfl⟩)

/-! ## While a batch is taken in -/

/-- The stage holds each key once, so that each row finds at most one staged row of its key. -/
structure StagedOnce (t : Tables) : Prop where
  distinct : t.stage.Pairwise fun s s' => ¬ SameColumns s.key s'.key
  paired : ∀ r ∈ t.rows, (t.stage.filter (·.sameKey r)).length ≤ 1

theorem stagedOnce_of_nodup {t : Tables} (h : (t.stage.map (·.key)).Nodup) : t.StagedOnce where
  distinct := by
    rw [List.Nodup, List.pairwise_map] at h
    simpa only [sameColumns_iff] using h
  paired r _ := by
    have hcount : (t.stage.filter (·.sameKey r)).length = (t.stage.map (·.key)).count r.key := by
      rw [← List.countP_eq_length_filter, List.count, List.countP_map]
      refine List.countP_congr fun s _ => ?_
      rw [StagedRow.sameKey_iff, Function.comp_apply, beq_iff_eq]
      exact eq_comm
    rw [hcount]
    exact List.nodup_iff_count_le_one.1 h r.key

theorem executeAll_cons_eq_ok {t t' : Tables} {s : Statement} {rest : List Statement}
    (h : t.executeAll (s :: rest) = .ok t') :
    ∃ t₁, t.execute s = .ok t₁ ∧ t₁.executeAll rest = .ok t' := by
  rw [executeAll] at h
  cases hs : t.execute s with
  | error v => rw [hs] at h; cases h
  | ok t₁ => rw [hs] at h; exact ⟨t₁, rfl, h⟩

/-- The tables when the update over the stage is reached. -/
theorem executeAll_before_update (t : Tables) {now : Int} {indexer : String} {b : Batch}
    {before rest : List Statement}
    (h : Statement.ofBatch now indexer b = before ++ .updateFromStage now :: rest) :
    t.executeAll before = .ok { t with
      calls := t.calls ++ b.calls.map .ofRecord
      events := t.events ++ b.events.map .ofRecord
      stage := (Plan.ofChanges b.changes).sets.map .ofChange } := by
  rw [Statement.eq_untilStaged h, Statement.untilStaged, List.append_assoc,
    executeAll_append_ok (executeAll_insertCalls t b.calls),
    executeAll_append_ok (executeAll_insertEvents _ b.events), executeAll_cons_ok rfl,
    executeAll_stage]
  rfl

/-! ## All that a database can come to -/

/-- The tables that operations make of a fresh database. -/
inductive Reachable : Tables → Prop
  | empty : Reachable .empty
  | perform {t : Tables} (now : Int) (op : Operation) :
    Reachable t → Reachable (op.perform now t).2

theorem commit_snd (t : Tables) (now : Int) (indexer : String) (b : Batch) :
    (CommitStore.commit now indexer b t).2 = t.tookIn now indexer b := by
  change (lift (t.commit now indexer b)).2 = _
  rw [commit_eq]
  rfl

theorem uniqueKeys_of_reachable {t : Tables} (h : Reachable t) : t.UniqueKeys := by
  induction h with
  | empty => exact List.Pairwise.nil
  | @perform t now op _ ih =>
    cases op with
    | commit indexer b =>
      change (CommitStore.commit now indexer b t).2.UniqueKeys
      rw [commit_snd]
      exact ih.tookIn now indexer b
    | clear => exact List.Pairwise.nil
    -- the others leave the rows alone
    | _ => exact ih

/-- **Keys are unique, and no batch fails on that.**  Whatever a database was used for, each
batch is taken in.  When it comes to the update over the stage, the staged rows are those of the
planned sets and differ in their keys, and each row finds at most one of them; the insert that
follows meets no row of the same key.  Afterwards no two rows have the same key: a key that had a
row or was set has one row, and any other key has none, where an absent column, the empty text and
all other texts make different keys. -/
theorem uniqueKeys_commit {t : Tables} (h : Reachable t) (now : Int) (indexer : String)
    (b : Batch) :
    (∀ before rest, Statement.ofBatch now indexer b =
        before ++ .updateFromStage now :: .insertFromStage now :: rest →
      ∃ staged updated inserted, t.executeAll before = .ok staged ∧
        staged.execute (.updateFromStage now) = .ok updated ∧
        updated.execute (.insertFromStage now) = .ok inserted ∧
        staged.stage = (Plan.ofChanges b.changes).sets.map .ofChange ∧ staged.StagedOnce) ∧
    ∃ after, t.commit now indexer b = (.ok (Statement.summary b), after) ∧ after.UniqueKeys ∧
      ∀ key, (after.rows.countP fun r => r.key = key) =
        if key ∈ t.keys ∨ key ∈ b.sets.map (·.key) then 1 else 0 := by
  have hunique := (uniqueKeys_of_reachable h).tookIn now indexer b
  refine ⟨fun before rest hbatch => ?_, t.tookIn now indexer b, commit_eq .., hunique, ?_⟩
  · -- the whole batch is carried out, hence also what follows its first statements
    have hall := executeAll_ofBatch t now indexer b
    have hbefore := executeAll_before_update t hbatch
    rw [hbatch, executeAll_append_ok hbefore] at hall
    obtain ⟨updated, hupdate, hall⟩ := executeAll_cons_eq_ok hall
    obtain ⟨inserted, hinsert, -⟩ := executeAll_cons_eq_ok hall
    exact ⟨_, updated, inserted, hbefore, hupdate, hinsert, rfl,
      stagedOnce_of_nodup (nodup_keys_staged b.changes)⟩
  · intro key
    have hcount : ((t.tookIn now indexer b).rows.countP fun r => r.key = key) =
        (t.tookIn now indexer b).keys.count key := by
      rw [keys, List.count, List.countP_map]
      exact List.countP_congr fun r _ => by simp
    rw [hcount, (uniqueKeys_iff.1 hunique).count]
    simp only [mem_keys_tookIn]

/-! ### Keys of all shapes -/

/-- Sets a row of a table with given columns. -/
def setColumns (key1 key2 : Option String) (checkpoint : UInt64) : Change :=
  ⟨⟨"stock", key1, key2⟩, some .null, checkpoint, "a", "0x1"⟩

/-- Sets of keys whose columns are absent, empty, or another text, one of them set twice. -/
def shapes (checkpoint : UInt64) : Batch :=
  { Batch.empty with
    changes := [setColumns none none checkpoint, setColumns none (some "") checkpoint,
      setColumns (some "") none checkpoint, setColumns none (some "x") checkpoint,
      setColumns none none checkpoint] }

/-- The tables that sets of such keys make of a fresh database. -/
def shaped : Tables := ((Operation.commit "default" (shapes 1)).perform 1 Tables.empty).2

theorem uniqueKeys_shapes :
    Reachable shaped ∧ shaped.keys.length = 4 ∧
      (∃ before rest, Statement.ofBatch 2 "default" (shapes 2) =
        before ++ .updateFromStage 2 :: .insertFromStage 2 :: rest) ∧
      (∀ before rest, Statement.ofBatch 2 "default" (shapes 2) =
          before ++ .updateFromStage 2 :: .insertFromStage 2 :: rest →
        ∃ staged updated inserted, shaped.executeAll before = .ok staged ∧
          staged.execute (.updateFromStage 2) = .ok updated ∧
          updated.execute (.insertFromStage 2) = .ok inserted ∧
          staged.stage = (Plan.ofChanges (shapes 2).changes).sets.map .ofChange ∧
          staged.StagedOnce) ∧
      ∃ after, shaped.commit 2 "default" (shapes 2) =
          (.ok (Statement.summary (shapes 2)), after) ∧
        after.UniqueKeys ∧
        ∀ key, (after.rows.countP fun r => r.key = key) =
          if key ∈ shaped.keys ∨ key ∈ (shapes 2).sets.map (·.key) then 1 else 0 := by
  have hreach : Reachable shaped := .perform 1 (.commit "default" (shapes 1)) .empty
  obtain ⟨rest, -, hbatch⟩ :=
    Statement.exists_ofBatch_eq (b := shapes 2) (by cbv) 2 "default"
  exact ⟨hreach, by cbv, ⟨_, rest, hbatch⟩, uniqueKeys_commit hreach 2 "default" (shapes 2)⟩

end Tables

end Sql

end LedgerIndex
