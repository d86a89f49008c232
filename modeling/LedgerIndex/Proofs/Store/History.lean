import LedgerIndex.Proofs.Store.Operations
import LedgerIndex.Proofs.Store.Reconcile
import LedgerIndex.Proofs.Store.Replay
import Mathlib.Data.List.DropRight
import Mathlib.Data.List.Dedup

/-!
# What a store in memory tells of its past

The answers of a store can be worked out from the list of the requests that it was given, without
the store.  What was done before everything was last cleared does not count.  Of the rest, the logs
hold what the batches brought, an indexer has the cursor that was last written under its name, and
a key has a row exactly if some batch set it (`Records`).  A removal never makes a row, and nothing
short of clearing takes one away, whatever the guards reject.
-/

namespace LedgerIndex

/-! ## Requests -/

/-- What a client asks of a store: one of the operations, or a look-up by field. -/
inductive StoreRequest where
  | operation (op : Operation)
  | rowsByField (name field expected : String)

/-- A request, and the time at which it was made. -/
structure Asked where
  time : Int
  request : StoreRequest

namespace Asked

/-- The store after a request. -/
def perform (a : Asked) (m : Memory) : Memory :=
  match a.request with
  | .operation op => (op.perform a.time m).2
  | .rowsByField name field expected => (TableStore.rowsByField name field expected m).2

/-- The request clears the store. -/
def isClear (a : Asked) : Bool :=
  match a.request with
  | .operation .clear => true
  | _ => false

/-- The batch that the request hands over. -/
def batch? (a : Asked) : Option Batch :=
  match a.request with
  | .operation (.commit _ b) => some b
  | _ => none

/-- What the request leaves as the cursor of an indexer, if it writes that cursor or deletes it.  A
batch without a cursor leaves it alone, as does all that is done under other names. -/
def cursorLeft? (a : Asked) (indexer : String) : Option (Option StoredCursor) :=
  match a.request with
  | .operation (.saveCursor other c) =>
    if other = indexer then some (some ⟨indexer, c, a.time⟩) else none
  | .operation (.deleteCursor other) => if other = indexer then some none else none
  | .operation (.commit other b) =>
    if other = indexer then b.cursor.map fun c => some ⟨indexer, c, a.time⟩ else none
  | _ => none

end Asked

/-! ## Histories -/

/-- Requests in the order in which they were made. -/
abbrev History := List Asked

namespace History

/-- The store after all requests, with nothing in it at first. -/
def store (h : History) : Memory := h.foldl (fun m a => a.perform m) .empty

/-- The requests since everything was last cleared. -/
def recent (h : History) : History := h.rtakeWhile fun a => !a.isClear

/-- The batches that were handed over. -/
def batches (h : History) : List Batch := h.filterMap (·.batch?)

/-- The records of all batches. -/
def calls (h : History) : List CallRecord := h.batches.flatMap (·.calls)

/-- The entries of all batches. -/
def events (h : History) : List EventRecord := h.batches.flatMap (·.events)

/-- The keys that some batch sets, each once. -/
def keysSet (h : History) : List Key := ((h.batches.flatMap (·.sets)).map (·.key)).dedup

/-- What was last left as the cursor of an indexer. -/
def cursor? (h : History) (indexer : String) : Option StoredCursor :=
  (h.filterMap (·.cursorLeft? indexer)).getLast?.join

theorem store_concat (h : History) (a : Asked) : store (h ++ [a]) = a.perform h.store := by
  simp [store]

theorem recent_concat (h : History) (a : Asked) :
    recent (h ++ [a]) = if a.isClear then [] else h.recent ++ [a] := by
  rw [recent, List.rtakeWhile_concat]
  cases a.isClear <;> rfl

theorem batches_concat (h : History) (a : Asked) :
    batches (h ++ [a]) = h.batches ++ a.batch?.toList := by
  rw [batches, List.filterMap_append, List.filterMap_cons, List.filterMap_nil]
  cases a.batch? <;> rfl

theorem calls_concat (h : History) (a : Asked) :
    calls (h ++ [a]) = h.calls ++ a.batch?.toList.flatMap (·.calls) := by
  rw [calls, batches_concat, List.flatMap_append]
  rfl

theorem events_concat (h : History) (a : Asked) :
    events (h ++ [a]) = h.events ++ a.batch?.toList.flatMap (·.events) := by
  rw [events, batches_concat, List.flatMap_append]
  rfl

theorem mem_keysSet_concat {h : History} {a : Asked} {key : Key} :
    key ∈ keysSet (h ++ [a]) ↔
      key ∈ h.keysSet ∨ key ∈ (a.batch?.toList.flatMap (·.sets)).map (·.key) := by
  rw [keysSet, batches_concat, List.flatMap_append, List.map_append, List.mem_dedup,
    List.mem_append, keysSet, List.mem_dedup]

/-- The cursor is what the last request leaves, if it leaves any, and what it was otherwise. -/
theorem cursor?_concat (h : History) (a : Asked) (indexer : String) :
    cursor? (h ++ [a]) indexer = (a.cursorLeft? indexer).getD (h.cursor? indexer) := by
  rw [cursor?, List.filterMap_append, List.filterMap_cons, List.filterMap_nil]
  cases a.cursorLeft? indexer with
  | none => simp [cursor?]
  | some left => simp

end History

/-! ## Keys of rows -/

namespace Memory

/-- The row of a key is there and not removed. -/
def isLive (m : Memory) (key : Key) : Bool := (m.row? key).any fun r => !r.isRemoved

theorem keys_created (lastId : Nat) (sets : List Change) :
    (Row.created lastId sets).map (·.1) = sets.map (·.key) := by
  induction sets generalizing lastId with
  | nil => rfl
  | cons c sets ih => rw [Row.created, List.map_cons, List.map_cons, ih]

/-- A commit leaves alone what lasts of the rows, and makes the rows of the keys that it sets and
that had none. -/
theorem Lasting.map_commit {α : Type} {read : Key × Row → α} (h : Lasting read) (m : Memory)
    (now : Int) (indexer : String) (b : Batch) :
    (m.commit now indexer b).2.table.map read = m.table.map read ++
      (Row.created m.lastId (m.unmatched (Plan.ofChanges b.changes).sets)).map read := by
  rw [(table_commit m now indexer b).1, applyPlan, h.map_applyRemoves,
    foldl_applySet (Plan.nodup_keys_sets b.changes), h.map_applySets]
  rfl

/-- A commit adds the keys that it sets and that had no row. -/
theorem keys_commit (m : Memory) (now : Int) (indexer : String) (b : Batch) :
    (m.commit now indexer b).2.keys =
      m.keys ++ (m.unmatched (Plan.ofChanges b.changes).sets).map (·.key) := by
  rw [keys, lasting_key.map_commit, keys_created]
  rfl

theorem nodup_keys_commit {m : Memory} (h : m.keys.Nodup) (now : Int) (indexer : String)
    (b : Batch) : (m.commit now indexer b).2.keys.Nodup := by
  rw [keys_commit]
  refine h.append ?_ ?_
  · exact (Plan.nodup_keys_sets b.changes).sublist (List.filter_sublist.map _)
  · intro key hold hnew
    obtain ⟨c, hc, rfl⟩ := List.mem_map.1 hnew
    exact isNone_row?_iff_keys.1 (List.mem_filter.1 hc).2 hold

theorem mem_keys_commit {m : Memory} {now : Int} {indexer : String} {b : Batch} {key : Key} :
    key ∈ (m.commit now indexer b).2.keys ↔ key ∈ m.keys ∨ key ∈ b.sets.map (·.key) := by
  rw [keys_commit, List.mem_append, Batch.sets, ← Plan.mem_keys_sets]
  constructor
  · rintro (hold | hnew)
    · exact Or.inl hold
    · exact Or.inr ((List.filter_sublist.map _).subset hnew)
  · rintro (hold | hset)
    · exact Or.inl hold
    · by_cases hold : key ∈ m.keys
      · exact Or.inl hold
      · obtain ⟨c, hc, rfl⟩ := List.mem_map.1 hset
        have hnone : (m.row? c.key).isNone := isNone_row?_iff_keys.2 hold
        exact Or.inr (List.mem_map.2 ⟨c, List.mem_filter.2 ⟨hc, hnone⟩, rfl⟩)

/-- The rows that are not removed are as many as the keys whose row is live. -/
theorem countP_live {m : Memory} (h : m.keys.Nodup) :
    (m.rows.countP fun r => !r.isRemoved) = m.keys.countP m.isLive := by
  rw [rows, keys, List.countP_map, List.countP_map]
  refine List.countP_congr fun e he => ?_
  rw [Function.comp_apply, Function.comp_apply, isLive, row?_of_mem_table h he]
  rfl

theorem cursor?_deleteCursor (m : Memory) (other indexer : String) :
    (m.deleteCursor other).cursor? indexer =
      if other = indexer then none else m.cursor? indexer := by
  rw [cursor?, deleteCursor, List.find?_filter]
  split
  · rename_i h
    refine List.find?_eq_none.2 fun c _ => ?_
    simp [h]
  · rename_i h
    refine congrArg (List.find? · m.cursors) (funext fun c => ?_)
    rw [Bool.eq_iff_iff]
    simp only [bne_iff_ne, beq_iff_eq, decide_eq_true_eq, Bool.decide_and, Bool.and_eq_true]
    exact ⟨fun hc => hc.2, fun hc => ⟨fun hother => h (hother.symm.trans hc), hc⟩⟩

theorem cursor?_saveCursor_eq (m : Memory) (now : Int) (other indexer : String) (c : Cursor) :
    (m.saveCursor now other c).cursor? indexer =
      if other = indexer then some ⟨indexer, c, now⟩ else m.cursor? indexer := by
  split
  · rename_i h
    rw [h, cursor?_saveCursor]
  · rename_i h
    have hdeleted := cursor?_deleteCursor m other indexer
    rw [if_neg h] at hdeleted
    rw [← hdeleted, cursor?, saveCursor, List.find?_cons_of_neg (by simpa using h)]
    rfl

theorem cursor?_commit_eq (m : Memory) (now : Int) (other indexer : String) (b : Batch) :
    (m.commit now other b).2.cursor? indexer =
      ((if other = indexer then b.cursor.map fun c => some ⟨indexer, c, now⟩ else none).getD
        (m.cursor? indexer)) := by
  rw [commit]
  cases b.cursor with
  | none =>
    have hcursors := (sameLogs_applyPlan (m.logged b) (.ofChanges b.changes)).cursors
    simp only [Option.map_none, ite_self, Option.getD_none]
    exact congrArg (List.find? (·.indexer == indexer)) hcursors
  | some c =>
    have hcursors := (sameLogs_applyPlan (m.logged b) (.ofChanges b.changes)).cursors
    simp only [cursor?_saveCursor_eq]
    split
    · rfl
    · exact congrArg (List.find? (·.indexer == indexer)) hcursors

end Memory

/-! ## Stores and histories -/

/-- A store holds what some requests, none of which cleared it, come to. -/
structure Records (m : Memory) (h : History) : Prop where
  calls : m.calls = h.calls
  events : m.events = h.events
  cursors : ∀ indexer, m.cursor? indexer = h.cursor? indexer
  distinct : m.keys.Nodup
  keys : ∀ key, key ∈ m.keys ↔ key ∈ h.keysSet

namespace Records

variable {m : Memory} {h : History} {a : Asked}

theorem empty : Records .empty [] where
  calls := rfl
  events := rfl
  cursors _ := rfl
  distinct := List.nodup_nil
  keys _ := Iff.rfl

/-- A request that hands over no batch leaves all but the cursors alone. -/
theorem of_no_batch {m' : Memory} (hm : Records m h) (hbatch : a.batch? = none)
    (hcalls : m'.calls = m.calls) (hevents : m'.events = m.events) (htable : m'.table = m.table)
    (hcursors : ∀ indexer,
      m'.cursor? indexer = (a.cursorLeft? indexer).getD (m.cursor? indexer)) :
    Records m' (h ++ [a]) where
  calls := by rw [hcalls, hm.calls, History.calls_concat, hbatch]; simp
  events := by rw [hevents, hm.events, History.events_concat, hbatch]; simp
  cursors indexer := by rw [hcursors, hm.cursors, History.cursor?_concat]
  distinct := by rw [Memory.keys, htable]; exact hm.distinct
  keys key := by
    have hkeys : m'.keys = m.keys := congrArg (List.map Prod.fst) htable
    rw [hkeys, hm.keys, History.mem_keysSet_concat, hbatch]
    simp

theorem commit (hm : Records m h) (time : Int) (indexer : String) (b : Batch) :
    Records (m.commit time indexer b).2 (h ++ [⟨time, .operation (.commit indexer b)⟩]) where
  calls := by rw [Memory.calls_commit, hm.calls, History.calls_concat]; simp [Asked.batch?]
  events := by rw [Memory.events_commit, hm.events, History.events_concat]; simp [Asked.batch?]
  cursors other := by
    rw [Memory.cursor?_commit_eq, hm.cursors, History.cursor?_concat]
    rfl
  distinct := Memory.nodup_keys_commit hm.distinct time indexer b
  keys key := by
    rw [Memory.mem_keys_commit, hm.keys, History.mem_keysSet_concat]
    simp [Asked.batch?]

/-- Each request that does not clear the store adds itself to what the store holds. -/
theorem perform (hm : Records m h) (hclear : a.isClear = false) :
    Records (a.perform m) (h ++ [a]) := by
  obtain ⟨time, request⟩ := a
  cases request with
  | rowsByField => exact hm.of_no_batch rfl rfl rfl rfl fun _ => rfl
  | operation op =>
    cases op with
    | commit indexer b => exact hm.commit time indexer b
    | saveCursor other c =>
      refine hm.of_no_batch rfl rfl rfl rfl fun indexer => ?_
      refine (Memory.cursor?_saveCursor_eq m time other indexer c).trans ?_
      simp only [Asked.cursorLeft?]
      split <;> rfl
    | deleteCursor other =>
      refine hm.of_no_batch rfl rfl rfl rfl fun indexer => ?_
      refine (Memory.cursor?_deleteCursor m other indexer).trans ?_
      simp only [Asked.cursorLeft?]
      split <;> rfl
    | clear => cases hclear
    | _ => exact hm.of_no_batch rfl rfl rfl rfl fun _ => rfl

end Records

namespace History

/-- What holds of a store with nothing in it, and is kept by each request that does not clear it,
holds of every store and the requests since it was last cleared. -/
theorem store_induction {P : Memory → History → Prop} (hempty : P .empty [])
    (hperform : ∀ m h a, P m h → a.isClear = false → P (a.perform m) (h ++ [a])) (h : History) :
    P h.store h.recent := by
  induction h using List.reverseRecOn with
  | nil => exact hempty
  | append_singleton h a ih =>
    rw [store_concat, recent_concat]
    cases hclear : a.isClear with
    | false => exact hperform _ _ _ ih hclear
    | true =>
      obtain ⟨time, request⟩ := a
      cases request with
      | rowsByField => cases hclear
      | operation op =>
        cases op with
        | clear => exact hempty
        | _ => cases hclear

/-- A store holds what the requests since the last clearing come to. -/
theorem records_store (h : History) : Records h.store h.recent :=
  store_induction .empty (fun _ _ _ hm hclear => hm.perform hclear) h

/-- **Reads are told by the history.**  Of the requests since the last clearing: the cursor of an
indexer is the one that was last written or deleted under its name; the last entries of a name are
the last of those that the batches brought, newest first; and the sizes are the numbers of records
and entries of the batches, of the keys that some batch set, and of those of them whose row is
live. -/
theorem reads_store (h : History) :
    (∀ indexer, CommitStore.loadCursor indexer h.store =
        (.ok (h.recent.cursor? indexer), h.store)) ∧
      (∀ name limit, TableStore.lastEvents name limit h.store =
        (.ok ((h.recent.events.filter (·.name == name)).rtake limit).reverse, h.store)) ∧
      TableStore.counts h.store =
        (.ok ⟨h.recent.calls.length, h.recent.events.length, h.recent.keysSet.length,
          h.recent.keysSet.countP h.store.isLive⟩, h.store) := by
  have hm := records_store h
  have hkeys : h.store.keys.Perm h.recent.keysSet :=
    (List.perm_ext_iff_of_nodup hm.distinct (List.nodup_dedup _)).2 hm.keys
  refine ⟨fun indexer => ?_, fun name limit => ?_, ?_⟩
  · exact congrArg (fun c => (Except.ok c, h.store)) (hm.cursors indexer)
  · refine congrArg (fun es => (Except.ok es, h.store)) ?_
    rw [Memory.lastEvents, hm.events, List.rtake_eq_reverse_take_reverse, List.reverse_reverse,
      List.filter_reverse]
  · refine congrArg (fun c => (Except.ok c, h.store)) ?_
    rw [Memory.counts, hm.calls, hm.events, Memory.countP_live hm.distinct, hkeys.countP_eq,
      ← hkeys.length_eq, Memory.keys, Memory.rows, List.length_map, List.length_map]

end History

end LedgerIndex
