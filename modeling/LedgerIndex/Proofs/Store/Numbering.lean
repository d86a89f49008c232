import LedgerIndex.Proofs.Store.Paging

/-!
# How rows are numbered

A store keeps a row under a key, and the row has the columns of a key itself.  The two agree, since a
row is made with the columns of the key under which it is put, and no change of a row touches them.
A store numbers its rows as they are made.  The ids are the numbers from one to the last that was
given, and since nothing takes a row away short of clearing everything, they tell in which order the
keys were set for the first time: by batches, and within a batch by its plan
(`History.numbered_store`).
-/

namespace LedgerIndex

/-! ## Which key was set first -/

/-- The keys that a batch sets, in the order of its plan. -/
def Batch.plannedKeys (b : Batch) : List Key := (Plan.ofChanges b.changes).sets.map (·.key)

theorem Batch.mem_plannedKeys {b : Batch} {key : Key} :
    key ∈ b.plannedKeys ↔ key ∈ b.sets.map (·.key) := Plan.mem_keys_sets

/-- A batch sets a key, and none of those before it does. -/
structure FirstSet (batches : List Batch) (i : Nat) (key : Key) : Prop where
  sets : ∃ b, batches[i]? = some b ∧ key ∈ b.sets.map (·.key)
  first : ∀ j b, j < i → batches[j]? = some b → key ∉ b.sets.map (·.key)

/-- One key was set before another: by an earlier batch, or by the same one, whose plan has it
before the other. -/
def SetBefore (batches : List Batch) (key key' : Key) : Prop :=
  ∃ i j, FirstSet batches i key ∧ FirstSet batches j key' ∧
    (i < j ∨ i = j ∧ ∃ b, batches[i]? = some b ∧
      b.plannedKeys.idxOf key < b.plannedKeys.idxOf key')

namespace FirstSet

variable {batches : List Batch} {i j : Nat} {key : Key}

theorem unique (h : FirstSet batches i key) (h' : FirstSet batches j key) : i = j := by
  obtain ⟨b, hb, hkey⟩ := h.sets
  obtain ⟨b', hb', hkey'⟩ := h'.sets
  rcases Nat.lt_trichotomy i j with hlt | heq | hgt
  · exact absurd hkey (h'.first i b hlt hb)
  · exact heq
  · exact absurd hkey' (h.first j b' hgt hb')

theorem lt_length (h : FirstSet batches i key) : i < batches.length := by
  obtain ⟨b, hb, -⟩ := h.sets
  exact (List.getElem?_eq_some_iff.1 hb).1

theorem concat (h : FirstSet batches i key) (b : Batch) : FirstSet (batches ++ [b]) i key := by
  have hi := h.lt_length
  refine ⟨?_, fun j c hj hc => ?_⟩
  · rw [List.getElem?_append_left hi]
    exact h.sets
  · rw [List.getElem?_append_left (hj.trans hi)] at hc
    exact h.first j c hj hc

/-- A key that was not set yet is set by the next batch. -/
theorem of_new {b : Batch} (hb : key ∈ b.sets.map (·.key))
    (hnew : ∀ c ∈ batches, key ∉ c.sets.map (·.key)) :
    FirstSet (batches ++ [b]) batches.length key := by
  refine ⟨⟨b, List.getElem?_concat_length, hb⟩, fun j c hj hc => ?_⟩
  rw [List.getElem?_append_left hj] at hc
  exact hnew c (List.mem_of_getElem? hc)

end FirstSet

theorem exists_firstSet {batches : List Batch} {key : Key} :
    (∃ i, FirstSet batches i key) ↔ ∃ b ∈ batches, key ∈ b.sets.map (·.key) := by
  constructor
  · rintro ⟨i, ⟨b, hb, hkey⟩, -⟩
    exact ⟨b, List.mem_of_getElem? hb, hkey⟩
  · intro h
    induction batches using List.reverseRecOn with
    | nil => simp at h
    | append_singleton batches b ih =>
      by_cases hold : ∃ c ∈ batches, key ∈ c.sets.map (·.key)
      · obtain ⟨i, hi⟩ := ih hold
        exact ⟨i, hi.concat b⟩
      · obtain ⟨c, hc, hkey⟩ := h
        rcases List.mem_append.1 hc with hc | hc
        · exact absurd ⟨c, hc, hkey⟩ hold
        · rw [List.mem_singleton.1 hc] at hkey
          exact ⟨batches.length, .of_new hkey fun c hc hset => hold ⟨c, hc, hset⟩⟩

namespace SetBefore

variable {batches : List Batch} {key key' : Key}

theorem concat (h : SetBefore batches key key') (b : Batch) :
    SetBefore (batches ++ [b]) key key' := by
  obtain ⟨i, j, hi, hj, horder⟩ := h
  refine ⟨i, j, hi.concat b, hj.concat b, horder.imp_right fun ⟨hij, c, hc, hplan⟩ => ?_⟩
  exact ⟨hij, c, by rwa [List.getElem?_append_left hi.lt_length], hplan⟩

theorem asymm (h : SetBefore batches key key') : ¬ SetBefore batches key' key := by
  obtain ⟨i, j, hi, hj, horder⟩ := h
  rintro ⟨j', i', hj', hi', horder'⟩
  obtain rfl := hi.unique hi'
  obtain rfl := hj.unique hj'
  rcases horder with hlt | ⟨rfl, b, hb, hplan⟩
  · omega
  · rcases horder' with hlt | ⟨-, b', hb', hplan'⟩
    · exact Nat.lt_irrefl _ hlt
    · obtain rfl := Option.some.inj (hb.symm.trans hb')
      omega

theorem irrefl : ¬ SetBefore batches key key := fun h => h.asymm h

end SetBefore

/-- Of the keys that were not set yet, a batch sets them in the order of its plan. -/
theorem pairwise_setBefore {batches : List Batch} {b : Batch} {keys : List Key}
    (hkeys : keys.Sublist b.plannedKeys)
    (hnew : ∀ key ∈ keys, ∀ c ∈ batches, key ∉ c.sets.map (·.key)) :
    keys.Pairwise (SetBefore (batches ++ [b])) := by
  have hfirst : ∀ key ∈ keys, FirstSet (batches ++ [b]) batches.length key := fun key hkey =>
    .of_new (Batch.mem_plannedKeys.1 (hkeys.subset hkey)) (hnew key hkey)
  have hplan : b.plannedKeys.Pairwise fun key key' =>
      b.plannedKeys.idxOf key < b.plannedKeys.idxOf key' := by
    rw [List.pairwise_iff_getElem]
    intro i j hi hj hij
    have hnodup : b.plannedKeys.Nodup := Plan.nodup_keys_sets b.changes
    rwa [hnodup.idxOf_getElem, hnodup.idxOf_getElem]
  refine (hplan.sublist hkeys).imp_of_mem fun hkey hkey' hlt => ?_
  exact ⟨_, _, hfirst _ hkey, hfirst _ hkey',
    Or.inr ⟨rfl, b, List.getElem?_concat_length, hlt⟩⟩

/-! ## A store that was used -/

namespace Listing

theorem ids_numbered (lastId : Nat) (keys : List Key) : (numbered lastId keys).map (·.1) =
    (List.range' (lastId + 1) keys.length).map Int.ofNat := by
  induction keys generalizing lastId with
  | nil => rfl
  | cons key keys ih =>
    rw [numbered, List.map_cons, ih, List.length_cons, List.range'_succ, List.map_cons]
    rfl

end Listing

namespace Memory

variable {m : Memory} {batches : List Batch}

/-- Rows are kept under the keys that their columns give, their ids are the numbers up to the last one
that was given, and they stand in the order in which batches first set their keys. -/
structure InOrderOf (batches : List Batch) (m : Memory) : Prop where
  keyed : m.Keyed
  ids : m.rows.map (·.id) = (List.range' 1 m.lastId).map Int.ofNat
  keys : ∀ key, key ∈ m.keys ↔ ∃ b ∈ batches, key ∈ b.sets.map (·.key)
  order : m.keys.Pairwise (SetBefore batches)

theorem inOrderOf_empty : InOrderOf [] .empty where
  keyed := keyed_empty
  ids := rfl
  keys key := by simp [Memory.keys, empty]
  order := .nil

theorem ids_commit (hids : m.rows.map (·.id) = (List.range' 1 m.lastId).map Int.ofNat)
    (now : Int) (indexer : String) (b : Batch) :
    (m.commit now indexer b).2.rows.map (·.id) =
      (List.range' 1 (m.commit now indexer b).2.lastId).map Int.ofNat := by
  obtain ⟨hindex, hlast⟩ := index_commit m now indexer b
  have hmap (m : Memory) : m.rows.map (·.id) = (listing.index m).map (·.1) := by
    rw [Listing.index, List.map_map]
    rfl
  rw [hmap, hindex, List.map_append, ← hmap, hids, Listing.ids_numbered, hlast,
    ← List.range'_append_1, List.map_append, List.length_map, Nat.add_comm 1]

/-- A batch puts the keys that it is the first to set after all others. -/
theorem InOrderOf.commit (h : InOrderOf batches m) (now : Int) (indexer : String) (b : Batch) :
    InOrderOf (batches ++ [b]) (m.commit now indexer b).2 where
  keyed := h.keyed.commit now indexer b
  ids := ids_commit h.ids now indexer b
  keys key := by
    rw [mem_keys_commit, h.keys]
    simp [or_and_right, exists_or]
  order := by
    have hnew : ∀ key ∈ (m.unmatched (Plan.ofChanges b.changes).sets).map (·.key),
        ∀ c ∈ batches, key ∉ c.sets.map (·.key) := by
      intro key hkey c hc hset
      obtain ⟨d, hd, rfl⟩ := List.mem_map.1 hkey
      exact isNone_row?_iff_keys.1 (List.mem_filter.1 hd).2 ((h.keys d.key).2 ⟨c, hc, hset⟩)
    have hplanned : ((m.unmatched (Plan.ofChanges b.changes).sets).map (·.key)).Sublist
        b.plannedKeys := List.filter_sublist.map _
    rw [keys_commit, List.pairwise_append]
    refine ⟨h.order.imp fun hbefore => hbefore.concat b, pairwise_setBefore hplanned hnew, ?_⟩
    intro key hold key' hkey'
    obtain ⟨i, hi⟩ := exists_firstSet.2 ((h.keys key).1 hold)
    exact ⟨i, batches.length, hi.concat b,
      .of_new (Batch.mem_plannedKeys.1 (hplanned.subset hkey')) (hnew key' hkey'),
      Or.inl hi.lt_length⟩

/-- Only the table counts, and the last id. -/
theorem InOrderOf.of_table_eq (h : InOrderOf batches m) {m' : Memory} (htable : m'.table = m.table)
    (hlast : m'.lastId = m.lastId) : InOrderOf batches m' := by
  have hkeys : m'.keys = m.keys := congrArg (List.map Prod.fst) htable
  have hrows : m'.rows = m.rows := congrArg (List.map Prod.snd) htable
  refine ⟨?_, by rw [hrows, hlast, h.ids], by rw [hkeys]; exact h.keys, by rw [hkeys]; exact h.order⟩
  rw [Keyed, htable]
  exact h.keyed

theorem InOrderOf.perform (h : InOrderOf batches m) {a : Asked} (hclear : a.isClear = false) :
    InOrderOf (batches ++ a.batch?.toList) (a.perform m) := by
  have hsame : a.batch? = none → batches ++ a.batch?.toList = batches := fun hnone => by
    rw [hnone, Option.toList_none, List.append_nil]
  obtain ⟨time, request⟩ := a
  cases request with
  | rowsByField => rw [hsame rfl]; exact h
  | operation op =>
    cases op with
    | commit indexer b => exact h.commit time indexer b
    | clear => cases hclear
    | saveCursor | deleteCursor => rw [hsame rfl]; exact h.of_table_eq rfl rfl
    -- the others only read
    | _ => rw [hsame rfl]; exact h

theorem InOrderOf.id_lt_iff (h : InOrderOf batches m) {r r' : Row} (hr : r ∈ m.rows)
    (hr' : r' ∈ m.rows) : r.id < r'.id ↔ SetBefore batches r.key r'.key := by
  have hids : m.rows.Pairwise fun r r' => r.id < r'.id := by
    rw [← List.pairwise_map, h.ids, List.pairwise_map]
    exact (List.pairwise_lt_range' (s := 1)).imp Int.ofNat_lt.2
  have horder : m.rows.Pairwise fun r r' => SetBefore batches r.key r'.key := by
    rw [← List.pairwise_map, ← h.keyed.keys_eq]
    exact h.order
  -- of two rows the one that stands first is first in both respects
  have hboth : m.rows.Pairwise fun r r' =>
      (r.id < r'.id ↔ SetBefore batches r.key r'.key) ∧
      (r'.id < r.id ↔ SetBefore batches r'.key r.key) :=
    (hids.and horder).imp fun {r r'} hrr =>
      ⟨iff_of_true hrr.1 hrr.2, iff_of_false (Int.lt_asymm hrr.1) hrr.2.asymm⟩
  have hsymm : Std.Symm fun r r' : Row =>
      (r.id < r'.id ↔ SetBefore batches r.key r'.key) ∧
      (r'.id < r.id ↔ SetBefore batches r'.key r.key) := ⟨fun _ _ hrr => hrr.symm⟩
  exact (hboth.forall_of_forall
    (fun r _ => ⟨iff_of_false (Int.lt_irrefl _) SetBefore.irrefl,
      iff_of_false (Int.lt_irrefl _) SetBefore.irrefl⟩) hr hr').1

/-- How a store numbers its rows, after some batches. -/
structure Numbers (m : Memory) (batches : List Batch) : Prop where
  /-- each row is stored under the key that its name and its key columns give -/
  keyed : ∀ key r, (key, r) ∈ m.table → key = ⟨r.name, r.key1, r.key2⟩
  /-- so it is found under its own key -/
  row?_key : ∀ r ∈ m.rows, TableStore.row? r.key m = (.ok (some r), m)
  /-- and under no other -/
  key_of_row? : ∀ key r, TableStore.row? key m = (.ok (some r), m) → r ∈ m.rows ∧ r.key = key
  /-- the ids are the numbers from one to the last that was given, each once -/
  ids : m.rows.map (·.id) = (List.range' 1 m.lastId).map Int.ofNat
  /-- the keys that have rows are those that a batch was the first to set -/
  keys : ∀ key, (∃ r ∈ m.rows, r.key = key) ↔ ∃ i, FirstSet batches i key
  /-- ids are in the order in which keys were first set -/
  id_lt_iff : ∀ r ∈ m.rows, ∀ r' ∈ m.rows, r.id < r'.id ↔ SetBefore batches r.key r'.key

end Memory

namespace History

/-- What was done before everything was cleared does not count. -/
theorem inOrderOf_store (h : History) : h.store.InOrderOf h.recent.batches :=
  store_induction (P := fun m h => m.InOrderOf h.batches) Memory.inOrderOf_empty
    (fun m h a hm hclear => by rw [batches_concat]; exact hm.perform hclear) h

/-- **Rows are numbered as their keys are first set.**  Whatever a store was asked, each row is kept
under the key that its own columns give, and is found under it; the ids are the numbers from one to
the last that was given; and of two rows the one has the smaller id whose key was set first since
everything was last cleared: by an earlier batch, or earlier in the plan of the same one. -/
theorem numbered_store (h : History) : h.store.Numbers h.recent.batches := by
  have hstore := h.inOrderOf_store
  have hkeyed : h.store.Keyed := hstore.keyed
  have hdistinct : h.store.keys.Nodup := (records_store h).distinct
  refine ⟨fun key r hr => (hkeyed _ hr).symm, fun r hr => ?_, fun key r hrow => ?_, hstore.ids,
    fun key => ?_, fun r hr r' hr' => hstore.id_lt_iff hr hr'⟩
  · obtain ⟨e, he, rfl⟩ := List.mem_map.1 hr
    have hfound : h.store.row? e.2.key = some e.2 := by
      rw [hkeyed e he]
      exact Memory.row?_of_mem_table hdistinct he
    exact congrArg (fun found => (Except.ok found, h.store)) hfound
  · have hfound : h.store.row? key = some r := Except.ok.inj (congrArg Prod.fst hrow)
    exact ⟨List.mem_map_of_mem (Memory.mem_table_of_row? hfound), hkeyed.key_of_row? hfound⟩
  · rw [exists_firstSet, ← hstore.keys, hkeyed.keys_eq, List.mem_map]

end History

end LedgerIndex
