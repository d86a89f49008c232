import LedgerIndex.Proofs.Table.Plan
import LedgerIndex.Store.Memory
import Mathlib.Data.List.Find

/-!
# What a commit makes of a row

A commit applies the planned sets and then the planned removals, each guarded by the checkpoint of
the row it meets.  Since a plan has at most one set and one removal for each key, the row of a key
after the commit depends on the row before and on two changes of the page: the latest to the key,
and the latest set of it (`row?_commit`).
-/

namespace LedgerIndex

namespace Row

@[simp] theorem key_create (id : Int) (c : Change) : (create id c).key = c.key := rfl

@[simp] theorem key_set (r : Row) (c : Change) : (r.set c).key = r.key := by
  rw [set]; split <;> rfl

@[simp] theorem key_remove (r : Row) (c : Change) : (r.remove c).key = r.key := by
  rw [remove]; split <;> rfl

@[simp] theorem id_set (r : Row) (c : Change) : (r.set c).id = r.id := by
  rw [set]; split <;> rfl

@[simp] theorem id_remove (r : Row) (c : Change) : (r.remove c).id = r.id := by
  rw [remove]; split <;> rfl

end Row

namespace Memory

variable {m : Memory} {key : Key}

/-! ## The table -/

/-- The keys that have a row, in the order of the rows. -/
def keys (m : Memory) : List Key := m.table.map (·.1)

theorem isNone_row?_iff_keys : (m.row? key).isNone ↔ key ∉ m.keys := by
  rw [row?, Option.isNone_map, Option.isNone_iff_eq_none, List.find?_eq_none, keys, List.mem_map]
  simp only [beq_iff_eq, not_exists, not_and]

theorem mem_table_of_row? {r : Row} (h : m.row? key = some r) : (key, r) ∈ m.table := by
  obtain ⟨e, he, rfl⟩ := Option.map_eq_some_iff.1 h
  have hk : e.1 = key := by simpa using List.find?_some he
  rw [← hk]
  exact List.mem_of_find?_eq_some he

/-- Among different keys, each row is found under its key. -/
theorem row?_of_mem_table (hkeys : m.keys.Nodup) {r : Row} (h : (key, r) ∈ m.table) :
    m.row? key = some r := by
  cases hrow : m.row? key with
  | none =>
    have hnot : key ∉ m.keys := isNone_row?_iff_keys.1 (by rw [hrow]; rfl)
    exact absurd (List.mem_map.2 ⟨_, h, rfl⟩) hnot
  | some found =>
    have hsame := List.inj_on_of_nodup_map hkeys (mem_table_of_row? hrow) h rfl
    exact congrArg (fun e => some e.2) hsame

theorem map_rows {α : Type} (f : Row → α) (m : Memory) :
    m.rows.map f = m.table.map fun e => f e.2 := List.map_map ..

theorem rows_editRow (m : Memory) (key : Key) (edit : Row → Row) :
    (m.editRow key edit).rows = m.table.map fun e => if e.1 = key then edit e.2 else e.2 := by
  rw [rows, editRow, List.map_map]
  rfl

/-! ## Single changes -/

theorem row?_editRow (m : Memory) (edit : Row → Row) (k key : Key) :
    (m.editRow k edit).row? key = if key = k then (m.row? key).map edit else m.row? key := by
  simp only [row?, editRow, List.find?_map, Function.comp_def]
  cases h : m.table.find? (·.1 == key) with
  | none => simp
  | some e =>
    have he : e.1 = key := by simpa using List.find?_some h
    rw [Option.map_some, Option.map_some, Option.map_some, he]
    split <;> rfl

/-- A set makes the row of its key if there is none, and leaves other rows alone. -/
theorem row?_applySet (m : Memory) (c : Change) (key : Key) :
    (m.applySet c).row? key =
      if key = c.key then
        some ((m.row? key).elim (.create (m.lastId + 1) c) (·.set c))
      else m.row? key := by
  rw [applySet]
  split
  · rename_i r hr
    rw [row?_editRow]
    split
    · rename_i hk
      rw [hk, hr]; rfl
    · rfl
  · rename_i hnone
    rw [row?, Option.map_eq_none_iff] at hnone
    simp only [row?, List.find?_append, List.find?_singleton]
    by_cases hk : key = c.key
    · simp [hk, hnone]
    · simp [hk, Ne.symm hk]

theorem row?_applyRemove (m : Memory) (c : Change) (key : Key) :
    (m.applyRemove c).row? key =
      if key = c.key then (m.row? key).map (·.remove c) else m.row? key :=
  row?_editRow ..

/-! ## Lists of changes -/

theorem row?_applySets_of_ne {sets : List Change} (h : ∀ c ∈ sets, c.key ≠ key) :
    (sets.foldl applySet m).row? key = m.row? key := by
  induction sets generalizing m with
  | nil => rfl
  | cons c sets ih =>
    rw [List.foldl_cons, ih fun d hd => h d (List.mem_cons_of_mem _ hd), row?_applySet,
      if_neg (Ne.symm (h c (List.mem_cons_self ..)))]

/-- Where keys differ, the row of a key is what the set of that key alone makes of it. -/
theorem row?_applySets {sets : List Change} (hkeys : (sets.map (·.key)).Nodup) {c : Change}
    (hc : c ∈ sets) : ∃ id, (sets.foldl applySet m).row? c.key =
      some ((m.row? c.key).elim (.create id c) (·.set c)) := by
  induction sets generalizing m with
  | nil => cases hc
  | cons d sets ih =>
    rw [List.map_cons, List.nodup_cons] at hkeys
    rw [List.foldl_cons]
    rcases List.mem_cons.1 hc with rfl | hc
    · refine ⟨m.lastId + 1, ?_⟩
      rw [row?_applySets_of_ne (key_ne_of_not_mem hkeys.1), row?_applySet, if_pos rfl]
    · have hne : c.key ≠ d.key := key_ne_of_not_mem hkeys.1 c hc
      obtain ⟨id, hid⟩ := ih hkeys.2 hc (m := m.applySet d)
      refine ⟨id, ?_⟩
      rw [hid, row?_applySet, if_neg hne]

theorem row?_applyRemoves_of_ne {removes : List Change} (h : ∀ c ∈ removes, c.key ≠ key) :
    (removes.foldl applyRemove m).row? key = m.row? key := by
  induction removes generalizing m with
  | nil => rfl
  | cons c removes ih =>
    rw [List.foldl_cons, ih fun d hd => h d (List.mem_cons_of_mem _ hd), row?_applyRemove,
      if_neg (Ne.symm (h c (List.mem_cons_self ..)))]

theorem row?_applyRemoves {removes : List Change} (hkeys : (removes.map (·.key)).Nodup)
    {c : Change} (hc : c ∈ removes) :
    (removes.foldl applyRemove m).row? c.key = (m.row? c.key).map (·.remove c) := by
  induction removes generalizing m with
  | nil => cases hc
  | cons d removes ih =>
    rw [List.map_cons, List.nodup_cons] at hkeys
    rw [List.foldl_cons]
    rcases List.mem_cons.1 hc with rfl | hc
    · rw [row?_applyRemoves_of_ne (key_ne_of_not_mem hkeys.1), row?_applyRemove, if_pos rfl]
    · have hne : c.key ≠ d.key := key_ne_of_not_mem hkeys.1 c hc
      rw [ih hkeys.2 hc, row?_applyRemove, if_neg hne]

/-! ## Plans -/

/-- A row, or none, after the latest set of its key, if the page has one. -/
def afterSet (id : Int) (row : Option Row) : Option Change → Option Row
  | none => row
  | some s => some (row.elim (.create id s) (·.set s))

/-- A row, or none, after the latest change to its key, if that is a removal. -/
def afterRemove (row : Option Row) : Option Change → Option Row
  | none => row
  | some top => if top.isRemove then row.map (·.remove top) else row

/-- The value that a row is left with when a page removes it: that of the latest set, if the row is
older than that. -/
def valueLeft (r : Row) : Option Change → Json
  | none => r.value
  | some s => if r.checkpoint < s.checkpoint then s.value.getD .null else r.value

/-- A set followed by a removal that is not older than it. -/
theorem remove_set {r : Row} {s top : Change} (hle : s.checkpoint ≤ top.checkpoint) :
    (r.set s).remove top =
      if r.checkpoint ≤ top.checkpoint then
        { r with
          value := valueLeft r (some s), checkpoint := top.checkpoint, digest := top.digest
          isRemoved := true }
      else r := by
  by_cases hlt : r.checkpoint < s.checkpoint
  · have hrt : r.checkpoint ≤ top.checkpoint := UInt64.le_trans (UInt64.le_of_lt hlt) hle
    simp [Row.set, Row.remove, valueLeft, hlt, hle, hrt]
  · simp [Row.set, Row.remove, valueLeft, hlt]

theorem row?_applySets_ofChanges (m : Memory) (changes : List Change) (key : Key) :
    ∃ id, ((Plan.ofChanges changes).sets.foldl applySet m).row? key =
      afterSet id (m.row? key) (latestSetTo? key changes) := by
  cases hs : latestSetTo? key changes with
  | none =>
    refine ⟨0, row?_applySets_of_ne fun c hc hk => ?_⟩
    rw [Plan.mem_sets_iff, hk, hs] at hc
    cases hc
  | some s =>
    have hk : s.key = key := (mem_of_latestSetTo? hs).2.1
    have hmem : s ∈ (Plan.ofChanges changes).sets := Plan.mem_sets_iff.2 (by rwa [hk])
    rw [← hk]
    exact row?_applySets (Plan.nodup_keys_sets changes) hmem

theorem row?_applyRemoves_ofChanges (m : Memory) (changes : List Change) (key : Key) :
    ((Plan.ofChanges changes).removes.foldl applyRemove m).row? key =
      afterRemove (m.row? key) (latestTo? key changes) := by
  have hnot (h : ∀ c, latestTo? key changes = some c → c.isRemove = false) :
      ((Plan.ofChanges changes).removes.foldl applyRemove m).row? key = m.row? key := by
    refine row?_applyRemoves_of_ne fun c hc hk => ?_
    rw [Plan.mem_removes_iff, hk] at hc
    rw [h c hc.2] at hc
    exact absurd hc.1 (by simp)
  cases ht : latestTo? key changes with
  | none => exact hnot fun c hc => by rw [ht] at hc; cases hc
  | some top =>
    rw [afterRemove]
    split
    · rename_i hrem
      have hk : top.key = key := (mem_of_latestTo? ht).2
      have hmem : top ∈ (Plan.ofChanges changes).removes :=
        Plan.mem_removes_iff.2 ⟨hrem, by rwa [hk]⟩
      rw [← hk]
      exact row?_applyRemoves (Plan.nodup_keys_removes changes) hmem
    · rename_i hrem
      refine hnot fun c hc => ?_
      rw [ht] at hc
      cases hc
      simpa using hrem

/-- A plan acts on the row of a key through the latest set of it and the latest change to it. -/
theorem row?_applyPlan (m : Memory) (changes : List Change) (key : Key) :
    ∃ id, (m.applyPlan (.ofChanges changes)).row? key =
      afterRemove (afterSet id (m.row? key) (latestSetTo? key changes))
        (latestTo? key changes) := by
  obtain ⟨id, hid⟩ := row?_applySets_ofChanges m changes key
  exact ⟨id, by rw [applyPlan, row?_applyRemoves_ofChanges, hid]⟩

/-! ## Commits -/

theorem row?_commit_eq_applyPlan (m : Memory) (now : Int) (indexer : String) (b : Batch) :
    (m.commit now indexer b).2.row? key =
      (({ m with calls := m.calls ++ b.calls, events := m.events ++ b.events } : Memory).applyPlan
        (.ofChanges b.changes)).row? key := by
  rw [commit]
  cases b.cursor <;> rfl

/-- A commit acts on the row of a key as its plan does. -/
theorem exists_row?_commit (m : Memory) (now : Int) (indexer : String) (b : Batch) (key : Key) :
    ∃ id, (m.commit now indexer b).2.row? key =
      afterRemove (afterSet id (m.row? key) (latestSetTo? key b.changes))
        (latestTo? key b.changes) := by
  rw [row?_commit_eq_applyPlan]
  exact row?_applyPlan ..

/-- What a page makes of the row of a key is decided by the latest change to the key and by the
latest set of it.  Without a change the row stays as it is, or absent.  Where there was no row, one
is made if the page has a set: with the value of the set, and removed if the latest change is a
removal.  A row that was there gives way to a set of a higher checkpoint, and to a removal of a
checkpoint not lower.  Its id stays, and so do the columns of its key. -/
theorem row?_commit (m : Memory) (now : Int) (indexer : String) (b : Batch) (key : Key) :
    match latestTo? key b.changes, m.row? key, (m.commit now indexer b).2.row? key with
    | none, before, after => after = before
    | some top, none, after =>
      (match latestSetTo? key b.changes with
        | none => after = none
        | some s => ∃ id value, s.value = some value ∧
          after = some ⟨id, key.name, key.key1, key.key2, value, top.checkpoint, top.digest,
            top.isRemove⟩)
    | some top, some r, after =>
      (match top.value with
        | some value =>
          after = some (if r.checkpoint < top.checkpoint then
            ⟨r.id, r.name, r.key1, r.key2, value, top.checkpoint, top.digest, false⟩ else r)
        | none =>
          after = some (if r.checkpoint ≤ top.checkpoint then
            ⟨r.id, r.name, r.key1, r.key2, valueLeft r (latestSetTo? key b.changes),
              top.checkpoint, top.digest, true⟩
            else r)) := by
  obtain ⟨id, hid⟩ := exists_row?_commit m now indexer b key
  rw [hid]
  cases ht : latestTo? key b.changes with
  | none =>
    have hs : latestSetTo? key b.changes = none := by
      rw [latestSetTo?, latest?_eq_none.1 ht]; rfl
    rw [hs]
    rfl
  | some top =>
    have htk : top.key = key := (mem_of_latestTo? ht).2
    cases htv : top.value with
    | some value =>
      -- the latest change is a set, hence also the latest set, and no removal is planned
      have hset : top.isRemove = false := by simp [Change.isRemove, htv]
      rw [latestSetTo?_of_latestTo? ht hset]
      cases hr : m.row? key with
      | none => exact ⟨id, value, htv, by simp [afterSet, afterRemove, Row.create, htv, htk, hset]⟩
      | some r => simp [afterSet, afterRemove, hset, Row.set, htv]
    | none =>
      have hrem : top.isRemove = true := by simp [Change.isRemove, htv]
      cases hs : latestSetTo? key b.changes with
      | none =>
        cases hr : m.row? key with
        | none => simp [afterSet, afterRemove]
        | some r => simp [afterSet, afterRemove, hrem, Row.remove, valueLeft, htv]
      | some s =>
        -- the set is applied first, and the removal is not below what the set writes
        obtain ⟨-, hsk, hsv⟩ := mem_of_latestSetTo? hs
        have hle : s.checkpoint ≤ top.checkpoint := checkpoint_latestSetTo?_le hs ht
        obtain ⟨value, hv⟩ : ∃ value, s.value = some value :=
          Option.isSome_iff_exists.1 (by simpa [Change.isRemove] using hsv)
        cases hr : m.row? key with
        | none =>
          refine ⟨id, value, hv, ?_⟩
          simp [afterSet, afterRemove, hrem, Row.create, Row.remove, hle, hv, hsk]
        | some r => simp [afterSet, afterRemove, hrem, remove_set hle, htv]

/-! ## The columns of keys -/

/-- Each row has the columns of the key under which it is found. -/
def Keyed (m : Memory) : Prop := ∀ e ∈ m.table, e.2.key = e.1

theorem keyed_empty : empty.Keyed := fun _ he => by cases he

namespace Keyed

theorem key_of_row? (h : m.Keyed) {r : Row} (hr : m.row? key = some r) : r.key = key :=
  h _ (mem_table_of_row? hr)

/-- What is made of rows and their keys can be made of the rows alone. -/
theorem map_table {α : Type} (h : m.Keyed) (f : Key → Row → α) :
    (m.table.map fun e => f e.1 e.2) = m.rows.map fun r => f r.key r := by
  rw [rows, List.map_map]
  exact List.map_congr_left fun e he => by rw [Function.comp_apply, h e he]

theorem keys_eq (h : m.Keyed) : m.keys = m.rows.map (·.key) := h.map_table fun key _ => key

theorem row?_eq (h : m.Keyed) (key : Key) : m.row? key = m.rows.find? (·.key == key) := by
  rw [row?, rows, List.find?_map]
  exact congrArg _ (List.find?_congr fun e he => by rw [Function.comp_apply, h e he])

theorem editRow (h : m.Keyed) (key : Key) {edit : Row → Row} (hedit : ∀ r, (edit r).key = r.key) :
    (m.editRow key edit).Keyed := by
  intro e he
  obtain ⟨old, hold, rfl⟩ := List.mem_map.1 he
  simp only
  split
  · rw [hedit, h old hold]
  · exact h old hold

/-- A row is made with the columns of the key under which it is put. -/
theorem applySet (h : m.Keyed) (c : Change) : (m.applySet c).Keyed := by
  rw [Memory.applySet]
  split
  · exact h.editRow c.key fun r => r.key_set c
  · intro e he
    rcases List.mem_append.1 he with hold | hnew
    · exact h e hold
    · rw [List.mem_singleton.1 hnew, Row.key_create]

theorem applyRemove (h : m.Keyed) (c : Change) : (m.applyRemove c).Keyed :=
  h.editRow c.key fun r => r.key_remove c

theorem applyPlan (h : m.Keyed) (p : Plan) : (m.applyPlan p).Keyed :=
  List.foldlRecOn p.removes _ (List.foldlRecOn p.sets _ h fun _ h c _ => h.applySet c)
    fun _ h c _ => h.applyRemove c

theorem commit (h : m.Keyed) (now : Int) (indexer : String) (b : Batch) :
    (m.commit now indexer b).2.Keyed := by
  have hlogged : ({ m with calls := m.calls ++ b.calls, events := m.events ++ b.events } :
      Memory).Keyed := h
  rw [Memory.commit]
  cases b.cursor <;> exact hlogged.applyPlan (.ofChanges b.changes)

end Keyed

end Memory

end LedgerIndex
