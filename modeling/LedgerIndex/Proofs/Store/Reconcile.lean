import LedgerIndex.Proofs.Store.Rows

/-!
# The table after the sets of a plan

The sets of a plan are about different keys, so they can be applied one by one or all at once: each
row is overwritten by the set of its key, if there is one, and the sets without a row make new rows
in their order.  Applied at once is how a relational store does it.
-/

namespace LedgerIndex

/-- A row after the set of the key under which it is found, if there is one. -/
def Row.overwritten (sets : List Change) (key : Key) (r : Row) : Row :=
  match sets.find? fun c => c.key = key with
  | some c => r.set c
  | none => r

namespace Row

variable {key : Key}

@[simp] theorem overwritten_nil (key : Key) (r : Row) : r.overwritten [] key = r := rfl

theorem overwritten_cons_of_ne {c : Change} (h : c.key ≠ key) (sets : List Change) (r : Row) :
    r.overwritten (c :: sets) key = r.overwritten sets key := by
  simp [overwritten, h]

theorem overwritten_of_not_mem {sets : List Change} (h : key ∉ sets.map (·.key)) (r : Row) :
    r.overwritten sets key = r := by
  have hnone : (sets.find? fun c => c.key = key) = none := by
    refine List.find?_eq_none.2 fun c hc => ?_
    simpa using fun hk => h (List.mem_map.2 ⟨c, hc, hk⟩)
  rw [overwritten, hnone]

/-- The set of the row's key, if it is the first, is the one that counts. -/
theorem overwritten_cons_of_eq {c : Change} (h : c.key = key) (sets : List Change) (r : Row) :
    r.overwritten (c :: sets) key = r.set c := by
  simp [overwritten, h]

/-- The rows that sets make one after the other, each under the key of its set. -/
def created (lastId : Nat) : List Change → List (Key × Row)
  | [] => []
  | c :: cs => (c.key, .create (lastId + 1) c) :: created (lastId + 1) cs

theorem exists_of_mem_created {lastId : Nat} {sets : List Change} {e : Key × Row}
    (h : e ∈ created lastId sets) : ∃ c ∈ sets, ∃ id, e = (c.key, .create id c) := by
  induction sets generalizing lastId with
  | nil => cases h
  | cons c sets ih =>
    rcases List.mem_cons.1 h with rfl | h
    · exact ⟨c, by simp, _, rfl⟩
    · obtain ⟨d, hd, hr⟩ := ih h
      exact ⟨d, by simp [hd], hr⟩

end Row

namespace Memory

/-- The sets whose key has no row. -/
def unmatched (m : Memory) (sets : List Change) : List Change :=
  sets.filter fun c => (m.row? c.key).isNone

/-- The store after some sets, applied at once. -/
def applySets (m : Memory) (sets : List Change) : Memory :=
  { m with
    table := (m.table.map fun e => (e.1, e.2.overwritten sets e.1)) ++
      Row.created m.lastId (m.unmatched sets)
    lastId := m.lastId + (m.unmatched sets).length }

theorem rows_applySets (m : Memory) (sets : List Change) :
    (m.applySets sets).rows = (m.table.map fun e => e.2.overwritten sets e.1) ++
      (Row.created m.lastId (m.unmatched sets)).map (·.2) := by
  rw [rows, applySets, List.map_append, List.map_map]
  rfl

theorem applySets_nil (m : Memory) : m.applySets [] = m := by
  simp [applySets, unmatched, Row.created]

/-- A set of a key that has a row, before sets of other keys. -/
theorem applySets_editRow {m : Memory} {c : Change} {sets : List Change}
    (hrow : ¬ (m.row? c.key).isNone) (hnot : c.key ∉ sets.map (·.key)) :
    (m.editRow c.key (·.set c)).applySets sets = m.applySets (c :: sets) := by
  have htable : ((m.editRow c.key (·.set c)).table.map fun e => (e.1, e.2.overwritten sets e.1)) =
      m.table.map fun e => (e.1, e.2.overwritten (c :: sets) e.1) := by
    rw [editRow, List.map_map]
    refine List.map_congr_left fun e _ => Prod.ext rfl ?_
    by_cases hk : e.1 = c.key
    · have hnot' : e.1 ∉ sets.map (·.key) := by rwa [hk]
      rw [Function.comp_apply, if_pos hk, Row.overwritten_of_not_mem hnot',
        Row.overwritten_cons_of_eq hk.symm]
    · rw [Function.comp_apply, if_neg hk, Row.overwritten_cons_of_ne (Ne.symm hk)]
  have hunmatched : (m.editRow c.key (·.set c)).unmatched sets = m.unmatched (c :: sets) := by
    rw [unmatched, unmatched, List.filter_cons_of_neg (by simpa using hrow)]
    refine List.filter_congr fun d _ => ?_
    rw [row?_editRow]
    split <;> simp
  rw [applySets, applySets, htable, hunmatched]
  rfl

/-- A set of a key that has no row, before sets of other keys. -/
theorem applySets_append {m : Memory} {c : Change} {sets : List Change}
    (hrow : (m.row? c.key).isNone) (hnot : c.key ∉ sets.map (·.key)) :
    ({ m with
        table := m.table ++ [(c.key, .create (m.lastId + 1) c)], lastId := m.lastId + 1 } :
      Memory).applySets sets = m.applySets (c :: sets) := by
  have hold : (m.table.map fun e => (e.1, e.2.overwritten sets e.1)) =
      m.table.map fun e => (e.1, e.2.overwritten (c :: sets) e.1) := by
    refine List.map_congr_left fun e he => Prod.ext rfl ?_
    have hne : e.1 ≠ c.key := fun hk =>
      isNone_row?_iff_keys.1 hrow (List.mem_map.2 ⟨e, he, hk⟩)
    exact (Row.overwritten_cons_of_ne (Ne.symm hne) sets e.2).symm
  have hnew : (Row.create (m.lastId + 1) c).overwritten sets c.key = .create (m.lastId + 1) c :=
    Row.overwritten_of_not_mem hnot _
  have hunmatched : m.unmatched (c :: sets) = c :: m.unmatched sets :=
    List.filter_cons_of_pos hrow
  have hsame : ({ m with
        table := m.table ++ [(c.key, .create (m.lastId + 1) c)], lastId := m.lastId + 1 } :
      Memory).unmatched sets = m.unmatched sets := by
    refine List.filter_congr fun d hd => ?_
    have hne : c.key ≠ d.key := fun hk => hnot (List.mem_map.2 ⟨d, hd, hk.symm⟩)
    simp [row?, List.find?_append, hne]
  simp only [applySets, hsame, hunmatched, hold, hnew, List.map_append, List.map_singleton,
    Row.created, List.append_assoc, List.length_cons, Memory.mk.injEq, true_and, and_true]
  exact ⟨by simp, by omega⟩

/-- Sets of different keys can be applied at once. -/
theorem foldl_applySet {m : Memory} {sets : List Change} (hkeys : (sets.map (·.key)).Nodup) :
    sets.foldl applySet m = m.applySets sets := by
  induction sets generalizing m with
  | nil => exact (applySets_nil m).symm
  | cons c sets ih =>
    rw [List.map_cons, List.nodup_cons] at hkeys
    rw [List.foldl_cons, ih hkeys.2, applySet]
    split
    · rename_i r hr
      exact applySets_editRow (by simp [hr]) hkeys.1
    · rename_i hnone
      exact applySets_append (by simp [hnone]) hkeys.1

/-! ## What changes leave alone -/

/-- Neither a set nor a removal of a row touches what is read of it and of its key. -/
structure Lasting {α : Type} (read : Key × Row → α) : Prop where
  set (key : Key) (r : Row) (c : Change) : read (key, r.set c) = read (key, r)
  remove (key : Key) (r : Row) (c : Change) : read (key, r.remove c) = read (key, r)

namespace Lasting

variable {α : Type} {read : Key × Row → α}

theorem map_applySets (h : Lasting read) (m : Memory) (sets : List Change) :
    (m.applySets sets).table.map read =
      m.table.map read ++ (Row.created m.lastId (m.unmatched sets)).map read := by
  rw [applySets, List.map_append, List.map_map]
  refine congrArg (· ++ _) (List.map_congr_left fun e _ => ?_)
  rw [Function.comp_apply, Row.overwritten]
  split
  · exact h.set ..
  · rfl

theorem map_applyRemove (h : Lasting read) (m : Memory) (c : Change) :
    (m.applyRemove c).table.map read = m.table.map read := by
  rw [applyRemove, editRow, List.map_map]
  refine List.map_congr_left fun e _ => ?_
  rw [Function.comp_apply]
  split
  · exact h.remove ..
  · rfl

theorem map_applyRemoves (h : Lasting read) (m : Memory) (removes : List Change) :
    (removes.foldl applyRemove m).table.map read = m.table.map read := by
  induction removes generalizing m with
  | nil => rfl
  | cons c removes ih => rw [List.foldl_cons, ih, h.map_applyRemove]

end Lasting

theorem lasting_key : Lasting Prod.fst := ⟨fun _ _ _ => rfl, fun _ _ _ => rfl⟩

/-- The id of a row stays, and so do the columns of its key. -/
theorem lasting_row : Lasting fun e => (e.2.id, e.2.key) := ⟨by simp, by simp⟩

/-! ## Ids -/

/-- Rows are numbered from 1 on in the order in which they were made. -/
def Numbered (m : Memory) : Prop :=
  m.rows.map (·.id) = (List.range m.lastId).map fun i => ((i + 1 : Nat) : Int)

theorem numbered_empty : empty.Numbered := rfl

theorem Numbered.length_rows {m : Memory} (h : m.Numbered) : m.rows.length = m.lastId := by
  simpa [Numbered] using congrArg List.length h

theorem Numbered.id_pos {m : Memory} (h : m.Numbered) {r : Row} (hr : r ∈ m.rows) : 0 < r.id := by
  have hmem : r.id ∈ m.rows.map (·.id) := List.mem_map_of_mem hr
  rw [show m.rows.map (·.id) = _ from h] at hmem
  obtain ⟨i, -, hi⟩ := List.mem_map.1 hmem
  omega

theorem ids_created (lastId : Nat) (sets : List Change) :
    (Row.created lastId sets).map (·.2.id) =
      (List.range sets.length).map fun i => ((lastId + i + 1 : Nat) : Int) := by
  induction sets generalizing lastId with
  | nil => rfl
  | cons c sets ih =>
    rw [Row.created, List.map_cons, ih, List.length_cons, List.range_succ_eq_map, List.map_cons,
      List.map_map]
    refine congrArg₂ _ rfl (List.map_congr_left fun i _ => ?_)
    rw [Function.comp_apply, show lastId + 1 + i + 1 = lastId + i.succ + 1 by omega]

theorem lasting_id : Lasting fun e => e.2.id := ⟨by simp, by simp⟩

theorem Numbered.applySets {m : Memory} (h : m.Numbered) (sets : List Change) :
    (m.applySets sets).Numbered := by
  rw [Numbered, map_rows] at h ⊢
  rw [lasting_id.map_applySets, h, ids_created, Memory.applySets, List.range_add, List.map_append,
    List.map_map]
  rfl

theorem Numbered.applyRemove {m : Memory} (h : m.Numbered) (c : Change) :
    (m.applyRemove c).Numbered := by
  rw [Numbered, map_rows] at h ⊢
  rw [lasting_id.map_applyRemove, h]
  rfl

end Memory

end LedgerIndex
