import LedgerIndex.Proofs.Store.Commits
import LedgerIndex.Proofs.Store.Rows
import Mathlib

/-!
# Replays

A batch that was taken in once can be taken in again, even after newer ones.  A store has absorbed a
change if applying it again does nothing: the rows of its key are past it, and if it is a set there
is a row.  A commit absorbs all that its plan holds (`absorbed_applyPlan`), newer changes leave what
was absorbed so (`Absorbed.commit`), and a plan that has been absorbed does nothing
(`applyPlan_of_absorbed`).
-/

namespace LedgerIndex

/-! ## Rows -/

namespace Row

/-- The row is past a change.  At the checkpoint of a removal it has to be that removal that the row
shows, since a removal is written at equal checkpoints too. -/
def IsPast (r : Row) (c : Change) : Prop :=
  c.checkpoint < r.checkpoint ∨
    (c.checkpoint = r.checkpoint ∧ (c.isRemove → r.digest = c.digest ∧ r.isRemoved))

variable {r : Row} {c d : Change}

theorem IsPast.le (h : r.IsPast c) : c.checkpoint ≤ r.checkpoint := by
  rcases h with hlt | ⟨heq, -⟩
  · exact UInt64.le_of_lt hlt
  · exact UInt64.le_of_eq heq

theorem isPast_of_le (hset : c.isRemove = false) (h : c.checkpoint ≤ r.checkpoint) :
    r.IsPast c := by
  rcases UInt64.lt_or_eq_of_le h with hlt | heq
  · exact Or.inl hlt
  · refine Or.inr ⟨heq, fun hrem => ?_⟩
    rw [hset] at hrem
    cases hrem

/-- A set that the row is past does nothing. -/
theorem IsPast.set_eq (h : r.IsPast c) : r.set c = r := by
  rw [set, if_neg (UInt64.not_lt.2 h.le)]

/-- A removal that the row is past does nothing. -/
theorem IsPast.remove_eq (h : r.IsPast c) (hrem : c.isRemove) : r.remove c = r := by
  rw [remove]
  split
  · rename_i hle
    rcases h with hlt | ⟨heq, hshown⟩
    · exact absurd hle (UInt64.not_le.2 hlt)
    · obtain ⟨hdigest, hremoved⟩ := hshown hrem
      rw [heq, ← hdigest, ← hremoved]
  · rfl

theorem isPast_set_self (r : Row) (hset : c.isRemove = false) : (r.set c).IsPast c := by
  apply isPast_of_le hset
  rw [set]
  split
  · exact UInt64.le_refl _
  · rename_i hlt
    exact UInt64.not_lt.1 hlt

theorem isPast_remove_self (r : Row) (c : Change) : (r.remove c).IsPast c := by
  rw [remove]
  split
  · exact Or.inr ⟨rfl, fun _ => ⟨rfl, rfl⟩⟩
  · rename_i hle
    exact Or.inl (UInt64.not_le.1 hle)

/-- A row that is past a change stays so, since a set only ever raises its checkpoint. -/
theorem IsPast.set (h : r.IsPast c) (d : Change) : (r.set d).IsPast c := by
  rw [Row.set]
  split
  · rename_i hlt
    exact Or.inl (UInt64.lt_of_le_of_lt h.le hlt)
  · exact h

/-- A removal can leave the checkpoint as it is and change what the row shows, so it has to be newer
than a removal that the row is past. -/
theorem IsPast.remove (h : r.IsPast c) (hnewer : c.isRemove → c.checkpoint < d.checkpoint) :
    (r.remove d).IsPast c := by
  rw [Row.remove]
  split
  · rename_i hle
    cases hc : c.isRemove with
    | false => exact isPast_of_le hc (UInt64.le_trans h.le hle)
    | true => exact Or.inl (hnewer hc)
  · exact h

end Row

namespace Plan

/-- All that a plan holds. -/
def changes (p : Plan) : List Change := p.sets ++ p.removes

/-- A plan for a page holds nothing but changes of the page. -/
theorem mem_of_mem_changes {page : List Change} {c : Change}
    (hc : c ∈ (ofChanges page).changes) : c ∈ page := by
  rcases List.mem_append.1 hc with hc | hc
  · exact (mem_of_latestSetTo? (mem_sets_iff.1 hc)).1
  · exact (mem_of_latestTo? (mem_removes_iff.1 hc).2).1

theorem isRemove_of_mem_sets {page : List Change} {c : Change} (hc : c ∈ (ofChanges page).sets) :
    c.isRemove = false :=
  (mem_of_latestSetTo? (mem_sets_iff.1 hc)).2.2

end Plan

namespace Memory

variable {m : Memory} {c d : Change}

/-! ## Rows after a change -/

/-- Each row after a set is an old one, which the set was applied to if it is under its key, or the
one that the set made because there was none. -/
theorem mem_table_applySet {key : Key} {r : Row} (h : (key, r) ∈ (m.applySet d).table) :
    (∃ old, (key, old) ∈ m.table ∧ r = if key = d.key then old.set d else old) ∨
      (m.row? d.key = none ∧ key = d.key ∧ r = .create (m.lastId + 1) d) := by
  rw [applySet] at h
  split at h
  · obtain ⟨old, hold, heq⟩ := List.mem_map.1 h
    obtain ⟨rfl, rfl⟩ := Prod.mk.inj heq
    exact Or.inl ⟨old.2, hold, rfl⟩
  · rename_i hnone
    rcases List.mem_append.1 h with hold | hnew
    · have hne : key ≠ d.key := by
        rintro rfl
        have hnot : d.key ∉ m.keys := isNone_row?_iff_keys.1 (by rw [hnone]; rfl)
        exact hnot (List.mem_map.2 ⟨_, hold, rfl⟩)
      exact Or.inl ⟨r, hold, by rw [if_neg hne]⟩
    · obtain ⟨hkey, hr⟩ := Prod.mk.inj (List.mem_singleton.1 hnew)
      exact Or.inr ⟨hnone, hkey, hr⟩

theorem mem_table_applyRemove {key : Key} {r : Row} (h : (key, r) ∈ (m.applyRemove d).table) :
    ∃ old, (key, old) ∈ m.table ∧ r = if key = d.key then old.remove d else old := by
  obtain ⟨old, hold, heq⟩ := List.mem_map.1 h
  obtain ⟨rfl, rfl⟩ := Prod.mk.inj heq
  exact ⟨old.2, hold, rfl⟩

/-! ## Absorbed changes -/

/-- The store has absorbed a change: the rows of its key are past it, and if it is a set there is
one. -/
structure Absorbed (m : Memory) (c : Change) : Prop where
  past : ∀ r, (c.key, r) ∈ m.table → r.IsPast c
  present : c.isRemove = false → (m.row? c.key).isSome

theorem Absorbed.of_table_eq {m' : Memory} (h : m.Absorbed c) (htable : m'.table = m.table) :
    m'.Absorbed c where
  past := by
    rw [htable]
    exact h.past
  present := by
    rw [row?, htable]
    exact h.present

theorem absorbed_applySet_self (m : Memory) (hset : c.isRemove = false) :
    (m.applySet c).Absorbed c where
  past r hr := by
    rcases mem_table_applySet hr with ⟨old, -, rfl⟩ | ⟨-, -, rfl⟩
    · rw [if_pos rfl]
      exact Row.isPast_set_self old hset
    · exact Row.isPast_of_le hset (UInt64.le_refl _)
  present _ := by simp [row?_applySet]

theorem absorbed_applyRemove_self (m : Memory) (hrem : c.isRemove) :
    (m.applyRemove c).Absorbed c where
  past r hr := by
    obtain ⟨old, -, rfl⟩ := mem_table_applyRemove hr
    rw [if_pos rfl]
    exact Row.isPast_remove_self old c
  present hset := by
    rw [hrem] at hset
    cases hset

/-- A set leaves absorbed what was absorbed.  Where there was no row, only removals can have been
absorbed, and the row that the set makes has to be newer than those. -/
theorem Absorbed.applySet (h : m.Absorbed c)
    (hnewer : c.isRemove → d.key = c.key → c.checkpoint < d.checkpoint) :
    (m.applySet d).Absorbed c where
  past r hr := by
    rcases mem_table_applySet hr with ⟨old, hold, rfl⟩ | ⟨hnone, hkey, rfl⟩
    · split
      · exact (h.past old hold).set d
      · exact h.past old hold
    · cases hc : c.isRemove with
      | false =>
        have hsome := h.present hc
        rw [hkey, hnone] at hsome
        cases hsome
      | true => exact Or.inl (hnewer hc hkey.symm)
  present hset := by
    rw [row?_applySet]
    split
    · rfl
    · exact h.present hset

theorem Absorbed.applyRemove (h : m.Absorbed c)
    (hnewer : c.isRemove → d.key = c.key → c.checkpoint < d.checkpoint) :
    (m.applyRemove d).Absorbed c where
  past r hr := by
    obtain ⟨old, hold, rfl⟩ := mem_table_applyRemove hr
    split
    · rename_i hkey
      exact (h.past old hold).remove fun hrem => hnewer hrem hkey.symm
    · exact h.past old hold
  present hset := by
    rw [row?_applyRemove]
    split
    · rw [Option.isSome_map]
      exact h.present hset
    · exact h.present hset

theorem Absorbed.applySets {changes : List Change} (h : m.Absorbed c)
    (hnewer : ∀ d ∈ changes, c.isRemove → d.key = c.key → c.checkpoint < d.checkpoint) :
    (changes.foldl Memory.applySet m).Absorbed c := by
  induction changes generalizing m with
  | nil => exact h
  | cons d changes ih =>
    exact ih (h.applySet (hnewer d (List.mem_cons_self ..)))
      fun e he => hnewer e (List.mem_cons_of_mem _ he)

theorem Absorbed.applyRemoves {changes : List Change} (h : m.Absorbed c)
    (hnewer : ∀ d ∈ changes, c.isRemove → d.key = c.key → c.checkpoint < d.checkpoint) :
    (changes.foldl Memory.applyRemove m).Absorbed c := by
  induction changes generalizing m with
  | nil => exact h
  | cons d changes ih =>
    exact ih (h.applyRemove (hnewer d (List.mem_cons_self ..)))
      fun e he => hnewer e (List.mem_cons_of_mem _ he)

/-! ## Plans -/

theorem absorbed_applySets {sets : List Change} (hc : c ∈ sets) (hset : c.isRemove = false) :
    (sets.foldl applySet m).Absorbed c := by
  have hnever : ¬ c.isRemove := by simp [hset]
  induction sets generalizing m with
  | nil => cases hc
  | cons d sets ih =>
    rw [List.foldl_cons]
    rcases List.mem_cons.1 hc with rfl | hc
    · exact (absorbed_applySet_self m hset).applySets fun e _ hrem => absurd hrem hnever
    · exact ih hc

theorem absorbed_applyRemoves {removes : List Change} (hkeys : (removes.map (·.key)).Nodup)
    (hc : c ∈ removes) (hrem : c.isRemove) : (removes.foldl applyRemove m).Absorbed c := by
  induction removes generalizing m with
  | nil => cases hc
  | cons d removes ih =>
    rw [List.map_cons, List.nodup_cons] at hkeys
    rw [List.foldl_cons]
    rcases List.mem_cons.1 hc with rfl | hc
    · -- the removals after it are of other keys
      exact (absorbed_applyRemove_self m hrem).applyRemoves fun e he _ hk =>
        absurd hk (key_ne_of_not_mem hkeys.1 e he)
    · exact ih hkeys.2 hc

/-- A plan is absorbed once it has been applied. -/
theorem absorbed_applyPlan (m : Memory) (page : List Change)
    (hc : c ∈ (Plan.ofChanges page).changes) : (m.applyPlan (.ofChanges page)).Absorbed c := by
  rw [applyPlan]
  rcases List.mem_append.1 hc with hc | hc
  · have hset := Plan.isRemove_of_mem_sets hc
    have hnever : ¬ c.isRemove := by simp [hset]
    exact (absorbed_applySets hc hset).applyRemoves fun d _ hrem => absurd hrem hnever
  · exact absorbed_applyRemoves (Plan.nodup_keys_removes page) hc (Plan.mem_removes_iff.1 hc).1

/-- Newer changes leave absorbed what was absorbed. -/
theorem Absorbed.applyPlan {page : List Change} (h : m.Absorbed c)
    (hnewer : ∀ d ∈ page, d.key = c.key → c.checkpoint < d.checkpoint) :
    (m.applyPlan (.ofChanges page)).Absorbed c := by
  have hplan : ∀ d ∈ (Plan.ofChanges page).changes,
      c.isRemove → d.key = c.key → c.checkpoint < d.checkpoint := by
    intro d hd _
    exact hnewer d (Plan.mem_of_mem_changes hd)
  rw [Memory.applyPlan]
  apply Absorbed.applyRemoves
  · exact h.applySets fun d hd => hplan d (List.mem_append_left _ hd)
  · exact fun d hd => hplan d (List.mem_append_right _ hd)

/-! ## Absorbed plans -/

theorem editRow_eq_self {key : Key} {edit : Row → Row}
    (h : ∀ r, (key, r) ∈ m.table → edit r = r) : m.editRow key edit = m := by
  have hsame : ∀ e ∈ m.table, (if e.1 = key then edit e.2 else e.2) = e.2 := by
    intro e he
    split
    · rename_i hk
      rw [← hk] at h
      exact h e.2 he
    · rfl
  have htable : (m.table.map fun e => (e.1, if e.1 = key then edit e.2 else e.2)) =
      m.table.map id := List.map_congr_left fun e he => Prod.ext rfl (hsame e he)
  rw [editRow, htable, List.map_id]

theorem Absorbed.applySet_eq (h : m.Absorbed c) (hset : c.isRemove = false) :
    m.applySet c = m := by
  obtain ⟨r, hr⟩ := Option.isSome_iff_exists.1 (h.present hset)
  simp only [Memory.applySet, hr]
  exact editRow_eq_self fun r hr => (h.past r hr).set_eq

theorem Absorbed.applyRemove_eq (h : m.Absorbed c) (hrem : c.isRemove) : m.applyRemove c = m :=
  editRow_eq_self fun r hr => (h.past r hr).remove_eq hrem

theorem foldl_eq_self {f : Memory → Change → Memory} {changes : List Change}
    (h : ∀ c ∈ changes, f m c = m) : changes.foldl f m = m := by
  induction changes with
  | nil => rfl
  | cons c changes ih =>
    rw [List.foldl_cons, h c (List.mem_cons_self ..)]
    exact ih fun d hd => h d (List.mem_cons_of_mem _ hd)

/-- A plan that has been absorbed does nothing. -/
theorem applyPlan_of_absorbed {page : List Change}
    (h : ∀ c ∈ (Plan.ofChanges page).changes, m.Absorbed c) :
    m.applyPlan (.ofChanges page) = m := by
  have hsets : (Plan.ofChanges page).sets.foldl applySet m = m := by
    apply foldl_eq_self
    intro c hc
    exact (h c (List.mem_append_left _ hc)).applySet_eq (Plan.isRemove_of_mem_sets hc)
  have hremoves : (Plan.ofChanges page).removes.foldl applyRemove m = m := by
    apply foldl_eq_self
    intro c hc
    exact (h c (List.mem_append_right _ hc)).applyRemove_eq (Plan.mem_removes_iff.1 hc).1
  rw [applyPlan, hsets, hremoves]

/-! ## Commits -/

/-- A batch on its way to a store: when it is taken in, and for which indexer. -/
structure Handover where
  time : Int
  indexer : String
  batch : Batch

/-- The store after some batches, one after the other. -/
def commitAll (m : Memory) (handovers : List Handover) : Memory :=
  handovers.foldl (fun m h => (m.commit h.time h.indexer h.batch).2) m

/-- The store with the records and entries of a batch in its logs. -/
def logged (m : Memory) (b : Batch) : Memory :=
  { m with calls := m.calls ++ b.calls, events := m.events ++ b.events }

theorem table_commit (m : Memory) (now : Int) (indexer : String) (b : Batch) :
    (m.commit now indexer b).2.table = ((m.logged b).applyPlan (.ofChanges b.changes)).table ∧
      (m.commit now indexer b).2.lastId =
        ((m.logged b).applyPlan (.ofChanges b.changes)).lastId := by
  rw [commit]
  cases b.cursor <;> exact ⟨rfl, rfl⟩

theorem absorbed_commit (m : Memory) (now : Int) (indexer : String) (b : Batch)
    (hc : c ∈ (Plan.ofChanges b.changes).changes) : (m.commit now indexer b).2.Absorbed c :=
  (absorbed_applyPlan (m.logged b) b.changes hc).of_table_eq (table_commit m now indexer b).1

/-- A batch whose changes to the key are newer leaves a change absorbed. -/
theorem Absorbed.commit (h : m.Absorbed c) (now : Int) (indexer : String) {b : Batch}
    (hnewer : ∀ d ∈ b.changes, d.key = c.key → c.checkpoint < d.checkpoint) :
    (m.commit now indexer b).2.Absorbed c := by
  have hlogged : (m.logged b).Absorbed c := h.of_table_eq rfl
  exact (hlogged.applyPlan hnewer).of_table_eq (table_commit m now indexer b).1

theorem Absorbed.commitAll {handovers : List Handover} (h : m.Absorbed c)
    (hnewer : ∀ o ∈ handovers, ∀ d ∈ o.batch.changes,
      d.key = c.key → c.checkpoint < d.checkpoint) :
    (m.commitAll handovers).Absorbed c := by
  induction handovers generalizing m with
  | nil => exact h
  | cons o handovers ih =>
    exact ih (h.commit o.time o.indexer (hnewer o (List.mem_cons_self ..)))
      fun o' ho' => hnewer o' (List.mem_cons_of_mem _ ho')

/-- **A replay is harmless.**  A batch is taken in, then others whose changes to its keys are all
newer than its own, and then the batch once more.  The second time it leaves all rows as they are
and makes none; it only adds its records and entries to the logs. -/
theorem commit_again (m : Memory) (b : Batch) (first second : Int) (indexer again : String)
    {between : List Handover}
    (newer : ∀ o ∈ between, ∀ d ∈ o.batch.changes, ∀ c ∈ b.changes,
      d.key = c.key → c.checkpoint < d.checkpoint) :
    let before := (m.commit first indexer b).2.commitAll between
    let after := (before.commit second again b).2
    after.table = before.table ∧ after.lastId = before.lastId ∧
      after.calls = before.calls ++ b.calls ∧ after.events = before.events ++ b.events := by
  intro before after
  have habsorbed : ∀ c ∈ (Plan.ofChanges b.changes).changes, (before.logged b).Absorbed c := by
    intro c hc
    have hbefore : before.Absorbed c :=
      (absorbed_commit m first indexer b hc).commitAll fun o ho d hd =>
        newer o ho d hd c (Plan.mem_of_mem_changes hc)
    exact hbefore.of_table_eq rfl
  obtain ⟨htable, hlast⟩ := table_commit before second again b
  rw [applyPlan_of_absorbed habsorbed] at htable hlast
  exact ⟨htable, hlast, calls_commit .., events_commit ..⟩

/-! ### A replay after newer changes -/

/-- A change of the row of a table without key columns. -/
def changeOf (name : String) (value : Option Json) (checkpoint : UInt64) (digest : String) :
    Change :=
  ⟨.singleton name, value, checkpoint, digest, "0x1"⟩

/-- A set and a removal of one row at one checkpoint, a set of a row that is older, and a removal
that meets no row. -/
def mixed : Batch :=
  { Batch.empty with
    events := [⟨"0x1", 7, "b", "sold", "sold_event", .null, 0⟩]
    changes := [changeOf "price" (some (.bool true)) 7 "b", changeOf "price" none 7 "b",
      changeOf "stock" (some (.bool true)) 7 "b", changeOf "offer" none 7 "b"] }

/-- Newer sets of two of these rows, one of which makes the row that was missing. -/
def newerSets : List Handover :=
  [⟨2, "default", { Batch.empty with changes := [changeOf "stock" (some .null) 8 "c"] }⟩,
    ⟨3, "other", { Batch.empty with changes := [changeOf "offer" (some .null) 9 "d"] }⟩]

/-- A store with a row that is older. -/
def stocked : Memory :=
  let c := changeOf "stock" (some .null) 5 "a"
  { empty with table := [(c.key, .create 1 c)], lastId := 1 }

theorem commit_again_mixed :
    (∀ o ∈ newerSets, ∀ d ∈ o.batch.changes, ∀ c ∈ mixed.changes,
        d.key = c.key → c.checkpoint < d.checkpoint) ∧
      let before := (stocked.commit 1 "default" mixed).2.commitAll newerSets
      let after := (before.commit 4 "default" mixed).2
      before.rows.map (fun r => (r.id, r.name, r.checkpoint, r.digest, r.isRemoved)) =
          [(1, "stock", 8, "c", false), (2, "price", 7, "b", true), (3, "offer", 9, "d", false)] ∧
        after.table = before.table ∧ after.lastId = before.lastId ∧
        after.calls = before.calls ++ mixed.calls ∧
        after.events = before.events ++ mixed.events := by
  have newer : ∀ o ∈ newerSets, ∀ d ∈ o.batch.changes, ∀ c ∈ mixed.changes,
      d.key = c.key → c.checkpoint < d.checkpoint := by decide
  exact ⟨newer, by cbv, commit_again stocked mixed 1 4 "default" "default" newer⟩

end Memory

end LedgerIndex
