import LedgerIndex.Proofs.Store.Rows
import Mathlib.Data.List.FinRange
import Mathlib.Logic.Equiv.Fin.Rotate

/-!
# Pages in another order

What a store makes of a page hangs on the latest change to each key, and on the latest set of it.
Of two changes to a key the one of the higher checkpoint is the later, wherever it stands in the
page, so places count only where the key and the checkpoint are the same.  A page may be put in any
other order that leaves such changes in theirs (`KeepsTies`): it has the same plan, and leaves the
same row under each key (`plan_reordered`).
-/

namespace LedgerIndex

/-! ## Orders of a page -/

/-- A page in another order: each place has the change from the place that `σ` tells. -/
def reordered (changes : List Change) (σ : Equiv.Perm (Fin changes.length)) : List Change :=
  List.ofFn fun i => changes[σ i]

/-- Two changes to one key at one checkpoint stay in their order. -/
def KeepsTies (changes : List Change) (σ : Equiv.Perm (Fin changes.length)) : Prop :=
  ∀ i j, i < j → changes[σ i].key = changes[σ j].key →
    changes[σ i].checkpoint = changes[σ j].checkpoint → σ i < σ j

instance (changes : List Change) (σ : Equiv.Perm (Fin changes.length)) :
    Decidable (KeepsTies changes σ) :=
  inferInstanceAs (Decidable (∀ i j, i < j → changes[σ i].key = changes[σ j].key →
    changes[σ i].checkpoint = changes[σ j].checkpoint → σ i < σ j))

/-- The changes to one key at one checkpoint, in the order of their arrival. -/
def tied (key : Key) (checkpoint : UInt64) (changes : List Change) : List Change :=
  changes.filter fun c => c.key = key ∧ c.checkpoint = checkpoint

/-- Where those that are looked for stay in their order, they are found as before. -/
theorem filter_reordered {changes : List Change} {σ : Equiv.Perm (Fin changes.length)}
    {f : Change → Bool} (h : ∀ i j, i < j → f changes[σ i] → f changes[σ j] → σ i < σ j) :
    (reordered changes σ).filter f = changes.filter f := by
  have hold : changes = (List.finRange changes.length).map fun i => changes[i] := by simp
  have hnew : reordered changes σ =
      ((List.finRange changes.length).map σ).map fun i => changes[i] := by
    rw [reordered, List.ofFn_eq_map, List.map_map]
    rfl
  conv_rhs => rw [hold, List.filter_map]
  rw [hnew, List.filter_map]
  -- both are the places of what is looked for, in ascending order
  have hanti (i j : Fin changes.length) (hij : i < j) (hji : j < i) : i = j :=
    absurd hij (lt_asymm hji)
  refine congrArg _ (List.Perm.eq_of_pairwise (fun i j _ _ => hanti i j) ?_ ?_ ?_)
  · rw [List.filter_map, List.pairwise_map, List.pairwise_filter]
    exact (List.pairwise_lt_finRange _).imp fun {i j} hij hi hj => h i j hij hi hj
  · exact (List.pairwise_lt_finRange _).filter _
  · exact (σ.map_finRange_perm).filter _

theorem tied_reordered {changes : List Change} {σ : Equiv.Perm (Fin changes.length)}
    (h : KeepsTies changes σ) (key : Key) (checkpoint : UInt64) :
    tied key checkpoint (reordered changes σ) = tied key checkpoint changes := by
  refine filter_reordered fun i j hij hi hj => ?_
  obtain ⟨hik, hic⟩ := of_decide_eq_true hi
  obtain ⟨hjk, hjc⟩ := of_decide_eq_true hj
  exact h i j hij (hik.trans hjk.symm) (hic.trans hjc.symm)

/-! ## The latest change -/

/-- The latest change is the last of those at its checkpoint. -/
theorem getLast?_of_latest? {l : List Change} {c : Change} (h : latest? l = some c) :
    (l.filter fun d => d.checkpoint = c.checkpoint).getLast? = some c := by
  obtain ⟨before, after, rfl, -, ha⟩ := latest?_eq_some_iff.1 h
  have hafter : (after.filter fun d => d.checkpoint = c.checkpoint) = [] := by
    refine List.filter_eq_nil_iff.2 fun d hd heq => ?_
    rw [decide_eq_true_iff] at heq
    exact UInt64.lt_irrefl _ (heq ▸ ha d hd)
  rw [List.filter_append, List.filter_cons_of_pos (by simp), hafter, List.getLast?_concat]

/-- Lists with the same changes in the same order at each checkpoint have the same latest change. -/
theorem latest?_congr {l l' : List Change}
    (h : ∀ checkpoint, (l.filter fun c => c.checkpoint = checkpoint) =
      l'.filter fun c => c.checkpoint = checkpoint) : latest? l = latest? l' := by
  have hmem (c : Change) : c ∈ l ↔ c ∈ l' := by
    have hc := congrArg (c ∈ ·) (h c.checkpoint)
    simpa using hc
  cases hl : latest? l with
  | none =>
    have hnil : l' = [] := List.eq_nil_iff_forall_not_mem.2 fun c hc => by
      have hc' := (hmem c).2 hc
      rw [latest?_eq_none.1 hl] at hc'
      cases hc'
    rw [hnil, latest?_nil]
  | some c =>
    cases hl' : latest? l' with
    | none =>
      have hc := (hmem c).1 (mem_of_latest? hl)
      rw [latest?_eq_none.1 hl'] at hc
      cases hc
    | some d =>
      have hcheckpoint : c.checkpoint = d.checkpoint := UInt64.le_antisymm
        (checkpoint_le_of_latest? hl' ((hmem c).1 (mem_of_latest? hl)))
        (checkpoint_le_of_latest? hl ((hmem d).2 (mem_of_latest? hl')))
      rw [← getLast?_of_latest? hl, ← getLast?_of_latest? hl', hcheckpoint, h]

variable {changes other : List Change} (hties : ∀ key checkpoint,
  tied key checkpoint other = tied key checkpoint changes) (key : Key)

include hties

theorem latestTo?_of_tied : latestTo? key other = latestTo? key changes := by
  refine latest?_congr fun checkpoint => ?_
  have hfilter (l : List Change) :
      ((changesTo key l).filter fun c => c.checkpoint = checkpoint) = tied key checkpoint l := by
    simp [changesTo, tied, List.filter_filter, and_comm]
  rw [hfilter, hfilter, hties]

theorem latestSetTo?_of_tied : latestSetTo? key other = latestSetTo? key changes := by
  refine latest?_congr fun checkpoint => ?_
  have hfilter (l : List Change) :
      (((changesTo key l).filter fun c => !c.isRemove).filter fun c => c.checkpoint = checkpoint) =
        (tied key checkpoint l).filter fun c => !c.isRemove := by
    simp only [changesTo, tied, List.filter_filter]
    refine List.filter_congr fun c _ => ?_
    cases c.isRemove <;> simp [and_comm]
  rw [hfilter, hfilter, hties]

/-! ## Plans -/

theorem sets_perm_of_tied : (Plan.ofChanges other).sets.Perm (Plan.ofChanges changes).sets := by
  refine (List.perm_ext_iff_of_nodup (Plan.nodup_keys_sets other).of_map
    (Plan.nodup_keys_sets changes).of_map).2 fun c => ?_
  rw [Plan.mem_sets_iff, Plan.mem_sets_iff, latestSetTo?_of_tied hties]

theorem removes_perm_of_tied :
    (Plan.ofChanges other).removes.Perm (Plan.ofChanges changes).removes := by
  refine (List.perm_ext_iff_of_nodup (Plan.nodup_keys_removes other).of_map
    (Plan.nodup_keys_removes changes).of_map).2 fun c => ?_
  rw [Plan.mem_removes_iff, Plan.mem_removes_iff, latestTo?_of_tied hties]

omit hties

/-! ## Rows -/

/-- A row as if it had no id. -/
def Row.unnumbered (r : Row) : Row := { r with id := 0 }

namespace Memory

/-- Apart from ids, what becomes of a row is decided by the two changes of the page. -/
theorem unnumbered_afterPage (id id' : Int) (row : Option Row) (set top : Option Change) :
    (afterRemove (afterSet id row set) top).map Row.unnumbered =
      (afterRemove (afterSet id' row set) top).map Row.unnumbered := by
  have hremove (r : Row) (c : Change) : (r.remove c).unnumbered = r.unnumbered.remove c := by
    unfold Row.remove Row.unnumbered
    split <;> rfl
  have hset : (afterSet id row set).map Row.unnumbered =
      (afterSet id' row set).map Row.unnumbered := by
    cases set with
    | none => rfl
    | some s => cases row <;> rfl
  cases top with
  | none => exact hset
  | some t =>
    rw [afterRemove, afterRemove]
    split
    · rw [Option.map_map, Option.map_map, show Row.unnumbered ∘ (·.remove t) =
        (·.remove t) ∘ Row.unnumbered from funext fun r => hremove r t, ← Option.map_map,
        ← Option.map_map, hset]
    · exact hset

end Memory

/-- **The order of a page does not matter, ties apart.**  If changes to one key at one checkpoint
stay in their order, a page in another order has the same sets and the same removals planned, in
some order, and whatever a store holds, it leaves the same row under each key, ids apart. -/
theorem plan_reordered {changes : List Change} {σ : Equiv.Perm (Fin changes.length)}
    (h : KeepsTies changes σ) :
    (Plan.ofChanges (reordered changes σ)).sets.Perm (Plan.ofChanges changes).sets ∧
      (Plan.ofChanges (reordered changes σ)).removes.Perm (Plan.ofChanges changes).removes ∧
      ∀ (m : Memory) (now now' : Int) (indexer indexer' : String) (b b' : Batch) (key : Key),
        ((m.commit now' indexer' { b' with changes := reordered changes σ }).2.row? key).map
            Row.unnumbered =
          ((m.commit now indexer { b with changes := changes }).2.row? key).map
            Row.unnumbered := by
  have hties := tied_reordered h
  refine ⟨sets_perm_of_tied hties, removes_perm_of_tied hties,
    fun m now now' indexer indexer' b b' key => ?_⟩
  obtain ⟨id, hrow⟩ := m.exists_row?_commit now indexer { b with changes := changes } key
  obtain ⟨id', hrow'⟩ :=
    m.exists_row?_commit now' indexer' { b' with changes := reordered changes σ } key
  rw [hrow, hrow', latestTo?_of_tied hties, latestSetTo?_of_tied hties]
  exact Memory.unnumbered_afterPage ..

/-! ### The last change first -/

/-- Two sets and a removal of one row, two of them at one checkpoint, among changes to another. -/
def interleaved : List Change :=
  [⟨.singleton "offer", some .null, 7, "a", "0x1"⟩,
    ⟨.singleton "stock", some (.bool true), 7, "a", "0x1"⟩,
    ⟨.singleton "offer", none, 7, "b", "0x1"⟩,
    ⟨.singleton "offer", some (.bool true), 9, "c", "0x1"⟩,
    ⟨.singleton "stock", none, 8, "d", "0x1"⟩]

/-- The last change comes first. -/
def lastFirst : Equiv.Perm (Fin interleaved.length) := (finRotate 5).symm

theorem plan_reordered_lastFirst :
    (reordered interleaved lastFirst).map (·.digest) = ["d", "a", "a", "b", "c"] ∧
      KeepsTies interleaved lastFirst ∧
      (Plan.ofChanges (reordered interleaved lastFirst)).sets.Perm
        (Plan.ofChanges interleaved).sets ∧
      (Plan.ofChanges (reordered interleaved lastFirst)).removes.Perm
        (Plan.ofChanges interleaved).removes ∧
      ∀ (m : Memory) (now now' : Int) (indexer indexer' : String) (b b' : Batch) (key : Key),
        ((m.commit now' indexer' { b' with changes := reordered interleaved lastFirst }).2.row?
            key).map Row.unnumbered =
          ((m.commit now indexer { b with changes := interleaved }).2.row? key).map
            Row.unnumbered := by
  have hties : KeepsTies interleaved lastFirst := by decide
  exact ⟨by decide, hties, plan_reordered hties⟩

end LedgerIndex
