import LedgerIndex.Proofs.Sql.Mirror
import LedgerIndex.Proofs.Store.Operations

/-!
# The embedded database answers as the store in memory does

Whatever is done with the two stores, they give the same answers, times apart.  Only ids differ:
those of the database are moved by the number of rows that were made before the last clearing, and
a client that lists rows from an id on has to move it likewise.  Every operation keeps the tables a
mirror of the store in memory (`Mirrors.perform`).
-/

namespace LedgerIndex

/-- An answer with ids moved. -/
def Answer.moved (places : Nat) : Answer → Answer
  | row r => row (r.map (·.moved places))
  | rows rs => rows (rs.map (·.moved places))
  | other => other

/-- An answer without the time at which a cursor was stored. -/
def Answer.untimed : Answer → Answer
  | cursor c => cursor (c.map (·.atTime 0))
  | other => other

namespace Operation

/-- An operation with the id that it names moved. -/
def moved (places : Nat) : Operation → Operation
  | rowsAfter name after limit => rowsAfter name (after.map (· + places)) limit
  | other => other

/-- How far ids are moved after an operation, if they are moved by so many before: clearing moves
them further, by the number of rows that are gone. -/
def movedAfter (places : Nat) (m : Memory) : Operation → Nat
  | clear => places + m.rows.length
  | _ => places

/-- How far ids are moved at each of some operations. -/
def movements (clock : Nat → Int) (places : Nat) : List Operation → Memory → List Nat
  | [], _ => []
  | op :: ops, m =>
    places :: movements (fun i => clock (i + 1)) (op.movedAfter places m) ops
      (op.perform (clock 0) m).2

/-- An operation whose changes and entries the database keeps faithfully. -/
def Storable : Operation → Prop
  | commit _ batch => Sql.StorableBatch batch
  | _ => True

end Operation

namespace Sql

open Operation

variable {places : Nat} {m : Memory} {t : Tables}

/-- Each operation has the same answer, and leaves the tables a mirror of the store in memory. -/
theorem Mirrors.perform (h : Mirrors places m t) {op : Operation} (hop : op.Storable)
    (now now' : Int) :
    (∃ answer, (op.perform now m).1 = .ok answer) ∧
      ((op.moved places).perform now' t).1.map (·.untimed) =
        (op.perform now m).1.map (fun answer => (answer.moved places).untimed) ∧
      Mirrors (op.movedAfter places m) (op.perform now m).2
        ((op.moved places).perform now' t).2 := by
  cases op with
  | commit indexer batch =>
    have hcommit : CommitStore.commit now' indexer batch t =
        (.ok (Statement.summary batch), t.tookIn now' indexer batch) := by
      change Tables.lift (t.commit now' indexer batch) = _
      rw [Tables.commit_eq]
      rfl
    refine ⟨⟨_, rfl⟩, ?_, ?_⟩
    · simp only [Operation.moved, Operation.perform, hcommit]
      rfl
    · simp only [Operation.moved, Operation.perform, hcommit]
      exact h.commit hop now now' indexer
  | saveCursor indexer cursor =>
    exact ⟨⟨_, rfl⟩, rfl, h.saveCursor now now' indexer cursor⟩
  | loadCursor indexer =>
    refine ⟨⟨_, rfl⟩, ?_, h⟩
    exact congrArg (fun c => Except.ok (Answer.cursor c)) (h.cursor? indexer)
  | deleteCursor indexer => exact ⟨⟨_, rfl⟩, rfl, h.deleteCursor indexer⟩
  | row key =>
    refine ⟨⟨_, rfl⟩, ?_, h⟩
    change ((t.row? key).map Answer.row).map Answer.untimed = _
    rw [h.row?]
    rfl
  | rowsAfter name after limit =>
    refine ⟨⟨_, rfl⟩, ?_, h⟩
    change ((t.rowsAfter name _ limit).map Answer.rows).map Answer.untimed = _
    rw [h.rowsAfter]
    rfl
  | lastEvents name limit =>
    refine ⟨⟨_, rfl⟩, ?_, h⟩
    change ((t.lastEvents name limit).map Answer.events).map Answer.untimed = _
    rw [h.lastEvents]
    rfl
  | counts =>
    refine ⟨⟨_, rfl⟩, ?_, h⟩
    exact congrArg (fun c => Except.ok (Answer.counts c)) h.counts
  | clear => exact ⟨⟨_, rfl⟩, rfl, h.clear⟩

theorem Mirrors.answers (h : Mirrors places m t) {ops : List Operation}
    (hops : ∀ op ∈ ops, op.Storable) (clock clock' : Nat → Int) :
    (∀ answer ∈ Operation.answers clock ops m, ∃ a, answer = .ok a) ∧
      (Operation.answers clock' (List.zipWith Operation.moved (movements clock places ops m) ops)
          t).map (·.map (·.untimed)) =
        List.zipWith (fun places answer => answer.map fun a => (a.moved places).untimed)
          (movements clock places ops m) (Operation.answers clock ops m) := by
  induction ops generalizing places m t clock clock' with
  | nil => exact ⟨by simp [Operation.answers], rfl⟩
  | cons op ops ih =>
    obtain ⟨hok, hanswer, hnext⟩ := h.perform (hops op (by simp)) (clock 0) (clock' 0)
    obtain ⟨hoks, hanswers⟩ := ih hnext (fun op hop => hops op (by simp [hop]))
      (fun i => clock (i + 1)) (fun i => clock' (i + 1))
    refine ⟨?_, ?_⟩
    · intro answer ha
      rcases List.mem_cons.1 ha with rfl | ha
      · exact hok
      · exact hoks answer ha
    · rw [movements, List.zipWith_cons_cons, Operation.answers, Operation.answers]
      simp only
      rw [List.map_cons, List.zipWith_cons_cons, hanswer, hanswers]

/-- **The embedded database refines the store in memory.**  Operations on the two, both empty at
first, are all carried out and have the same answers, ids moved and times apart. -/
theorem answers_eq_of_storable {ops : List Operation} (hops : ∀ op ∈ ops, op.Storable)
    (clock clock' : Nat → Int) :
    let places := movements clock 0 ops .empty
    let expected := Operation.answers clock ops Memory.empty
    (∀ answer ∈ expected, ∃ a, answer = .ok a) ∧
      (Operation.answers clock' (List.zipWith Operation.moved places ops) Tables.empty).map
          (·.map (·.untimed)) =
        List.zipWith (fun places answer => answer.map fun a => (a.moved places).untimed) places
          expected :=
  Mirrors.empty.answers hops clock clock'

/-! ### A clearing in the middle -/

/-- Sets the row of a table without key columns. -/
def setFlag (name : String) (flag : Bool) (checkpoint : UInt64) : Change :=
  ⟨.singleton name, some (.bool flag), checkpoint, "a", "0x1"⟩

/-- A row is made, another is made and removed, everything is cleared, and a row is made again. -/
def clearing : List Operation :=
  [.commit "default" { Batch.empty with
      changes := [setFlag "stock" true 5], cursor := some ⟨"a", 5⟩ },
    .commit "default" { Batch.empty with
      changes := [setFlag "price" true 5, ⟨.singleton "price", none, 6, "b", "0x1"⟩] },
    .rowsAfter "stock" (some 0) 10, .clear,
    .commit "default" { Batch.empty with changes := [setFlag "stock" false 7] },
    .row (.singleton "stock"), .rowsAfter "stock" (some 0) 10, .loadCursor "default", .counts]

theorem storable_setFlag (name : String) (flag : Bool) {checkpoint : UInt64}
    (h : checkpoint.toNat < 2 ^ 63) : Storable (setFlag name flag checkpoint) := by
  refine ⟨h, fun v hv => ?_⟩
  cases hv
  cases flag <;> rfl

theorem answers_clearing :
    (∀ op ∈ clearing, op.Storable) ∧
      movements (fun i => i) 0 clearing .empty = [0, 0, 0, 0, 2, 2, 2, 2, 2] ∧
      let places := movements (fun i => i) 0 clearing .empty
      let expected := Operation.answers (fun i => i) clearing Memory.empty
      (∀ answer ∈ expected, ∃ a, answer = .ok a) ∧
        (Operation.answers (fun i => 7 * i) (List.zipWith Operation.moved places clearing)
            Tables.empty).map (·.map (·.untimed)) =
          List.zipWith (fun places answer => answer.map fun a => (a.moved places).untimed) places
            expected := by
  have hops : ∀ op ∈ clearing, op.Storable := by
    intro op hop
    simp only [clearing, List.mem_cons, List.not_mem_nil, or_false] at hop
    rcases hop with rfl | rfl | rfl | rfl | rfl | rfl | rfl | rfl | rfl
    · refine ⟨fun c hc => ?_, fun e he => by cases he⟩
      rw [List.mem_singleton.1 hc]
      exact storable_setFlag _ _ (by decide)
    · refine ⟨fun c hc => ?_, fun e he => by cases he⟩
      simp only [List.mem_cons, List.not_mem_nil, or_false] at hc
      rcases hc with rfl | rfl
      · exact storable_setFlag _ _ (by decide)
      · exact ⟨by decide, fun v hv => by cases hv⟩
    · trivial
    · trivial
    · refine ⟨fun c hc => ?_, fun e he => by cases he⟩
      rw [List.mem_singleton.1 hc]
      exact storable_setFlag _ _ (by decide)
    all_goals trivial
  exact ⟨hops, by decide +kernel, answers_eq_of_storable hops _ _⟩

end Sql

end LedgerIndex
