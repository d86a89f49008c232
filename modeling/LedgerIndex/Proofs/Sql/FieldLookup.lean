import LedgerIndex.Proofs.Sql.SignedCheckpoints

/-!
# Look-ups by field in the embedded database

The store in memory takes a field out of a value and compares its text.  The embedded database
follows a path that is the name of the field between two quotes, compares labels with the names as
they are written in the column, and prints numbers in its own way.  For a name without quotes,
backslashes and control characters the path leads to the member of that name (`follow_ofField`), so
that the two stores answer alike exactly if the database prints what the fields hold as the compact
text does (`rowsByField_commitAll`).
-/

namespace LedgerIndex

/-! ## Names that are written as they are -/

namespace FieldPath

/-- A name with none of the characters that are escaped between quotes. -/
def IsPlain (field : String) : Prop := ∀ c ∈ field.toList, c ≠ '"' ∧ c ≠ '\\' ∧ 0x20 ≤ c.toNat

/-- A character is written as it is, or after a backslash. -/
theorem escapeChar_cases (c : Char) :
    Json.escapeChar c = [c] ∨ '\\' ∈ Json.escapeChar c := by
  rw [Json.escapeChar]
  split_ifs <;> simp

theorem escapeChar_of_plain {c : Char} (h : c ≠ '"' ∧ c ≠ '\\' ∧ 0x20 ≤ c.toNat) :
    Json.escapeChar c = [c] := by
  rw [Json.escapeChar, if_neg h.1, if_neg h.2.1, if_neg (Nat.not_lt.2 h.2.2)]

theorem escape_of_plain {field : String} (h : IsPlain field) :
    Json.escape field = field.toList := by
  rw [Json.escape, List.flatMap_congr fun c hc => escapeChar_of_plain (h c hc)]
  exact List.flatMap_singleton' _

/-- Without backslashes a name is written as it is. -/
theorem escape_of_not_mem {name : String} (h : '\\' ∉ Json.escape name) :
    Json.escape name = name.toList := by
  have hchars : ∀ c ∈ name.toList, Json.escapeChar c = [c] := fun c hc =>
    (escapeChar_cases c).resolve_right fun hmem => h (List.mem_flatMap.2 ⟨c, hc, hmem⟩)
  rw [Json.escape, List.flatMap_congr hchars]
  exact List.flatMap_singleton' _

/-- No other name is written like a plain one. -/
theorem escape_eq_toList_iff {name field : String} (h : IsPlain field) :
    Json.escape name = field.toList ↔ name = field := by
  constructor
  · intro heq
    -- a name that needs escaping is written with a backslash, and a plain one has none
    have hslash : '\\' ∉ Json.escape name := by
      rw [heq]
      exact fun hmem => (h _ hmem).2.1 rfl
    rw [escape_of_not_mem hslash] at heq
    exact String.toList_inj.1 heq
  · rintro rfl
    exact escape_of_plain h

theorem memberWritten?_plain {field : String} (h : IsPlain field) (members : List (String × Json)) :
    memberWritten? field.toList members = Json.member? field members := by
  induction members with
  | nil => rfl
  | cons member members ih =>
    rw [memberWritten?, Json.member?, ih]
    simp only [escape_eq_toList_iff h, eq_comm]

/-! ## Following the path of a field -/

/-- The path of a plain name is not cut short by a NUL. -/
theorem ofField_plain {field : String} (h : IsPlain field) :
    ofField field = '.' :: '"' :: (field.toList ++ ['"']) := by
  have hnul : ∀ c ∈ field.toList, (c != '\x00') = true := by
    intro c hc
    rw [bne_iff_ne]
    rintro rfl
    exact absurd (h _ hc).2.2 (by decide)
  refine List.takeWhile_eq_self_iff.2 fun c hc => ?_
  simp only [List.cons_append, List.nil_append, List.mem_cons, List.mem_append,
    List.not_mem_nil, or_false] at hc
  rcases hc with rfl | rfl | hc | rfl
  · rfl
  · rfl
  · exact hnul c hc
  · rfl

/-- The label of a plain name ends at the quote after it. -/
theorem label?_plain {field : String} (h : IsPlain field) :
    label? ('"' :: (field.toList ++ ['"'])) = some (.label field.toList, []) := by
  have hquotes : ∀ c ∈ field.toList, (c != '"') = true := fun c hc => bne_iff_ne.2 (h c hc).1
  rw [label?, List.span_eq_takeWhile_dropWhile, List.takeWhile_append_of_pos hquotes,
    List.dropWhile_append_of_pos hquotes]
  simp

/-- The path of a plain name leads to the member of that name. -/
theorem follow_ofField {field : String} (h : IsPlain field) (v : Json) :
    follow ((ofField field).length + 1) (ofField field) v = .ok (v.get? field) := by
  rw [ofField_plain h]
  cases v with
  | object members =>
    have hnext : next? ('.' :: '"' :: (field.toList ++ ['"'])) (.object members) =
        .ok (some (.label field.toList, [])) := by
      rw [next?, label?_plain h]
    have hdown : (Step.label field.toList).down (.object members) = Json.member? field members :=
      memberWritten?_plain h members
    rw [follow, hnext]
    · simp only [bind, Except.bind, hdown, Json.get?]
      cases Json.member? field members <;> rfl
    · simp
  | _ => rfl

/-! ## Texts of fields -/

/-- Truth values, arrays, objects, integers of a signed word and strings without NUL compare as the
store in memory compares them. -/
theorem compareText_eq_keyText {v : Json}
    (hint : ∀ i, v = .number (.int i) → -2 ^ 63 ≤ i ∧ i < 2 ^ 63)
    (hdouble : ∀ bits, v ≠ .number (.double bits))
    (hstring : ∀ s, v = .string s → '\x00' ∉ s.toList) :
    compareText v = keyText (some v) := by
  cases v with
  | string s =>
    have hnul : beforeNul s.toList = s.toList :=
      List.takeWhile_eq_self_iff.2 fun c hc => bne_iff_ne.2 fun h => hstring s rfl (h ▸ hc)
    rw [compareText, hnul, String.ofList_toList]
    rfl
  | number n =>
    cases n with
    | int i =>
      have hword : ((Nat.pow 2 63 : Nat) : Int) = 2 ^ 63 := rfl
      have hi := hint i rfl
      rw [compareText, hword, if_pos hi]
      rfl
    | double bits => exact absurd rfl (hdouble bits)
  | _ => rfl

end FieldPath

theorem keyText_eq_some_iff {v : Json} {text : String} :
    keyText (some v) = some text ↔
      v = .string text ∨ v ≠ .null ∧ (∀ s, v ≠ .string s) ∧ v.text = text := by
  cases v <;> simp [keyText]

/-- A field is found by a text if its value is that string, or another value of that text. -/
theorem fieldText_eq_some_iff {value : Json} {field text : String} :
    fieldText value field = some text ↔ ∃ members v, value = .object members ∧
      Json.member? field members = some v ∧
      (v = .string text ∨ v ≠ .null ∧ (∀ s, v ≠ .string s) ∧ v.text = text) := by
  rw [fieldText]
  cases value with
  | object members =>
    cases hv : Json.member? field members with
    | none => simp [Json.get?, hv, keyText]
    | some v => simp [Json.get?, hv, keyText_eq_some_iff]
  | _ => simp [Json.get?, keyText]

namespace Sql

/-! ## The query -/

/-- Testing what was written, one after the other. -/
theorem Tables.filterRows_map_ok {test : StateRow → Except Error Bool} {write : Row → StateRow}
    {found : Row → Bool} {rows : List Row} (h : ∀ r ∈ rows, test (write r) = .ok (found r)) :
    Tables.filterRows test (rows.map write) = .ok ((rows.filter found).map write) := by
  induction rows with
  | nil => rfl
  | cons r rows ih =>
    rw [List.map_cons, Tables.filterRows, h r (by simp), ih fun s hs => h s (by simp [hs]),
      List.filter_cons]
    cases found r <;> rfl

/-- The text with which the database compares a field of a row. -/
def shownText (r : Row) (field : String) : Option String :=
  (r.value.get? field).bind FieldPath.compareText

variable {moved : Nat} {m : Memory} {t : Tables} {field : String}

theorem hasField_ofRow {r : Row} (hr : StorableRow r) (hfield : FieldPath.IsPlain field)
    (expected : String) :
    Tables.hasField field expected (.ofRow moved r) =
      .ok (shownText r field == some expected) := by
  rw [Tables.hasField, StateRow.ofRow, Tables.column_text hr.value]
  simp only [bind, Except.bind, FieldPath.follow_ofField hfield]
  rfl

/-- A look-up by a plain name finds the rows whose field has the text in the database. -/
theorem Mirrors.rowsByField (h : Mirrors moved m t) (hfield : FieldPath.IsPlain field)
    (name expected : String) :
    t.rowsByField name field expected =
      .ok (((m.liveRows name).filter fun r => shownText r field == some expected).map
        (·.moved moved)) := by
  have hfilter : Tables.filterRows (Tables.hasField field expected) (t.liveRows name) =
      .ok (((m.liveRows name).filter fun r => shownText r field == some expected).map
        (.ofRow moved)) := by
    rw [h.liveRows]
    refine Tables.filterRows_map_ok fun r hr => hasField_ofRow (h.storable r ?_) hfield expected
    exact (List.mem_filter.1 hr).1
  rw [Tables.rowsByField, hfilter]
  refine mapM_map_ok fun r hr => Tables.readRow_ofRow (h.storable r ?_)
  exact (List.mem_filter.1 (List.mem_filter.1 hr).1).1

theorem Mirrors.commitAll (h : Mirrors moved m t) {handovers : List Memory.Handover}
    (hstorable : ∀ o ∈ handovers, StorableBatch o.batch) :
    Mirrors moved (m.commitAll handovers) (t.commitAll handovers) := by
  induction handovers generalizing m t with
  | nil => exact h
  | cons o handovers ih =>
    have hstep := h.commit (hstorable o (by simp)) o.time o.time o.indexer
    refine ih ?_ fun o' ho' => hstorable o' (by simp [ho'])
    simp only [Tables.commit_eq]
    exact hstep

/-- Two tests pick the same from a list if they agree on what is in it. -/
theorem filter_eq_filter_iff {α : Type} {l : List α} {p q : α → Bool} :
    l.filter p = l.filter q ↔ ∀ a ∈ l, p a = q a := by
  refine ⟨fun h a ha => ?_, List.filter_congr⟩
  have hmem : a ∈ l.filter p ↔ a ∈ l.filter q := by rw [h]
  rw [List.mem_filter, List.mem_filter, and_congr_right_iff] at hmem
  exact Bool.eq_iff_iff.2 (hmem ha)

/-- **Look-ups by field.**  The same batches are committed to a fresh database and to an empty
store in memory.  By a plain name the database finds, in their order, the live rows of the table
whose field has the text in the database, and the store those whose field is that string or
another value of that compact text.  They find the same by every text exactly if each field of
that name in the live rows has the same text in the database as in memory. -/
theorem rowsByField_commitAll {handovers : List Memory.Handover}
    (hstorable : ∀ o ∈ handovers, StorableBatch o.batch) (hfield : FieldPath.IsPlain field)
    (name : String) :
    let m := Memory.empty.commitAll handovers
    let t := Tables.empty.commitAll handovers
    (∀ expected, t.rowsByField name field expected =
        .ok ((m.liveRows name).filter fun r => shownText r field == some expected)) ∧
      (∀ expected r, r ∈ m.rowsByField name field expected ↔
        r ∈ m.liveRows name ∧ ∃ members v, r.value = .object members ∧
          Json.member? field members = some v ∧
          (v = .string expected ∨ v ≠ .null ∧ (∀ s, v ≠ .string s) ∧ v.text = expected)) ∧
      ((∀ expected, t.rowsByField name field expected =
          .ok (m.rowsByField name field expected)) ↔
        ∀ r ∈ m.liveRows name, ∀ v, r.value.get? field = some v →
          FieldPath.compareText v = keyText (some v)) := by
  intro m t
  have hmirrors : Mirrors 0 m t := Mirrors.empty.commitAll hstorable
  have hdatabase (expected : String) : t.rowsByField name field expected =
      .ok ((m.liveRows name).filter fun r => shownText r field == some expected) := by
    have hmoved : (fun r : Row => r.moved 0) = id := funext fun r => by simp [Row.moved]
    rw [hmirrors.rowsByField hfield, hmoved, List.map_id]
  refine ⟨hdatabase, fun expected r => ?_, ?_⟩
  · rw [Memory.rowsByField, List.mem_filter, beq_iff_eq, fieldText_eq_some_iff]
  · simp only [hdatabase, Except.ok.injEq, Memory.rowsByField, filter_eq_filter_iff]
    constructor
    · intro h r hr v hv
      refine Option.ext fun text => ?_
      have htext := h text r hr
      rw [Bool.eq_iff_iff, beq_iff_eq, beq_iff_eq, shownText, fieldText, hv] at htext
      exact htext
    · intro h expected r hr
      have htexts : shownText r field = fieldText r.value field := by
        rw [shownText, fieldText]
        cases hv : r.value.get? field with
        | none => rfl
        | some v => exact h r hr v hv
      rw [htexts]

/-! ### A team and some quotes -/

/-- A row whose value has a string and an integer. -/
def player : List Memory.Handover :=
  [Tables.setOf "player" (.object [("hp", .number (.int 10)), ("team", .string "red")]) 1 "a"]

theorem rowsByField_commitAll_player :
    (∀ o ∈ player, StorableBatch o.batch) ∧ FieldPath.IsPlain "hp" ∧
      ((Memory.empty.commitAll player).rowsByField "player" "hp" "10").map (·.id) = [1] ∧
      ∀ expected, (Tables.empty.commitAll player).rowsByField "player" "hp" expected =
        .ok ((Memory.empty.commitAll player).rowsByField "player" "hp" expected) := by
  have hstorable : ∀ o ∈ player, StorableBatch o.batch := by
    simp only [player, Tables.setOf, Memory.changeOf, List.forall_mem_singleton]
    refine ⟨?_, by simp [Batch.empty]⟩
    simp only [List.forall_mem_singleton]
    refine ⟨by decide, ?_⟩
    simp only [Option.mem_some_iff, forall_eq', Json.ReadsBack]
    cbv
  have hplain : FieldPath.IsPlain "hp" := by simp [FieldPath.IsPlain]
  have hlive : ((Memory.empty.commitAll player).liveRows "player").map (·.value.get? "hp") =
      [some (.number (.int 10))] := by cbv
  refine ⟨hstorable, hplain, by cbv, ?_⟩
  refine (rowsByField_commitAll hstorable hplain "player").2.2.2 fun r hr v hv => ?_
  have hten : some v ∈ ((Memory.empty.commitAll player).liveRows "player").map
      (·.value.get? "hp") := List.mem_map.2 ⟨r, hr, hv⟩
  rw [hlive, List.mem_singleton, Option.some.injEq] at hten
  rw [hten]
  refine FieldPath.compareText_eq_keyText ?_ (by simp) (by simp)
  rintro i ⟨⟩
  decide

/-- Rows of which the first has a name with a quote, and the second a value within a value. -/
def quoted : List Memory.Handover :=
  [Tables.setOf "T" (.object [("a\"", .string "x")]) 1 "a",
    Tables.setOf "U" (.object [("a", .object [("b", .string "y")])]) 1 "b",
    Tables.setOf "V" (.object [("a", .number (.int 5))]) 1 "c"]

/-- A name with a quote in it is not found, or leads to a value within a value, or is no path. -/
theorem rowsByField_quoted :
    let m := Memory.empty.commitAll quoted
    let t := Tables.empty.commitAll quoted
    ((m.rowsByField "T" "a\"" "x").map (·.id) = [1] ∧
        (t.rowsByField "T" "a\"" "x").map (·.map (·.id)) = .ok []) ∧
      ((m.rowsByField "U" "a\".\"b" "y").map (·.id) = [] ∧
        (t.rowsByField "U" "a\".\"b" "y").map (·.map (·.id)) = .ok [2]) ∧
      ((m.rowsByField "V" "a\"" "5").map (·.id) = [] ∧
        (t.rowsByField "V" "a\"" "5").map (·.map (·.id)) = .error (.storage
          "error returned from database: (code: 1) JSON path error near '\"'")) := by
  refine ⟨⟨?_, ?_⟩, ⟨?_, ?_⟩, ?_, ?_⟩ <;> cbv

end Sql

end LedgerIndex
