import LedgerIndex.Node.Client
import LedgerIndex.Proofs.Batch.Outcomes
import LedgerIndex.Proofs.Traversal

/-!
# What a block leaves in the log of calls

A block says what its transaction does in a value of any shape.  What is logged of it is told here
by relations on that value, with a rule for each shape: which member lists something (`Lists`), what
an argument stands for (`Resolves`), which commands are calls (`CallsAmong`).  Each relation is that
of one function, so it admits one result only, and along a page the log of calls is that of its
blocks, one after the other (`logged_ofPage`).
-/

namespace LedgerIndex

/-! ## Words -/

/-- A number is an unsigned word just if it is the integer that the word stands for. -/
theorem Number.toUInt64?_eq_some_iff {m : Number} {n : UInt64} :
    m.toUInt64? = some n ↔ m = .ofUInt64 n := by
  constructor
  · intro h
    unfold Number.toUInt64? at h
    split at h
    · split at h
      · rename_i k hk
        cases h
        simp [Number.ofUInt64, Nat.mod_eq_of_lt hk]
      · cases h
    · cases h
  · rintro rfl
    exact Number.toUInt64?_ofUInt64 n

/-- A value is an unsigned word just if it is written as one. -/
theorem Json.uint64?_eq_some_iff {v : Json} {n : UInt64} : v.uint64? = some n ↔ v = .ofUInt64 n := by
  constructor
  · intro h
    cases v with
    | number m =>
      rw [Number.toUInt64?_eq_some_iff.1 h]
      rfl
    | null | bool | string | array | object => cases h
  · rintro rfl
    exact Number.toUInt64?_ofUInt64 n

namespace Node

/-! ## Members -/

/-- What a member lists: the items of its array, and nothing if it is no array. -/
inductive Lists (name : String) (v : Json) : List Json → Prop
  | array {items : List Json} : v.get? name = some (.array items) → Lists name v items
  | nothing : (∀ items, v.get? name ≠ some (.array items)) → Lists name v []

/-- What a member says: its text, and the empty one if it is no text. -/
inductive Reads (name : String) (v : Json) : String → Prop
  | string {s : String} : v.get? name = some (.string s) → Reads name v s
  | nothing : (∀ s, v.get? name ≠ some (.string s)) → Reads name v ""

theorem listMember_of_array {name : String} {v : Json} {items : List Json}
    (h : v.get? name = some (.array items)) : listMember name v = items := by
  rw [listMember, h]
  rfl

theorem listMember_of_ne {name : String} {v : Json}
    (h : ∀ items, v.get? name ≠ some (.array items)) : listMember name v = [] := by
  unfold listMember
  cases hv : v.get? name with
  | none => rfl
  | some w =>
    cases w with
    | array items => exact absurd hv (h items)
    | null | bool | number | string | object => rfl

theorem lists_iff {name : String} {v : Json} {items : List Json} :
    Lists name v items ↔ listMember name v = items := by
  constructor
  · intro h
    cases h with
    | array h => exact listMember_of_array h
    | nothing h => exact listMember_of_ne h
  · rintro rfl
    by_cases h : ∃ items, v.get? name = some (.array items)
    · obtain ⟨items, h⟩ := h
      rw [listMember_of_array h]
      exact .array h
    · have h := not_exists.1 h
      rw [listMember_of_ne h]
      exact .nothing h

theorem textMember_of_string {name : String} {v : Json} {s : String}
    (h : v.get? name = some (.string s)) : textMember name v = s := by
  rw [textMember, h]
  rfl

theorem textMember_of_ne {name : String} {v : Json} (h : ∀ s, v.get? name ≠ some (.string s)) :
    textMember name v = "" := by
  unfold textMember
  cases hv : v.get? name with
  | none => rfl
  | some w =>
    cases w with
    | string s => exact absurd hv (h s)
    | null | bool | number | array | object => rfl

theorem reads_iff {name : String} {v : Json} {s : String} :
    Reads name v s ↔ textMember name v = s := by
  constructor
  · intro h
    cases h with
    | string h => exact textMember_of_string h
    | nothing h => exact textMember_of_ne h
  · rintro rfl
    by_cases h : ∃ s, v.get? name = some (.string s)
    · obtain ⟨s, h⟩ := h
      rw [textMember_of_string h]
      exact .string h
    · have h := not_exists.1 h
      rw [textMember_of_ne h]
      exact .nothing h

/-! ## Arguments -/

/-- What an input stands for. -/
inductive Denotes (input : Json) : Json → Prop
  | pure : input.get? "type" = some (.string "pure") →
      Denotes input ((input.get? "value").getD .null)
  | object : input.get? "type" = some (.string "object") →
      Denotes input ((input.get? "objectId").getD input)
  | itself : input.get? "type" ≠ some (.string "pure") →
      input.get? "type" ≠ some (.string "object") → Denotes input input

/-- What is logged for an argument.  What an input stands for is logged as it is, even if it looks
like a reference itself. -/
inductive Resolves (inputs : List Json) (argument : Json) : Json → Prop
  /-- a reference to an input that there is -/
  | input {n : UInt64} {input v : Json} : argument.get? "Input" = some (.ofUInt64 n) →
      inputs[n.toNat]? = some input → Denotes input v → Resolves inputs argument v
  | kept : (∀ n : UInt64, n.toNat < inputs.length → argument.get? "Input" ≠ some (.ofUInt64 n)) →
      Resolves inputs argument argument

theorem inputValue_of_pure {input : Json} (h : input.get? "type" = some (.string "pure")) :
    inputValue input = (input.get? "value").getD .null := by
  simp [inputValue, h]

theorem inputValue_of_object {input : Json} (h : input.get? "type" = some (.string "object")) :
    inputValue input = (input.get? "objectId").getD input := by
  simp [inputValue, h]

theorem inputValue_of_ne {input : Json} (hpure : input.get? "type" ≠ some (.string "pure"))
    (hobject : input.get? "type" ≠ some (.string "object")) : inputValue input = input := by
  unfold inputValue
  split
  · contradiction
  · contradiction
  · rfl

theorem denotes_iff {input v : Json} : Denotes input v ↔ inputValue input = v := by
  constructor
  · intro h
    cases h with
    | pure h => exact inputValue_of_pure h
    | object h => exact inputValue_of_object h
    | itself hpure hobject => exact inputValue_of_ne hpure hobject
  · rintro rfl
    by_cases hpure : input.get? "type" = some (.string "pure")
    · rw [inputValue_of_pure hpure]
      exact .pure hpure
    by_cases hobject : input.get? "type" = some (.string "object")
    · rw [inputValue_of_object hobject]
      exact .object hobject
    · rw [inputValue_of_ne hpure hobject]
      exact .itself hpure hobject

theorem reference_eq_some_iff {argument : Json} {n : UInt64} :
    (argument.get? "Input").bind Json.uint64? = some n ↔
      argument.get? "Input" = some (.ofUInt64 n) := by
  rw [Option.bind_eq_some_iff]
  constructor
  · rintro ⟨v, hv, hn⟩
    rw [hv, Json.uint64?_eq_some_iff.1 hn]
  · intro h
    exact ⟨_, h, Json.uint64?_eq_some_iff.2 rfl⟩

theorem resolve_of_input {inputs : List Json} {argument input : Json} {n : UInt64}
    (hn : argument.get? "Input" = some (.ofUInt64 n)) (hinput : inputs[n.toNat]? = some input) :
    resolve inputs argument = inputValue input := by
  unfold resolve
  rw [reference_eq_some_iff.2 hn]
  simp only [hinput]

theorem resolve_of_none {inputs : List Json} {argument : Json}
    (h : ∀ n : UInt64, n.toNat < inputs.length → argument.get? "Input" ≠ some (.ofUInt64 n)) :
    resolve inputs argument = argument := by
  unfold resolve
  cases hn : (argument.get? "Input").bind Json.uint64? with
  | none => rfl
  | some n =>
    have hout : inputs.length ≤ n.toNat := by
      by_contra hlt
      exact h n (by omega) (reference_eq_some_iff.1 hn)
    simp only [List.getElem?_eq_none hout]

theorem resolves_iff {inputs : List Json} {argument v : Json} :
    Resolves inputs argument v ↔ resolve inputs argument = v := by
  constructor
  · intro h
    cases h with
    | input hn hinput hv => rw [resolve_of_input hn hinput, denotes_iff.1 hv]
    | kept h => exact resolve_of_none h
  · rintro rfl
    by_cases h : ∀ n : UInt64, n.toNat < inputs.length →
        argument.get? "Input" ≠ some (.ofUInt64 n)
    · rw [resolve_of_none h]
      exact .kept h
    · push Not at h
      obtain ⟨n, hlt, hn⟩ := h
      have hinput := List.getElem?_eq_getElem hlt
      rw [resolve_of_input hn hinput]
      exact .input hn hinput (denotes_iff.2 rfl)

/-! ## Commands -/

/-- The calls among some commands, in their order. -/
inductive CallsAmong : List Json → List Json → Prop
  | nil : CallsAmong [] []
  | call {command call : Json} {commands found : List Json} :
      command.get? "MoveCall" = some call → CallsAmong commands found →
        CallsAmong (command :: commands) (call :: found)
  | other {command : Json} {commands found : List Json} :
      command.get? "MoveCall" = none → CallsAmong commands found →
        CallsAmong (command :: commands) found

/-- A call is what its members say, with each argument resolved. -/
structure Calls (inputs : List Json) (call : Json) (c : Call) : Prop where
  package : Reads "package" call c.package
  module : Reads "module" call c.module
  function : Reads "function" call c.function
  arguments : ∃ written resolved, Lists "arguments" call written ∧
    c.arguments = .array resolved ∧ List.Forall₂ (Resolves inputs) written resolved

theorem callsAmong_iff {commands found : List Json} :
    CallsAmong commands found ↔ commands.filterMap (·.get? "MoveCall") = found := by
  constructor
  · intro h
    induction h with
    | nil => rfl
    | call hcall _ ih => rw [List.filterMap_cons_some hcall, ih]
    | other hother _ ih => rw [List.filterMap_cons_none hother, ih]
  · rintro rfl
    induction commands with
    | nil => exact .nil
    | cons command commands ih =>
      cases hcall : command.get? "MoveCall" with
      | none =>
        rw [List.filterMap_cons_none hcall]
        exact .other hcall ih
      | some call =>
        rw [List.filterMap_cons_some hcall]
        exact .call hcall ih

theorem forall₂_resolves_iff {inputs written resolved : List Json} :
    List.Forall₂ (Resolves inputs) written resolved ↔ written.map (resolve inputs) = resolved :=
  forall₂_iff_map (Resolves inputs) (resolve inputs) fun _ _ => resolves_iff

theorem calls_iff {inputs : List Json} {call : Json} {c : Call} :
    Calls inputs call c ↔ callOf inputs call = c := by
  constructor
  · rintro ⟨hpackage, hmodule, hfunction, written, resolved, hwritten, harguments, hresolved⟩
    rw [callOf, reads_iff.1 hpackage, reads_iff.1 hmodule, reads_iff.1 hfunction,
      lists_iff.1 hwritten, forall₂_resolves_iff.1 hresolved, ← harguments]
  · rintro rfl
    exact
      ⟨reads_iff.2 rfl, reads_iff.2 rfl, reads_iff.2 rfl, _, _, lists_iff.2 rfl, rfl,
        forall₂_resolves_iff.2 rfl⟩

theorem forall₂_calls_iff {inputs found : List Json} {cs : List Call} :
    List.Forall₂ (Calls inputs) found cs ↔ found.map (callOf inputs) = cs :=
  forall₂_iff_map (Calls inputs) (callOf inputs) fun _ _ => calls_iff

/-! ## Transactions -/

/-- What is logged of what a transaction does: its calls, and a blank one if there is none. -/
inductive Logged (kind : Json) : List Call → Prop
  | foreign : kind.get? "kind" ≠ some (.string "ProgrammableTransaction") → Logged kind [.blank]
  | silent {commands : List Json} :
      kind.get? "kind" = some (.string "ProgrammableTransaction") →
        Lists "transactions" kind commands → CallsAmong commands [] → Logged kind [.blank]
  | calls {inputs commands found : List Json} {cs : List Call} :
      kind.get? "kind" = some (.string "ProgrammableTransaction") → Lists "inputs" kind inputs →
        Lists "transactions" kind commands → CallsAmong commands found → found ≠ [] →
          List.Forall₂ (Calls inputs) found cs → Logged kind cs

theorem calls_of_ne {kind : Json}
    (h : kind.get? "kind" ≠ some (.string "ProgrammableTransaction")) : calls kind = [] := by
  unfold calls
  split
  · contradiction
  · rfl

theorem calls_of_programmable {kind : Json}
    (h : kind.get? "kind" = some (.string "ProgrammableTransaction")) :
    calls kind = ((listMember "transactions" kind).filterMap (·.get? "MoveCall")).map
      (callOf (listMember "inputs" kind)) := by
  simp [calls, h]

theorem logged_iff {kind : Json} {cs : List Call} :
    Logged kind cs ↔ (if (calls kind).isEmpty then [Call.blank] else calls kind) = cs := by
  constructor
  · intro h
    cases h with
    | foreign h =>
      rw [calls_of_ne h]
      rfl
    | silent h hcommands hfound =>
      rw [calls_of_programmable h, lists_iff.1 hcommands, callsAmong_iff.1 hfound]
      rfl
    | @calls inputs commands found _ h hinputs hcommands hfound hsome hcs =>
      have hne : found.map (callOf inputs) ≠ [] := fun hnil => hsome (List.map_eq_nil_iff.1 hnil)
      rw [calls_of_programmable h, lists_iff.1 hinputs, lists_iff.1 hcommands,
        callsAmong_iff.1 hfound, if_neg (by simpa using hne)]
      exact forall₂_calls_iff.1 hcs
  · rintro rfl
    by_cases h : kind.get? "kind" = some (.string "ProgrammableTransaction")
    · rw [calls_of_programmable h]
      by_cases hfound : (listMember "transactions" kind).filterMap (·.get? "MoveCall") = []
      · rw [hfound]
        exact .silent h (lists_iff.2 rfl) (callsAmong_iff.2 hfound)
      · rw [if_neg (by simpa using hfound)]
        exact .calls h (lists_iff.2 rfl) (lists_iff.2 rfl) (callsAmong_iff.2 rfl) hfound
          (forall₂_calls_iff.2 rfl)
    · rw [calls_of_ne h]
      exact .foreign h

/-! ## Blocks -/

/-- The records are those of a block, logged at a time: what they say is what is logged of what the
block does, and nothing else is, and each has the marks of the block. -/
structure Block.Logs (now : Int) (b : Block) (records : List CallRecord) : Prop where
  said : ∀ d, b.data = some d → ∀ cs, Logged d.transaction cs ↔ cs = records.map (·.call)
  unsigned : b.data = none → records.map (·.call) = [.blank]
  marks : ∀ r ∈ records, r.digest = b.digest ∧ r.cursor = b.digest ∧
    b.checkpoint? = some r.checkpoint ∧ r.sender = (b.data.map (·.sender)).getD "" ∧
    r.createdAt = now

namespace Block

/-- A transaction that a block is has a checkpoint. -/
theorem toTransaction_eq_ok {b : Block} {t : Transaction} (h : b.toTransaction = .ok t) :
    b.checkpoint? = some t.checkpoint ∧ t.digest = b.digest ∧
      t.sender = (b.data.map (·.sender)).getD "" ∧
      t.calls = (b.data.map fun d => Node.calls d.transaction).getD [] := by
  unfold toTransaction at h
  cases hcheckpoint : b.checkpoint? with
  | none =>
    rw [hcheckpoint] at h
    cases h
  | some checkpoint =>
    rw [hcheckpoint] at h
    cases h
    exact ⟨rfl, rfl, rfl, rfl⟩

theorem createdAt_of_mem_callRecords {now : Int} {t : Transaction} {r : CallRecord}
    (hr : r ∈ Batch.callRecords now t) : r.createdAt = now := by
  unfold Batch.callRecords at hr
  split at hr
  · cases List.mem_singleton.1 hr
    rfl
  · obtain ⟨c, -, rfl⟩ := List.mem_map.1 hr
    rfl

theorem logs_callRecords (now : Int) {b : Block} {t : Transaction} (h : b.toTransaction = .ok t) :
    b.Logs now (Batch.callRecords now t) := by
  obtain ⟨hcheckpoint, hdigest, hsender, hcalls⟩ := toTransaction_eq_ok h
  have hlogs := Batch.logs_callRecords now t
  constructor
  · intro d hd cs
    have htd : t.calls = Node.calls d.transaction := by rw [hcalls, hd]; rfl
    rw [logged_iff, hlogs.calls, htd]
    exact eq_comm
  · intro hd
    have hnil : t.calls = [] := by rw [hcalls, hd]; rfl
    rw [hlogs.calls, hnil]
    rfl
  · intro r hr
    obtain ⟨hrdigest, hrcheckpoint, hrsender⟩ := hlogs.marks r hr
    refine ⟨hrdigest.trans hdigest, (hlogs.cursor r hr).trans hdigest, ?_, hrsender.trans hsender,
      createdAt_of_mem_callRecords hr⟩
    rw [hcheckpoint, hrcheckpoint]

end Block

/-- **The log of calls follows from what the blocks say.**  Whatever the blocks of a page hold, and
whatever filter sorts their events, the log of calls is that of the blocks one after the other: a
block that is no programmable transaction leaves a blank record, and another one a record for each
command that is a call, in their order, or a blank one if there is none.  The arguments of a record
are those of its command, one for one; a reference to an input that there is stands for what this
input denotes, and any other argument for itself. -/
theorem logged_ofPage (filter : TypeFilter) (now : Int) {p : Page} {ts : List Transaction}
    (h : p.transactions = .ok ts) :
    ∃ groups, (Batch.ofPage filter now ts).calls = groups.flatten ∧
      List.Forall₂ (Block.Logs now) p.blocks groups := by
  have hblocks : List.Forall₂ (fun b t => Block.toTransaction b = .ok t) p.blocks ts :=
    mapM_eq_ok_iff.1 h
  refine ⟨ts.map (Batch.callRecords now), ?_, ?_⟩
  · rw [Batch.calls_ofPage, List.flatMap_def]
  · exact List.forall₂_map_right_iff.2
      (hblocks.imp fun b t hbt => Block.logs_callRecords now hbt)

/-- A reference to an input. -/
def reference (n : UInt64) : Json := .object [("Input", .ofUInt64 n)]

/-- A purchase: an object, a pure input that looks like a reference, and inputs that lack what they
should hold. -/
def purchase : Json :=
  .object
    [ ("inputs",
        .array
          [ .object [("objectId", .string "0xshop"), ("type", .string "object")],
            .object [("type", .string "pure"), ("value", reference 0)],
            .object [("type", .string "pure")],
            .object [("type", .string "object")],
            .bool true ]),
      ("kind", .string "ProgrammableTransaction"),
      ("transactions",
        .array
          [ .object [("SplitCoins", reference 1)],
            .object
              [("MoveCall",
                .object
                  [ ("arguments",
                      .array
                        [ reference 0, reference 1, reference 2, reference 3, reference 4,
                          reference 5, .object [("Result", .ofUInt64 0)] ]),
                    ("function", .string "buy"), ("module", .string "shop"),
                    ("package", .string "0x2") ])],
            .object [("TransferObjects", .null)],
            .object [("MoveCall", .object [("arguments", .null), ("function", .bool true)])] ]) ]

/-- The purchase, and a block of the system itself. -/
def purchasePage : Page :=
  { blocks :=
      [ ⟨"d1", some "7", none, some ⟨"0x1", purchase⟩, []⟩,
        ⟨"d2", some "8", none, some ⟨"0x0", .object [("kind", .string "Genesis")]⟩, []⟩ ]
    nextCursor := none
    hasNextPage := false }

/-- The calls of the purchase. -/
def purchaseCalls : List Call :=
  [ ⟨"0x2", "shop", "buy",
      .array
        [ .string "0xshop", reference 0, .null, .object [("type", .string "object")], .bool true,
          reference 5, .object [("Result", .ofUInt64 0)] ]⟩,
    .blank ]

/-- The transactions that the page is. -/
def purchasesRead : List Transaction :=
  [⟨"d1", 7, 0, "0x1", purchaseCalls, []⟩, ⟨"d2", 8, 0, "0x0", [], []⟩]

theorem logged_ofPage_purchase :
    purchasePage.transactions = .ok purchasesRead ∧
      (∃ groups, (Batch.ofPage .all 0 purchasesRead).calls = groups.flatten ∧
        List.Forall₂ (Block.Logs 0) purchasePage.blocks groups) ∧
      (Batch.ofPage .all 0 purchasesRead).calls.map (fun r => (r.digest, r.call)) =
        purchaseCalls.map (fun c => ("d1", c)) ++ [("d2", .blank)] := by
  have hpage : purchasePage.transactions = .ok purchasesRead := rfl
  exact ⟨hpage, logged_ofPage .all 0 hpage, rfl⟩

end Node

end LedgerIndex
