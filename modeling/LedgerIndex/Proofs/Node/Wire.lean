import LedgerIndex.Proofs.Json.Records
import LedgerIndex.Scripted.HttpServer

/-!
# What a node writes can be written again

A page of transactions and a response come of many texts: their records may be objects with the
members in any order, or arrays, and what is not there may be left out or `null`.  Whatever the text
was, the page or the response is read back from the form in which it is written
(`nodeWire_roundTrip`).  Two things carry this.  The fields of each record are found again under the
names, and with the shapes, with which they are written (`fromMembers_members`).  And what was taken
from a text is not nested deeper than a text may be, and stands in its place only if it is not
`null` (`retakes_of_takes`).
-/

namespace LedgerIndex.Node

open Shape

/-! ## Events -/

namespace BlockEvent

/-- The fields in which an event is found. -/
def found (e : BlockEvent) : Fields := ⟨some e.type, some e.sender, e.parsedJson⟩

theorem ofFields_eq_ok_iff {s : Fields} {e : BlockEvent} : ofFields s = .ok e ↔ s = e.found := by
  obtain ⟨_ | type, _ | sender, parsedJson⟩ := s <;> obtain ⟨type', sender', parsedJson'⟩ := e <;>
    simp [ofFields, found, required, bind, Except.bind, pure, Except.pure]

theorem commuting_fields : Commuting fields := .of_pairwise (by simp [fields])

@[simp]
theorem stable_shape : shape.Stable := stable_record commuting_fields (by simp [fields]) _ _

/-- What is found with so much room. -/
def Fields.Fits (room : Nat) (s : Fields) : Prop := s.parsedJson.Kept room

theorem fits_fields : ∀ f ∈ fields, f.Keeps Fields.Fits := by
  simp only [fields, List.forall_mem_cons, List.not_mem_nil, false_imp_iff, implies_true, and_true]
  exact ⟨Field.keeps_of fun hs _ => hs, Field.keeps_of fun hs _ => hs,
    Field.keeps_of fun _ h => Reading.kept_of_json h⟩

theorem fromMembers_members {room : Nat} {e : BlockEvent} (h : e.parsedJson.Kept room) :
    fromMembers fields room (e.members.map Reading.ofMember) .closed [] ⟨none, none, .null⟩ =
      .ok e.found := by
  have hjson : Reading.json room (.ofJson e.parsedJson) = .ok e.parsedJson := Reading.json_ofJson h
  simp [members, found, fromMembers, fields, Field.of, Reading.ofMember, Reading.ofJson, bind,
    Except.bind, Except.map, Shape.string, Shape.json, hjson]

theorem retakes_of_takes {room : Nat} {e : BlockEvent} (h : shape.Takes room e) :
    Retakes shape toJson room e := by
  obtain ⟨n, s, rfl, hfits, hs⟩ := exists_record h (fun _ => .null) fits_fields
  obtain rfl := ofFields_eq_ok_iff.1 hs
  have hkept : e.parsedJson.Kept n := hfits
  exact .record commuting_fields (by simp [members]) (by simp [members, hkept])
    (fromMembers_members hkept) hs

theorem integral_toJson {e : BlockEvent} (h : e.parsedJson.Integral) : e.toJson.Integral :=
  .ofMembers (by simp [members, h])

end BlockEvent

/-! ## Blocks -/

namespace BlockData

/-- The fields in which the signed part is found. -/
def found (d : BlockData) : Fields := ⟨some d.sender, some d.transaction⟩

theorem ofFields_eq_ok_iff {s : Fields} {d : BlockData} : ofFields s = .ok d ↔ s = d.found := by
  obtain ⟨_ | sender, _ | transaction⟩ := s <;> obtain ⟨sender', transaction'⟩ := d <;>
    simp [ofFields, found, required, bind, Except.bind, pure, Except.pure]

theorem commuting_fields : Commuting fields := .of_pairwise (by simp [fields])

theorem commuting_wrapping : Commuting wrapping := .of_pairwise (List.pairwise_singleton ..)

@[simp]
theorem stable_wrapped : wrapped.Stable := by
  have hshape : shape.Stable := stable_record commuting_fields (by simp [fields]) _ _
  exact stable_record commuting_wrapping (by simp [wrapping, hshape]) _ _

/-- What is found with so much room. -/
def Fields.Fits (room : Nat) (s : Fields) : Prop := ∀ v ∈ s.transaction, v.Kept room

theorem fits_fields : ∀ f ∈ fields, f.Keeps Fields.Fits := by
  simp only [fields, List.forall_mem_cons, List.not_mem_nil, false_imp_iff, implies_true, and_true]
  refine ⟨Field.keeps_of fun hs _ => hs, Field.keeps_of fun _ h v hv => ?_⟩
  obtain rfl := Option.mem_some_iff.1 hv
  exact Reading.kept_of_json h

theorem fromMembers_members {room : Nat} {d : BlockData} (h : d.transaction.Kept room) :
    fromMembers fields room (d.members.map Reading.ofMember) .closed [] ⟨none, none⟩ =
      .ok d.found := by
  have hjson : Reading.json room (.ofJson d.transaction) = .ok d.transaction :=
    Reading.json_ofJson h
  simp [members, found, fromMembers, fields, Field.of, Reading.ofMember, Reading.ofJson, bind,
    Except.bind, Except.map, Shape.string, Shape.json, hjson]

theorem retakes_of_takes {room : Nat} {d : BlockData} (h : shape.Takes room d) :
    Retakes shape toJson room d := by
  obtain ⟨n, s, rfl, hfits, hs⟩ := exists_record h (fun _ => nofun) fits_fields
  obtain rfl := ofFields_eq_ok_iff.1 hs
  have hkept : d.transaction.Kept n := hfits _ rfl
  exact .record commuting_fields (by simp [members]) (by simp [members, hkept])
    (fromMembers_members hkept) hs

theorem retakes_wrapped {room : Nat} {d : BlockData} (h : wrapped.Takes room d) :
    Retakes wrapped toWrapper room d := by
  have hwrapping : ∀ f ∈ wrapping, f.Keeps fun room s => ∀ d ∈ s, shape.Takes room d := by
    refine List.forall_mem_singleton.2 (Field.keeps_of fun _ h d hd => ?_)
    obtain rfl := Option.mem_some_iff.1 hd
    exact ⟨_, h⟩
  obtain ⟨n, s, rfl, htakes, hs⟩ := exists_record h (fun _ => nofun) hwrapping
  obtain _ | d' := s
  · cases hs
  · cases hs
    obtain ⟨hkept, htaken⟩ := retakes_of_takes (htakes _ rfl)
    have hmembers : fromMembers wrapping n (d.wrapper.map Reading.ofMember) .closed [] none =
        .ok (some d) := by
      simp [wrapper, fromMembers, wrapping, Field.of, Reading.ofMember, bind, Except.bind,
        Except.map, htaken]
    exact .record commuting_wrapping (List.nodup_singleton _)
      (List.forall_mem_singleton.2 hkept) hmembers rfl

theorem integral_toWrapper {d : BlockData} (h : d.transaction.Integral) :
    d.toWrapper.Integral := by
  have hinner : d.toJson.Integral := .ofMembers (by simp [members, h])
  exact .ofMembers (List.forall_mem_singleton.2 hinner)

end BlockData

namespace Block

/-- The fields in which a block is found. -/
def found (b : Block) : Fields := ⟨some b.digest, b.checkpoint, b.timestamp, b.data, b.events⟩

theorem ofFields_eq_ok_iff {s : Fields} {b : Block} : ofFields s = .ok b ↔ s = b.found := by
  obtain ⟨_ | digest, checkpoint, timestamp, data, events⟩ := s <;> obtain ⟨digest'⟩ := b <;>
    simp [ofFields, found, required, bind, Except.bind, pure, Except.pure]

theorem commuting_fields : Commuting fields := .of_pairwise (by simp [fields])

@[simp]
theorem stable_shape : shape.Stable := stable_record commuting_fields (by simp [fields]) _ _

/-- What is found with so much room. -/
def Fields.Fits (room : Nat) (s : Fields) : Prop :=
  (∀ d ∈ s.data, BlockData.wrapped.Takes room d) ∧
    ∀ e ∈ s.events, BlockEvent.shape.Takes (room - 1) e

theorem fits_fields : ∀ f ∈ fields, f.Keeps Fields.Fits := by
  simp only [fields, List.forall_mem_cons, List.not_mem_nil, false_imp_iff, implies_true, and_true]
  exact ⟨Field.keeps_of fun hs _ => hs, Field.keeps_of fun hs _ => hs,
    Field.keeps_of fun hs _ => hs,
    Field.keeps_of fun hs h => ⟨takes_of_optional h, hs.2⟩,
    Field.keeps_of fun hs h => ⟨hs.1, takes_of_list h⟩⟩

/-- The members that hold other records are given. -/
theorem fromMembers_members {room : Nat} {b : Block}
    (hdata : Retakes (optional BlockData.wrapped) (.ofOption BlockData.toWrapper) room b.data)
    (hevents : Retakes (list BlockEvent.shape) (fun es => .array (es.map BlockEvent.toJson)) room
      b.events) :
    fromMembers fields room (b.members.map Reading.ofMember) .closed []
      ⟨none, none, none, none, []⟩ = .ok b.found := by
  simp [members, found, fromMembers, fields, Field.of, Reading.ofMember, bind, Except.bind,
    Except.map, hdata.taken, hevents.taken]
  rfl

/-- There is room for the events even where there are none. -/
theorem retakes_of_takes {room : Nat} {b : Block} (h : shape.Takes (room + 2) b) :
    Retakes shape toJson (room + 2) b := by
  obtain ⟨n, s, hn, hfits, hs⟩ := exists_record h (fun _ => ⟨nofun, nofun⟩) fits_fields
  obtain rfl : n = room + 1 := (Nat.succ.inj hn).symm
  obtain rfl := ofFields_eq_ok_iff.1 hs
  have hdata : Retakes (optional BlockData.wrapped) (.ofOption BlockData.toWrapper) (room + 1)
      b.data := .optional fun d hd => ⟨BlockData.retakes_wrapped (hfits.1 d hd), nofun⟩
  have hevents : Retakes (list BlockEvent.shape) (fun es => .array (es.map BlockEvent.toJson))
      (room + 1) b.events := .list fun e he => BlockEvent.retakes_of_takes (hfits.2 e he)
  refine .record commuting_fields (by simp [members]) ?_ (fromMembers_members hdata hevents) hs
  simp [members, hdata.kept, hevents.kept]

/-- The values of a node that a block holds as they are. -/
def embedded (b : Block) : List Json :=
  b.data.toList.map (·.transaction) ++ b.events.map (·.parsedJson)

theorem integral_toJson {b : Block} (h : ∀ v ∈ b.embedded, v.Integral) : b.toJson.Integral := by
  have hdata : (Json.ofOption BlockData.toWrapper b.data).Integral :=
    .ofOption fun d hd => BlockData.integral_toWrapper
      (h _ (List.mem_append_left _ (List.mem_map_of_mem (Option.mem_toList.2 hd))))
  have hevents : (Json.array (b.events.map BlockEvent.toJson)).Integral :=
    .array (List.forall_mem_map.2 fun e he => e.integral_toJson
      (h _ (List.mem_append_right _ (List.mem_map_of_mem he))))
  exact .ofMembers (by simp [members, hdata, hevents])

end Block

/-! ## Pages -/

namespace Page

/-- The fields in which a page is found. -/
def found (p : Page) : Fields := ⟨some p.blocks, p.nextCursor, p.hasNextPage⟩

theorem ofFields_eq_ok_iff {s : Fields} {p : Page} : ofFields s = .ok p ↔ s = p.found := by
  obtain ⟨_ | blocks, nextCursor, hasNextPage⟩ := s <;> obtain ⟨blocks'⟩ := p <;>
    simp [ofFields, found, required, bind, Except.bind, pure, Except.pure]

theorem commuting_fields : Commuting fields := .of_pairwise (by simp [fields])

@[simp]
theorem stable_shape : shape.Stable := stable_record commuting_fields (by simp [fields]) _ _

/-- What is found with so much room. -/
def Fields.Fits (room : Nat) (s : Fields) : Prop :=
  ∀ bs ∈ s.blocks, ∀ b ∈ bs, Block.shape.Takes (room - 1) b

theorem fits_fields : ∀ f ∈ fields, f.Keeps Fields.Fits := by
  simp only [fields, List.forall_mem_cons, List.not_mem_nil, false_imp_iff, implies_true, and_true]
  refine ⟨Field.keeps_of fun _ h bs hbs => ?_, Field.keeps_of fun hs _ => hs,
    Field.keeps_of fun hs _ => hs⟩
  obtain rfl := Option.mem_some_iff.1 hbs
  exact takes_of_list h

/-- The member that holds the blocks is given. -/
theorem fromMembers_members {room : Nat} {p : Page}
    (hblocks : Retakes (list Block.shape) (fun bs => .array (bs.map Block.toJson)) room p.blocks) :
    fromMembers fields room (p.members.map Reading.ofMember) .closed [] ⟨none, none, false⟩ =
      .ok p.found := by
  simp [members, found, fromMembers, fields, Field.of, Reading.ofMember, bind, Except.bind,
    Except.map, hblocks.taken]
  rfl

theorem retakes_of_takes {room : Nat} {p : Page} (h : shape.Takes (room + 4) p) :
    Retakes shape toJson (room + 4) p := by
  obtain ⟨n, s, hn, hfits, hs⟩ := exists_record h (fun _ => nofun) fits_fields
  obtain rfl : n = room + 3 := (Nat.succ.inj hn).symm
  obtain rfl := ofFields_eq_ok_iff.1 hs
  have hblocks : Retakes (list Block.shape) (fun bs => .array (bs.map Block.toJson)) (room + 3)
      p.blocks := .list fun b hb => Block.retakes_of_takes (hfits _ rfl b hb)
  refine .record commuting_fields (by simp [members]) ?_ (fromMembers_members hblocks) hs
  simp [members, hblocks.kept]

/-- The values of a node that a page holds as they are. -/
def embedded (p : Page) : List Json := p.blocks.flatMap Block.embedded

theorem integral_toJson {p : Page} (h : ∀ v ∈ p.embedded, v.Integral) : p.toJson.Integral := by
  have hblocks : (Json.array (p.blocks.map Block.toJson)).Integral :=
    .array (List.forall_mem_map.2 fun b hb => b.integral_toJson fun v hv =>
      h v (List.mem_flatMap.2 ⟨b, hb, hv⟩))
  exact .ofMembers (by simp [members, hblocks])

end Page

/-! ## Responses -/

namespace Refusal

/-- The fields in which an error is found. -/
def found (e : Refusal) : Fields := ⟨some e.code, some e.message, e.data⟩

theorem ofFields_eq_ok_iff {s : Fields} {e : Refusal} : ofFields s = .ok e ↔ s = e.found := by
  obtain ⟨_ | code, _ | message, data⟩ := s <;> obtain ⟨code', message', data'⟩ := e <;>
    simp [ofFields, found, required, bind, Except.bind, pure, Except.pure]

theorem commuting_fields : Commuting fields := .of_pairwise (by simp [fields])

@[simp]
theorem stable_shape : shape.Stable := stable_record commuting_fields (by simp [fields]) _ _

/-- What is found with so much room.  No value is found where there is `null`. -/
def Fields.Fits (room : Nat) (s : Fields) : Prop :=
  (∀ i ∈ s.code, -Nat.pow 2 63 ≤ i ∧ i < Nat.pow 2 63) ∧
    ∀ v ∈ s.data, v ≠ .null ∧ v.Kept room

theorem fits_fields : ∀ f ∈ fields, f.Keeps Fields.Fits := by
  simp only [fields, List.forall_mem_cons, List.not_mem_nil, false_imp_iff, implies_true, and_true]
  refine ⟨Field.keeps_of fun hs h => ⟨fun i hi => ?_, hs.2⟩,
    Field.keeps_of fun hs _ => hs,
    Field.keeps_of fun hs h => ⟨hs.1, kept_of_optional_json h⟩⟩
  obtain rfl := Option.mem_some_iff.1 hi
  exact bounds_of_int64 h

theorem nodup_members (e : Refusal) : (e.members.map (·.1)).Nodup := by
  obtain ⟨code, message, _ | data⟩ := e <;> simp [members, Json.optionalMember]

theorem fromMembers_members {room : Nat} {e : Refusal} (h : e.found.Fits room) :
    fromMembers fields room (e.members.map Reading.ofMember) .closed [] ⟨none, none, none⟩ =
      .ok e.found := by
  obtain ⟨code, message, data⟩ := e
  have hcode : int64 room (.ofJson (.ofInt code)) = .ok code := int64_ofJson (h.1 _ rfl)
  obtain _ | data := data
  · simp [members, Json.optionalMember, found, fromMembers, fields, Field.of, Reading.ofMember,
      Reading.ofJson, bind, Except.bind, Except.map, Shape.string, hcode]
  · obtain ⟨hnull, hkept⟩ := h.2 _ rfl
    have hdata : optional json room (.ofJson data) = .ok (some data) :=
      optional_ofJson_of_ne hnull (Reading.json_ofJson hkept)
    simp [members, Json.optionalMember, found, fromMembers, fields, Field.of, Reading.ofMember,
      Reading.ofJson, bind, Except.bind, Except.map, Shape.string, hcode, hdata]

theorem exists_fits {room : Nat} {e : Refusal} (h : shape.Takes room e) :
    ∃ n, room = n + 1 ∧ e.found.Fits n := by
  obtain ⟨n, s, hn, hfits, hs⟩ := exists_record h (fun _ => ⟨nofun, nofun⟩) fits_fields
  exact ⟨n, hn, ofFields_eq_ok_iff.1 hs ▸ hfits⟩

theorem retakes_of_takes {room : Nat} {e : Refusal} (h : shape.Takes room e) :
    Retakes shape toJson room e := by
  obtain ⟨n, rfl, hfits⟩ := exists_fits h
  have hkept : ∀ m ∈ e.members, m.2.Kept n := List.forall_mem_append.2
    ⟨by simp [Json.ofInt], Json.forall_mem_optionalMember.2 fun v hv => (hfits.2 v hv).2⟩
  exact .record commuting_fields (nodup_members e) hkept (fromMembers_members hfits)
    (ofFields_eq_ok_iff.2 rfl)

theorem integral_toJson {room : Nat} {e : Refusal} (h : shape.Takes room e)
    (hdata : ∀ v ∈ e.data, v.Integral) : e.toJson.Integral := by
  obtain ⟨n, -, hfits⟩ := exists_fits h
  obtain ⟨hlow, hhigh⟩ := hfits.1 _ rfl
  have hcode : (Json.ofInt e.code).Integral := .int hlow (Int.lt_trans hhigh (by decide))
  exact .ofMembers (List.forall_mem_append.2
    ⟨by simp [hcode], Json.forall_mem_optionalMember.2 hdata⟩)

end Refusal

namespace Response

/-- The fields in which a response is found. -/
def found (r : Response) : Fields := ⟨some r.jsonrpc, some r.id, r.result, r.error⟩

theorem ofFields_eq_ok_iff {s : Fields} {r : Response} : ofFields s = .ok r ↔ s = r.found := by
  obtain ⟨_ | jsonrpc, _ | id, result, error⟩ := s <;> obtain ⟨jsonrpc', id'⟩ := r <;>
    simp [ofFields, found, required, bind, Except.bind, pure, Except.pure]

theorem commuting_fields : Commuting fields := .of_pairwise (by simp [fields])

@[simp]
theorem stable_shape : shape.Stable := stable_record commuting_fields (by simp [fields]) _ _

/-- What is found with so much room.  No result is found where there is `null`. -/
def Fields.Fits (room : Nat) (s : Fields) : Prop :=
  (∀ v ∈ s.id, v.Kept room) ∧ (∀ v ∈ s.result, v ≠ .null ∧ v.Kept room) ∧
    ∀ e ∈ s.error, Refusal.shape.Takes room e

theorem fits_fields : ∀ f ∈ fields, f.Keeps Fields.Fits := by
  simp only [fields, List.forall_mem_cons, List.not_mem_nil, false_imp_iff, implies_true, and_true]
  refine ⟨Field.keeps_of fun hs _ => hs,
    Field.keeps_of fun hs h => ⟨fun v hv => ?_, hs.2⟩,
    Field.keeps_of fun hs h => ⟨hs.1, kept_of_optional_json h, hs.2.2⟩,
    Field.keeps_of fun hs h => ⟨hs.1, hs.2.1, takes_of_optional h⟩⟩
  obtain rfl := Option.mem_some_iff.1 hv
  exact Reading.kept_of_json h

theorem nodup_members (r : Response) : (r.members.map (·.1)).Nodup := by
  obtain ⟨jsonrpc, id, _ | result, _ | error⟩ := r <;> simp [members, Json.optionalMember]

theorem fromMembers_members {room : Nat} {r : Response} (h : r.found.Fits room) :
    fromMembers fields room (r.members.map Reading.ofMember) .closed []
      ⟨none, none, none, none⟩ = .ok r.found := by
  obtain ⟨jsonrpc, id, result, error⟩ := r
  have hid : json room (.ofJson id) = .ok id := Reading.json_ofJson (h.1 _ rfl)
  have hresult : ∀ v ∈ result, optional json room (.ofJson v) = .ok (some v) := fun v hv =>
    optional_ofJson_of_ne (h.2.1 v hv).1 (Reading.json_ofJson (h.2.1 v hv).2)
  have herror : ∀ e ∈ error, optional Refusal.shape room (.ofJson e.toJson) = .ok (some e) :=
    fun e he => optional_ofJson_of_ne nofun (Refusal.retakes_of_takes (h.2.2 e he)).taken
  obtain _ | result := result <;> obtain _ | error := error <;>
    simp_all [members, Json.optionalMember, found, fromMembers, fields, Field.of,
      Reading.ofMember, Reading.ofJson, bind, Except.bind, Except.map, Shape.string]

theorem exists_fits {room : Nat} {r : Response} (h : shape.Takes room r) :
    ∃ n, room = n + 1 ∧ r.found.Fits n := by
  obtain ⟨n, s, hn, hfits, hs⟩ := exists_record h (fun _ => ⟨nofun, nofun, nofun⟩) fits_fields
  exact ⟨n, hn, ofFields_eq_ok_iff.1 hs ▸ hfits⟩

theorem retakes_of_takes {room : Nat} {r : Response} (h : shape.Takes room r) :
    Retakes shape toJson room r := by
  obtain ⟨n, rfl, hfits⟩ := exists_fits h
  have hid : r.id.Kept n := hfits.1 _ rfl
  have hresult : ∀ v ∈ r.result, v.Kept n := fun v hv => (hfits.2.1 v hv).2
  have herror : ∀ e ∈ r.error, e.toJson.Kept n := fun e he =>
    (Refusal.retakes_of_takes (hfits.2.2 e he)).kept
  have hkept : ∀ m ∈ r.members, m.2.Kept n := List.forall_mem_append.2
    ⟨List.forall_mem_append.2 ⟨by simp [hid], Json.forall_mem_optionalMember.2 hresult⟩,
      Json.forall_mem_optionalMember.2 herror⟩
  exact .record commuting_fields (nodup_members r) hkept (fromMembers_members hfits)
    (ofFields_eq_ok_iff.2 rfl)

/-- The values of a node that a response holds as they are. -/
def embedded (r : Response) : List Json :=
  r.id :: r.result.toList ++ (r.error.bind (·.data)).toList

theorem integral_toJson {room : Nat} {r : Response} (h : shape.Takes room r)
    (hembedded : ∀ v ∈ r.embedded, v.Integral) : r.toJson.Integral := by
  obtain ⟨n, -, hfits⟩ := exists_fits h
  obtain ⟨hbefore, hdata⟩ := List.forall_mem_append.1 hembedded
  obtain ⟨hid, hresult⟩ := List.forall_mem_cons.1 hbefore
  have herror : ∀ e ∈ r.error, e.toJson.Integral := fun e he =>
    Refusal.integral_toJson (hfits.2.2 e he) fun v hv =>
      hdata v (Option.mem_toList.2 (Option.mem_bind_iff.2 ⟨e, he, hv⟩))
  have hresult : ∀ v ∈ r.result, v.Integral := fun v hv => hresult v (Option.mem_toList.2 hv)
  exact .ofMembers (List.forall_mem_append.2
    ⟨List.forall_mem_append.2 ⟨by simp [hid], Json.forall_mem_optionalMember.2 hresult⟩,
      Json.forall_mem_optionalMember.2 herror⟩)

end Response

/-- **What a node writes survives being written again.**  Take a page or a response from any text,
records as objects or as arrays, in which the values that it holds as they are have integers only.
It is read back from the text in which it is written, and from any other text that says the same.
So its blocks are placed in the ledger as before, or refused for the same reason, also if the page
is taken from the value itself, and the response comes to the same. -/
theorem nodeWire_roundTrip [Wording] :
    (∀ (text : String) (p : Page), Page.parse text = .ok p → (∀ v ∈ p.embedded, v.Integral) →
      ReadsBack Page.shape Page.toJson p ∧
      (Page.parse p.toJson.text).map Page.transactions = (Page.parse text).map Page.transactions ∧
      Page.transactionsOf p.toJson = p.transactions) ∧
    ∀ (text : String) (r : Response), Response.parse text = .ok r →
      (∀ v ∈ r.embedded, v.Integral) →
      ReadsBack Response.shape Response.toJson r ∧
      (Response.parse r.toJson.text).map Response.outcome =
        (Response.parse text).map Response.outcome := by
  refine ⟨fun text p hp hintegral => ?_, fun text r hr hintegral => ?_⟩
  · have hretakes : Retakes Page.shape Page.toJson Json.maxDepth p :=
      Page.retakes_of_takes (takes_of_parse hp)
    have hback := hretakes.readsBack Page.stable_shape (Page.integral_toJson hintegral)
    have htext : Page.parse p.toJson.text = .ok p := hback.parse_text
    refine ⟨hback, by rw [htext, hp], ?_⟩
    rw [Page.transactionsOf, Page.ofResult, Shape.ofJson?, hretakes.taken]
    rfl
  · have htakes := takes_of_parse hr
    have hback := (Response.retakes_of_takes htakes).readsBack Response.stable_shape
      (Response.integral_toJson htakes hintegral)
    have htext : Response.parse r.toJson.text = .ok r := hback.parse_text
    exact ⟨hback, by rw [htext, hr]⟩

/-! ### A page of arrays, and an answer in disorder -/

/-- A page with its records as arrays, but for a block that has an unknown member and lacks most. -/
def mixedPage : Json :=
  .array
    [ .array
        [ .array
            [ .string "d1", .string "7", .null,
              .array [.array [.string "0x1", .object [("kind", .string "Other")]]],
              .array
                [ .array
                    [ .string "0x2::shop::Sold", .string "0x1",
                      .object [("to", .ofUInt64 18446744073709551615), ("by", .array [])] ] ] ],
          .object [("events", .array []), ("more", .null), ("digest", .string "d2")] ],
      .null, .bool true ]

/-- The page that it is. -/
def mixedPageRead : Page :=
  { blocks :=
      [ ⟨"d1", some "7", none, some ⟨"0x1", .object [("kind", .string "Other")]⟩,
          [⟨"0x2::shop::Sold", "0x1",
            .object [("by", .array []), ("to", .ofUInt64 18446744073709551615)]⟩]⟩,
        ⟨"d2", none, none, none, []⟩ ]
    nextCursor := none
    hasNextPage := true }

/-- A response with an error, and `null` for what is not there. -/
def mixedAnswer : Json :=
  .object
    [ ("error", .object [("message", .string "no"), ("data", .null), ("code", .ofInt (-32000))]),
      ("result", .null), ("id", .number .minusZero), ("jsonrpc", .string "2.0") ]

/-- The response that it is. -/
def mixedAnswerRead : Response :=
  ⟨"2.0", .number .minusZero, none, some ⟨-32000, "no", none⟩⟩

theorem parse_mixedPage : Page.parse mixedPage.text = .ok mixedPageRead := by
  have hintegral : mixedPage.Integral := by
    simp [mixedPage, Json.integral_array, Json.integral_object, Json.Integral.ofUInt64]
  rw [Page.parse, Shape.parse, Document.read_text hintegral]
  rfl

theorem parse_mixedAnswer : Response.parse mixedAnswer.text = .ok mixedAnswerRead := by
  have hintegral : mixedAnswer.Integral := by
    simp [mixedAnswer, Json.integral_object, Json.ofInt, Json.integral_int]
  rw [Response.parse, Shape.parse, Document.read_text hintegral]
  rfl

theorem nodeWire_roundTrip_mixed :
    (Page.parse mixedPage.text = .ok mixedPageRead ∧ (∀ v ∈ mixedPageRead.embedded, v.Integral) ∧
      ReadsBack Page.shape Page.toJson mixedPageRead ∧
      Page.transactionsOf mixedPageRead.toJson =
        .error (.rpc "transaction d2 has no checkpoint")) ∧
    Response.parse mixedAnswer.text = .ok mixedAnswerRead ∧
      (∀ v ∈ mixedAnswerRead.embedded, v.Integral) ∧
      ReadsBack Response.shape Response.toJson mixedAnswerRead ∧
      (Response.parse mixedAnswerRead.toJson.text).map Response.outcome =
        .ok (.error ⟨-32000, "no", none⟩) := by
  obtain ⟨pages, responses⟩ := nodeWire_roundTrip
  have hpage : ∀ v ∈ mixedPageRead.embedded, v.Integral := by
    simp [Page.embedded, Block.embedded, mixedPageRead, Json.integral_array, Json.integral_object,
      Json.Integral.ofUInt64]
  have hanswer : ∀ v ∈ mixedAnswerRead.embedded, v.Integral := by
    simp [Response.embedded, mixedAnswerRead]
  obtain ⟨hpageBack, -, htransactions⟩ := pages _ _ parse_mixedPage hpage
  obtain ⟨hanswerBack, houtcome⟩ := responses _ _ parse_mixedAnswer hanswer
  rw [parse_mixedAnswer] at houtcome
  exact ⟨⟨parse_mixedPage, hpage, hpageBack, htransactions.trans rfl⟩, parse_mixedAnswer, hanswer,
    hanswerBack, houtcome⟩

end LedgerIndex.Node
