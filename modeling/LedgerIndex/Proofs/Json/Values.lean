import LedgerIndex.Json.Reading
import Mathlib.Data.List.Forall2
import Mathlib.Data.List.Nodup
import Mathlib.Data.List.Perm.Basic
import Mathlib.Data.String.Basic
import Mathlib.Tactic.Common

/-!
# Values that readings hold

A reading keeps the order of its text, a value does not: the members of an object ascend by name,
and of two members with one name the later counts (`Json.arranged`).  What a reading can hold with
so much room is just a value whose members ascend and which is not nested deeper (`Json.Kept`), and
each of these is held by its own reading (`Reading.json_ofJson`).
-/

namespace LedgerIndex

namespace Json

/-! ## Members in order -/

/-- The names of members ascend. -/
def Ascend (members : List (String × Json)) : Prop := members.Pairwise fun m m' => m.1 < m'.1

/-- Members in their places by name, the last one of each name. -/
def arranged (members : List (String × Json)) : List (String × Json) :=
  members.foldl (fun acc m => insertMember m.1 m.2 acc) []

theorem ofMembers_eq (members : List (String × Json)) :
    ofMembers members = .object (arranged members) := rfl

theorem mem_of_mem_insertMember {name : String} {value : Json} {members : List (String × Json)}
    {m : String × Json} (h : m ∈ insertMember name value members) :
    m = (name, value) ∨ m ∈ members := by
  induction members with
  | nil => exact .inl (List.mem_singleton.1 h)
  | cons other rest ih =>
    rw [insertMember] at h
    split at h
    · exact List.mem_cons.1 h
    · split at h
      · exact (List.mem_cons.1 h).imp_right (List.mem_cons_of_mem _)
      · obtain rfl | h := List.mem_cons.1 h
        · exact .inr List.mem_cons_self
        · exact (ih h).imp_right (List.mem_cons_of_mem _)

theorem Ascend.insertMember {members : List (String × Json)} (h : Ascend members) (name : String)
    (value : Json) : Ascend (insertMember name value members) := by
  induction members with
  | nil => exact List.pairwise_singleton ..
  | cons other rest ih =>
    obtain ⟨hother, hrest⟩ := List.pairwise_cons.1 h
    rw [Json.insertMember]
    split
    · rename_i hlt
      refine List.pairwise_cons.2 ⟨fun m hm => ?_, h⟩
      obtain rfl | hm := List.mem_cons.1 hm
      · exact hlt
      · exact lt_trans hlt (hother m hm)
    · rename_i hnlt
      split
      · rename_i heq
        exact List.pairwise_cons.2 ⟨fun m hm => heq ▸ hother m hm, hrest⟩
      · rename_i hne
        have hlt : other.1 < name := (lt_trichotomy name other.1).resolve_left hnlt
          |>.resolve_left hne
        refine List.pairwise_cons.2 ⟨fun m hm => ?_, ih hrest⟩
        obtain rfl | hm := mem_of_mem_insertMember hm
        · exact hlt
        · exact hother m hm

/-- A name that is new comes to the members that are there. -/
theorem insertMember_perm {name : String} (value : Json) {members : List (String × Json)}
    (h : name ∉ members.map (·.1)) :
    (insertMember name value members).Perm ((name, value) :: members) := by
  induction members with
  | nil => exact .refl _
  | cons other rest ih =>
    obtain ⟨hne, hrest⟩ := not_or.1 (List.mem_cons.not.1 h)
    rw [insertMember]
    split
    · exact .refl _
    · exact ((ih hrest).cons other).trans (.swap ..)

/-- A name that is above all others comes last. -/
theorem insertMember_of_lt {name : String} (value : Json) {members : List (String × Json)}
    (h : ∀ m ∈ members, m.1 < name) :
    insertMember name value members = members ++ [(name, value)] := by
  induction members with
  | nil => rfl
  | cons other rest ih =>
    obtain ⟨hlt, hrest⟩ := List.forall_mem_cons.1 h
    rw [insertMember, if_neg (not_lt_of_gt hlt), if_neg (ne_of_gt hlt), ih hrest]
    rfl

theorem foldl_insertMember {acc : List (String × Json)} (hacc : Ascend acc)
    (members : List (String × Json)) :
    Ascend (members.foldl (fun acc m => insertMember m.1 m.2 acc) acc) ∧
      ∀ m ∈ members.foldl (fun acc m => insertMember m.1 m.2 acc) acc, m ∈ acc ∨ m ∈ members := by
  induction members generalizing acc with
  | nil => exact ⟨hacc, fun m hm => .inl hm⟩
  | cons first rest ih =>
    obtain ⟨hascend, hmem⟩ := ih (hacc.insertMember first.1 first.2)
    refine ⟨hascend, fun m hm => ?_⟩
    obtain hm | hm := hmem m hm
    · obtain rfl | hm := mem_of_mem_insertMember hm
      · exact .inr List.mem_cons_self
      · exact .inl hm
    · exact .inr (List.mem_cons_of_mem _ hm)

theorem ascend_arranged (members : List (String × Json)) : Ascend (arranged members) :=
  (foldl_insertMember List.Pairwise.nil members).1

theorem mem_of_mem_arranged {members : List (String × Json)} {m : String × Json}
    (h : m ∈ arranged members) : m ∈ members :=
  ((foldl_insertMember List.Pairwise.nil members).2 m h).resolve_left List.not_mem_nil

theorem foldl_insertMember_perm {acc members : List (String × Json)}
    (h : ((acc ++ members).map (·.1)).Nodup) :
    (members.foldl (fun acc m => insertMember m.1 m.2 acc) acc).Perm (acc ++ members) := by
  induction members generalizing acc with
  | nil => rw [List.append_nil]; exact .refl _
  | cons first rest ih =>
    have hmiddle : (acc ++ first :: rest).Perm (first :: acc ++ rest) := List.perm_middle
    have hnodup := (hmiddle.map (·.1)).nodup_iff.1 h
    have hnew : first.1 ∉ acc.map (·.1) := by
      intro hmem
      rw [List.cons_append, List.map_cons, List.map_append] at hnodup
      exact (List.nodup_cons.1 hnodup).1 (List.mem_append_left _ hmem)
    have hperm : (insertMember first.1 first.2 acc ++ rest).Perm (first :: acc ++ rest) :=
      (insertMember_perm first.2 hnew).append_right rest
    exact ((ih ((hperm.map (·.1)).nodup_iff.2 hnodup)).trans hperm).trans hmiddle.symm

/-- Members with different names are all there. -/
theorem arranged_perm {members : List (String × Json)} (h : (members.map (·.1)).Nodup) :
    (arranged members).Perm members :=
  foldl_insertMember_perm h

theorem foldl_insertMember_of_ascend {acc members : List (String × Json)}
    (h : Ascend (acc ++ members)) :
    members.foldl (fun acc m => insertMember m.1 m.2 acc) acc = acc ++ members := by
  induction members generalizing acc with
  | nil => exact (List.append_nil acc).symm
  | cons first rest ih =>
    have hlast : ∀ m ∈ acc, m.1 < first.1 := fun m hm =>
      (List.pairwise_append.1 h).2.2 m hm first List.mem_cons_self
    rw [List.append_cons] at h ⊢
    rw [List.foldl_cons, insertMember_of_lt first.2 hlast]
    exact ih h

/-- Members in order are in their places. -/
theorem arranged_of_ascend {members : List (String × Json)} (h : Ascend members) :
    arranged members = members :=
  foldl_insertMember_of_ascend h

theorem Ascend.nodup {members : List (String × Json)} (h : Ascend members) :
    (members.map (·.1)).Nodup := by
  rw [List.Nodup, List.pairwise_map]
  exact h.imp ne_of_lt

/-- Objects that are the same have the same value under each name. -/
theorem ofMembers_inj {members members' : List (String × Json)}
    (hnodup : (members.map (·.1)).Nodup) (hnodup' : (members'.map (·.1)).Nodup)
    (h : ofMembers members = ofMembers members') {name : String} {v w : Json}
    (hv : (name, v) ∈ members) (hw : (name, w) ∈ members') : v = w := by
  have harranged : arranged members = arranged members' := Json.object.inj h
  have hperm : members.Perm members' :=
    (arranged_perm hnodup).symm.trans (harranged ▸ arranged_perm hnodup')
  exact congrArg Prod.snd (List.inj_on_of_nodup_map hnodup' (hperm.mem_iff.1 hv) hw rfl)

/-! ## Values that are kept -/

/-- The members of all objects ascend, and at most so many brackets are open at once. -/
inductive Kept : Nat → Json → Prop
  | null {room : Nat} : Kept room .null
  | bool {room : Nat} (b : Bool) : Kept room (.bool b)
  | number {room : Nat} (n : Number) : Kept room (.number n)
  | string {room : Nat} (s : String) : Kept room (.string s)
  | array {room : Nat} {items : List Json} : (∀ item ∈ items, Kept room item) →
      Kept (room + 1) (.array items)
  | object {room : Nat} {members : List (String × Json)} : Ascend members →
      (∀ m ∈ members, Kept room m.2) → Kept (room + 1) (.object members)

attribute [simp] Kept.null Kept.bool Kept.number Kept.string

theorem Kept.mono {room room' : Nat} {v : Json} (h : Kept room v) (hle : room ≤ room') :
    Kept room' v := by
  induction h generalizing room' with
  | null => exact .null
  | bool b => exact .bool b
  | number n => exact .number n
  | string s => exact .string s
  | array _ ih =>
    obtain ⟨more, rfl⟩ := Nat.exists_eq_add_of_le' (Nat.le_trans (Nat.le_add_left 1 _) hle)
    exact .array fun item hitem => ih item hitem (Nat.le_of_succ_le_succ hle)
  | object hascend _ ih =>
    obtain ⟨more, rfl⟩ := Nat.exists_eq_add_of_le' (Nat.le_trans (Nat.le_add_left 1 _) hle)
    exact .object hascend fun m hm => ih m hm (Nat.le_of_succ_le_succ hle)

theorem kept_ofMembers {room : Nat} {members : List (String × Json)}
    (h : ∀ m ∈ members, Kept room m.2) : Kept (room + 1) (ofMembers members) :=
  .object (ascend_arranged members) fun m hm => h m (mem_of_mem_arranged hm)

theorem kept_ofOption {α : Type} {room : Nat} {f : α → Json} {a : Option α}
    (h : ∀ x ∈ a, Kept room (f x)) : Kept room (ofOption f a) := by
  cases a with
  | none => exact .null
  | some x => exact h x rfl

@[simp]
theorem kept_ofOption_string {room : Nat} (s : Option String) : Kept room (ofOption .string s) :=
  kept_ofOption fun _ _ => .string _

/-- What is true of a value is true of the member that holds it, if there is one. -/
theorem forall_mem_optionalMember {α : Type} {name : String} {f : α → Json} {a : Option α}
    {P : Json → Prop} : (∀ m ∈ optionalMember name f a, P m.2) ↔ ∀ x ∈ a, P (f x) := by
  cases a <;> simp [optionalMember]

end Json

/-! ## What a reading holds -/

namespace Ending

@[simp] theorem keep_closed : closed.keep = .ok () := rfl

theorem map_keep_eq_ok_iff {α : Type} {ending : Ending} {a b : α} :
    (ending.keep.map fun _ => a) = .ok b ↔ ending = .closed ∧ a = b := by
  cases ending <;> simp [keep, Except.map]

end Ending

/-- Two steps succeed if the first does, and the second with what the first has found. -/
theorem bind_eq_ok_iff {ε α β : Type} {x : Except ε α} {f : α → Except ε β} {b : β} :
    (x >>= f) = .ok b ↔ ∃ a, x = .ok a ∧ f a = .ok b := by
  cases x with
  | error e => simp [bind, Except.bind]
  | ok a => simp [bind, Except.bind]

theorem map_eq_ok_iff {ε α β : Type} {x : Except ε α} {f : α → β} {b : β} :
    x.map f = .ok b ↔ ∃ a, x = .ok a ∧ f a = b := by
  cases x <;> simp [Except.map]

namespace Reading

theorem ofItems_eq (items : List Json) : ofItems items = items.map ofJson := by
  induction items with
  | nil => rfl
  | cons item rest ih => rw [ofItems, ih, List.map_cons]

/-- The reading of a member. -/
def ofMember (m : String × Json) : Except Fault String × Reading := (.ok m.1, ofJson m.2)

theorem ofMembers_eq (members : List (String × Json)) :
    ofMembers members = members.map ofMember := by
  induction members with
  | nil => rfl
  | cons m rest ih => rw [ofMembers, ih, List.map_cons, ofMember]

/-- A member of a reading holds a member of an object. -/
def HoldsMember (room : Nat) (m : Except Fault String × Reading) (v : String × Json) : Prop :=
  m.1 = .ok v.1 ∧ m.2.json room = .ok v.2

theorem jsonItems_eq_ok_iff {room : Nat} {items : List Reading} {ending : Ending}
    {vs : List Json} :
    jsonItems room items ending = .ok vs ↔
      ending = .closed ∧ List.Forall₂ (fun r v => r.json room = .ok v) items vs := by
  induction items generalizing vs with
  | nil => rw [jsonItems, Ending.map_keep_eq_ok_iff, List.forall₂_nil_left_iff, eq_comm (a := vs)]
  | cons item rest ih =>
    rw [jsonItems, List.forall₂_cons_left_iff]
    simp only [bind_eq_ok_iff, ih, pure, Except.pure, Except.ok.injEq]
    constructor
    · rintro ⟨first, hfirst, others, ⟨hending, hothers⟩, rfl⟩
      exact ⟨hending, first, others, hfirst, hothers, rfl⟩
    · rintro ⟨hending, first, others, hfirst, hothers, rfl⟩
      exact ⟨first, hfirst, others, ⟨hending, hothers⟩, rfl⟩

theorem jsonMembers_eq_ok_iff {room : Nat} {members : List (Except Fault String × Reading)}
    {ending : Ending} {vs : List (String × Json)} :
    jsonMembers room members ending = .ok vs ↔
      ending = .closed ∧ List.Forall₂ (HoldsMember room) members vs := by
  induction members generalizing vs with
  | nil =>
    rw [jsonMembers, Ending.map_keep_eq_ok_iff, List.forall₂_nil_left_iff, eq_comm (a := vs)]
  | cons m rest ih =>
    obtain ⟨name, value⟩ := m
    rw [jsonMembers, List.forall₂_cons_left_iff]
    simp only [bind_eq_ok_iff, ih, pure, Except.pure, Except.ok.injEq]
    constructor
    · rintro ⟨n, hname, first, hfirst, others, ⟨hending, hothers⟩, rfl⟩
      exact ⟨hending, (n, first), others, ⟨hname, hfirst⟩, hothers, rfl⟩
    · rintro ⟨hending, ⟨n, first⟩, others, ⟨hname, hfirst⟩, hothers, rfl⟩
      exact ⟨n, hname, first, hfirst, others, ⟨hending, hothers⟩, rfl⟩

/-- What a reading is that holds a value. -/
inductive Holds : Nat → Reading → Json → Prop
  | null {room : Nat} : Holds room .null .null
  | bool {room : Nat} (b : Bool) : Holds room (.bool b) (.bool b)
  | number {room : Nat} (n : Number) : Holds room (.number (some n)) (.number n)
  | string {room : Nat} (s : String) : Holds room (.string (.ok s)) (.string s)
  | array {room : Nat} {items : List Reading} {vs : List Json} :
      List.Forall₂ (fun r v => r.json room = .ok v) items vs →
      Holds (room + 1) (.array items .closed) (.array vs)
  | object {room : Nat} {members : List (Except Fault String × Reading)}
      {vs : List (String × Json)} : List.Forall₂ (HoldsMember room) members vs →
      Holds (room + 1) (.object members .closed) (.ofMembers vs)

theorem json_eq_ok_iff {room : Nat} {r : Reading} {v : Json} :
    r.json room = .ok v ↔ Holds room r v := by
  constructor
  · intro h
    cases r with
    | null => cases h; exact .null
    | bool b => cases h; exact .bool b
    | number n =>
      cases n with
      | none => cases h
      | some n => cases h; exact .number n
    | string s =>
      cases s with
      | error fault => cases h
      | ok s => cases h; exact .string s
    | array items ending =>
      cases room with
      | zero => cases h
      | succ room =>
        rw [json, map_eq_ok_iff] at h
        obtain ⟨vs, hvs, rfl⟩ := h
        obtain ⟨rfl, hitems⟩ := jsonItems_eq_ok_iff.1 hvs
        exact .array hitems
    | object members ending =>
      cases room with
      | zero => cases h
      | succ room =>
        rw [json, map_eq_ok_iff] at h
        obtain ⟨vs, hvs, rfl⟩ := h
        obtain ⟨rfl, hmembers⟩ := jsonMembers_eq_ok_iff.1 hvs
        exact .object hmembers
    | broken => cases h
  · intro h
    cases h with
    | null | bool | number | string => rfl
    | array hitems =>
      rw [json, map_eq_ok_iff]
      exact ⟨_, jsonItems_eq_ok_iff.2 ⟨rfl, hitems⟩, rfl⟩
    | object hmembers =>
      rw [json, map_eq_ok_iff]
      exact ⟨_, jsonMembers_eq_ok_iff.2 ⟨rfl, hmembers⟩, rfl⟩

/-- What is true of all pairs is true of what stands on the right. -/
theorem forall_right {α β : Type} {R : α → β → Prop} {P : β → Prop} (hP : ∀ a b, R a b → P b)
    {as : List α} {bs : List β} (h : List.Forall₂ R as bs) : ∀ b ∈ bs, P b := by
  induction h with
  | nil => exact fun _ hb => absurd hb List.not_mem_nil
  | cons hab _ ih => exact List.forall_mem_cons.2 ⟨hP _ _ hab, ih⟩

/-- A value that a reading holds is kept. -/
theorem kept_of_json {room : Nat} {r : Reading} {v : Json} (h : r.json room = .ok v) :
    v.Kept room := by
  induction room generalizing r v with
  | zero =>
    cases json_eq_ok_iff.1 h with
    | null => exact .null
    | bool b => exact .bool b
    | number n => exact .number n
    | string s => exact .string s
  | succ room ih =>
    cases json_eq_ok_iff.1 h with
    | null => exact .null
    | bool b => exact .bool b
    | number n => exact .number n
    | string s => exact .string s
    | array hitems => exact .array (forall_right (fun _ _ hr => ih hr) hitems)
    | object hmembers => exact Json.kept_ofMembers (forall_right (fun _ _ hm => ih hm.2) hmembers)

/-- A value that is kept is held by its reading. -/
theorem json_ofJson {room : Nat} {v : Json} (h : v.Kept room) : (ofJson v).json room = .ok v := by
  rw [json_eq_ok_iff]
  induction h with
  | null => exact .null
  | bool b => exact .bool b
  | number n => exact .number n
  | string s => exact .string s
  | array _ ih =>
    rw [ofJson, ofItems_eq]
    refine .array (List.forall₂_map_left_iff.2 (List.forall₂_same.2 fun item hitem => ?_))
    exact json_eq_ok_iff.2 (ih item hitem)
  | @object room members hascend _ ih =>
    have hobject : Json.object members = .ofMembers members := by
      rw [Json.ofMembers_eq, Json.arranged_of_ascend hascend]
    rw [ofJson, ofMembers_eq, hobject]
    refine .object (List.forall₂_map_left_iff.2 (List.forall₂_same.2 fun m hm => ?_))
    exact ⟨rfl, json_eq_ok_iff.2 (ih m hm)⟩

/-- The reading of an object with different names has the members in some order. -/
theorem exists_ofJson_ofMembers {members : List (String × Json)}
    (h : (members.map (·.1)).Nodup) :
    ∃ found, ofJson (.ofMembers members) = .object found .closed ∧
      found.Perm (members.map ofMember) :=
  ⟨_, by rw [Json.ofMembers_eq, ofJson, ofMembers_eq], (Json.arranged_perm h).map ofMember⟩

/-! ## Names -/

/-- A reading names each member of an object once. -/
inductive Distinct : Reading → Prop
  | null : Distinct .null
  | bool (b : Bool) : Distinct (.bool b)
  | number (n : Option Number) : Distinct (.number n)
  | string (s : Except Fault String) : Distinct (.string s)
  | array {items : List Reading} {ending : Ending} : (∀ item ∈ items, Distinct item) →
      Distinct (.array items ending)
  | object {members : List (Except Fault String × Reading)} {ending : Ending} :
      (members.map (·.1)).Nodup → (∀ m ∈ members, Distinct m.2) →
      Distinct (.object members ending)

/-- The reading of a value that is kept does so. -/
theorem distinct_ofJson {room : Nat} {v : Json} (h : v.Kept room) : (ofJson v).Distinct := by
  induction h with
  | null => exact .null
  | bool b => exact .bool b
  | number n => exact .number _
  | string s => exact .string _
  | array _ ih =>
    rw [ofJson, ofItems_eq]
    exact .array (List.forall_mem_map.2 ih)
  | @object room members hascend _ ih =>
    have hnames : (members.map ofMember).map (·.1) = (members.map (·.1)).map Except.ok := by
      rw [List.map_map, List.map_map]
      rfl
    rw [ofJson, ofMembers_eq]
    refine .object ?_ (List.forall_mem_map.2 ih)
    rw [hnames]
    exact hascend.nodup.map fun _ _ h => Except.ok.inj h

/-- The names of an object that is held are those of the reading. -/
theorem nodup_of_holds {room : Nat} {members : List (Except Fault String × Reading)}
    {vs : List (String × Json)} (h : List.Forall₂ (HoldsMember room) members vs)
    (hnodup : (members.map (·.1)).Nodup) : (vs.map (·.1)).Nodup := by
  have hnames : members.map (·.1) = (vs.map (·.1)).map Except.ok := by
    clear hnodup
    induction h with
    | nil => rfl
    | cons hm _ ih => rw [List.map_cons, List.map_cons, List.map_cons, ih, hm.1]
  rw [hnames] at hnodup
  exact hnodup.of_map _

/-! ## Passing over -/

theorem skipItems_closed {items : List Reading} (h : ∀ r ∈ items, r.skip = .ok ()) :
    skipItems items .closed = .ok () := by
  induction items with
  | nil => rfl
  | cons item rest ih =>
    obtain ⟨hitem, hrest⟩ := List.forall_mem_cons.1 h
    rw [skipItems, bind_eq_ok_iff]
    exact ⟨(), hitem, ih hrest⟩

theorem skipMembers_closed {members : List (Except Fault String × Reading)}
    (h : ∀ m ∈ members, m.2.skip = .ok ()) : skipMembers members .closed = .ok () := by
  induction members with
  | nil => rfl
  | cons m rest ih =>
    obtain ⟨hvalue, hrest⟩ := List.forall_mem_cons.1 h
    rw [skipMembers, bind_eq_ok_iff]
    exact ⟨(), hvalue, ih hrest⟩

/-- What can be kept can be passed over. -/
theorem skip_of_json {room : Nat} {r : Reading} {v : Json} (h : r.json room = .ok v) :
    r.skip = .ok () := by
  induction room generalizing r v with
  | zero => cases json_eq_ok_iff.1 h <;> rfl
  | succ room ih =>
    cases json_eq_ok_iff.1 h with
    | null | bool | number | string => rfl
    | array hitems =>
      refine skipItems_closed ?_
      exact forall_right (fun _ _ hr => ih hr) hitems.flip
    | object hmembers =>
      refine skipMembers_closed ?_
      exact forall_right (fun _ _ hm => ih hm.2) hmembers.flip

/-- Only the reading of `null` holds `null`. -/
theorem eq_null_of_json {room : Nat} {r : Reading} (h : r.json room = .ok .null) : r = .null := by
  cases json_eq_ok_iff.1 h
  rfl

end Reading

end LedgerIndex
