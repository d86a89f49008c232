import LedgerIndex.Proofs.Json.Records

/-!
# What a value says in the fields of a record

A record that is taken from a value holds in each of its fields what the value says there: the
member with the name of the field, or the item at its place if the value lists them.  A field of
which the value says nothing is left as it began (`Shape.TakenFrom.field`).
-/

namespace LedgerIndex

namespace Json

/-- What a value says in a field of a record. -/
def field? (name : String) (place : Nat) : Json → Option Json
  | object members => member? name members
  | array items => items[place]?
  | _ => none

theorem mem_of_member? {name : String} {v : Json} {members : List (String × Json)}
    (h : member? name members = some v) : (name, v) ∈ members := by
  induction members with
  | nil => cases h
  | cons m rest ih =>
    rw [member?] at h
    split at h
    · rename_i hname
      cases h
      rw [hname]
      exact List.mem_cons_self
    · exact List.mem_cons_of_mem m (ih h)

theorem Kept.field {room place : Nat} {name : String} {v w : Json} (h : Kept (room + 1) v)
    (hw : v.field? name place = some w) : Kept room w := by
  cases h with
  | null | bool | number | string => cases hw
  | array hitems => exact hitems w (List.mem_of_getElem? hw)
  | object _ hmembers => exact hmembers _ (mem_of_member? hw)

end Json

namespace Shape

variable {σ α β : Type} {fields : List (Field σ)} {room : Nat}

/-! ## Shapes of single values -/

theorem string_ofJson_eq_ok_iff {v : Json} {s : String} :
    string room (.ofJson v) = .ok s ↔ v = .string s := by
  cases v with
  | string t =>
    exact ⟨fun h => congrArg _ (Except.ok.inj h), fun h => congrArg _ (Json.string.inj h)⟩
  | null | bool | number | array | object => exact ⟨nofun, nofun⟩

theorem optional_string_ofJson_eq_ok {v : Json} {s : Option String}
    (h : optional string room (.ofJson v) = .ok s) : s = v.string? := by
  cases v with
  | null => exact (Except.ok.inj h).symm
  | string t => exact (Except.ok.inj h).symm
  | bool | number | array | object => cases h

theorem list_ofJson_eq_ok {shape : Shape α} {v : Json} {as : List α}
    (h : list shape room (.ofJson v) = .ok as) :
    ∃ n items, room = n + 1 ∧ v = .array items ∧
      List.Forall₂ (fun w a => shape n (.ofJson w) = .ok a) items as := by
  cases v with
  | array items =>
    cases room with
    | zero => cases h
    | succ n =>
      rw [Reading.ofJson, Reading.ofItems_eq, list, items_eq_ok_iff] at h
      exact ⟨n, items, rfl, rfl, List.forall₂_map_left_iff.1 h.2⟩
  | null | bool | number | string | object => cases room <;> cases h

/-! ## Fields of a record -/

@[simp]
theorem Field.name_of (name : String) (shape : Shape α) (put : α → σ → σ) :
    (Field.of name shape put).name = name := rfl

/-- Taking up the field leaves what is looked at. -/
def Field.Leaves (f : Field σ) (look : σ → β) : Prop :=
  ∀ ⦃room : Nat⦄ ⦃r : Reading⦄ ⦃s t : σ⦄, f.take room r s = .ok t → look t = look s

@[simp]
theorem Field.leaves_of {name : String} {shape : Shape α} {put : α → σ → σ} {look : σ → β}
    (h : ∀ a s, look (put a s) = look s) : (Field.of name shape put).Leaves look := by
  intro room r s t ht
  obtain ⟨a, -, rfl⟩ := take_of_eq_ok_iff.1 ht
  exact h a s

/-- What is found in a field: what the shape takes from the value that is said there, or what was
there to begin with if none is. -/
def Finds (shape : Shape α) (room : Nat) (put : α → β) (start : β) : Option Json → β → Prop
  | none, found => found = start
  | some v, found => ∃ a, shape room (.ofJson v) = .ok a ∧ found = put a

/-- What is found in a field that has to be there is said there. -/
theorem Finds.required {shape : Shape α} {said : Option Json} {a : α}
    (h : Finds shape room some none said (some a)) :
    ∃ v, said = some v ∧ shape room (.ofJson v) = .ok a := by
  cases said with
  | none => cases h
  | some v =>
    obtain ⟨b, hb, hab⟩ := h
    exact ⟨v, rfl, Option.some.inj hab ▸ hb⟩

theorem Finds.string {said : Option Json} {s : String}
    (h : Finds Shape.string room some none said (some s)) : said = some (.string s) := by
  obtain ⟨v, rfl, hv⟩ := h.required
  exact congrArg some (string_ofJson_eq_ok_iff.1 hv)

/-- What may be missing is the text that is said, if one is. -/
theorem Finds.optional_string {said : Option Json} {s : Option String}
    (h : Finds (optional Shape.string) room id none said s) : s = said.bind Json.string? := by
  cases said with
  | none => exact h
  | some v =>
    obtain ⟨a, ha, rfl⟩ := h
    exact optional_string_ofJson_eq_ok ha

/-- A value that may be missing is the one that is said. -/
theorem Finds.json {said : Option Json} {v : Json} (hkept : ∀ w ∈ said, w.Kept room)
    (h : Finds Shape.json room id .null said v) : v = said.getD .null := by
  cases said with
  | none => exact h
  | some w =>
    obtain ⟨a, ha, rfl⟩ := h
    exact (Except.ok.inj ((Reading.json_ofJson (hkept w rfl)).symm.trans ha)).symm

/-- A list comes of the items of an array. -/
theorem list_kept {shape : Shape α} {v : Json} {as : List α} (hkept : v.Kept room)
    (h : list shape room (.ofJson v) = .ok as) : ∃ items, v = .array items ∧
      List.Forall₂ (fun w a => ∃ n, w.Kept n ∧ shape n (.ofJson w) = .ok a) items as := by
  obtain ⟨n, items, rfl, rfl, hitems⟩ := list_ofJson_eq_ok h
  cases hkept with
  | array hkept =>
    refine ⟨items, rfl, List.Forall₂.imp (fun w a hw => ⟨n, hw⟩) ?_⟩
    exact (List.forall₂_and_left _ _).2 ⟨hkept, hitems⟩

/-- A list that may be missing comes of the items that are said, if any are. -/
theorem Finds.list {shape : Shape α} {said : Option Json} {as : List α}
    (hkept : ∀ v ∈ said, v.Kept room) (h : Finds (list shape) room id [] said as) :
    ∃ items, said.getD (.array []) = .array items ∧
      List.Forall₂ (fun w a => ∃ n, w.Kept n ∧ shape n (.ofJson w) = .ok a) items as := by
  cases said with
  | none =>
    obtain rfl : as = [] := h
    exact ⟨[], rfl, .nil⟩
  | some v =>
    obtain ⟨a, ha, rfl⟩ := h
    exact list_kept (hkept v rfl) ha

/-- The fields found in a value, beginning with some. -/
inductive TakenFrom (fields : List (Field σ)) (room : Nat) (start : σ) : Json → σ → Prop
  | members {members : List (String × Json)} {s : σ} :
    fromMembers fields room (members.map Reading.ofMember) .closed [] start = .ok s →
    TakenFrom fields room start (.object members) s
  | items {items : List Json} {s : σ} :
    fromItems room fields (items.map Reading.ofJson) .closed start = .ok s →
    TakenFrom fields room start (.array items) s

theorem exists_takenFrom {start : σ} {finish : σ → Except Fault α} {v : Json} {a : α}
    (h : record fields start finish room (.ofJson v) = .ok a) :
    ∃ n s, room = n + 1 ∧ TakenFrom fields n start v s ∧ finish s = .ok a := by
  cases room with
  | zero => cases v <;> cases h
  | succ n =>
    cases v with
    | array items =>
      rw [Reading.ofJson, Reading.ofItems_eq] at h
      obtain ⟨s, hs, hfinish⟩ := bind_eq_ok_iff.1 h
      exact ⟨n, s, rfl, .items hs, hfinish⟩
    | object members =>
      rw [Reading.ofJson, Reading.ofMembers_eq] at h
      obtain ⟨s, hs, hfinish⟩ := bind_eq_ok_iff.1 h
      exact ⟨n, s, rfl, .members hs, hfinish⟩
    | null | bool | number | string => cases h

section Looking

variable {look : σ → β} {name : String} {shape : Shape α} {put : α → σ → σ} {shown : α → β}

/-- A field that was met is not met again. -/
theorem fromMembers_leaves (hothers : ∀ f ∈ fields, f.name ≠ name → f.Leaves look)
    {members : List (Except Fault String × Reading)} {ending : Ending} {seen : List String}
    {s t : σ} (hseen : name ∈ seen) (h : fromMembers fields room members ending seen s = .ok t) :
    look t = look s := by
  induction members generalizing seen s with
  | nil =>
    obtain ⟨-, rfl⟩ := Ending.map_keep_eq_ok_iff.1 h
    rfl
  | cons m rest ih =>
    obtain ⟨seen', u, htakes, hrest⟩ := fromMembers_cons_eq_ok_iff.1 h
    cases htakes with
    | unknown => exact ih hseen hrest
    | @known other _ f _ _ _ hsome hnew htake =>
      have hf : f.name = other := by simpa using List.find?_some hsome
      have hne : f.name ≠ name := by
        rintro rfl
        exact hnew (hf ▸ hseen)
      rw [ih (List.mem_cons_of_mem _ hseen) hrest]
      exact hothers f (List.mem_of_find?_eq_some hsome) hne htake

theorem fromMembers_finds (hfind : fields.find? (·.name == name) = some (.of name shape put))
    (hothers : ∀ f ∈ fields, f.name ≠ name → f.Leaves look)
    (hput : ∀ a s, look (put a s) = shown a) {members : List (String × Json)}
    {seen : List String} {s t : σ}
    (h : fromMembers fields room (members.map Reading.ofMember) .closed seen s = .ok t) :
    Finds shape room shown (look s) (Json.member? name members) (look t) := by
  induction members generalizing seen s with
  | nil =>
    obtain ⟨-, rfl⟩ := Ending.map_keep_eq_ok_iff.1 h
    rfl
  | cons m rest ih =>
    obtain ⟨other, v⟩ := m
    rw [List.map_cons] at h
    obtain ⟨seen', u, htakes, hrest⟩ := fromMembers_cons_eq_ok_iff.1 h
    rw [Json.member?]
    cases htakes with
    | unknown hother hnone =>
      cases hother
      have hne : name ≠ other := by
        rintro rfl
        rw [hfind] at hnone
        cases hnone
      rw [if_neg hne]
      exact ih hrest
    | @known _ _ f _ _ hother hsome hnew htake =>
      cases hother
      have hf : f.name = other := by simpa using List.find?_some hsome
      split
      · rename_i hname
        obtain rfl := hname
        obtain rfl := Option.some.inj (hfind.symm.trans hsome)
        obtain ⟨a, ha, rfl⟩ := Field.take_of_eq_ok_iff.1 htake
        refine ⟨a, ha, ?_⟩
        rw [fromMembers_leaves hothers List.mem_cons_self hrest, hput]
      · rename_i hname
        have hleaves := hothers f (List.mem_of_find?_eq_some hsome) (hf ▸ Ne.symm hname) htake
        rw [← hleaves]
        exact ih hrest

theorem fromItems_leaves {fs : List (Field σ)} (hothers : ∀ f ∈ fs, f.Leaves look)
    {items : List Reading} {ending : Ending} {s t : σ}
    (h : fromItems room fs items ending s = .ok t) : look t = look s := by
  induction items generalizing fs s with
  | nil =>
    rw [fromItems] at h
    obtain ⟨-, rfl⟩ := Ending.map_keep_eq_ok_iff.1 h
    rfl
  | cons item rest ih =>
    cases fs with
    | nil => cases h
    | cons f fs =>
      obtain ⟨hf, hfs⟩ := List.forall_mem_cons.1 hothers
      rw [fromItems, bind_eq_ok_iff] at h
      obtain ⟨u, htake, hrest⟩ := h
      rw [ih hfs hrest, hf htake]

/-- The induction is on the fields before the one that is looked at. -/
theorem fromItems_finds {before after : List (Field σ)}
    (hothers : ∀ f ∈ before ++ after, f.Leaves look) (hput : ∀ a s, look (put a s) = shown a)
    {items : List Json} {s t : σ}
    (h : fromItems room (before ++ .of name shape put :: after) (items.map Reading.ofJson) .closed
      s = .ok t) : Finds shape room shown (look s) items[before.length]? (look t) := by
  induction before generalizing items s with
  | nil =>
    cases items with
    | nil =>
      rw [List.map_nil, fromItems] at h
      obtain ⟨-, rfl⟩ := Ending.map_keep_eq_ok_iff.1 h
      rfl
    | cons v rest =>
      rw [List.map_cons, List.nil_append, fromItems, bind_eq_ok_iff] at h
      obtain ⟨u, htake, hrest⟩ := h
      obtain ⟨a, ha, rfl⟩ := Field.take_of_eq_ok_iff.1 htake
      exact ⟨a, ha, (fromItems_leaves hothers hrest).trans (hput a s)⟩
  | cons f before ih =>
    obtain ⟨hf, hrestLeave⟩ := List.forall_mem_cons.1 hothers
    cases items with
    | nil =>
      rw [List.map_nil, fromItems] at h
      obtain ⟨-, rfl⟩ := Ending.map_keep_eq_ok_iff.1 h
      rfl
    | cons v rest =>
      rw [List.map_cons, List.cons_append, fromItems, bind_eq_ok_iff] at h
      obtain ⟨u, htake, hrest⟩ := h
      rw [← hf htake]
      exact ih hrestLeave hrest

/-- **A field holds what the value says there**, whether it names its fields or lists them. -/
theorem TakenFrom.field {start s : σ} {v : Json} (h : TakenFrom fields room start v s)
    (look : σ → β) (place : Nat) (hplace : fields[place]? = some (.of name shape put))
    (hothers : ∀ f ∈ fields.eraseIdx place, f.name ≠ name ∧ f.Leaves look)
    (hput : ∀ a s, look (put a s) = shown a) :
    Finds shape room shown (look start) (v.field? name place) (look s) := by
  obtain ⟨hlt, hget⟩ := List.getElem?_eq_some_iff.1 hplace
  have hfields : fields = fields.take place ++ .of name shape put :: fields.drop (place + 1) := by
    rw [← hget, List.cons_getElem_drop_succ, List.take_append_drop]
  rw [List.eraseIdx_eq_take_drop_succ] at hothers
  have hlength : (fields.take place).length = place :=
    List.length_take_of_le (Nat.le_of_lt hlt)
  generalize fields.take place = before at hfields hothers hlength
  generalize fields.drop (place + 1) = after at hfields hothers
  subst hfields hlength
  cases h with
  | members h =>
    refine fromMembers_finds ?_ ?_ hput h
    · have hbefore : ∀ f ∈ before, ¬ (f.name == name) = true := fun f hf =>
        mt beq_iff_eq.1 (hothers f (List.mem_append_left _ hf)).1
      rw [List.find?_append, List.find?_eq_none.2 hbefore, Option.none_or]
      exact List.find?_cons_of_pos (beq_self_eq_true name)
    · intro f hf hne
      obtain hf | hf := List.mem_append.1 hf
      · exact (hothers f (List.mem_append_left _ hf)).2
      · obtain rfl | hf := List.mem_cons.1 hf
        · exact absurd rfl hne
        · exact (hothers f (List.mem_append_right _ hf)).2
  | items h => exact fromItems_finds (fun f hf => (hothers f hf).2) hput h

end Looking

end Shape

end LedgerIndex
