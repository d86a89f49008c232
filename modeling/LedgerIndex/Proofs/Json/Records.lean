import LedgerIndex.Json.Record
import LedgerIndex.Proofs.Json.Texts

/-!
# Records do not depend on how they are said

A record is taken from the members of an object one by one.  Where its fields commute, the order of
the members does not matter, and other members may stand between them
(`Shape.record_of_members`).  So a text that says the same value as another, each member once, gives
the same record, whatever the order of the members in it (`Shape.Stable.parse`).  What all fields of
a record keep to holds of the record (`Shape.exists_record`).  What is taken again from the form in
which it is written, part by part, is read back from its text (`Shape.Retakes.readsBack`).
-/

namespace LedgerIndex

namespace Shape

variable {σ α β : Type}

/-! ## Fields -/

/-- Two fields can be taken up in either order. -/
def Field.Commutes (f g : Field σ) : Prop :=
  ∀ (room : Nat) (a b : Reading) (s t u : σ), f.take room a s = .ok t → g.take room b t = .ok u →
    ∃ t', g.take room b s = .ok t' ∧ f.take room a t' = .ok u

theorem Field.take_of_eq_ok_iff {name : String} {shape : Shape α} {put : α → σ → σ} {room : Nat}
    {r : Reading} {s t : σ} :
    (Field.of name shape put).take room r s = .ok t ↔ ∃ a, shape room r = .ok a ∧ put a s = t :=
  map_eq_ok_iff

/-- Fields that are put in different places commute. -/
@[simp]
theorem Field.commutes_of {name name' : String} {shape : Shape α} {shape' : Shape β}
    {put : α → σ → σ} {put' : β → σ → σ} (h : ∀ a b s, put' b (put a s) = put a (put' b s)) :
    (Field.of name shape put).Commutes (.of name' shape' put') := by
  intro room r r' s t u hf hg
  obtain ⟨a, ha, rfl⟩ := take_of_eq_ok_iff.1 hf
  obtain ⟨b, hb, rfl⟩ := take_of_eq_ok_iff.1 hg
  exact ⟨put' b s, take_of_eq_ok_iff.2 ⟨b, hb, rfl⟩, take_of_eq_ok_iff.2 ⟨a, ha, (h a b s).symm⟩⟩

/-- All fields with different names commute. -/
def Commuting (fields : List (Field σ)) : Prop :=
  ∀ f ∈ fields, ∀ g ∈ fields, f.name ≠ g.name → f.Commutes g

/-- It is enough that each field commutes with those after it, both ways. -/
theorem Commuting.of_pairwise {fields : List (Field σ)}
    (h : fields.Pairwise fun f g => f.Commutes g ∧ g.Commutes f) : Commuting fields := by
  induction h with
  | nil => exact fun _ hf => absurd hf List.not_mem_nil
  | cons hfirst _ ih =>
    intro f hf g hg hne
    obtain rfl | hf' := List.mem_cons.1 hf <;> obtain rfl | hg' := List.mem_cons.1 hg
    · exact absurd rfl hne
    · exact (hfirst g hg').1
    · exact (hfirst f hf').2
    · exact ih f hf' g hg' hne

/-! ## Members of an object -/

variable {fields : List (Field σ)} {room : Nat}

/-- How a record takes up a member: the fields met and found so far, before and after. -/
inductive TakesUp (fields : List (Field σ)) (room : Nat) (m : Except Fault String × Reading) :
    List String × σ → List String × σ → Prop
  | unknown {name : String} {before : List String × σ} : m.1 = .ok name →
      fields.find? (·.name == name) = none → m.2.skip = .ok () → TakesUp fields room m before before
  | known {name : String} {seen : List String} {f : Field σ} {s t : σ} : m.1 = .ok name →
      fields.find? (·.name == name) = some f → name ∉ seen → f.take room m.2 s = .ok t →
      TakesUp fields room m (seen, s) (name :: seen, t)

theorem fromMembers_cons_eq_ok_iff {m : Except Fault String × Reading}
    {rest : List (Except Fault String × Reading)} {ending : Ending} {seen : List String} {s u : σ} :
    fromMembers fields room (m :: rest) ending seen s = .ok u ↔
      ∃ seen' t, TakesUp fields room m (seen, s) (seen', t) ∧
        fromMembers fields room rest ending seen' t = .ok u := by
  obtain ⟨name, value⟩ := m
  rw [fromMembers, bind_eq_ok_iff]
  constructor
  · rintro ⟨n, hname, h⟩
    split at h
    · rename_i hnone
      obtain ⟨⟨⟩, hskip, hrest⟩ := bind_eq_ok_iff.1 h
      exact ⟨seen, s, .unknown hname hnone hskip, hrest⟩
    · rename_i f hsome
      split at h
      · cases h
      · rename_i hnew
        obtain ⟨t, ht, hrest⟩ := bind_eq_ok_iff.1 h
        exact ⟨n :: seen, t, .known hname hsome (by simpa using hnew) ht, hrest⟩
  · rintro ⟨seen', t, htakes, hrest⟩
    cases htakes with
    | unknown hname hnone hskip =>
      refine ⟨_, hname, ?_⟩
      rw [hnone]
      exact bind_eq_ok_iff.2 ⟨(), hskip, hrest⟩
    | @known n _ _ _ _ hname hsome hnew htake =>
      refine ⟨n, hname, ?_⟩
      have hseen : seen.contains n = false := by simpa using hnew
      rw [hsome]
      dsimp only
      rw [hseen, if_neg Bool.false_ne_true]
      exact bind_eq_ok_iff.2 ⟨t, htake, hrest⟩

/-- The order in which fields were met does not matter. -/
theorem fromMembers_of_seen {members : List (Except Fault String × Reading)} {ending : Ending}
    {seen seen' : List String} (hseen : seen.Perm seen') (s : σ) :
    fromMembers fields room members ending seen s =
      fromMembers fields room members ending seen' s := by
  induction members generalizing seen seen' s with
  | nil => rfl
  | cons m rest ih =>
    obtain ⟨name, value⟩ := m
    cases name with
    | error fault => rfl
    | ok name =>
      have hcontains : seen.contains name = seen'.contains name := by
        rw [Bool.eq_iff_iff]
        simpa using hseen.mem_iff
      rw [fromMembers, fromMembers]
      dsimp only [bind, Except.bind]
      rw [hcontains, ih hseen s]
      cases fields.find? (·.name == name) with
      | none => rfl
      | some f =>
        dsimp only
        split
        · rfl
        · cases f.take room value s with
          | error => rfl
          | ok t => exact ih (hseen.cons name) t

/-- Two members can be taken up in either order. -/
theorem TakesUp.swap (hcommuting : Commuting fields) {m m' : Except Fault String × Reading}
    {seen seen' seen'' : List String} {s t u : σ}
    (h : TakesUp fields room m (seen, s) (seen', t))
    (h' : TakesUp fields room m' (seen', t) (seen'', u)) :
    ∃ first t' second, TakesUp fields room m' (seen, s) (first, t') ∧
      TakesUp fields room m (first, t') (second, u) ∧ seen''.Perm second := by
  cases h with
  | unknown hname hnone hskip =>
    exact ⟨seen'', u, seen'', h', .unknown hname hnone hskip, .refl _⟩
  | @known name _ f _ _ hname hsome hnew htake =>
    cases h' with
    | unknown hname' hnone' hskip' =>
      exact ⟨seen, s, name :: seen, .unknown hname' hnone' hskip', .known hname hsome hnew htake,
        .refl _⟩
    | @known name' _ g _ _ hname' hsome' hnew' htake' =>
      obtain ⟨hne, hnew'⟩ := not_or.1 (List.mem_cons.not.1 hnew')
      have hf : f.name = name := by simpa using List.find?_some hsome
      have hg : g.name = name' := by simpa using List.find?_some hsome'
      have hother : f.name ≠ g.name := by rw [hf, hg]; exact Ne.symm hne
      obtain ⟨t', hg', hf'⟩ := hcommuting f (List.mem_of_find?_eq_some hsome) g
        (List.mem_of_find?_eq_some hsome') hother _ _ _ _ _ _ htake htake'
      refine ⟨name' :: seen, t', name :: name' :: seen, .known hname' hsome' hnew' hg',
        .known hname hsome ?_ hf', .swap ..⟩
      exact List.mem_cons.not.2 (not_or.2 ⟨Ne.symm hne, hnew⟩)

/-- Members can be taken up in any order. -/
theorem fromMembers_perm (hcommuting : Commuting fields)
    {members members' : List (Except Fault String × Reading)} (hperm : members.Perm members')
    {ending : Ending} {seen : List String} {s u : σ}
    (h : fromMembers fields room members ending seen s = .ok u) :
    fromMembers fields room members' ending seen s = .ok u := by
  induction hperm generalizing seen s with
  | nil => exact h
  | cons m _ ih =>
    obtain ⟨seen', t, htakes, hrest⟩ := fromMembers_cons_eq_ok_iff.1 h
    exact fromMembers_cons_eq_ok_iff.2 ⟨seen', t, htakes, ih hrest⟩
  | swap m m' rest =>
    obtain ⟨seen', t, htakes, hrest⟩ := fromMembers_cons_eq_ok_iff.1 h
    obtain ⟨seen'', t', htakes', hrest'⟩ := fromMembers_cons_eq_ok_iff.1 hrest
    obtain ⟨first, t₁, second, hfirst, hsecond, hseen⟩ := htakes.swap hcommuting htakes'
    rw [fromMembers_of_seen hseen] at hrest'
    exact fromMembers_cons_eq_ok_iff.2 ⟨first, t₁, hfirst,
      fromMembers_cons_eq_ok_iff.2 ⟨second, t', hsecond, hrest'⟩⟩
  | trans _ _ ih ih' => exact ih' (ih h)

/-- A member that is none of the fields, and well formed. -/
def IsUnknown (fields : List (Field σ)) (m : Except Fault String × Reading) : Prop :=
  ∃ name, m.1 = .ok name ∧ name ∉ fields.map (·.name) ∧ m.2.skip = .ok ()

theorem fromMembers_append_unknown {known unknown : List (Except Fault String × Reading)}
    (hunknown : ∀ m ∈ unknown, IsUnknown fields m) {seen : List String} {s u : σ}
    (h : fromMembers fields room known .closed seen s = .ok u) :
    fromMembers fields room (known ++ unknown) .closed seen s = .ok u := by
  induction known generalizing seen s with
  | nil =>
    rw [List.nil_append]
    induction unknown with
    | nil => exact h
    | cons m unknown ih =>
      obtain ⟨⟨name, hname, hnot, hskip⟩, hrest⟩ := List.forall_mem_cons.1 hunknown
      have hnone : fields.find? (·.name == name) = none := by
        refine List.find?_eq_none.2 fun f hf heq => hnot ?_
        exact List.mem_map.2 ⟨f, hf, by simpa using heq⟩
      exact fromMembers_cons_eq_ok_iff.2 ⟨seen, s, .unknown hname hnone hskip, ih hrest⟩
  | cons m known ih =>
    obtain ⟨seen', t, htakes, hrest⟩ := fromMembers_cons_eq_ok_iff.1 h
    exact fromMembers_cons_eq_ok_iff.2 ⟨seen', t, htakes, ih hrest⟩

/-- **The order of members does not matter**, and there may be others. -/
theorem record_of_members (hcommuting : Commuting fields) {start s : σ}
    {finish : σ → Except Fault α} {members known unknown : List (Except Fault String × Reading)}
    (hperm : members.Perm (known ++ unknown)) (hunknown : ∀ m ∈ unknown, IsUnknown fields m)
    (hknown : fromMembers fields room known .closed [] start = .ok s) :
    record fields start finish (room + 1) (.object members .closed) = finish s := by
  have hmembers := fromMembers_perm hcommuting hperm.symm
    (fromMembers_append_unknown hunknown hknown)
  rw [record, hmembers]
  rfl

/-- The record that a value holds with just the members of the record, in any order. -/
theorem record_ofJson (hcommuting : Commuting fields) {start s : σ} {finish : σ → Except Fault α}
    {members : List (String × Json)} (hnames : (members.map (·.1)).Nodup)
    (h : fromMembers fields room (members.map Reading.ofMember) .closed [] start = .ok s) :
    record fields start finish (room + 1) (.ofJson (.ofMembers members)) = finish s := by
  obtain ⟨found, hfound, hperm⟩ := Reading.exists_ofJson_ofMembers hnames
  rw [hfound]
  rw [← List.append_nil (members.map Reading.ofMember)] at hperm
  exact record_of_members hcommuting hperm (fun _ hm => absurd hm List.not_mem_nil) h

/-! ## Lists and options -/

theorem integer_ofJson {low high i : Int} (h : low ≤ i ∧ i ≤ high) :
    integer low high room (.ofJson (.ofInt i)) = .ok i :=
  if_pos h

theorem int64_ofJson {i : Int} (h : -Nat.pow 2 63 ≤ i ∧ i < Nat.pow 2 63) :
    int64 room (.ofJson (.ofInt i)) = .ok i :=
  integer_ofJson ⟨h.1, Int.le_sub_one_of_lt h.2⟩

theorem uint64_ofJson (room : Nat) (n : UInt64) : uint64 room (.ofJson (.ofUInt64 n)) = .ok n := by
  have hlow : (0 : Int) ≤ n.toNat := Int.natCast_nonneg _
  have hhigh : (n.toNat : Int) ≤ UInt64.size - 1 := by
    have := n.toNat_lt_size
    omega
  have hinteger : integer 0 (UInt64.size - 1) room (.ofJson (.ofUInt64 n)) = .ok n.toNat :=
    integer_ofJson ⟨hlow, hhigh⟩
  rw [uint64, hinteger, Except.map, Int.toNat_natCast]
  exact congrArg _ (UInt64.ofNat_toNat)

theorem items_eq_ok_iff {shape : Shape α} {items : List Reading} {ending : Ending} {as : List α} :
    Shape.items shape room items ending = .ok as ↔
      ending = .closed ∧ List.Forall₂ (fun r a => shape room r = .ok a) items as := by
  induction items generalizing as with
  | nil =>
    rw [Shape.items, Ending.map_keep_eq_ok_iff, List.forall₂_nil_left_iff, eq_comm (a := as)]
  | cons item rest ih =>
    rw [Shape.items, List.forall₂_cons_left_iff]
    simp only [bind_eq_ok_iff, ih, pure, Except.pure, Except.ok.injEq]
    constructor
    · rintro ⟨first, hfirst, others, ⟨hending, hothers⟩, rfl⟩
      exact ⟨hending, first, others, hfirst, hothers, rfl⟩
    · rintro ⟨hending, first, others, hfirst, hothers, rfl⟩
      exact ⟨first, hfirst, others, ⟨hending, hothers⟩, rfl⟩

/-- An array of values that are read back is read back. -/
theorem list_ofJson {shape : Shape α} {toJson : α → Json} {as : List α}
    (h : ∀ a ∈ as, shape room (.ofJson (toJson a)) = .ok a) :
    list shape (room + 1) (.ofJson (.array (as.map toJson))) = .ok as := by
  rw [Reading.ofJson, Reading.ofItems_eq, List.map_map]
  refine items_eq_ok_iff.2 ⟨rfl, ?_⟩
  exact List.forall₂_map_left_iff.2 (List.forall₂_same.2 h)

/-- What is there is read back, unless it is `null`. -/
theorem optional_ofJson_of_ne {shape : Shape α} {v : Json} {a : α} (hnull : v ≠ .null)
    (h : shape room (.ofJson v) = .ok a) : optional shape room (.ofJson v) = .ok (some a) := by
  have hread : Reading.ofJson v ≠ .null := by
    cases v with
    | null => exact absurd rfl hnull
    | bool | number | string | array | object => nofun
  rw [optional, h]
  · rfl
  · exact hread

/-- What may be missing is read back. -/
theorem optional_ofJson {shape : Shape α} {toJson : α → Json} {a : Option α}
    (h : ∀ x ∈ a, shape room (.ofJson (toJson x)) = .ok x ∧ toJson x ≠ .null) :
    optional shape room (.ofJson (.ofOption toJson a)) = .ok a := by
  cases a with
  | none => rfl
  | some x => exact optional_ofJson_of_ne (h x rfl).2 (h x rfl).1

@[simp]
theorem optional_string_ofJson (s : Option String) :
    optional string room (.ofJson (.ofOption .string s)) = .ok s :=
  optional_ofJson fun _ _ => ⟨rfl, nofun⟩

/-! ## What holds of what is taken -/

/-- A shape takes a value from some reading. -/
def Takes (shape : Shape α) (room : Nat) (a : α) : Prop := ∃ r, shape room r = .ok a

theorem takes_of_parse {shape : Shape α} {text : String} {a : α}
    (h : Shape.parse shape text = .ok a) : Takes shape Json.maxDepth a := by
  obtain ⟨found, hfound, h⟩ := bind_eq_ok_iff.1 h
  obtain ⟨-, -, ⟨⟩⟩ := bind_eq_ok_iff.1 h
  exact ⟨_, hfound⟩

theorem bounds_of_int64 {i : Int} {r : Reading} (h : int64 room r = .ok i) :
    -Nat.pow 2 63 ≤ i ∧ i < Nat.pow 2 63 := by
  unfold int64 integer at h
  split at h
  · split at h
    · rename_i hbounds
      cases h
      exact ⟨hbounds.1, Int.lt_of_le_sub_one hbounds.2⟩
    · cases h
  · cases h

/-- Taking up a field, with so much room, leaves something true of the fields found. -/
def Field.Keeps (P : Nat → σ → Prop) (f : Field σ) : Prop :=
  ∀ ⦃room : Nat⦄ ⦃r : Reading⦄ ⦃s t : σ⦄, P room s → f.take room r s = .ok t → P room t

theorem Field.keeps_of {P : Nat → σ → Prop} {name : String} {shape : Shape α} {put : α → σ → σ}
    (h : ∀ {room r a s}, P room s → shape room r = .ok a → P room (put a s)) :
    (Field.of name shape put).Keeps P := by
  intro room r s t hs ht
  obtain ⟨a, ha, rfl⟩ := take_of_eq_ok_iff.1 ht
  exact h hs ha

theorem fromMembers_keeps {P : Nat → σ → Prop} (hfields : ∀ f ∈ fields, f.Keeps P)
    {members : List (Except Fault String × Reading)} {ending : Ending} {seen : List String}
    {s t : σ} (hs : P room s) (h : fromMembers fields room members ending seen s = .ok t) :
    P room t := by
  induction members generalizing seen s with
  | nil =>
    obtain ⟨-, rfl⟩ := Ending.map_keep_eq_ok_iff.1 h
    exact hs
  | cons m rest ih =>
    obtain ⟨seen', u, htakes, hrest⟩ := fromMembers_cons_eq_ok_iff.1 h
    cases htakes with
    | unknown => exact ih hs hrest
    | known _ hsome _ htake =>
      exact ih (hfields _ (List.mem_of_find?_eq_some hsome) hs htake) hrest

theorem fromItems_keeps {P : Nat → σ → Prop} {fs : List (Field σ)}
    (hfields : ∀ f ∈ fs, f.Keeps P) {items : List Reading} {ending : Ending} {s t : σ}
    (hs : P room s) (h : fromItems room fs items ending s = .ok t) : P room t := by
  induction items generalizing fs s with
  | nil =>
    rw [fromItems] at h
    obtain ⟨-, rfl⟩ := Ending.map_keep_eq_ok_iff.1 h
    exact hs
  | cons item rest ih =>
    cases fs with
    | nil => cases h
    | cons f fs =>
      obtain ⟨hf, hfs⟩ := List.forall_mem_cons.1 hfields
      rw [fromItems, bind_eq_ok_iff] at h
      obtain ⟨u, htake, hrest⟩ := h
      exact ih hfs (hf hs htake) hrest

/-- A record comes of fields that were taken up one after the other, with less room. -/
theorem exists_record {start : σ} {finish : σ → Except Fault α} {a : α}
    (h : Takes (record fields start finish) room a) {P : Nat → σ → Prop}
    (hstart : ∀ room, P room start) (hfields : ∀ f ∈ fields, f.Keeps P) :
    ∃ n s, room = n + 1 ∧ P n s ∧ finish s = .ok a := by
  obtain ⟨r, h⟩ := h
  cases room with
  | zero => cases r <;> cases h
  | succ n =>
    cases r with
    | array items ending =>
      obtain ⟨s, hs, hfinish⟩ := bind_eq_ok_iff.1 h
      exact ⟨n, s, rfl, fromItems_keeps hfields (hstart n) hs, hfinish⟩
    | object members ending =>
      obtain ⟨s, hs, hfinish⟩ := bind_eq_ok_iff.1 h
      exact ⟨n, s, rfl, fromMembers_keeps hfields (hstart n) hs, hfinish⟩
    | null | bool | number | string | broken => cases h

/-- The items of a list were taken with less room. -/
theorem takes_of_list {shape : Shape α} {r : Reading} {as : List α}
    (h : list shape room r = .ok as) : ∀ a ∈ as, Takes shape (room - 1) a := by
  cases room with
  | zero => cases r <;> cases h
  | succ n =>
    cases r with
    | array items ending =>
      obtain ⟨-, hitems⟩ := items_eq_ok_iff.1 h
      exact Reading.forall_right (fun item _ ha => ⟨item, ha⟩) hitems
    | null | bool | number | string | object | broken => cases h

/-- What is there was taken from a reading that is not `null`. -/
theorem ne_null_of_optional {shape : Shape α} {r : Reading} {a : Option α}
    (h : optional shape room r = .ok a) : ∀ x ∈ a, r ≠ .null ∧ shape room r = .ok x := by
  cases r with
  | null =>
    cases h
    exact fun _ hx => absurd hx (Option.not_mem_none _)
  | bool | number | string | array | object | broken =>
    obtain ⟨x, hx, rfl⟩ := map_eq_ok_iff.1 h
    intro y hy
    obtain rfl := Option.mem_some_iff.1 hy
    exact ⟨nofun, hx⟩

theorem takes_of_optional {shape : Shape α} {r : Reading} {a : Option α}
    (h : optional shape room r = .ok a) : ∀ x ∈ a, Takes shape room x :=
  fun x hx => ⟨r, (ne_null_of_optional h x hx).2⟩

/-- A value that is there is not `null`. -/
theorem kept_of_optional_json {r : Reading} {v : Option Json}
    (h : optional json room r = .ok v) : ∀ w ∈ v, w ≠ .null ∧ w.Kept room := by
  intro w hw
  obtain ⟨hnull, hr⟩ := ne_null_of_optional h w hw
  refine ⟨?_, Reading.kept_of_json hr⟩
  rintro rfl
  exact hnull (Reading.eq_null_of_json hr)

/-! ## Stable shapes -/

/-- What a shape takes from a value it takes from any reading that holds the value, if each member
is named once. -/
def Stable (shape : Shape α) : Prop :=
  ∀ ⦃room : Nat⦄ ⦃r : Reading⦄ ⦃v : Json⦄ ⦃a : α⦄, r.Distinct → r.json room = .ok v →
    shape room (.ofJson v) = .ok a → shape room r = .ok a

/-- What a field takes up from a value it takes up from any reading that holds the value. -/
def Field.Stable (f : Field σ) : Prop :=
  ∀ ⦃room : Nat⦄ ⦃r : Reading⦄ ⦃v : Json⦄ ⦃s t : σ⦄, r.Distinct → r.json room = .ok v →
    f.take room (.ofJson v) s = .ok t → f.take room r s = .ok t

@[simp]
theorem Field.stable_of {name : String} {shape : Shape α} (h : shape.Stable) (put : α → σ → σ) :
    (Field.of name shape put).Stable := by
  intro room r v s t hdistinct hr ht
  obtain ⟨a, ha, rfl⟩ := take_of_eq_ok_iff.1 ht
  exact take_of_eq_ok_iff.2 ⟨a, h hdistinct hr ha, rfl⟩

/-- A shape that arrays and objects do not have is stable. -/
theorem stable_of_plain {shape : Shape α}
    (harray : ∀ room items a, shape room (.array items .closed) ≠ .ok a)
    (hobject : ∀ room members a, shape room (.object members .closed) ≠ .ok a) :
    shape.Stable := by
  intro room r v a _ hr ha
  cases Reading.json_eq_ok_iff.1 hr with
  | null | bool | number | string => exact ha
  | array => exact absurd ha (harray _ _ _)
  | object => exact absurd ha (hobject _ _ _)

@[simp]
theorem stable_string : Shape.string.Stable := stable_of_plain nofun nofun

@[simp]
theorem stable_bool : Shape.bool.Stable := stable_of_plain nofun nofun

@[simp]
theorem stable_int64 : Shape.int64.Stable := stable_of_plain nofun nofun

@[simp]
theorem stable_uint64 : Shape.uint64.Stable := stable_of_plain nofun nofun

@[simp]
theorem stable_json : Shape.json.Stable := by
  intro room r v a _ hr ha
  have hv : (Reading.ofJson v).json room = .ok v := Reading.json_ofJson (Reading.kept_of_json hr)
  rw [json, hv] at ha
  rw [json, hr, ha]

@[simp]
theorem stable_optional {shape : Shape α} (h : shape.Stable) : (optional shape).Stable := by
  intro room r v a hdistinct hr ha
  have hread := Reading.json_eq_ok_iff.1 hr
  cases hread with
  | null => exact ha
  | bool | number | string | array | object =>
    obtain ⟨x, hx, rfl⟩ := map_eq_ok_iff.1 ha
    exact map_eq_ok_iff.2 ⟨x, h hdistinct hr hx, rfl⟩

theorem items_stable {shape : Shape α} (h : shape.Stable) {items : List Reading} {vs : List Json}
    (hdistinct : ∀ item ∈ items, item.Distinct)
    (hitems : List.Forall₂ (fun r v => r.json room = .ok v) items vs) {as : List α}
    (has : Shape.items shape room (vs.map .ofJson) .closed = .ok as) :
    Shape.items shape room items .closed = .ok as := by
  induction hitems generalizing as with
  | nil => exact has
  | cons hitem _ ih =>
    obtain ⟨hfirst, hrest⟩ := List.forall_mem_cons.1 hdistinct
    rw [List.map_cons, Shape.items, bind_eq_ok_iff] at has
    obtain ⟨a, ha, has⟩ := has
    obtain ⟨others, hothers, has⟩ := bind_eq_ok_iff.1 has
    rw [Shape.items, bind_eq_ok_iff]
    exact ⟨a, h hfirst hitem ha, bind_eq_ok_iff.2 ⟨others, ih hrest hothers, has⟩⟩

@[simp]
theorem stable_list {shape : Shape α} (h : shape.Stable) : (list shape).Stable := by
  intro room r v as hdistinct hr has
  cases Reading.json_eq_ok_iff.1 hr with
  | null | bool | number | string => exact has
  | object => cases has
  | array hitems =>
    cases hdistinct with
    | array hdistinct =>
      rw [Reading.ofJson, Reading.ofItems_eq] at has
      exact items_stable h hdistinct hitems has

theorem fromItems_stable {fs : List (Field σ)} (hstable : ∀ f ∈ fs, f.Stable)
    {items : List Reading} {vs : List Json} (hdistinct : ∀ item ∈ items, item.Distinct)
    (hitems : List.Forall₂ (fun r v => r.json room = .ok v) items vs) {s t : σ}
    (h : fromItems room fs (vs.map .ofJson) .closed s = .ok t) :
    fromItems room fs items .closed s = .ok t := by
  induction hitems generalizing fs s with
  | nil => exact h
  | cons hitem _ ih =>
    cases fs with
    | nil => cases h
    | cons f fs =>
      obtain ⟨hf, hfs⟩ := List.forall_mem_cons.1 hstable
      obtain ⟨hfirst, hrest⟩ := List.forall_mem_cons.1 hdistinct
      rw [List.map_cons, fromItems, bind_eq_ok_iff] at h
      obtain ⟨u, hu, h⟩ := h
      rw [fromItems, bind_eq_ok_iff]
      exact ⟨u, hf hfirst hitem hu, ih hfs hrest h⟩

theorem fromMembers_stable (hstable : ∀ f ∈ fields, f.Stable)
    {members : List (Except Fault String × Reading)} {vs : List (String × Json)}
    (hdistinct : ∀ m ∈ members, m.2.Distinct)
    (hmembers : List.Forall₂ (Reading.HoldsMember room) members vs) {seen : List String} {s t : σ}
    (h : fromMembers fields room (vs.map Reading.ofMember) .closed seen s = .ok t) :
    fromMembers fields room members .closed seen s = .ok t := by
  induction hmembers generalizing seen s with
  | nil => exact h
  | @cons m v members vs hm _ ih =>
    obtain ⟨hfirst, hrest⟩ := List.forall_mem_cons.1 hdistinct
    obtain ⟨seen', u, htakes, h⟩ := fromMembers_cons_eq_ok_iff.1 h
    refine fromMembers_cons_eq_ok_iff.2 ⟨seen', u, ?_, ih hrest h⟩
    cases htakes with
    | unknown hname hnone =>
      cases hname
      exact .unknown hm.1 hnone (Reading.skip_of_json hm.2)
    | known hname hsome hnew htake =>
      cases hname
      exact .known hm.1 hsome hnew
        (hstable _ (List.mem_of_find?_eq_some hsome) hfirst hm.2 htake)

theorem stable_record (hcommuting : Commuting fields) (hstable : ∀ f ∈ fields, f.Stable)
    (start : σ) (finish : σ → Except Fault α) : (record fields start finish).Stable := by
  intro room r v a hdistinct hr ha
  cases Reading.json_eq_ok_iff.1 hr with
  | null | bool | number | string => exact ha
  | array hitems =>
    cases hdistinct with
    | array hdistinct =>
      rw [Reading.ofJson, Reading.ofItems_eq, record, bind_eq_ok_iff] at ha
      obtain ⟨s, hs, ha⟩ := ha
      rw [record, bind_eq_ok_iff]
      exact ⟨s, fromItems_stable hstable hdistinct hitems hs, ha⟩
  | @object room members vs hmembers =>
    cases hdistinct with
    | object hnodup hdistinct =>
      obtain ⟨found, hfound, hperm⟩ :=
        Reading.exists_ofJson_ofMembers (Reading.nodup_of_holds hmembers hnodup)
      rw [hfound, record, bind_eq_ok_iff] at ha
      obtain ⟨s, hs, ha⟩ := ha
      rw [record, bind_eq_ok_iff]
      exact ⟨s, fromMembers_stable hstable hdistinct hmembers
        (fromMembers_perm hcommuting hperm hs), ha⟩

/-- **What is taken from a text depends on what the text says.**  If a value has a stable shape, any
text that says this value has it. -/
theorem Stable.parse {shape : Shape α} (h : shape.Stable) {text : String} {v : Json} {a : α}
    (hsaid : Says text v) (ha : shape Json.maxDepth (.ofJson v) = .ok a) :
    Shape.parse shape text = .ok a := by
  obtain ⟨r, hread, hdistinct, hr⟩ := hsaid
  rw [Shape.parse, hread, Document.decode, h hdistinct hr ha]
  rfl

/-! ## Taking values again -/

/-- A shape takes a value again from the form in which it is written. -/
structure Retakes (shape : Shape α) (toJson : α → Json) (room : Nat) (a : α) : Prop where
  kept : (toJson a).Kept room
  taken : shape room (.ofJson (toJson a)) = .ok a

theorem Retakes.list {shape : Shape α} {toJson : α → Json} {as : List α}
    (h : ∀ a ∈ as, Retakes shape toJson room a) :
    Retakes (list shape) (fun as => .array (as.map toJson)) (room + 1) as :=
  ⟨.array (List.forall_mem_map.2 fun a ha => (h a ha).kept),
    list_ofJson fun a ha => (h a ha).taken⟩

theorem Retakes.optional {shape : Shape α} {toJson : α → Json} {a : Option α}
    (h : ∀ x ∈ a, Retakes shape toJson room x ∧ toJson x ≠ .null) :
    Retakes (optional shape) (.ofOption toJson) room a :=
  ⟨Json.kept_ofOption fun x hx => (h x hx).1.kept,
    optional_ofJson fun x hx => ⟨(h x hx).1.taken, (h x hx).2⟩⟩

theorem Retakes.record (hcommuting : Commuting fields) {start s : σ} {finish : σ → Except Fault α}
    {members : α → List (String × Json)} {a : α} (hnames : ((members a).map (·.1)).Nodup)
    (hkept : ∀ m ∈ members a, m.2.Kept room)
    (hmembers : fromMembers fields room ((members a).map Reading.ofMember) .closed [] start = .ok s)
    (hfinish : finish s = .ok a) :
    Retakes (record fields start finish) (fun a => .ofMembers (members a)) (room + 1) a :=
  ⟨Json.kept_ofMembers hkept, (record_ofJson hcommuting hnames hmembers).trans hfinish⟩

/-- A value is read back from its text, and from any other text that says the same. -/
def ReadsBack (shape : Shape α) (toJson : α → Json) (a : α) : Prop :=
  Says (toJson a).text (toJson a) ∧
    ∀ text, Says text (toJson a) → Shape.parse shape text = .ok a

theorem Retakes.readsBack {shape : Shape α} {toJson : α → Json} {a : α}
    (h : Retakes shape toJson Json.maxDepth a) (hstable : shape.Stable)
    (hintegral : (toJson a).Integral) : ReadsBack shape toJson a :=
  ⟨says_text hintegral h.kept, fun _ hsaid => hstable.parse hsaid h.taken⟩

/-- A value that is read back is read from its text. -/
theorem ReadsBack.parse_text {shape : Shape α} {toJson : α → Json} {a : α}
    (h : ReadsBack shape toJson a) : Shape.parse shape (toJson a).text = .ok a :=
  h.2 _ h.1

end Shape

end LedgerIndex
