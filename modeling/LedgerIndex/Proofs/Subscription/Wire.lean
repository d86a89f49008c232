import LedgerIndex.Proofs.Json.Records
import LedgerIndex.Subscription.Message
import LedgerIndex.Subscription.Request

/-!
# What goes over the wire is understood

A request is understood whatever the order of its members, whichever spelling its filters use for
their kinds, and whatever else stands between the members (`Request.parse_of_asks`).  A message is
understood from any text that says it (`Push.readsBack_of_kept`), and the texts for a change tell
its value from every other, nothing set from nothing left (`Push.ofChange_toJson_ne`).
-/

namespace LedgerIndex

open Shape

/-! ## Requests -/

/-- A member with a name that is not among some, and a well-formed value. -/
def IsExtra (room : Nat) (names : List String) (m : Except Fault String × Reading) : Prop :=
  ∃ name v, m.1 = .ok name ∧ name ∉ names ∧ m.2.json room = .ok v

theorem IsExtra.isUnknown {σ : Type} {room : Nat} {names : List String}
    {m : Except Fault String × Reading} (h : IsExtra room names m) {fields : List (Shape.Field σ)}
    (hnames : fields.map (·.name) ⊆ names) : IsUnknown fields m := by
  obtain ⟨name, v, hname, hnot, hv⟩ := h
  exact ⟨name, hname, fun hmem => hnot (hnames hmem), Reading.skip_of_json hv⟩

/-- Members that all hold something hold it together. -/
theorem exists_json_object {room : Nat} {members : List (Except Fault String × Reading)}
    (h : ∀ m ∈ members, ∃ name v, m.1 = .ok name ∧ m.2.json room = .ok v) :
    ∃ v, Reading.json (room + 1) (.object members .closed) = .ok v := by
  have hmembers : ∃ vs, List.Forall₂ (Reading.HoldsMember room) members vs := by
    induction members with
    | nil => exact ⟨[], .nil⟩
    | cons m members ih =>
      obtain ⟨⟨name, v, hname, hv⟩, hrest⟩ := List.forall_mem_cons.1 h
      obtain ⟨vs, hvs⟩ := ih hrest
      exact ⟨(name, v) :: vs, .cons ⟨hname, hv⟩ hvs⟩
  obtain ⟨vs, hvs⟩ := hmembers
  exact ⟨_, Reading.json_eq_ok_iff.2 (.object hvs)⟩

namespace Filter

/-- The names of all members that a filter can have. -/
def names : List String := ["kind", "name", "sender"]

/-- A reading describes a filter: it has the members of the filter, its kind in either spelling, in
any order and with others between them. -/
def Describes (room : Nat) (f : Filter) (r : Reading) : Prop :=
  ∃ kind found unknown, Topic.ofName? kind = some f.topic ∧ r = .object found .closed ∧
    found.Perm ((f.members kind).map Reading.ofMember ++ unknown) ∧
    ∀ m ∈ unknown, IsExtra room names m

theorem commuting_fields : Commuting fields :=
  .of_pairwise (by simp [fields])

theorem fromMembers_members (room : Nat) {kind : String} {f : Filter}
    (hkind : Topic.ofName? kind = some f.topic) :
    fromMembers fields room ((f.members kind).map Reading.ofMember) .closed []
      ⟨none, none, none⟩ = .ok ⟨some f.topic, f.name, f.sender⟩ := by
  have htopic : topicShape room (.string (.ok kind)) = .ok f.topic := by
    rw [topicShape, topicNamed, hkind]
  obtain ⟨topic, _ | name, _ | sender⟩ := f <;>
    simp [members, Json.optionalMember, fromMembers, fields, Field.of, Reading.ofMember,
      Reading.ofJson, htopic, bind, Except.bind, Except.map, Shape.string, Shape.optional]

theorem nodup_members (kind : String) (f : Filter) : ((f.members kind).map (·.1)).Nodup := by
  obtain ⟨topic, _ | name, _ | sender⟩ := f <;> simp [members, Json.optionalMember]

/-- The members of a filter are texts. -/
theorem forall_mem_members {kind : String} {f : Filter} {P : Json → Prop}
    (h : ∀ s, P (.string s)) : ∀ m ∈ f.members kind, P m.2 := by
  refine List.forall_mem_append.2 ⟨List.forall_mem_append.2 ⟨?_, ?_⟩, ?_⟩
  · exact List.forall_mem_singleton.2 (h kind)
  · exact Json.forall_mem_optionalMember.2 fun s _ => h s
  · exact Json.forall_mem_optionalMember.2 fun s _ => h s

/-- A filter is understood from what describes it. -/
theorem shape_of_describes {room : Nat} {f : Filter} {r : Reading} (h : Describes room f r) :
    shape (room + 1) r = .ok f := by
  obtain ⟨kind, found, unknown, hkind, rfl, hperm, hunknown⟩ := h
  exact record_of_members commuting_fields hperm
    (fun m hm => (hunknown m hm).isUnknown (fun _ hname => hname)) (fromMembers_members room hkind)

/-- What describes a filter is well formed. -/
theorem exists_json_of_describes {room : Nat} {f : Filter} {r : Reading}
    (h : Describes room f r) : ∃ v, r.json (room + 1) = .ok v := by
  obtain ⟨kind, found, unknown, -, rfl, hperm, hunknown⟩ := h
  refine exists_json_object fun m hm => ?_
  obtain hm | hm := List.mem_append.1 (hperm.mem_iff.1 hm)
  · obtain ⟨m, hmem, rfl⟩ := List.mem_map.1 hm
    obtain ⟨v, hv⟩ := forall_mem_members (P := fun v => ∃ w, (Reading.ofJson v).json room = .ok w)
      (fun s => ⟨.string s, rfl⟩) m hmem
    exact ⟨m.1, v, rfl, hv⟩
  · obtain ⟨name, v, hname, -, hv⟩ := hunknown m hm
    exact ⟨name, v, hname, hv⟩

/-- The form in which a filter is written describes it. -/
theorem describes_toJson (room : Nat) (f : Filter) : Describes room f (.ofJson f.toJson) := by
  obtain ⟨found, hfound, hperm⟩ :=
    Reading.exists_ofJson_ofMembers (nodup_members f.topic.name f)
  have hkind : Topic.ofName? f.topic.name = some f.topic := by cases f.topic <;> rfl
  exact ⟨f.topic.name, found, [], hkind, hfound, by rwa [List.append_nil], by simp⟩

theorem integral_toJson (f : Filter) : f.toJson.Integral :=
  .ofMembers (forall_mem_members .string)

end Filter

namespace Request

/-- The names of all members that a request can have. -/
def names : List String := ["type", "filters"]

/-- A reading asks for some filters: it says that it subscribes and lists readings that describe the
filters, in either order and with other members between. -/
def Asks (room : Nat) (fs : List Filter) (r : Reading) : Prop :=
  ∃ filters found unknown, r = .object found .closed ∧
    List.Forall₂ (Filter.Describes room) fs filters ∧
    found.Perm ((.ok "type", .string (.ok typeWord)) :: (.ok "filters", .array filters .closed) ::
      unknown) ∧
    ∀ m ∈ unknown, IsExtra (room + 2) names m

/-- The type of a request is checked and left out, wherever it stands. -/
theorem readMembers_append {room : Nat} {before after : List (Except Fault String × Reading)}
    (h : ∀ m ∈ before ++ after, ∃ name v, m.1 = .ok name ∧ name ≠ "type" ∧ m.2.json room = .ok v) :
    readMembers room (before ++ (.ok "type", .string (.ok typeWord)) :: after) .closed false =
      .ok (before ++ after, true) := by
  have hafter (typed : Bool) : (∀ m ∈ after, ∃ name v, m.1 = .ok name ∧ name ≠ "type" ∧
      m.2.json room = .ok v) → readMembers room after .closed typed = .ok (after, typed) := by
    intro hafter
    induction after with
    | nil => rfl
    | cons m after ih =>
      obtain ⟨⟨name, v, hname, hne, hv⟩, hrest⟩ := List.forall_mem_cons.1 hafter
      obtain ⟨m, value⟩ := m
      obtain rfl : m = .ok name := hname
      have hothers := ih (fun m hm => ?_) hrest
      · simp [readMembers, hne, hv, hothers, bind, Except.bind, pure, Except.pure]
      · obtain hm | hm := List.mem_append.1 hm
        · exact h m (List.mem_append_left _ hm)
        · exact hrest m hm
  induction before with
  | nil =>
    have hothers := hafter true h
    simp [readMembers, checkType, hothers, bind, Except.bind]
  | cons m before ih =>
    obtain ⟨⟨name, v, hname, hne, hv⟩, hrest⟩ := List.forall_mem_cons.1 h
    obtain ⟨m, value⟩ := m
    obtain rfl : m = .ok name := hname
    have hothers := ih hrest
    simp [readMembers, hne, hv, hothers, bind, Except.bind, pure, Except.pure]

/-- **A request is understood** from what asks for its filters. -/
theorem shape_of_asks {room : Nat} {fs : List Filter} {r : Reading} (h : Asks room fs r) :
    shape (room + 3) r = .ok (.subscribe fs) := by
  obtain ⟨filters, found, unknown, rfl, hfilters, hperm, hunknown⟩ := h
  obtain ⟨before, after, rfl⟩ := List.append_of_mem (hperm.mem_iff.2 List.mem_cons_self)
  -- what is left when the type is taken out are the filters and what is unknown
  have hothers : (before ++ after).Perm ([(.ok "filters", .array filters .closed)] ++ unknown) :=
    (List.perm_middle.symm.trans hperm).cons_inv
  have harray : ∃ v, Reading.json (room + 2) (.array filters .closed) = .ok v := by
    have hitems : ∃ vs, List.Forall₂ (fun r v => r.json (room + 1) = .ok v) filters vs := by
      clear hperm hothers
      induction hfilters with
      | nil => exact ⟨[], .nil⟩
      | cons hf _ ih =>
        obtain ⟨v, hv⟩ := Filter.exists_json_of_describes hf
        obtain ⟨vs, hvs⟩ := ih
        exact ⟨v :: vs, .cons hv hvs⟩
    obtain ⟨vs, hvs⟩ := hitems
    exact ⟨_, Reading.json_eq_ok_iff.2 (.array hvs)⟩
  have hread : readMembers (room + 2) (before ++ (.ok "type", .string (.ok typeWord)) :: after)
      .closed false = .ok (before ++ after, true) := by
    refine readMembers_append fun m hm => ?_
    obtain hm | hm := List.mem_append.1 (hothers.mem_iff.1 hm)
    · obtain ⟨v, hv⟩ := harray
      rw [List.mem_singleton.1 hm]
      exact ⟨"filters", v, rfl, by decide, hv⟩
    · obtain ⟨name, v, hname, hnot, hv⟩ := hunknown m hm
      exact ⟨name, v, hname, fun heq => hnot (by rw [heq]; decide), hv⟩
  have hlist : Shape.list Filter.shape (room + 2) (.array filters .closed) = .ok fs :=
    items_eq_ok_iff.2 ⟨rfl, (hfilters.imp fun _ _ hf => Filter.shape_of_describes hf).flip⟩
  have hrecord : record [.of "filters" (.list Filter.shape) fun filters _ => filters] [] .ok
      (room + 3) (.object (before ++ after) .closed) = .ok fs :=
    record_of_members (.of_pairwise (List.pairwise_singleton ..)) hothers
      (fun m hm => (hunknown m hm).isUnknown (by simp [Field.of, names]))
      (by simp [fromMembers, Field.of, hlist, bind, Except.bind, Except.map])
  rw [shape, hread]
  simp only [bind, Except.bind, if_true, filtersOf, hrecord]
  rfl

/-- Three brackets are open around a member of a filter. -/
theorem parse_of_asks {text : String} {fs : List Filter} {r : Reading}
    (hread : Document.read text = ⟨r, .ok ()⟩) (h : Asks (Json.maxDepth - 3) fs r) :
    parse text = .ok (.subscribe fs) := by
  have hshape : shape Json.maxDepth r = .ok (.subscribe fs) := shape_of_asks h
  rw [parse, Shape.parse, hread, Document.decode, hshape]
  rfl

/-- The form in which a request is written asks for its filters. -/
theorem asks_toJson (room : Nat) (fs : List Filter) :
    Asks room fs (.ofJson (subscribe fs).toJson) := by
  have hnodup : (([("type", .string typeWord), ("filters", .array (fs.map Filter.toJson))] :
      List (String × Json)).map (·.1)).Nodup := by simp
  obtain ⟨found, hfound, hperm⟩ := Reading.exists_ofJson_ofMembers hnodup
  refine ⟨fs.map fun f => .ofJson f.toJson, found, [], hfound, ?_, ?_, by simp⟩
  · exact List.forall₂_map_right_iff.2 (List.forall₂_same.2 fun f _ => f.describes_toJson room)
  · rw [List.map_cons, List.map_singleton, Reading.ofMember, Reading.ofMember, Reading.ofJson,
      Reading.ofJson, Reading.ofItems_eq, List.map_map] at hperm
    exact hperm

theorem integral_toJson (fs : List Filter) : (subscribe fs).toJson.Integral := by
  refine .ofMembers fun m hm => ?_
  obtain rfl | hm := List.mem_cons.1 hm
  · exact .string _
  · rw [List.mem_singleton.1 hm]
    exact .array (List.forall_mem_map.2 fun f _ => f.integral_toJson)

end Request

/-! ## Messages -/

namespace Push

theorem commuting_fields : Commuting fields :=
  .of_pairwise (by simp [fields])

/-- A topic is an object only if it has one member, which holds nothing. -/
theorem topicShape_object {room : Nat} {found : List (Except Fault String × Reading)} {t : Topic}
    (h : topicShape room (.object found .closed) = .ok t) :
    ∃ name, found = [(.ok name, .null)] := by
  unfold topicShape at h
  split at h
  · cases ‹Reading.object found .closed = _›
  · rename_i name hfound
    cases hfound
    exact ⟨name, rfl⟩
  · cases h

@[simp]
theorem stable_topicShape : topicShape.Stable := by
  intro room r v a hdistinct hr ha
  cases Reading.json_eq_ok_iff.1 hr with
  | null | bool | number | string => exact ha
  | array => cases ha
  | @object room members vs hmembers =>
    cases hdistinct with
    | object hnodup =>
      obtain ⟨found, hfound, hperm⟩ :=
        Reading.exists_ofJson_ofMembers (Reading.nodup_of_holds hmembers hnodup)
      rw [hfound] at ha
      obtain ⟨name, rfl⟩ := topicShape_object ha
      -- the only member of the value is the only one of the reading
      obtain ⟨⟨other, w⟩, rfl, hw⟩ := List.map_eq_singleton_iff.1 (List.perm_singleton.1 hperm.symm)
      cases hmembers with
      | @cons m _ _ _ hm hnone =>
        cases hnone
        obtain ⟨m, value⟩ := m
        obtain ⟨hname, hvalue⟩ := hm
        have hnull : w = .null := by cases w <;> cases hw; rfl
        rw [hnull] at hvalue
        obtain rfl : value = .null := Reading.eq_null_of_json hvalue
        obtain rfl : m = .ok name := hname.trans (congrArg Prod.fst hw)
        exact ha

theorem stable_shape : Push.shape.Stable :=
  stable_record commuting_fields (by simp [fields]) _ _

theorem nodup_members (p : Push) : (p.members.map (·.1)).Nodup := by
  obtain ⟨topic, name, _ | table, checkpoint, _ | sender, data⟩ := p <;>
    simp [members, Json.optionalMember]

theorem fromMembers_members {room : Nat} {p : Push} (h : p.data.Kept room) :
    fromMembers fields room (p.members.map Reading.ofMember) .closed []
        ⟨none, none, none, none, none, none⟩ =
      .ok ⟨some p.topic, some p.name, p.table, some p.checkpoint, p.sender, some p.data⟩ := by
  obtain ⟨topic, name, table, checkpoint, sender, data⟩ := p
  have hdata : Reading.json room (.ofJson data) = .ok data := Reading.json_ofJson h
  have hcheckpoint := uint64_ofJson room checkpoint
  have htopic : topicShape room (.string (.ok topic.name)) = .ok topic := by cases topic <;> rfl
  obtain _ | table := table <;> obtain _ | sender := sender <;>
    simp [members, Json.optionalMember, fromMembers, fields, Field.of, Reading.ofMember, bind,
      Except.bind, Except.map, hdata, hcheckpoint, htopic, Shape.json, Shape.string,
      Shape.optional, Reading.ofJson]

/-- The members of a message are texts, the checkpoint and what the message says. -/
theorem forall_mem_members {p : Push} {P : Json → Prop} (hstring : ∀ s, P (.string s))
    (hcheckpoint : P (.ofUInt64 p.checkpoint)) (hdata : P p.data) : ∀ m ∈ p.members, P m.2 := by
  have htext (name : String) (a : Option String) :
      ∀ m ∈ Json.optionalMember name .string a, P m.2 :=
    Json.forall_mem_optionalMember.2 fun s _ => hstring s
  simp only [members, List.forall_mem_append, List.forall_mem_cons, List.not_mem_nil,
    false_imp_iff, implies_true, and_true]
  exact ⟨⟨⟨⟨⟨hstring _, hstring _⟩, htext _ _⟩, hcheckpoint⟩, htext _ _⟩, hdata⟩

/-- A message is read back from the form in which it is written. -/
theorem retakes_of_kept {room : Nat} {p : Push} (h : p.data.Kept room) :
    Retakes shape toJson (room + 1) p :=
  .record commuting_fields (nodup_members p) (forall_mem_members .string (.number _) h)
    (fromMembers_members h) rfl

theorem integral_toJson {p : Push} (h : p.data.Integral) : p.toJson.Integral :=
  .ofMembers (forall_mem_members .string (.ofUInt64 _) h)

/-- A message is read back from its text, and from any other text that says the same. -/
def ReadsBack (p : Push) : Prop := Shape.ReadsBack shape toJson p

theorem readsBack_of_kept {p : Push} (hkept : p.data.Kept 126) (hintegral : p.data.Integral) :
    p.ReadsBack :=
  (retakes_of_kept hkept).readsBack stable_shape (integral_toJson hintegral)

/-! ## Messages about changes -/

/-- The members of what is said of a change. -/
def changeMembers (c : Change) : List (String × Json) :=
  [ ("key1", .ofOption .string c.key.key1), ("key2", .ofOption .string c.key.key2),
    ("value", c.value.getD .null), ("is_removed", .bool c.isRemove) ]

theorem nodup_changeMembers (c : Change) : ((changeMembers c).map (·.1)).Nodup := by
  simp [changeMembers]

theorem kept_changeData {room : Nat} {c : Change} (h : ∀ v ∈ c.value, v.Kept room) :
    (changeData c).Kept (room + 1) := by
  refine Json.kept_ofMembers ?_
  simp only [List.forall_mem_cons, List.not_mem_nil, false_imp_iff, implies_true, and_true]
  refine ⟨Json.kept_ofOption_string _, Json.kept_ofOption_string _, ?_, .bool _⟩
  cases hc : c.value with
  | none => exact .null
  | some v => exact h v hc

theorem integral_changeData {c : Change} (h : ∀ v ∈ c.value, v.Integral) :
    (changeData c).Integral := by
  refine .ofMembers ?_
  simp only [List.forall_mem_cons, List.not_mem_nil, false_imp_iff, implies_true, and_true]
  refine ⟨.ofOption_string _, .ofOption_string _, ?_, .bool _⟩
  cases hc : c.value with
  | none => exact .null
  | some v => exact h v hc

/-- What is said of a change tells its value: nothing, `null` or another. -/
theorem value_of_changeData {c c' : Change} (h : changeData c = changeData c') :
    c.value = c'.value := by
  have hsame (name : String) {v w : Json} (hv : (name, v) ∈ changeMembers c)
      (hw : (name, w) ∈ changeMembers c') : v = w :=
    Json.ofMembers_inj (nodup_changeMembers c) (nodup_changeMembers c') h hv hw
  have hvalue : c.value.getD .null = c'.value.getD .null :=
    hsame "value" (by simp [changeMembers]) (by simp [changeMembers])
  have hremove : Json.bool c.isRemove = .bool c'.isRemove :=
    hsame "is_removed" (by simp [changeMembers]) (by simp [changeMembers])
  rw [Json.bool.injEq, Change.isRemove, Change.isRemove] at hremove
  cases hc : c.value <;> cases hc' : c'.value <;> simp_all

/-- Changes with different values are written differently. -/
theorem ofChange_toJson_ne {c c' : Change} (h : c.value ≠ c'.value) :
    (ofChange c).toJson ≠ (ofChange c').toJson := by
  intro hsame
  have hdata (c : Change) : ("data", changeData c) ∈ (ofChange c).members := by
    simp [members, ofChange]
  exact h (value_of_changeData
    (Json.ofMembers_inj (nodup_members _) (nodup_members _) hsame (hdata c) (hdata c')))

end Push

/-- A change whose value is no more than a hundred brackets deep and has only integers. -/
def Change.IsPlain (c : Change) : Prop := ∀ v ∈ c.value, v.Kept 100 ∧ v.Integral

theorem Change.IsPlain.readsBack {c : Change} (h : c.IsPlain) : (Push.ofChange c).ReadsBack := by
  have hkept : (Push.changeData c).Kept 101 := Push.kept_changeData fun v hv => (h v hv).1
  exact Push.readsBack_of_kept (hkept.mono (by decide))
    (Push.integral_changeData fun v hv => (h v hv).2)

/-- **What goes over the wire is understood.**  A request for any filters is understood from its
text, and from any text that asks for these filters.  The message for a log entry or a change whose
value is no more than a hundred brackets deep and has only integers is read back.  What is sent for
changes with different values is different, and no text says both. -/
theorem subscriberWire_roundTrip :
    (∀ fs : List Filter,
      Request.parse (Request.subscribe fs).toJson.text = .ok (.subscribe fs) ∧
      ∀ (text : String) (r : Reading), Document.read text = ⟨r, .ok ()⟩ →
        Request.Asks (Json.maxDepth - 3) fs r → Request.parse text = .ok (.subscribe fs)) ∧
    (∀ e : EventRecord, e.value.Kept 100 → e.value.Integral → (Push.ofEvent e).ReadsBack) ∧
    (∀ c : Change, c.IsPlain → (Push.ofChange c).ReadsBack) ∧
    ∀ c c' : Change, c.value ≠ c'.value →
      (∀ text, ¬ (Says text (Push.ofChange c).toJson ∧ Says text (Push.ofChange c').toJson)) ∧
      (c.IsPlain → c'.IsPlain →
        (Push.ofChange c).toJson.text ≠ (Push.ofChange c').toJson.text) := by
  have hdiffer {c c' : Change} (hne : c.value ≠ c'.value) (text : String) :
      ¬ (Says text (Push.ofChange c).toJson ∧ Says text (Push.ofChange c').toJson) := fun hsaid =>
    Push.ofChange_toJson_ne hne (hsaid.1.unique hsaid.2)
  refine ⟨fun fs => ⟨?_, fun text r => Request.parse_of_asks⟩, fun e hkept hintegral => ?_,
    fun c hplain => hplain.readsBack, fun c c' hne => ⟨hdiffer hne, fun hplain hplain' hsame => ?_⟩⟩
  · exact Request.parse_of_asks (Document.read_text (Request.integral_toJson fs))
      (Request.asks_toJson _ fs)
  · exact Push.readsBack_of_kept (hkept.mono (by decide)) hintegral
  · refine hdiffer hne _ ⟨hplain.readsBack.1, ?_⟩
    rw [hsame]
    exact hplain'.readsBack.1

/-! ### A wordy request, and three changes -/

/-- A request with its members the other way round, unknown ones among them, and both spellings. -/
def wordy : Json :=
  .object
    [ ("note", .array [.object [("a", .ofInt 1), ("a", .null)]]),
      ("filters", .array
        [ .object
            [("sender", .string "0xa"), ("more", .object []), ("kind", .string "DomainEvent")],
          .object [("kind", .string "state_change"), ("name", .string "a \"b\"\n")] ]),
      ("type", .string "subscribe") ]

theorem integral_wordy : wordy.Integral := by
  simp only [wordy, Json.integral_object, Json.integral_array, List.forall_mem_cons]
  simp [Json.Integral.string, Json.Integral.null, Json.ofInt, Json.integral_int]

/-- It asks for two filters. -/
theorem asks_wordy : Request.Asks (Json.maxDepth - 3)
    [.entries none (some "0xa"), .changes (some "a \"b\"\n")] (.ofJson wordy) := by
  have reversed {α : Type} (a b c : α) : [a, b, c].Perm [c, b, a] := List.reverse_perm [c, b, a]
  have turned {α : Type} (a b c : α) : ([a, b] ++ [c]).Perm ([c] ++ [a, b]) :=
    List.perm_append_comm
  refine ⟨_, _, _, rfl, .cons ?_ (.cons ?_ .nil), reversed _ _ _, ?_⟩
  · refine ⟨"DomainEvent", _, _, rfl, rfl, turned _ _ _, ?_⟩
    exact List.forall_mem_singleton.2 ⟨"more", _, rfl, by decide, rfl⟩
  · exact ⟨"state_change", _, [], rfl, rfl, .refl _, by simp⟩
  · exact List.forall_mem_singleton.2 ⟨"note", _, rfl, by decide, rfl⟩

/-- A change of one row with some value. -/
def changeTo (value : Option Json) : Change := ⟨⟨"offer", none, none⟩, value, 7, "d", "0x2"⟩

theorem subscriberWire_roundTrip_wordy :
    wordy.text = "\x7b\"note\":[\x7b\"a\":1,\"a\":null\x7d],\"filters\":[\x7b\"sender\":\"0xa\"," ++
      "\"more\":\x7b\x7d,\"kind\":\"DomainEvent\"\x7d,\x7b\"kind\":\"state_change\"," ++
      "\"name\":\"a \\\"b\\\"\\n\"\x7d],\"type\":\"subscribe\"\x7d" ∧
    Request.parse wordy.text =
      .ok (.subscribe [.entries none (some "0xa"), .changes (some "a \"b\"\n")]) ∧
    (Push.ofEvent ⟨"0x2", 7, "d", "sold", "sold_event", .array [.ofInt 5], 0⟩).ReadsBack ∧
    (Push.ofChange (changeTo (some .null))).ReadsBack ∧
    (Push.ofChange (changeTo (some .null))).toJson.text ≠
      (Push.ofChange (changeTo none)).toJson.text ∧
    (Push.ofChange (changeTo (some .null))).toJson.text ≠
      (Push.ofChange (changeTo (some (.bool true)))).toJson.text := by
  obtain ⟨requests, events, changes, differ⟩ := subscriberWire_roundTrip
  have null : (changeTo (some .null)).IsPlain := by
    rintro v ⟨⟩
    exact ⟨.null, .null⟩
  have nothing : (changeTo none).IsPlain := nofun
  have truth : (changeTo (some (.bool true))).IsPlain := by
    rintro v ⟨⟩
    exact ⟨.bool true, .bool true⟩
  have removed : (changeTo (some .null)).value ≠ (changeTo none).value := nofun
  have other : (changeTo (some .null)).value ≠ (changeTo (some (.bool true))).value := nofun
  refine ⟨by decide +kernel, (requests _).2 _ _ (Document.read_text integral_wordy) asks_wordy,
    events _ ?_ ?_, changes _ null, (differ _ _ removed).2 null nothing,
    (differ _ _ other).2 null truth⟩
  · exact .array (by simp [Json.Kept.number, Json.ofInt])
  · exact .array (by simp [Json.integral_int, Json.ofInt])

end LedgerIndex
