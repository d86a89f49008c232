import LedgerIndex.Proofs.Batch.Sorting
import Mathlib.Data.List.Forall2

/-!
# What becomes of events

Four things can become of an event: its type is not wanted, or it is not well formed, or it is an
entry of the log, or it changes a row.  Which of them it is hangs on the event and the filter alone
(`RawEvent.outcome`), and what it then adds to a batch carries its own sender and the digest and the
checkpoint of the transaction that emitted it (`says_ofEvent`).  So the batch of a page accounts for
every event of the page once, in the order of the ledger, and it is the batch that the page would
come to without a filter if the events that are not wanted had never been in it
(`ofPage_accounted`).
-/

namespace LedgerIndex

/-! ## Outcomes -/

/-- What can become of an event. -/
inductive Outcome where
  /-- its type is not wanted -/
  | filtered
  /-- it is not well formed -/
  | skipped
  | entry
  | change
  deriving DecidableEq, Repr

/-- What becomes of an event. -/
def RawEvent.outcome (filter : TypeFilter) (e : RawEvent) : Outcome :=
  if filter.accepts e.type then
    match Payload.parse e.payload with
    | .error _ => .skipped
    | .ok (.entry ..) => .entry
    | .ok _ => .change
  else .filtered

/-- An event with the transaction that emitted it. -/
abbrev Emitted := Transaction × RawEvent

/-- The entry is what an event says, with the marks of the event and of its transaction. -/
structure EventRecord.IsOf (r : EventRecord) (x : Emitted) : Prop where
  digest : r.digest = x.1.digest
  checkpoint : r.checkpoint = x.1.checkpoint
  sender : r.sender = x.2.sender
  payload : Payload.parse x.2.payload = .ok (.entry r.name r.rawName r.value)

/-- What an event says that makes a change. -/
def Change.payload (c : Change) : Payload :=
  match c.value with
  | some value => .set c.key value
  | none => .remove c.key

/-- The change is what an event says, with the marks of the event and of its transaction. -/
structure Change.IsOf (c : Change) (x : Emitted) : Prop where
  digest : c.digest = x.1.digest
  checkpoint : c.checkpoint = x.1.checkpoint
  sender : c.sender = x.2.sender
  payload : Payload.parse x.2.payload = .ok c.payload

namespace Batch

variable {filter : TypeFilter} {now : Int}

/-- What an event adds to a batch, by what becomes of it. -/
inductive Says (x : Emitted) : Outcome → Batch → Prop
  | filtered : Says x .filtered { empty with filtered := 1 }
  | skipped : Says x .skipped { empty with skipped := 1 }
  | entry {r : EventRecord} : r.IsOf x → Says x .entry { empty with events := [r] }
  | change {c : Change} : c.IsOf x → Says x .change { empty with changes := [c] }

/-- An event adds to a batch what its outcome says. -/
theorem says_ofEvent (filter : TypeFilter) (now : Int) (x : Emitted) :
    Says x (x.2.outcome filter) (ofEvent filter now x.1 x.2) := by
  rw [RawEvent.outcome, ofEvent]
  cases filter.accepts x.2.type with
  | false => exact .filtered
  | true =>
    cases hpayload : Payload.parse x.2.payload with
    | error flaw => exact .skipped
    | ok payload =>
      cases payload with
      | entry name rawName value => exact .entry ⟨rfl, rfl, rfl, hpayload⟩
      | set key value => exact .change ⟨rfl, rfl, rfl, hpayload⟩
      | remove key => exact .change ⟨rfl, rfl, rfl, hpayload⟩

/-! ## Many events -/

section Tally

variable {outcome : Emitted → Outcome} {said : Emitted → Batch}

/-- What counts one outcome counts the events that have it. -/
theorem count_tally (count : Batch → Nat) (o : Outcome) (hempty : count empty = 0)
    (happend : ∀ a b, count (a ++ b) = count a + count b)
    (hone : ∀ {x o' b}, Says x o' b → count b = if o' = o then 1 else 0)
    (h : ∀ x, Says x (outcome x) (said x)) (l : List Emitted) :
    count (concat (l.map said)) = l.countP (outcome · = o) := by
  induction l with
  | nil => exact hempty
  | cons x l ih =>
    rw [List.map_cons, concat_cons, happend, ih, List.countP_cons, Nat.add_comm, hone (h x)]
    simp

/-- What holds the marks of one outcome holds those of the events that have it, in their order. -/
theorem forall₂_tally {β : Type} (marks : Batch → List β) (R : Emitted → β → Prop) (o : Outcome)
    (hempty : marks empty = []) (happend : ∀ a b, marks (a ++ b) = marks a ++ marks b)
    (hone : ∀ {x o' b}, Says x o' b →
      if o' = o then ∃ r, R x r ∧ marks b = [r] else marks b = [])
    (h : ∀ x, Says x (outcome x) (said x)) (l : List Emitted) :
    List.Forall₂ R (l.filter (outcome · = o)) (marks (concat (l.map said))) := by
  induction l with
  | nil =>
    change List.Forall₂ R [] (marks empty)
    rw [hempty]
    exact .nil
  | cons x l ih =>
    rw [List.map_cons, concat_cons, happend, List.filter_cons]
    have hx := hone (h x)
    by_cases ho : outcome x = o
    · rw [if_pos ho] at hx
      obtain ⟨r, hr, hmarks⟩ := hx
      rw [hmarks, if_pos (decide_eq_true ho)]
      exact .cons hr ih
    · rw [if_neg ho] at hx
      rw [hx, if_neg (by simpa using ho)]
      exact ih

theorem filtered_tally (h : ∀ x, Says x (outcome x) (said x)) (l : List Emitted) :
    (concat (l.map said)).filtered = l.countP (outcome · = .filtered) :=
  count_tally (·.filtered) .filtered rfl filtered_append (by rintro _ _ _ ⟨⟩ <;> rfl) h l

theorem skipped_tally (h : ∀ x, Says x (outcome x) (said x)) (l : List Emitted) :
    (concat (l.map said)).skipped = l.countP (outcome · = .skipped) :=
  count_tally (·.skipped) .skipped rfl skipped_append (by rintro _ _ _ ⟨⟩ <;> rfl) h l

/-- The entries are those of the events that are entries, in their order. -/
theorem events_tally (h : ∀ x, Says x (outcome x) (said x)) (l : List Emitted) :
    List.Forall₂ (fun x r => EventRecord.IsOf r x) (l.filter (outcome · = .entry))
      (concat (l.map said)).events := by
  refine forall₂_tally (·.events) _ .entry rfl events_append ?_ h l
  rintro x _ _ (_ | _ | hr | hc)
  · rfl
  · rfl
  · exact ⟨_, hr, rfl⟩
  · rfl

/-- The changes are those of the events that change a row, in their order. -/
theorem changes_tally (h : ∀ x, Says x (outcome x) (said x)) (l : List Emitted) :
    List.Forall₂ (fun x c => Change.IsOf c x) (l.filter (outcome · = .change))
      (concat (l.map said)).changes := by
  refine forall₂_tally (·.changes) _ .change rfl changes_append ?_ h l
  rintro x _ _ (_ | _ | hr | hc)
  · rfl
  · rfl
  · rfl
  · exact ⟨_, hc, rfl⟩

/-- Each event has one outcome. -/
theorem length_eq_tally (outcome : Emitted → Outcome) (l : List Emitted) :
    l.countP (outcome · = .filtered) + l.countP (outcome · = .skipped) +
      (l.filter (outcome · = .entry)).length + (l.filter (outcome · = .change)).length =
        l.length := by
  induction l with
  | nil => rfl
  | cons x l ih =>
    simp only [List.countP_cons, List.filter_cons, List.length_cons, ← ih]
    cases outcome x <;> simp <;> omega

end Tally

/-! ## The events of a page -/

/-- The events of a page in the order of the ledger, each with its transaction. -/
def emitted (page : List Transaction) : List Emitted :=
  page.flatMap fun t => t.events.map (t, ·)

theorem sorted_eq_map_emitted (page : List Transaction) :
    sorted filter now page = (emitted page).map fun x => ofEvent filter now x.1 x.2 := by
  simp only [sorted, emitted, List.map_flatMap, List.map_map, Function.comp_def]

theorem map_snd_emitted (page : List Transaction) :
    (emitted page).map (·.2) = page.flatMap (·.events) := by
  simp only [emitted, List.map_flatMap, List.map_map, Function.comp_def, List.map_id']

/-- A page accounts for its events: each is counted, or is logged, or changes a row, and the entries
and the changes are in the order of the ledger. -/
structure Accounts (filter : TypeFilter) (page : List Transaction) (b : Batch) : Prop where
  total : b.filtered + b.skipped + b.events.length + b.changes.length =
    (page.flatMap (·.events)).length
  filtered : b.filtered = (emitted page).countP (·.2.outcome filter = .filtered)
  skipped : b.skipped = (emitted page).countP (·.2.outcome filter = .skipped)
  events : List.Forall₂ (fun x r => EventRecord.IsOf r x)
    ((emitted page).filter (·.2.outcome filter = .entry)) b.events
  changes : List.Forall₂ (fun x c => Change.IsOf c x)
    ((emitted page).filter (·.2.outcome filter = .change)) b.changes

theorem accounts_ofPage (filter : TypeFilter) (now : Int) (page : List Transaction) :
    Accounts filter page (ofPage filter now page) := by
  rw [ofPage_eq, sorted_eq_map_emitted]
  have hfiltered := filtered_tally (says_ofEvent filter now) (emitted page)
  have hskipped := skipped_tally (says_ofEvent filter now) (emitted page)
  have hevents := events_tally (says_ofEvent filter now) (emitted page)
  have hchanges := changes_tally (says_ofEvent filter now) (emitted page)
  refine ⟨?_, hfiltered, hskipped, hevents, hchanges⟩
  rw [hfiltered, hskipped, ← hevents.length_eq, ← hchanges.length_eq, ← map_snd_emitted,
    List.length_map]
  exact length_eq_tally (fun x => x.2.outcome filter) (emitted page)

end Batch

/-! ## The calls of a page -/

/-- The call that a record is about. -/
def CallRecord.call (r : CallRecord) : Call := ⟨r.package, r.module, r.function, r.arguments⟩

/-- The call that is logged where there is none. -/
def Call.blank : Call := ⟨"", "", "", .array []⟩

/-- The records are those of a transaction: one for each of its calls, or one of a blank call, each
with the marks of the transaction and the point to resume after it. -/
structure Transaction.Logs (t : Transaction) (records : List CallRecord) : Prop where
  length : records.length = max 1 t.calls.length
  calls : records.map (·.call) = if t.calls.isEmpty then [.blank] else t.calls
  cursor : ∀ r ∈ records, r.cursor = t.digest
  marks : ∀ r ∈ records, r.digest = t.digest ∧ r.checkpoint = t.checkpoint ∧ r.sender = t.sender

/-- A transaction without the events of types that are not wanted. -/
def Transaction.wanted (filter : TypeFilter) (t : Transaction) : Transaction :=
  { t with events := t.events.filter (filter.accepts ·.type) }

namespace Batch

theorem logs_callRecords (now : Int) (t : Transaction) : t.Logs (callRecords now t) := by
  obtain ⟨digest, checkpoint, timestamp, sender, calls, events⟩ := t
  cases calls with
  | nil => exact ⟨rfl, rfl, by simp [callRecords], by simp [callRecords]⟩
  | cons c calls =>
    refine ⟨?_, ?_, by simp [callRecords], by simp [callRecords]⟩
    · rw [callRecords, if_neg (by simp), List.length_map]
      exact (Nat.max_eq_right (Nat.le_add_left 1 _)).symm
    · rw [callRecords, if_neg (by simp), if_neg (by simp), List.map_map]
      exact List.map_id _

/-! ## Without the events that are not wanted -/

theorem ofEvent_of_accepts {t : Transaction} {e : RawEvent} (h : filter.accepts e.type = true) :
    ofEvent filter now t e = ofEvent .all now t e := by
  have hall : TypeFilter.all.accepts e.type = true := rfl
  rw [ofEvent, ofEvent, if_pos h, if_pos hall]

theorem filtered_ofEvent_all (now : Int) (x : Emitted) :
    (ofEvent .all now x.1 x.2).filtered = 0 := by
  have hall : TypeFilter.all.accepts x.2.type = true := rfl
  rw [ofEvent, if_pos hall]
  split <;> rfl

theorem ofEvent_of_not_accepts {t : Transaction} {e : RawEvent}
    (h : filter.accepts e.type = false) :
    ofEvent filter now t e = { empty with filtered := 1 } := by
  rw [ofEvent, h]
  rfl

/-- Wanted events come to what they come to without a filter. -/
theorem concat_wanted (said plain : Emitted → Batch) (wanted : Emitted → Bool)
    (hwanted : ∀ x, wanted x = true → said x = plain x ∧ (plain x).filtered = 0)
    (hunwanted : ∀ x, wanted x = false → said x = { empty with filtered := 1 })
    (l : List Emitted) :
    concat (l.map said) =
      { concat ((l.filter wanted).map plain) with filtered := l.countP (!wanted ·) } := by
  induction l with
  | nil => rfl
  | cons x l ih =>
    rw [List.map_cons, concat_cons, ih, List.filter_cons, List.countP_cons]
    cases hx : wanted x with
    | false =>
      rw [hunwanted x hx]
      exact eq_of_fields rfl rfl rfl Option.or_none (Nat.zero_add _) (Nat.add_comm ..)
    | true =>
      obtain ⟨hsaid, hzero⟩ := hwanted x hx
      rw [hsaid]
      refine eq_of_fields rfl rfl rfl rfl rfl ?_
      rw [filtered_append, hzero]
      exact Nat.zero_add _

theorem sorted_wanted (filter : TypeFilter) (now : Int) (page : List Transaction) :
    sorted .all now (page.map (·.wanted filter)) =
      ((emitted page).filter fun x => filter.accepts x.2.type).map fun x =>
        ofEvent .all now x.1 x.2 := by
  induction page with
  | nil => rfl
  | cons t page ih =>
    have hemitted : emitted (t :: page) = t.events.map (t, ·) ++ emitted page := List.flatMap_cons
    rw [List.map_cons, sorted_cons, ih, hemitted, List.filter_append, List.map_append,
      List.filter_map, List.map_map]
    rfl

/-- A page comes to what it would come to if the events that are not wanted were not in it, and none
were left out, but for their number. -/
theorem ofPage_wanted (filter : TypeFilter) (now : Int) (page : List Transaction) :
    ofPage filter now page =
      { ofPage .all now (page.map (·.wanted filter)) with
        filtered := ((page.flatMap (·.events)).filter fun e => !filter.accepts e.type).length } := by
  have hcalls : page.flatMap (callRecords now) =
      (page.map (·.wanted filter)).flatMap (callRecords now) := by
    rw [List.flatMap_map]
    rfl
  have hcursor : page.getLast?.map cursorPast =
      (page.map (·.wanted filter)).getLast?.map cursorPast := by
    rw [List.getLast?_map, Option.map_map]
    rfl
  have hfiltered : (emitted page).countP (fun x => !filter.accepts x.2.type) =
      ((page.flatMap (·.events)).filter fun e => !filter.accepts e.type).length := by
    rw [← map_snd_emitted, ← List.countP_eq_length_filter, List.countP_map]
    rfl
  have hconcat := concat_wanted (fun x => ofEvent filter now x.1 x.2)
    (fun x => ofEvent .all now x.1 x.2) (fun x => filter.accepts x.2.type)
    (fun x hx => ⟨ofEvent_of_accepts hx, filtered_ofEvent_all now x⟩)
    (fun x hx => ofEvent_of_not_accepts hx) (emitted page)
  rw [ofPage_eq, ofPage_eq, sorted_eq_map_emitted, hconcat, sorted_wanted]
  exact eq_of_fields hcalls rfl rfl hcursor rfl hfiltered

/-- **Every event of a page is accounted for once.**  It is counted as not wanted or as not well
formed, or it is logged, or it changes a row; the entries and the changes stand in the order of the
ledger, each with the sender of its event and the digest and checkpoint of its transaction.  The calls
are logged transaction by transaction.  And the page comes to what it would come to without a filter,
whenever it is taken in, if the events that are not wanted were deleted first, but that they are
counted. -/
theorem ofPage_accounted (filter : TypeFilter) (now now' : Int) (page : List Transaction) :
    Accounts filter page (ofPage filter now page) ∧
    (∃ groups, (ofPage filter now page).calls = groups.flatten ∧
      List.Forall₂ Transaction.Logs page groups) ∧
    ofPage filter now page =
      { (ofPage .all now' (page.map (·.wanted filter))).atTime now with
        filtered := ((page.flatMap (·.events)).filter fun e => !filter.accepts e.type).length } := by
  refine ⟨accounts_ofPage filter now page, ⟨page.map (callRecords now), ?_, ?_⟩, ?_⟩
  · rw [calls_ofPage, List.flatMap_def]
  · exact List.forall₂_map_right_iff.2 (List.forall₂_same.2 fun t _ => logs_callRecords now t)
  · rw [ofPage_atTime]
    exact ofPage_wanted filter now page

end Batch

end LedgerIndex
