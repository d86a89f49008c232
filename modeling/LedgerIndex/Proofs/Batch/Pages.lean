import LedgerIndex.Batch
import Mathlib.Tactic.Common

/-!
# The batch of a page, transaction by transaction

The records, entries and changes of a page are those of its transactions one after the other.  The
time at which a page is taken in is written on its records and entries, and on nothing else.
-/

namespace LedgerIndex

/-- A record as it would be, had it been made at another time. -/
def CallRecord.atTime (r : CallRecord) (time : Int) : CallRecord := { r with createdAt := time }

/-- An entry as it would be, had it been made at another time. -/
def EventRecord.atTime (r : EventRecord) (time : Int) : EventRecord := { r with createdAt := time }

namespace Batch

variable {filter : TypeFilter} {now : Int}

/-! ## Batches put together -/

@[simp] theorem calls_append (a b : Batch) : (a ++ b).calls = a.calls ++ b.calls := rfl

@[simp] theorem events_append (a b : Batch) : (a ++ b).events = a.events ++ b.events := rfl

@[simp] theorem changes_append (a b : Batch) : (a ++ b).changes = a.changes ++ b.changes := rfl

theorem concat_cons (b : Batch) (bs : List Batch) : concat (b :: bs) = b ++ concat bs := rfl

theorem calls_concat (bs : List Batch) : (concat bs).calls = bs.flatMap (·.calls) := by
  induction bs with
  | nil => rfl
  | cons b bs ih => rw [concat_cons, calls_append, ih, List.flatMap_cons]

theorem events_concat (bs : List Batch) : (concat bs).events = bs.flatMap (·.events) := by
  induction bs with
  | nil => rfl
  | cons b bs ih => rw [concat_cons, events_append, ih, List.flatMap_cons]

theorem changes_concat (bs : List Batch) : (concat bs).changes = bs.flatMap (·.changes) := by
  induction bs with
  | nil => rfl
  | cons b bs ih => rw [concat_cons, changes_append, ih, List.flatMap_cons]

/-! ## Pages -/

theorem calls_ofPage (filter : TypeFilter) (now : Int) (page : List Transaction) :
    (ofPage filter now page).calls = page.flatMap (callRecords now) := by
  rw [ofPage, calls_concat, List.flatMap_map]
  rfl

theorem events_ofPage (filter : TypeFilter) (now : Int) (page : List Transaction) :
    (ofPage filter now page).events =
      page.flatMap fun t => t.events.flatMap fun e => (ofEvent filter now t e).events := by
  simp only [ofPage, events_concat, List.flatMap_map, ofTransaction]

theorem changes_ofPage (filter : TypeFilter) (now : Int) (page : List Transaction) :
    (ofPage filter now page).changes =
      page.flatMap fun t => t.events.flatMap fun e => (ofEvent filter now t e).changes := by
  simp only [ofPage, changes_concat, List.flatMap_map, ofTransaction]

theorem calls_ofPage_append (p q : List Transaction) :
    (ofPage filter now (p ++ q)).calls =
      (ofPage filter now p).calls ++ (ofPage filter now q).calls := by
  simp only [calls_ofPage, List.flatMap_append]

theorem events_ofPage_append (p q : List Transaction) :
    (ofPage filter now (p ++ q)).events =
      (ofPage filter now p).events ++ (ofPage filter now q).events := by
  simp only [events_ofPage, List.flatMap_append]

theorem changes_ofPage_append (p q : List Transaction) :
    (ofPage filter now (p ++ q)).changes =
      (ofPage filter now p).changes ++ (ofPage filter now q).changes := by
  simp only [changes_ofPage, List.flatMap_append]

/-! ## Times -/

theorem callRecords_atTime (now time : Int) (t : Transaction) :
    (callRecords now t).map (·.atTime time) = callRecords time t := by
  rw [callRecords, callRecords]
  split <;> simp [CallRecord.atTime]

theorem events_ofEvent_atTime (filter : TypeFilter) (now time : Int) (t : Transaction)
    (e : RawEvent) :
    (ofEvent filter now t e).events.map (·.atTime time) = (ofEvent filter time t e).events := by
  rw [ofEvent, ofEvent]
  split
  · split <;> simp [EventRecord.atTime, empty]
  · rfl

theorem changes_ofEvent_time (filter : TypeFilter) (now time : Int) (t : Transaction)
    (e : RawEvent) : (ofEvent filter now t e).changes = (ofEvent filter time t e).changes := by
  rw [ofEvent, ofEvent]
  split
  · split <;> rfl
  · rfl

/-- Taken in at another time, a page comes to the same records, with that time on them. -/
theorem calls_ofPage_atTime (filter : TypeFilter) (now time : Int) (page : List Transaction) :
    (ofPage filter now page).calls.map (·.atTime time) = (ofPage filter time page).calls := by
  simp only [calls_ofPage, List.map_flatMap, callRecords_atTime]

/-- Taken in at another time, a page comes to the same entries, with that time on them. -/
theorem events_ofPage_atTime (filter : TypeFilter) (now time : Int) (page : List Transaction) :
    (ofPage filter now page).events.map (·.atTime time) = (ofPage filter time page).events := by
  simp only [events_ofPage, List.map_flatMap, events_ofEvent_atTime]

/-- The changes of a page do not depend on when it is taken in. -/
theorem changes_ofPage_time (filter : TypeFilter) (now time : Int) (page : List Transaction) :
    (ofPage filter now page).changes = (ofPage filter time page).changes := by
  simp only [changes_ofPage, changes_ofEvent_time filter now time]

/-- A batch as it would be, had it been made at another time. -/
def atTime (b : Batch) (time : Int) : Batch :=
  { b with calls := b.calls.map (·.atTime time), events := b.events.map (·.atTime time) }

theorem append_atTime (a b : Batch) (time : Int) :
    (a ++ b).atTime time = a.atTime time ++ b.atTime time := by
  change atTime (append a b) time = append (a.atTime time) (b.atTime time)
  simp [atTime, append]

theorem concat_atTime (bs : List Batch) (time : Int) :
    (concat bs).atTime time = concat (bs.map (·.atTime time)) := by
  induction bs with
  | nil => rfl
  | cons b bs ih => rw [concat_cons, append_atTime, ih, List.map_cons, concat_cons]

theorem ofEvent_atTime (filter : TypeFilter) (now time : Int) (t : Transaction) (e : RawEvent) :
    (ofEvent filter now t e).atTime time = ofEvent filter time t e := by
  rw [ofEvent, ofEvent]
  split
  · split <;> rfl
  · rfl

theorem ofTransaction_atTime (filter : TypeFilter) (now time : Int) (t : Transaction) :
    (ofTransaction filter now t).atTime time = ofTransaction filter time t := by
  have hevents := concat_atTime (t.events.map (ofEvent filter now t)) time
  simp only [List.map_map, Function.comp_def, ofEvent_atTime] at hevents
  rw [ofTransaction, ofTransaction, ← callRecords_atTime now time, ← hevents]
  rfl

/-- Taken in at another time, a page comes to the same batch, with that time on it. -/
theorem ofPage_atTime (filter : TypeFilter) (now time : Int) (page : List Transaction) :
    (ofPage filter now page).atTime time = ofPage filter time page := by
  rw [ofPage, ofPage, concat_atTime, List.map_map]
  exact congrArg concat (List.map_congr_left fun t _ => ofTransaction_atTime filter now time t)

/-! ## Where changes come from -/

/-- A change carries the checkpoint and the digest of the transaction that made it. -/
theorem origin_of_mem_changes {filter : TypeFilter} {now : Int} {page : List Transaction}
    {c : Change} (hc : c ∈ (ofPage filter now page).changes) :
    ∃ t ∈ page, c.checkpoint = t.checkpoint ∧ c.digest = t.digest := by
  simp only [changes_ofPage, List.mem_flatMap] at hc
  obtain ⟨t, ht, e, -, hc⟩ := hc
  refine ⟨t, ht, ?_⟩
  rw [ofEvent] at hc
  split at hc
  · split at hc
    · cases hc
    · cases hc
    · rw [List.mem_singleton.1 hc]; exact ⟨rfl, rfl⟩
    · rw [List.mem_singleton.1 hc]; exact ⟨rfl, rfl⟩
  · cases hc

end Batch

end LedgerIndex
