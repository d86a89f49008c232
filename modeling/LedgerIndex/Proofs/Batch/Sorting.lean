import LedgerIndex.Proofs.Batch.Pages
import Mathlib.Algebra.GroupWithZero.Nat

/-!
# Pages are sorted event by event

A page can be sorted in one pass, with one batch at hand to which each event adds what it says.  An
event adds the same whatever is in the batch already (`takeEvent_eq`), and so does a transaction
(`takeTransaction_eq`); so the pass comes to the batch that is put together from those of the
transactions.  Two pages one after the other come to their two batches one after the other, and a
page that is cut at one of its events comes to what stands before it, what the event says by itself,
and what stands after it (`ofPage_homomorphism`).
-/

namespace LedgerIndex

namespace Batch

variable {filter : TypeFilter} {now : Int} {t : Transaction}

/-! ## Batches one after the other -/

@[simp] theorem skipped_append (a b : Batch) : (a ++ b).skipped = a.skipped + b.skipped := rfl

@[simp] theorem filtered_append (a b : Batch) : (a ++ b).filtered = a.filtered + b.filtered := rfl

@[simp] theorem cursor_append (a b : Batch) : (a ++ b).cursor = b.cursor.or a.cursor := rfl

/-- Two batches are the same if they say the same. -/
theorem eq_of_fields {a b : Batch} (hcalls : a.calls = b.calls) (hevents : a.events = b.events)
    (hchanges : a.changes = b.changes) (hcursor : a.cursor = b.cursor)
    (hskipped : a.skipped = b.skipped) (hfiltered : a.filtered = b.filtered) : a = b := by
  cases a
  cases b
  subst hcalls hevents hchanges hcursor hskipped hfiltered
  rfl

theorem append_empty (b : Batch) : b ++ empty = b :=
  eq_of_fields (List.append_nil _) (List.append_nil _) (List.append_nil _) rfl rfl rfl

theorem empty_append (b : Batch) : empty ++ b = b :=
  eq_of_fields rfl rfl rfl Option.or_none (Nat.zero_add _) (Nat.zero_add _)

theorem append_assoc (a b c : Batch) : a ++ b ++ c = a ++ (b ++ c) :=
  eq_of_fields (List.append_assoc ..) (List.append_assoc ..) (List.append_assoc ..)
    Option.or_assoc.symm (Nat.add_assoc ..) (Nat.add_assoc ..)

theorem concat_append (as bs : List Batch) : concat (as ++ bs) = concat as ++ concat bs := by
  induction as with
  | nil => exact (empty_append _).symm
  | cons a as ih => rw [List.cons_append, concat_cons, concat_cons, ih, append_assoc]

theorem concat_flatMap {α : Type} (l : List α) (f : α → List Batch) :
    concat (l.flatMap f) = concat (l.map fun a => concat (f a)) := by
  induction l with
  | nil => rfl
  | cons a l ih => rw [List.flatMap_cons, concat_append, ih, List.map_cons, concat_cons]

theorem ofPage_append (p q : List Transaction) :
    ofPage filter now (p ++ q) = ofPage filter now p ++ ofPage filter now q := by
  rw [ofPage, List.map_append, concat_append]
  rfl

theorem ofPage_cons (t : Transaction) (page : List Transaction) :
    ofPage filter now (t :: page) = ofTransaction filter now t ++ ofPage filter now page := by
  rw [ofPage, List.map_cons, concat_cons]
  rfl

/-! ## One pass over a page -/

/-- Takes one more event of a transaction into the batch at hand. -/
def takeEvent (filter : TypeFilter) (now : Int) (t : Transaction) (b : Batch) (e : RawEvent) :
    Batch :=
  if filter.accepts e.type then
    match Payload.parse e.payload with
    | .error _ => { b with skipped := b.skipped + 1 }
    | .ok (.entry name rawName value) =>
      { b with
        events := b.events ++ [⟨e.sender, t.checkpoint, t.digest, name, rawName, value, now⟩] }
    | .ok (.set key value) =>
      { b with changes := b.changes ++ [⟨key, some value, t.checkpoint, t.digest, e.sender⟩] }
    | .ok (.remove key) =>
      { b with changes := b.changes ++ [⟨key, none, t.checkpoint, t.digest, e.sender⟩] }
  else { b with filtered := b.filtered + 1 }

/-- Takes one more transaction into the batch at hand: its calls, then its events.  The cursor comes
to stand past it. -/
def takeTransaction (filter : TypeFilter) (now : Int) (b : Batch) (t : Transaction) : Batch :=
  t.events.foldl (takeEvent filter now t)
    { b with
      calls := b.calls ++ callRecords now t
      cursor := some ⟨t.digest, t.checkpoint⟩ }

/-- What an event adds does not hang on the batch that it is added to. -/
theorem takeEvent_eq (b : Batch) (e : RawEvent) :
    takeEvent filter now t b e = b ++ ofEvent filter now t e := by
  have hnil {α : Type} (l : List α) : l = l ++ [] := (List.append_nil l).symm
  cases haccepts : filter.accepts e.type with
  | false =>
    rw [takeEvent, ofEvent, haccepts]
    exact eq_of_fields (hnil _) (hnil _) (hnil _) rfl rfl rfl
  | true =>
    rw [takeEvent, ofEvent, if_pos haccepts, if_pos haccepts]
    cases Payload.parse e.payload with
    | error flaw => exact eq_of_fields (hnil _) (hnil _) (hnil _) rfl rfl rfl
    | ok payload =>
      cases payload with
      | entry name rawName value => exact eq_of_fields (hnil _) rfl (hnil _) rfl rfl rfl
      | set key value => exact eq_of_fields (hnil _) (hnil _) rfl rfl rfl rfl
      | remove key => exact eq_of_fields (hnil _) (hnil _) rfl rfl rfl rfl

theorem foldl_takeEvent (b : Batch) (es : List RawEvent) :
    es.foldl (takeEvent filter now t) b = b ++ concat (es.map (ofEvent filter now t)) := by
  induction es generalizing b with
  | nil => exact (append_empty b).symm
  | cons e es ih =>
    rw [List.foldl_cons, ih, takeEvent_eq, append_assoc, List.map_cons, concat_cons]

/-- What only events say has no records of calls and no cursor. -/
theorem calls_concat_ofEvent (es : List RawEvent) :
    (concat (es.map (ofEvent filter now t))).calls = [] := by
  rw [calls_concat, List.flatMap_map, List.flatMap_eq_nil_iff]
  intro e _
  rw [ofEvent]
  split
  · split <;> rfl
  · rfl

theorem cursor_concat_ofEvent (es : List RawEvent) :
    (concat (es.map (ofEvent filter now t))).cursor = none := by
  induction es with
  | nil => rfl
  | cons e es ih =>
    rw [List.map_cons, concat_cons, cursor_append, ih, Option.none_or, ofEvent]
    split
    · split <;> rfl
    · rfl

/-- What a transaction adds does not hang on the batch that it is added to. -/
theorem takeTransaction_eq (b : Batch) :
    takeTransaction filter now b t = b ++ ofTransaction filter now t := by
  rw [takeTransaction, foldl_takeEvent]
  refine eq_of_fields ?_ rfl rfl ?_ rfl rfl
  · rw [calls_append, calls_concat_ofEvent, List.append_nil]
    rfl
  · rw [cursor_append, cursor_concat_ofEvent, Option.none_or]
    rfl

/-- A pass over a page adds its batch to the one at hand. -/
theorem foldl_takeTransaction (b : Batch) (page : List Transaction) :
    page.foldl (takeTransaction filter now) b = b ++ ofPage filter now page := by
  induction page generalizing b with
  | nil => exact (append_empty b).symm
  | cons t page ih => rw [List.foldl_cons, ih, takeTransaction_eq, append_assoc, ofPage_cons]

/-! ## What a page comes to -/

/-- What is added up when batches are put together is the sum over them. -/
theorem sum_concat (count : Batch → Nat) (hempty : count empty = 0)
    (happend : ∀ a b, count (a ++ b) = count a + count b) (bs : List Batch) :
    count (concat bs) = (bs.map count).sum := by
  induction bs with
  | nil => exact hempty
  | cons b bs ih => rw [concat_cons, happend, ih, List.map_cons, List.sum_cons]

theorem skipped_concat (bs : List Batch) : (concat bs).skipped = (bs.map (·.skipped)).sum :=
  sum_concat (·.skipped) rfl skipped_append bs

theorem filtered_concat (bs : List Batch) : (concat bs).filtered = (bs.map (·.filtered)).sum :=
  sum_concat (·.filtered) rfl filtered_append bs

/-- What the events of a page say, one by one in the order of the ledger. -/
def sorted (filter : TypeFilter) (now : Int) (page : List Transaction) : List Batch :=
  page.flatMap fun t => t.events.map (ofEvent filter now t)

/-- The cursor past a transaction. -/
def cursorPast (t : Transaction) : Cursor := ⟨t.digest, t.checkpoint⟩

theorem sorted_cons (t : Transaction) (page : List Transaction) :
    sorted filter now (t :: page) = t.events.map (ofEvent filter now t) ++ sorted filter now page :=
  List.flatMap_cons

/-- A page comes to what its events say, with the records of its calls, and the cursor past its last
transaction. -/
theorem ofPage_eq (page : List Transaction) :
    ofPage filter now page =
      { concat (sorted filter now page) with
        calls := page.flatMap (callRecords now)
        cursor := page.getLast?.map cursorPast } := by
  induction page with
  | nil => rfl
  | cons t page ih =>
    rw [ofPage_cons, ih, sorted_cons, concat_append]
    refine eq_of_fields rfl rfl rfl ?_ rfl rfl
    rw [cursor_append, List.getLast?_cons]
    cases page.getLast? <;> rfl

/-- Times aside, a batch logs and changes what some batches do, one after the other, and leaves out
as many events as they do. -/
structure Sums (parts : List Batch) (whole : Batch) : Prop where
  events : whole.events.map (·.atTime 0) = parts.flatMap fun b => b.events.map (·.atTime 0)
  changes : whole.changes = parts.flatMap (·.changes)
  skipped : whole.skipped = (parts.map (·.skipped)).sum
  filtered : whole.filtered = (parts.map (·.filtered)).sum

/-- Whenever a page is taken in, times aside it logs, changes and leaves out what its events say. -/
theorem ofPage_says (filter : TypeFilter) (now : Int) (page : List Transaction) :
    let said := concat (sorted filter 0 page)
    (ofPage filter now page).events.map (·.atTime 0) = said.events ∧
      (ofPage filter now page).changes = said.changes ∧
      (ofPage filter now page).skipped = said.skipped ∧
      (ofPage filter now page).filtered = said.filtered := by
  have h := (ofPage_atTime filter now 0 page).trans (ofPage_eq page)
  exact ⟨(congrArg events h :), (congrArg changes h :), (congrArg skipped h :),
    (congrArg filtered h :)⟩

/-- Pages taken in at any time sum up to a page if their events, one by one, say what its events
say. -/
theorem sums_of_sorted (pages : List (Int × List Transaction)) {page : List Transaction}
    (h : sorted filter 0 page = pages.flatMap fun x => sorted filter 0 x.2) :
    Sums (pages.map fun x => ofPage filter x.1 x.2) (ofPage filter now page) := by
  have hconcat : concat (sorted filter 0 page) =
      concat (pages.map fun x => concat (sorted filter 0 x.2)) := by
    rw [h, concat_flatMap]
  obtain ⟨hevents, hchanges, hskipped, hfiltered⟩ := ofPage_says filter now page
  have hparts (x : Int × List Transaction) := ofPage_says filter x.1 x.2
  constructor
  · rw [hevents, hconcat, events_concat, List.flatMap_map, List.flatMap_map]
    simp only [(hparts _).1]
  · rw [hchanges, hconcat, changes_concat, List.flatMap_map, List.flatMap_map]
    simp only [(hparts _).2.1]
  · rw [hskipped, hconcat, skipped_concat, List.map_map, List.map_map]
    simp only [Function.comp_def, (hparts _).2.2.1]
  · rw [hfiltered, hconcat, filtered_concat, List.map_map, List.map_map]
    simp only [Function.comp_def, (hparts _).2.2.2]

theorem sorted_append (p q : List Transaction) :
    sorted filter now (p ++ q) = sorted filter now p ++ sorted filter now q :=
  List.flatMap_append

/-- A page that is cut at one of its events says what is said up to the event, by it, and after it. -/
theorem sorted_cut (before : List Transaction) (t : Transaction) (es : List RawEvent) (e : RawEvent)
    (es' : List RawEvent) (after : List Transaction) :
    sorted filter now (before ++ { t with events := es ++ e :: es' } :: after) =
      sorted filter now (before ++ [{ t with events := es }]) ++
        (sorted filter now [{ t with events := [e] }] ++
          sorted filter now ({ t with events := es' } :: after)) := by
  have hnil : sorted filter now [] = [] := rfl
  simp only [sorted_append, sorted_cons, hnil, List.map_append, List.map_cons, List.map_nil,
    List.append_assoc, List.cons_append, List.nil_append]
  rfl

/-- **Sorting a page is a homomorphism.**  Two pages one after the other come to the records, entries
and changes of the first followed by those of the second, and leave out as many events as the two do;
the cursor is that of the second unless it is empty.  This goes down to single events: whatever stands
before and after an event, in its transaction and in others, a page comes to what it would come to up
to the event, to what the event says by itself, and to what comes after it.  And a pass that goes on
from the first page through the second comes to the batch of both. -/
theorem ofPage_homomorphism (filter : TypeFilter) (now now₁ now₂ now₃ : Int) :
    (∀ p q : List Transaction,
      Sums [ofPage filter now₁ p, ofPage filter now₂ q] (ofPage filter now (p ++ q)) ∧
      (ofPage filter now (p ++ q)).calls.map (·.atTime 0) =
        (ofPage filter now₁ p).calls.map (·.atTime 0) ++
          (ofPage filter now₂ q).calls.map (·.atTime 0) ∧
      (ofPage filter now (p ++ q)).cursor =
        if q.isEmpty then (ofPage filter now₁ p).cursor else (ofPage filter now₂ q).cursor) ∧
    (∀ (before : List Transaction) (t : Transaction) (es : List RawEvent) (e : RawEvent)
        (es' : List RawEvent) (after : List Transaction),
      Sums
        [ofPage filter now₁ (before ++ [{ t with events := es }]),
          ofPage filter now₂ [{ t with events := [e] }],
          ofPage filter now₃ ({ t with events := es' } :: after)]
        (ofPage filter now (before ++ { t with events := es ++ e :: es' } :: after))) ∧
    ∀ p q : List Transaction,
      q.foldl (takeTransaction filter now) (ofPage filter now p) = ofPage filter now (p ++ q) := by
  refine ⟨fun p q => ⟨?_, ?_, ?_⟩, fun before t es e es' after => ?_, fun p q => ?_⟩
  · refine sums_of_sorted [(now₁, p), (now₂, q)] ?_
    rw [sorted_append, List.flatMap_cons, List.flatMap_singleton]
  · rw [calls_ofPage_atTime, calls_ofPage_atTime, calls_ofPage_atTime, calls_ofPage_append]
  · rw [ofPage_eq, ofPage_eq, ofPage_eq, List.getLast?_append]
    cases q with
    | nil => rfl
    | cons t q =>
      rw [List.getLast?_cons]
      rfl
  · refine sums_of_sorted [(now₁, before ++ [{ t with events := es }]),
      (now₂, [{ t with events := [e] }]), (now₃, { t with events := es' } :: after)] ?_
    rw [sorted_cut, List.flatMap_cons, List.flatMap_cons, List.flatMap_singleton]
  · rw [foldl_takeTransaction, ofPage_append]

end Batch

end LedgerIndex
