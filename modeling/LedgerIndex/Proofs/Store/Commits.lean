import LedgerIndex.Store.Memory
import LedgerIndex.Store.Unreliable
import Mathlib.Tactic.Common

/-!
# What a commit adds

A commit adds the records and entries of its batch to the logs, and moves the cursor of its indexer
if the batch has one; the plan of the batch touches neither.  `Keeps` says of any store that it does
with a batch what a store in memory does, or nothing.
-/

namespace LedgerIndex

namespace Memory

/-! ## Plans leave the logs and the cursors alone -/

/-- The logs and the cursors of two stores are the same. -/
structure SameLogs (m m' : Memory) : Prop where
  calls : m'.calls = m.calls
  events : m'.events = m.events
  cursors : m'.cursors = m.cursors

theorem SameLogs.refl (m : Memory) : SameLogs m m := ⟨rfl, rfl, rfl⟩

theorem SameLogs.trans {m m' m'' : Memory} (h : SameLogs m m') (h' : SameLogs m' m'') :
    SameLogs m m'' :=
  ⟨h'.calls.trans h.calls, h'.events.trans h.events, h'.cursors.trans h.cursors⟩

theorem sameLogs_applySet (m : Memory) (c : Change) : SameLogs m (m.applySet c) := by
  rw [applySet]
  split <;> exact ⟨rfl, rfl, rfl⟩

theorem sameLogs_applyRemove (m : Memory) (c : Change) : SameLogs m (m.applyRemove c) :=
  ⟨rfl, rfl, rfl⟩

theorem sameLogs_foldl {f : Memory → Change → Memory} (hf : ∀ m c, SameLogs m (f m c))
    (m : Memory) (changes : List Change) : SameLogs m (changes.foldl f m) := by
  induction changes generalizing m with
  | nil => exact .refl m
  | cons c changes ih => exact (hf m c).trans (ih (f m c))

theorem sameLogs_applyPlan (m : Memory) (p : Plan) : SameLogs m (m.applyPlan p) :=
  (sameLogs_foldl sameLogs_applySet m p.sets).trans
    (sameLogs_foldl sameLogs_applyRemove _ p.removes)

/-! ## Commits -/

theorem calls_commit (m : Memory) (now : Int) (indexer : String) (b : Batch) :
    (m.commit now indexer b).2.calls = m.calls ++ b.calls := by
  rw [commit]
  cases b.cursor <;> exact (sameLogs_applyPlan _ _).calls

theorem events_commit (m : Memory) (now : Int) (indexer : String) (b : Batch) :
    (m.commit now indexer b).2.events = m.events ++ b.events := by
  rw [commit]
  cases b.cursor <;> exact (sameLogs_applyPlan _ _).events

theorem cursor?_saveCursor (m : Memory) (now : Int) (indexer : String) (c : Cursor) :
    (m.saveCursor now indexer c).cursor? indexer = some ⟨indexer, c, now⟩ := by
  simp [saveCursor, cursor?]

theorem cursor?_commit {m : Memory} {now : Int} {indexer : String} {b : Batch} {c : Cursor}
    (hc : b.cursor = some c) :
    (m.commit now indexer b).2.cursor? indexer = some ⟨indexer, c, now⟩ := by
  rw [commit]
  simp only [hc]
  exact cursor?_saveCursor ..

end Memory

/-! ## Stores that keep to what a store in memory does -/

/-- A store that can be seen as one in memory.  Asked for a cursor it answers truthfully or fails;
given a batch it takes it in or fails.  A failure changes nothing. -/
structure Keeps (σ : Type) [CommitStore σ] (view : σ → Memory) : Prop where
  loaded {indexer s found s'} : CommitStore.loadCursor indexer s = (.ok found, s') →
    found = (view s).cursor? indexer ∧ view s' = view s
  refused {indexer s e s'} : CommitStore.loadCursor indexer s = (.error e, s') → view s' = view s
  stored {now indexer b s summary s'} : CommitStore.commit now indexer b s = (.ok summary, s') →
    ((view s).commit now indexer b) = (summary, view s')
  rejected {now indexer b s e s'} : CommitStore.commit now indexer b s = (.error e, s') →
    view s' = view s

/-- A store in memory never fails. -/
theorem keeps_memory : Keeps Memory id where
  loaded h := by cases h; exact ⟨rfl, rfl⟩
  refused h := by cases h
  stored h := by cases h; rfl
  rejected h := by cases h

namespace Unreliable

variable {σ : Type} [CommitStore σ]

theorem loadCursor_cases (indexer : String) (u : Unreliable σ) :
    (∃ e, CommitStore.loadCursor indexer u = (.error e, u)) ∨
      CommitStore.loadCursor indexer u = ((CommitStore.loadCursor indexer u.store).1,
        { u with store := (CommitStore.loadCursor indexer u.store).2 }) := by
  change (∃ e, u.loadCursor indexer = _) ∨ u.loadCursor indexer = _
  rw [loadCursor]
  split
  · exact Or.inl ⟨_, rfl⟩
  · exact Or.inr rfl

theorem commit_cases (now : Int) (indexer : String) (b : Batch) (u : Unreliable σ) :
    (∃ e, CommitStore.commit now indexer b u = (.error e, { u with commits := u.commits + 1 })) ∨
      CommitStore.commit now indexer b u = ((CommitStore.commit now indexer b u.store).1,
        { u with
          commits := u.commits + 1
          store := (CommitStore.commit now indexer b u.store).2 }) := by
  change (∃ e, u.commit now indexer b = _) ∨ u.commit now indexer b = _
  rw [commit]
  simp only
  split
  · exact Or.inl ⟨_, rfl⟩
  · exact Or.inr rfl

/-- A store that fails on cue keeps to what the store behind it does. -/
theorem keeps {view : σ → Memory} (h : Keeps σ view) :
    Keeps (Unreliable σ) (fun u => view u.store) where
  loaded {indexer u found u'} hu := by
    rcases loadCursor_cases indexer u with ⟨e, he⟩ | hl
    · rw [he] at hu; cases hu
    · rw [hl, Prod.mk.injEq] at hu
      rw [← hu.2]
      exact h.loaded (Prod.ext hu.1 rfl)
  refused {indexer u e u'} hu := by
    rcases loadCursor_cases indexer u with ⟨e, he⟩ | hl
    · rw [he] at hu; cases hu; rfl
    · rw [hl, Prod.mk.injEq] at hu
      rw [← hu.2]
      exact h.refused (Prod.ext hu.1 rfl)
  stored {now indexer b u summary u'} hu := by
    rcases commit_cases now indexer b u with ⟨e, he⟩ | hc
    · rw [he] at hu; cases hu
    · rw [hc, Prod.mk.injEq] at hu
      rw [← hu.2]
      exact h.stored (Prod.ext hu.1 rfl)
  rejected {now indexer b u e u'} hu := by
    rcases commit_cases now indexer b u with ⟨e, he⟩ | hc
    · rw [he] at hu; cases hu; rfl
    · rw [hc, Prod.mk.injEq] at hu
      rw [← hu.2]
      exact h.rejected (Prod.ext hu.1 rfl)

end Unreliable

end LedgerIndex
