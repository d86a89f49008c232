import LedgerIndex.Proofs.Sync.Dealings

/-!
# What a store has taken in

Whether a store has taken a batch in is for the store to say, and not for the machine that gave it
the batch: a machine might well store a page and report that there was none.  So the store is
watched.  An audited store is a store that notes each batch when it answers the commit with success
(`Audited`), and what it has noted after a round is what was taken in (`Machine.taken`), whatever the
machine reports.  The audit disturbs nothing: the round ends as it does without it, with the same
core and the same dealings (`Machine.step_audit`).
-/

namespace LedgerIndex

/-! ## Audited stores -/

/-- A store, with the batches that it has taken in while it was watched. -/
structure Audited (σ : Type) where
  store : σ
  taken : List Batch

namespace Audited

variable {σ : Type} [CommitStore σ]

/-- Loads a cursor, which is nothing to note. -/
def loadCursor (indexer : String) (s : Audited σ) :
    Except Error (Option StoredCursor) × Audited σ :=
  let (found, store) := CommitStore.loadCursor indexer s.store
  (found, { s with store })

/-- Takes in a batch, and notes it if that has worked. -/
def commit (now : Int) (indexer : String) (b : Batch) (s : Audited σ) :
    Except Error CommitSummary × Audited σ :=
  match CommitStore.commit now indexer b s.store with
  | (.error e, store) => (.error e, { s with store })
  | (.ok summary, store) => (.ok summary, ⟨store, s.taken ++ [b]⟩)

instance : CommitStore (Audited σ) := ⟨loadCursor, commit⟩

end Audited

namespace Sync

variable {ν σ : Type}

/-! ## Deeds on audited stores -/

namespace Core

/-- A core whose store is watched, and has taken in some batches. -/
def audit (c : Core σ) (taken : List Batch) : Core (Audited σ) :=
  ⟨c.config, c.cursor, c.isLoaded, ⟨c.store, taken⟩⟩

end Core

/-- A deed on a store that is watched, with what was taken in before. -/
def Deed.audit (d : Deed σ) (taken : List Batch) : Deed (Audited σ) :=
  ⟨d.outcome, d.core.audit (taken ++ d.stored?.toList), d.asked, d.page, d.offered, d.verdict⟩

/-- Where nothing is taken in, nothing is noted. -/
theorem Deed.eq_audit {d : Deed σ} {audited : Deed (Audited σ)} {taken : List Batch}
    (h : d.stored? = none)
    (heq : audited = ⟨d.outcome, d.core.audit taken, d.asked, d.page, d.offered, d.verdict⟩) :
    audited = d.audit taken := by
  rw [heq, audit, h, Option.toList_none, List.append_nil]

namespace Core

variable [CommitStore σ] (c : Core σ) (taken : List Batch)

theorem ready_audit : (c.audit taken).ready = (c.ready.1, c.ready.2.audit taken) := by
  have hload : CommitStore.loadCursor c.config.id (c.audit taken).store =
      ((CommitStore.loadCursor c.config.id c.store).1,
        ⟨(CommitStore.loadCursor c.config.id c.store).2, taken⟩) := rfl
  rw [ready, ready, show (c.audit taken).isLoaded = c.isLoaded from rfl,
    show (c.audit taken).config = c.config from rfl, hload]
  split
  · rfl
  · rcases CommitStore.loadCursor c.config.id c.store with ⟨_ | _, _⟩ <;> rfl

/-- A batch is noted exactly if the store has taken it in. -/
theorem attempt_audit (stamp : Int) (page : List Transaction) :
    (c.audit taken).attempt stamp page = (c.attempt stamp page).audit taken := by
  have hcommit : (c.audit taken).commit stamp page =
      match c.commit stamp page with
      | (.error e, store) => (.error e, ⟨store, taken⟩)
      | (.ok summary, store) =>
        (.ok summary, ⟨store, taken ++ [c.config.batchOf stamp page]⟩) := rfl
  rw [attempt, attempt, hcommit]
  rcases c.commit stamp page with ⟨e | summary, store⟩
  · exact Deed.eq_audit rfl rfl
  · rfl

theorem react_audit (stamp : Int) (answer : Except Error (List Transaction)) :
    (c.audit taken).react stamp answer = (c.react stamp answer).audit taken := by
  rcases answer with e | _ | ⟨t, page⟩
  · exact Deed.eq_audit rfl rfl
  · exact Deed.eq_audit rfl rfl
  · exact c.attempt_audit taken stamp (t :: page)

theorem deed_audit [Ledger ν] [Clock ν] (w : ν) :
    (c.audit taken).deed w = (c.deed w).audit taken := by
  rw [deed, deed, ready_audit]
  rcases c.ready with ⟨e | ⟨⟩, c'⟩
  · exact Deed.eq_audit rfl rfl
  · exact c'.react_audit taken _ _

end Core

/-! ## Rounds on audited stores -/

namespace Machine

/-- A machine whose store is watched, and has taken in some batches. -/
def audit (m : Machine ν σ) (taken : List Batch) : Machine ν (Audited σ) :=
  ⟨m.loop, m.outside, ⟨m.store, taken⟩, m.registry, m.log⟩

variable [Ledger ν] [Clock ν] [CommitStore σ]

/-- The batches that the store takes in in the next round, by its own account. -/
def taken (m : Machine ν σ) : List Batch := (m.audit []).step.2.store.taken

/-- What a round stores is the batch of its deed, if the store has taken that in. -/
theorem taken_eq (m : Machine ν σ) : m.taken = (m.core.deed m.outside).stored?.toList := by
  have hcore : (m.audit []).step.2.core = ((m.core.audit []).deed m.outside).core :=
    (deed_step (m.audit [])).core
  rw [Core.deed_audit] at hcore
  exact congrArg (·.store.taken) hcore

/-- **The audit disturbs nothing.**  A round on a store that is watched ends as it does otherwise,
with the same core and the same dealings, and what the store has taken in is noted. -/
theorem step_audit (m : Machine ν σ) (noted : List Batch) :
    (m.audit noted).step.1 = m.step.1 ∧
      (m.audit noted).step.2.core = m.step.2.core.audit (noted ++ m.taken) ∧
      (m.audit noted).step.2.trade = m.step.2.trade := by
  have hdeed : (m.audit noted).core.deed m.outside = (m.core.deed m.outside).audit noted :=
    m.core.deed_audit noted m.outside
  obtain ⟨houtcome, hcore, htrade⟩ := deed_step m
  obtain ⟨houtcome', hcore', htrade'⟩ := deed_step (m.audit noted)
  rw [show (m.audit noted).outside = m.outside from rfl, hdeed] at houtcome' hcore' htrade'
  refine ⟨houtcome'.trans houtcome.symm, ?_, htrade'.trans htrade.symm⟩
  rw [hcore', hcore, taken_eq]
  rfl

end Machine

end Sync

end LedgerIndex
