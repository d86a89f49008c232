import LedgerIndex.Sync.Machine
import Mathlib.Tactic.Common

/-!
# What a round can do

Most of what a machine does in a round is telling: it publishes, reports, samples the progress and
hands messages out.  None of that touches the part of the machine that decides what it stores, its
`Core`.  A round acts on the core and on the world in one of five ways, and `Machine.round` says
that there is no other.
-/

namespace LedgerIndex.Sync

variable {ν σ : Type}

/-! ## The core -/

/-- The part of a machine that decides what it stores. -/
structure Core (σ : Type) where
  config : Config
  cursor : Option Cursor
  isLoaded : Bool
  store : σ

/-- The core of a machine. -/
def Machine.core (m : Machine ν σ) : Core σ :=
  ⟨m.loop.config, m.loop.cursor, m.loop.isLoaded, m.store⟩

/-- The cursor at the end of some transactions. -/
def endOf (page : List Transaction) : Option Cursor :=
  page.getLast?.map fun t => ⟨t.digest, t.checkpoint⟩

namespace Config

/-- The transactions of a page that are taken in. -/
def kept (config : Config) (page : List Transaction) : List Transaction :=
  page.filter fun t => config.takes t.checkpoint

/-- The batch to store for a page. -/
def batchOf (config : Config) (stamp : Int) (page : List Transaction) : Batch :=
  { Batch.ofPage config.events stamp (config.kept page) with cursor := endOf page }

end Config

namespace Core

/-- The core of a new machine. -/
def new (config : Config) (store : σ) : Core σ := ⟨config, none, false, store⟩

/-- The core after the store was asked for the cursor, which is done once. -/
def ready [CommitStore σ] (c : Core σ) : Except Error Unit × Core σ :=
  if c.isLoaded then (.ok (), c)
  else
    match CommitStore.loadCursor c.config.id c.store with
    | (.error e, store) => (.error e, { c with store })
    | (.ok stored, store) =>
      (.ok (), { c with store, cursor := (stored.map (·.cursor)).or c.cursor, isLoaded := true })

/-- The question for the page after the cursor. -/
def fetch [Ledger ν] (c : Core σ) (w : ν) : Except Error (List Transaction) × ν :=
  Ledger.fetchPage ⟨c.config.tracked⟩ (c.cursor.map (·.digest)) c.config.pageSize w

/-- The attempt to store a page. -/
def commit [CommitStore σ] (c : Core σ) (stamp : Int) (page : List Transaction) :
    Except Error CommitSummary × σ :=
  CommitStore.commit stamp c.config.id (c.config.batchOf stamp page) c.store

/-- The core at the end of a page that was stored. -/
def advance (c : Core σ) (page : List Transaction) (store : σ) : Core σ :=
  { c with store, cursor := (endOf page).or c.cursor }

end Core

/-- The world was asked for the time or for the head of the ledger, and for nothing else. -/
inductive Aside [Ledger ν] [Clock ν] (w : ν) : ν → Prop
  | refl : Aside w w
  | now {w'} : Aside w w' → Aside w (Clock.now w').2
  | stamp {w'} : Aside w w' → Aside w (Clock.stamp w').2
  | head {w'} : Aside w w' → Aside w (Ledger.headCheckpoint w').2

/-- What a round can do to the core and to the world. -/
inductive Round [Ledger ν] [Clock ν] [CommitStore σ] (c : Core σ) (w : ν) :
    Except Error Outcome → Core σ → ν → Prop
  /-- the store does not tell the cursor -/
  | refused {e c'} : c.ready = (.error e, c') → Round c w (.error e) c' w
  /-- the ledger gives no page -/
  | failed {c' e w' w''} : c.ready = (.ok (), c') → c'.fetch w = (.error e, w') → Aside w' w'' →
      Round c w (.ok .fetchFailed) c' w''
  /-- the ledger has nothing more -/
  | empty {c' w' w''} : c.ready = (.ok (), c') → c'.fetch w = (.ok [], w') → Aside w' w'' →
      Round c w (.ok .empty) c' w''
  /-- the store does not take the page in -/
  | rejected {c' page w' w'' stamp e store} : c.ready = (.ok (), c') →
      c'.fetch w = (.ok page, w') → page ≠ [] → c'.commit stamp page = (.error e, store) →
      Aside w' w'' → Round c w (.error e) { c' with store } w''
  /-- the page is stored -/
  | stored {c' page w' w'' stamp summary store regression} : c.ready = (.ok (), c') →
      c'.fetch w = (.ok page, w') → page ≠ [] → c'.commit stamp page = (.ok summary, store) →
      Aside w' w'' → Round c w (.ok (.committed summary regression)) (c'.advance page store) w''

namespace Machine

/-! ## Telling -/

@[simp] theorem core_enter (m : Machine ν σ) (state : State) : (m.enter state).core = m.core := rfl

@[simp] theorem outside_enter (m : Machine ν σ) (state : State) :
    (m.enter state).outside = m.outside := rfl

@[simp] theorem core_takeSample (m : Machine ν σ) (now : Nat) (head : UInt64) :
    (m.takeSample now head).core = m.core := by
  rw [takeSample]
  rcases m.loop.estimator.sample m.loop.checkpoint head now with ⟨_ | _, _⟩ <;> rfl

@[simp] theorem outside_takeSample (m : Machine ν σ) (now : Nat) (head : UInt64) :
    (m.takeSample now head).outside = m.outside := by
  rw [takeSample]
  rcases m.loop.estimator.sample m.loop.checkpoint head now with ⟨_ | _, _⟩ <;> rfl

@[simp] theorem core_fanOut (m : Machine ν σ) (b : Batch) : (m.fanOut b).core = m.core := by
  rw [fanOut]
  cases m.registry <;> rfl

@[simp] theorem outside_fanOut (m : Machine ν σ) (b : Batch) :
    (m.fanOut b).outside = m.outside := by
  rw [fanOut]
  cases m.registry <;> rfl

@[simp] theorem core_noteRegression (m : Machine ν σ) (page : List Transaction) :
    (m.noteRegression page).core = m.core := by
  rw [noteRegression]
  split <;> rfl

@[simp] theorem outside_noteRegression (m : Machine ν σ) (page : List Transaction) :
    (m.noteRegression page).outside = m.outside := by
  rw [noteRegression]
  split <;> rfl

section Sampling

variable [Ledger ν] [Clock ν]

@[simp] theorem core_sampleProgress (m : Machine ν σ) : m.sampleProgress.core = m.core := by
  rw [sampleProgress]
  simp only
  split
  · split
    · rfl
    · exact core_takeSample ..
  · rfl

theorem aside_sampleProgress {m : Machine ν σ} {w : ν} (h : Aside w m.outside) :
    Aside w m.sampleProgress.outside := by
  rw [sampleProgress]
  simp only
  split
  · split
    · exact h.now.head
    · rw [outside_takeSample]
      exact h.now.head
  · exact h.now

@[simp] theorem core_rest (m : Machine ν σ) : m.rest.core = m.core := by
  rw [rest, core_enter, core_sampleProgress]
  rfl

theorem aside_rest {m : Machine ν σ} {w : ν} (h : Aside w m.outside) :
    Aside w m.rest.outside := by
  rw [rest, outside_enter]
  exact aside_sampleProgress h

theorem core_settle (m : Machine ν σ) (page : List Transaction) (b : Batch)
    (summary : CommitSummary) :
    (m.settle page b summary).core = { m.core with cursor := b.cursor.or m.core.cursor } := by
  rw [settle, core_enter, core_fanOut, core_enter]
  exact core_sampleProgress _

theorem aside_settle {m : Machine ν σ} {w : ν} (h : Aside w m.outside) (page : List Transaction)
    (b : Batch) (summary : CommitSummary) : Aside w (m.settle page b summary).outside := by
  rw [settle, outside_enter, outside_fanOut, outside_enter]
  exact aside_sampleProgress h

end Sampling

@[simp] theorem core_giveUp (m : Machine ν σ) (e : Error) : (m.giveUp e).core = m.core := rfl

@[simp] theorem outside_giveUp (m : Machine ν σ) (e : Error) :
    (m.giveUp e).outside = m.outside := rfl

/-! ## The phases -/

theorem core_ready [CommitStore σ] (m : Machine ν σ) :
    m.core.ready = (m.ready.1, m.ready.2.core) ∧ m.ready.2.outside = m.outside := by
  by_cases h : m.loop.isLoaded
  · rw [ready, if_pos h, Core.ready, if_pos (show m.core.isLoaded from h)]
    exact ⟨rfl, rfl⟩
  · rw [ready, if_neg h, Core.ready, if_neg (show ¬ m.core.isLoaded from h), loadCursor]
    simp only [core]
    rcases CommitStore.loadCursor m.loop.config.id m.store with ⟨_ | _, _⟩ <;> exact ⟨rfl, rfl⟩

theorem core_fetch [Ledger ν] (m : Machine ν σ) :
    m.core.fetch m.outside = (m.fetch.1, m.fetch.2.outside) ∧ m.fetch.2.core = m.core :=
  ⟨rfl, rfl⟩

variable [Ledger ν] [Clock ν] [CommitStore σ]

omit [Ledger ν] [Clock ν] in
theorem core_commit (m : Machine ν σ) (stamp : Int) (page : List Transaction) :
    m.core.commit stamp page = ((m.commit stamp (m.loop.batchOf stamp page)).1,
        (m.commit stamp (m.loop.batchOf stamp page)).2.store) ∧
      (m.commit stamp (m.loop.batchOf stamp page)).2.core =
        { m.core with store := (m.core.commit stamp page).2 } ∧
      (m.commit stamp (m.loop.batchOf stamp page)).2.outside = m.outside :=
  ⟨rfl, rfl, rfl⟩

/-- Storing a page either fails and leaves the cursor, or moves it to the end of the page. -/
theorem takeIn_cases (m : Machine ν σ) (page : List Transaction) {w : ν} (h : Aside w m.outside) :
    ∃ stamp, Aside w (m.takeIn page).2.outside ∧
      ((∃ e store, m.core.commit stamp page = (.error e, store) ∧
        (m.takeIn page).1 = .error e ∧ (m.takeIn page).2.core = { m.core with store }) ∨
      ∃ summary store regression, m.core.commit stamp page = (.ok summary, store) ∧
        (m.takeIn page).1 = .ok (.committed summary regression) ∧
        (m.takeIn page).2.core = m.core.advance page store) := by
  rw [takeIn]
  simp only
  generalize (m.loop.regression? page).isSome = regression
  have hcore₁ : ((m.noteRegression page).enter .reconciling).core = m.core := by simp
  have hout₁ : ((m.noteRegression page).enter .reconciling).outside = m.outside := by simp
  generalize (m.noteRegression page).enter .reconciling = m₁ at hcore₁ hout₁
  refine ⟨(Clock.stamp m₁.outside).1, ?_⟩
  generalize (Clock.stamp m₁.outside).1 = stamp
  have hout₂ : Aside w (Clock.stamp m₁.outside).2 := by
    rw [hout₁]
    exact h.stamp
  generalize hm₂ : ({ m₁ with outside := (Clock.stamp m₁.outside).2 } : Machine ν σ) = m₂
  have hcore₂ : m₂.core = m.core := by rw [← hm₂, ← hcore₁]; rfl
  have hout₃ : Aside w m₂.outside := by rw [← hm₂]; exact hout₂
  obtain ⟨hres, hcore₃, hout₄⟩ := core_commit m₂ stamp page
  rw [show m₁.loop = m₂.loop by rw [← hm₂]]
  rcases hc : m₂.commit stamp (m₂.loop.batchOf stamp page) with ⟨e | summary, m₃⟩
  · rw [hc] at hres hcore₃ hout₄
    rw [hcore₂] at hres hcore₃
    refine ⟨by rw [outside_enter, hout₄]; exact hout₃,
      Or.inl ⟨e, m₃.store, hres, rfl, ?_⟩⟩
    rw [core_enter, hcore₃, hres]
  · rw [hc] at hres hcore₃ hout₄
    rw [hcore₂] at hres hcore₃
    refine ⟨aside_settle (by rw [hout₄]; exact hout₃) .., Or.inr ⟨summary, m₃.store, regression,
      hres, rfl, ?_⟩⟩
    rw [core_settle, hcore₃, hres]
    rfl

/-- There is nothing else that a round can do. -/
theorem round (m : Machine ν σ) :
    Round m.core m.outside m.step.1 m.step.2.core m.step.2.outside := by
  obtain ⟨hready, hout⟩ := core_ready m
  rw [step]
  rcases hr : m.ready with ⟨e | ⟨⟩, m₁⟩
  · rw [hr] at hready hout
    simp only at hready hout ⊢
    rw [hout]
    exact .refused hready
  · rw [hr] at hready hout
    obtain ⟨hfetch, hcore⟩ := core_fetch (m₁.enter .fetching)
    simp only [core_enter, outside_enter] at hready hout hfetch hcore ⊢
    rw [hout] at hfetch
    rcases hf : (m₁.enter .fetching).fetch with ⟨e | page, m₂⟩
    · rw [hf] at hfetch hcore
      simp only at hfetch hcore ⊢
      rw [core_giveUp, outside_giveUp, hcore]
      exact .failed hready hfetch .refl
    · rw [hf] at hfetch hcore
      simp only at hfetch hcore ⊢
      set m₃ : Machine ν σ := { m₂ with loop.status.failuresInRow := 0 } with hm₃
      have hcore₃ : m₃.core = m₁.core := hcore
      have hout₃ : Aside m₂.outside m₃.outside := .refl
      cases page with
      | nil =>
        rw [List.isEmpty_nil, if_pos rfl, core_rest, hcore₃]
        exact .empty hready hfetch (aside_rest hout₃)
      | cons t page =>
        rw [List.isEmpty_cons, if_neg Bool.false_ne_true]
        obtain ⟨stamp, haside, ⟨e, store, hc, h1, h2⟩ | ⟨summary, store, regression, hc, h1, h2⟩⟩ :=
          takeIn_cases m₃ (t :: page) hout₃
        · rw [h1, h2, hcore₃]
          rw [hcore₃] at hc
          exact .rejected hready hfetch (by simp) hc haside
        · rw [h1, h2, hcore₃]
          rw [hcore₃] at hc
          exact .stored hready hfetch (by simp) hc haside

end Machine

end LedgerIndex.Sync
