import LedgerIndex.Proofs.Sync.Telling

/-!
# What a round writes

A machine writes down all that can be seen of it.  What one round adds to the log, and the status
that it leaves, is one of five things, according to the answers that it gets (`Written`), and
`Machine.written_step` says that there is no other.  The log of a machine is what its rounds have
written, whatever else has happened to it (`Machine.log_live`).
-/

namespace LedgerIndex.Sync

variable {ν σ : Type}

/-! ## How the status changes -/

namespace Status

/-- The status when something else is done. -/
def turnedTo (s : Status) (state : State) : Status := { s with state }

/-- The status after a failure to fetch a page. -/
def failedOnce (s : Status) : Status :=
  { s with failuresInRow := s.failuresInRow + 1, failures := s.failures + 1 }

/-- The status after a page was fetched. -/
def fetched (s : Status) : Status := { s with failuresInRow := 0 }

/-- The status when the ledger has nothing more. -/
def atHead (s : Status) (progress : Option Progress) : Status :=
  { s with progress, isCaughtUp := true }

/-- The status after a page was stored. -/
def counted (s : Status) (config : Config) (page : List Transaction) (b : Batch)
    (progress : Option Progress) : Status :=
  { s with
    cursor := endOf page
    progress
    pages := s.pages + 1
    transactions := s.transactions + (config.kept page).length
    events := s.events + b.events.length
    changes := s.changes + b.changes.length
    skipped := s.skipped + b.skipped
    isCaughtUp := page.length < config.pageSize || progress.any (·.isCaughtUp) }

end Status

/-! ## What is written -/

namespace Loop

/-- Turning to the ledger, and asking it for a page. -/
def asking (l : Loop) : List Activity :=
  [.published (l.status.turnedTo .fetching), .fetched l.filter l.after l.config.pageSize]

/-- The report of a page that begins behind the cursor. -/
def behind (l : Loop) (page : List Transaction) : List Activity :=
  match l.regression? page with
  | none => []
  | some (cursor, first) => [.noticed (.regression cursor first)]

end Loop

/-- Handing out the messages of a batch. -/
def handing (registry : Option Registry) (b : Batch) : List Activity :=
  match registry with
  | none => []
  | some r => [.handedOut b.messages, .noticed (.fannedOut (r.fanOut b).1)]

/-- Looking whether it is time for a progress sample, with the last report before and after. -/
inductive Sampled : Option Progress → List Activity → Option Progress → Prop
  /-- it is not time yet -/
  | early (last : Option Progress) : Sampled last [] last
  /-- the head is not told, or this is the base line -/
  | silent (last : Option Progress) : Sampled last [.askedHead] last
  | reported (last : Option Progress) (p : Progress) :
      Sampled last [.askedHead, .noticed (.progress p)] (some p)

/-- Telling someone, or looking at the head of the ledger. -/
def Activity.isAside : Activity → Bool
  | askedHead | noticed _ | handedOut _ => true
  | published _ | loadedCursor | fetched .. | committed _ => false

/-- The status that is published. -/
def Activity.snapshot? : Activity → Option Status
  | published s => some s
  | _ => none

/-- The statuses that were published, in order. -/
def snapshots (log : List Activity) : List Status := log.filterMap (·.snapshot?)

theorem mem_snapshots {log : List Activity} {s : Status} :
    s ∈ snapshots log ↔ .published s ∈ log := by
  rw [snapshots, List.mem_filterMap]
  constructor
  · rintro ⟨a, ha, hs⟩
    cases a <;> cases hs
    exact ha
  · exact fun h => ⟨_, h, rfl⟩

@[simp] theorem snapshots_append (log log' : List Activity) :
    snapshots (log ++ log') = snapshots log ++ snapshots log' := List.filterMap_append

theorem snapshots_of_aside {as : List Activity} (h : ∀ a ∈ as, a.isAside) : snapshots as = [] := by
  refine List.filterMap_eq_nil_iff.2 fun a ha => ?_
  have := h a ha
  cases a <;> first | rfl | cases this

theorem Loop.aside_behind (l : Loop) (page : List Transaction) :
    ∀ a ∈ l.behind page, a.isAside := by
  rw [behind]
  cases l.regression? page <;> simp [Activity.isAside]

theorem aside_handing (registry : Option Registry) (b : Batch) :
    ∀ a ∈ handing registry b, a.isAside := by
  unfold handing
  cases registry <;> simp [Activity.isAside]

theorem Sampled.aside {last last' : Option Progress} {sampled : List Activity}
    (h : Sampled last sampled last') : ∀ a ∈ sampled, a.isAside := by
  cases h <;> simp [Activity.isAside]

namespace Machine

/-- What is written until the cursor is there. -/
def loading [CommitStore σ] (m : Machine ν σ) : List Activity :=
  if m.loop.isLoaded then [] else [.loadedCursor, .published m.ready.2.loop.status]

end Machine

/-- How a round ends, what it writes, and the status that it leaves. -/
inductive Written [Ledger ν] [Clock ν] [CommitStore σ] (m : Machine ν σ) :
    Except Error Outcome → List Activity → Status → Prop
  /-- the store does not tell the cursor -/
  | refused {e : Error} : m.ready.1 = .error e → Written m (.error e) [.loadedCursor] m.loop.status
  /-- the ledger gives no page -/
  | failed {e : Error} : m.ready.1 = .ok () → m.answer = .error e →
      Written m (.ok .fetchFailed)
        (m.loading ++ m.ready.2.loop.asking ++
          [Activity.noticed (.fetchFailed e.message m.ready.2.loop.status.failedOnce.failuresInRow),
            .published (m.ready.2.loop.status.failedOnce.turnedTo .idle)])
        (m.ready.2.loop.status.failedOnce.turnedTo .idle)
  /-- the ledger has nothing more -/
  | empty {sampled : List Activity} {progress : Option Progress} : m.ready.1 = .ok () →
      m.answer = .ok [] → Sampled m.ready.2.loop.status.progress sampled progress →
      Written m (.ok .empty)
        (m.loading ++ m.ready.2.loop.asking ++ sampled ++
          [Activity.published ((m.ready.2.loop.status.fetched.atHead progress).turnedTo .idle)])
        ((m.ready.2.loop.status.fetched.atHead progress).turnedTo .idle)
  /-- the store does not take the page in -/
  | rejected {page : List Transaction} {stamp : Int} {e : Error} : m.ready.1 = .ok () →
      m.answer = .ok page → page ≠ [] → (m.core.ready.2.commit stamp page).1 = .error e →
      Written m (.error e)
        (m.loading ++ m.ready.2.loop.asking ++ m.ready.2.loop.behind page ++
          [Activity.published (m.ready.2.loop.status.fetched.turnedTo .reconciling),
            .committed (m.loop.config.batchOf stamp page),
            .published (m.ready.2.loop.status.fetched.turnedTo .idle)])
        (m.ready.2.loop.status.fetched.turnedTo .idle)
  /-- the page is stored -/
  | stored {page : List Transaction} {stamp : Int} {summary : CommitSummary} {regression : Bool}
      {sampled : List Activity} {progress : Option Progress} {s : Status} : m.ready.1 = .ok () →
      m.answer = .ok page → page ≠ [] → (m.core.ready.2.commit stamp page).1 = .ok summary →
      Sampled m.ready.2.loop.status.progress sampled progress →
      s = m.ready.2.loop.status.fetched.counted m.loop.config page
        (m.loop.config.batchOf stamp page) progress →
      Written m (.ok (.committed summary regression))
        (m.loading ++ m.ready.2.loop.asking ++ m.ready.2.loop.behind page ++
          [Activity.published (m.ready.2.loop.status.fetched.turnedTo .reconciling),
            .committed (m.loop.config.batchOf stamp page), .noticed (.committed summary)] ++
          sampled ++ [Activity.published (s.turnedTo .notifying)] ++
          handing m.registry (m.loop.config.batchOf stamp page) ++
          [Activity.published (s.turnedTo .idle)])
        (s.turnedTo .idle)

/-- Nothing but the machine itself writes to the store. -/
def Happening.sparesStore : Happening ν σ → Bool
  | store _ => false
  | round | outside _ | subscribers _ => true

namespace Machine

/-! ## The phases -/

@[simp] theorem log_enter (m : Machine ν σ) (state : State) :
    (m.enter state).log = m.log ++ [Activity.published (m.loop.status.turnedTo state)] := rfl

@[simp] theorem status_enter (m : Machine ν σ) (state : State) :
    (m.enter state).loop.status = m.loop.status.turnedTo state := rfl

@[simp] theorem registry_enter (m : Machine ν σ) (state : State) :
    (m.enter state).registry = m.registry := rfl

@[simp] theorem log_note (m : Machine ν σ) (n : Notice) :
    (m.note n).log = m.log ++ [Activity.noticed n] := rfl

@[simp] theorem loop_note (m : Machine ν σ) (n : Notice) : (m.note n).loop = m.loop := rfl

theorem log_noteRegression (m : Machine ν σ) (page : List Transaction) :
    (m.noteRegression page).log = m.log ++ m.loop.behind page ∧
      (m.noteRegression page).loop = m.loop := by
  rw [noteRegression, Loop.behind]
  cases m.loop.regression? page with
  | none => exact ⟨(List.append_nil _).symm, rfl⟩
  | some page => exact ⟨rfl, rfl⟩

theorem log_fanOut (m : Machine ν σ) (b : Batch) :
    (m.fanOut b).log = m.log ++ handing m.registry b ∧ (m.fanOut b).loop = m.loop := by
  unfold fanOut handing
  cases m.registry with
  | none => exact ⟨(List.append_nil _).symm, rfl⟩
  | some registry => exact ⟨by simp [record], rfl⟩

/-- Making ready loads the cursor, which is done once. -/
theorem log_ready [CommitStore σ] (m : Machine ν σ) :
    (m.ready.1 = .ok () → m.ready.2.log = m.log ++ m.loading) ∧
      ∀ e, m.ready.1 = .error e →
        m.ready.2.log = m.log ++ [Activity.loadedCursor] ∧ m.ready.2.loop = m.loop := by
  rw [loading]
  by_cases h : m.loop.isLoaded
  · rw [if_pos h, ready_of_isLoaded h]
    exact ⟨fun _ => (List.append_nil _).symm, fun e he => by cases he⟩
  · rw [if_neg h, ready, if_neg h, loadCursor]
    rcases CommitStore.loadCursor m.loop.config.id m.store with ⟨_ | _, _⟩
    · exact ⟨(fun h => by cases h), fun _ _ => ⟨rfl, rfl⟩⟩
    · exact ⟨fun _ => by simp [publish, record], fun e he => by cases he⟩

/-- Loading the cursor puts it into the status, and nothing else. -/
theorem status_ready [CommitStore σ] (m : Machine ν σ) :
    ∃ cursor, m.ready.2.loop.status = { m.loop.status with cursor } := by
  rw [ready]
  split
  · exact ⟨m.loop.status.cursor, rfl⟩
  · rw [loadCursor]
    rcases CommitStore.loadCursor m.loop.config.id m.store with ⟨_ | _, _⟩
    · exact ⟨m.loop.status.cursor, rfl⟩
    · exact ⟨_, rfl⟩

/-- A sample is reported, unless it is the base line. -/
theorem takeSample_cases (m : Machine ν σ) (now : Nat) (head : UInt64) :
    (m.takeSample now head).log = m.log ∧ (m.takeSample now head).loop.status = m.loop.status ∨
      ∃ p, (m.takeSample now head).log = m.log ++ [Activity.noticed (.progress p)] ∧
        (m.takeSample now head).loop.status = { m.loop.status with progress := some p } := by
  rw [takeSample]
  rcases m.loop.estimator.sample m.loop.checkpoint head now with ⟨_ | p, _⟩
  · exact .inl ⟨rfl, rfl⟩
  · exact .inr ⟨p, rfl, rfl⟩

/-- A failure is told with the number of failures in a row, and then the machine rests. -/
theorem log_giveUp (m : Machine ν σ) (e : Error) :
    (m.giveUp e).log = m.log ++
        [Activity.noticed (.fetchFailed e.message m.loop.status.failedOnce.failuresInRow),
          .published (m.loop.status.failedOnce.turnedTo .idle)] ∧
      (m.giveUp e).loop.status = m.loop.status.failedOnce.turnedTo .idle := by
  refine ⟨?_, rfl⟩
  rw [giveUp, log_enter, log_note, loop_note, List.append_assoc]
  rfl

section Rounds

variable [Ledger ν] [Clock ν]

/-- A sample is written to the log and shown in the status. -/
theorem sampled_sampleProgress (m : Machine ν σ) :
    ∃ sampled progress, Sampled m.loop.status.progress sampled progress ∧
      m.sampleProgress.log = m.log ++ sampled ∧
      m.sampleProgress.loop.status = { m.loop.status with progress } := by
  rw [sampleProgress]
  dsimp only
  split
  · split
    · exact ⟨_, _, .silent _, rfl, rfl⟩
    · rename_i head _
      obtain ⟨hlog, hstatus⟩ | ⟨p, hlog, hstatus⟩ := takeSample_cases
        ({ m.record .askedHead with
          outside := (Ledger.headCheckpoint (Clock.now m.outside).2).2 } : Machine ν σ)
        (Clock.now m.outside).1 head
      · exact ⟨_, _, .silent _, hlog, hstatus⟩
      · exact ⟨_, _, .reported _ p, hlog.trans (List.append_assoc ..), hstatus⟩
  · exact ⟨_, _, .early _, (List.append_nil _).symm, rfl⟩

theorem log_rest (m : Machine ν σ) :
    ∃ sampled progress, Sampled m.loop.status.progress sampled progress ∧
      m.rest.log = m.log ++ sampled ++
        [Activity.published ((m.loop.status.atHead progress).turnedTo .idle)] ∧
      m.rest.loop.status = (m.loop.status.atHead progress).turnedTo .idle := by
  obtain ⟨sampled, progress, hsampled, hlog, hstatus⟩ :=
    sampled_sampleProgress { m with loop.status.isCaughtUp := true }
  refine ⟨sampled, progress, hsampled, ?_, ?_⟩
  · rw [rest, log_enter, hlog, hstatus]
    rfl
  · rw [rest, status_enter, hstatus]
    rfl

/-- What counting a stored page does to the status. -/
theorem status_account (l : Loop) {page : List Transaction} (hpage : page ≠ []) (stamp : Int)
    (progress : Option Progress) :
    ({ (l.account page (l.config.batchOf stamp page)).status with
        progress
        isCaughtUp := page.length < l.config.pageSize || progress.any (·.isCaughtUp) } : Status) =
      l.status.counted l.config page (l.config.batchOf stamp page) progress := by
  obtain ⟨c, hc⟩ := Option.isSome_iff_exists.1 (endOf_isSome hpage)
  have hcursor : (l.config.batchOf stamp page).cursor.or l.cursor = endOf page := by
    rw [Config.batchOf, hc, Option.some_or]
  rw [Loop.account, hcursor]
  rfl

/-- A page that was stored is counted before anyone is told. -/
theorem log_settle (m : Machine ν σ) {page : List Transaction} (hpage : page ≠ []) (stamp : Int)
    (summary : CommitSummary) :
    ∃ sampled progress s, Sampled m.loop.status.progress sampled progress ∧
      s = m.loop.status.counted m.loop.config page (m.loop.config.batchOf stamp page) progress ∧
      (m.settle page (m.loop.config.batchOf stamp page) summary).log =
        m.log ++ [Activity.noticed (.committed summary)] ++ sampled ++
          [Activity.published (s.turnedTo .notifying)] ++
          handing m.registry (m.loop.config.batchOf stamp page) ++
          [Activity.published (s.turnedTo .idle)] ∧
      (m.settle page (m.loop.config.batchOf stamp page) summary).loop.status =
        s.turnedTo .idle := by
  set b := m.loop.config.batchOf stamp page with hb
  set m₁ : Machine ν σ := note { m with loop := m.loop.account page b } (.committed summary)
    with hm₁
  obtain ⟨sampled, progress, hsampled, hlog, hstatus⟩ := sampled_sampleProgress m₁
  have hregistry : m₁.sampleProgress.registry = m.registry :=
    congrArg Trade.registry (trade_sampleProgress m₁)
  have hcaughtUp : m₁.sampleProgress.loop.hasReachedHead page =
      (page.length < m.loop.config.pageSize || progress.any (·.isCaughtUp)) := by
    have hconfig : m₁.sampleProgress.loop.config = m.loop.config :=
      congrArg Core.config (core_sampleProgress m₁)
    rw [Loop.hasReachedHead, hconfig, hstatus]
    cases progress <;> rfl
  have hcounted : ({ m₁.sampleProgress.loop.status with
      isCaughtUp := m₁.sampleProgress.loop.hasReachedHead page } : Status) =
      m.loop.status.counted m.loop.config page b progress := by
    rw [hcaughtUp, hstatus]
    exact status_account m.loop hpage stamp progress
  refine ⟨sampled, progress, _, hsampled, rfl, ?_, ?_⟩
  · rw [settle, log_enter, (log_fanOut _ b).1, (log_fanOut _ b).2, log_enter, status_enter, ← hm₁,
      registry_enter]
    dsimp only
    rw [hcounted, hlog, hregistry]
    rfl
  · rw [settle, status_enter, (log_fanOut _ b).2, status_enter, ← hm₁]
    dsimp only
    rw [hcounted]
    rfl

variable [CommitStore σ]

/-- What is written when a page is given to the store. -/
theorem log_takeIn (m : Machine ν σ) {page : List Transaction} (hpage : page ≠ []) :
    ∃ stamp,
      (∃ e, (m.core.commit stamp page).1 = .error e ∧ (m.takeIn page).1 = .error e ∧
        (m.takeIn page).2.log = m.log ++ m.loop.behind page ++
          [Activity.published (m.loop.status.turnedTo .reconciling),
            .committed (m.loop.config.batchOf stamp page),
            .published (m.loop.status.turnedTo .idle)] ∧
        (m.takeIn page).2.loop.status = m.loop.status.turnedTo .idle) ∨
      ∃ summary regression sampled progress s, (m.core.commit stamp page).1 = .ok summary ∧
        (m.takeIn page).1 = .ok (.committed summary regression) ∧
        Sampled m.loop.status.progress sampled progress ∧
        s = m.loop.status.counted m.loop.config page (m.loop.config.batchOf stamp page) progress ∧
        (m.takeIn page).2.log = m.log ++ m.loop.behind page ++
          [Activity.published (m.loop.status.turnedTo .reconciling),
            .committed (m.loop.config.batchOf stamp page), .noticed (.committed summary)] ++
          sampled ++ [Activity.published (s.turnedTo .notifying)] ++
          handing m.registry (m.loop.config.batchOf stamp page) ++
          [Activity.published (s.turnedTo .idle)] ∧
        (m.takeIn page).2.loop.status = s.turnedTo .idle := by
  obtain ⟨hlog, hloop⟩ := log_noteRegression m page
  have hregistry : (m.noteRegression page).registry = m.registry :=
    congrArg Trade.registry (trade_noteRegression m page)
  rw [takeIn]
  dsimp only
  generalize (m.loop.regression? page).isSome = regression
  set m₁ : Machine ν σ := (m.noteRegression page).enter .reconciling with hm₁
  have hcore₁ : m₁.core = m.core := by simp [hm₁]
  have hlog₁ : m₁.log = m.log ++ m.loop.behind page ++
      [Activity.published (m.loop.status.turnedTo .reconciling)] := by
    rw [hm₁, log_enter, hlog, hloop]
  have hstatus₁ : m₁.loop.status = m.loop.status.turnedTo .reconciling := by
    rw [hm₁, status_enter, hloop]
  have hregistry₁ : m₁.registry = m.registry := hregistry
  clear_value m₁
  generalize (Clock.stamp m₁.outside).1 = stamp
  generalize hm₂ : ({ m₁ with outside := (Clock.stamp m₁.outside).2 } : Machine ν σ) = m₂
  have hloop₂ : m₂.loop = m₁.loop := by rw [← hm₂]
  have hcore₂ : m₂.core = m.core := by rw [← hm₂, ← hcore₁]; rfl
  have hlog₂ : m₂.log = m₁.log := by rw [← hm₂]
  have hregistry₂ : m₂.registry = m₁.registry := by rw [← hm₂]
  have hconfig : m₂.loop.config = m.loop.config := congrArg Core.config hcore₂
  have hbatch : m₂.loop.batchOf stamp page = m.loop.config.batchOf stamp page := by
    rw [← hconfig]
    rfl
  obtain ⟨hcommit, -, -⟩ := core_commit m₂ stamp page
  refine ⟨stamp, ?_⟩
  rw [← hloop₂]
  rw [hbatch, hcore₂] at hcommit
  rw [hcommit, hbatch]
  -- the store has answered, and the batch is written down
  have hlog₃ : (m₂.commit stamp (m.loop.config.batchOf stamp page)).2.log =
      m.log ++ m.loop.behind page ++ [Activity.published (m.loop.status.turnedTo .reconciling)] ++
        [Activity.committed (m.loop.config.batchOf stamp page)] := by
    rw [← hlog₁, ← hlog₂]
    rfl
  have hloop₃ : (m₂.commit stamp (m.loop.config.batchOf stamp page)).2.loop = m₁.loop := hloop₂
  have hregistry₃ : (m₂.commit stamp (m.loop.config.batchOf stamp page)).2.registry = m.registry :=
    hregistry₂.trans hregistry₁
  generalize m₂.commit stamp (m.loop.config.batchOf stamp page) = answered
    at hlog₃ hloop₃ hregistry₃ ⊢
  rcases answered with ⟨e | summary, m₃⟩ <;> dsimp only at hlog₃ hloop₃ hregistry₃ ⊢
  · refine .inl ⟨e, rfl, rfl, ?_, ?_⟩
    · rw [log_enter, hlog₃, hloop₃, hstatus₁]
      simp [Status.turnedTo]
    · rw [status_enter, hloop₃, hstatus₁]
      rfl
  · have hconfig₃ : m₃.loop.config = m.loop.config :=
      (congrArg Loop.config hloop₃).trans ((congrArg Loop.config hloop₂).symm.trans hconfig)
    obtain ⟨sampled, progress, s, hsampled, hs, hlog₄, hstatus₄⟩ :=
      log_settle m₃ hpage stamp summary
    rw [hconfig₃, hloop₃, hstatus₁] at hs
    rw [hconfig₃] at hlog₄ hstatus₄
    rw [hloop₃, hstatus₁] at hsampled
    refine .inr ⟨summary, regression, sampled, progress, _, rfl, rfl, hsampled, rfl, ?_, ?_⟩
    · rw [hlog₄, hlog₃, hregistry₃, hs]
      simp [Status.turnedTo, Status.counted]
    · rw [hstatus₄, hs]
      rfl

/-! ## A round -/

/-- What a round adds to the log. -/
def written (m : Machine ν σ) : List Activity := m.step.2.log.drop m.log.length

/-- What comes of an answer of the ledger. -/
def heed (m : Machine ν σ) : Except Error (List Transaction) → Except Error Outcome × Machine ν σ
  | .error e => (.ok .fetchFailed, m.giveUp e)
  | .ok page =>
    let m := { m with loop.status.failuresInRow := 0 }
    if page.isEmpty then (.ok .empty, m.rest) else m.takeIn page

theorem step_of_refused {m : Machine ν σ} {e : Error} (h : m.ready.1 = .error e) :
    m.step = (.error e, m.ready.2) := by
  rw [step]
  rcases hr : m.ready with ⟨_ | ⟨⟩, m₁⟩ <;> rw [hr] at h <;> cases h
  rfl

theorem step_of_ready {m : Machine ν σ} (h : m.ready.1 = .ok ()) :
    m.step = (m.ready.2.enter .fetching).fetch.2.heed m.answer := by
  rw [step, answer]
  rcases hr : m.ready with ⟨_ | ⟨⟩, m₁⟩ <;> rw [hr] at h <;> cases h
  rcases hf : (m₁.enter .fetching).fetch with ⟨_ | _, _⟩ <;> simp only [hf] <;> rfl

/-- What is written once the cursor is there. -/
theorem written_of_ready {m : Machine ν σ} (hready : m.ready.1 = .ok ()) :
    ∃ w, m.step.2.log = m.log ++ w ∧ Written m m.step.1 w m.step.2.loop.status := by
  have hcore : m.core.ready.2 = m.ready.2.core := by rw [(core_ready m).1]
  have hconfig : m.ready.2.loop.config = m.loop.config := by
    have h := m.core.config_ready
    rwa [hcore] at h
  have hregistry : m.ready.2.registry = m.registry := congrArg Trade.registry (trade_ready m)
  have hlog := m.log_ready.1 hready
  -- the ledger has been asked, and nothing else has changed
  set m₂ : Machine ν σ := (m.ready.2.enter .fetching).fetch.2 with hm₂
  have hcore₂ : m₂.core = m.ready.2.core := rfl
  have hloop₂ : m₂.loop =
      { m.ready.2.loop with status := m.ready.2.loop.status.turnedTo .fetching } := rfl
  have hregistry₂ : m₂.registry = m.registry := hregistry
  have hlog₂ : m₂.log = m.log ++ m.loading ++ m.ready.2.loop.asking := by
    rw [← hlog]
    exact List.append_assoc ..
  clear_value m₂
  rw [step_of_ready hready, ← hm₂]
  cases hanswer : m.answer with
  | error e =>
    obtain ⟨hlog, hstatus⟩ := m₂.log_giveUp e
    rw [hloop₂] at hlog hstatus
    rw [heed, hstatus]
    refine ⟨_, ?_, .failed hready hanswer⟩
    rw [hlog, hlog₂]
    simp [Status.turnedTo, Status.failedOnce]
  | ok page =>
    rw [heed]
    dsimp only
    set m₃ : Machine ν σ := { m₂ with loop.status.failuresInRow := 0 } with hm₃
    have hcore₃ : m₃.core = m.core.ready.2 := hcore₂.trans hcore.symm
    have hstatus₃ : m₃.loop.status = m.ready.2.loop.status.fetched.turnedTo .fetching := by
      rw [hm₃, hloop₂]
      rfl
    have hbehind₃ : m₃.loop.behind page = m.ready.2.loop.behind page := by
      rw [hm₃, hloop₂]
      rfl
    have hlog₃ : m₃.log = m.log ++ m.loading ++ m.ready.2.loop.asking := hlog₂
    have hconfig₃ : m₃.loop.config = m.loop.config := by
      rw [hm₃, hloop₂]
      exact hconfig
    have hregistry₃ : m₃.registry = m.registry := hregistry₂
    clear_value m₃
    cases page with
    | nil =>
      rw [List.isEmpty_nil, if_pos rfl]
      obtain ⟨sampled, progress, hsampled, hlog, hstatus⟩ := log_rest m₃
      rw [hstatus₃] at hsampled hlog hstatus
      rw [hstatus]
      refine ⟨_, ?_, .empty hready hanswer hsampled⟩
      rw [hlog, hlog₃]
      simp [Status.turnedTo, Status.atHead]
    | cons t page =>
      rw [List.isEmpty_cons, if_neg Bool.false_ne_true]
      have hpage : t :: page ≠ [] := List.cons_ne_nil t page
      obtain ⟨stamp, ⟨e, hcommit, houtcome, hlog, hstatus⟩ | ⟨summary, regression, sampled,
        progress, s, hcommit, houtcome, hsampled, hs, hlog, hstatus⟩⟩ := log_takeIn m₃ hpage
      · rw [hcore₃] at hcommit
        rw [hbehind₃, hstatus₃, hconfig₃, hlog₃] at hlog
        rw [hstatus₃] at hstatus
        rw [houtcome, hstatus]
        refine ⟨_, ?_, .rejected hready hanswer hpage hcommit⟩
        rw [hlog]
        simp [Status.turnedTo]
      · rw [hcore₃] at hcommit
        rw [hbehind₃, hstatus₃, hconfig₃, hlog₃, hregistry₃] at hlog
        rw [hstatus₃] at hsampled hs
        rw [hconfig₃] at hs
        -- what the machine was doing when it counted the page is overwritten
        have hidle : s.turnedTo .idle = (m.ready.2.loop.status.fetched.counted m.loop.config
            (t :: page) (m.loop.config.batchOf stamp (t :: page)) progress).turnedTo .idle := by
          rw [hs]
          rfl
        rw [houtcome, hstatus, hidle]
        refine ⟨_, ?_, .stored hready hanswer hpage hcommit hsampled rfl⟩
        rw [hlog, hs]
        simp [Status.turnedTo, Status.counted]

/-- There is nothing else that a round can write. -/
theorem written_step (m : Machine ν σ) :
    m.step.2.log = m.log ++ m.written ∧ Written m m.step.1 m.written m.step.2.loop.status := by
  suffices h : ∃ w, m.step.2.log = m.log ++ w ∧ Written m m.step.1 w m.step.2.loop.status by
    obtain ⟨w, hlog, hwritten⟩ := h
    have hw : m.written = w := by rw [written, hlog, List.drop_left]
    exact ⟨hw ▸ hlog, hw ▸ hwritten⟩
  cases hready : m.ready.1 with
  | ok => exact written_of_ready hready
  | error e =>
    obtain ⟨hlog, hloop⟩ := m.log_ready.2 e hready
    rw [step_of_refused hready]
    refine ⟨_, hlog, ?_⟩
    dsimp only
    rw [hloop]
    exact .refused hready

/-! ## Whatever happens -/

/-- The machine as it begins a round, if that is what happens. -/
def beginning? (m : Machine ν σ) : Happening ν σ → Option (Machine ν σ)
  | .round => some m
  | _ => none

/-- The machine as it was at the beginning of each of its rounds. -/
def begun : Machine ν σ → List (Happening ν σ) → List (Machine ν σ)
  | _, [] => []
  | m, h :: hs => (m.beginning? h).toList ++ begun (m.after h) hs

theorem live_append (m : Machine ν σ) (hs ks : List (Happening ν σ)) :
    m.live (hs ++ ks) = (m.live hs).live ks := List.foldl_append ..

theorem begun_append (m : Machine ν σ) (hs ks : List (Happening ν σ)) :
    m.begun (hs ++ ks) = m.begun hs ++ (m.live hs).begun ks := by
  induction hs generalizing m with
  | nil => rfl
  | cons h hs ih =>
    rw [List.cons_append, begun, begun, ih, List.append_assoc]
    rfl

theorem config_live (m : Machine ν σ) (hs : List (Happening ν σ)) :
    (m.live hs).loop.config = m.loop.config := by
  induction hs generalizing m with
  | nil => rfl
  | cons h hs ih => exact (ih (m.after h)).trans (m.config_after h)

/-- If no one else writes to the store, the core is what its own rounds make of it. -/
theorem core_live (m : Machine ν σ) {hs : List (Happening ν σ)}
    (hspares : ∀ h ∈ hs, h.sparesStore) :
    (m.live hs).core = (m.begun hs).foldl (fun c n => (c.deed n.outside).core) m.core := by
  induction hs generalizing m with
  | nil => rfl
  | cons h hs ih =>
    obtain ⟨hh, hspares⟩ := List.forall_mem_cons.1 hspares
    rw [begun, List.foldl_append]
    refine (ih (m.after h) hspares).trans (congrArg (List.foldl _ · _) ?_)
    cases h with
    | round => exact m.deed_step.core
    | outside | subscribers => rfl
    | store => cases hh

/-- Nothing is written but in rounds. -/
theorem log_live (m : Machine ν σ) (hs : List (Happening ν σ)) :
    (m.live hs).log = m.log ++ (m.begun hs).flatMap (·.written) := by
  induction hs generalizing m with
  | nil => exact (List.append_nil _).symm
  | cons h hs ih =>
    rw [begun, List.flatMap_append, ← List.append_assoc]
    refine (ih (m.after h)).trans (congrArg (· ++ _) ?_)
    cases h with
    | round => exact m.written_step.1.trans (by simp [beginning?])
    | outside | store | subscribers => exact (List.append_nil _).symm

end Rounds

end Machine

end LedgerIndex.Sync
