import LedgerIndex.Proofs.Store.Times
import LedgerIndex.Proofs.Sync.Journal
import LedgerIndex.Proofs.Sync.PageSize

/-!
# The status is an account of the rounds

What a round does to the status is decided by how it ends and by the page that it gets
(`Machine.counted_step`).  So the status that was published last is an account of all the rounds of
a machine, whatever else has happened to it: its numbers are those of the pages that were stored and
of the failures to fetch one (`Machine.account_live`).  A store in memory that was empty at first
and is left to the machine then holds what the status says.
-/

namespace LedgerIndex.Sync

variable {ν σ : Type}

/-! ## What a log tells -/

namespace Activity

/-- The progress that is reported. -/
def report? : Activity → Option Progress
  | noticed (.progress p) => some p
  | _ => none

/-- The failure to fetch that is reported, by its number in a row. -/
def failure? : Activity → Option Nat
  | noticed (.fetchFailed _ inRow) => some inRow
  | _ => none

end Activity

/-- The progress that was reported last. -/
def lastReport (log : List Activity) : Option Progress := (log.filterMap (·.report?)).getLast?

/-- The failures to fetch that were reported, by their numbers in a row. -/
def failuresTold (log : List Activity) : List Nat := log.filterMap (·.failure?)

theorem failuresTold_append (log log' : List Activity) :
    failuresTold (log ++ log') = failuresTold log ++ failuresTold log' := List.filterMap_append

theorem lastReport_append (log log' : List Activity) :
    lastReport (log ++ log') = (lastReport log').or (lastReport log) := by
  rw [lastReport, List.filterMap_append, List.getLast?_append]
  rfl

section Seen

variable {β : Type} {see : Activity → Option β}

theorem Loop.filterMap_behind (hregression : ∀ c t, see (.noticed (.regression c t)) = none)
    (l : Loop) (page : List Transaction) : (l.behind page).filterMap see = [] := by
  rw [behind]
  cases l.regression? page <;> simp [hregression]

theorem filterMap_handing (hhandedOut : ∀ messages, see (.handedOut messages) = none)
    (hfannedOut : ∀ d, see (.noticed (.fannedOut d)) = none) (registry : Option Registry)
    (b : Batch) : (handing registry b).filterMap see = [] := by
  unfold handing
  cases registry <;> simp [hhandedOut, hfannedOut]

theorem Machine.filterMap_loading [CommitStore σ] (hloaded : see .loadedCursor = none)
    (hpublished : ∀ s, see (.published s) = none) (m : Machine ν σ) :
    m.loading.filterMap see = [] := by
  rw [loading]
  split <;> simp [hloaded, hpublished]

end Seen

/-- What is reported is the last progress from then on. -/
theorem Sampled.told {last last' : Option Progress} {sampled : List Activity}
    (h : Sampled last sampled last') :
    last' = (lastReport sampled).or last ∧ failuresTold sampled = [] := by
  cases h <;> exact ⟨rfl, rfl⟩

/-- The sizes of a batch do not depend on when it is made. -/
theorem Config.sizes_batchOf (config : Config) (stamp time : Int) (page : List Transaction) :
    (config.batchOf stamp page).events.length = (config.batchOf time page).events.length ∧
      (config.batchOf stamp page).changes.length = (config.batchOf time page).changes.length ∧
      (config.batchOf stamp page).skipped = (config.batchOf time page).skipped := by
  have hpage := Batch.ofPage_atTime config.events stamp time (config.kept page)
  have hbatch : (config.batchOf stamp page).atTime time = config.batchOf time page := by
    rw [Config.batchOf, Config.batchOf, ← hpage]
    rfl
  rw [← hbatch]
  exact ⟨(List.length_map _).symm, rfl, rfl⟩

/-! ## How a round goes -/

namespace Machine

variable [Ledger ν] [Clock ν] [CommitStore σ]

/-- The next round fails to fetch a page. -/
def isFailing (m : Machine ν σ) : Bool :=
  match m.step.1 with
  | .ok .fetchFailed => true
  | _ => false

/-- The next round stores a page. -/
def isStoring (m : Machine ν σ) : Bool :=
  match m.step.1 with
  | .ok (.committed ..) => true
  | _ => false

/-- The next round stores a page, or there is none to store. -/
def isFruitful (m : Machine ν σ) : Bool :=
  match m.step.1 with
  | .ok .empty => true
  | .ok (.committed ..) => true
  | _ => false

/-- The next round fetches a page, whatever becomes of it. -/
def hasFetched (m : Machine ν σ) : Bool :=
  match m.ready.1, m.answer with
  | .ok (), .ok _ => true
  | _, _ => false

/-- The batch that the next round stores, if it stores one. -/
def storedBatch? (m : Machine ν σ) : Option Batch := (m.core.deed m.outside).stored?

/-- The next round reaches the head of the ledger, as far as its page and the last progress tell. -/
def reachesHead (m : Machine ν σ) (progress : Option Progress) : Bool :=
  match m.step.1, m.answer with
  | .ok .empty, _ => true
  | .ok (.committed ..), .ok page =>
    page.length < m.loop.config.pageSize || progress.any (·.isCaughtUp)
  | _, _ => false

/-- What a round does to the status, and what it tells of that. -/
structure Counted (m : Machine ν σ) : Prop where
  pages : m.step.2.loop.status.pages = m.loop.status.pages + if m.isStoring then 1 else 0
  transactions : m.step.2.loop.status.transactions = m.loop.status.transactions +
    (m.storedPage?.toList.map fun page => (m.loop.config.kept page).length).sum
  events : m.step.2.loop.status.events =
    m.loop.status.events + (m.storedBatch?.toList.map (·.events.length)).sum
  changes : m.step.2.loop.status.changes =
    m.loop.status.changes + (m.storedBatch?.toList.map (·.changes.length)).sum
  skipped : m.step.2.loop.status.skipped =
    m.loop.status.skipped + (m.storedBatch?.toList.map (·.skipped)).sum
  failures : m.step.2.loop.status.failures =
    m.loop.status.failures + if m.isFailing then 1 else 0
  failuresInRow : m.step.2.loop.status.failuresInRow =
    if m.hasFetched then 0 else m.loop.status.failuresInRow + if m.isFailing then 1 else 0
  isCaughtUp : m.step.2.loop.status.isCaughtUp =
    if m.isFruitful then m.reachesHead m.step.2.loop.status.progress else m.loop.status.isCaughtUp

/-- A round counts what it does, and nothing else. -/
theorem counted_step (m : Machine ν σ) : Counted m := by
  obtain ⟨-, hwritten⟩ := m.written_step
  obtain ⟨cursor, hready⟩ := m.status_ready
  obtain ⟨time, hbatch⟩ := m.stored?_deed
  generalize m.written = w, ho : m.step.1 = o, hs : m.step.2.loop.status = s at hwritten
  cases hwritten with
  | refused hr =>
    have hpage : m.storedPage? = none := by rw [storedPage?, ho]
    constructor <;>
      simp [hs, isStoring, isFailing, isFruitful, hasFetched, storedBatch?, hbatch, hpage, ho, hr]
  | failed hr ha =>
    have hpage : m.storedPage? = none := by rw [storedPage?, ho]
    constructor <;>
      simp [hs, isStoring, isFailing, isFruitful, hasFetched, storedBatch?, hbatch, hpage, ho, hr,
        ha, hready, Status.turnedTo, Status.failedOnce]
  | empty hr ha hsampled =>
    have hpage : m.storedPage? = none := by rw [storedPage?, ho]
    constructor <;>
      simp [hs, isStoring, isFailing, isFruitful, hasFetched, storedBatch?, hbatch, hpage, ho, hr,
        ha, hready, reachesHead, Status.turnedTo, Status.fetched, Status.atHead]
  | rejected hr ha =>
    have hpage : m.storedPage? = none := by rw [storedPage?, ho]
    constructor <;>
      simp [hs, isStoring, isFailing, isFruitful, hasFetched, storedBatch?, hbatch, hpage, ho, hr,
        ha, hready, Status.turnedTo, Status.fetched]
  | @stored page stamp _ _ _ _ _ hr ha _ _ _ hcounted =>
    have hpage : m.storedPage? = some page := by rw [storedPage?, ho, ha]
    obtain ⟨hevents, hchanges, hskipped⟩ := m.loop.config.sizes_batchOf stamp time page
    constructor <;>
      simp [hs, isStoring, isFailing, isFruitful, hasFetched, storedBatch?, hbatch, hpage, ho, hr,
        ha, hready, reachesHead, hcounted, hevents, hchanges, hskipped, Status.turnedTo,
        Status.fetched, Status.counted]

/-- What a round tells of the status is so when it is over. -/
theorem told_written (m : Machine ν σ) :
    failuresTold m.written = (if m.isFailing then [m.step.2.loop.status.failuresInRow] else []) ∧
      m.step.2.loop.status.progress = (lastReport m.written).or m.loop.status.progress ∧
      (snapshots m.written).getLast?.getD m.loop.status = m.step.2.loop.status := by
  obtain ⟨-, hwritten⟩ := m.written_step
  obtain ⟨cursor, hready⟩ := m.status_ready
  have hprogress : m.ready.2.loop.status.progress = m.loop.status.progress := by rw [hready]
  have hloading : failuresTold m.loading = [] ∧ lastReport m.loading = none := by
    rw [failuresTold, lastReport, filterMap_loading rfl fun _ => rfl,
      filterMap_loading rfl fun _ => rfl]
    exact ⟨rfl, rfl⟩
  have hasking (l : Loop) : failuresTold l.asking = [] ∧ lastReport l.asking = none := ⟨rfl, rfl⟩
  have hbehind (l : Loop) (page : List Transaction) :
      failuresTold (l.behind page) = [] ∧ lastReport (l.behind page) = none := by
    rw [failuresTold, lastReport, l.filterMap_behind fun _ _ => rfl,
      l.filterMap_behind fun _ _ => rfl]
    exact ⟨rfl, rfl⟩
  have hhanding (b : Batch) : failuresTold (handing m.registry b) = [] ∧
      lastReport (handing m.registry b) = none := by
    rw [failuresTold, lastReport, filterMap_handing (fun _ => rfl) fun _ => rfl,
      filterMap_handing (fun _ => rfl) fun _ => rfl]
    exact ⟨rfl, rfl⟩
  -- whatever a round has shown before, it ends with the status as it then is
  have hlast (log : List Activity) {log' : List Activity} {s : Status}
      (h : (snapshots log').getLast? = some s) :
      (snapshots (log ++ log')).getLast?.getD m.loop.status = s := by
    rw [snapshots_append, List.getLast?_append, h]
    rfl
  rw [isFailing]
  generalize m.written = w, m.step.1 = o, m.step.2.loop.status = s at hwritten ⊢
  cases hwritten with
  | refused => exact ⟨rfl, rfl, rfl⟩
  | failed =>
    refine ⟨?_, ?_, hlast _ rfl⟩
    · simp only [failuresTold_append, hloading, hasking]
      rfl
    · simp only [lastReport_append, hloading, hasking]
      exact hprogress
  | empty _ _ hsampled =>
    obtain ⟨hreport, hnone⟩ := hsampled.told
    refine ⟨?_, ?_, hlast _ rfl⟩
    · simp only [failuresTold_append, hloading, hasking, hnone]
      rfl
    · rw [hprogress] at hreport
      simp only [lastReport_append, hloading, hasking, Option.or_none]
      exact hreport
  | rejected =>
    refine ⟨?_, ?_, hlast _ rfl⟩
    · simp only [failuresTold_append, hloading, hasking, hbehind]
      rfl
    · simp only [lastReport_append, hloading, hasking, hbehind]
      exact hprogress
  | stored _ _ _ _ hsampled hcounted =>
    obtain ⟨hreport, hnone⟩ := hsampled.told
    refine ⟨?_, ?_, hlast _ rfl⟩
    · simp only [failuresTold_append, hloading, hasking, hbehind, hnone, hhanding]
      rfl
    · have hstoring (s : Status) (b : Batch) (summary : CommitSummary) :
          lastReport [.published s, .committed b, .noticed (.committed summary)] = none := rfl
      rw [hprogress] at hreport
      rw [hcounted]
      simp only [lastReport_append, hloading, hasking, hbehind, hstoring, hhanding, Option.or_none]
      exact hreport

/-! ## The account -/

/-- The failures to fetch since a page was last fetched. -/
def streak (rounds : List (Machine ν σ)) : Nat :=
  (rounds.reverse.takeWhile fun n => !n.hasFetched).countP (·.isFailing)

theorem streak_concat (rounds : List (Machine ν σ)) (n : Machine ν σ) :
    streak (rounds ++ [n]) =
      if n.hasFetched then 0 else streak rounds + if n.isFailing then 1 else 0 := by
  rw [streak, List.reverse_concat, List.takeWhile_cons]
  cases n.hasFetched with
  | true => rfl
  | false =>
    rw [Bool.not_false, if_pos rfl, if_neg Bool.false_ne_true, List.countP_cons]
    rfl

/-- The status tells how the rounds of a machine with this configuration have gone, and was
published as it is. -/
structure Account (config : Config) (rounds : List (Machine ν σ)) (log : List Activity)
    (s : Status) : Prop where
  published : (snapshots log).getLast?.getD .new = s
  pages : s.pages = rounds.countP (·.isStoring)
  transactions : s.transactions =
    ((rounds.filterMap (·.storedPage?)).map fun page => (config.kept page).length).sum
  events : s.events = ((rounds.filterMap (·.storedBatch?)).map (·.events.length)).sum
  changes : s.changes = ((rounds.filterMap (·.storedBatch?)).map (·.changes.length)).sum
  skipped : s.skipped = ((rounds.filterMap (·.storedBatch?)).map (·.skipped)).sum
  /-- the batches are those of the pages -/
  batches : List.Forall₂ (fun page b => ∃ stamp, b = config.batchOf stamp page)
    (rounds.filterMap (·.storedPage?)) (rounds.filterMap (·.storedBatch?))
  failures : s.failures = rounds.countP (·.isFailing)
  failuresInRow : s.failuresInRow = streak rounds
  /-- a failure to fetch is told with its number in a row -/
  told (before : List (Machine ν σ)) (n : Machine ν σ) (after : List (Machine ν σ)) :
    rounds = before ++ n :: after →
      failuresTold n.written = if n.isFailing then [streak (before ++ [n])] else []
  progress : s.progress = lastReport log
  /-- as the last round says that has stored a page or found none -/
  isCaughtUp : s.isCaughtUp = (rounds.filter (·.isFruitful)).getLast?.any fun n =>
    n.reachesHead (lastReport n.step.2.log)

/-- A round is added to the account. -/
theorem Account.round {config : Config} {rounds : List (Machine ν σ)} {m : Machine ν σ}
    (h : Account config rounds m.log m.loop.status) (hconfig : m.loop.config = config) :
    Account config (rounds ++ [m]) m.step.2.log m.step.2.loop.status := by
  have hcounted := m.counted_step
  obtain ⟨htold, hprogress, hpublished⟩ := m.told_written
  have htaken {β : Type} (take : Machine ν σ → Option β) :
      (rounds ++ [m]).filterMap take = rounds.filterMap take ++ (take m).toList := by
    rw [List.filterMap_append]
    cases hm : take m <;> simp [hm]
  have hinRow : m.step.2.loop.status.failuresInRow = streak (rounds ++ [m]) := by
    rw [hcounted.failuresInRow, streak_concat, h.failuresInRow]
  have hreport : m.step.2.loop.status.progress = lastReport m.step.2.log := by
    rw [hprogress, h.progress, m.written_step.1, lastReport_append]
  constructor
  case published =>
    rw [m.written_step.1, snapshots_append, List.getLast?_append, ← hpublished, ← h.published]
    cases (snapshots m.written).getLast? <;> rfl
  case pages => rw [hcounted.pages, h.pages, List.countP_append, List.countP_singleton]
  case transactions =>
    rw [hcounted.transactions, h.transactions, htaken, List.map_append, List.sum_append, hconfig]
  case events => rw [hcounted.events, h.events, htaken, List.map_append, List.sum_append]
  case changes => rw [hcounted.changes, h.changes, htaken, List.map_append, List.sum_append]
  case skipped => rw [hcounted.skipped, h.skipped, htaken, List.map_append, List.sum_append]
  case batches =>
    obtain ⟨stamp, hbatch⟩ := m.stored?_deed
    rw [htaken, htaken, storedBatch?, hbatch, hconfig]
    refine List.rel_append h.batches ?_
    cases m.storedPage? with
    | none => exact .nil
    | some page => exact .cons ⟨stamp, rfl⟩ .nil
  case failures => rw [hcounted.failures, h.failures, List.countP_append, List.countP_singleton]
  case failuresInRow => exact hinRow
  case told =>
    intro before n after hrounds
    obtain rfl | ⟨after, last, rfl⟩ := List.eq_nil_or_concat after
    · obtain ⟨rfl, hn⟩ := List.append_inj' hrounds rfl
      obtain rfl : m = n := List.head_eq_of_cons_eq hn
      rw [htold, hinRow]
    · rw [List.concat_eq_append, ← List.cons_append, ← List.append_assoc] at hrounds
      exact h.told before n after (List.append_inj' hrounds rfl).1
  case progress => exact hreport
  case isCaughtUp =>
    rw [hcounted.isCaughtUp, hreport, List.filter_append]
    cases hm : m.isFruitful with
    | true =>
      rw [List.filter_cons_of_pos hm, List.filter_nil, List.getLast?_concat]
      rfl
    | false =>
      rw [List.filter_cons_of_neg (Bool.eq_false_iff.1 hm), List.filter_nil, List.append_nil]
      exact h.isCaughtUp

/-- A machine has an account of its rounds at all times. -/
theorem Account.live {config : Config} {rounds : List (Machine ν σ)} {m : Machine ν σ}
    (h : Account config rounds m.log m.loop.status) (hconfig : m.loop.config = config)
    (hs : List (Happening ν σ)) :
    Account config (rounds ++ m.begun hs) (m.live hs).log (m.live hs).loop.status := by
  induction hs generalizing m rounds with
  | nil =>
    rw [begun, List.append_nil]
    exact h
  | cons happening hs ih =>
    cases happening with
    | round =>
      have hround := ih (h.round hconfig) ((m.config_after .round).trans hconfig)
      rwa [List.append_assoc] at hround
    | outside w => exact ih (m := { m with outside := w }) h hconfig
    | store s => exact ih (m := { m with store := s }) h hconfig
    | subscribers a =>
      exact ih (m := { m with registry := m.registry.map (·.act a.val) }) h hconfig

theorem account_new (config : Config) :
    Account config ([] : List (Machine ν σ)) [] .new where
  published := rfl
  pages := rfl
  transactions := rfl
  events := rfl
  changes := rfl
  skipped := rfl
  batches := .nil
  failures := rfl
  failuresInRow := rfl
  told before n after h := by simp at h
  progress := rfl
  isCaughtUp := rfl

end Machine

/-! ## The store -/

namespace Core

variable {α : Type} [CommitStore σ] {contents : σ → α} {cursorIn : α → String → Option Cursor}
  {c c' : Core σ}

/-- A cursor that is the stored one stays so when it is loaded. -/
theorem cursor_ready (store : Atomic σ contents cursorIn)
    (h : cursorIn (contents c.store) c.config.id = c.cursor) {r : Except Error Unit}
    (hr : c.ready = (r, c')) : cursorIn (contents c'.store) c'.config.id = c'.cursor := by
  rw [ready] at hr
  split at hr
  · cases hr
    exact h
  · rcases hload : CommitStore.loadCursor c.config.id c.store with ⟨_ | found, s⟩ <;>
      rw [hload] at hr <;> cases hr
    · rw [store.refused hload]
      exact h
    · obtain ⟨hfound, hcontents⟩ := store.loaded hload
      dsimp only
      rw [hcontents, hfound, h, Option.or_self]

/-- A cursor that is the stored one stays so. -/
theorem cursor_round [Ledger ν] [Clock ν] (store : Atomic σ contents cursorIn)
    (h : cursorIn (contents c.store) c.config.id = c.cursor) {w w' : ν} {o : Except Error Outcome}
    (hr : Round c w o c' w') : cursorIn (contents c'.store) c'.config.id = c'.cursor := by
  cases hr with
  | refused hready | failed hready | empty hready => exact cursor_ready store h hready
  | rejected hready _ _ hcommit =>
    dsimp only
    rw [store.rejected hcommit]
    exact cursor_ready store h hready
  | stored hready _ _ hcommit =>
    have hstored := store.stored hcommit
    rw [cursor_ready store h hready] at hstored
    exact hstored

end Core

/-- The logs of a store that is fed with pages are those of their batches. -/
theorem logs_feed (config : Config) (m : Memory) (taken : List (Int × List Transaction)) :
    (feed config m taken).calls =
        m.calls ++ (taken.map fun p => config.batchOf p.1 p.2).flatMap (·.calls) ∧
      (feed config m taken).events =
        m.events ++ (taken.map fun p => config.batchOf p.1 p.2).flatMap (·.events) := by
  induction taken generalizing m with
  | nil => exact ⟨(List.append_nil _).symm, (List.append_nil _).symm⟩
  | cons p taken ih =>
    obtain ⟨hcalls, hevents⟩ := ih (m.commit p.1 config.id (config.batchOf p.1 p.2)).2
    rw [Memory.calls_commit, List.append_assoc] at hcalls
    rw [Memory.events_commit, List.append_assoc] at hevents
    exact ⟨hcalls, hevents⟩

namespace Machine

variable [Ledger ν] [Clock ν] [CommitStore σ]

/-- The cursor in the status is the one that the machine goes by. -/
theorem cursor_step {m : Machine ν σ} (h : m.loop.status.cursor = m.loop.cursor) :
    m.step.2.loop.status.cursor = m.step.2.loop.cursor := by
  cases hready : m.ready.1 with
  | ok => exact (m.shown_step (fun _ => h) hready).1.cursor
  | error e =>
    rw [step_of_refused hready, (m.log_ready.2 e hready).2]
    exact h

variable {view : σ → Memory} {config : Config} {rounds : List (Machine ν σ)} {m : Machine ν σ}

/-- A round gives the store the page that it stores, and nothing else. -/
theorem exists_taken (store : Keeps σ view) (m : Machine ν σ) :
    ∃ taken : Option (Int × List Transaction), m.storedPage? = taken.map (·.2) ∧
      m.storedBatch? = taken.map (fun p => m.loop.config.batchOf p.1 p.2) ∧
      view m.step.2.store = taken.elim (view m.store) fun p =>
        ((view m.store).commit p.1 m.loop.config.id (m.loop.config.batchOf p.1 p.2)).2 := by
  have hconfig := m.core.config_ready
  have hview : view m.core.ready.2.store = view m.store := by
    rw [Core.ready]
    split
    · rfl
    · rcases hload : CommitStore.loadCursor m.core.config.id m.core.store with ⟨_ | _, _⟩
      · exact store.refused hload
      · exact (store.loaded hload).2
  have hstore : m.step.2.store = (m.core.deed m.outside).core.store :=
    congrArg Core.store m.deed_step.core
  rw [storedPage?, storedBatch?, hstore, answer_eq, m.deed_step.outcome, Core.deed]
  rcases hready : m.core.ready with ⟨_ | ⟨⟩, c⟩ <;> rw [hready] at hconfig hview
  · exact ⟨none, rfl, rfl, hview⟩
  · dsimp only at hconfig hview ⊢
    rcases (c.fetch m.outside).1 with _ | _ | ⟨t, page⟩
    · exact ⟨none, rfl, rfl, hview⟩
    · exact ⟨none, rfl, rfl, hview⟩
    · generalize (Clock.stamp (c.fetch m.outside).2).1 = stamp
      obtain ⟨e, s, hcommit, h⟩ | ⟨summary, s, hcommit, h⟩ := c.attempt_cases stamp (t :: page) <;>
        rw [Core.react, h]
      · exact ⟨none, rfl, rfl, (store.rejected hcommit).trans hview⟩
      · have hstored := store.stored hcommit
        rw [hview, hconfig] at hstored
        exact ⟨some (stamp, t :: page), rfl, by rw [hconfig]; rfl, (congrArg Prod.snd hstored).symm⟩

/-- All that happens gives the store the pages that are stored, and nothing else. -/
theorem exists_fed (store : Keeps σ view) {m : Machine ν σ} (hconfig : m.loop.config = config)
    {hs : List (Happening ν σ)} (hspares : ∀ h ∈ hs, h.sparesStore) :
    ∃ taken : List (Int × List Transaction),
      taken.map (·.2) = (m.begun hs).filterMap (·.storedPage?) ∧
      (taken.map fun p => config.batchOf p.1 p.2) = (m.begun hs).filterMap (·.storedBatch?) ∧
      view (m.live hs).store = feed config (view m.store) taken := by
  induction hs generalizing m with
  | nil => exact ⟨[], rfl, rfl, rfl⟩
  | cons h hs ih =>
    obtain ⟨hh, hrest⟩ := List.forall_mem_cons.1 hspares
    cases h with
    | round =>
      obtain ⟨first, hpage, hbatch, hfirst⟩ := exists_taken store m
      obtain ⟨taken, hpages, hbatches, htaken⟩ :=
        ih (m := m.step.2) ((m.config_after .round).trans hconfig) hrest
      rw [hconfig] at hbatch hfirst
      rw [hfirst] at htaken
      have hbegun : m.begun (.round :: hs) = [m] ++ m.step.2.begun hs := rfl
      refine ⟨first.toList ++ taken, ?_, ?_, htaken.trans ?_⟩
      · rw [hbegun, List.filterMap_append, List.map_append, hpages]
        cases first <;> simp [hpage]
      · rw [hbegun, List.filterMap_append, List.map_append, hbatches]
        cases first <;> simp [hbatch]
      · cases first <;> rfl
    | outside w => exact ih (m := { m with outside := w }) hconfig hrest
    | subscribers a =>
      exact ih (m := { m with registry := m.registry.map (·.act a.val) }) hconfig hrest
    | store => cases hh

/-- A cursor that is the same in the status, in the machine and in the store stays so. -/
theorem cursor_live {α : Type} {contents : σ → α} {cursorIn : α → String → Option Cursor}
    (store : Atomic σ contents cursorIn) {m : Machine ν σ}
    (hstatus : m.loop.status.cursor = m.loop.cursor)
    (hstored : cursorIn (contents m.store) m.loop.config.id = m.loop.cursor)
    {hs : List (Happening ν σ)} (hspares : ∀ h ∈ hs, h.sparesStore) :
    cursorIn (contents (m.live hs).store) (m.live hs).loop.config.id =
      (m.live hs).loop.status.cursor := by
  induction hs generalizing m with
  | nil => exact hstored.trans hstatus.symm
  | cons h hs ih =>
    obtain ⟨hh, hrest⟩ := List.forall_mem_cons.1 hspares
    cases h with
    | round => exact ih (cursor_step hstatus) (Core.cursor_round store hstored m.round) hrest
    | outside w => exact ih (m := { m with outside := w }) hstatus hstored hrest
    | subscribers a =>
      exact ih (m := { m with registry := m.registry.map (·.act a.val) }) hstatus hstored hrest
    | store => cases hh

/-- What a store holds that has only what a machine has given it in some rounds, with the status of
the machine. -/
structure Filed (config : Config) (rounds : List (Machine ν σ)) (contents : Memory) (s : Status) :
    Prop where
  /-- the pages, each taken in at its time -/
  fed : ∃ taken : List (Int × List Transaction),
    taken.map (·.2) = rounds.filterMap (·.storedPage?) ∧
    (taken.map fun p => config.batchOf p.1 p.2) = rounds.filterMap (·.storedBatch?) ∧
    contents = feed config .empty taken
  calls : contents.calls = (rounds.filterMap (·.storedBatch?)).flatMap (·.calls)
  events : contents.events = (rounds.filterMap (·.storedBatch?)).flatMap (·.events)
  /-- the status counts the log entries -/
  counted : contents.events.length = s.events
  cursor : contents.cursorOf config.id = s.cursor

/-- **The status is an exact account.**  Whatever happens to a new machine, the status that it has
published last counts its rounds and what was stored in them, and nothing else.  A store in memory
that was empty at first and to which no one else writes holds just that. -/
theorem account_live (config : Config) (w : ν) (s : σ) (registry : Option Registry)
    (hs : List (Happening ν σ)) :
    let m : Machine ν σ := .new config w s registry
    Account config (m.begun hs) (m.live hs).log (m.live hs).loop.status ∧
      ∀ view : σ → Memory, Keeps σ view → view s = .empty → (∀ h ∈ hs, h.sparesStore) →
        Filed config (m.begun hs) (view (m.live hs).store) (m.live hs).loop.status := by
  intro m
  have haccount : Account config (m.begun hs) (m.live hs).log (m.live hs).loop.status :=
    (account_new config).live (m := m) rfl hs
  refine ⟨haccount, fun view store hempty hspares => ?_⟩
  have hview : view m.store = .empty := hempty
  have hconfig : m.loop.config = config := rfl
  obtain ⟨taken, hpages, hbatches, hfed⟩ := exists_fed store hconfig hspares
  have hcursor := cursor_live store.atomic (m := m) rfl (by rw [hview]; rfl) hspares
  obtain ⟨hcalls, hevents⟩ := logs_feed config .empty taken
  rw [hview] at hfed
  rw [hbatches, ← hfed] at hcalls hevents
  refine ⟨⟨taken, hpages, hbatches, hfed⟩, hcalls, hevents, ?_, ?_⟩
  · rw [haccount.events, hevents]
    exact List.length_flatMap
  · rw [← hcursor, config_live]
    rfl

end Machine

/-! ### A bumpy run -/

/-- Two failures, a page, another failure, the page again, a page below the start, and nothing. -/
def bumpy : Scripted.LedgerScript :=
  ⟨[⟨.error (.rpc "no answer"), none⟩, ⟨.error (.other "bad page"), none⟩, ⟨.ok mixed, none⟩,
    ⟨.error (.rpc "no answer"), none⟩, ⟨.ok mixed, none⟩, ⟨.ok [bare "d" 3], none⟩], [], false,
    false, false, 0, 0⟩

/-- The machine over this ledger, from checkpoint 6 on.  Its store refuses the first page. -/
def bumped : Machine Scripted.LedgerScript (Unreliable Memory) :=
  .new { Config.usual with events := ⟨[], ["Row"]⟩, start := some 6 } bumpy ⟨.empty, false, [1], 0⟩
    none

/-- Seven rounds. -/
def bumps : List (Happening Scripted.LedgerScript (Unreliable Memory)) := .replicate 7 .round

theorem account_live_bumps :
    Keeps (Unreliable Memory) (fun u => id u.store) ∧ bumped.store.store = .empty ∧
      (∀ h ∈ bumps, h.sparesStore) ∧
      Machine.Account bumped.loop.config (bumped.begun bumps) (bumped.live bumps).log
        (bumped.live bumps).loop.status ∧
      Machine.Filed bumped.loop.config (bumped.begun bumps) (bumped.live bumps).store.store
        (bumped.live bumps).loop.status ∧
      ((bumped.live bumps).loop.status.pages, (bumped.live bumps).loop.status.transactions,
        (bumped.live bumps).loop.status.events, (bumped.live bumps).loop.status.changes,
        (bumped.live bumps).loop.status.skipped) = (2, 2, 1, 2, 1) ∧
      failuresTold (bumped.live bumps).log = [1, 2, 1] ∧
      (bumped.live bumps).store.store.events.length = 1 := by
  have store : Keeps (Unreliable Memory) (fun u => id u.store) := Unreliable.keeps keeps_memory
  have spares : ∀ h ∈ bumps, h.sparesStore := by simp [bumps, Happening.sparesStore]
  obtain ⟨account, filed⟩ := Machine.account_live bumped.loop.config bumped.outside bumped.store
    bumped.registry bumps
  exact ⟨store, rfl, spares, account, filed _ store rfl spares, by decide +kernel,
    by decide +kernel, by decide +kernel⟩

end LedgerIndex.Sync
