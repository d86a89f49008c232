import LedgerIndex.Proofs.Sync.Account

/-!
# When the head of the ledger is looked at

A round that stores a page, or finds that there is none, looks at the clock.  If no sample of the
progress has been recorded yet, or the interval has passed since the last one, it asks the ledger
for its head; only if the ledger tells it a sample is recorded.  The first sample is the base line,
and each later one is reported once.  None of this needs a clock that goes forward.

Of a machine only its `Gauge` is concerned, and of a round only what it meets at one place, its
`Glance` (`Machine.gauge_step`).  From this it is told when a round of a machine asks, what it
records and what it reports (`Sampling`), whatever has happened before (`Machine.cadence_live`).
-/

namespace LedgerIndex

/-- A look at the clock: the time, how far the indexer has come, and what the ledger says to the
question for its head, should it be asked. -/
structure Glance where
  time : Nat
  checkpoint : UInt64
  head : Except Error UInt64

/-- A sample with the head that the ledger told. -/
structure Sighting extends Sample where
  head : UInt64

/-- What a sighting tells, after another sample. -/
def Sighting.reportAfter (s : Sighting) (before : Sample) : Progress :=
  .since before.checkpoint (s.time - before.time) s.checkpoint s.head

/-- What some samples tell, each after the one before it. -/
def Sighting.reports : Option Sample → List Sighting → List Progress
  | _, [] => []
  | before, s :: rest => (before.map s.reportAfter).toList ++ reports (some s.toSample) rest

/-- The sighting that comes of the question for the head. -/
def Glance.sighting? (g : Glance) : Option Sighting :=
  match g.head with
  | .error _ => none
  | .ok head => some ⟨⟨g.time, g.checkpoint⟩, head⟩

namespace Estimator

theorem isDue_iff {e : Estimator} {now : Nat} :
    e.isDue now ↔ ∀ s ∈ e.previous, e.interval ≤ now - s.time := by
  rw [isDue]
  cases e.previous <;> simp

/-- A sample takes the place of the one before, and is reported if there was one. -/
theorem sample_sighting (e : Estimator) (s : Sighting) :
    e.sample s.checkpoint s.head s.time = (e.previous.map s.reportAfter,
      ⟨e.interval, some s.toSample, (e.previous.map s.reportAfter).or e.last⟩) := by
  rw [sample]
  cases e.previous <;> rfl

end Estimator

namespace Sync

variable {ν σ : Type}

/-- The ledger is asked for its head. -/
def Activity.isHeadQuestion : Activity → Bool
  | askedHead => true
  | published _ | loadedCursor | fetched .. | committed _ | noticed _ | handedOut _ => false

/-! ## Statuses and reports -/

/-- Each status that is published shows the progress that was reported last, or what was reported
before. -/
def ShowsReports : Option Progress → List Activity → Prop
  | _, [] => True
  | last, a :: log => (∀ s ∈ a.snapshot?, s.progress = last) ∧ ShowsReports (a.report?.or last) log

theorem lastReport_cons (a : Activity) (log : List Activity) :
    lastReport (a :: log) = (lastReport log).or a.report? := by
  have ha : lastReport [a] = a.report? := by
    rw [lastReport, List.filterMap_cons]
    cases a.report? <;> rfl
  rw [← List.singleton_append, lastReport_append, ha]

theorem showsReports_append {last : Option Progress} {log log' : List Activity} :
    ShowsReports last (log ++ log') ↔
      ShowsReports last log ∧ ShowsReports ((lastReport log).or last) log' := by
  induction log generalizing last with
  | nil => exact (true_and _).symm.to_iff
  | cons a log ih =>
    rw [List.cons_append, ShowsReports, ShowsReports, ih, lastReport_cons, Option.or_assoc,
      and_assoc]

theorem showsReports_of_aside {last : Option Progress} {log : List Activity}
    (h : ∀ a ∈ log, a.isAside) : ShowsReports last log := by
  induction log generalizing last with
  | nil => trivial
  | cons a log ih =>
    obtain ⟨ha, hlog⟩ := List.forall_mem_cons.1 h
    refine ⟨fun s hs => ?_, ih hlog⟩
    cases a <;> cases hs
    cases ha

theorem ShowsReports.progress {last : Option Progress} {before after : List Activity} {s : Status}
    (h : ShowsReports last (before ++ .published s :: after)) :
    s.progress = (lastReport before).or last :=
  (showsReports_append.1 h).2.1 s rfl

/-! ## The gauge -/

/-- The part of a machine that is concerned with the progress. -/
structure Gauge where
  estimator : Estimator
  /-- how often the ledger was asked for its head -/
  asked : Nat
  /-- the progress that was reported, in order -/
  reports : List Progress

/-- A gauge after a glance. -/
def Gauge.after (t : Gauge) (g : Glance) : Gauge :=
  if t.estimator.isDue g.time then
    match g.sighting? with
    | none => { t with asked := t.asked + 1 }
    | some s =>
      let report := t.estimator.previous.map s.reportAfter
      ⟨⟨t.estimator.interval, some s.toSample, report.or t.estimator.last⟩, t.asked + 1,
        t.reports ++ report.toList⟩
  else t

namespace Gauge

variable {t : Gauge} {g : Glance}

theorem after_of_not_due (h : ¬ t.estimator.isDue g.time) : t.after g = t := if_neg h

theorem after_of_none (hdue : t.estimator.isDue g.time) (hs : g.sighting? = none) :
    t.after g = { t with asked := t.asked + 1 } := by
  rw [after, if_pos hdue, hs]

theorem after_of_some {s : Sighting} (hdue : t.estimator.isDue g.time) (hs : g.sighting? = some s) :
    t.after g = ⟨⟨t.estimator.interval, some s.toSample,
      (t.estimator.previous.map s.reportAfter).or t.estimator.last⟩, t.asked + 1,
        t.reports ++ (t.estimator.previous.map s.reportAfter).toList⟩ := by
  rw [after, if_pos hdue, hs]

theorem asked_after (h : t.estimator.isDue g.time) : (t.after g).asked = t.asked + 1 := by
  rw [after, if_pos h]
  split <;> rfl

/-- What is kept is the last report. -/
theorem last_after (h : t.estimator.last = t.reports.getLast?) :
    (t.after g).estimator.last = (t.after g).reports.getLast? := by
  rw [after]
  split
  · split
    · exact h
    · rw [List.getLast?_append, ← h]
      cases t.estimator.previous <;> rfl
  · exact h

end Gauge

/-- The glance of an indexer that has come so far, at a world. -/
def glanceAt [Ledger ν] [Clock ν] (checkpoint : UInt64) (w : ν) : Glance :=
  ⟨(Clock.now w).1, checkpoint, (Ledger.headCheckpoint (Clock.now w).2).1⟩

namespace Machine

def gauge (m : Machine ν σ) : Gauge :=
  ⟨m.loop.estimator, m.log.countP (·.isHeadQuestion), m.log.filterMap (·.report?)⟩

/-- What is neither the question for the head nor a report does not move the gauge. -/
theorem gauge_record (m : Machine ν σ) {a : Activity} (hask : a.isHeadQuestion = false)
    (hreport : a.report? = none) : (m.record a).gauge = m.gauge := by
  simp [record, gauge, hask, hreport]

@[simp] theorem gauge_enter (m : Machine ν σ) (state : State) : (m.enter state).gauge = m.gauge :=
  gauge_record { m with loop.status.state := state } rfl rfl

theorem gauge_noteRegression (m : Machine ν σ) (page : List Transaction) :
    (m.noteRegression page).gauge = m.gauge := by
  rw [noteRegression]
  split
  · rfl
  · exact gauge_record m rfl rfl

theorem gauge_giveUp (m : Machine ν σ) (e : Error) : (m.giveUp e).gauge = m.gauge := by
  rw [giveUp, gauge_enter]
  exact gauge_record { m with loop := m.loop.failed } rfl rfl

theorem gauge_fanOut (m : Machine ν σ) (b : Batch) : (m.fanOut b).gauge = m.gauge := by
  rw [fanOut]
  cases m.registry with
  | none => rfl
  | some registry =>
    have hhanded : (m.record (.handedOut b.messages)).gauge = m.gauge := gauge_record m rfl rfl
    rw [← hhanded]
    exact gauge_record { m.record (.handedOut b.messages) with
      registry := some (registry.fanOut b).2 } rfl rfl

theorem gauge_ready [CommitStore σ] (m : Machine ν σ) : m.ready.2.gauge = m.gauge := by
  have hloaded : (m.record .loadedCursor).gauge = m.gauge := gauge_record m rfl rfl
  rw [ready]
  split
  · rfl
  · rw [loadCursor]
    rcases CommitStore.loadCursor m.loop.config.id m.store with ⟨_ | _, _⟩
    · exact hloaded
    · exact (gauge_record _ rfl rfl).trans hloaded

/-- How far a machine has come is told by its cursor. -/
theorem checkpoint_of_cursor {m n : Machine ν σ} (h : m.core.cursor = n.core.cursor) :
    m.loop.checkpoint = n.loop.checkpoint := by
  have hcursor : m.loop.cursor = n.loop.cursor := h
  rw [Loop.checkpoint, Loop.checkpoint, hcursor]

/-- A sample is reported unless it is the base line. -/
theorem gauge_takeSample (m : Machine ν σ) (now : Nat) (head : UInt64) :
    (m.takeSample now head).gauge =
      ⟨(m.loop.estimator.sample m.loop.checkpoint head now).2, m.gauge.asked,
        m.gauge.reports ++ (m.loop.estimator.sample m.loop.checkpoint head now).1.toList⟩ := by
  rw [takeSample]
  rcases m.loop.estimator.sample m.loop.checkpoint head now with ⟨_ | p, estimator⟩
  · simp [gauge]
  · simp [gauge, note, record, Activity.isHeadQuestion, Activity.report?]

section Rounds

variable [Ledger ν] [Clock ν]

theorem gauge_sampleProgress (m : Machine ν σ) :
    m.sampleProgress.gauge = m.gauge.after (glanceAt m.loop.checkpoint m.outside) := by
  have hasked (w : ν) : ({ m.record .askedHead with outside := w } : Machine ν σ).gauge =
      { m.gauge with asked := m.gauge.asked + 1 } := by
    simp [gauge, record, Activity.isHeadQuestion, Activity.report?]
  have htold (w : ν) (now : Nat) (head : UInt64) :
      (takeSample { m.record .askedHead with outside := w } now head).gauge =
        ⟨(m.loop.estimator.sample m.loop.checkpoint head now).2, m.gauge.asked + 1,
          m.gauge.reports ++ (m.loop.estimator.sample m.loop.checkpoint head now).1.toList⟩ := by
    rw [gauge_takeSample, hasked]
    rfl
  set g : Glance := glanceAt m.loop.checkpoint m.outside with hg
  rw [sampleProgress]
  dsimp only
  by_cases hdue : m.loop.estimator.isDue (Clock.now m.outside).1
  · rw [if_pos hdue]
    cases hhead : (Ledger.headCheckpoint (Clock.now m.outside).2).1 with
    | error e =>
      have hs : g.sighting? = none := by rw [hg, glanceAt, Glance.sighting?, hhead]
      rw [Gauge.after_of_none (t := m.gauge) (g := g) hdue hs]
      exact hasked _
    | ok head =>
      have hs : g.sighting? = some ⟨⟨(Clock.now m.outside).1, m.loop.checkpoint⟩, head⟩ := by
        rw [hg, glanceAt, Glance.sighting?, hhead]
      rw [Gauge.after_of_some (t := m.gauge) (g := g) hdue hs]
      refine (htold _ _ head).trans ?_
      rw [m.loop.estimator.sample_sighting ⟨⟨(Clock.now m.outside).1, m.loop.checkpoint⟩, head⟩]
      rfl
  · rw [if_neg hdue, Gauge.after_of_not_due (t := m.gauge) (g := g) hdue]
    rfl

theorem gauge_rest (m : Machine ν σ) :
    m.rest.gauge = m.gauge.after (glanceAt m.rest.loop.checkpoint m.outside) := by
  rw [checkpoint_of_cursor (congrArg Core.cursor m.core_rest), rest, gauge_enter]
  exact gauge_sampleProgress { m with loop.status.isCaughtUp := true }

/-- The glance comes when the page is counted, so that the cursor is at its end. -/
theorem gauge_settle (m : Machine ν σ) (page : List Transaction) (b : Batch)
    (summary : CommitSummary) : (m.settle page b summary).gauge =
      m.gauge.after (glanceAt (m.settle page b summary).loop.checkpoint m.outside) := by
  set m₁ : Machine ν σ := note { m with loop := m.loop.account page b } (.committed summary)
    with hm₁
  have hgauge : m₁.gauge = m.gauge :=
    gauge_record { m with loop := m.loop.account page b } rfl rfl
  have hcursor : (m.settle page b summary).core.cursor = m₁.core.cursor :=
    congrArg Core.cursor (m.core_settle page b summary)
  rw [checkpoint_of_cursor hcursor, ← hgauge, settle, gauge_enter, gauge_fanOut, gauge_enter]
  exact gauge_sampleProgress m₁

variable [CommitStore σ]

/-- A page that the store takes in brings one glance, and one that it does not take in brings
none. -/
theorem gauge_takeIn (m : Machine ν σ) (page : List Transaction) :
    (∃ e, (m.takeIn page).1 = .error e ∧ (m.takeIn page).2.gauge = m.gauge) ∨
      ∃ summary regression, (m.takeIn page).1 = .ok (.committed summary regression) ∧
        (m.takeIn page).2.gauge = m.gauge.after
          (glanceAt (m.takeIn page).2.loop.checkpoint (Clock.stamp m.outside).2) := by
  rw [takeIn]
  dsimp only
  generalize (m.loop.regression? page).isSome = regression
  set m₁ : Machine ν σ := (m.noteRegression page).enter .reconciling with hm₁
  have hgauge₁ : m₁.gauge = m.gauge := by rw [hm₁, gauge_enter, gauge_noteRegression]
  have hout₁ : m₁.outside = m.outside := by simp [hm₁]
  clear_value m₁
  rw [hout₁]
  generalize (Clock.stamp m.outside).1 = stamp
  generalize m₁.loop.batchOf stamp page = b
  set m₂ : Machine ν σ := { m₁ with outside := (Clock.stamp m.outside).2 } with hm₂
  -- the batch is written down, which is neither a question for the head nor a report
  have hgauge₃ : (m₂.commit stamp b).2.gauge = m.gauge := by
    rw [← hgauge₁]
    exact gauge_record m₂ rfl rfl
  have hout₃ : (m₂.commit stamp b).2.outside = (Clock.stamp m.outside).2 := rfl
  generalize m₂.commit stamp b = answered at hgauge₃ hout₃ ⊢
  rcases answered with ⟨e | summary, m₃⟩ <;> dsimp only at hgauge₃ hout₃ ⊢
  · exact .inl ⟨e, rfl, by rw [gauge_enter]; exact hgauge₃⟩
  · refine .inr ⟨summary, regression, rfl, ?_⟩
    rw [gauge_settle, hgauge₃, hout₃]

/-- The world at the end of the next round's dealings with the ledger and the store. -/
def lookout (m : Machine ν σ) : ν :=
  match m.answer with
  | .ok (_ :: _) => (Clock.stamp (m.core.ready.2.fetch m.outside).2).2
  | _ => (m.core.ready.2.fetch m.outside).2

/-- What the next round meets when it looks at the clock, with the checkpoint of the cursor that it
leaves. -/
def glance (m : Machine ν σ) : Glance := glanceAt m.step.2.loop.checkpoint m.lookout

/-- **A round looks at the clock once**, if it stores a page or finds that there is none, and
otherwise not at all. -/
theorem gauge_step (m : Machine ν σ) :
    m.step.2.gauge = if m.isFruitful then m.gauge.after m.glance else m.gauge := by
  have hgauge := m.gauge_ready
  cases hready : m.ready.1 with
  | error e =>
    have hfruitless : m.isFruitful = false := by rw [isFruitful, step_of_refused hready]
    rw [hfruitless, if_neg Bool.false_ne_true, step_of_refused hready]
    exact hgauge
  | ok =>
    set m₂ : Machine ν σ := (m.ready.2.enter .fetching).fetch.2 with hm₂
    have hgauge₂ : m₂.gauge = m.gauge := by
      rw [← hgauge, ← gauge_enter m.ready.2 .fetching]
      exact gauge_record (m.ready.2.enter .fetching) rfl rfl
    have hout₂ : m₂.outside = (m.core.ready.2.fetch m.outside).2 := by
      rw [(core_ready m).1, ← (core_ready m).2]
      rfl
    clear_value m₂
    rw [isFruitful, glance, lookout, step_of_ready hready, ← hm₂, ← hout₂]
    rcases m.answer with e | page
    · exact (gauge_giveUp m₂ e).trans hgauge₂
    · rw [heed]
      dsimp only
      set m₃ : Machine ν σ := { m₂ with loop.status.failuresInRow := 0 } with hm₃
      have hgauge₃ : m₃.gauge = m.gauge := hgauge₂
      have hout₃ : m₃.outside = m₂.outside := rfl
      clear_value m₃
      rw [← hgauge₃, ← hout₃]
      cases page with
      | nil =>
        rw [List.isEmpty_nil, if_pos rfl, if_pos rfl]
        exact m₃.gauge_rest
      | cons t page =>
        rw [List.isEmpty_cons, if_neg Bool.false_ne_true]
        obtain ⟨e, houtcome, h⟩ | ⟨summary, regression, houtcome, h⟩ := m₃.gauge_takeIn (t :: page)
        · rw [houtcome]
          exact h
        · rw [houtcome]
          exact h

/-! ## A round -/

/-- The next round asks the ledger for its head. -/
def asksHead (m : Machine ν σ) : Bool := m.written.any (·.isHeadQuestion)

/-- The sample that the next round records: it asks for the head, and is told it. -/
def sighting? (m : Machine ν σ) : Option Sighting :=
  if m.asksHead then m.glance.sighting? else none

/-- The samples that some rounds record, in order. -/
def sightings (rounds : List (Machine ν σ)) : List Sighting := rounds.filterMap (·.sighting?)

theorem sightings_cons (m : Machine ν σ) (rounds : List (Machine ν σ)) :
    sightings (m :: rounds) = m.sighting?.toList ++ sightings rounds := by
  rw [sightings, List.filterMap_cons]
  cases m.sighting? <;> rfl

/-- How a round follows the progress, after some samples have been recorded. -/
structure Follows (interval : Nat) (earlier : List Sighting) (n : Machine ν σ) : Prop where
  /-- it asks for the head if it stores a page or finds that there is none, and no sample has been
  recorded yet or the last one is old enough -/
  asks_iff : n.asksHead ↔
    n.isFruitful ∧ ∀ s ∈ earlier.getLast?, interval ≤ n.glance.time - s.time
  once : n.written.countP (·.isHeadQuestion) ≤ 1
  /-- a sample tells where the cursor is when the page is stored, if there is a cursor -/
  checkpoint : ∀ s ∈ n.sighting?, s.checkpoint = (n.step.2.loop.cursor.map (·.checkpoint)).getD 0
  recorded : n.step.2.loop.estimator.previous =
    (earlier ++ n.sighting?.toList).getLast?.map (·.toSample)
  /-- the first sample is not reported, and each later one is -/
  reports : n.written.filterMap (·.report?) =
    match earlier.getLast?, n.sighting? with
    | some before, some s => [s.reportAfter before.toSample]
    | _, _ => []

/-- What a round writes is what it moves the gauge by. -/
theorem gauge_written (m : Machine ν σ) :
    m.step.2.gauge.asked = m.gauge.asked + m.written.countP (·.isHeadQuestion) ∧
      m.step.2.gauge.reports = m.gauge.reports ++ m.written.filterMap (·.report?) := by
  rw [gauge, m.written_step.1, List.countP_append, List.filterMap_append]
  exact ⟨rfl, rfl⟩

theorem asksHead_iff {m : Machine ν σ} :
    m.asksHead ↔ 0 < m.written.countP (·.isHeadQuestion) := by
  rw [asksHead, List.any_eq_true, List.countP_pos_iff]

theorem checkpoint_of_sighting? {m : Machine ν σ} {s : Sighting} (h : m.sighting? = some s) :
    s.checkpoint = (m.step.2.loop.cursor.map (·.checkpoint)).getD 0 := by
  rw [sighting?] at h
  split at h
  · rw [glance, glanceAt, Glance.sighting?] at h
    split at h <;> cases h
    rw [Loop.checkpoint]
    cases m.step.2.loop.cursor <;> rfl
  · cases h

section Following

variable {interval : Nat} {earlier : List Sighting} {m : Machine ν σ}

/-- A round that does not move the gauge does not ask. -/
theorem follows_of_still (hprevious : m.loop.estimator.previous = earlier.getLast?.map (·.toSample))
    (hstill : m.step.2.gauge = m.gauge)
    (hnot : ¬ (m.isFruitful ∧ ∀ s ∈ earlier.getLast?, interval ≤ m.glance.time - s.time)) :
    Follows interval earlier m := by
  obtain ⟨hasked, hreports⟩ := m.gauge_written
  rw [hstill] at hasked hreports
  have hestimator : m.step.2.loop.estimator = m.loop.estimator := congrArg Gauge.estimator hstill
  have hcount : m.written.countP (·.isHeadQuestion) = 0 := by omega
  have hasks : ¬ m.asksHead := by
    rw [asksHead_iff]
    omega
  have hsighting : m.sighting? = none := if_neg hasks
  constructor
  case asks_iff => exact ⟨fun h => absurd h hasks, fun h => absurd h hnot⟩
  case once => omega
  case checkpoint => exact fun s hs => checkpoint_of_sighting? hs
  case recorded => rw [hestimator, hprevious, hsighting, Option.toList_none, List.append_nil]
  case reports =>
    rw [List.self_eq_append_right.1 hreports, hsighting]
    cases earlier.getLast? <;> rfl

/-- A round that asks records a sample if the ledger tells its head, and reports it if it is not the
first. -/
theorem follows_of_due (hprevious : m.loop.estimator.previous = earlier.getLast?.map (·.toSample))
    (hfruitful : m.isFruitful) (hdue : m.gauge.estimator.isDue m.glance.time)
    (htime : ∀ s ∈ earlier.getLast?, interval ≤ m.glance.time - s.time) :
    Follows interval earlier m := by
  obtain ⟨hasked, hreports⟩ := m.gauge_written
  have hgauge := m.gauge_step
  rw [if_pos hfruitful] at hgauge
  have hcount : m.written.countP (·.isHeadQuestion) = 1 := by
    rw [hgauge, Gauge.asked_after hdue] at hasked
    exact (Nat.add_left_cancel hasked).symm
  have hasks : m.asksHead := by
    rw [asksHead_iff]
    omega
  have hsighting : m.sighting? = m.glance.sighting? := if_pos hasks
  constructor
  case asks_iff => exact ⟨fun _ => ⟨hfruitful, htime⟩, fun _ => hasks⟩
  case once => omega
  case checkpoint => exact fun s hs => checkpoint_of_sighting? hs
  case recorded =>
    rw [hsighting, show m.step.2.loop.estimator = m.step.2.gauge.estimator from rfl, hgauge]
    cases hs : m.glance.sighting? with
    | none =>
      rw [Gauge.after_of_none hdue hs, Option.toList_none, List.append_nil]
      exact hprevious
    | some s =>
      rw [Gauge.after_of_some hdue hs, Option.toList_some, List.getLast?_concat]
      rfl
  case reports =>
    rw [hgauge] at hreports
    rw [hsighting]
    cases hs : m.glance.sighting? with
    | none =>
      rw [Gauge.after_of_none hdue hs] at hreports
      rw [List.self_eq_append_right.1 hreports]
      cases earlier.getLast? <;> rfl
    | some s =>
      rw [Gauge.after_of_some hdue hs] at hreports
      rw [← List.append_cancel_left hreports, show m.gauge.estimator = m.loop.estimator from rfl,
        hprevious]
      cases earlier.getLast? <;> rfl

/-- **A round follows the progress** if its estimator has the last sample. -/
theorem follows_step (hinterval : m.loop.estimator.interval = interval)
    (hprevious : m.loop.estimator.previous = earlier.getLast?.map (·.toSample)) :
    Follows interval earlier m := by
  have hdue : m.gauge.estimator.isDue m.glance.time ↔
      ∀ s ∈ earlier.getLast?, interval ≤ m.glance.time - s.time := by
    rw [Estimator.isDue_iff, show m.gauge.estimator = m.loop.estimator from rfl, hprevious,
      hinterval]
    cases earlier.getLast? <;> simp
  by_cases hlooks : m.isFruitful ∧ m.gauge.estimator.isDue m.glance.time
  · exact follows_of_due hprevious hlooks.1 hlooks.2 (hdue.1 hlooks.2)
  · refine follows_of_still hprevious ?_ (by rwa [hdue] at hlooks)
    rw [gauge_step]
    split
    · rename_i hfruitful
      exact Gauge.after_of_not_due fun htime => hlooks ⟨hfruitful, htime⟩
    · rfl

end Following

/-! ## Run after run -/

theorem interval_step (m : Machine ν σ) :
    m.step.2.loop.estimator.interval = m.loop.estimator.interval := by
  change m.step.2.gauge.estimator.interval = m.gauge.estimator.interval
  rw [gauge_step, Gauge.after]
  split
  · split
    · split <;> rfl
    · rfl
  · rfl

/-- Whatever happens, each round follows the progress, and the last sample is kept. -/
theorem follows_live {interval : Nat} (earlier : List Sighting) {m : Machine ν σ}
    (hinterval : m.loop.estimator.interval = interval)
    (hprevious : m.loop.estimator.previous = earlier.getLast?.map (·.toSample))
    (hs : List (Happening ν σ)) :
    (∀ before n after, m.begun hs = before ++ n :: after →
      Follows interval (earlier ++ sightings before) n) ∧
    (m.live hs).loop.estimator.previous =
      (earlier ++ sightings (m.begun hs)).getLast?.map (·.toSample) := by
  induction hs generalizing m earlier with
  | nil =>
    refine ⟨fun before n after h => by simp [begun] at h, ?_⟩
    rw [begun, sightings, List.filterMap_nil, List.append_nil]
    exact hprevious
  | cons happening hs ih =>
    cases happening with
    | round =>
      have hm : Follows interval earlier m := follows_step hinterval hprevious
      obtain ⟨hrest, hlast⟩ := ih _ (m.interval_step.trans hinterval) hm.recorded
      have hsightings (rounds : List (Machine ν σ)) :
          earlier ++ sightings (m :: rounds) =
            earlier ++ m.sighting?.toList ++ sightings rounds := by
        rw [sightings_cons, List.append_assoc]
      have hbegun : m.begun (.round :: hs) = m :: m.step.2.begun hs := rfl
      refine ⟨fun before n after h => ?_, ?_⟩
      · rw [hbegun] at h
        cases before with
        | nil =>
          obtain rfl : m = n := List.head_eq_of_cons_eq h
          rw [sightings, List.filterMap_nil, List.append_nil]
          exact hm
        | cons first before =>
          obtain ⟨hfirst, hafter⟩ := List.cons_eq_cons.1 h
          rw [← hfirst, hsightings]
          exact hrest before n after hafter
      · rw [hbegun, hsightings]
        exact hlast
    | outside w => exact ih earlier (m := { m with outside := w }) hinterval hprevious
    | store s => exact ih earlier (m := { m with store := s }) hinterval hprevious
    | subscribers a =>
      exact ih earlier (m := { m with registry := m.registry.map (·.act a.val) }) hinterval
        hprevious

/-- What is reported is what the samples tell, each after the one before it. -/
theorem reports_of_follows {interval : Nat} (earlier : List Sighting)
    {rounds : List (Machine ν σ)} (h : ∀ before n after, rounds = before ++ n :: after →
      Follows interval (earlier ++ sightings before) n) :
    (rounds.flatMap (·.written)).filterMap (·.report?) =
      Sighting.reports (earlier.getLast?.map (·.toSample)) (sightings rounds) := by
  induction rounds generalizing earlier with
  | nil => rfl
  | cons m rounds ih =>
    have hm : Follows interval earlier m := by
      have hm := h [] m rounds rfl
      rwa [sightings, List.filterMap_nil, List.append_nil] at hm
    have hrest := ih (earlier ++ m.sighting?.toList) fun before n after hrounds => by
      have hn := h (m :: before) n after (congrArg (m :: ·) hrounds)
      rwa [sightings_cons, ← List.append_assoc] at hn
    rw [List.flatMap_cons, List.filterMap_append, hm.reports, hrest, sightings_cons]
    cases m.sighting? with
    | none =>
      rw [Option.toList_none, List.append_nil, List.nil_append]
      cases earlier.getLast? <;> rfl
    | some s =>
      rw [Option.toList_some, List.getLast?_concat, List.singleton_append, Sighting.reports]
      cases earlier.getLast? <;> rfl

/-! ## What is shown -/

/-- What publishes no status shows nothing. -/
theorem shows_of_none {a : Activity} (h : a.snapshot? = none) (last : Option Progress) :
    ∀ s ∈ a.snapshot?, s.progress = last := by
  intro s hs
  rw [h] at hs
  exact absurd hs (Option.not_mem_none s)

/-- Each status that is published in a round shows the progress that was reported last. -/
theorem showsReports_written (m : Machine ν σ) : ShowsReports m.loop.status.progress m.written := by
  obtain ⟨-, hwritten⟩ := m.written_step
  obtain ⟨cursor, hready⟩ := m.status_ready
  have hprogress : m.ready.2.loop.status.progress = m.loop.status.progress := by rw [hready]
  have hloading : ShowsReports m.loop.status.progress m.loading ∧ lastReport m.loading = none := by
    rw [loading]
    split
    · exact ⟨trivial, rfl⟩
    · exact ⟨⟨shows_of_none rfl _, fun s hs => by cases hs; exact hprogress, trivial⟩, rfl⟩
  have hasking : ShowsReports m.loop.status.progress m.ready.2.loop.asking ∧
      lastReport m.ready.2.loop.asking = none :=
    ⟨⟨fun s hs => by cases hs; exact hprogress, shows_of_none rfl _, trivial⟩, rfl⟩
  have hbehind (page : List Transaction) :
      ShowsReports m.loop.status.progress (m.ready.2.loop.behind page) ∧
        lastReport (m.ready.2.loop.behind page) = none := by
    refine ⟨showsReports_of_aside (m.ready.2.loop.aside_behind page), ?_⟩
    rw [lastReport, Loop.filterMap_behind fun _ _ => rfl]
    rfl
  have hhanding (last : Option Progress) (b : Batch) : ShowsReports last (handing m.registry b) :=
    showsReports_of_aside (aside_handing m.registry b)
  have hhanded (b : Batch) : lastReport (handing m.registry b) = none := by
    rw [lastReport, filterMap_handing (fun _ => rfl) fun _ => rfl]
    rfl
  have hstoring (s : Status) (b : Batch) (summary : CommitSummary) :
      lastReport [.published s, .committed b, .noticed (.committed summary)] = none := rfl
  have hnotifying (s : Status) : lastReport [.published s] = none := rfl
  -- a status that is published shows what was last reported, if it has that
  have hshows {last : Option Progress} {s : Status} (hs : s.progress = last) :
      ∀ t ∈ (Activity.published s).snapshot?, t.progress = last := by
    rintro t ⟨⟩
    exact hs
  generalize m.written = w, m.step.1 = o, m.step.2.loop.status = s at hwritten ⊢
  cases hwritten with
  | refused => exact ⟨shows_of_none rfl _, trivial⟩
  | failed =>
    simp only [showsReports_append, lastReport_append, hloading, hasking, Option.or_none,
      Option.none_or, true_and]
    exact ⟨shows_of_none rfl _, hshows hprogress, trivial⟩
  | empty _ _ hsampled =>
    have htold := hsampled.told.1
    rw [hprogress] at htold
    simp only [showsReports_append, lastReport_append, hloading, hasking, Option.or_none,
      Option.none_or, true_and]
    exact ⟨showsReports_of_aside hsampled.aside, hshows htold, trivial⟩
  | rejected =>
    simp only [showsReports_append, lastReport_append, hloading, hasking, hbehind, Option.or_none,
      Option.none_or, true_and]
    exact ⟨hshows hprogress, shows_of_none rfl _, hshows hprogress, trivial⟩
  | stored _ _ _ _ hsampled hcounted =>
    have htold := hsampled.told.1
    rw [hprogress] at htold
    simp only [showsReports_append, lastReport_append, hloading, hasking, hbehind, hhanding,
      hhanded, hstoring, hnotifying, Option.or_none, Option.none_or, true_and, and_true]
    rw [hcounted]
    refine ⟨⟨⟨?_, ?_⟩, ?_⟩, ?_⟩
    · exact ⟨hshows hprogress, shows_of_none rfl _, shows_of_none rfl _, trivial⟩
    · exact showsReports_of_aside hsampled.aside
    · exact ⟨hshows htold, trivial⟩
    · exact ⟨hshows htold, trivial⟩

/-- The progress that was reported last is what the status shows, and what the estimator tells. -/
structure Reporting (m : Machine ν σ) : Prop where
  published : ShowsReports none m.log
  status : m.loop.status.progress = lastReport m.log
  estimator : m.loop.estimator.last = lastReport m.log

theorem Reporting.step {m : Machine ν σ} (h : Reporting m) : Reporting m.step.2 := by
  obtain ⟨-, hprogress, -⟩ := m.told_written
  constructor
  case published =>
    rw [m.written_step.1, showsReports_append, Option.or_none, ← h.status]
    exact ⟨h.published, m.showsReports_written⟩
  case status => rw [hprogress, h.status, m.written_step.1, lastReport_append]
  case estimator =>
    have hkept : m.gauge.estimator.last = m.gauge.reports.getLast? := h.estimator
    change m.step.2.gauge.estimator.last = m.step.2.gauge.reports.getLast?
    rw [gauge_step]
    split
    · exact Gauge.last_after hkept
    · exact hkept

theorem Reporting.live {m : Machine ν σ} (h : Reporting m) (hs : List (Happening ν σ)) :
    Reporting (m.live hs) := by
  induction hs generalizing m with
  | nil => exact h
  | cons happening hs ih =>
    cases happening with
    | round => exact ih h.step
    | outside w => exact ih (m := { m with outside := w }) ⟨h.published, h.status, h.estimator⟩
    | store s => exact ih (m := { m with store := s }) ⟨h.published, h.status, h.estimator⟩
    | subscribers a =>
      exact ih (m := { m with registry := m.registry.map (·.act a.val) })
        ⟨h.published, h.status, h.estimator⟩

/-! ## The cadence -/

/-- How a machine with this configuration has followed the progress in its rounds. -/
structure Cadence (config : Config) (rounds : List (Machine ν σ)) (m : Machine ν σ) : Prop where
  /-- the interval counts from the last sample, whatever was asked since then -/
  follows (before : List (Machine ν σ)) (n : Machine ν σ) (after : List (Machine ν σ)) :
    rounds = before ++ n :: after →
      Follows (config.progressInterval * Nat.pow 10 9) (sightings before) n
  recorded : m.loop.estimator.previous = (sightings rounds).getLast?.map (·.toSample)
  reports : m.log.filterMap (·.report?) = Sighting.reports none (sightings rounds)
  /-- at all times the status shows what was last reported -/
  published (before : List Activity) (s : Status) (after : List Activity) :
    m.log = before ++ .published s :: after → s.progress = lastReport before
  status : m.loop.status.progress = lastReport m.log
  estimator : m.loop.estimator.last = lastReport m.log

/-- **The head of the ledger is looked at in time.**  Whatever happens to a new machine and whatever
its clock shows, a round asks for the head exactly if it stores a page or finds that there is none,
and no sample has been recorded yet or the last one is old enough.  Only a head that is told makes a
sample, at the checkpoint of the cursor that the round leaves.  The first sample is not reported,
each later one is reported once, and the status always shows what was last reported. -/
theorem cadence_live (config : Config) (w : ν) (s : σ) (registry : Option Registry)
    (hs : List (Happening ν σ)) :
    let m : Machine ν σ := .new config w s registry
    Cadence config (m.begun hs) (m.live hs) := by
  intro m
  obtain ⟨hfollows, hrecorded⟩ := follows_live [] (m := m) rfl rfl hs
  have hreporting : Reporting (m.live hs) := (Reporting.mk trivial rfl rfl : Reporting m).live hs
  refine ⟨hfollows, hrecorded, ?_, fun before s after hlog => ?_, hreporting.status,
    hreporting.estimator⟩
  · rw [log_live]
    exact reports_of_follows [] hfollows
  · have hpublished := hreporting.published
    rw [hlog] at hpublished
    rw [hpublished.progress, Option.or_none]

end Rounds

end Machine

/-! ### A clock that goes back -/

/-- A round in a world of its own, where the clock shows some seconds. -/
def roundAt (seconds : Nat) (page : Except Error (List Transaction)) (head : Except Error UInt64) :
    List (Happening Scripted.LedgerScript (Unreliable Memory)) :=
  [.outside ⟨[⟨page, none⟩], [head], false, false, false, seconds * Nat.pow 10 9, 0⟩, .round]

/-- Rounds with a head that is not told, the base line, a clock that goes back, a page that the
store refuses, the interval just over with a head that is not told, no page, and the interval over
with a head. -/
def fitful : List (Happening Scripted.LedgerScript (Unreliable Memory)) :=
  roundAt 5 (.ok []) (.error (.rpc "no head")) ++ roundAt 6 (.ok [bare "a" 7]) (.ok 40) ++
    roundAt 2 (.ok []) (.ok 41) ++ roundAt 20 (.ok [bare "b" 8]) (.ok 42) ++
    roundAt 16 (.ok [bare "b" 8]) (.error (.rpc "no head")) ++
    roundAt 20 (.error (.rpc "no answer")) (.ok 44) ++ roundAt 17 (.ok []) (.ok 45)

/-- The machine to which this happens.  Its store refuses the second page. -/
def watchful : Machine Scripted.LedgerScript (Unreliable Memory) :=
  .new Config.usual ⟨[], [], false, false, false, 0, 0⟩ ⟨.empty, false, [2], 0⟩ none

theorem cadence_live_fitful :
    Machine.Cadence Config.usual (watchful.begun fitful) (watchful.live fitful) ∧
      (watchful.begun fitful).map (·.asksHead) = [true, true, false, false, true, false, true] ∧
      (Machine.sightings (watchful.begun fitful)).map
        (fun s => (s.time / Nat.pow 10 9, s.checkpoint, s.head)) = [(6, 7, 40), (17, 8, 45)] ∧
      ((watchful.live fitful).log.filterMap (·.report?)).map (fun p => (p.current, p.head)) =
        [(8, 45)] :=
  ⟨Machine.cadence_live Config.usual watchful.outside watchful.store none fitful, by decide +kernel,
    by decide +kernel, by decide +kernel⟩

end Sync

end LedgerIndex
