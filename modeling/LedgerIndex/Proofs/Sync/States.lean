import LedgerIndex.Proofs.Sync.Ending

/-!
# What a machine is seen doing

Each status that is published says what the machine is doing.  A round goes a lap from idle to idle,
in one of three ways (`Lap`), and shows a state only when what comes before it is done
(`Machine.orderly`).  So a run is one lap after the other, and then the machine stops
(`Machine.paced_run`).
-/

namespace LedgerIndex.Sync

variable {ν σ : Type}

/-! ## Laps -/

/-- The states that were published, in order. -/
def states (log : List Activity) : List State := (snapshots log).map (·.state)

@[simp] theorem states_append (log log' : List Activity) :
    states (log ++ log') = states log ++ states log' := by
  rw [states, snapshots_append, List.map_append]
  rfl

theorem states_of_aside {as : List Activity} (h : ∀ a ∈ as, a.isAside) : states as = [] := by
  rw [states, snapshots_of_aside h]
  rfl

/-- The ways through a round. -/
inductive Lap where
  /-- there is nothing to store -/
  | short
  /-- the page is not stored -/
  | broken
  /-- the page is stored -/
  | full
  deriving DecidableEq, Repr

/-- The states on the way. -/
def Lap.states : Lap → List State
  | short => [.fetching, .idle]
  | broken => [.fetching, .reconciling, .idle]
  | full => [.fetching, .reconciling, .notifying, .idle]

/-- The states at the end of a run. -/
def closing : Option (Except Error Unit) → List State
  | none => []
  | some _ => [.stopping, .stopped]

/-- The cursor is there once the store has told it. -/
theorem Core.isLoaded_ready [CommitStore σ] (c : Core σ) :
    (c.ready.1 = .ok () → c.ready.2.isLoaded) ∧
      ∀ e, c.ready.1 = .error e → c.ready.2.isLoaded = c.isLoaded := by
  rw [ready]
  split
  · exact ⟨fun _ => ‹_›, fun e he => by cases he⟩
  · rcases CommitStore.loadCursor c.config.id c.store with ⟨_ | _, _⟩
    · exact ⟨(fun h => by cases h), fun _ _ => rfl⟩
    · exact ⟨fun _ => rfl, fun e he => by cases he⟩

namespace Machine

theorem states_farewell (s : Status) (ending : Option (Except Error Unit)) :
    states (farewell s ending) = closing ending := by
  cases ending <;> rfl

variable [Ledger ν] [Clock ν] [CommitStore σ]

/-- The way that the next round goes, if the cursor is there. -/
def lap? (m : Machine ν σ) : Option Lap :=
  match m.ready.1, m.step.1 with
  | .error _, _ => none
  | .ok (), .error _ => some .broken
  | .ok (), .ok (.committed ..) => some .full
  | .ok (), .ok _ => some .short

/-- The states before the lap: the cursor is shown when it is there. -/
def leading (m : Machine ν σ) : List State :=
  if m.loop.isLoaded then [] else [.idle]

omit [Ledger ν] [Clock ν] in
theorem snapshots_loading (m : Machine ν σ) (hidle : m.loop.status.state = .idle) :
    ∀ s ∈ snapshots m.loading, s.state = .idle := by
  obtain ⟨cursor, hstatus⟩ := m.status_ready
  rw [loading]
  split
  · exact List.forall_mem_nil _
  · intro s hs
    obtain rfl : s = m.ready.2.loop.status := by simpa [snapshots, Activity.snapshot?] using hs
    rw [hstatus]
    exact hidle

omit [Ledger ν] [Clock ν] in
theorem states_loading (m : Machine ν σ) (hidle : m.loop.status.state = .idle) :
    states m.loading = m.leading := by
  have h := m.snapshots_loading hidle
  rw [leading]
  rw [loading] at h ⊢
  split at h
  · rw [if_pos ‹_›, if_pos ‹_›]
    rfl
  · rw [if_neg ‹_›, if_neg ‹_›]
    exact congrArg (fun s => [s]) (h m.ready.2.loop.status List.mem_cons_self)

/-- A round leaves an idle machine idle, and goes a lap if the cursor is there. -/
theorem states_written (m : Machine ν σ) (hidle : m.loop.status.state = .idle) :
    m.step.2.loop.status.state = .idle ∧
      states m.written = match m.lap? with
        | none => []
        | some lap => m.leading ++ lap.states := by
  obtain ⟨-, hwritten⟩ := m.written_step
  have hloading := m.states_loading hidle
  have hasking (l : Loop) : states l.asking = [.fetching] := rfl
  have hbehind (l : Loop) (page : List Transaction) := states_of_aside (l.aside_behind page)
  have hhanding (b : Batch) := states_of_aside (aside_handing m.registry b)
  rw [lap?]
  generalize m.written = w, m.step.1 = outcome, m.step.2.loop.status = s at hwritten ⊢
  cases hwritten with
  | refused hr =>
    rw [hr]
    exact ⟨hidle, rfl⟩
  | failed hr =>
    refine ⟨rfl, ?_⟩
    rw [hr]
    simp only [states_append, hloading, hasking, List.append_assoc]
    rfl
  | empty hr _ hsampled =>
    refine ⟨rfl, ?_⟩
    rw [hr]
    simp only [states_append, hloading, hasking, states_of_aside hsampled.aside, List.append_assoc]
    rfl
  | rejected hr =>
    refine ⟨rfl, ?_⟩
    rw [hr]
    simp only [states_append, hloading, hasking, hbehind, List.append_assoc]
    rfl
  | stored hr _ _ _ hsampled =>
    refine ⟨rfl, ?_⟩
    rw [hr]
    simp only [states_append, hloading, hasking, hbehind, states_of_aside hsampled.aside, hhanding,
      List.append_assoc]
    rfl

/-! ## In time -/

/-- A status is shown when what it tells is so. -/
inductive Timely (m : Machine ν σ) (before : List Activity) (s : Status) : Prop
  | idle : s.state = .idle → Timely m before s
  | fetching : s.state = .fetching → Timely m before s
  /-- a page was fetched that is not empty -/
  | reconciling {filter : ObjectFilter} {after : Option String} {limit : Nat}
      {page : List Transaction} : s.state = .reconciling → .fetched filter after limit ∈ before →
      m.answer = .ok page → page ≠ [] → Timely m before s
  /-- the store has taken the page in, and the cursor is at its end -/
  | notifying {page : List Transaction} {stamp : Int} {summary : CommitSummary} {t : Transaction} :
      s.state = .notifying → m.answer = .ok page →
      .committed (m.loop.config.batchOf stamp page) ∈ before →
      (m.core.ready.2.commit stamp page).1 = .ok summary →
      .noticed (.committed summary) ∈ before →
      page.getLast? = some t → s.cursor = some ⟨t.digest, t.checkpoint⟩ → Timely m before s

omit [Ledger ν] [Clock ν] [CommitStore σ] in
/-- What is written is in the first part, or after all of it. -/
theorem mem_or_exists_append {front back before after : List Activity} {a : Activity}
    (h : front ++ back = before ++ a :: after) :
    a ∈ front ∨ ∃ between, before = front ++ between ∧ back = between ++ a :: after := by
  obtain ⟨between, hbefore, hback⟩ | ⟨between, hfront, hback⟩ := List.append_eq_append_iff.1 h
  · exact .inr ⟨between, hbefore, hback⟩
  · cases between with
    | nil => exact .inr ⟨[], by simpa using hfront.symm, hback.symm⟩
    | cons b between =>
      obtain rfl : a = b := List.head_eq_of_cons_eq hback
      exact .inl (by simp [hfront])

/-- A round shows nothing before its time. -/
theorem timely_written (m : Machine ν σ) (hidle : m.loop.status.state = .idle)
    {before after : List Activity} {s : Status}
    (h : m.written = before ++ .published s :: after) : Timely m before s := by
  obtain ⟨-, hwritten⟩ := m.written_step
  generalize m.written = w, m.step.1 = outcome, m.step.2.loop.status = s' at hwritten h
  -- until the page comes, nothing but idle and fetching is shown
  have hasked : .published s ∈ m.loading ++ m.ready.2.loop.asking → Timely m before s := by
    intro hs
    obtain hs | hs := List.mem_append.1 hs
    · exact .idle (m.snapshots_loading hidle s (mem_snapshots.2 hs))
    · obtain rfl : s = m.ready.2.loop.status.turnedTo .fetching := by simpa [Loop.asking] using hs
      exact .fetching rfl
  have hquestion : .fetched m.ready.2.loop.filter m.ready.2.loop.after
      m.ready.2.loop.config.pageSize ∈ m.loading ++ m.ready.2.loop.asking := by simp [Loop.asking]
  have hmem {log between : List Activity} (hlog : log = between ++ .published s :: after) :
      .published s ∈ log := by simp [hlog]
  have haside {log : List Activity} (hlog : ∀ a ∈ log, a.isAside) : .published s ∉ log :=
    fun hs => nomatch hlog _ hs
  cases hwritten with
  | refused => cases List.mem_singleton.1 (hmem h)
  | failed =>
    obtain hs | ⟨between, -, hback⟩ := mem_or_exists_append h
    · exact hasked hs
    · obtain rfl : s = m.ready.2.loop.status.failedOnce.turnedTo .idle := by simpa using hmem hback
      exact .idle rfl
  | @empty sampled progress _ _ hsampled =>
    rw [List.append_assoc] at h
    obtain hs | ⟨between, -, hback⟩ := mem_or_exists_append h
    · exact hasked hs
    · obtain rfl : s = (m.ready.2.loop.status.fetched.atHead progress).turnedTo .idle := by
        simpa [haside hsampled.aside] using hmem hback
      exact .idle rfl
  | @rejected page stamp e _ ha hpage =>
    rw [List.append_assoc] at h
    obtain hs | ⟨between, hbefore, hback⟩ := mem_or_exists_append h
    · exact hasked hs
    · have hs := hmem hback
      simp only [List.mem_append, haside (m.ready.2.loop.aside_behind page), List.mem_cons,
        Activity.published.injEq, reduceCtorEq, List.not_mem_nil, false_or, or_false] at hs
      obtain rfl | rfl := hs
      · exact .reconciling rfl (hbefore ▸ List.mem_append_left _ hquestion) ha hpage
      · exact .idle rfl
  | @stored page stamp summary _ sampled progress counted _ ha hpage hcommit hsampled hcounted =>
    set storing : List Activity := m.ready.2.loop.behind page ++
      [.published (m.ready.2.loop.status.fetched.turnedTo .reconciling),
        .committed (m.loop.config.batchOf stamp page), .noticed (.committed summary)] with hstoring
    set telling : List Activity := sampled ++ [.published (counted.turnedTo .notifying)] ++
      handing m.registry (m.loop.config.batchOf stamp page) ++ [.published (counted.turnedTo .idle)]
      with htelling
    have hsplit : m.loading ++ m.ready.2.loop.asking ++ (storing ++ telling) =
        before ++ .published s :: after := by
      rw [← h, hstoring, htelling]
      simp only [List.append_assoc]
    obtain hs | ⟨between, hbefore, hback⟩ := mem_or_exists_append hsplit
    · exact hasked hs
    · obtain hs | ⟨between', hbetween, hback'⟩ := mem_or_exists_append hback
      · obtain rfl : s = m.ready.2.loop.status.fetched.turnedTo .reconciling := by
          simpa [hstoring, haside (m.ready.2.loop.aside_behind page)] using hs
        exact .reconciling rfl (hbefore ▸ List.mem_append_left _ hquestion) ha hpage
      · -- the page has been stored and counted
        have hstored : storing ⊆ before := by
          rw [hbefore, hbetween]
          exact fun a ha => List.mem_append_right _ (List.mem_append_left _ ha)
        have hs := hmem hback'
        simp only [htelling, List.mem_append, haside hsampled.aside,
          haside (aside_handing m.registry _), List.mem_singleton, Activity.published.injEq,
          false_or, or_false] at hs
        obtain rfl | rfl := hs
        · refine .notifying rfl ha (hstored (by simp [hstoring])) hcommit
            (hstored (by simp [hstoring])) (List.getLast?_eq_some_getLast hpage) ?_
          rw [hcounted]
          simp [Status.turnedTo, Status.counted, endOf, List.getLast?_eq_some_getLast hpage]
        · exact .idle rfl

/-- The cursor is shown once. -/
theorem leading_step (m : Machine ν σ) :
    m.step.2.leading = if m.lap?.isSome then [] else m.leading := by
  have hround := m.round
  obtain ⟨hloaded, hunloaded⟩ := m.core.isLoaded_ready
  have hready : m.ready.1 = m.core.ready.1 := by rw [m.core_ready.1]
  have hleading (n : Machine ν σ) : n.leading = if n.core.isLoaded then [] else [.idle] := rfl
  rw [lap?, hready, hleading, hleading m]
  generalize m.step.2.core = c', m.step.1 = outcome, m.step.2.outside = w at hround ⊢
  cases hround with
  | refused h =>
    rw [h] at hunloaded ⊢
    rw [hunloaded _ rfl]
    rfl
  | failed h | empty h | rejected h | stored h =>
    rw [h] at hloaded ⊢
    exact if_pos (hloaded rfl)

/-- Lap after lap. -/
theorem states_begun (m : Machine ν σ) (hidle : m.loop.status.state = .idle)
    (hs : List (Happening ν σ)) :
    ∃ lead, (lead = [] ∨ lead = m.leading) ∧
      states ((m.begun hs).flatMap (·.written)) =
        lead ++ ((m.begun hs).filterMap (·.lap?)).flatMap Lap.states := by
  induction hs generalizing m with
  | nil => exact ⟨[], .inl rfl, rfl⟩
  | cons h hs ih =>
    cases h with
    | round =>
      obtain ⟨hidle', hwritten⟩ := m.states_written hidle
      obtain ⟨lead, hlead, hstates⟩ := ih m.step.2 hidle'
      have hleading := m.leading_step
      change ∃ lead, _ ∧ states ((m :: m.step.2.begun hs).flatMap (·.written)) =
        lead ++ ((m :: m.step.2.begun hs).filterMap (·.lap?)).flatMap Lap.states
      rw [List.flatMap_cons, states_append, hstates, hwritten, List.filterMap_cons]
      cases hlap : m.lap? with
      | none =>
        rw [hlap] at hleading
        rw [hleading] at hlead
        exact ⟨lead, hlead, rfl⟩
      | some lap =>
        rw [hlap] at hleading
        obtain rfl : lead = [] := hlead.elim id fun h => h.trans hleading
        exact ⟨m.leading, .inr rfl, List.append_assoc ..⟩
    | outside w => exact ih { m with outside := w } hidle
    | store s => exact ih { m with store := s } hidle
    | subscribers a => exact ih { m with registry := m.registry.map (·.act a.val) } hidle

/-- A machine begins each round idle. -/
theorem idle_of_mem_begun {m n : Machine ν σ} (hidle : m.loop.status.state = .idle)
    {hs : List (Happening ν σ)} (hn : n ∈ m.begun hs) : n.loop.status.state = .idle := by
  induction hs generalizing m with
  | nil => cases hn
  | cons h hs ih =>
    cases h with
    | round =>
      obtain rfl | hn := List.mem_cons.1 (show n ∈ m :: m.step.2.begun hs from hn)
      · exact hidle
      · exact ih (m.states_written hidle).1 hn
    | outside w => exact ih (m := { m with outside := w }) hidle hn
    | store s => exact ih (m := { m with store := s }) hidle hn
    | subscribers a =>
      exact ih (m := { m with registry := m.registry.map (·.act a.val) }) hidle hn

/-! ## A run -/

/-- What the log of a run shows, with its rounds and how it has ended. -/
structure Paced (rounds : List (Machine ν σ)) (ending : Option (Except Error Unit))
    (log : List Activity) : Prop where
  /-- nothing is written but in rounds and at the end -/
  written : ∃ s, log = rounds.flatMap (·.written) ++ farewell s ending
  /-- one lap after the other, and then the end -/
  laps : ∃ lead, (lead = [] ∨ lead = [.idle]) ∧ states log =
    lead ++ (rounds.filterMap (·.lap?)).flatMap Lap.states ++ closing ending
  timely : ∀ n ∈ rounds, ∀ before s after, n.written = before ++ .published s :: after →
    Timely n before s
  /-- no one is asked for anything any more -/
  stopping (before : List Activity) (s : Status) (after : List Activity) :
    log = before ++ .published s :: after → s.state = .stopping →
      ∃ s', s'.state = .stopped ∧ after = [.published s']

/-- **A run is one lap after the other, and then the machine stops.**  The store is seen at work
only when a page is there for it, and the subscribers are told only of a page that is stored and
counted.  Once the machine is seen stopping it does nothing more. -/
theorem paced_run [StopSignal ν] (config : Config) (w : ν) (s : σ) (registry : Option Registry)
    (turns : Nat) :
    let m : Machine ν σ := .new config w s registry
    Paced (m.roundsIn turns) (m.run turns).1 (m.run turns).2.log := by
  intro m
  have hidle : m.loop.status.state = .idle := rfl
  have hlog : (m.run turns).2.log = (m.roundsIn turns).flatMap (·.written) ++
      farewell (m.live (m.happenings turns)).loop.status (m.run turns).1 := m.log_run turns
  have htimely : ∀ n ∈ m.roundsIn turns, ∀ before s after,
      n.written = before ++ .published s :: after → Timely n before s :=
    fun n hn before s after h => n.timely_written (idle_of_mem_begun hidle hn) h
  obtain ⟨lead, hlead, hstates⟩ := m.states_begun hidle (m.happenings turns)
  refine ⟨⟨_, hlog⟩, ⟨lead, hlead, ?_⟩, htimely, fun before s after h hstopping => ?_⟩
  · rw [hlog, states_append, states_farewell]
    exact congrArg (· ++ _) hstates
  · obtain hs | ⟨between, -, hbetween⟩ := mem_or_exists_append (hlog.symm.trans h)
    · -- no round shows that
      obtain ⟨n, hn, hs⟩ := List.mem_flatMap.1 hs
      obtain ⟨before, after, hwritten⟩ := List.append_of_mem hs
      cases htimely n hn before s after hwritten <;> rename s.state = _ => hstate <;>
        cases hstopping.symm.trans hstate
    · cases hending : (m.run turns).1 <;> rw [hending, farewell] at hbetween
      · simp at hbetween
      · obtain _ | ⟨a, _ | ⟨b, between⟩⟩ := between
        · rw [List.nil_append, List.cons.injEq] at hbetween
          exact ⟨_, rfl, hbetween.2.symm⟩
        · simp only [List.cons_append, List.nil_append, List.cons.injEq,
            Activity.published.injEq] at hbetween
          rw [← hbetween.2.1] at hstopping
          cases hstopping
        · simp at hbetween

end Machine

/-! ### A broken lap -/

/-- The run over the ledger that hardly answers goes every kind of lap, the broken one last. -/
theorem paced_run_grudged :
    Machine.Paced ((grudged [2]).roundsIn 9) ((grudged [2]).run 9).1 ((grudged [2]).run 9).2.log ∧
      states ((grudged [2]).run 9).2.log =
        [.idle] ++ Lap.short.states ++ Lap.full.states ++ Lap.short.states ++ Lap.short.states ++
          Lap.broken.states ++ [.stopping, .stopped] :=
  ⟨Machine.paced_run Config.usual grudging (⟨.empty, false, [2], 0⟩ : Unreliable Memory) none 9,
    by decide +kernel⟩

end LedgerIndex.Sync
