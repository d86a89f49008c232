import LedgerIndex.Proofs.Sync.Journal
import LedgerIndex.Sync.Run

/-!
# How a run ends

A run is rounds with pauses between them, and whatever it does to the store is done by whole rounds
(`Machine.run_eq`).  A round ends it only if the store fails, at the question for the cursor or at a
page; whatever the ledger answers, the run goes on.  Otherwise it ends in a pause, when there is a
call to stop or no one is left who could call (`Machine.ending_run`).
-/

namespace LedgerIndex.Sync

variable {ν σ : Type}

/-! ## What the store answers -/

namespace Core

/-- What the store says to the question for the cursor, if it is asked. -/
def loadAnswer? [CommitStore σ] (c : Core σ) : Option (Except Error Unit) :=
  if c.isLoaded then none
  else some ((CommitStore.loadCursor c.config.id c.store).1.map fun _ => ())

variable [Ledger ν] [Clock ν] [CommitStore σ]

/-- What the store says in a round: to the question for the cursor, and to the batch that it is
given. -/
def storeAnswers (c : Core σ) (w : ν) : List (Except Error Unit) :=
  c.loadAnswer?.toList ++ (c.deed w).verdict.toList

omit [Ledger ν] [Clock ν] in
/-- The question for the cursor is not asked, or decides whether the round goes on. -/
theorem loadAnswer?_cases (c : Core σ) :
    c.ready.1 = .ok () ∧ (∀ a ∈ c.loadAnswer?, a = .ok ()) ∨
      ∃ e, c.ready.1 = .error e ∧ c.loadAnswer? = some (.error e) := by
  rw [loadAnswer?, ready]
  split
  · exact .inl ⟨rfl, fun a ha => by cases ha⟩
  · rcases CommitStore.loadCursor c.config.id c.store with ⟨e | found, store⟩
    · exact .inr ⟨e, rfl, rfl⟩
    · exact .inl ⟨rfl, fun a ha => by cases ha; rfl⟩

omit [Ledger ν] [Clock ν] in
/-- A round that has the cursor fails if and only if the store does not take its batch in. -/
theorem react_cases (c : Core σ) (stamp : Int) (answer : Except Error (List Transaction)) :
    (∃ o, (c.react stamp answer).outcome = .ok o) ∧
        (∀ a ∈ (c.react stamp answer).verdict, a = .ok ()) ∨
      ∃ e, (c.react stamp answer).outcome = .error e ∧
        (c.react stamp answer).verdict = some (.error e) := by
  rcases answer with _ | _ | ⟨t, page⟩
  · exact .inl ⟨⟨_, rfl⟩, fun a ha => by cases ha⟩
  · exact .inl ⟨⟨_, rfl⟩, fun a ha => by cases ha⟩
  · obtain ⟨e, store, -, h⟩ | ⟨summary, store, -, h⟩ := c.attempt_cases stamp (t :: page) <;>
      rw [react, h]
    · exact .inr ⟨e, rfl, rfl⟩
    · exact .inl ⟨⟨_, rfl⟩, fun a ha => by cases ha; rfl⟩

/-- A round fails if and only if the store does, and then that is the last that the store says. -/
theorem storeAnswers_cases (c : Core σ) (w : ν) :
    (∃ o, (c.deed w).outcome = .ok o) ∧ (∀ a ∈ c.storeAnswers w, a = .ok ()) ∨
      ∃ e before, (c.deed w).outcome = .error e ∧ c.storeAnswers w = before ++ [Except.error e] ∧
        ∀ a ∈ before, a = .ok () := by
  rw [storeAnswers, deed]
  rcases hready : c.ready with ⟨e | ⟨⟩, c₁⟩ <;>
    obtain ⟨hr, hload⟩ | ⟨e', hr, hload⟩ := c.loadAnswer?_cases <;> rw [hready] at hr <;> cases hr
  · exact .inr ⟨_, [], rfl, by rw [hload]; rfl, List.forall_mem_nil _⟩
  · dsimp only
    generalize (Clock.stamp (c₁.fetch w).2).1 = stamp
    obtain ⟨ho, hv⟩ | ⟨e, ho, hv⟩ := c₁.react_cases stamp (c₁.fetch w).1
    · refine .inl ⟨ho, fun a ha => ?_⟩
      obtain ha | ha := List.mem_append.1 ha
      · exact hload a (Option.mem_toList.1 ha)
      · exact hv a (Option.mem_toList.1 ha)
    · exact .inr ⟨e, c.loadAnswer?.toList, ho, by rw [hv]; rfl,
        fun a ha => hload a (Option.mem_toList.1 ha)⟩

end Core

/-! ## What the store is asked -/

/-- The store is asked for the cursor or given a batch. -/
def Activity.isStoreCall : Activity → Bool
  | loadedCursor | committed _ => true
  | published _ | fetched .. | askedHead | noticed _ | handedOut _ => false

/-- Nothing else is a matter for the store. -/
theorem countP_isStoreCall_of_aside {as : List Activity} (h : ∀ a ∈ as, a.isAside) :
    as.countP (·.isStoreCall) = 0 := by
  refine List.countP_eq_zero.2 fun a ha => ?_
  have := h a ha
  cases a <;> first | exact Bool.false_ne_true | cases this

namespace Machine

section Rounds

variable [Ledger ν] [Clock ν] [CommitStore σ]

/-- A round comes to its end. -/
def Completes (m : Machine ν σ) : Prop := ∃ o, m.step.1 = .ok o

/-- What the store says in some rounds. -/
def storeAnswers (rounds : List (Machine ν σ)) : List (Except Error Unit) :=
  rounds.flatMap fun n => n.core.storeAnswers n.outside

theorem storeAnswers_concat (rounds : List (Machine ν σ)) (n : Machine ν σ) :
    storeAnswers (rounds ++ [n]) = storeAnswers rounds ++ n.core.storeAnswers n.outside := by
  rw [storeAnswers, List.flatMap_append, List.flatMap_singleton]
  rfl

omit [Ledger ν] [Clock ν] in
theorem countP_loading (m : Machine ν σ) :
    m.loading.countP (·.isStoreCall) = m.core.loadAnswer?.toList.length := by
  rw [loading, Core.loadAnswer?]
  by_cases h : m.loop.isLoaded
  · rw [if_pos h, if_pos (show m.core.isLoaded from h)]
    rfl
  · rw [if_neg h, if_neg (show ¬ m.core.isLoaded from h)]
    rfl

/-- The store has a say when there is a page. -/
theorem verdict_deed (m : Machine ν σ) :
    (m.core.deed m.outside).verdict =
      match m.ready.1, m.answer with
      | .ok (), .ok (_ :: _) => some (m.step.1.map fun _ => ())
      | _, _ => none := by
  rw [m.deed_step.outcome, answer_eq, Core.deed]
  rcases hr : m.ready with ⟨_ | ⟨⟩, m₁⟩ <;> rw [m.core_ready.1, hr]
  dsimp only
  rcases (m₁.core.fetch m.outside).1 with _ | _ | ⟨t, page⟩
  · rfl
  · rfl
  · generalize (Clock.stamp (m₁.core.fetch m.outside).2).1 = stamp
    obtain ⟨e, store, -, h⟩ | ⟨summary, store, -, h⟩ := m₁.core.attempt_cases stamp (t :: page) <;>
      rw [Core.react, h] <;> rfl

/-- The store answers every question. -/
theorem countP_written (m : Machine ν σ) :
    m.written.countP (·.isStoreCall) = (m.core.storeAnswers m.outside).length := by
  have hloading := m.countP_loading
  have hverdict := m.verdict_deed
  have hasking (l : Loop) : l.asking.countP (·.isStoreCall) = 0 := rfl
  have hbehind (l : Loop) (page : List Transaction) :=
    countP_isStoreCall_of_aside (l.aside_behind page)
  have hhanding (b : Batch) := countP_isStoreCall_of_aside (aside_handing m.registry b)
  obtain ⟨-, hwritten⟩ := m.written_step
  rw [Core.storeAnswers, List.length_append, ← hloading]
  generalize m.written = w, m.step.1 = outcome, m.step.2.loop.status = s at hwritten hverdict ⊢
  cases hwritten with
  | refused hr =>
    have hunloaded : ¬ m.loop.isLoaded := fun h => by rw [ready_of_isLoaded h] at hr; cases hr
    rw [hverdict, hr, loading, if_neg hunloaded]
    rfl
  | failed hr ha =>
    simp only [hverdict, hr, ha, List.countP_append, hasking]
    rfl
  | empty hr ha hsampled =>
    simp only [hverdict, hr, ha, List.countP_append, hasking,
      countP_isStoreCall_of_aside hsampled.aside]
    rfl
  | @rejected page _ _ hr ha hpage =>
    obtain ⟨t, page, rfl⟩ := List.exists_cons_of_ne_nil hpage
    simp only [hverdict, hr, ha, List.countP_append, hasking, hbehind]
    rfl
  | @stored page _ _ _ _ _ _ hr ha hpage _ hsampled =>
    obtain ⟨t, page, rfl⟩ := List.exists_cons_of_ne_nil hpage
    simp only [hverdict, hr, ha, List.countP_append, hasking, hbehind, hhanding,
      countP_isStoreCall_of_aside hsampled.aside]
    rfl

/-- A round that comes to its end is one in which the store takes all that it is given. -/
theorem storeAnswers_of_completes {n : Machine ν σ} (h : n.Completes) :
    ∀ a ∈ n.core.storeAnswers n.outside, a = .ok () := by
  obtain ⟨o, ho⟩ := h
  rw [n.deed_step.outcome] at ho
  obtain ⟨-, h⟩ | ⟨e, _, he, -⟩ := n.core.storeAnswers_cases n.outside
  · exact h
  · rw [ho] at he
    cases he

theorem storeAnswers_of_error {n : Machine ν σ} {e : Error} (h : n.step.1 = .error e) :
    ∃ earlier, n.core.storeAnswers n.outside = earlier ++ [Except.error e] ∧
      ∀ a ∈ earlier, a = .ok () := by
  rw [n.deed_step.outcome] at h
  obtain ⟨⟨o, ho⟩, -⟩ | ⟨e', earlier, he, hlast, hearlier⟩ := n.core.storeAnswers_cases n.outside
  · rw [ho] at h
    cases h
  · obtain rfl : e' = e := by simpa [he] using h
    exact ⟨earlier, hlast, hearlier⟩

theorem storeAnswers_of_forall_completes {rounds : List (Machine ν σ)}
    (h : ∀ n ∈ rounds, n.Completes) : ∀ a ∈ storeAnswers rounds, a = .ok () := by
  intro a ha
  obtain ⟨n, hn, ha⟩ := List.mem_flatMap.1 ha
  exact storeAnswers_of_completes (h n hn) a ha

/-- After the call that fails nothing but the status is written. -/
theorem exists_last_call {n : Machine ν σ} {e : Error} (h : n.step.1 = .error e) :
    ∃ (before : List Activity) (call : Activity) (after : List Activity),
      n.written = before ++ call :: after ∧ call.isStoreCall ∧
      ∀ a ∈ after, ∃ s, a = .published s := by
  obtain ⟨-, hwritten⟩ := n.written_step
  rw [h] at hwritten
  generalize n.written = w, n.step.2.loop.status = s at hwritten ⊢
  cases hwritten with
  | refused => exact ⟨[], _, [], rfl, rfl, List.forall_mem_nil _⟩
  | @rejected page stamp =>
    exact ⟨n.loading ++ n.ready.2.loop.asking ++ n.ready.2.loop.behind page ++
        [.published (n.ready.2.loop.status.fetched.turnedTo .reconciling)],
      .committed (n.loop.config.batchOf stamp page),
      [.published (n.ready.2.loop.status.fetched.turnedTo .idle)], by simp, rfl, by simp⟩

end Rounds

end Machine

/-! ## What happens in a run -/

namespace Machine

section Turns

variable [StopSignal ν]

/-- What happens in a turn: a pause, and a round if the pause is over in time. -/
def happeningsIn (m : Machine ν σ) : List (Happening ν σ) :=
  if m.isCalledToStop then []
  else
    match StopSignal.pause m.loop.config.pollInterval m.outside with
    | (.elapsed, w) => [.outside w, .round]
    | (_, w) => [.outside w]

/-- The machine is called to stop in a turn, or no one is left who could call. -/
def isDismissed (m : Machine ν σ) : Bool :=
  m.isCalledToStop ||
    match StopSignal.pause m.loop.config.pollInterval m.outside with
    | (.abandoned, _) => true
    | (.signalled, w) => StopSignal.isRaised w
    | (.elapsed, _) => false

variable [Ledger ν] [Clock ν] [CommitStore σ]

/-- What happens in a run of at most so many turns. -/
def happenings : Nat → Machine ν σ → List (Happening ν σ)
  | 0, _ => []
  | turns + 1, m =>
    m.happeningsIn ++
      match m.turn with
      | (some _, _) => []
      | (none, m) => happenings turns m

/-- The machine at the beginning of each round of such a run. -/
def roundsIn (turns : Nat) (m : Machine ν σ) : List (Machine ν σ) := m.begun (m.happenings turns)

/-- The machine is called to stop in one of so many turns. -/
def isDismissedIn : Nat → Machine ν σ → Bool
  | 0, _ => false
  | turns + 1, m =>
    m.isDismissed ||
      match m.turn with
      | (some _, _) => false
      | (none, m) => isDismissedIn turns m

/-- How a turn or a run ends after some rounds, if it does, with a call to stop or without. -/
inductive Ended : Bool → List (Machine ν σ) → Option (Except Error Unit) → Prop
  | running {rounds : List (Machine ν σ)} : (∀ n ∈ rounds, n.Completes) → Ended false rounds none
  | dismissed {rounds : List (Machine ν σ)} : (∀ n ∈ rounds, n.Completes) →
      Ended true rounds (some (.ok ()))
  | failed {earlier : List (Machine ν σ)} {n : Machine ν σ} {e : Error} :
      (∀ n ∈ earlier, n.Completes) → n.step.1 = .error e →
      Ended false (earlier ++ [n]) (some (.error e))

omit [StopSignal ν] in
/-- What has not ended goes on. -/
theorem Ended.append {isDismissed isDismissed' : Bool} {rounds rounds' : List (Machine ν σ)}
    {ending : Option (Except Error Unit)} (h : Ended isDismissed rounds none)
    (h' : Ended isDismissed' rounds' ending) :
    Ended (isDismissed || isDismissed') (rounds ++ rounds') ending := by
  obtain ⟨hrounds⟩ := h
  cases h' with
  | running h => exact .running (List.forall_mem_append.2 ⟨hrounds, h⟩)
  | dismissed h => exact .dismissed (List.forall_mem_append.2 ⟨hrounds, h⟩)
  | failed h he =>
    rw [← List.append_assoc]
    exact .failed (List.forall_mem_append.2 ⟨hrounds, h⟩) he

omit [StopSignal ν] in
/-- How a run ends is decided by whether it is dismissed and by what the store says. -/
theorem Ended.iff {isDismissed : Bool} {rounds : List (Machine ν σ)}
    {ending : Option (Except Error Unit)} (h : Ended isDismissed rounds ending) :
    (∀ e, ending = some (.error e) ↔ Except.error e ∈ storeAnswers rounds) ∧
      (ending = some (.ok ()) ↔ isDismissed) ∧
      (ending = none ↔ ¬ isDismissed ∧ ∀ a ∈ storeAnswers rounds, a = .ok ()) := by
  cases h with
  | running h =>
    have hok := storeAnswers_of_forall_completes h
    refine ⟨fun e => ⟨fun he => ?_, fun he => ?_⟩, ?_, ?_⟩
    · cases he
    · cases hok _ he
    · simp
    · simpa using hok
  | dismissed h =>
    have hok := storeAnswers_of_forall_completes h
    refine ⟨fun e => ⟨fun he => ?_, fun he => ?_⟩, ?_, ?_⟩
    · cases he
    · cases hok _ he
    · simp
    · simp
  | @failed earlier n e h he =>
    -- the answers are those of the rounds before, and then those of the last round
    obtain ⟨answers, hanswers, hok⟩ := storeAnswers_of_error he
    have hmem (e' : Error) : Except.error e' ∈ storeAnswers (earlier ++ [n]) ↔ e' = e := by
      have hearlier : Except.error e' ∉ storeAnswers earlier := fun he' => by
        cases storeAnswers_of_forall_completes h _ he'
      have hlast : Except.error e' ∉ answers := fun he' => by cases hok _ he'
      rw [storeAnswers_concat, hanswers]
      simp [hearlier, hlast]
    refine ⟨fun e' => ?_, ?_, ?_⟩
    · rw [hmem, Option.some.injEq, Except.error.injEq, eq_comm]
    · simp
    · refine ⟨fun hnone => ?_, fun hrunning => ?_⟩
      · cases hnone
      · cases hrunning.2 _ ((hmem e).2 rfl)

omit [StopSignal ν] in
theorem Ended.completes {isDismissed : Bool} {rounds : List (Machine ν σ)}
    (h : Ended isDismissed rounds (some (.ok ()))) : ∀ n ∈ rounds, n.Completes := by
  obtain _ | h | _ := h
  exact h

omit [StopSignal ν] in
/-- If the store fails, that is the last of its answers, and nothing but the status is written
after the question. -/
theorem Ended.last {isDismissed : Bool} {rounds : List (Machine ν σ)} {e : Error}
    (h : Ended isDismissed rounds (some (.error e))) :
    (∃ earlier, storeAnswers rounds = earlier ++ [Except.error e] ∧ ∀ a ∈ earlier, a = .ok ()) ∧
      ∃ (before : List Activity) (call : Activity) (after : List Activity),
        rounds.flatMap (·.written) = before ++ call :: after ∧ call.isStoreCall ∧
        ∀ a ∈ after, ∃ s, a = .published s := by
  obtain _ | _ | ⟨h, he⟩ := h
  rename_i earlier n
  obtain ⟨answers, hanswers, hok⟩ := storeAnswers_of_error he
  obtain ⟨before, call, after, hwritten, hcall, hafter⟩ := exists_last_call he
  refine ⟨⟨storeAnswers earlier ++ answers, ?_, ?_⟩, earlier.flatMap (·.written) ++ before, call,
    after, ?_, hcall, hafter⟩
  · rw [storeAnswers_concat, hanswers, List.append_assoc]
  · exact List.forall_mem_append.2 ⟨storeAnswers_of_forall_completes h, hok⟩
  · rw [List.flatMap_append, List.flatMap_singleton, hwritten, List.append_assoc]

/-- A turn is a call to stop, a pause, or a pause and a round. -/
theorem turn_eq (m : Machine ν σ) :
    m.turn.2 = m.live m.happeningsIn ∧
      Ended m.isDismissed (m.begun m.happeningsIn) m.turn.1 := by
  rw [turn, happeningsIn, isDismissed]
  by_cases hcalled : m.isCalledToStop
  · rw [if_pos hcalled, if_pos hcalled, hcalled]
    exact ⟨rfl, .dismissed (List.forall_mem_nil _)⟩
  · rw [if_neg hcalled, if_neg hcalled, Bool.eq_false_iff.2 hcalled, Bool.false_or]
    rcases StopSignal.pause m.loop.config.pollInterval m.outside with ⟨_ | _ | _, w⟩
    · -- the pause is over
      dsimp only
      set n : Machine ν σ := { m with outside := w } with hn
      have hlive : m.live [.outside w, .round] = n.step.2 := rfl
      have hbegun : m.begun [.outside w, .round] = [n] := rfl
      rw [hlive, hbegun]
      rcases hstep : n.step with ⟨e | o, m₁⟩
      · have hfailed : Ended false ([] ++ [n]) (some (.error e)) :=
          .failed (List.forall_mem_nil _) (by rw [hstep])
        exact ⟨rfl, hfailed⟩
      · exact ⟨rfl, .running (List.forall_mem_singleton.2 ⟨o, by rw [hstep]⟩)⟩
    · -- the call to stop has changed
      dsimp only
      by_cases hraised : isCalledToStop { m with outside := w }
      · rw [if_pos hraised, show StopSignal.isRaised w = true from hraised]
        exact ⟨rfl, .dismissed (List.forall_mem_nil _)⟩
      · rw [if_neg hraised, show StopSignal.isRaised w = false from Bool.eq_false_iff.2 hraised]
        exact ⟨rfl, .running (List.forall_mem_nil _)⟩
    · -- no one is left who could call
      exact ⟨rfl, .dismissed (List.forall_mem_nil _)⟩

/-! ## How it ends -/

/-- Stops for good if the run has ended. -/
def conclude (m : Machine ν σ) : Option (Except Error Unit) → Machine ν σ
  | none => m
  | some _ => m.finish

/-- What is written when a run has ended, with the status that it has then. -/
def farewell (s : Status) : Option (Except Error Unit) → List Activity
  | none => []
  | some _ => [.published (s.turnedTo .stopping), .published (s.turnedTo .stopped)]

omit [Ledger ν] [Clock ν] [CommitStore σ] [StopSignal ν] in
/-- Stopping is told, and nothing else. -/
theorem conclude_eq (m : Machine ν σ) (ending : Option (Except Error Unit)) :
    (m.conclude ending).log = m.log ++ farewell m.loop.status ending ∧
      (m.conclude ending).core = m.core := by
  cases ending with
  | none => exact ⟨(List.append_nil _).symm, rfl⟩
  | some => exact ⟨List.append_assoc .., rfl⟩

/-- **A run is its turns.**  It does what happens in them and nothing else, and then stops for good
if it has ended. -/
theorem run_eq (m : Machine ν σ) (turns : Nat) :
    (m.run turns).2 = (m.live (m.happenings turns)).conclude (m.run turns).1 ∧
      Ended (m.isDismissedIn turns) (m.roundsIn turns) (m.run turns).1 := by
  induction turns generalizing m with
  | zero => exact ⟨rfl, .running (List.forall_mem_nil _)⟩
  | succ turns ih =>
    obtain ⟨hlive, hturned⟩ := m.turn_eq
    rw [run, roundsIn, happenings, isDismissedIn]
    rcases hturn : m.turn with ⟨_ | ending, m₁⟩ <;> rw [hturn] at hlive hturned <;>
      dsimp only at hlive hturned ⊢
    · -- the run goes on from here
      obtain ⟨hrun, hended⟩ := ih m₁
      rw [live_append, begun_append, ← hlive]
      exact ⟨hrun, hturned.append hended⟩
    · rw [List.append_nil, Bool.or_false, ← hlive]
      exact ⟨rfl, hturned⟩

/-- How a run has gone: whether it was dismissed, its rounds, how it has ended if it has, and the
machine at its end. -/
structure RunEnds (m : Machine ν σ) (isDismissed : Bool) (rounds : List (Machine ν σ))
    (ending : Option (Except Error Unit)) (m' : Machine ν σ) : Prop where
  /-- the store has failed -/
  failed_iff (e : Error) : ending = some (.error e) ↔ Except.error e ∈ storeAnswers rounds
  dismissed_iff : ending = some (.ok ()) ↔ isDismissed
  /-- whatever the ledger has answered -/
  running_iff : ending = none ↔ ¬ isDismissed ∧ ∀ a ∈ storeAnswers rounds, a = .ok ()
  /-- the store has answered each call of it -/
  answered : m'.log.countP (·.isStoreCall) =
    m.log.countP (·.isStoreCall) + (storeAnswers rounds).length
  /-- a failure is the last answer of the store, and no one is asked for anything after it -/
  last (e : Error) : ending = some (.error e) →
    (∃ earlier, storeAnswers rounds = earlier ++ [Except.error e] ∧ ∀ a ∈ earlier, a = .ok ()) ∧
    ∃ (before : List Activity) (call : Activity) (after : List Activity),
      m'.log = m.log ++ before ++ call :: after ∧ call.isStoreCall ∧
      ∀ a ∈ after, ∃ s, a = .published s
  /-- the store is what the rounds make of it -/
  core : m'.core = rounds.foldl (fun c n => (c.deed n.outside).core) m.core
  /-- no round is cut short -/
  whole : ending = some (.ok ()) → ∀ n ∈ rounds, n.Completes

/-- No one else writes to the store in a run. -/
theorem spares_happenings (m : Machine ν σ) (turns : Nat) :
    ∀ h ∈ m.happenings turns, h.sparesStore := by
  induction turns generalizing m with
  | zero => exact List.forall_mem_nil _
  | succ turns ih =>
    rw [happenings]
    refine List.forall_mem_append.2 ⟨?_, ?_⟩
    · rw [happeningsIn]
      split
      · exact List.forall_mem_nil _
      · rcases StopSignal.pause m.loop.config.pollInterval m.outside with ⟨_ | _ | _, w⟩ <;>
          simp [Happening.sparesStore]
    · rcases m.turn with ⟨_ | _, m₁⟩
      · exact ih m₁
      · exact List.forall_mem_nil _

/-- What a run writes: what its rounds write, and that it stops. -/
theorem log_run (m : Machine ν σ) (turns : Nat) :
    (m.run turns).2.log = m.log ++ (m.roundsIn turns).flatMap (·.written) ++
      farewell (m.live (m.happenings turns)).loop.status (m.run turns).1 := by
  rw [(m.run_eq turns).1, (conclude_eq _ _).1, log_live, roundsIn]

/-- The store answers every question of a run. -/
theorem countP_run (m : Machine ν σ) (turns : Nat) :
    (m.run turns).2.log.countP (·.isStoreCall) =
      m.log.countP (·.isStoreCall) + (storeAnswers (m.roundsIn turns)).length := by
  have hfarewell (s : Status) : (farewell s (m.run turns).1).countP (·.isStoreCall) = 0 := by
    cases (m.run turns).1 <;> rfl
  rw [log_run, List.countP_append, List.countP_append, hfarewell, List.countP_flatMap, storeAnswers,
    List.length_flatMap]
  simp only [Function.comp_def, countP_written, Nat.add_zero]

/-- **Only the store ends a run.**  A run that is not dismissed goes on, whatever the ledger
answers, unless the store fails; and then the failure is the last thing that it has asked for. -/
theorem ending_run (m : Machine ν σ) (turns : Nat) :
    RunEnds m (m.isDismissedIn turns) (m.roundsIn turns) (m.run turns).1 (m.run turns).2 := by
  obtain ⟨hrun, hended⟩ := m.run_eq turns
  obtain ⟨hfailed, hdismissed, hrunning⟩ := hended.iff
  refine ⟨hfailed, hdismissed, hrunning, m.countP_run turns, fun e he => ?_, ?_, fun hok => ?_⟩
  · rw [he] at hended
    obtain ⟨hanswers, before, call, after, hwritten, hcall, hafter⟩ := hended.last
    have hlog := m.log_run turns
    rw [hwritten, he] at hlog
    refine ⟨hanswers, before, call,
      after ++ farewell (m.live (m.happenings turns)).loop.status (some (.error e)), ?_, hcall,
      List.forall_mem_append.2 ⟨hafter, by simp [farewell]⟩⟩
    rw [hlog]
    simp only [List.append_assoc, List.cons_append]
  · rw [hrun, (conclude_eq _ _).2, core_live _ (m.spares_happenings turns), roundsIn]
  · rw [hok] at hended
    exact hended.completes

end Turns

end Machine

/-! ### A ledger that hardly answers -/

/-- Pages between failures of two kinds and nothing, and a head that is never told.  The call to
stop comes with the last page. -/
def grudging : Scripted.LedgerScript :=
  ⟨[⟨.error (.rpc "no answer"), none⟩, ⟨.ok [bare "a" 5], none⟩, ⟨.error (.other "bad page"), none⟩,
    ⟨.ok [], none⟩, ⟨.ok [bare "b" 6], some true⟩], [.error (.rpc "no head")], false, false, false,
    0, 0⟩

/-- The machine over this ledger, with a store that refuses the given commits. -/
def grudged (failing : List Nat) : Machine Scripted.LedgerScript (Unreliable Memory) :=
  .new Config.usual grudging ⟨.empty, false, failing, 0⟩ none

/-- The second page that the store is given is its last, if it is refused.  If it is not, the run
goes on until it is called to stop. -/
theorem ending_run_grudged :
    ((grudged [2]).run 9).1 = some (.error (.storage "commit 2 refused")) ∧
      ((grudged [2]).roundsIn 9).map (·.step.1.toOption.isSome) =
        [true, true, true, true, false] ∧
      Machine.storeAnswers ((grudged [2]).roundsIn 9) =
        [.ok (), .ok (), .error (.storage "commit 2 refused")] ∧
      (∃ (before : List Activity) (call : Activity) (after : List Activity),
        ((grudged [2]).run 9).2.log = before ++ call :: after ∧ call.isStoreCall ∧
        ∀ a ∈ after, ∃ s, a = .published s) ∧
      ((grudged []).run 5).1 = none ∧ ((grudged []).run 9).1 = some (.ok ()) ∧
      ((grudged []).roundsIn 9).length = 5 ∧
      ((grudged []).run 9).2.store.store.cursorOf "default" = some ⟨"b", 6⟩ := by
  have hfailed : ((grudged [2]).run 9).1 = some (.error (.storage "commit 2 refused")) := by
    decide +kernel
  have hgoing : (∀ a ∈ Machine.storeAnswers ((grudged []).roundsIn 5), a = .ok ()) ∧
      ¬ (grudged []).isDismissedIn 5 := by decide +kernel
  have hdismissed : (grudged []).isDismissedIn 9 := by decide +kernel
  obtain ⟨-, before, call, after, hlog, hcall, hafter⟩ :=
    ((grudged [2]).ending_run 9).last _ hfailed
  exact ⟨hfailed, by decide +kernel, by decide +kernel, ⟨before, call, after, hlog, hcall, hafter⟩,
    ((grudged []).ending_run 5).running_iff.2 hgoing.symm,
    ((grudged []).ending_run 9).dismissed_iff.2 hdismissed, by decide +kernel, by decide +kernel⟩

end LedgerIndex.Sync
