import LedgerIndex.Proofs.Store.Atomic
import LedgerIndex.Proofs.Sync.Ledgers
import LedgerIndex.Proofs.Sync.Round
import LedgerIndex.Scripted.Ledger

/-!
# The cursor never drifts

An indexer has its cursor in three places: in its loop, in the status that it publishes and in the
store.  Whatever the ledger answers, the cursor in the store is at the end of the last page that was
stored, and once it is loaded the other two are the same (`inStep_of_course`).  So the next page is
always asked for after the stored digest, and a round that stores nothing leaves all as it was.

What a round does to the core is known (`Machine.round`).  Here it is followed what it shows: the
digests it asks for and the status it publishes.
-/

namespace LedgerIndex.Sync

variable {ν σ α : Type}

/-! ## What a machine shows of its cursor -/

/-- The digests after which pages were asked for, in order. -/
def asked (log : List Activity) : List (Option String) :=
  log.filterMap fun
    | .fetched _ after _ => some after
    | _ => none

theorem asked_concat (log : List Activity) {a : Activity} (ha : asked [a] = []) :
    asked (log ++ [a]) = asked log := by
  unfold asked at *
  rw [List.filterMap_append, ha, List.append_nil]

/-- What a machine shows of its cursor: the one in its status, and those it has asked with. -/
structure Trail where
  cursor : Option Cursor
  asked : List (Option String)

/-- The status has the cursor of the loop, and was published as it is. -/
structure Shown (m : Machine ν σ) : Prop where
  cursor : m.loop.status.cursor = m.loop.cursor
  published : m.log.getLast? = some (.published m.loop.status)

namespace Machine

/-- What a machine shows of its cursor. -/
def trail (m : Machine ν σ) : Trail := ⟨m.loop.status.cursor, asked m.log⟩

/-- What the ledger answers in the next round. -/
def answer [Ledger ν] [CommitStore σ] (m : Machine ν σ) : Except Error (List Transaction) :=
  ((m.ready.2.enter .fetching).fetch).1

/-- The page that the next round stores, if it stores one. -/
def storedPage? [Ledger ν] [Clock ν] [CommitStore σ] (m : Machine ν σ) :
    Option (List Transaction) :=
  match m.step.1, m.answer with
  | .ok (.committed ..), .ok page => some page
  | _, _ => none

/-! ### Telling -/

theorem trail_record (m : Machine ν σ) {a : Activity} (ha : asked [a] = []) :
    (m.record a).trail = m.trail := by
  rw [record, trail, asked_concat m.log ha]
  rfl

@[simp] theorem trail_enter (m : Machine ν σ) (state : State) : (m.enter state).trail = m.trail :=
  trail_record { m with loop.status.state := state } rfl

@[simp] theorem trail_note (m : Machine ν σ) (n : Notice) : (m.note n).trail = m.trail :=
  trail_record m rfl

@[simp] theorem trail_takeSample (m : Machine ν σ) (now : Nat) (head : UInt64) :
    (m.takeSample now head).trail = m.trail := by
  rw [takeSample]
  rcases m.loop.estimator.sample m.loop.checkpoint head now with ⟨_ | _, _⟩
  · rfl
  · exact trail_note ..

@[simp] theorem trail_fanOut (m : Machine ν σ) (b : Batch) : (m.fanOut b).trail = m.trail := by
  rw [fanOut]
  cases m.registry with
  | none => rfl
  | some registry => exact (trail_note ..).trans (trail_record m rfl)

@[simp] theorem trail_noteRegression (m : Machine ν σ) (page : List Transaction) :
    (m.noteRegression page).trail = m.trail := by
  rw [noteRegression]
  split
  · rfl
  · exact trail_note ..

/-- Turning to something else publishes the status. -/
theorem shown_enter {m : Machine ν σ} (h : m.trail.cursor = m.core.cursor) (state : State) :
    Shown (m.enter state) where
  cursor := h
  published := by simp [enter, publish, record]

section Sampling

variable [Ledger ν] [Clock ν]

@[simp] theorem trail_sampleProgress (m : Machine ν σ) : m.sampleProgress.trail = m.trail := by
  have hasked (outside : ν) : ({ m with outside }.record .askedHead).trail = m.trail :=
    trail_record { m with outside } rfl
  rw [sampleProgress]
  simp only
  split
  · split
    · exact hasked _
    · exact (trail_takeSample ..).trans (hasked _)
  · rfl

@[simp] theorem trail_rest (m : Machine ν σ) : m.rest.trail = m.trail := by
  rw [rest, trail_enter, trail_sampleProgress]
  rfl

/-- A page that is stored moves the cursor in the status along with the other. -/
theorem trail_settle (m : Machine ν σ) (page : List Transaction) (b : Batch)
    (summary : CommitSummary) :
    (m.settle page b summary).trail = { m.trail with cursor := b.cursor.or m.core.cursor } := by
  rw [settle, trail_enter, trail_fanOut, trail_enter]
  exact (trail_sampleProgress _).trans (trail_note ..)

end Sampling

@[simp] theorem trail_giveUp (m : Machine ν σ) (e : Error) : (m.giveUp e).trail = m.trail := by
  rw [giveUp, trail_enter, trail_note]
  rfl

/-! ### The phases -/

theorem ready_of_isLoaded [CommitStore σ] {m : Machine ν σ} (h : m.loop.isLoaded) :
    m.ready = (.ok (), m) := if_pos h

/-- Making ready asks the ledger for nothing, and puts a cursor that it loads into the status. -/
theorem trail_ready [CommitStore σ] (m : Machine ν σ) :
    m.ready.2.trail.asked = m.trail.asked ∧
      ((m.loop.isLoaded → m.trail.cursor = m.core.cursor) → m.ready.1 = .ok () →
        m.ready.2.trail.cursor = m.ready.2.core.cursor) := by
  by_cases h : m.loop.isLoaded
  · rw [ready_of_isLoaded h]
    exact ⟨rfl, fun hshown _ => hshown h⟩
  · rw [ready, if_neg h, loadCursor]
    rcases CommitStore.loadCursor m.loop.config.id m.store with ⟨_ | _, _⟩
    · exact ⟨asked_concat _ rfl, fun _ hok => by cases hok⟩
    · exact ⟨(asked_concat _ rfl).trans (asked_concat _ rfl), fun _ _ => rfl⟩

theorem trail_commit [CommitStore σ] (m : Machine ν σ) (stamp : Int) (b : Batch) :
    (m.commit stamp b).2.trail = m.trail := trail_record m rfl

theorem trail_fetch [Ledger ν] (m : Machine ν σ) :
    m.fetch.2.trail = { m.trail with asked := m.trail.asked ++ [m.loop.after] } := by
  simp [fetch, trail, asked, record]

section Steps

variable [Ledger ν] [Clock ν]

omit [Ledger ν] [Clock ν] in
theorem shown_giveUp {m : Machine ν σ} (h : m.trail.cursor = m.core.cursor) (e : Error) :
    Shown (m.giveUp e) := by
  rw [giveUp]
  refine shown_enter ?_ _
  rw [trail_note]
  exact h

theorem shown_rest {m : Machine ν σ} (h : m.trail.cursor = m.core.cursor) : Shown m.rest := by
  rw [rest]
  refine shown_enter ?_ _
  rw [trail_sampleProgress, core_sampleProgress]
  exact h

theorem shown_settle (m : Machine ν σ) (page : List Transaction) (b : Batch)
    (summary : CommitSummary) : Shown (m.settle page b summary) := by
  have hcursor :
      (m.settle page b summary).trail.cursor = (m.settle page b summary).core.cursor := by
    rw [trail_settle, core_settle]
  rw [settle] at hcursor ⊢
  rw [trail_enter, core_enter] at hcursor
  exact shown_enter hcursor .idle

variable [CommitStore σ]

/-- Storing a page asks the ledger for nothing more, and shows the cursor in the end. -/
theorem shown_takeIn (m : Machine ν σ) (page : List Transaction)
    (h : m.trail.cursor = m.core.cursor) :
    Shown (m.takeIn page).2 ∧ (m.takeIn page).2.trail.asked = m.trail.asked := by
  rw [takeIn]
  simp only
  have hcore : ((m.noteRegression page).enter .reconciling).core = m.core := by simp
  have htrail : ((m.noteRegression page).enter .reconciling).trail = m.trail := by simp
  generalize (m.noteRegression page).enter .reconciling = m₁ at hcore htrail
  generalize (Clock.stamp m₁.outside).1 = stamp
  generalize m₁.loop.batchOf stamp page = b
  rcases hc : ({ m₁ with outside := (Clock.stamp m₁.outside).2 } : Machine ν σ).commit stamp b with
    ⟨e | summary, m₂⟩
  -- either way the store has answered, and the machine shows what it did before
  all_goals
    have hm₂ : _ = m₂ := congrArg Prod.snd hc
    have htrail₂ : m₂.trail = m.trail := by
      rw [← hm₂, trail_commit, ← htrail]
      rfl
  · have hcore₂ : m₂.core.cursor = m.core.cursor := by
      rw [← hm₂, ← hcore]
      rfl
    refine ⟨shown_enter ?_ _, by rw [trail_enter, htrail₂]⟩
    rw [htrail₂, hcore₂]
    exact h
  · exact ⟨shown_settle .., by rw [trail_settle, htrail₂]⟩

/-- A round that has the cursor asks once, after that cursor, and shows the cursor in the end. -/
theorem shown_step (m : Machine ν σ) (h : m.loop.isLoaded → m.trail.cursor = m.core.cursor)
    (hready : m.ready.1 = .ok ()) :
    Shown m.step.2 ∧ m.step.2.trail.asked = m.trail.asked ++ [m.ready.2.loop.after] := by
  obtain ⟨hasked, hcursor⟩ := trail_ready m
  have hcursor : m.ready.2.trail.cursor = m.ready.2.core.cursor := hcursor h hready
  rw [step]
  rcases hr : m.ready with ⟨e | ⟨⟩, m₁⟩
  · rw [hr] at hready
    cases hready
  · rw [hr] at hasked hcursor
    simp only at hasked hcursor ⊢
    have htrail := trail_fetch (m₁.enter .fetching)
    have hcore : (m₁.enter .fetching).fetch.2.core = m₁.core := rfl
    rw [trail_enter, hasked] at htrail
    rcases hf : (m₁.enter .fetching).fetch with ⟨e | page, m₂⟩
    · rw [hf] at htrail hcore
      refine ⟨shown_giveUp ?_ e, by rw [trail_giveUp, htrail]; rfl⟩
      rw [htrail, hcore]
      exact hcursor
    · rw [hf] at htrail hcore
      simp only at htrail hcore ⊢
      set m₃ : Machine ν σ := { m₂ with loop.status.failuresInRow := 0 } with hm₃
      have htrail₃ : m₃.trail = { m₁.trail with asked := m.trail.asked ++ [m₁.loop.after] } :=
        htrail
      have hcore₃ : m₃.core = m₁.core := hcore
      have hshown : m₃.trail.cursor = m₃.core.cursor := by
        rw [htrail₃, hcore₃]
        exact hcursor
      cases page with
      | nil => exact ⟨shown_rest hshown, by rw [List.isEmpty_nil, if_pos rfl, trail_rest, htrail₃]⟩
      | cons t page =>
        rw [List.isEmpty_cons, if_neg Bool.false_ne_true]
        obtain ⟨h₁, h₂⟩ := shown_takeIn m₃ (t :: page) hshown
        exact ⟨h₁, by rw [h₂, htrail₃]⟩

end Steps

/-- A store that does not tell the cursor leaves it unloaded. -/
theorem ready_cases [CommitStore σ] (m : Machine ν σ) :
    m.ready.1 = .ok () ∨ ¬ m.ready.2.loop.isLoaded := by
  by_cases hl : m.loop.isLoaded
  · rw [ready_of_isLoaded hl]
    exact .inl rfl
  · rw [ready, if_neg hl, loadCursor]
    rcases CommitStore.loadCursor m.loop.config.id m.store with ⟨_ | _, _⟩
    · exact .inr hl
    · exact .inl rfl

theorem ready_of_isLoaded_step [Ledger ν] [Clock ν] [CommitStore σ] {m : Machine ν σ}
    (h : m.step.2.loop.isLoaded) : m.ready.1 = .ok () := by
  obtain hready | hunloaded := m.ready_cases
  · exact hready
  · rw [step] at h
    rcases hr : m.ready with ⟨e | ⟨⟩, m₁⟩
    · rw [hr] at h hunloaded
      exact absurd h hunloaded
    · rfl

/-- The ledger's answer is the one to the question of the core. -/
theorem answer_eq [Ledger ν] [CommitStore σ] (m : Machine ν σ) :
    m.answer = (m.core.ready.2.fetch m.outside).1 := by
  obtain ⟨hready, hout⟩ := core_ready m
  obtain ⟨hfetch, -⟩ := core_fetch (m.ready.2.enter .fetching)
  rw [core_enter, outside_enter, hout] at hfetch
  rw [hready, hfetch]
  rfl

theorem storedPage?_of_stored [Ledger ν] [Clock ν] [CommitStore σ] {m : Machine ν σ}
    {page : List Transaction} {summary : CommitSummary} {regression : Bool}
    (ho : m.step.1 = .ok (.committed summary regression))
    (hf : (m.core.ready.2.fetch m.outside).1 = .ok page) : m.storedPage? = some page := by
  rw [storedPage?, ho, answer_eq, hf]

theorem storedPage?_of_not_stored [Ledger ν] [Clock ν] [CommitStore σ] {m : Machine ν σ}
    (ho : ∀ summary regression, m.step.1 ≠ .ok (.committed summary regression)) :
    m.storedPage? = none := by
  rw [storedPage?]
  split
  · rename_i summary regression _ hs _
    exact absurd hs (ho summary regression)
  · rfl

end Machine

/-! ## One round -/

/-- The store has a cursor for the indexer, and so has the core once it is loaded. -/
structure Anchored (contents : σ → α) (cursorIn : α → String → Option Cursor) (config : Config)
    (cursor : Option Cursor) (c : Core σ) : Prop where
  config_eq : c.config = config
  stored : cursorIn (contents c.store) config.id = cursor
  cursor : c.cursor = if c.isLoaded then cursor else none

section Rounds

variable {contents : σ → α} {cursorIn : α → String → Option Cursor} {config : Config}
  {cursor : Option Cursor} {c c' : Core σ} [CommitStore σ]

/-- Making ready changes nothing that the store holds, and loads the stored cursor. -/
theorem Anchored.ready (store : Atomic σ contents cursorIn)
    (h : Anchored contents cursorIn config cursor c) {r : Except Error Unit}
    (hr : c.ready = (r, c')) :
    Anchored contents cursorIn config cursor c' ∧ contents c'.store = contents c.store ∧
      (r = .ok () ∨ c.isLoaded → c'.isLoaded) := by
  rw [Core.ready] at hr
  split at hr
  · rename_i hl
    cases hr
    exact ⟨h, rfl, fun _ => hl⟩
  · rename_i hl
    split at hr
    · rename_i s hs
      cases hr
      have hcontents := store.refused hs
      refine ⟨⟨h.config_eq, by rw [hcontents]; exact h.stored, h.cursor⟩, hcontents, ?_⟩
      rintro (hok | hl')
      · cases hok
      · exact hl'
    · rename_i found s hs
      obtain ⟨hfound, hcontents⟩ := store.loaded hs
      have hcursor : (found.map (·.cursor)).or c.cursor = cursor := by
        rw [h.cursor, if_neg hl, Option.or_none, hfound, h.config_eq, h.stored]
      cases hr
      exact ⟨⟨h.config_eq, by rw [hcontents]; exact h.stored, hcursor⟩, hcontents, fun _ => rfl⟩

/-- What a round does to the cursors: it stores a page, and they are at the end of that page, or it
ends in another way and they stay. -/
theorem Anchored.round [Ledger ν] [Clock ν] (store : Atomic σ contents cursorIn)
    (h : Anchored contents cursorIn config cursor c) {w w' : ν} {o : Except Error Outcome}
    (hr : Round c w o c' w') :
    (∃ page summary regression, (c.ready.2.fetch w).1 = .ok page ∧ page ≠ [] ∧
        o = .ok (.committed summary regression) ∧
        Anchored contents cursorIn config (endOf page) c') ∨
      (∀ summary regression, o ≠ .ok (.committed summary regression)) ∧
        contents c'.store = contents c.store ∧ Anchored contents cursorIn config cursor c' ∧
        (c.isLoaded → c'.isLoaded) := by
  cases hr with
  | refused hready =>
    obtain ⟨h', hcontents, hl⟩ := h.ready store hready
    exact .inr ⟨nofun, hcontents, h', fun hc => hl (.inr hc)⟩
  | failed hready hfetch haside =>
    obtain ⟨h', hcontents, hl⟩ := h.ready store hready
    exact .inr ⟨nofun, hcontents, h', fun _ => hl (.inl rfl)⟩
  | empty hready hfetch haside =>
    obtain ⟨h', hcontents, hl⟩ := h.ready store hready
    exact .inr ⟨nofun, hcontents, h', fun _ => hl (.inl rfl)⟩
  | rejected hready hfetch hpage hcommit haside =>
    obtain ⟨h', hcontents, hl⟩ := h.ready store hready
    have hkept := store.rejected hcommit
    refine .inr ⟨nofun, hkept.trans hcontents, ⟨h'.config_eq, ?_, h'.cursor⟩,
      fun _ => hl (.inl rfl)⟩
    rw [hkept]
    exact h'.stored
  | @stored c₁ page w₁ _ stamp summary s regression hready hfetch hpage hcommit haside =>
    obtain ⟨h', -, hloaded⟩ := h.ready store hready
    obtain ⟨last, hend⟩ := Option.isSome_iff_exists.1 (endOf_isSome hpage)
    have hstored := store.stored hcommit
    rw [h'.config_eq] at hstored
    refine .inl ⟨page, summary, regression, by rw [hready, hfetch], hpage, rfl, h'.config_eq,
      ?_, ?_⟩
    · refine hstored.trans ?_
      rw [Config.batchOf, hend]
      rfl
    · rw [Core.advance, if_pos (hloaded (.inl rfl)), hend]
      rfl

end Rounds

/-! ## Runs -/

section Courses

variable [Ledger ν] [Clock ν] [CommitStore σ]

/-- What a machine can come to, with the pages that it has stored.  Between two rounds anything may
change but the machine itself and the cursor that the store has for it. -/
inductive Course (contents : σ → α) (cursorIn : α → String → Option Cursor) (config : Config)
    (initial : Option Cursor) : List (List Transaction) → Machine ν σ → Prop
  | start (w : ν) (s : σ) (registry : Option Registry) :
      cursorIn (contents s) config.id = initial →
      Course contents cursorIn config initial [] (.new config w s registry)
  | step {pages : List (List Transaction)} {m : Machine ν σ} :
      Course contents cursorIn config initial pages m →
      Course contents cursorIn config initial (pages ++ m.storedPage?.toList) m.step.2
  | meanwhile {pages : List (List Transaction)} {m : Machine ν σ} (w : ν) (s : σ)
      (registry : Option Registry) : Course contents cursorIn config initial pages m →
      cursorIn (contents s) config.id = cursorIn (contents m.store) config.id →
      Course contents cursorIn config initial pages { m with outside := w, store := s, registry }

/-- The cursor of a machine is where it ought to be, in all its places, and the next round goes on
from there. -/
structure InStep (contents : σ → α) (cursorIn : α → String → Option Cursor) (config : Config)
    (initial : Option Cursor) (pages : List (List Transaction)) (m : Machine ν σ) : Prop where
  nonempty : ∀ page ∈ pages, page ≠ []
  /-- the store has the end of the last page that was stored, or what it had at first -/
  stored : cursorIn (contents m.store) config.id = (pages.getLast?.bind endOf).or initial
  loop : m.loop.isLoaded → m.loop.cursor = cursorIn (contents m.store) config.id
  shown : m.loop.isLoaded → Shown m
  /-- a round that has the cursor asks for one page, the one after it -/
  asks : m.ready.1 = .ok () →
    asked m.step.2.log =
      asked m.log ++ [(cursorIn (contents m.store) config.id).map (·.digest)]
  /-- a round that stores no page changes neither the store nor the cursor -/
  keeps : m.step.1 = .ok .fetchFailed ∨ m.step.1 = .ok .empty ∨ (∃ e, m.step.1 = .error e) →
    contents m.step.2.store = contents m.store ∧
      (m.loop.isLoaded → m.step.2.loop.cursor = m.loop.cursor)

variable {contents : σ → α} {cursorIn : α → String → Option Cursor} {config : Config}
  {initial : Option Cursor} {pages : List (List Transaction)} {m : Machine ν σ}

theorem anchored_of_course (store : Atomic σ contents cursorIn)
    (h : Course contents cursorIn config initial pages m) :
    (∀ page ∈ pages, page ≠ []) ∧
      Anchored contents cursorIn config ((pages.getLast?.bind endOf).or initial) m.core ∧
      (m.loop.isLoaded → Shown m) := by
  induction h with
  | start w s registry hs => exact ⟨by simp, ⟨rfl, hs, rfl⟩, nofun⟩
  | @step pages m _ ih =>
    obtain ⟨hpages, hanchored, hshown⟩ := ih
    have hshown' (hl : m.step.2.loop.isLoaded) : Shown m.step.2 :=
      (m.shown_step (fun hm => (hshown hm).cursor) (Machine.ready_of_isLoaded_step hl)).1
    obtain ⟨page, summary, regression, hf, hpage, ho, h'⟩ | ⟨ho, -, h', -⟩ :=
      hanchored.round store m.round
    · obtain ⟨last, hend⟩ := Option.isSome_iff_exists.1 (endOf_isSome hpage)
      rw [Machine.storedPage?_of_stored ho hf, Option.toList_some]
      refine ⟨?_, ?_, hshown'⟩
      · intro other hother
        obtain hother | hother := List.mem_append.1 hother
        · exact hpages other hother
        · rw [List.mem_singleton.1 hother]
          exact hpage
      · rw [List.getLast?_concat, Option.bind_some, hend, Option.some_or]
        rwa [hend] at h'
    · rw [Machine.storedPage?_of_not_stored ho, Option.toList_none, List.append_nil]
      exact ⟨hpages, h', hshown'⟩
  | @meanwhile pages m w s registry _ hs ih =>
    obtain ⟨hpages, hanchored, hshown⟩ := ih
    exact ⟨hpages, ⟨hanchored.config_eq, hs.trans hanchored.stored, hanchored.cursor⟩,
      fun hl => ⟨(hshown hl).cursor, (hshown hl).published⟩⟩

/-- **The cursor never drifts.**  Whatever the ledger answers and however often the store fails, the
stored cursor is at the end of the last page that was stored, and the machine goes by it. -/
theorem inStep_of_course (store : Atomic σ contents cursorIn)
    (h : Course contents cursorIn config initial pages m) :
    InStep contents cursorIn config initial pages m := by
  obtain ⟨hpages, hanchored, hshown⟩ := anchored_of_course store h
  have hstored : cursorIn (contents m.store) config.id = (pages.getLast?.bind endOf).or initial :=
    hanchored.stored
  have hloop (hl : m.loop.isLoaded) : m.loop.cursor = (pages.getLast?.bind endOf).or initial :=
    hanchored.cursor.trans (if_pos hl)
  refine ⟨hpages, hstored, fun hl => (hloop hl).trans hstored.symm, hshown, fun hready => ?_,
    fun ho => ?_⟩
  · -- the core has the stored cursor once it is ready
    obtain ⟨hcore, -⟩ := m.core_ready
    rw [hready] at hcore
    obtain ⟨h', -, hl⟩ := hanchored.ready store hcore
    have hafter : m.ready.2.loop.cursor = (pages.getLast?.bind endOf).or initial :=
      h'.cursor.trans (if_pos (hl (.inl rfl)))
    refine (m.shown_step (fun hm => (hshown hm).cursor) hready).2.trans ?_
    rw [Loop.after, hafter, hstored]
    rfl
  · have hnot : ∀ summary regression, m.step.1 ≠ .ok (.committed summary regression) := by
      intro summary regression hs
      rw [hs] at ho
      obtain h | h | ⟨e, h⟩ := ho <;> cases h
    obtain ⟨_, summary, regression, -, -, hs, -⟩ | ⟨-, hcontents, h', hl'⟩ :=
      hanchored.round store m.round
    · exact absurd hs (hnot summary regression)
    · refine ⟨hcontents, fun hl => ?_⟩
      rw [hloop hl]
      exact h'.cursor.trans (if_pos (hl' hl))

end Courses

/-! ### A run against the order of the ledger -/

/-- A transaction without calls and events. -/
def bare (digest : String) (checkpoint : UInt64) : Transaction :=
  ⟨digest, checkpoint, 0, "0x1", [], []⟩

/-- No answer, a page behind the cursor and out of order that is given twice, nothing, and a page
below the start. -/
def unordered : Scripted.LedgerScript :=
  ⟨[⟨.error (.rpc "no answer"), none⟩, ⟨.ok [bare "b" 9, bare "a" 5], none⟩,
    ⟨.ok [bare "b" 9, bare "a" 5], none⟩, ⟨.ok [], none⟩, ⟨.ok [bare "c" 4], none⟩],
    [], false, false, false, 0, 0⟩

/-- A store with a cursor that refuses the first page. -/
def refusing : Unreliable Memory :=
  ⟨(Memory.empty.saveCursor 0 "default" ⟨"z", 10⟩), false, [1], 0⟩

/-- The machine before the first round, from checkpoint 6 on. -/
def againstOrder : Machine Scripted.LedgerScript (Unreliable Memory) :=
  .new { Config.usual with start := some 6 } unordered refusing none

/-- The machine after five rounds: no page, a page refused, the page stored, nothing, and a page of
which nothing is taken in. -/
def againstOrderEnd : Machine Scripted.LedgerScript (Unreliable Memory) :=
  againstOrder.step.2.step.2.step.2.step.2.step.2

theorem inStep_againstOrderEnd :
    Atomic (Unreliable Memory) (fun u => id u.store) Memory.cursorOf ∧
      ∃ pages, pages.map (·.map (·.digest)) = [["b", "a"], ["c"]] ∧
        Course (fun u => id u.store) Memory.cursorOf againstOrder.loop.config (some ⟨"z", 10⟩) pages
          againstOrderEnd ∧
        InStep (fun u => id u.store) Memory.cursorOf againstOrder.loop.config (some ⟨"z", 10⟩) pages
          againstOrderEnd ∧
        againstOrderEnd.loop.cursor = some ⟨"c", 4⟩ ∧
        asked againstOrderEnd.log = [some "z", some "z", some "z", some "a", some "a"] := by
  have store : Atomic (Unreliable Memory) (fun u => id u.store) Memory.cursorOf :=
    (Unreliable.keeps keeps_memory).atomic
  have start : Course (fun u : Unreliable Memory => id u.store) Memory.cursorOf
      againstOrder.loop.config (some ⟨"z", 10⟩) [] againstOrder :=
    .start unordered refusing none (by decide)
  have run := start.step.step.step.step.step
  exact ⟨store, _, by decide +kernel, run, inStep_of_course store run, by decide +kernel⟩

end LedgerIndex.Sync
