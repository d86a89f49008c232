import LedgerIndex.Proofs.Sync.Round
import Mathlib.Data.List.Basic

/-!
# Dealings with others

Of all that a machine shows, three things concern others: what it asks the ledger, what it gives
the store and what it hands out to the subscribers (`dealings`).  They are decided by the core and by
the answers that it gets in the round (`Core.deed`).  Publishing, reporting and sampling the progress
have no part in it (`Machine.deed_step`).
-/

namespace LedgerIndex.Sync

variable {ν σ : Type}

/-! ## Dealings -/

/-- A question for a page. -/
structure Question where
  filter : ObjectFilter
  /-- the digest after which the page begins -/
  after : Option String
  limit : Nat
  deriving DecidableEq, Repr

namespace Activity

/-- The ledger is asked for a page, the store is given a batch or messages are handed out. -/
def isDealing : Activity → Bool
  | fetched .. | committed _ | handedOut _ => true
  | published _ | loadedCursor | askedHead | noticed _ => false

def question? : Activity → Option Question
  | fetched filter after limit => some ⟨filter, after, limit⟩
  | _ => none

def offer? : Activity → Option Batch
  | committed b => some b
  | _ => none

def handout? : Activity → Option (List Push)
  | handedOut messages => some messages
  | _ => none

/-- What is no dealing is not seen among them. -/
theorem unseen {a : Activity} (ha : a.isDealing = false) :
    a.question? = none ∧ a.offer? = none ∧ a.handout? = none := by
  cases a with
  | fetched | committed | handedOut => cases ha
  | published | loadedCursor | askedHead | noticed => exact ⟨rfl, rfl, rfl⟩

end Activity

/-- The dealings with others in a log. -/
def dealings (log : List Activity) : List Activity := log.filter (·.isDealing)

/-- The questions for pages, in order. -/
def questions (log : List Activity) : List Question := log.filterMap (·.question?)

/-- The batches that the store was given, whether it took them in or not. -/
def offers (log : List Activity) : List Batch := log.filterMap (·.offer?)

/-- The lists of messages that were handed out. -/
def handouts (log : List Activity) : List (List Push) := log.filterMap (·.handout?)

theorem dealings_concat (log : List Activity) {a : Activity} (ha : a.isDealing = false) :
    dealings (log ++ [a]) = dealings log := by
  simp [dealings, ha]

/-- What is seen of dealings only is seen in them. -/
theorem filterMap_dealings {β : Type} {see : Activity → Option β}
    (hsee : ∀ a, a.isDealing = false → see a = none) (log : List Activity) :
    (dealings log).filterMap see = log.filterMap see := by
  rw [dealings, List.filterMap_filter]
  refine List.filterMap_congr fun a _ => ?_
  cases ha : a.isDealing with
  | true => rfl
  | false => rw [hsee a ha, if_neg Bool.false_ne_true]

theorem questions_dealings (log : List Activity) : questions (dealings log) = questions log :=
  filterMap_dealings (fun _ ha => (Activity.unseen ha).1) log

theorem offers_dealings (log : List Activity) : offers (dealings log) = offers log :=
  filterMap_dealings (fun _ ha => (Activity.unseen ha).2.1) log

theorem handouts_dealings (log : List Activity) : handouts (dealings log) = handouts log :=
  filterMap_dealings (fun _ ha => (Activity.unseen ha).2.2) log

/-- What a machine has to do with others: its registry, and its dealings so far. -/
structure Trade where
  registry : Option Registry
  dealings : List Activity

namespace Trade

/-- Adds to the dealings. -/
def add (t : Trade) (a : Activity) : Trade := { t with dealings := t.dealings ++ [a] }

/-- Asks the ledger for a page. -/
def ask (t : Trade) (q : Question) : Trade := t.add (.fetched q.filter q.after q.limit)

/-- Gives the store a batch. -/
def offer (t : Trade) (b : Batch) : Trade := t.add (.committed b)

/-- Hands out the messages of a batch. -/
def fanOut (t : Trade) (b : Batch) : Trade :=
  match t.registry with
  | none => t
  | some r => { t.add (.handedOut b.messages) with registry := some (r.fanOut b).2 }

end Trade

/-! ## Deeds -/

/-- What a core does in a round, and what it is answered. -/
structure Deed (σ : Type) where
  outcome : Except Error Outcome
  /-- the core after the round -/
  core : Core σ
  asked : Option Question
  /-- the answer of the ledger -/
  page : Option (Except Error (List Transaction))
  offered : Option Batch
  /-- the store has taken the batch in, or says why not -/
  verdict : Option (Except Error Unit)

namespace Deed

/-- The batch that was taken in. -/
def stored? (d : Deed σ) : Option Batch :=
  match d.offered, d.verdict with
  | some b, some (.ok ()) => some b
  | _, _ => none

/-- What comes after the question in the dealings with others: the batch, and its messages. -/
def deliver (d : Deed σ) (t : Trade) : Trade :=
  let t := d.offered.elim t t.offer
  d.stored?.elim t t.fanOut

/-- What a deed does to the dealings with others. -/
def trade (d : Deed σ) (t : Trade) : Trade := d.deliver (d.asked.elim t t.ask)

theorem questions_trade (d : Deed σ) (t : Trade) :
    questions (d.trade t).dealings = questions t.dealings ++ d.asked.toList := by
  obtain ⟨registry, log⟩ := t
  rw [trade, deliver]
  cases d.asked <;> cases d.offered <;> cases d.stored? <;> cases registry <;>
    simp [questions, Trade.ask, Trade.offer, Trade.fanOut, Trade.add, Activity.question?]

theorem offers_trade (d : Deed σ) (t : Trade) :
    offers (d.trade t).dealings = offers t.dealings ++ d.offered.toList := by
  obtain ⟨registry, log⟩ := t
  rw [trade, deliver]
  cases d.asked <;> cases d.offered <;> cases d.stored? <;> cases registry <;>
    simp [offers, Trade.ask, Trade.offer, Trade.fanOut, Trade.add, Activity.offer?]

/-- A registry is given the batch that was taken in, and nothing else. -/
theorem trade_of_registry (d : Deed σ) {t : Trade} {r : Registry} (hr : t.registry = some r) :
    (d.trade t).registry = some (d.stored?.elim r fun b => (r.fanOut b).2) ∧
      handouts (d.trade t).dealings = handouts t.dealings ++ d.stored?.toList.map (·.messages) := by
  obtain ⟨registry, log⟩ := t
  obtain rfl : registry = some r := hr
  rw [trade, deliver]
  cases d.asked <;> cases d.offered <;> cases d.stored? <;>
    simp [handouts, Trade.ask, Trade.offer, Trade.fanOut, Trade.add, Activity.handout?]

end Deed

namespace Core

/-- The question for the page after the cursor. -/
def question (c : Core σ) : Question :=
  ⟨⟨c.config.tracked⟩, c.cursor.map (·.digest), c.config.pageSize⟩

/-- A page begins behind the cursor. -/
def isAhead (c : Core σ) (page : List Transaction) : Bool :=
  match c.cursor, page with
  | some cursor, t :: _ => cursor.isBehind t.checkpoint
  | _, _ => false

/-- The attempt to store a page that was asked for. -/
def attempt [CommitStore σ] (c : Core σ) (stamp : Int) (page : List Transaction) : Deed σ :=
  let b := c.config.batchOf stamp page
  match c.commit stamp page with
  | (.error e, store) =>
    ⟨.error e, { c with store }, some c.question, some (.ok page), some b, some (.error e)⟩
  | (.ok summary, store) =>
    ⟨.ok (.committed summary (c.isAhead page)), c.advance page store, some c.question,
      some (.ok page), some b, some (.ok ())⟩

/-- What a core does with the answer to its question for a page. -/
def react [CommitStore σ] (c : Core σ) (stamp : Int) : Except Error (List Transaction) → Deed σ
  | .error e => ⟨.ok .fetchFailed, c, some c.question, some (.error e), none, none⟩
  | .ok [] => ⟨.ok .empty, c, some c.question, some (.ok []), none, none⟩
  | .ok (t :: page) => c.attempt stamp (t :: page)

/-- A round of a core, and nothing else. -/
def deed [Ledger ν] [Clock ν] [CommitStore σ] (c : Core σ) (w : ν) : Deed σ :=
  match c.ready with
  | (.error e, c) => ⟨.error e, c, none, none, none, none⟩
  | (.ok (), c) => c.react (Clock.stamp (c.fetch w).2).1 (c.fetch w).1

section Parts

variable [CommitStore σ] (c : Core σ) (stamp : Int)

/-- What comes of an attempt to store a page. -/
theorem attempt_cases (page : List Transaction) :
    (∃ e store, c.commit stamp page = (.error e, store) ∧ c.attempt stamp page =
      ⟨.error e, { c with store }, some c.question, some (.ok page),
        some (c.config.batchOf stamp page), some (.error e)⟩) ∨
    ∃ summary store, c.commit stamp page = (.ok summary, store) ∧ c.attempt stamp page =
      ⟨.ok (.committed summary (c.isAhead page)), c.advance page store, some c.question,
        some (.ok page), some (c.config.batchOf stamp page), some (.ok ())⟩ := by
  rw [attempt]
  rcases c.commit stamp page with ⟨e | summary, store⟩
  · exact .inl ⟨e, store, rfl, rfl⟩
  · exact .inr ⟨summary, store, rfl, rfl⟩

theorem asked_react (answer : Except Error (List Transaction)) :
    (c.react stamp answer).asked = some c.question := by
  rcases answer with _ | _ | ⟨t, page⟩
  · rfl
  · rfl
  · obtain ⟨e, store, -, h⟩ | ⟨summary, store, -, h⟩ := c.attempt_cases stamp (t :: page) <;>
      rw [react, h]

theorem page_react (answer : Except Error (List Transaction)) :
    (c.react stamp answer).page = some answer := by
  rcases answer with _ | _ | ⟨t, page⟩
  · rfl
  · rfl
  · obtain ⟨e, store, -, h⟩ | ⟨summary, store, -, h⟩ := c.attempt_cases stamp (t :: page) <;>
      rw [react, h]

theorem config_react (answer : Except Error (List Transaction)) :
    (c.react stamp answer).core.config = c.config := by
  rcases answer with _ | _ | ⟨t, page⟩
  · rfl
  · rfl
  · obtain ⟨e, store, -, h⟩ | ⟨summary, store, -, h⟩ := c.attempt_cases stamp (t :: page) <;>
      rw [react, h]
    rfl

theorem config_ready : c.ready.2.config = c.config := by
  rw [ready]
  split
  · rfl
  · rcases CommitStore.loadCursor c.config.id c.store with ⟨_ | _, _⟩ <;> rfl

end Parts

/-- The configuration stays. -/
theorem config_deed [Ledger ν] [Clock ν] [CommitStore σ] (c : Core σ) (w : ν) :
    (c.deed w).core.config = c.config := by
  have hready := config_ready c
  rw [deed]
  rcases hr : c.ready with ⟨_ | ⟨⟩, c₁⟩ <;> rw [hr] at hready
  · exact hready
  · exact (config_react ..).trans hready

end Core

namespace Machine

/-! ## Telling is no dealing -/

/-- What a machine has to do with others. -/
def trade (m : Machine ν σ) : Trade := ⟨m.registry, dealings m.log⟩

theorem trade_record (m : Machine ν σ) {a : Activity} (ha : a.isDealing = false) :
    (m.record a).trade = m.trade := by
  rw [record, trade, dealings_concat m.log ha]
  rfl

@[simp] theorem trade_enter (m : Machine ν σ) (state : State) : (m.enter state).trade = m.trade :=
  trade_record { m with loop.status.state := state } rfl

@[simp] theorem trade_note (m : Machine ν σ) (n : Notice) : (m.note n).trade = m.trade :=
  trade_record m rfl

@[simp] theorem trade_takeSample (m : Machine ν σ) (now : Nat) (head : UInt64) :
    (m.takeSample now head).trade = m.trade := by
  rw [takeSample]
  rcases m.loop.estimator.sample m.loop.checkpoint head now with ⟨_ | _, _⟩
  · rfl
  · exact trade_note ..

@[simp] theorem trade_noteRegression (m : Machine ν σ) (page : List Transaction) :
    (m.noteRegression page).trade = m.trade := by
  rw [noteRegression]
  split
  · rfl
  · exact trade_note ..

@[simp] theorem trade_giveUp (m : Machine ν σ) (e : Error) : (m.giveUp e).trade = m.trade := by
  rw [giveUp, trade_enter, trade_note]
  rfl

@[simp] theorem trade_sampleProgress [Ledger ν] [Clock ν] (m : Machine ν σ) :
    m.sampleProgress.trade = m.trade := by
  have hasked (w : ν) : trade { m.record .askedHead with outside := w } = m.trade :=
    trade_record m rfl
  rw [sampleProgress]
  simp only
  split
  · split
    · exact hasked _
    · exact (trade_takeSample ..).trans (hasked _)
  · rfl

@[simp] theorem trade_rest [Ledger ν] [Clock ν] (m : Machine ν σ) : m.rest.trade = m.trade := by
  rw [rest, trade_enter, trade_sampleProgress]
  rfl

theorem trade_ready [CommitStore σ] (m : Machine ν σ) : m.ready.2.trade = m.trade := by
  have hloaded : (m.record .loadedCursor).trade = m.trade := trade_record m rfl
  rw [ready]
  split
  · rfl
  · rw [loadCursor]
    rcases CommitStore.loadCursor m.loop.config.id m.store with ⟨_ | _, _⟩
    · exact hloaded
    · exact (trade_record _ rfl).trans hloaded

/-! ## Dealings -/

theorem trade_record_of_dealing (m : Machine ν σ) {a : Activity} (ha : a.isDealing) :
    (m.record a).trade = m.trade.add a := by
  simp [record, trade, Trade.add, dealings, ha]

theorem trade_fanOut (m : Machine ν σ) (b : Batch) : (m.fanOut b).trade = m.trade.fanOut b := by
  rw [fanOut, Trade.fanOut, show m.trade.registry = m.registry from rfl]
  cases m.registry with
  | none => rfl
  | some registry =>
    have hrecord : (m.record (.handedOut b.messages)).trade = m.trade.add (.handedOut b.messages) :=
      trade_record_of_dealing m rfl
    exact (trade_note ..).trans
      (congrArg (fun t : Trade => { t with registry := some (registry.fanOut b).2 }) hrecord)

theorem trade_settle [Ledger ν] [Clock ν] (m : Machine ν σ) (page : List Transaction) (b : Batch)
    (summary : CommitSummary) : (m.settle page b summary).trade = m.trade.fanOut b := by
  rw [settle, trade_enter, trade_fanOut, trade_enter]
  refine congrArg (Trade.fanOut · b) ((trade_sampleProgress _).trans ?_)
  exact trade_note { m with loop := m.loop.account page b } (.committed summary)

/-! ## A round is a deed -/

/-- What was done, with its result, comes to a deed. -/
structure Does (m : Machine ν σ) (r : Except Error Outcome × Machine ν σ) (d : Deed σ) : Prop where
  outcome : r.1 = d.outcome
  core : r.2.core = d.core
  trade : r.2.trade = d.trade m.trade

theorem isSome_regression? (m : Machine ν σ) (page : List Transaction) :
    (m.loop.regression? page).isSome = m.core.isAhead page := by
  unfold Loop.regression? Core.isAhead
  rw [show m.core.cursor = m.loop.cursor from rfl]
  cases m.loop.cursor with
  | none => rfl
  | some c =>
    cases page with
    | nil => rfl
    | cons t page =>
      dsimp only
      cases c.isBehind t.checkpoint <;> rfl

variable [Ledger ν] [Clock ν] [CommitStore σ]

theorem takeIn_eq (m : Machine ν σ) (page : List Transaction) :
    let d := m.core.attempt (Clock.stamp m.outside).1 page
    (m.takeIn page).1 = d.outcome ∧ (m.takeIn page).2.core = d.core ∧
      (m.takeIn page).2.trade = d.deliver m.trade := by
  rw [takeIn, isSome_regression?]
  dsimp only
  set m₁ : Machine ν σ := (m.noteRegression page).enter .reconciling with hm₁
  have hcore₁ : m₁.core = m.core := by simp [hm₁]
  have hout₁ : m₁.outside = m.outside := by simp [hm₁]
  have htrade₁ : m₁.trade = m.trade := by simp [hm₁]
  clear_value m₁
  -- nothing was asked of the world since the page came, so the stamp is the one of the deed
  rw [hout₁]
  generalize (Clock.stamp m.outside).1 = stamp
  generalize hm₂ : ({ m₁ with outside := (Clock.stamp m.outside).2 } : Machine ν σ) = m₂
  have hcore₂ : m₂.core = m.core := by rw [← hm₂, ← hcore₁]; rfl
  have htrade₂ : m₂.trade = m.trade := by rw [← hm₂, ← htrade₁]; rfl
  obtain ⟨hcommit, hcore₃, -⟩ := core_commit m₂ stamp page
  have hbatch : m₂.loop.batchOf stamp page = m.core.config.batchOf stamp page := by
    rw [← hcore₂]
    rfl
  have htrade₃ : (m₂.commit stamp (m₂.loop.batchOf stamp page)).2.trade =
      m.trade.offer (m.core.config.batchOf stamp page) := by
    rw [← htrade₂, hbatch]
    exact trade_record_of_dealing m₂ rfl
  rw [show m₁.loop = m₂.loop by rw [← hm₂], Core.attempt]
  rw [hcore₂] at hcommit hcore₃
  rw [hcommit]
  rcases hc : m₂.commit stamp (m₂.loop.batchOf stamp page) with ⟨e | summary, m₃⟩
  · rw [hc] at hcommit hcore₃ htrade₃
    dsimp only at hcommit hcore₃ htrade₃ ⊢
    rw [hcommit] at hcore₃
    refine ⟨rfl, hcore₃, ?_⟩
    rw [trade_enter, htrade₃]
    rfl
  · rw [hc] at hcommit hcore₃ htrade₃
    dsimp only at hcommit hcore₃ htrade₃ ⊢
    rw [hcommit] at hcore₃
    refine ⟨rfl, ?_, ?_⟩
    · rw [core_settle, hcore₃, hbatch]
      rfl
    · rw [trade_settle, htrade₃, hbatch]
      rfl

/-- **A round is the deed of its core.**  Whatever else a machine tells, its outcome, its core and
its dealings with others are those of the deed. -/
theorem deed_step (m : Machine ν σ) : Does m m.step (m.core.deed m.outside) := by
  obtain ⟨hready, hout⟩ := core_ready m
  have htrade := trade_ready m
  rw [step, Core.deed, hready]
  rcases hr : m.ready with ⟨e | ⟨⟩, m₁⟩
  · rw [hr] at htrade
    exact ⟨rfl, rfl, htrade⟩
  · rw [hr] at hout htrade
    dsimp only at hout htrade ⊢
    obtain ⟨hfetch, hcore⟩ := core_fetch (m₁.enter .fetching)
    have hasked : (m₁.enter .fetching).fetch.2.trade = m.trade.ask m₁.core.question := by
      rw [← htrade, ← trade_enter m₁ .fetching]
      exact trade_record_of_dealing (m₁.enter .fetching) rfl
    rw [core_enter, outside_enter, hout] at hfetch
    rw [core_enter] at hcore
    rw [hfetch]
    rcases hf : (m₁.enter .fetching).fetch with ⟨e | page, m₂⟩
    · rw [hf] at hcore hasked
      exact ⟨rfl, by rw [core_giveUp]; exact hcore, by rw [trade_giveUp]; exact hasked⟩
    · rw [hf] at hcore hasked
      dsimp only at hcore hasked ⊢
      set m₃ : Machine ν σ := { m₂ with loop.status.failuresInRow := 0 } with hm₃
      have hcore₃ : m₃.core = m₁.core := hcore
      have htrade₃ : m₃.trade = m.trade.ask m₁.core.question := hasked
      cases page with
      | nil =>
        rw [List.isEmpty_nil, if_pos rfl]
        exact ⟨rfl, by rw [core_rest, hcore₃]; rfl, by rw [trade_rest, htrade₃]; rfl⟩
      | cons t page =>
        rw [List.isEmpty_cons, if_neg Bool.false_ne_true]
        obtain ⟨h₁, h₂, h₃⟩ := takeIn_eq m₃ (t :: page)
        rw [hcore₃] at h₁ h₂ h₃
        refine ⟨h₁, h₂, h₃.trans ?_⟩
        rw [Deed.trade, Core.asked_react, htrade₃]
        rfl

end Machine

end LedgerIndex.Sync
