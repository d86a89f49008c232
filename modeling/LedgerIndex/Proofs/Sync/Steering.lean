import LedgerIndex.Proofs.Store.Times
import LedgerIndex.Proofs.Subscription.Delivery
import LedgerIndex.Proofs.Sync.Dealings
import LedgerIndex.Scripted.Ledger

/-!
# What steers an indexer

An indexer is steered by the pages that it gets and by what the store makes of its batches, and by
nothing else.  Two machines whose cores are alike, given the same answers in a round, do the same in
it and stay alike (`Alike.deed`).  So it is along a whole run (`steered`), however the worlds around
them differ: in the head of the ledger, the clock, the interval of progress samples and the
subscribers.  Whether anyone listens to the status and the reports is not even part of a machine:
they are written to its log in any case.
-/

namespace LedgerIndex.Sync

variable {ν μ σ α : Type}

/-! ## Runs in changing surroundings -/

/-- What is around a machine in a round. -/
structure Surroundings (ν : Type) where
  outside : ν
  registry : Option Registry

namespace Machine

/-- A machine in some surroundings. -/
def amid (m : Machine ν σ) (s : Surroundings ν) : Machine ν σ :=
  { m with outside := s.outside, registry := s.registry }

variable [Ledger ν] [Clock ν] [CommitStore σ]

/-- A machine after some rounds. -/
def rounds : Machine ν σ → List (Surroundings ν) → Machine ν σ
  | m, [] => m
  | m, s :: ss => rounds (m.amid s).step.2 ss

/-- How the rounds end. -/
def outcomes : Machine ν σ → List (Surroundings ν) → List (Except Error Outcome)
  | _, [] => []
  | m, s :: ss => (m.amid s).step.1 :: outcomes (m.amid s).step.2 ss

/-- What the ledger answers to the questions for pages, in order. -/
def pages : Machine ν σ → List (Surroundings ν) → List (Except Error (List Transaction))
  | _, [] => []
  | m, s :: ss => (m.core.deed s.outside).page.toList ++ pages (m.amid s).step.2 ss

/-- What becomes of the batches that the store is given, in order. -/
def verdicts : Machine ν σ → List (Surroundings ν) → List (Except Error Unit)
  | _, [] => []
  | m, s :: ss => (m.core.deed s.outside).verdict.toList ++ verdicts (m.amid s).step.2 ss

end Machine

/-! ## One round -/

/-- Two cores that differ in the interval of progress samples and in times only. -/
structure Alike (contents : σ → α) (c d : Core σ) : Prop where
  config : ∃ interval, d.config = { c.config with progressInterval := interval }
  cursor : d.cursor = c.cursor
  isLoaded : d.isLoaded = c.isLoaded
  store : contents d.store = contents c.store

/-- The batch of a page does not go by the interval of progress samples nor, times aside, by when it
is made. -/
theorem batchOf_atTime (config : Config) (interval : Nat) (stamp time : Int)
    (page : List Transaction) :
    ({ config with progressInterval := interval }.batchOf stamp page).atTime time =
      config.batchOf time page := by
  have hpage := Batch.ofPage_atTime config.events stamp time (config.kept page)
  rw [Config.batchOf, Config.batchOf, ← hpage]
  rfl

section Blind

variable [CommitStore σ] {contents : σ → α} {cursorIn : String → α → Except Error (Option Cursor)}
  {take : String → Batch → α → CommitSummary × α} {c d : Core σ}

/-- Cores that are alike are made ready alike. -/
theorem Alike.ready (blind : TimeBlind σ contents cursorIn take) (h : Alike contents c d) :
    d.ready.1 = c.ready.1 ∧ Alike contents c.ready.2 d.ready.2 := by
  obtain ⟨interval, hconfig⟩ := h.config
  have hid : d.config.id = c.config.id := by rw [hconfig]
  have hanswer := blind.answered d.config.id d.store
  rw [h.store, hid, ← blind.answered c.config.id c.store] at hanswer
  have hc := blind.asked c.config.id c.store
  have hd := blind.asked c.config.id d.store
  by_cases hloaded : c.isLoaded
  · rw [Core.ready, Core.ready, if_pos hloaded, if_pos (h.isLoaded.trans hloaded)]
    exact ⟨rfl, h⟩
  · rw [Core.ready, Core.ready, if_neg hloaded, if_neg (by rwa [h.isLoaded]), hid]
    rcases hsc : CommitStore.loadCursor c.config.id c.store with ⟨e | found, s⟩ <;>
      rcases hsd : CommitStore.loadCursor c.config.id d.store with ⟨e' | found', s'⟩ <;>
      rw [hsc] at hanswer hc <;> rw [hsd] at hanswer hd <;>
      simp only [Except.map, reduceCtorEq, Except.ok.injEq, Except.error.injEq] at hanswer
    · exact ⟨by rw [hanswer], h.config, h.cursor, h.isLoaded, hd.trans (h.store.trans hc.symm)⟩
    · refine ⟨rfl, h.config, ?_, rfl, hd.trans (h.store.trans hc.symm)⟩
      dsimp only
      rw [hanswer, h.cursor]

/-- What two cores do alike, times aside. -/
structure SameDeed (contents : σ → α) (a b : Deed σ) : Prop where
  outcome : b.outcome = a.outcome
  asked : b.asked = a.asked
  offered : b.offered.map (·.atTime 0) = a.offered.map (·.atTime 0)
  core : Alike contents a.core b.core

omit [CommitStore σ] in
theorem Alike.question (h : Alike contents c d) : d.question = c.question := by
  obtain ⟨interval, hconfig⟩ := h.config
  rw [Core.question, Core.question, hconfig, h.cursor]

/-- Cores that are alike attempt to store a page alike, if the store says the same. -/
theorem Alike.attempt (blind : TimeBlind σ contents cursorIn take) (h : Alike contents c d)
    (stamp stamp' : Int) (page : List Transaction)
    (hverdict : (d.attempt stamp' page).verdict = (c.attempt stamp page).verdict) :
    SameDeed contents (c.attempt stamp page) (d.attempt stamp' page) := by
  obtain ⟨interval, hconfig⟩ := h.config
  have hid : d.config.id = c.config.id := by rw [hconfig]
  have hbatch :
      (d.config.batchOf stamp' page).atTime 0 = (c.config.batchOf stamp page).atTime 0 := by
    rw [hconfig, batchOf_atTime]
    exact (batchOf_atTime c.config c.config.progressInterval stamp 0 page).symm
  have hahead : d.isAhead page = c.isAhead page := by
    unfold Core.isAhead
    rw [h.cursor]
  obtain ⟨e, s, hc, hcd⟩ | ⟨summary, s, hc, hcd⟩ := c.attempt_cases stamp page <;>
    obtain ⟨e', s', hd, hdd⟩ | ⟨summary', s', hd, hdd⟩ := d.attempt_cases stamp' page <;>
    rw [hcd, hdd] at hverdict ⊢ <;>
    simp only [Option.some.injEq, reduceCtorEq, Except.error.injEq] at hverdict
  · refine ⟨congrArg Except.error hverdict, congrArg some h.question, congrArg some hbatch, h.config,
      h.cursor, h.isLoaded, ?_⟩
    exact (blind.rejected hd).trans (h.store.trans (blind.rejected hc).symm)
  · -- what the store holds, and its answer, go by what it held and by the batch
    have hstored := blind.stored hd
    rw [hbatch, h.store, hid, ← blind.stored hc, Prod.mk.injEq] at hstored
    exact ⟨by simp only [hstored.1, hahead], congrArg some h.question, congrArg some hbatch,
      h.config, congrArg (endOf page).or h.cursor, h.isLoaded, hstored.2⟩

/-- Cores that are alike react to an answer alike, if the store says the same. -/
theorem Alike.react (blind : TimeBlind σ contents cursorIn take) (h : Alike contents c d)
    (stamp stamp' : Int) (answer : Except Error (List Transaction))
    (hverdict : (d.react stamp' answer).verdict = (c.react stamp answer).verdict) :
    SameDeed contents (c.react stamp answer) (d.react stamp' answer) := by
  rcases answer with _ | _ | ⟨t, page⟩
  · exact ⟨rfl, congrArg some h.question, rfl, h⟩
  · exact ⟨rfl, congrArg some h.question, rfl, h⟩
  · exact h.attempt blind stamp stamp' (t :: page) hverdict

/-- Whether the store is given a batch is a matter of the answer. -/
theorem verdict_react (c d : Core σ) (stamp stamp' : Int)
    (answer : Except Error (List Transaction)) :
    (d.react stamp' answer).verdict.isSome = (c.react stamp answer).verdict.isSome := by
  rcases answer with _ | _ | ⟨t, page⟩
  · rfl
  · rfl
  · obtain ⟨e, s, -, hc⟩ | ⟨summary, s, -, hc⟩ := c.attempt_cases stamp (t :: page) <;>
      obtain ⟨e', s', -, hd⟩ | ⟨summary', s', -, hd⟩ := d.attempt_cases stamp' (t :: page) <;>
      rw [Core.react, Core.react, hc, hd] <;> rfl

end Blind

/-- If both or neither lead, the rest is the same too. -/
theorem eq_of_toList_append_eq {β : Type} {a b : Option β} {as bs : List β}
    (hsome : b.isSome = a.isSome) (h : b.toList ++ bs = a.toList ++ as) : b = a ∧ bs = as := by
  cases a <;> cases b <;> simp_all

section Rounds

variable [Ledger ν] [Clock ν] [Ledger μ] [Clock μ] [CommitStore σ] {contents : σ → α}
  {cursorIn : String → α → Except Error (Option Cursor)}
  {take : String → Batch → α → CommitSummary × α} {c d : Core σ}

/-- **Cores that are alike act alike.**  Given that the answers to come, those of this round at the
head, are the same, both do the same in this round, and those that remain are the same. -/
theorem Alike.deed (blind : TimeBlind σ contents cursorIn take) (h : Alike contents c d) (w : ν)
    (v : μ) {ps qs : List (Except Error (List Transaction))} {us vs : List (Except Error Unit)}
    (hpages : (d.deed v).page.toList ++ qs = (c.deed w).page.toList ++ ps)
    (hverdicts : (d.deed v).verdict.toList ++ vs = (c.deed w).verdict.toList ++ us) :
    SameDeed contents (c.deed w) (d.deed v) ∧ qs = ps ∧ vs = us := by
  obtain ⟨hready, hlike⟩ := h.ready blind
  rw [Core.deed, Core.deed] at hpages hverdicts ⊢
  rcases hc : c.ready with ⟨e | ⟨⟩, c₁⟩ <;> rcases hd : d.ready with ⟨e' | ⟨⟩, d₁⟩ <;>
    rw [hc, hd] at hready hlike hpages hverdicts <;>
    simp only [reduceCtorEq, Except.error.injEq] at hready
  · exact ⟨⟨congrArg Except.error hready, rfl, rfl, hlike⟩, hpages, hverdicts⟩
  · -- both ask for a page, so the answers of this round are at the head of both lists
    dsimp only at hlike hpages hverdicts ⊢
    generalize (Clock.stamp (c₁.fetch w).2).1 = stamp at *
    generalize (Clock.stamp (d₁.fetch v).2).1 = stamp' at *
    obtain ⟨hpage, hqs⟩ :=
      eq_of_toList_append_eq (by simp only [Core.page_react, Option.isSome_some]) hpages
    rw [Core.page_react, Core.page_react, Option.some.injEq] at hpage
    rw [hpage] at hverdicts ⊢
    obtain ⟨hverdict, hvs⟩ := eq_of_toList_append_eq (verdict_react ..) hverdicts
    exact ⟨hlike.react blind stamp stamp' _ hverdict, hqs, hvs⟩

/-! ## Runs -/

/-- Two machines that are alike at the core, and have asked the ledger and given the store the
same. -/
structure Abreast (contents : σ → α) (m : Machine ν σ) (n : Machine μ σ) : Prop where
  core : Alike contents m.core n.core
  questions : questions n.log = questions m.log
  offers : (offers n.log).map (·.atTime 0) = (offers m.log).map (·.atTime 0)

/-- A round adds to the log what its deed says. -/
theorem Machine.log_step (m : Machine ν σ) :
    questions m.step.2.log = questions m.log ++ (m.core.deed m.outside).asked.toList ∧
      offers m.step.2.log = offers m.log ++ (m.core.deed m.outside).offered.toList := by
  have htrade : dealings m.step.2.log = ((m.core.deed m.outside).trade m.trade).dealings :=
    congrArg Trade.dealings m.deed_step.trade
  constructor
  · rw [← questions_dealings, htrade, Deed.questions_trade, ← questions_dealings m.log]
    rfl
  · rw [← offers_dealings, htrade, Deed.offers_trade, ← offers_dealings m.log]
    rfl

variable {m : Machine ν σ} {n : Machine μ σ}

/-- A round keeps machines abreast, whatever is around them, if they are answered the same. -/
theorem Abreast.step (blind : TimeBlind σ contents cursorIn take) (h : Abreast contents m n)
    (s : Surroundings ν) (t : Surroundings μ) {ps qs : List (Except Error (List Transaction))}
    {us vs : List (Except Error Unit)}
    (hpages : (n.core.deed t.outside).page.toList ++ qs = (m.core.deed s.outside).page.toList ++ ps)
    (hverdicts : (n.core.deed t.outside).verdict.toList ++ vs =
      (m.core.deed s.outside).verdict.toList ++ us) :
    (n.amid t).step.1 = (m.amid s).step.1 ∧ Abreast contents (m.amid s).step.2 (n.amid t).step.2 ∧
      qs = ps ∧ vs = us := by
  obtain ⟨hdeed, hqs, hvs⟩ := h.core.deed blind s.outside t.outside hpages hverdicts
  have hm := (m.amid s).deed_step
  have hn := (n.amid t).deed_step
  obtain ⟨hmq, hmo⟩ := (m.amid s).log_step
  obtain ⟨hnq, hno⟩ := (n.amid t).log_step
  refine ⟨?_, ⟨?_, ?_, ?_⟩, hqs, hvs⟩
  · rw [hm.outcome, hn.outcome]
    exact hdeed.outcome
  · rw [hm.core, hn.core]
    exact hdeed.core
  · rw [hmq, hnq]
    exact congrArg₂ (· ++ ·) h.questions (congrArg Option.toList hdeed.asked)
  · have hoffered := congrArg Option.toList hdeed.offered
    rw [Option.toList_map, Option.toList_map] at hoffered
    rw [hmo, hno, List.map_append, List.map_append]
    exact congrArg₂ (· ++ ·) h.offers hoffered

/-- Machines that are answered the same stay abreast along a run, and their rounds end the same. -/
theorem Abreast.rounds (blind : TimeBlind σ contents cursorIn take) (h : Abreast contents m n)
    {ss : List (Surroundings ν)} {ts : List (Surroundings μ)} (hlength : ts.length = ss.length)
    (hpages : n.pages ts = m.pages ss) (hverdicts : n.verdicts ts = m.verdicts ss) :
    n.outcomes ts = m.outcomes ss ∧ Abreast contents (m.rounds ss) (n.rounds ts) := by
  induction ss generalizing m n ts with
  | nil =>
    obtain rfl := List.length_eq_zero_iff.1 hlength
    exact ⟨rfl, h⟩
  | cons s ss ih =>
    cases ts with
    | nil => cases hlength
    | cons t ts =>
      obtain ⟨houtcome, hstep, hqs, hvs⟩ := h.step blind s t hpages hverdicts
      obtain ⟨houtcomes, hrest⟩ := ih hstep (Nat.succ.inj hlength) hqs hvs
      exact ⟨congrArg₂ List.cons houtcome houtcomes, hrest⟩

/-- **Observation never steers.**  Two machines have configurations that are equal but for the
interval of progress samples, and stores that hold the same but for times, and are given the same
answers to their questions for pages and the same answers to their batches.  Then their rounds end
the same, they have asked the same and given the store the same, times aside, and their stores and
cursors are the same: whatever the worlds around them, their registries and what subscribers did to
these. -/
theorem steered (blind : TimeBlind σ contents cursorIn take) (config : Config) (interval : Nat)
    (store store' : σ) (hstore : contents store' = contents store) (w : ν) (v : μ)
    (registry registry' : Option Registry) (ss : List (Surroundings ν))
    (ts : List (Surroundings μ)) (hlength : ts.length = ss.length)
    (hpages :
      (Machine.new { config with progressInterval := interval } v store' registry').pages ts =
        (Machine.new config w store registry).pages ss)
    (hverdicts :
      (Machine.new { config with progressInterval := interval } v store' registry').verdicts ts =
        (Machine.new config w store registry).verdicts ss) :
    let m : Machine ν σ := .new config w store registry
    let n : Machine μ σ := .new { config with progressInterval := interval } v store' registry'
    n.outcomes ts = m.outcomes ss ∧
      questions (n.rounds ts).log = questions (m.rounds ss).log ∧
      (offers (n.rounds ts).log).map (·.atTime 0) = (offers (m.rounds ss).log).map (·.atTime 0) ∧
      contents (n.rounds ts).store = contents (m.rounds ss).store ∧
      (n.rounds ts).loop.cursor = (m.rounds ss).loop.cursor := by
  intro m n
  have hstart : Abreast contents m n := ⟨⟨⟨interval, rfl⟩, rfl, rfl, hstore⟩, rfl, rfl⟩
  obtain ⟨houtcomes, hend⟩ := hstart.rounds blind hlength hpages hverdicts
  exact ⟨houtcomes, hend.questions, hend.offers, hend.core.store, hend.core.cursor⟩

end Rounds

/-! ### Two worlds -/

/-- A transaction with a log entry. -/
def sold (digest : String) (checkpoint : UInt64) : Transaction :=
  ⟨digest, checkpoint, 0, "0x1", [],
    [⟨"0x1::shop::Sold", "0x2", .object [("name", .string "sold_event")]⟩]⟩

/-- What the ledger answers in five rounds: nothing to the question, a page that is given twice, one
behind the cursor, and an empty one. -/
def replies : List (Except Error (List Transaction)) :=
  [.error (.rpc "no answer"), .ok [sold "a" 5, sold "b" 9], .ok [sold "a" 5, sold "b" 9],
    .ok [sold "c" 7], .ok []]

/-- A world in which the head is not told and the clock stands low, without subscribers. -/
def silent : List (Surroundings Scripted.LedgerScript) :=
  replies.map fun page =>
    ⟨⟨[⟨page, none⟩], [.error (.rpc "no head")], false, false, false, 0, 0⟩, none⟩

/-- A world with a head and a clock that is later, and with subscribers: the mailbox of one is full,
and the other is gone. -/
def noisy : List (Surroundings Scripted.LedgerScript) :=
  replies.map fun page =>
    ⟨⟨[⟨page, none⟩], [.ok 40], false, false, false, 7000000, 1700⟩,
      some ((Registry.new 2 1).run [.register, .setFilters 1 [.entries none none],
        .pushAll [.ofEvent ⟨"0x2", 1, "z", "old", "old_event", .null, 0⟩], .register,
        .setFilters 2 [.entries none none], .dropMailbox 2])⟩

/-- A store with a cursor that was stored at a time, and that refuses the first batch. -/
def refusingFirst (time : Int) : Unreliable Memory :=
  ⟨Memory.empty.saveCursor time "default" ⟨"z", 8⟩, false, [1], 0⟩

/-- A ledger without answers. -/
def mute : Scripted.LedgerScript := ⟨[], [], false, false, false, 0, 0⟩

def unheard : Machine Scripted.LedgerScript (Unreliable Memory) :=
  .new Config.usual mute (refusingFirst 0) none

def observed : Machine Scripted.LedgerScript (Unreliable Memory) :=
  .new { Config.usual with progressInterval := 1 } mute (refusingFirst 900) none

theorem steered_noisy :
    (refusingFirst 900).store.atTime 0 = (refusingFirst 0).store.atTime 0 ∧
      noisy.length = silent.length ∧ observed.pages noisy = unheard.pages silent ∧
      observed.verdicts noisy = unheard.verdicts silent ∧
      observed.outcomes noisy = unheard.outcomes silent ∧
      (unheard.outcomes silent).map (·.toOption) =
        [some .fetchFailed, none, some (.committed ⟨2, 2, 0, 0, some ⟨"b", 9⟩⟩ true),
          some (.committed ⟨1, 1, 0, 0, some ⟨"c", 7⟩⟩ true), some .empty] ∧
      questions (observed.rounds noisy).log = questions (unheard.rounds silent).log ∧
      (observed.rounds noisy).store.store.atTime 0 = (unheard.rounds silent).store.store.atTime 0 ∧
      (observed.rounds noisy).loop.cursor = (unheard.rounds silent).loop.cursor := by
  have hstore : (refusingFirst 900).store.atTime 0 = (refusingFirst 0).store.atTime 0 := by rfl
  have hpages : observed.pages noisy = unheard.pages silent := by rfl
  have hverdicts : observed.verdicts noisy = unheard.verdicts silent := by rfl
  obtain ⟨houtcomes, hquestions, -, hcontents, hcursor⟩ := steered Memory.timeBlind.unreliable
    Config.usual 1 (refusingFirst 0) (refusingFirst 900) (congrArg (Prod.mk false) hstore) mute mute
    none none silent noisy rfl hpages hverdicts
  exact ⟨hstore, rfl, hpages, hverdicts, houtcomes, by decide +kernel, hquestions,
    congrArg Prod.snd hcontents, hcursor⟩

end LedgerIndex.Sync
