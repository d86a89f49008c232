import LedgerIndex.Proofs.Batch.Outcomes
import LedgerIndex.Proofs.Store.Commits
import LedgerIndex.Proofs.Sync.Ledgers
import LedgerIndex.Proofs.Sync.Steering

/-!
# Resuming with a start checkpoint

Which transactions of a page are left out is decided by the configuration and by the page, and not
by where the indexer stands.  So a start checkpoint does the same to an indexer that resumes at a
stored cursor as to one that starts anew.  A run is the replay of what it is told
(`Machine.upshot_rounds`), and two replays that differ in the start checkpoint ask the same, but
store the same only if no transaction is below it (`start_resumed`).
-/

namespace LedgerIndex

/-! ## Stores that log calls -/

/-- What a store holds tells how many calls it has logged, and a batch adds its calls. -/
structure Tallied {α : Type} (take : String → Batch → α → CommitSummary × α) (logged : α → Nat) :
    Prop where
  stored (indexer b a) : logged (take indexer b a).2 = logged a + b.calls.length

theorem Memory.tallied :
    Tallied (fun indexer b m => Memory.commit m 0 indexer b) (·.calls.length) where
  stored indexer b m := by
    show (m.commit 0 indexer b).2.calls.length = _
    rw [Memory.calls_commit, List.length_append]

namespace Sql.Tables

theorem calls_tookIn (t : Tables) (now : Int) (indexer : String) (b : Batch) :
    (t.tookIn now indexer b).calls = t.calls ++ b.calls.map .ofRecord := by
  rw [tookIn, tombstones_eq]
  cases b.cursor <;> rfl

theorem tallied :
    Tallied (fun indexer b t => (Statement.summary b, tookIn t 0 indexer b)) (·.calls.length) where
  stored indexer b t := by
    show (t.tookIn 0 indexer b).calls.length = _
    rw [calls_tookIn, List.length_append, List.length_map]

end Sql.Tables

/-- A store that fails on cue logs what the store behind it logs. -/
theorem Tallied.unreliable {α : Type} {take : String → Batch → α → CommitSummary × α}
    {logged : α → Nat} (h : Tallied take logged) :
    Tallied (fun indexer b (a : Bool × α) => ((take indexer b a.2).1, a.1, (take indexer b a.2).2))
      fun a => logged a.2 where
  stored indexer b a := h.stored indexer b a.2

namespace Sync

variable {ν μ σ α : Type}

/-! ## What a run is told -/

/-- What a machine is told in a round that gets as far as the ledger. -/
structure Reply where
  answer : Except Error (List Transaction)
  /-- what the store says of the batch, if it is given one -/
  verdict : Option (Except Error Unit)

namespace Reply

/-- The page that the store is given. -/
def offered? (r : Reply) : Option (List Transaction) :=
  match r.answer, r.verdict with
  | .ok page, some _ => some page
  | _, _ => none

/-- The page that the store takes in. -/
def taken? (r : Reply) : Option (List Transaction) :=
  match r.answer, r.verdict with
  | .ok page, some (.ok ()) => some page
  | _, _ => none

end Reply

/-- What a core is told in a round, unless the store does not tell the cursor. -/
def Deed.reply? (d : Deed σ) : Option Reply := d.page.map fun answer => ⟨answer, d.verdict⟩

/-- What a machine is told in some rounds. -/
def Machine.replies [Ledger ν] [Clock ν] [CommitStore σ] :
    Machine ν σ → List (Surroundings ν) → List Reply
  | _, [] => []
  | m, s :: ss => (m.core.deed s.outside).reply?.toList ++ replies (m.amid s).step.2 ss

/-! ## Its replay -/

/-- The question for the page after a cursor. -/
def Config.question (config : Config) (cursor : Option Cursor) : Question :=
  ⟨⟨config.tracked⟩, cursor.map (·.digest), config.pageSize⟩

/-- What a run has come to. -/
structure Upshot (α : Type) where
  /-- where the next page begins -/
  cursor : Option Cursor
  questions : List Question
  /-- those that the store was given, times aside -/
  batches : List Batch
  /-- what the store holds -/
  contents : α

/-- The upshot after a reply. -/
def Upshot.round (config : Config) (take : String → Batch → α → CommitSummary × α) (k : Upshot α)
    (r : Reply) : Upshot α where
  cursor := (r.taken?.bind endOf).or k.cursor
  questions := k.questions ++ [config.question k.cursor]
  batches := k.batches ++ (r.offered?.map (config.batchOf 0)).toList
  contents := r.taken?.elim k.contents fun page =>
    (take config.id (config.batchOf 0 page) k.contents).2

/-- Where a core stands, once the store was asked for the cursor. -/
def Core.standing (contents : σ → α) (cursorIn : String → α → Except Error (Option Cursor))
    (c : Core σ) : Option Cursor :=
  if c.isLoaded then c.cursor
  else
    match cursorIn c.config.id (contents c.store) with
    | .error _ => c.cursor
    | .ok found => found.or c.cursor

/-- What a machine has come to. -/
def Machine.upshot (contents : σ → α) (cursorIn : String → α → Except Error (Option Cursor))
    (m : Machine ν σ) : Upshot α :=
  ⟨m.core.standing contents cursorIn, questions m.log, (offers m.log).map (·.atTime 0),
    contents m.store⟩

section Replay

variable [CommitStore σ] {contents : σ → α} {cursorIn : String → α → Except Error (Option Cursor)}
  {take : String → Batch → α → CommitSummary × α} {c c' : Core σ}

theorem Config.atTime_batchOf (config : Config) (stamp time : Int) (page : List Transaction) :
    (config.batchOf stamp page).atTime time = config.batchOf time page :=
  batchOf_atTime config config.progressInterval stamp time page

/-- To be made ready leaves a core where it stands. -/
theorem Core.standing_ready (blind : TimeBlind σ contents cursorIn take) {r : Except Error Unit}
    (hr : c.ready = (r, c')) :
    c'.config = c.config ∧ contents c'.store = contents c.store ∧
      c'.standing contents cursorIn = c.standing contents cursorIn ∧
      (r = .ok () → c'.isLoaded = true) := by
  have hanswer := blind.answered c.config.id c.store
  have hasked := blind.asked c.config.id c.store
  rw [Core.ready] at hr
  split at hr
  · rename_i hloaded
    cases hr
    exact ⟨rfl, rfl, rfl, fun _ => hloaded⟩
  · rename_i hloaded
    rcases hload : CommitStore.loadCursor c.config.id c.store with ⟨e | found, s⟩ <;>
      rw [hload] at hr hanswer hasked <;> cases hr
    · refine ⟨rfl, hasked, ?_, fun h => by cases h⟩
      unfold Core.standing
      rw [hasked]
    · refine ⟨rfl, hasked, ?_, fun _ => rfl⟩
      unfold Core.standing
      rw [if_pos rfl, if_neg hloaded, ← hanswer]
      rfl

/-- What a deed does to where its core stands and to what is stored, and what it asks and offers, as
the reply tells. -/
structure Deed.Follows (contents : σ → α) (cursorIn : String → α → Except Error (Option Cursor))
    (take : String → Batch → α → CommitSummary × α) (c : Core σ) (d : Deed σ) : Prop where
  cursor : d.core.standing contents cursorIn =
    ((d.reply?.bind (·.taken?)).bind endOf).or (c.standing contents cursorIn)
  asked : d.asked = d.reply?.map fun _ => c.config.question (c.standing contents cursorIn)
  offered : d.offered.map (·.atTime 0) =
    (d.reply?.bind (·.offered?)).map (c.config.batchOf 0)
  contents : contents d.core.store =
    (d.reply?.bind (·.taken?)).elim (contents c.store) fun page =>
      (take c.config.id (c.config.batchOf 0 page) (contents c.store)).2

theorem Core.follows_react (blind : TimeBlind σ contents cursorIn take)
    (hloaded : c.isLoaded = true) (stamp : Int) (answer : Except Error (List Transaction)) :
    (c.react stamp answer).Follows contents cursorIn take c := by
  have hstanding : c.standing contents cursorIn = c.cursor := if_pos hloaded
  have hasked : some c.question = some (c.config.question (c.standing contents cursorIn)) := by
    rw [hstanding]
    rfl
  rcases answer with _ | _ | ⟨t, page⟩
  · exact ⟨rfl, hasked, rfl, rfl⟩
  · exact ⟨rfl, hasked, rfl, rfl⟩
  · have hoffered := congrArg some (c.config.atTime_batchOf stamp 0 (t :: page))
    obtain ⟨e, s, hc, h⟩ | ⟨summary, s, hc, h⟩ := c.attempt_cases stamp (t :: page) <;>
      rw [Core.react, h]
    · have hkept : contents s = contents c.store := blind.rejected hc
      refine ⟨?_, hasked, hoffered, hkept⟩
      show Core.standing contents cursorIn { c with store := s } = c.standing contents cursorIn
      rw [hstanding]
      exact if_pos hloaded
    · refine ⟨?_, hasked, hoffered, ?_⟩
      · rw [hstanding]
        exact if_pos hloaded
      · have hstored := congrArg Prod.snd (blind.stored hc)
        rw [c.config.atTime_batchOf] at hstored
        exact hstored

variable [Ledger ν] [Clock ν]

/-- A deed goes by the reply alone. -/
theorem Core.follows_deed (blind : TimeBlind σ contents cursorIn take) (c : Core σ) (w : ν) :
    (c.deed w).Follows contents cursorIn take c := by
  rw [Core.deed]
  rcases hready : c.ready with ⟨e | ⟨⟩, c₁⟩ <;>
    obtain ⟨hconfig, hcontents, hstanding, hloaded⟩ := Core.standing_ready blind hready
  · exact ⟨hstanding, rfl, rfl, hcontents⟩
  · dsimp only
    obtain ⟨h₁, h₂, h₃, h₄⟩ := Core.follows_react blind (hloaded rfl)
      (Clock.stamp (c₁.fetch w).2).1 (c₁.fetch w).1
    rw [hstanding] at h₁ h₂
    rw [hconfig] at h₂ h₃ h₄
    rw [hcontents] at h₄
    exact ⟨h₁, h₂, h₃, h₄⟩

/-- A round takes the upshot further by its reply. -/
theorem Machine.upshot_step (blind : TimeBlind σ contents cursorIn take) (m : Machine ν σ)
    (s : Surroundings ν) :
    (m.amid s).step.2.upshot contents cursorIn =
      (m.core.deed s.outside).reply?.toList.foldl (Upshot.round m.loop.config take)
        (m.upshot contents cursorIn) := by
  obtain ⟨hcursor, hasked, hoffered, hcontents⟩ := Core.follows_deed blind m.core s.outside
  obtain ⟨hquestions, hoffers⟩ := (m.amid s).log_step
  have hcore : (m.amid s).step.2.core = (m.core.deed s.outside).core := (m.amid s).deed_step.core
  have hstore : contents (m.amid s).step.2.store = contents (m.core.deed s.outside).core.store :=
    congrArg (fun c : Core σ => contents c.store) hcore
  have hofferedList := congrArg Option.toList hoffered
  rw [Option.toList_map] at hofferedList
  rw [upshot, hcore, hcursor, hquestions, hoffers, hstore, hcontents, List.map_append]
  show Upshot.mk _ (questions m.log ++ (m.core.deed s.outside).asked.toList)
    ((offers m.log).map (·.atTime 0) ++
      (m.core.deed s.outside).offered.toList.map (·.atTime 0)) _ = _
  rw [hasked, hofferedList]
  cases (m.core.deed s.outside).reply? with
  | none =>
    show Upshot.mk _ (questions m.log ++ []) ((offers m.log).map (·.atTime 0) ++ []) _ = _
    rw [List.append_nil, List.append_nil]
    rfl
  | some r => rfl

/-- **A run is the replay of what it is told.** -/
theorem Machine.upshot_rounds (blind : TimeBlind σ contents cursorIn take) (m : Machine ν σ)
    (ss : List (Surroundings ν)) :
    (m.rounds ss).upshot contents cursorIn =
      (m.replies ss).foldl (Upshot.round m.loop.config take) (m.upshot contents cursorIn) := by
  induction ss generalizing m with
  | nil => rfl
  | cons s ss ih =>
    have hconfig : (m.amid s).step.2.loop.config = m.loop.config := by
      have hcore := congrArg Core.config (m.amid s).deed_step.core
      exact hcore.trans (Core.config_deed m.core s.outside)
    rw [rounds, replies, ih, hconfig, m.upshot_step blind, List.foldl_append]

end Replay

/-! ## With a start checkpoint and without -/

section Starting

variable {take : String → Batch → α → CommitSummary × α} (config : Config) (start : UInt64)

theorem kept_start_none (page : List Transaction) :
    { config with start := none }.kept page = page :=
  List.filter_eq_self.2 fun _ _ => rfl

theorem kept_start_some (page : List Transaction) :
    { config with start := some start }.kept page = page.filter fun t => start ≤ t.checkpoint := rfl

/-! ### Batches -/

theorem callRecords_ne_nil (now : Int) (t : Transaction) : Batch.callRecords now t ≠ [] := by
  intro h
  have hlength := (Batch.logs_callRecords now t).length
  rw [h, List.length_nil] at hlength
  omega

/-- What is filtered out is missing from the calls. -/
theorem length_callRecords_filter (p : Transaction → Bool) (page : List Transaction) :
    ((page.filter p).flatMap (Batch.callRecords 0)).length +
        ((page.filter fun t => !p t).flatMap (Batch.callRecords 0)).length =
      (page.flatMap (Batch.callRecords 0)).length := by
  have hperm := (List.filter_append_perm p page).flatMap_right (Batch.callRecords 0)
  rw [List.flatMap_append] at hperm
  rw [← hperm.length_eq, List.length_append]

/-- As many calls are logged with a start checkpoint as without just if no transaction is below
it. -/
theorem length_callRecords_kept (page : List Transaction) :
    (({ config with start := some start }.kept page).flatMap (Batch.callRecords 0)).length =
        (page.flatMap (Batch.callRecords 0)).length ↔ ∀ t ∈ page, start ≤ t.checkpoint := by
  have hsplit := length_callRecords_filter (fun t => start ≤ t.checkpoint) page
  rw [kept_start_some]
  constructor
  · intro heq t ht
    by_contra hbelow
    have hmissing : (page.filter fun t => !decide (start ≤ t.checkpoint)).flatMap
        (Batch.callRecords 0) = [] :=
      List.length_eq_zero_iff.1 (by omega)
    have hnil := List.flatMap_eq_nil_iff.1 hmissing t
      (List.mem_filter.2 ⟨ht, by simpa using hbelow⟩)
    exact callRecords_ne_nil 0 t hnil
  · intro h
    rw [List.filter_eq_self.2 fun t ht => decide_eq_true (h t ht)]

theorem batchOf_start_eq {page : List Transaction} (h : ∀ t ∈ page, start ≤ t.checkpoint) :
    { config with start := some start }.batchOf 0 page =
      { config with start := none }.batchOf 0 page := by
  have hkept : { config with start := some start }.kept page = page :=
    List.filter_eq_self.2 fun t ht => decide_eq_true (h t ht)
  rw [Config.batchOf, Config.batchOf, hkept, kept_start_none]

/-- The batch of a page is the same with a start checkpoint as without just if no transaction of the
page is below it. -/
theorem batchOf_start_eq_iff (page : List Transaction) :
    { config with start := some start }.batchOf 0 page =
        { config with start := none }.batchOf 0 page ↔ ∀ t ∈ page, start ≤ t.checkpoint := by
  constructor
  · intro h
    have hcalls := congrArg (fun b : Batch => b.calls.length) h
    simp only [Config.batchOf, Batch.calls_ofPage, kept_start_none] at hcalls
    exact (length_callRecords_kept config start page).1 hcalls
  · exact batchOf_start_eq config start

/-! ### Replays -/

theorem batches_foldl_round (replies : List Reply) (k : Upshot α) :
    (replies.foldl (Upshot.round config take) k).batches =
      k.batches ++ (replies.filterMap (·.offered?)).map (config.batchOf 0) := by
  induction replies generalizing k with
  | nil => simp
  | cons r replies ih =>
    rw [List.foldl_cons, ih, Upshot.round, List.filterMap_cons]
    cases r.offered? <;> simp

theorem contents_foldl_round (replies : List Reply) (k : Upshot α) :
    (replies.foldl (Upshot.round config take) k).contents =
      (replies.filterMap (·.taken?)).foldl
        (fun a page => (take config.id (config.batchOf 0 page) a).2) k.contents := by
  induction replies generalizing k with
  | nil => rfl
  | cons r replies ih =>
    rw [List.foldl_cons, ih, Upshot.round, List.filterMap_cons]
    cases r.taken? <;> rfl

/-- What is asked does not go by the start checkpoint. -/
theorem questions_foldl_round (take : String → Batch → α → CommitSummary × α) (config : Config)
    (start : UInt64) (replies : List Reply) {k l : Upshot α}
    (hcursor : l.cursor = k.cursor) (hquestions : l.questions = k.questions) :
    (replies.foldl (Upshot.round { config with start := some start } take) l).questions =
      (replies.foldl (Upshot.round { config with start := none } take) k).questions := by
  induction replies generalizing k l with
  | nil => exact hquestions
  | cons r replies ih =>
    refine ih ?_ ?_
    · show (r.taken?.bind endOf).or l.cursor = (r.taken?.bind endOf).or k.cursor
      rw [hcursor]
    · show l.questions ++ [config.question l.cursor] = k.questions ++ [config.question k.cursor]
      rw [hcursor, hquestions]

/-- The log of calls grows by the calls of the pages. -/
theorem logged_foldl_take {logged : α → Nat} (tallied : Tallied take logged)
    (pages : List (List Transaction)) (a : α) :
    logged (pages.foldl (fun a page => (take config.id (config.batchOf 0 page) a).2) a) =
      logged a + ((config.kept pages.flatten).flatMap (Batch.callRecords 0)).length := by
  induction pages generalizing a with
  | nil => rfl
  | cons page pages ih =>
    have hcalls : (config.batchOf 0 page).calls =
        (config.kept page).flatMap (Batch.callRecords 0) := Batch.calls_ofPage ..
    rw [List.foldl_cons, ih, tallied.stored, hcalls, List.flatten_cons, Config.kept, Config.kept,
      Config.kept, List.filter_append, List.flatMap_append, List.length_append, Nat.add_assoc]

/-- Pages leave the same with a start checkpoint as without just if no transaction is below it. -/
theorem foldl_take_eq_iff {logged : α → Nat} (tallied : Tallied take logged)
    (pages : List (List Transaction)) (a : α) :
    pages.foldl (fun a page =>
        (take config.id ({ config with start := some start }.batchOf 0 page) a).2) a =
      pages.foldl (fun a page =>
        (take config.id ({ config with start := none }.batchOf 0 page) a).2) a ↔
      ∀ page ∈ pages, ∀ t ∈ page, start ≤ t.checkpoint := by
  constructor
  · intro h
    have hsome := logged_foldl_take { config with start := some start } tallied pages a
    have hnone := logged_foldl_take { config with start := none } tallied pages a
    rw [kept_start_none] at hnone
    have hlogs := hsome.symm.trans ((congrArg logged h).trans hnone)
    have hall := (length_callRecords_kept config start pages.flatten).1 (Nat.add_left_cancel hlogs)
    intro page hpage t ht
    exact hall t (List.mem_flatten.2 ⟨page, hpage, ht⟩)
  · intro h
    refine List.foldl_ext _ _ _ fun a page hpage => ?_
    rw [batchOf_start_eq config start (h page hpage)]

variable [Ledger ν] [Clock ν] [Ledger μ] [Clock μ] [CommitStore σ] {contents : σ → α}
  {cursorIn : String → α → Except Error (Option Cursor)}

/-- **A start checkpoint acts on a resumed indexer too.**  Two indexers, one with a start checkpoint
and one without, resume over stores that hold the same, whatever cursor is stored there, and are told
the same.  Then both ask the ledger the same, so that what one of them leaves out is not asked for
again.  But the batches that they give to their stores are the same just if no transaction on a page
that is given to a store is below the start checkpoint, and what the stores hold in the end, in rows
and logs, is the same just if no transaction on a page that is taken in is below it. -/
theorem start_resumed (blind : TimeBlind σ contents cursorIn take) {logged : α → Nat}
    (tallied : Tallied take logged) (store store' : σ) (hstore : contents store' = contents store)
    (w : ν) (v : μ) (registry registry' : Option Registry) (ss : List (Surroundings ν))
    (ts : List (Surroundings μ))
    (hreplies :
      (Machine.new { config with start := some start } v store' registry').replies ts =
        (Machine.new { config with start := none } w store registry).replies ss) :
    let m : Machine ν σ := .new { config with start := none } w store registry
    let n : Machine μ σ := .new { config with start := some start } v store' registry'
    questions (n.rounds ts).log = questions (m.rounds ss).log ∧
      ((offers (n.rounds ts).log).map (·.atTime 0) = (offers (m.rounds ss).log).map (·.atTime 0) ↔
        ∀ page ∈ (m.replies ss).filterMap (·.offered?), ∀ t ∈ page, start ≤ t.checkpoint) ∧
      (contents (n.rounds ts).store = contents (m.rounds ss).store ↔
        ∀ page ∈ (m.replies ss).filterMap (·.taken?), ∀ t ∈ page, start ≤ t.checkpoint) := by
  intro m n
  have hm := m.upshot_rounds blind ss
  have hn := n.upshot_rounds blind ts
  rw [hreplies] at hn
  have hcursor : (n.upshot contents cursorIn).cursor = (m.upshot contents cursorIn).cursor := by
    show n.core.standing contents cursorIn = m.core.standing contents cursorIn
    unfold Core.standing
    rw [show contents n.core.store = contents m.core.store from hstore]
    rfl
  refine ⟨?_, ?_, ?_⟩
  · have hnasked := congrArg Upshot.questions hn
    have hmasked := congrArg Upshot.questions hm
    have hasked := questions_foldl_round take config start (m.replies ss) hcursor rfl
    exact hnasked.trans (hasked.trans hmasked.symm)
  · have hmoffers := (congrArg Upshot.batches hm).trans (batches_foldl_round _ _ _)
    have hnoffers := (congrArg Upshot.batches hn).trans (batches_foldl_round _ _ _)
    rw [show (offers (n.rounds ts).log).map (·.atTime 0) = _ from hnoffers,
      show (offers (m.rounds ss).log).map (·.atTime 0) = _ from hmoffers]
    show List.map _ _ = List.map _ _ ↔ _
    rw [List.map_inj_left]
    exact forall₂_congr fun page _ => batchOf_start_eq_iff config start page
  · have hmcontents := (congrArg Upshot.contents hm).trans (contents_foldl_round _ _ _)
    have hncontents := (congrArg Upshot.contents hn).trans (contents_foldl_round _ _ _)
    rw [show contents (n.rounds ts).store = _ from hncontents,
      show contents (m.rounds ss).store = _ from hmcontents]
    show List.foldl _ (contents store') _ = List.foldl _ (contents store) _ ↔ _
    rw [hstore]
    exact foldl_take_eq_iff config start tallied _ _

end Starting

/-! ### Resumed at checkpoint five -/

/-- A store with a cursor. -/
def bookmarked : Memory := Memory.empty.saveCursor 0 "default" ⟨"z", 5⟩

/-- An indexer that resumes there. -/
def resumedFrom (start : Option UInt64) : Machine Scripted.LedgerScript Memory :=
  .new { Config.usual with start := start } mute bookmarked none

/-- Rounds in which the ledger gives some pages. -/
def giving (pages : List (List Transaction)) : List (Surroundings Scripted.LedgerScript) :=
  pages.map fun page => ⟨⟨[⟨.ok page, none⟩], [.ok 40], false, false, false, 0, 0⟩, none⟩

/-- The indexer after rounds in which it is given some pages. -/
def resumed (start : Option UInt64) (pages : List (List Transaction)) :
    Machine Scripted.LedgerScript Memory :=
  (resumedFrom start).rounds (giving pages)

/-- A page past the cursor, in part below ten. -/
def straddling : List Transaction := [sold "a" 6, sold "b" 12]

/-- A page of which nothing is below ten. -/
def beyond : List Transaction := [sold "a" 10, sold "b" 12]

theorem start_resumed_ten :
    bookmarked.cursorOf "default" = some ⟨"z", 5⟩ ∧
      (resumedFrom (some 10)).replies (giving [straddling, []]) =
        (resumedFrom none).replies (giving [straddling, []]) ∧
      questions (resumed (some 10) [straddling, []]).log =
        [⟨⟨""⟩, some "z", 50⟩, ⟨⟨""⟩, some "b", 50⟩] ∧
      (resumed (some 10) [straddling, []]).store.atTime 0 ≠
        (resumed none [straddling, []]).store.atTime 0 ∧
      (resumed (some 10) [beyond, []]).store.atTime 0 =
        (resumed none [beyond, []]).store.atTime 0 := by
  have hstraddling : (resumedFrom (some 10)).replies (giving [straddling, []]) =
      (resumedFrom none).replies (giving [straddling, []]) := rfl
  have hbeyond : (resumedFrom (some 10)).replies (giving [beyond, []]) =
      (resumedFrom none).replies (giving [beyond, []]) := rfl
  obtain ⟨hquestions, -, hdiffer⟩ := start_resumed Config.usual 10 Memory.timeBlind Memory.tallied
    bookmarked bookmarked rfl mute mute none none _ _ hstraddling
  obtain ⟨-, -, hagree⟩ := start_resumed Config.usual 10 Memory.timeBlind Memory.tallied
    bookmarked bookmarked rfl mute mute none none _ _ hbeyond
  refine ⟨rfl, hstraddling, hquestions.trans rfl, fun h => ?_, hagree.2 ?_⟩
  · have hten := hdiffer.1 h straddling (.head _) (sold "a" 6) (.head _)
    exact absurd hten (by decide)
  · intro page hpage
    obtain rfl : page = beyond := List.mem_singleton.1 hpage
    decide

/-- A transaction that sets a row. -/
def stocked : Transaction :=
  ⟨"a", 6, 0, "0x1", [],
    [⟨"0x1::shop::Row", "0x2", .object [("name", .string "stock"), ("value", .ofUInt64 1)]⟩]⟩

/-- A row that is set past the stored cursor, but below the start checkpoint, is missing. -/
theorem start_hides_stock :
    bookmarked.cursorOf "default" = some ⟨"z", 5⟩ ∧
      (resumedFrom (some 10)).replies (giving [[stocked]]) =
        (resumedFrom none).replies (giving [[stocked]]) ∧
      ((resumed none [[stocked]]).store.row? ⟨"stock", none, none⟩).map (·.checkpoint) = some 6 ∧
      ((resumed (some 10) [[stocked]]).store.row? ⟨"stock", none, none⟩).isNone ∧
      (offers (resumed none [[stocked]]).log).map (·.changes.length) = [1] ∧
      (offers (resumed (some 10) [[stocked]]).log).map (·.changes.length) = [0] ∧
      (resumed none [[stocked]]).store.calls.length = 1 ∧
      (resumed (some 10) [[stocked]]).store.calls.length = 0 ∧
      (resumed (some 10) [[stocked]]).store.cursorOf "default" = some ⟨"a", 6⟩ := by
  refine ⟨rfl, rfl, ?_, ?_, ?_, ?_, ?_, ?_, rfl⟩ <;> decide +kernel

end Sync

end LedgerIndex
