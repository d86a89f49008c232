import LedgerIndex.Proofs.Batch.Pages
import LedgerIndex.Proofs.Store.Commits
import LedgerIndex.Proofs.Sync.Ledgers

/-!
# Each transaction is taken in exactly once

Whatever fails and however often the indexer is built anew, the store holds what some first part of
the ledger's history comes to, and its cursor is at the end of that part.  One round keeps this
(`Synced.round`): a page that is stored begins where that part ends, and a page that is not stored
leaves everything as it was.
-/

namespace LedgerIndex.Sync

variable {ν σ : Type} {config : Config} {part page history : List Transaction}

theorem Config.kept_append (config : Config) (p q : List Transaction) :
    config.kept (p ++ q) = config.kept p ++ config.kept q := List.filter_append ..

/-! ## What the store holds -/

/-- The store holds what a part of the history comes to, times apart, and its cursor is at the end
of that part. -/
structure Holds (config : Config) (part : List Transaction) (m : Memory) : Prop where
  cursor : (m.cursor? config.id).map (·.cursor) = endOf part
  calls : m.calls.map (·.atTime 0) = (Batch.ofPage config.events 0 (config.kept part)).calls
  events : m.events.map (·.atTime 0) = (Batch.ofPage config.events 0 (config.kept part)).events

theorem holds_empty (config : Config) : Holds config [] .empty := ⟨rfl, rfl, rfl⟩

/-- A page that is stored adds its transactions to the part. -/
theorem Holds.commit {m : Memory} (h : Holds config part m) (stamp : Int) (hp : page ≠ []) :
    Holds config (part ++ page) (m.commit stamp config.id (config.batchOf stamp page)).2 where
  cursor := by
    obtain ⟨c, hc⟩ := Option.isSome_iff_exists.1 (endOf_isSome hp)
    rw [Memory.cursor?_commit (c := c) hc, endOf_append, hc]
    rfl
  calls := by
    rw [Memory.calls_commit, List.map_append, h.calls, Config.kept_append,
      Batch.calls_ofPage_append,
      ← Batch.calls_ofPage_atTime config.events stamp 0 (config.kept page)]
    rfl
  events := by
    rw [Memory.events_commit, List.map_append, h.events, Config.kept_append,
      Batch.events_ofPage_append,
      ← Batch.events_ofPage_atTime config.events stamp 0 (config.kept page)]
    rfl

/-! ## One round -/

/-- The core stands at the end of a part of the history, which is what its store holds.  Before the
store was asked, it has no cursor. -/
structure Synced (config : Config) (view : σ → Memory) (part : List Transaction) (c : Core σ) :
    Prop where
  config_eq : c.config = config
  holds : Holds config part (view c.store)
  cursor : c.cursor = if c.isLoaded then endOf part else none

variable {view : σ → Memory} {c c' : Core σ}

theorem Synced.ready_error [CommitStore σ] (store : Keeps σ view)
    (h : Synced config view part c) {e : Error} (hr : c.ready = (.error e, c')) :
    Synced config view part c' := by
  rw [Core.ready] at hr
  split at hr
  · cases hr
  · split at hr
    · rename_i s hs
      cases hr
      exact ⟨h.config_eq, by rw [store.refused hs]; exact h.holds, h.cursor⟩
    · cases hr

theorem Synced.ready_ok [CommitStore σ] (store : Keeps σ view) (h : Synced config view part c)
    (hr : c.ready = (.ok (), c')) :
    Synced config view part c' ∧ c'.cursor = endOf part ∧ c'.isLoaded := by
  rw [Core.ready] at hr
  split at hr
  · rename_i hl
    cases hr
    exact ⟨h, by rw [h.cursor, if_pos hl], hl⟩
  · rename_i hl
    split at hr
    · cases hr
    · rename_i found s hs
      obtain ⟨hfound, hview⟩ := store.loaded hs
      have hcursor : (found.map (·.cursor)).or c.cursor = endOf part := by
        rw [h.cursor, if_neg hl, Option.or_none, hfound, h.config_eq, h.holds.cursor]
      cases hr
      exact ⟨⟨h.config_eq, by rw [hview]; exact h.holds, by rw [if_pos rfl]; exact hcursor⟩,
        hcursor, rfl⟩

/-- The digest after which a page is asked for belongs to the history. -/
theorem digest_mem_of_endOf (hp : part <+: history) :
    ∀ d ∈ (endOf part).map (·.digest), d ∈ history.map (·.digest) := by
  intro d hd
  simp only [endOf, Option.map_map, Option.mem_def, Option.map_eq_some_iff] at hd
  obtain ⟨t, ht, rfl⟩ := hd
  exact List.mem_map_of_mem (hp.subset (List.mem_of_getLast? ht))

/-- A page that the ledger gives goes on where the part ends. -/
theorem page_extends [Ledger ν] [Clock ν] {object : String} {history : ν → List Transaction}
    (ledger : Truthful ν object history) {w w' : ν} {limit : Nat} (hp : part <+: history w)
    (hf : Ledger.fetchPage ⟨object⟩ ((endOf part).map (·.digest)) limit w = (.ok page, w')) :
    part ++ page <+: history w' := by
  have hgrow : history w <+: history w' := by
    have := ledger.fetch_grows ((endOf part).map (·.digest)) limit w
    rwa [hf] at this
  obtain ⟨hpage, -⟩ := ledger.page hf (digest_mem_of_endOf hp)
  obtain ⟨rest, hrest⟩ := hp.trans hgrow
  have hdistinct := ledger.distinct w'
  rw [← hrest] at hpage hdistinct ⊢
  rw [following_endOf hdistinct] at hpage
  exact (List.prefix_append_right_inj part).2 hpage

/-- A page that is stored moves the core to its end. -/
theorem Synced.advance [CommitStore σ] (store : Keeps σ view) (h : Synced config view part c)
    (hcursor : c.cursor = endOf part) (hloaded : c.isLoaded) (hpage : page ≠ []) {stamp : Int}
    {summary : CommitSummary} {s : σ} (hc : c.commit stamp page = (.ok summary, s)) :
    Synced config view (part ++ page) (c.advance page s) := by
  refine ⟨h.config_eq, ?_, ?_⟩
  · have hview := store.stored hc
    rw [h.config_eq] at hview
    have hholds := h.holds.commit stamp hpage
    rw [hview] at hholds
    exact hholds
  · rw [Core.advance, if_pos hloaded, endOf_append, hcursor]

/-- A round leaves the core at the end of a part of the history. -/
theorem Synced.round [Ledger ν] [Clock ν] [CommitStore σ] {history : ν → List Transaction}
    (ledger : Truthful ν config.tracked history) (store : Keeps σ view) {w w' : ν}
    {o : Except Error Outcome} (h : Synced config view part c) (hp : part <+: history w)
    (hr : Round c w o c' w') :
    ∃ part', part' <+: history w' ∧ Synced config view part' c' := by
  have hgrow {c₁ : Core σ} {r : Except Error (List Transaction)} {w₁ : ν}
      (hc : c₁.config = config) (hf : c₁.fetch w = (r, w₁)) (ha : Aside w₁ w') :
      history w <+: history w' := by
    have := ledger.fetch_grows (c₁.cursor.map (·.digest)) c₁.config.pageSize w
    rw [Core.fetch, hc] at hf
    rw [hc, hf] at this
    exact this.trans (ledger.aside_grows ha)
  cases hr with
  | refused hready => exact ⟨part, hp, h.ready_error store hready⟩
  | failed hready hfetch haside =>
    obtain ⟨h', -⟩ := h.ready_ok store hready
    exact ⟨part, hp.trans (hgrow h'.config_eq hfetch haside), h'⟩
  | empty hready hfetch haside =>
    obtain ⟨h', -⟩ := h.ready_ok store hready
    exact ⟨part, hp.trans (hgrow h'.config_eq hfetch haside), h'⟩
  | rejected hready hfetch _ hcommit haside =>
    obtain ⟨h', -⟩ := h.ready_ok store hready
    refine ⟨part, hp.trans (hgrow h'.config_eq hfetch haside), h'.config_eq, ?_, h'.cursor⟩
    rw [store.rejected hcommit]
    exact h'.holds
  | @stored c₁ page w₁ _ stamp summary s _ hready hfetch hpage hcommit haside =>
    obtain ⟨h', hcursor, hloaded⟩ := h.ready_ok store hready
    rw [Core.fetch, hcursor, h'.config_eq] at hfetch
    exact ⟨part ++ page, (page_extends ledger hp hfetch).trans (ledger.aside_grows haside),
      h'.advance store hcursor hloaded hpage hcommit⟩

/-! ## Runs -/

/-- What a machine and the world around it can come to: rounds in any number, the machine built
anew on the same store between two of them, and the history grown meanwhile. -/
inductive Reachable [Ledger ν] [Clock ν] [CommitStore σ] (history : ν → List Transaction)
    (view : σ → Memory) (config : Config) : Machine ν σ → Prop
  | start (w : ν) (s : σ) (registry : Option Registry) : view s = .empty →
      Reachable history view config (.new config w s registry)
  | step {m : Machine ν σ} : Reachable history view config m →
      Reachable history view config m.step.2
  | rebuilt {m : Machine ν σ} (registry : Option Registry) : Reachable history view config m →
      Reachable history view config (.new config m.outside m.store registry)
  | grown {m : Machine ν σ} {w : ν} : Reachable history view config m →
      history m.outside <+: history w → Reachable history view config { m with outside := w }

theorem synced_of_reachable [Ledger ν] [Clock ν] [CommitStore σ] {history : ν → List Transaction}
    (ledger : Truthful ν config.tracked history) (store : Keeps σ view) {m : Machine ν σ}
    (h : Reachable history view config m) :
    ∃ part, part <+: history m.outside ∧ Synced config view part m.core := by
  induction h with
  | start w s registry hs =>
    have hempty : Holds config [] (view s) := by rw [hs]; exact holds_empty config
    exact ⟨[], List.nil_prefix, rfl, hempty, rfl⟩
  | @step m _ ih =>
    obtain ⟨part, hp, hsync⟩ := ih
    exact hsync.round ledger store hp m.round
  | rebuilt registry _ ih =>
    obtain ⟨part, hp, hsync⟩ := ih
    exact ⟨part, hp, rfl, hsync.holds, rfl⟩
  | grown _ hw ih =>
    obtain ⟨part, hp, hsync⟩ := ih
    exact ⟨part, hp.trans hw, hsync⟩

/-- Either there is no cursor and nothing in the logs, or the cursor is at some transaction of the
history and the logs are what the history up to and with that transaction comes to, the
transactions below the start left out and times apart. -/
def TakenOnce (config : Config) (history : List Transaction) (stored : Memory) : Prop :=
  (stored.cursor? config.id = none ∧ stored.calls = [] ∧ stored.events = []) ∨
  ∃ i t, history[i]? = some t ∧
    (stored.cursor? config.id).map (·.cursor) = some ⟨t.digest, t.checkpoint⟩ ∧
    let taken := Batch.ofPage config.events 0
      ((history.take (i + 1)).filter fun u => config.takes u.checkpoint)
    stored.calls.map (·.atTime 0) = taken.calls ∧ stored.events.map (·.atTime 0) = taken.events

theorem Holds.takenOnce {m : Memory} (h : Holds config part m) (hp : part <+: history) :
    TakenOnce config history m := by
  cases part using List.reverseRecOn with
  | nil =>
    refine Or.inl ⟨by simpa using h.cursor, ?_, ?_⟩
    · simpa [Config.kept, Batch.calls_ofPage] using h.calls
    · simpa [Config.kept, Batch.events_ofPage] using h.events
  | append_singleton init t =>
    obtain ⟨rest, rfl⟩ := hp
    refine Or.inr ⟨init.length, t, by simp, by simpa [endOf] using h.cursor, ?_⟩
    have htake : (init ++ [t] ++ rest).take (init.length + 1) = init ++ [t] := by
      rw [List.take_append_of_le_length (by simp), List.take_of_length_le (by simp)]
    simp only [htake]
    exact ⟨h.calls, h.events⟩

/-- **Each transaction is taken in exactly once**, whatever fails and however often the indexer is
built anew. -/
theorem takenOnce_of_reachable [Ledger ν] [Clock ν] [CommitStore σ] {history : ν → List Transaction}
    (ledger : Truthful ν config.tracked history) (store : Keeps σ view) {m : Machine ν σ}
    (h : Reachable history view config m) :
    TakenOnce config (history m.outside) (view m.store) := by
  obtain ⟨part, hp, -, hholds, -⟩ := synced_of_reachable ledger store h
  exact Holds.takenOnce hholds hp

/-! ### A run with failures -/

/-- A transaction below the start, one with an entry, and one with a call. -/
def trio : List Transaction :=
  [⟨"a", 4, 0, "0x1", [], []⟩,
    ⟨"b", 5, 0, "0x1", [],
      [⟨"0x1::shop::Sold", "0x2", .object [("name", .string "sold_event")]⟩]⟩,
    ⟨"c", 7, 0, "0x1", [⟨"0x1", "shop", "close", .null⟩], []⟩]

/-- Two transactions a page, from checkpoint 5 on. -/
def trioConfig : Config := { Config.usual with tracked := "0x5", pageSize := 2, start := some 5 }

/-- The machine before the first round.  The ledger will not answer at first, and the store will
refuse the first page. -/
def trioStart : Machine (Feed trio) (Unreliable Memory) :=
  .new trioConfig ⟨0, [none, some 1], 0⟩ ⟨.empty, false, [1], 0⟩ none

/-- The machine after a round without a page, one whose page is refused, one that stores a page, and
one more by a machine built anew. -/
def trioEnd : Machine (Feed trio) (Unreliable Memory) :=
  let m := trioStart.step.2.step.2.step.2
  (Machine.new trioConfig m.outside m.store none).step.2

theorem takenOnce_trioEnd :
    Truthful (Feed trio) trioConfig.tracked Feed.history ∧
      Keeps (Unreliable Memory) (fun u => id u.store) ∧
      Reachable Feed.history (fun u => id u.store) trioConfig trioEnd ∧
      TakenOnce trioConfig (Feed.history trioEnd.outside) trioEnd.store.store ∧
      (trioEnd.store.store.cursor? "default").map (·.cursor) = some ⟨"c", 7⟩ ∧
      trioEnd.store.store.calls.length = 2 ∧ trioEnd.store.store.events.length = 1 := by
  have ledger : Truthful (Feed trio) trioConfig.tracked Feed.history :=
    Feed.truthful (by decide) _
  have store : Keeps (Unreliable Memory) (fun u => id u.store) := Unreliable.keeps keeps_memory
  have start : Reachable Feed.history (fun u : Unreliable Memory => id u.store) trioConfig
      trioStart :=
    .start (⟨0, [none, some 1], 0⟩ : Feed trio)
      (⟨Memory.empty, false, [1], 0⟩ : Unreliable Memory) none rfl
  have run : Reachable Feed.history (fun u : Unreliable Memory => id u.store) trioConfig trioEnd :=
    (start.step.step.step.rebuilt none).step
  exact ⟨ledger, store, run, takenOnce_of_reachable ledger store run, by decide +kernel⟩

end LedgerIndex.Sync
