import LedgerIndex.Proofs.Store.Standing
import LedgerIndex.Proofs.Sync.ExactlyOnce

/-!
# What the size of a page decides

A machine over a ledger that never fails takes the history in page by page, however it is cut, and
comes to an end.  The rows that it leaves, and their checkpoints, do not depend on the cut.  What a
row shows can: a set at the checkpoint of its row does not replace it, although in one page the
later of two sets would win.  The cut does not matter where the changes to a key are `Settled`, and
nowhere else.
-/

namespace LedgerIndex.Sync

variable {ν μ : Type} {config : Config} {part rest page history : List Transaction}

/-! ## The changes of a page to one key -/

/-- The changes to a key that a page comes to. -/
def Config.changesOn (config : Config) (key : Key) (page : List Transaction) : List Change :=
  changesTo key (config.batchOf 0 page).changes

theorem changesTo_batchOf (stamp : Int) (key : Key) (page : List Transaction) :
    changesTo key (config.batchOf stamp page).changes = config.changesOn key page :=
  congrArg _ (Batch.changes_ofPage_time config.events stamp 0 (config.kept page))

theorem changesOn_append (key : Key) (p q : List Transaction) :
    config.changesOn key (p ++ q) = config.changesOn key p ++ config.changesOn key q := by
  have happ : (config.batchOf 0 (p ++ q)).changes =
      (config.batchOf 0 p).changes ++ (config.batchOf 0 q).changes := by
    simp only [Config.batchOf, Config.kept_append, Batch.changes_ofPage_append]
  rw [Config.changesOn, happ, changesTo_append]
  rfl

theorem flatten_changesOn (key : Key) (pages : List (List Transaction)) :
    (pages.map (config.changesOn key)).flatten = config.changesOn key pages.flatten := by
  induction pages with
  | nil => rfl
  | cons page pages ih =>
    rw [List.map_cons, List.flatten_cons, List.flatten_cons, ih, changesOn_append]

/-- A change to a key carries the checkpoint and the digest of a transaction of the page. -/
theorem origin_of_mem_changesOn {key : Key} {c : Change} (h : c ∈ config.changesOn key page) :
    ∃ t ∈ page, c.checkpoint = t.checkpoint ∧ c.digest = t.digest := by
  obtain ⟨t, ht, horigin⟩ := Batch.origin_of_mem_changes (mem_changesTo.1 h).1
  exact ⟨t, (List.mem_filter.1 ht).1, horigin⟩

theorem ordered_changesOn (config : Config) (key : Key)
    (h : history.Pairwise (·.checkpoint ≤ ·.checkpoint)) :
    Ordered (config.changesOn key history) := by
  induction history with
  | nil => exact .nil
  | cons t ts ih =>
    rw [List.pairwise_cons] at h
    rw [← List.singleton_append, changesOn_append]
    refine List.pairwise_append.2 ⟨?_, ih h.2, fun c hc d hd => ?_⟩
    · refine List.pairwise_of_forall_mem_list fun c hc d hd => ?_
      obtain ⟨u, hu, hcu, -⟩ := origin_of_mem_changesOn hc
      obtain ⟨v, hv, hdv, -⟩ := origin_of_mem_changesOn hd
      rw [hcu, hdv, List.mem_singleton.1 hu, List.mem_singleton.1 hv]
      exact UInt64.le_refl _
    · obtain ⟨u, hu, hcu, -⟩ := origin_of_mem_changesOn hc
      obtain ⟨v, hv, hdv, -⟩ := origin_of_mem_changesOn hd
      rw [hcu, hdv, List.mem_singleton.1 hu]
      exact h.1 v hv

/-- Pages without a common digest come to changes without a common digest. -/
theorem apart_changesOn (config : Config) (key : Key) {pages : List (List Transaction)}
    (distinct : (pages.flatten.map (·.digest)).Nodup) :
    Apart (pages.map (config.changesOn key)) := by
  rw [Apart, List.pairwise_map]
  rw [List.map_flatten, List.nodup_flatten] at distinct
  have hpages := List.pairwise_map.1 distinct.2
  refine hpages.imp fun {p q} hpq c hc d hd heq => ?_
  obtain ⟨t, ht, -, hct⟩ := origin_of_mem_changesOn hc
  obtain ⟨u, hu, -, hdu⟩ := origin_of_mem_changesOn hd
  refine hpq (List.mem_map_of_mem ht) ?_
  rw [← hct, heq, hdu]
  exact List.mem_map_of_mem hu

theorem digest_eq_of_mem_changesOn {key : Key} (h : page.length ≤ 1) {c d : Change}
    (hc : c ∈ config.changesOn key page) (hd : d ∈ config.changesOn key page) :
    c.digest = d.digest := by
  obtain ⟨t, ht, -, hct⟩ := origin_of_mem_changesOn hc
  obtain ⟨u, hu, -, hdu⟩ := origin_of_mem_changesOn hd
  obtain ⟨t', rfl⟩ := List.length_eq_one_iff.1
    (Nat.le_antisymm h (List.length_pos_of_mem ht))
  rw [hct, hdu, List.mem_singleton.1 ht, List.mem_singleton.1 hu]

/-! ## Pages taken in -/

/-- A store after some pages, each taken in at its time. -/
def feed (config : Config) (m : Memory) (pages : List (Int × List Transaction)) : Memory :=
  pages.foldl (fun m p => (m.commit p.1 config.id (config.batchOf p.1 p.2)).2) m

theorem standing_feed (m : Memory) (pages : List (Int × List Transaction)) (key : Key) :
    ((feed config m pages).row? key).map (·.standing) =
      (pages.map fun p => config.changesOn key p.2).foldl settle
        ((m.row? key).map (·.standing)) := by
  induction pages generalizing m with
  | nil => rfl
  | cons p pages ih =>
    rw [List.map_cons, List.foldl_cons, ← changesTo_batchOf p.1, ← Memory.standing_commit]
    exact ih _

/-! ## Machines that never fail -/

/-- Rounds until the ledger has nothing more, unless that takes as many rounds as given. -/
def Machine.drain [Ledger ν] [Clock ν] : Nat → Machine ν Memory → Option (Machine ν Memory)
  | 0, _ => none
  | fuel + 1, m =>
    match m.step with
    | (.ok .empty, m') => some m'
    | (_, m') => drain fuel m'

theorem ready_memory {c c' : Core Memory} {r : Except Error Unit} (h : c.ready = (r, c')) :
    r = .ok () ∧ c'.store = c.store := by
  rw [Core.ready] at h
  split at h
  · cases h
    exact ⟨rfl, rfl⟩
  · cases h
    exact ⟨rfl, rfl⟩

/-- A round over a ledger that serves a history ends the run at the end of the history, and takes
in a page before that. -/
theorem Synced.step_serves [Ledger ν] [Clock ν] {m : Machine ν Memory}
    (ledger : Serves ν config.tracked history) (hlimit : 0 < config.pageSize)
    (distinct : (history.map (·.digest)).Nodup) (h : Synced config id part m.core)
    (hpart : part ++ rest = history) :
    (rest = [] ∧ m.step.1 = .ok .empty ∧ m.step.2.store = m.store) ∨
    ∃ page more stamp summary regression, rest = page ++ more ∧ page ≠ [] ∧
      page.length ≤ config.pageSize ∧
      (FullPages ν config.tracked history → page = rest.take config.pageSize) ∧
      m.step.1 = .ok (.committed summary regression) ∧
      m.step.2.store = (m.store.commit stamp config.id (config.batchOf stamp page)).2 ∧
      Synced config id (part ++ page) m.step.2.core := by
  subst hpart
  -- what the ledger answers once the machine is ready
  have hanswer {c : Core Memory} {r w} (hc : Synced config id part c) (hcur : c.cursor = endOf part)
      (hf : c.fetch m.outside = (r, w)) :
      ∃ page, r = .ok page ∧ page <+: rest ∧ page.length ≤ config.pageSize ∧
        (page = [] → rest = []) ∧
        (FullPages ν config.tracked (part ++ rest) → page = rest.take config.pageSize) := by
    rw [Core.fetch, hc.config_eq, hcur] at hf
    obtain ⟨page, hpage, hpre, hlen, hend⟩ :=
      ledger.page ((endOf part).map (·.digest)) config.pageSize m.outside
    rw [following_endOf distinct] at hpre hend
    rw [hf] at hpage
    refine ⟨page, hpage, hpre, hlen, hend hlimit, fun hfull => ?_⟩
    have hanswer := hfull ((endOf part).map (·.digest)) config.pageSize m.outside
    rw [hf, following_endOf distinct, hpage] at hanswer
    simpa using hanswer
  have hround := m.round
  generalize hc' : m.step.2.core = c' at hround
  have hstore : m.step.2.store = c'.store := by rw [← hc']; rfl
  rw [hstore]
  generalize m.step.1 = o at hround ⊢
  generalize m.step.2.outside = w at hround
  cases hround with
  | refused hready => exact absurd (ready_memory hready).1 (by simp)
  | failed hready hfetch =>
    obtain ⟨h', hcur, -⟩ := h.ready_ok keeps_memory hready
    obtain ⟨page, hpage, -⟩ := hanswer h' hcur hfetch
    cases hpage
  | empty hready hfetch =>
    obtain ⟨h', hcur, -⟩ := h.ready_ok keeps_memory hready
    obtain ⟨page, hpage, -, -, hend, -⟩ := hanswer h' hcur hfetch
    cases hpage
    exact Or.inl ⟨hend rfl, rfl, (ready_memory hready).2⟩
  | rejected hready hfetch _ hcommit => cases hcommit
  | @stored c₁ page w₁ _ stamp summary s regression hready hfetch hne hcommit =>
    obtain ⟨h', hcur, hloaded⟩ := h.ready_ok keeps_memory hready
    obtain ⟨page', hpage, ⟨more, hmore⟩, hlen, -, hfull⟩ := hanswer h' hcur hfetch
    cases hpage
    refine Or.inr ⟨page, more, stamp, summary, regression, hmore.symm, hne, hlen, hfull, rfl, ?_,
      h'.advance keeps_memory hcur hloaded hne hcommit⟩
    have hs : c₁.store = m.store := (ready_memory hready).2
    rw [← hs, ← h'.config_eq]
    have hview := keeps_memory.stored hcommit
    exact (congrArg Prod.snd hview).symm

/-- A run over a ledger that serves a history comes to its end within as many rounds as there are
transactions left, and one more, and has taken the history in in pages of some sizes. -/
theorem Synced.drain [Ledger ν] [Clock ν] {m : Machine ν Memory}
    (ledger : Serves ν config.tracked history) (hlimit : 0 < config.pageSize)
    (distinct : (history.map (·.digest)).Nodup) (h : Synced config id part m.core)
    (hpart : part ++ rest = history) {fuel : Nat} (hfuel : rest.length < fuel) :
    ∃ m' pages, m.drain fuel = some m' ∧ m'.store = feed config m.store pages ∧
      (pages.map (·.2)).flatten = rest ∧ (∀ p ∈ pages, p.2.length ≤ config.pageSize) ∧
      (FullPages ν config.tracked history → rest.length ≤ config.pageSize →
        pages.map (·.2) = if rest = [] then [] else [rest]) := by
  induction fuel generalizing part rest m with
  | zero => omega
  | succ fuel ih =>
    rw [Machine.drain]
    rcases h.step_serves ledger hlimit distinct hpart with ⟨rfl, hstep, hstore⟩ |
      ⟨page, more, stamp, summary, regression, rfl, hne, hlen, hfull, hstep, hstore, hsync⟩
    · rcases hm : m.step with ⟨o, m'⟩
      rw [hm] at hstep hstore
      subst hstep
      exact ⟨m', [], rfl, hstore, rfl, by simp, by simp⟩
    · rcases hm : m.step with ⟨o, m₁⟩
      rw [hm] at hstep hstore hsync
      subst hstep
      have hpos := List.length_pos_iff.2 hne
      rw [List.length_append] at hfuel
      obtain ⟨m', pages, hdrain, hfeed, hflat, hlens, hone⟩ :=
        ih hsync (by rw [List.append_assoc]; exact hpart) (by omega)
      refine ⟨m', (stamp, page) :: pages, hdrain, ?_, by simp [hflat], ?_, fun hpages hle => ?_⟩
      · rw [hfeed, show m₁.store = _ from hstore]
        rfl
      · rintro p hp
        rcases List.mem_cons.1 hp with rfl | hp
        · exact hlen
        · exact hlens p hp
      · -- the page is all that is left
        have hmore : more = [] := by
          have := hfull hpages
          rw [List.take_of_length_le hle] at this
          simpa using this
        subst hmore
        simp [hne, hone hpages (by simp)]

/-- How the row of a key is left by a machine that took a history in page by page: with the
checkpoint of the last change; as the last change says if the changes are settled, or if the page
was the whole history; and otherwise not so if each page was one transaction. -/
structure LeftBy (config : Config) (history : List Transaction) (isWhole : Prop) (key : Key)
    (row : Option Row) : Prop where
  checkpoint : row.map (·.checkpoint) =
    (lastWord (config.changesOn key history)).map (·.checkpoint)
  settled : Settled (config.changesOn key history) →
    row.map (·.standing) = lastWord (config.changesOn key history)
  whole : isWhole → row.map (·.standing) = lastWord (config.changesOn key history)
  single : config.pageSize = 1 → ¬ Settled (config.changesOn key history) →
    row.map (·.standing) ≠ lastWord (config.changesOn key history)

/-- Pages that are settled one after the other leave a row so. -/
theorem leftBy_of_settleAll {pages : List (List Transaction)} {isWhole : Prop} {key : Key}
    {row : Option Row} (distinct : (history.map (·.digest)).Nodup)
    (ascending : history.Pairwise (·.checkpoint ≤ ·.checkpoint)) (hflat : pages.flatten = history)
    (hlens : ∀ page ∈ pages, page.length ≤ config.pageSize)
    (hwhole : isWhole → pages = if history = [] then [] else [history])
    (hrow : row.map (·.standing) = settleAll (pages.map (config.changesOn key))) :
    LeftBy config history isWhole key row := by
  have hchanges : (pages.map (config.changesOn key)).flatten = config.changesOn key history := by
    rw [flatten_changesOn, hflat]
  have hord : Ordered (pages.map (config.changesOn key)).flatten := by
    rw [hchanges]
    exact ordered_changesOn config key ascending
  have hapart : Apart (pages.map (config.changesOn key)) :=
    apart_changesOn config key (by rwa [hflat])
  refine ⟨?_, fun hsettled => ?_, fun h => ?_, fun h1 hunsettled => ?_⟩
  · have hcp : row.map (·.checkpoint) = (row.map (·.standing)).map (·.checkpoint) := by
      rw [Option.map_map]
      rfl
    rw [hcp, hrow, ← hchanges]
    exact (shows_settleAll hord).checkpoint
  · rw [← hchanges] at hsettled ⊢
    rw [hrow]
    exact settleAll_of_settled hord hapart hsettled
  · rw [hrow, hwhole h]
    split
    · rename_i hnil
      rw [hnil]
      rfl
    · exact settle_none_of_ordered (ordered_changesOn config key ascending)
  · have hsingle : ∀ page ∈ pages.map (config.changesOn key),
        ∀ c ∈ page, ∀ d ∈ page, c.digest = d.digest := by
      intro cs hcs c hc d hd
      obtain ⟨page, hpage, rfl⟩ := List.mem_map.1 hcs
      exact digest_eq_of_mem_changesOn (h1 ▸ hlens page hpage) hc hd
    rw [← hchanges] at hunsettled ⊢
    rw [hrow]
    exact settleAll_ne_of_not_settled hord hapart hsingle hunsettled

/-- A new machine comes to the end of the history. -/
theorem exists_drain_new [Ledger ν] [Clock ν] (config : Config)
    (ledger : Serves ν config.tracked history) (hlimit : 0 < config.pageSize)
    (distinct : (history.map (·.digest)).Nodup)
    (ascending : history.Pairwise (·.checkpoint ≤ ·.checkpoint)) (w : ν)
    (registry : Option Registry) :
    ∃ m', (Machine.new config w Memory.empty registry).drain (history.length + 1) = some m' ∧
      ∀ key, LeftBy config history
        (FullPages ν config.tracked history ∧ history.length ≤ config.pageSize) key
        (m'.store.row? key) := by
  have hnew : Synced config id [] (Machine.new config w Memory.empty registry).core :=
    ⟨rfl, holds_empty config, rfl⟩
  obtain ⟨m', pages, hdrain, hfeed, hflat, hlens, hone⟩ :=
    hnew.drain ledger hlimit distinct (List.nil_append _) (Nat.lt_succ_self _)
  refine ⟨m', hdrain, fun key => leftBy_of_settleAll distinct ascending hflat ?_
    (fun h => hone h.1 h.2) ?_⟩
  · intro page hpage
    obtain ⟨p, hp, rfl⟩ := List.mem_map.1 hpage
    exact hlens p hp
  · rw [hfeed, standing_feed, List.map_map]
    rfl

/-! ## Two page sizes -/

/-- **The page size decides nothing but what an unsettled row shows.**  Two machines that differ in
nothing but the page size come to the end of one history and leave rows with the same keys and the
same checkpoints.  Rows of a key whose changes are settled stand alike.  All others stand apart when
one machine takes a transaction at a time and the other is given the whole history in a page. -/
theorem standing_drain_pageSize [Ledger ν] [Clock ν] [Ledger μ] [Clock μ] (config : Config)
    (distinct : (history.map (·.digest)).Nodup)
    (ascending : history.Pairwise (·.checkpoint ≤ ·.checkpoint))
    (left : Serves ν config.tracked history) (right : Serves μ config.tracked history)
    {p q : Nat} (hp : 0 < p) (hq : 0 < q) (w : ν) (v : μ) (r s : Option Registry) :
    ∃ a b,
      (Machine.new { config with pageSize := p } w Memory.empty r).drain (history.length + 1) =
        some a ∧
      (Machine.new { config with pageSize := q } v Memory.empty s).drain (history.length + 1) =
        some b ∧
      ∀ key,
        (a.store.row? key).map (·.checkpoint) = (b.store.row? key).map (·.checkpoint) ∧
        (Settled (config.changesOn key history) →
          (a.store.row? key).map (·.standing) = (b.store.row? key).map (·.standing)) ∧
        (¬ Settled (config.changesOn key history) → p = 1 → history.length ≤ q →
          FullPages μ config.tracked history →
          (a.store.row? key).map (·.standing) ≠ (b.store.row? key).map (·.standing)) := by
  obtain ⟨a, ha, hleft⟩ :=
    exists_drain_new { config with pageSize := p } left hp distinct ascending w r
  obtain ⟨b, hb, hright⟩ :=
    exists_drain_new { config with pageSize := q } right hq distinct ascending v s
  refine ⟨a, b, ha, hb, fun key => ⟨?_, fun hsettled => ?_, fun hunsettled h1 hle hfull heq => ?_⟩⟩
  · exact (hleft key).checkpoint.trans (hright key).checkpoint.symm
  · exact ((hleft key).settled hsettled).trans ((hright key).settled hsettled).symm
  · exact (hleft key).single h1 hunsettled (heq.trans ((hright key).whole ⟨hfull, hle⟩))

/-! ### A tie -/

/-- The event that sets, or removes, the row of a table without key columns. -/
def tableEvent (table : Key) (value : Option Json) : RawEvent :=
  ⟨"0x1::shop::Row", "0x2",
    .object (("name", .string table.name) :: (value.map fun v => ("value", v)).toList)⟩

def stock : Key := .singleton "stock"

def price : Key := .singleton "price"

/-- Two transactions of one checkpoint that both set the stock, and one that sets the price. -/
def tied : List Transaction :=
  [⟨"a", 10, 0, "0x1", [], [tableEvent stock (some (.bool true))]⟩,
    ⟨"b", 10, 0, "0x1", [], [tableEvent stock (some (.bool false))]⟩,
    ⟨"c", 11, 0, "0x1", [], [tableEvent price (some (.bool true))]⟩]

/-- The machine over these transactions, given so many of them in a page. -/
def tiedMachine (size : Nat) : Machine (Shelf tied) Memory :=
  .new { Config.usual with tracked := "0x5", pageSize := size } ⟨0⟩ .empty none

/-- What the row of a key shows once a machine has come to the end. -/
def shownAtEnd (m : Machine (Shelf tied) Memory) (key : Key) :
    Option (UInt64 × String × Bool × String) :=
  (m.drain 4).bind fun m => (m.store.row? key).map fun r =>
    (r.checkpoint, r.digest, r.isRemoved, r.value.text)

/-- The stock shows the first transaction if each is a page of its own, and the second if they are a
page together. -/
theorem stock_shownAtEnd_tied :
    (tied.map (·.digest)).Nodup ∧ tied.Pairwise (·.checkpoint ≤ ·.checkpoint) ∧
      FullPages (Shelf tied) "0x5" tied ∧
      shownAtEnd (tiedMachine 1) stock = some (10, "a", false, "true") ∧
      shownAtEnd (tiedMachine 2) stock = some (10, "b", false, "false") :=
  ⟨by decide, by decide, Shelf.fullPages _, by decide +kernel, by decide +kernel⟩

theorem standing_drain_tied :
    (tied.map (·.digest)).Nodup ∧ tied.Pairwise (·.checkpoint ≤ ·.checkpoint) ∧
      Serves (Shelf tied) "0x5" tied ∧ FullPages (Shelf tied) "0x5" tied ∧
      Settled (Config.usual.changesOn price tied) ∧
      ¬ Settled (Config.usual.changesOn stock tied) ∧
      ∃ a b, (tiedMachine 1).drain 4 = some a ∧ (tiedMachine 3).drain 4 = some b ∧
        (a.store.row? price).map (·.standing) = (b.store.row? price).map (·.standing) ∧
        (a.store.row? stock).map (·.checkpoint) = (b.store.row? stock).map (·.checkpoint) ∧
        (a.store.row? stock).map (·.standing) ≠ (b.store.row? stock).map (·.standing) := by
  have distinct : (tied.map (·.digest)).Nodup := by decide
  have ascending : tied.Pairwise (·.checkpoint ≤ ·.checkpoint) := by decide
  have full : FullPages (Shelf tied) "0x5" tied := Shelf.fullPages _
  have hprice : Settled (Config.usual.changesOn price tied) := by decide +kernel
  have hstock : ¬ Settled (Config.usual.changesOn stock tied) := by decide +kernel
  obtain ⟨a, b, ha, hb, hrows⟩ := standing_drain_pageSize { Config.usual with tracked := "0x5" }
    distinct ascending full.serves full.serves (p := 1) (q := 3) (by decide) (by decide)
    (⟨0⟩ : Shelf tied) (⟨0⟩ : Shelf tied) none none
  exact ⟨distinct, ascending, full.serves, full, hprice, hstock, a, b, ha, hb,
    (hrows price).2.1 hprice, (hrows stock).1, (hrows stock).2.2 hstock rfl (by decide) full⟩

end LedgerIndex.Sync
