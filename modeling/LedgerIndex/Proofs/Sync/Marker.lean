import LedgerIndex.Proofs.Sql.UniqueKeys
import LedgerIndex.Proofs.Store.History
import LedgerIndex.Proofs.Sync.Journal

/-!
# The marker keeps logs and tables apart

An event gives a name.  A name with the marker makes it a log entry, which is kept under the name
without the marker; any other name is a table (`Payload.isNamed_of_parse`).  So what a batch brings
is labelled by the names of the events in it (`Config.labelled_batchOf`), a store takes its labels
from the batches (`Labelling`), and messages are made of the same events.  Whatever happens to a
machine over an empty store, the log entries and the tables are therefore kept apart by the marker,
in the store and in what is told to subscribers (`Machine.labelled_live`).
-/

namespace LedgerIndex

/-! ## Names with the marker -/

/-- The name that an event gives. -/
def RawEvent.name? (e : RawEvent) : Option String := (e.payload.get? "name").bind Json.string?

/-- A name ends in the marker of log entries. -/
def IsMarked (name : String) : Prop := ∃ stem, name = stem ++ "_event"

theorem toList_append_marker (stem : String) :
    (stem ++ "_event").toList = stem.toList ++ logMarker := by
  rw [String.toList_append]
  rfl

/-- What is left of a name is what stands before the marker at its very end. -/
theorem stripMarker?_eq_some_iff {name stem : String} :
    stripMarker? name = some stem ↔ name = stem ++ "_event" := by
  have htake (cs : List Char) :
      (cs ++ logMarker).take ((cs ++ logMarker).length - logMarker.length) = cs := by
    rw [List.length_append, Nat.add_sub_cancel, List.take_left]
  rw [stripMarker?]
  constructor
  · intro h
    split at h
    · rename_i hsuffix
      obtain ⟨cs, hcs⟩ := List.isSuffixOf_iff_suffix.1 hsuffix
      rw [← hcs, htake, Option.some.injEq] at h
      rw [← String.toList_inj, toList_append_marker, ← hcs, ← h, String.toList_ofList]
    · cases h
  · rintro rfl
    rw [toList_append_marker, htake, String.ofList_toList,
      if_pos (List.isSuffixOf_iff_suffix.2 (List.suffix_append ..))]

theorem stripMarker?_eq_none_iff {name : String} : stripMarker? name = none ↔ ¬ IsMarked name := by
  rw [IsMarked, Option.eq_none_iff_forall_ne_some, not_exists]
  exact forall_congr' fun stem => not_congr stripMarker?_eq_some_iff

/-- A payload is what its name makes it: a log entry by the marker, a change of a table without. -/
def Payload.IsNamed (name : String) : Payload → Prop
  | entry stem rawName _ => rawName = name ∧ name = stem ++ "_event"
  | set key _ | remove key => key.name = name ∧ ¬ IsMarked name

theorem Payload.isNamed_of_parse {e : RawEvent} {payload : Payload}
    (h : Payload.parse e.payload = .ok payload) :
    ∃ name, e.name? = some name ∧ payload.IsNamed name := by
  unfold Payload.parse at h
  split at h
  · rename_i members hmembers
    unfold ofMembers at h
    split at h
    · rename_i name hname
      refine ⟨name, by simp [RawEvent.name?, hmembers, Json.get?, hname, Json.string?], ?_⟩
      split at h
      · rename_i stem hstem
        cases h
        exact ⟨rfl, stripMarker?_eq_some_iff.1 hstem⟩
      · rename_i hnone
        have hunmarked := stripMarker?_eq_none_iff.1 hnone
        dsimp only at h
        split at h <;> cases h <;> exact ⟨rfl, hunmarked⟩
    · cases h
  · cases h

/-! ## Labels -/

/-- A log entry without what it says: who emitted it, in which transaction, and its name without
and with the marker. -/
structure EntryLabel where
  sender : String
  digest : String
  name : String
  rawName : String
  deriving DecidableEq

/-- How a store labels what it holds: its log entries, and the tables of its rows. -/
structure Labels where
  entries : List EntryLabel
  tables : List String

def EventRecord.label (e : EventRecord) : EntryLabel := ⟨e.sender, e.digest, e.name, e.rawName⟩

/-- The labels that a batch brings. -/
def Batch.labels (b : Batch) : Labels := ⟨b.events.map (·.label), b.changes.map (·.key.name)⟩

/-- A store gets its labels from the batches that it takes in, and loses none of the entries. -/
structure Labelling (σ : Type) [CommitStore σ] (labels : σ → Labels) : Prop where
  loaded (indexer : String) (s : σ) : labels (CommitStore.loadCursor indexer s).2 = labels s
  stored {now indexer b s summary s'} : CommitStore.commit now indexer b s = (.ok summary, s') →
    (labels s').entries = (labels s).entries ++ b.labels.entries ∧
      (labels s').tables ⊆ (labels s).tables ++ b.labels.tables
  rejected {now indexer b s e s'} : CommitStore.commit now indexer b s = (.error e, s') →
    labels s' = labels s

/-- Keys that are set have the tables of changes. -/
theorem Batch.name_mem_of_sets {b : Batch} {key : Key} (h : key ∈ b.sets.map (·.key)) :
    key.name ∈ b.labels.tables := by
  obtain ⟨c, hc, rfl⟩ := List.mem_map.1 h
  exact List.mem_map_of_mem (List.mem_filter.1 hc).1

namespace Memory

/-- How a store in memory labels what it holds. -/
def labels (m : Memory) : Labels := ⟨m.events.map (·.label), m.rows.map (·.name)⟩

/-- The table of a row stays. -/
theorem lasting_name : Lasting fun e => e.2.name :=
  ⟨fun _ r c => congrArg Key.name (r.key_set c), fun _ r c => congrArg Key.name (r.key_remove c)⟩

theorem tables_commit (m : Memory) (now : Int) (indexer : String) (b : Batch) :
    (m.commit now indexer b).2.labels.tables ⊆ m.labels.tables ++ b.labels.tables := by
  have htables (m : Memory) : m.labels.tables = m.table.map fun e => e.2.name := map_rows ..
  intro name hname
  rw [htables, lasting_name.map_commit, List.mem_append] at hname
  rw [htables, List.mem_append]
  refine hname.imp_right fun hnew => ?_
  obtain ⟨e, he, rfl⟩ := List.mem_map.1 hnew
  obtain ⟨c, hc, id, rfl⟩ := Row.exists_of_mem_created he
  have hkey : c.key ∈ (Plan.ofChanges b.changes).sets.map (·.key) :=
    List.mem_map_of_mem (List.mem_filter.1 hc).1
  exact Batch.name_mem_of_sets (Plan.mem_keys_sets.1 hkey)

end Memory

/-- A store that keeps to one in memory labels what it holds as that one does. -/
theorem Keeps.labelling {σ : Type} [CommitStore σ] {view : σ → Memory} (h : Keeps σ view) :
    Labelling σ fun s => (view s).labels where
  loaded indexer s := by
    rcases hload : CommitStore.loadCursor indexer s with ⟨_ | found, s'⟩
    · exact congrArg Memory.labels (h.refused hload)
    · exact congrArg Memory.labels (h.loaded hload).2
  stored {now indexer b s summary s'} hs := by
    have hview : view s' = ((view s).commit now indexer b).2 := by rw [h.stored hs]
    rw [hview]
    refine ⟨?_, (view s).tables_commit now indexer b⟩
    rw [Memory.labels, Memory.events_commit, List.map_append]
    rfl
  rejected hs := congrArg Memory.labels (h.rejected hs)

namespace Sql.Tables

/-- How an embedded database labels what it holds. -/
def labels (t : Tables) : Labels :=
  ⟨t.events.map fun r => ⟨r.sender, r.digest, r.name, r.rawName⟩, t.rows.map (·.name)⟩

theorem events_tookIn (t : Tables) (now : Int) (indexer : String) (b : Batch) :
    (t.tookIn now indexer b).events = t.events ++ b.events.map .ofRecord := by
  rw [tookIn, tombstones_eq]
  cases b.cursor <;> rfl

theorem tables_tookIn (t : Tables) (now : Int) (indexer : String) (b : Batch) :
    (t.tookIn now indexer b).labels.tables ⊆ t.labels.tables ++ b.labels.tables := by
  intro name hname
  obtain ⟨r, hr, rfl⟩ := List.mem_map.1 hname
  have hkey : r.key ∈ (t.tookIn now indexer b).keys := List.mem_map_of_mem hr
  rw [List.mem_append]
  refine (mem_keys_tookIn.1 hkey).imp (fun hold => ?_) Batch.name_mem_of_sets
  obtain ⟨old, hmem, hold⟩ := List.mem_map.1 hold
  exact List.mem_map.2 ⟨old, hmem, congrArg Key.name hold⟩

/-- The tables of an embedded database get their labels from batches. -/
theorem labelling : Labelling Tables labels where
  loaded _ _ := rfl
  stored {now indexer b t summary t'} h := by
    change lift (t.commit now indexer b) = _ at h
    rw [commit_eq] at h
    cases h
    refine ⟨?_, t.tables_tookIn now indexer b⟩
    rw [labels, events_tookIn, List.map_append, List.map_map]
    rfl
  rejected {now indexer b t e t'} h := by
    change lift (t.commit now indexer b) = _ at h
    rw [commit_eq] at h
    cases h

end Sql.Tables

namespace Sync

/-! ## Labels of events -/

/-- An event that is taken in from one of some pages. -/
structure Config.Accepts (config : Config) (pages : List (List Transaction)) (t : Transaction)
    (e : RawEvent) : Prop where
  page : ∃ page ∈ pages, t ∈ page
  takes : config.takes t.checkpoint
  event : e ∈ t.events
  accepts : config.events.accepts e.type

theorem Config.Accepts.mono {config : Config} {pages pages' : List (List Transaction)}
    {t : Transaction} {e : RawEvent} (h : config.Accepts pages t e) (hsub : pages ⊆ pages') :
    config.Accepts pages' t e :=
  ⟨h.page.imp fun _ hpage => ⟨hsub hpage.1, hpage.2⟩, h.takes, h.event, h.accepts⟩

/-- Log entries and tables are labelled by the names of events from some pages, which the marker
keeps apart. -/
structure Labelled (config : Config) (pages : List (List Transaction)) (l : Labels) : Prop where
  entries : ∀ n ∈ l.entries, n.rawName = n.name ++ "_event" ∧ ∃ t e, config.Accepts pages t e ∧
    e.name? = some n.rawName ∧ n.sender = e.sender ∧ n.digest = t.digest
  tables : ∀ name ∈ l.tables, ¬ IsMarked name ∧ ∃ t e, config.Accepts pages t e ∧
    e.name? = some name

/-- A message tells of an event from some pages, whose name it has: without the marker if it tells
of a log entry, and the name of a table, which has no marker, if it tells of a change. -/
def PushLabelled (config : Config) (pages : List (List Transaction)) (p : Push) : Prop :=
  ∃ t e, config.Accepts pages t e ∧ p.sender = some e.sender ∧ p.checkpoint = t.checkpoint ∧
    match p.topic with
    | .entry => p.table = none ∧ e.name? = some (p.name ++ "_event")
    | .change => p.table = some p.name ∧ e.name? = some p.name ∧ ¬ IsMarked p.name

theorem Labelled.nil (config : Config) (pages : List (List Transaction)) :
    Labelled config pages ⟨[], []⟩ := ⟨by simp, by simp⟩

theorem Labelled.mono {config : Config} {pages pages' : List (List Transaction)} {l : Labels}
    (h : Labelled config pages l) (hsub : pages ⊆ pages') : Labelled config pages' l where
  entries n hn := by
    obtain ⟨hraw, t, e, haccepts, hrest⟩ := h.entries n hn
    exact ⟨hraw, t, e, haccepts.mono hsub, hrest⟩
  tables name hname := by
    obtain ⟨hunmarked, t, e, haccepts, hrest⟩ := h.tables name hname
    exact ⟨hunmarked, t, e, haccepts.mono hsub, hrest⟩

/-- Labels that come together are those of both. -/
theorem Labelled.join {config : Config} {pages : List (List Transaction)} {l l' l'' : Labels}
    (h : Labelled config pages l) (h' : Labelled config pages l')
    (hentries : l''.entries = l.entries ++ l'.entries)
    (htables : l''.tables ⊆ l.tables ++ l'.tables) : Labelled config pages l'' where
  entries n hn := by
    rw [hentries, List.mem_append] at hn
    exact hn.elim (h.entries n) (h'.entries n)
  tables name hname := (List.mem_append.1 (htables hname)).elim (h.tables name) (h'.tables name)

theorem PushLabelled.mono {config : Config} {pages pages' : List (List Transaction)} {p : Push}
    (h : PushLabelled config pages p) (hsub : pages ⊆ pages') : PushLabelled config pages' p := by
  obtain ⟨t, e, haccepts, hrest⟩ := h
  exact ⟨t, e, haccepts.mono hsub, hrest⟩

/-- What a batch of a page brings is labelled by the events of the page. -/
theorem Config.labelled_batchOf (config : Config) (stamp : Int) (page : List Transaction) :
    Labelled config [page] (config.batchOf stamp page).labels := by
  have haccepts {t : Transaction} {e : RawEvent} (ht : t ∈ config.kept page) (he : e ∈ t.events)
      (hfilter : config.events.accepts e.type) : config.Accepts [page] t e :=
    ⟨⟨page, by simp, (List.mem_filter.1 ht).1⟩, (List.mem_filter.1 ht).2, he, hfilter⟩
  constructor
  · intro n hn
    obtain ⟨r, hr, rfl⟩ := List.mem_map.1 hn
    have hr : r ∈ (Batch.ofPage config.events stamp (config.kept page)).events := hr
    simp only [Batch.events_ofPage, List.mem_flatMap] at hr
    obtain ⟨t, ht, e, he, hr⟩ := hr
    rw [Batch.ofEvent] at hr
    split at hr
    · rename_i hfilter
      split at hr
      · cases hr
      · rename_i stem rawName value hparse
        obtain ⟨name, hname, rfl, hmarked⟩ := Payload.isNamed_of_parse hparse
        rw [List.mem_singleton.1 hr]
        exact ⟨hmarked, t, e, haccepts ht he hfilter, hname, rfl, rfl⟩
      · cases hr
      · cases hr
    · cases hr
  · intro name hname
    obtain ⟨c, hc, rfl⟩ := List.mem_map.1 hname
    have hc : c ∈ (Batch.ofPage config.events stamp (config.kept page)).changes := hc
    simp only [Batch.changes_ofPage, List.mem_flatMap] at hc
    obtain ⟨t, ht, e, he, hc⟩ := hc
    rw [Batch.ofEvent] at hc
    split at hc
    · rename_i hfilter
      split at hc
      · cases hc
      · cases hc
      -- a set and a removal are of the table that the event names
      all_goals
        rename_i hparse
        obtain ⟨name, hname, rfl, hunmarked⟩ := Payload.isNamed_of_parse hparse
        rw [List.mem_singleton.1 hc]
        exact ⟨hunmarked, t, e, haccepts ht he hfilter, hname⟩
    · cases hc

/-- So are the messages that are heard of a page. -/
theorem Config.labelled_of_heard {config : Config} {page : List Transaction} {p : Push}
    (h : p ∈ config.heard page) : PushLabelled config [page] p := by
  obtain ⟨t, ht, htakes, e, he, hfilter, payload, hparse, rfl⟩ := Config.mem_heard.1 h
  have haccepts : config.Accepts [page] t e := ⟨⟨page, by simp, ht⟩, htakes, he, hfilter⟩
  obtain ⟨name, hname, hnamed⟩ := Payload.isNamed_of_parse hparse
  refine ⟨t, e, haccepts, ?_⟩
  cases payload with
  | entry stem rawName value =>
    obtain ⟨-, rfl⟩ := hnamed
    exact ⟨rfl, rfl, rfl, hname⟩
  | set key value =>
    obtain ⟨rfl, hunmarked⟩ := hnamed
    exact ⟨rfl, rfl, rfl, hname, hunmarked⟩
  | remove key =>
    obtain ⟨rfl, hunmarked⟩ := hnamed
    exact ⟨rfl, rfl, rfl, hname, hunmarked⟩

/-! ## One round -/

/-- Messages are handed out for the batch that is taken in. -/
theorem Deed.mem_handouts_trade {σ : Type} (d : Deed σ) {t : Trade} {messages : List Push}
    (h : messages ∈ handouts (d.trade t).dealings) :
    messages ∈ handouts t.dealings ∨ ∃ b, d.stored? = some b ∧ messages = b.messages := by
  obtain ⟨_ | r, log⟩ := t
  · left
    rw [trade, deliver] at h
    revert h
    cases d.asked <;> cases d.offered <;> cases d.stored? <;>
      simp [handouts, Trade.ask, Trade.offer, Trade.fanOut, Trade.add, Activity.handout?]
  · rw [(d.trade_of_registry rfl).2, List.mem_append] at h
    refine h.imp_right fun h => ?_
    obtain ⟨b, hb, rfl⟩ := List.mem_map.1 h
    exact ⟨b, Option.mem_toList.1 hb, rfl⟩

variable {ν σ : Type} [Ledger ν] [Clock ν] [CommitStore σ] {labels : σ → Labels}

/-- A round of the core keeps the labels of its store, or adds those of the batch for the page that
it stores. -/
theorem Core.labels_round (store : Labelling σ labels) {c c' : Core σ} {w w' : ν}
    {o : Except Error Outcome} (hr : Round c w o c' w') :
    labels c'.store = labels c.store ∨ ∃ page stamp summary regression,
      (c.ready.2.fetch w).1 = .ok page ∧ o = .ok (.committed summary regression) ∧
      (labels c'.store).entries =
        (labels c.store).entries ++ (c.config.batchOf stamp page).labels.entries ∧
      (labels c'.store).tables ⊆
        (labels c.store).tables ++ (c.config.batchOf stamp page).labels.tables := by
  have hready : labels c.ready.2.store = labels c.store := by
    rw [ready]
    split
    · rfl
    · have hload := store.loaded c.config.id c.store
      generalize CommitStore.loadCursor c.config.id c.store = answer at hload ⊢
      obtain ⟨_ | _, _⟩ := answer <;> exact hload
  have hconfig := c.config_ready
  cases hr with
  | refused hc | failed hc | empty hc =>
    rw [hc] at hready
    exact .inl hready
  | rejected hc _ _ hcommit =>
    rw [hc] at hready
    exact .inl ((store.rejected hcommit).trans hready)
  | @stored _ page _ _ stamp summary _ regression hc hfetch _ hcommit =>
    rw [hc] at hready hconfig
    obtain ⟨hentries, htables⟩ := store.stored hcommit
    rw [hready, hconfig] at hentries htables
    refine .inr ⟨page, stamp, summary, regression, ?_, rfl, hentries, htables⟩
    rw [hc, hfetch]

namespace Machine

/-- The messages that are handed out in the course of what happens are those for a page that is
stored in it. -/
theorem mem_handouts_after {m : Machine ν σ} {h : Happening ν σ} {messages : List Push}
    (hmessages : messages ∈ handouts (m.after h).log) :
    messages ∈ handouts m.log ∨ ∃ page stamp, m.storedIn h = some page ∧
      messages = (m.loop.config.batchOf stamp page).messages := by
  cases h with
  | round =>
    obtain ⟨stamp, hstored⟩ := m.stored?_deed
    have htrade : handouts m.step.2.log =
        handouts ((m.core.deed m.outside).trade m.trade).dealings := by
      rw [← (deed_step m).trade]
      exact (handouts_dealings _).symm
    have hmem : messages ∈ handouts ((m.core.deed m.outside).trade m.trade).dealings :=
      htrade ▸ hmessages
    obtain hold | ⟨b, hb, hmessages⟩ := Deed.mem_handouts_trade _ hmem
    · left
      rw [← handouts_dealings]
      exact hold
    · right
      rw [hstored, Option.map_eq_some_iff] at hb
      obtain ⟨page, hpage, rfl⟩ := hb
      exact ⟨page, stamp, hpage, hmessages⟩
  | outside | store | subscribers => exact .inl hmessages

/-- What the messages tell of stays labelled. -/
theorem pushLabelled_after {m : Machine ν σ} {pages : List (List Transaction)}
    (hm : ∀ messages ∈ handouts m.log, ∀ p ∈ messages, PushLabelled m.loop.config pages p)
    (h : Happening ν σ) :
    ∀ messages ∈ handouts (m.after h).log, ∀ p ∈ messages,
      PushLabelled m.loop.config (pages ++ (m.storedIn h).toList) p := by
  intro messages hmessages p hp
  obtain hold | ⟨page, stamp, hpage, rfl⟩ := mem_handouts_after hmessages
  · exact (hm messages hold p hp).mono (List.subset_append_left ..)
  · have hheard := (told_batchOf m.loop.config stamp page).subset hp
    rw [hpage]
    exact (Config.labelled_of_heard hheard).mono (List.subset_append_right ..)

/-- What the store holds stays labelled, if no one else writes to it. -/
theorem labelled_after (store : Labelling σ labels) {m : Machine ν σ}
    {pages : List (List Transaction)} (hm : Labelled m.loop.config pages (labels m.store))
    {h : Happening ν σ} (hspares : h.sparesStore) :
    Labelled m.loop.config (pages ++ (m.storedIn h).toList) (labels (m.after h).store) := by
  cases h with
  | round =>
    obtain hkept | ⟨page, stamp, summary, regression, hfetch, ho, hentries, htables⟩ :=
      Core.labels_round store m.round
    · have hold : labels m.step.2.store = labels m.store := hkept
      rw [after, hold]
      exact hm.mono (List.subset_append_left ..)
    · have hpage : m.storedPage? = some page := storedPage?_of_stored ho hfetch
      have hnew := m.loop.config.labelled_batchOf stamp page
      rw [storedIn, hpage]
      exact (hm.mono (List.subset_append_left ..)).join (hnew.mono (List.subset_append_right ..))
        hentries htables
  | outside | subscribers => exact hm.mono (List.subset_append_left ..)
  | store => cases hspares

/-! ## All that happens -/

theorem pushLabelled_live {m : Machine ν σ} {pages : List (List Transaction)}
    (hm : ∀ messages ∈ handouts m.log, ∀ p ∈ messages, PushLabelled m.loop.config pages p)
    (hs : List (Happening ν σ)) :
    ∀ messages ∈ handouts (m.live hs).log, ∀ p ∈ messages,
      PushLabelled m.loop.config (pages ++ m.stored hs) p := by
  induction hs generalizing m pages with
  | nil =>
    rw [stored, List.append_nil]
    exact hm
  | cons h hs ih =>
    have hafter := pushLabelled_after hm h
    rw [← m.config_after h] at hafter
    have hrest := ih hafter
    rwa [m.config_after h, List.append_assoc] at hrest

theorem labelled_store_live (store : Labelling σ labels) {m : Machine ν σ}
    {pages : List (List Transaction)} (hm : Labelled m.loop.config pages (labels m.store))
    {hs : List (Happening ν σ)} (hspares : ∀ h ∈ hs, h.sparesStore) :
    Labelled m.loop.config (pages ++ m.stored hs) (labels (m.live hs).store) := by
  induction hs generalizing m pages with
  | nil =>
    rw [stored, List.append_nil]
    exact hm
  | cons h hs ih =>
    obtain ⟨hh, hrest⟩ := List.forall_mem_cons.1 hspares
    have hafter := labelled_after store hm hh
    rw [← m.config_after h] at hafter
    have hall := ih hafter hrest
    rwa [m.config_after h, List.append_assoc] at hall

/-- **The marker keeps log entries and tables apart.**  Whatever happens to a new machine, each
message that it hands out has the name that an event gives: the name without the marker if it tells
of a log entry, and an unmarked name if it tells of a change.  If its store was empty at first and
no one else writes to it, then the name of a log entry there, with the marker, is one that an event
gives, and so is the name of a table, which has no marker.  Each of these events is one that is
wanted, of a transaction in a page that was stored. -/
theorem labelled_live (config : Config) (w : ν) (s : σ) (registry : Option Registry)
    (hs : List (Happening ν σ)) :
    let m : Machine ν σ := .new config w s registry
    (∀ messages ∈ handouts (m.live hs).log, ∀ p ∈ messages,
      PushLabelled config (m.stored hs) p) ∧
    ∀ labels : σ → Labels, Labelling σ labels → labels s = ⟨[], []⟩ →
      (∀ h ∈ hs, h.sparesStore) → Labelled config (m.stored hs) (labels (m.live hs).store) := by
  intro m
  refine ⟨?_, ?_⟩
  · rw [← List.nil_append (m.stored hs)]
    exact pushLabelled_live (by simp [m, new, handouts]) hs
  intro labels store hempty hspares
  have hm : Labelled m.loop.config [] (labels m.store) := by
    have hstore : labels m.store = ⟨[], []⟩ := hempty
    rw [hstore]
    exact .nil _ _
  exact labelled_store_live store hm hspares

end Machine

/-! ### Odd names -/

/-- The marker alone, twice and in the middle of a name, and a table. -/
def oddlyNamed : List Transaction :=
  [⟨"d", 9, 0, "0x1", [], [named "Row" "_event" none, named "Row" "sale_event_event" none,
    named "Row" "an_event_log" (some .null), named "Other" "sold_event" none]⟩,
   ⟨"e", 7, 0, "0x1", [], [named "Row" "an_event_log" none]⟩]

/-- A machine over a ledger with these names, which does not answer at first. -/
def oddly {σ : Type} (s : σ) : Machine Scripted.LedgerScript σ :=
  .new { Config.usual with events := ⟨[], ["Row"]⟩, start := some 6 }
    ⟨[⟨.error (.rpc "no answer"), none⟩, ⟨.ok oddlyNamed, none⟩, ⟨.ok oddlyNamed, none⟩], [], false,
      false, false, 0, 0⟩ s (some (.new 8 8))

theorem messages?_register : Registry.Action.register.messages? = none := rfl

/-- Three rounds, and a subscriber. -/
def oddRounds {σ : Type} : List (Happening Scripted.LedgerScript σ) :=
  [.round, .subscribers ⟨.register, messages?_register⟩, .round, .round]

/-- The store in memory refuses the first page; the embedded database takes both. -/
theorem labelled_live_oddly :
    (∃ m : Machine Scripted.LedgerScript (Unreliable Memory),
      m = oddly ⟨.empty, false, [1], 0⟩ ∧
      (∀ messages ∈ handouts (m.live oddRounds).log, ∀ p ∈ messages,
        PushLabelled m.loop.config (m.stored oddRounds) p) ∧
      Labelled m.loop.config (m.stored oddRounds) (m.live oddRounds).store.store.labels ∧
      (m.live oddRounds).store.store.labels.entries.map (fun n => (n.name, n.rawName)) =
        [("", "_event"), ("sale_event", "sale_event_event")] ∧
      (m.live oddRounds).store.store.labels.tables = ["an_event_log"] ∧
      (handouts (m.live oddRounds).log).length = 1) ∧
    ∃ m : Machine Scripted.LedgerScript Sql.Tables, m = oddly .empty ∧
      Labelled m.loop.config (m.stored oddRounds) (m.live oddRounds).store.labels ∧
      (m.live oddRounds).store.labels.entries.length = 4 := by
  have spares {σ : Type} : ∀ h ∈ oddRounds (σ := σ), h.sparesStore := by
    simp [oddRounds, Happening.sparesStore]
  constructor
  · obtain ⟨pushes, store⟩ := Machine.labelled_live (oddly ()).loop.config (oddly ()).outside
      (⟨.empty, false, [1], 0⟩ : Unreliable Memory) (oddly ()).registry oddRounds
    exact ⟨_, rfl, pushes, store _ (Unreliable.keeps keeps_memory).labelling rfl spares,
      by decide +kernel, by decide +kernel, by decide +kernel⟩
  · obtain ⟨-, store⟩ := Machine.labelled_live (oddly ()).loop.config (oddly ()).outside
      (.empty : Sql.Tables) (oddly ()).registry oddRounds
    exact ⟨_, rfl, store _ Sql.Tables.labelling rfl spares, by decide +kernel⟩

end Sync

end LedgerIndex
