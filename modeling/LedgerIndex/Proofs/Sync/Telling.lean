import LedgerIndex.Proofs.Batch.Pages
import LedgerIndex.Proofs.Subscription.Delivery
import LedgerIndex.Proofs.Subscription.LastTold
import LedgerIndex.Proofs.Sync.Audit
import LedgerIndex.Proofs.Sync.Cursors
import LedgerIndex.Proofs.Traversal

/-!
# Subscribers hear of what is stored

An event makes a message if its transaction and its type are wanted and its payload is well formed
(`Config.heard`).  The messages for a page are those of its log entries in order, and then those of
its changes by checkpoint (`Told`).  They are handed out when the store has taken the page in, once
and at no other time: whatever happens between the rounds of a machine, the lists handed out are
those of the batches that the store took in by its own account, one after the other
(`handouts_live`).
-/

namespace LedgerIndex

/-- The message for what an event says. -/
def Payload.push (t : Transaction) (e : RawEvent) : Payload → Push
  | .entry name rawName value =>
    .ofEvent ⟨e.sender, t.checkpoint, t.digest, name, rawName, value, 0⟩
  | .set key value => .ofChange ⟨key, some value, t.checkpoint, t.digest, e.sender⟩
  | .remove key => .ofChange ⟨key, none, t.checkpoint, t.digest, e.sender⟩

namespace Push

@[simp] theorem topic_ofEvent (e : EventRecord) : (ofEvent e).topic = .entry := rfl

@[simp] theorem topic_ofChange (c : Change) : (ofChange c).topic = .change := rfl

end Push

namespace Sync

/-! ## The messages for a page -/

namespace Config

/-- The message for an event, if its type is wanted and it is well formed. -/
def hear? (config : Config) (t : Transaction) (e : RawEvent) : Option Push :=
  if config.events.accepts e.type then
    match Payload.parse e.payload with
    | .ok payload => some (payload.push t e)
    | .error _ => none
  else none

/-- The messages for the events of a page, in order. -/
def heard (config : Config) (page : List Transaction) : List Push :=
  (page.filter fun t => config.takes t.checkpoint).flatMap fun t =>
    t.events.filterMap (config.hear? t)

/-- What makes a message is an event that is wanted and well formed, of a transaction that is taken
in. -/
theorem mem_heard {config : Config} {page : List Transaction} {p : Push} :
    p ∈ config.heard page ↔ ∃ t ∈ page, config.takes t.checkpoint ∧ ∃ e ∈ t.events,
      config.events.accepts e.type ∧ ∃ payload, Payload.parse e.payload = .ok payload ∧
        p = payload.push t e := by
  have hhear (t : Transaction) (e : RawEvent) : config.hear? t e = some p ↔
      config.events.accepts e.type ∧ ∃ payload, Payload.parse e.payload = .ok payload ∧
        p = payload.push t e := by
    rw [hear?]
    cases config.events.accepts e.type <;> cases Payload.parse e.payload <;> simp [eq_comm]
  simp only [heard, List.mem_flatMap, List.mem_filter, List.mem_filterMap, hhear, and_assoc]

end Config

/-- The messages for what is heard: the log entries in order, and then the changes by checkpoint, in
order where checkpoints are equal. -/
structure Told (heard messages : List Push) : Prop where
  entries : messages = heard.filter (·.topic = .entry) ++ messages.filter (·.topic = .change)
  ordered : (messages.filter (·.topic = .change)).Pairwise fun p q => p.checkpoint ≤ q.checkpoint
  stable (checkpoint : UInt64) :
    (messages.filter (·.topic = .change)).filter (·.checkpoint = checkpoint) =
      (heard.filter (·.topic = .change)).filter (·.checkpoint = checkpoint)

/-- No message is made up. -/
theorem Told.subset {heard messages : List Push} (h : Told heard messages) : messages ⊆ heard := by
  intro p hp
  rw [h.entries, List.mem_append] at hp
  obtain hp | hp := hp
  · exact (List.mem_filter.1 hp).1
  · have hstable : p ∈ (messages.filter (·.topic = .change)).filter (·.checkpoint = p.checkpoint) :=
      List.mem_filter.2 ⟨hp, by simp⟩
    rw [h.stable] at hstable
    exact (List.mem_filter.1 (List.mem_filter.1 hstable).1).1

/-- Sorting by checkpoint does not change what there is of one checkpoint. -/
theorem filter_byCheckpoint (checkpoint : UInt64) (changes : List Change) :
    (byCheckpoint changes).filter (·.checkpoint = checkpoint) =
      changes.filter (·.checkpoint = checkpoint) := by
  induction changes with
  | nil => simp [byCheckpoint]
  | cons c changes ih =>
    obtain ⟨older, others, hcons, hrest, holder⟩ := exists_byCheckpoint_cons c changes
    rw [hrest, List.filter_append] at ih
    rw [hcons, List.filter_append]
    by_cases hc : c.checkpoint = checkpoint
    · have hnone : older.filter (·.checkpoint = checkpoint) = [] := by
        refine List.filter_eq_nil_iff.2 fun d hd heq => ?_
        have hlt := holder d hd
        rw [of_decide_eq_true heq, hc] at hlt
        exact UInt64.lt_irrefl _ hlt
      rw [hnone, List.nil_append] at ih ⊢
      simp [hc, ih]
    · simp [hc, ih]

theorem filter_heard (config : Config) (page : List Transaction) (see : Push → Bool) :
    (config.heard page).filter see = (config.kept page).flatMap fun t => t.events.flatMap fun e =>
      (config.hear? t e).toList.filter see := by
  simp only [Config.heard, Config.kept, List.filter_flatMap, List.filterMap_eq_flatMap_toList]

/-- The log entries of a batch are those that are heard, in order. -/
theorem events_batchOf (config : Config) (stamp : Int) (page : List Transaction) :
    (config.batchOf stamp page).events.map Push.ofEvent =
      (config.heard page).filter (·.topic = .entry) := by
  have hevent (t : Transaction) (e : RawEvent) :
      (Batch.ofEvent config.events stamp t e).events.map Push.ofEvent =
        (config.hear? t e).toList.filter (·.topic = .entry) := by
    rw [Batch.ofEvent, Config.hear?]
    split
    · split <;> rename_i h <;> simp [h, Payload.push, Push.ofEvent, Batch.empty]
    · rfl
  rw [filter_heard, Config.batchOf, Batch.events_ofPage]
  simp only [List.map_flatMap, hevent]

/-- The changes of a batch are those that are heard, in order. -/
theorem changes_batchOf (config : Config) (stamp : Int) (page : List Transaction) :
    (config.batchOf stamp page).changes.map Push.ofChange =
      (config.heard page).filter (·.topic = .change) := by
  have hchange (t : Transaction) (e : RawEvent) :
      (Batch.ofEvent config.events stamp t e).changes.map Push.ofChange =
        (config.hear? t e).toList.filter (·.topic = .change) := by
    rw [Batch.ofEvent, Config.hear?]
    split
    · split <;> rename_i h <;> simp [h, Payload.push, Batch.empty]
    · rfl
  rw [filter_heard, Config.batchOf, Batch.changes_ofPage]
  simp only [List.map_flatMap, hchange]

theorem told_batchOf (config : Config) (stamp : Int) (page : List Transaction) :
    Told (config.heard page) (config.batchOf stamp page).messages := by
  set b := config.batchOf stamp page with hb
  have hmessages : b.messages =
      b.events.map Push.ofEvent ++ (byCheckpoint b.changes).map Push.ofChange := rfl
  have hchanges :
      b.messages.filter (·.topic = .change) = (byCheckpoint b.changes).map Push.ofChange := by
    rw [hmessages, List.filter_append]
    simp [List.filter_map, Function.comp_def]
  refine ⟨?_, ?_, fun checkpoint => ?_⟩
  · rw [hchanges, ← events_batchOf config stamp]
    exact hmessages
  · rw [hchanges, List.pairwise_map]
    exact ordered_byCheckpoint b.changes
  · rw [hchanges, ← changes_batchOf config stamp, List.filter_map, List.filter_map, ← hb]
    exact congrArg _ (filter_byCheckpoint checkpoint b.changes)

end Sync

/-! ## What happens to a machine -/

namespace Registry.Action

/-- The messages that are handed out in an action, if it is that. -/
def messages? : Action → Option (List Push)
  | pushAll messages => some messages
  | fanOut b => some b.messages
  | _ => none

end Registry.Action

namespace Sync

variable {ν σ : Type}

/-- What subscribers do: anything but handing out messages. -/
def Subscribing : Type := { a : Registry.Action // a.messages? = none }

/-- What happens to a machine: a round, or something that is not its own doing. -/
inductive Happening (ν σ : Type) where
  | round
  | outside (w : ν)
  | store (s : σ)
  | subscribers (a : Subscribing)

def Happening.subscribing? : Happening ν σ → Option Registry.Action
  | subscribers a => some a.val
  | _ => none

namespace Machine

variable [Ledger ν] [Clock ν] [CommitStore σ]

/-- A machine after something has happened. -/
def after (m : Machine ν σ) : Happening ν σ → Machine ν σ
  | .round => m.step.2
  | .outside w => { m with outside := w }
  | .store s => { m with store := s }
  | .subscribers a => { m with registry := m.registry.map (·.act a.val) }

/-- The page that is stored when something happens. -/
def storedIn (m : Machine ν σ) : Happening ν σ → Option (List Transaction)
  | .round => m.storedPage?
  | _ => none

/-- A machine after all that has happened. -/
def live (m : Machine ν σ) (hs : List (Happening ν σ)) : Machine ν σ := hs.foldl after m

/-- The pages that are stored in the course of what happens, in order. -/
def stored : Machine ν σ → List (Happening ν σ) → List (List Transaction)
  | _, [] => []
  | m, h :: hs => (m.storedIn h).toList ++ stored (m.after h) hs

/-- The batches that the store takes in from the machine when something happens, by the account of
the store. -/
def takenIn (m : Machine ν σ) : Happening ν σ → List Batch
  | .round => m.taken
  | _ => []

/-- All batches that the store takes in from the machine in the course of what happens, in order. -/
def allTaken : Machine ν σ → List (Happening ν σ) → List Batch
  | _, [] => []
  | m, h :: hs => m.takenIn h ++ allTaken (m.after h) hs

/-! ### Something happens -/

/-- The batch that a round stores is the one of the page that it stores. -/
theorem stored?_deed (m : Machine ν σ) :
    ∃ stamp, (m.core.deed m.outside).stored? =
      m.storedPage?.map (m.loop.config.batchOf stamp) := by
  have hconfig := m.core.config_ready
  rw [storedPage?, answer_eq, (deed_step m).outcome, Core.deed]
  rcases hr : m.core.ready with ⟨_ | ⟨⟩, c⟩ <;> rw [hr] at hconfig
  · exact ⟨0, rfl⟩
  · dsimp only at hconfig ⊢
    rcases (c.fetch m.outside).1 with _ | _ | ⟨t, page⟩
    · exact ⟨0, rfl⟩
    · exact ⟨0, rfl⟩
    · generalize (Clock.stamp (c.fetch m.outside).2).1 = stamp
      refine ⟨stamp, ?_⟩
      obtain ⟨e, store, -, h⟩ | ⟨summary, store, -, h⟩ := c.attempt_cases stamp (t :: page) <;>
        rw [Core.react, h]
      · rfl
      · rw [hconfig]
        rfl

end Machine

/-! ### What subscribers are told -/

/-- Subscribers are told of the batches for some pages while they do something themselves.  What is
done to the registry are their own actions, and one for each batch between them. -/
structure Telling (config : Config) (pages : List (List Transaction)) (batches : List Batch)
    (own : List Registry.Action) (told : List (List Push)) (actions : List Registry.Action) :
    Prop where
  /-- there is one batch for each page, and its messages are those for what is heard in the page -/
  made : List.Forall₂ (fun page b =>
    (∃ stamp, b = config.batchOf stamp page) ∧ Told (config.heard page) b.messages) pages batches
  /-- there is one list of messages for each batch -/
  lists : told = batches.map (·.messages)
  handedOut : actions.filterMap (·.messages?) = told
  own : actions.filter (·.messages?.isNone) = own

namespace Telling

variable {config : Config} {pages pages' : List (List Transaction)} {batches batches' : List Batch}
  {own own' actions actions' : List Registry.Action} {told told' : List (List Push)}

theorem nil : Telling config [] [] [] [] [] := ⟨.nil, rfl, rfl, rfl⟩

theorem append (h : Telling config pages batches own told actions)
    (h' : Telling config pages' batches' own' told' actions') :
    Telling config (pages ++ pages') (batches ++ batches') (own ++ own') (told ++ told')
      (actions ++ actions') where
  made := List.rel_append h.made h'.made
  lists := by rw [h.lists, h'.lists, List.map_append]
  handedOut := by rw [List.filterMap_append, h.handedOut, h'.handedOut]
  own := by rw [List.filter_append, h.own, h'.own]

/-- Whatever is told is about one of the pages. -/
theorem exists_page (h : Telling config pages batches own told actions) {messages : List Push}
    (hmessages : messages ∈ told) : ∃ page ∈ pages, Told (config.heard page) messages := by
  rw [h.lists] at hmessages
  obtain ⟨b, hb, rfl⟩ := List.mem_map.1 hmessages
  obtain ⟨page, hpage, -, htold⟩ := exists_left_of_forall₂ h.made hb
  exact ⟨page, hpage, htold⟩

end Telling

section Living

variable [Ledger ν] [Clock ν] [CommitStore σ]

namespace Machine

/-- One list of messages is handed out for a batch that the store takes in, and none at any other
time. -/
theorem telling_after {m : Machine ν σ} {r : Registry} (hr : m.registry = some r)
    (h : Happening ν σ) :
    ∃ told actions, Telling m.loop.config (m.storedIn h).toList (m.takenIn h)
        h.subscribing?.toList told actions ∧
      handouts (m.after h).log = handouts m.log ++ told ∧
      (m.after h).registry = some (r.run actions) := by
  cases h with
  | round =>
    obtain ⟨stamp, hstored⟩ := m.stored?_deed
    -- the deed of the round gives the registry the batch that the store has taken in, if any
    have htrade := (deed_step m).trade
    obtain ⟨hregistry, hhandouts⟩ := (m.core.deed m.outside).trade_of_registry (t := m.trade) hr
    rw [← htrade] at hregistry hhandouts
    have hlog : handouts m.step.2.log = handouts m.log ++
        (m.core.deed m.outside).stored?.toList.map (·.messages) := by
      rw [← handouts_dealings, ← handouts_dealings m.log]
      exact hhandouts
    refine ⟨_, (m.core.deed m.outside).stored?.toList.map .fanOut, ?_, hlog, ?_⟩
    · rw [storedIn, takenIn, taken_eq, hstored]
      cases m.storedPage? with
      | none => exact .nil
      | some page =>
        exact ⟨.cons ⟨⟨stamp, rfl⟩, told_batchOf m.loop.config stamp page⟩ .nil, rfl, rfl, rfl⟩
    · refine hregistry.trans ?_
      cases (m.core.deed m.outside).stored? <;> rfl
  | outside w => exact ⟨[], [], .nil, (List.append_nil _).symm, hr⟩
  | store s => exact ⟨[], [], .nil, (List.append_nil _).symm, hr⟩
  | subscribers a =>
    refine ⟨[], [a.val], ⟨.nil, rfl, ?_, ?_⟩, (List.append_nil _).symm, ?_⟩
    · simp [a.property]
    · simp [a.property, Happening.subscribing?]
    · rw [after, hr]
      rfl

theorem config_after (m : Machine ν σ) (h : Happening ν σ) :
    (m.after h).loop.config = m.loop.config := by
  cases h with
  | round =>
    have hcore := (deed_step m).core
    exact (congrArg Core.config hcore).trans (m.core.config_deed m.outside)
  | outside | store | subscribers => rfl

/-! ### All that happens -/

theorem telling_live {m : Machine ν σ} {r : Registry} (hr : m.registry = some r)
    (hs : List (Happening ν σ)) :
    ∃ told actions, Telling m.loop.config (m.stored hs) (m.allTaken hs)
        (hs.filterMap (·.subscribing?)) told actions ∧
      handouts (m.live hs).log = handouts m.log ++ told ∧
      (m.live hs).registry = some (r.run actions) := by
  induction hs generalizing m r with
  | nil => exact ⟨[], [], .nil, (List.append_nil _).symm, hr⟩
  | cons h hs ih =>
    obtain ⟨told, actions, htelling, hlog, hregistry⟩ := telling_after hr h
    obtain ⟨told', actions', htelling', hlog', hregistry'⟩ := ih hregistry
    rw [config_after] at htelling'
    refine ⟨told ++ told', actions ++ actions', ?_, ?_, ?_⟩
    · have hown : (h :: hs).filterMap (·.subscribing?) =
          h.subscribing?.toList ++ hs.filterMap (·.subscribing?) := by
        rw [List.filterMap_cons]
        cases h.subscribing? <;> rfl
      rw [hown]
      exact htelling.append htelling'
    · rw [← List.append_assoc, ← hlog]
      exact hlog'
    · refine hregistry'.trans ?_
      rw [Registry.run, Registry.run, Registry.run, List.foldl_append]

/-- **Subscribers hear of what is stored, and of nothing else.**  Whatever happens to a machine with
a registry, the lists of messages that were handed out are those of the batches that the store took
in by its own account, one list for each batch and in order, and these are the batches for the pages
that were stored.  A message stems from an event that is wanted and well formed, of a transaction in
one of these pages that is taken in. -/
theorem handouts_live (config : Config) (w : ν) (s : σ) (maxClients capacity : Nat)
    (hs : List (Happening ν σ)) :
    let m : Machine ν σ := .new config w s (some (.new maxClients capacity))
    handouts (m.live hs).log = (m.allTaken hs).map (·.messages) ∧
    (∃ actions, Telling config (m.stored hs) (m.allTaken hs) (hs.filterMap (·.subscribing?))
        (handouts (m.live hs).log) actions ∧
      (m.live hs).registry = some ((Registry.new maxClients capacity).run actions)) ∧
    ∀ messages ∈ handouts (m.live hs).log, ∀ p ∈ messages, ∃ page ∈ m.stored hs, ∃ t ∈ page,
      config.takes t.checkpoint ∧ ∃ e ∈ t.events, config.events.accepts e.type ∧
        ∃ payload, Payload.parse e.payload = .ok payload ∧ p = payload.push t e := by
  intro m
  obtain ⟨told, actions, htelling, hlog, hregistry⟩ := telling_live (m := m) rfl hs
  obtain rfl : handouts (m.live hs).log = told := hlog
  refine ⟨htelling.lists, ⟨actions, htelling, hregistry⟩, fun messages hmessages p hp => ?_⟩
  obtain ⟨page, hpage, htold⟩ := htelling.exists_page hmessages
  exact ⟨page, hpage, Config.mem_heard.1 (htold.subset hp)⟩

end Machine

end Living

/-! ### A run with failures -/

/-- An event of a type, with a payload that has a name and maybe a value. -/
def named (type name : String) (value : Option Json) : RawEvent :=
  ⟨"0x1::shop::" ++ type, "0x2",
    .object (("name", .string name) :: (value.map fun v => ("value", v)).toList)⟩

/-- A transaction below the start, one with a set, a type that is not wanted, a payload that is none
and a log entry, and a removal at an earlier checkpoint. -/
def mixed : List Transaction :=
  [⟨"a", 4, 0, "0x1", [], [named "Row" "early" (some .null)]⟩,
    ⟨"b", 9, 0, "0x1", [], [named "Row" "offer" (some .null), named "Other" "other" none,
      ⟨"0x1::shop::Row", "0x2", .null⟩, named "Row" "sold_event" none]⟩,
    ⟨"c", 7, 0, "0x1", [], [named "Row" "offer" none]⟩]

/-- No page, a page that the store refuses, the same page again, and nothing; a subscriber comes and
goes meanwhile. -/
def eventful : List (Happening Scripted.LedgerScript (Unreliable Memory)) :=
  [.subscribers ⟨.register, rfl⟩, .round, .subscribers ⟨.setFilters 1 [.changes none], rfl⟩, .round,
    .round, .subscribers ⟨.receive 1 none, rfl⟩, .subscribers ⟨.dropMailbox 1, rfl⟩, .round]

/-- The ledger to which this happens. -/
def faltering : Scripted.LedgerScript :=
  ⟨[⟨.error (.rpc "no answer"), none⟩, ⟨.ok mixed, none⟩, ⟨.ok mixed, none⟩], [], false, false,
    false, 0, 0⟩

/-- Which types are wanted, from checkpoint 6 on. -/
def wanted : Config := { Config.usual with events := ⟨[], ["Row"]⟩, start := some 6 }

/-- Of the two times that the page is there, the store takes it in once, and there is one list. -/
theorem handouts_live_eventful :
    let m : Machine Scripted.LedgerScript (Unreliable Memory) :=
      .new wanted faltering ⟨.empty, false, [1], 0⟩ (some (.new 8 8))
    (m.stored eventful).map (·.map (·.digest)) = [["a", "b", "c"]] ∧
      (m.allTaken eventful).map (fun b => (b.events.length, b.changes.length)) = [(1, 2)] ∧
      (wanted.heard mixed).map (fun p => (p.name, p.checkpoint)) =
        [("offer", 9), ("sold", 9), ("offer", 7)] ∧
      (handouts (m.live eventful).log).length = 1 ∧
      handouts (m.live eventful).log = (m.allTaken eventful).map (·.messages) := by
  intro m
  exact ⟨by decide +kernel, by decide +kernel, by decide +kernel, by decide +kernel,
    (Machine.handouts_live wanted faltering _ 8 8 eventful).1⟩

end Sync

end LedgerIndex
