import LedgerIndex.Proofs.Subscription.Serving
import Mathlib.Data.List.Induction

/-!
# Delivery is exact

A registry is used by registering connections, setting their filters, removing them, handing out
messages, reading and dropping mailboxes, in any order (`Action`).  The numbers of its connections
stay apart and its queues bounded (`WellFormed`), and every action keeps the account of every
reader: what it reads leaves its queue in front, what it is handed is added behind (`queue_act`).

So after any run of a registry, handing out messages does to each connection what `HandedOut` says,
and a reader has got, or will get, what it was handed, in order and each message once
(`handedOut_run`).
-/

namespace LedgerIndex.Registry

/-! ## Runs -/

/-- What can be done to a registry. -/
inductive Action where
  | register
  | setFilters (id : Nat) (filters : List Filter)
  | remove (id : Nat)
  | pushAll (messages : List Push)
  | fanOut (b : Batch)
  | receive (id : Nat) (limit : Option Nat)
  | dropMailbox (id : Nat)

/-- The registry after an action. -/
def act (r : Registry) : Action → Registry
  | .register => r.register.2
  | .setFilters id filters => (r.setFilters id filters).2
  | .remove id => (r.remove id).2
  | .pushAll messages => (r.pushAll messages).2
  | .fanOut b => (r.fanOut b).2
  | .receive id limit => (r.receive id limit).2
  | .dropMailbox id => (r.dropMailbox id).2

/-- The registry after some actions. -/
def run (r : Registry) (actions : List Action) : Registry := actions.foldl act r

/-- What the reader of a number reads in an action. -/
def read (id : Nat) (r : Registry) : Action → List Push
  | .receive other limit => if other = id then ((r.receive id limit).1.map (·.1)).getD [] else []
  | _ => []

/-- What the reader of a number is handed in an action. -/
def handed (id : Nat) (r : Registry) : Action → List Push
  | .pushAll messages => r.shareOf id messages
  | .fanOut b => r.shareOf id b.messages
  | _ => []

/-- What is seen along a run, one action after the other. -/
def along (seen : Registry → Action → List Push) : Registry → List Action → List Push
  | _, [] => []
  | r, a :: actions => seen r a ++ along seen (r.act a) actions

theorem run_concat (r : Registry) (actions : List Action) (a : Action) :
    r.run (actions ++ [a]) = (r.run actions).act a := by
  simp [run]

theorem along_concat (seen : Registry → Action → List Push) (r : Registry) (actions : List Action)
    (a : Action) :
    along seen r (actions ++ [a]) = along seen r actions ++ seen (r.run actions) a := by
  induction actions generalizing r with
  | nil => simp [along, run]
  | cons b actions ih =>
    rw [List.cons_append, along, along, ih, List.append_assoc]
    rfl

/-! ## What an action does -/

/-- What handing out messages does, where a mailbox has room for `room` messages. -/
structure HandedOut (room : Nat) (messages : List Push) (r : Registry)
    (after : Delivery × Registry) : Prop where
  /-- a reader that is there finds, behind what was queued, as many of the messages that its
  connection wants as there is room for -/
  served : ∀ c ∈ r.connections, ∀ m, r.mailbox? c.id = some m →
    c ∈ after.2.connections ∧ after.2.mailbox? c.id =
      some { m with queue := m.queue ++ (messages.filter c.wants).take (room - m.queue.length) }
  /-- a connection whose reader is gone goes too if it wants a message -/
  unread : ∀ c ∈ r.connections, r.mailbox? c.id = none →
    after.2.mailbox? c.id = none ∧ (c ∉ after.2.connections ↔ ∃ p ∈ messages, c.wants p)
  /-- a reader without a connection finds what was queued -/
  unconnected : ∀ id, r.connection? id = none → after.2.mailbox? id = r.mailbox? id
  /-- no connection is new or changed -/
  connections : after.2.connections.Sublist r.connections
  /-- the counts are the sums over the connections -/
  counts : after.1 =
    .total (r.connections.map fun c => c.outcome room messages (r.mailbox? c.id))

/-- Numbers are given out once, and queues are bounded. -/
structure WellFormed (r : Registry) : Prop where
  nodup : (r.connections.map (·.id)).Nodup
  connection_lt : ∀ c ∈ r.connections, c.id < r.nextId
  mailbox_lt : ∀ {id m}, r.mailbox? id = some m → id < r.nextId
  queue_le : ∀ {id m}, r.mailbox? id = some m → m.queue.length ≤ r.capacity

variable {r : Registry} {id : Nat}

/-- A number that is not given out yet has no mailbox. -/
theorem mailbox?_eq_none (hr : r.WellFormed) (h : r.nextId ≤ id) : r.mailbox? id = none := by
  cases hm : r.mailbox? id with
  | none => rfl
  | some m => exact absurd (hr.mailbox_lt hm) (Nat.not_lt.2 h)

theorem connection?_of_mem (hr : r.WellFormed) {c : Connection} (hc : c ∈ r.connections) :
    r.connection? c.id = some c := by
  cases h : r.connection? c.id with
  | none => simpa using List.find?_eq_none.1 h c hc
  | some other =>
    rw [List.inj_on_of_nodup_map hr.nodup (List.mem_of_find?_eq_some h) hc (id_of_connection? h)]

theorem handedOut_pushAll (hr : r.WellFormed) (messages : List Push) :
    HandedOut r.capacity messages r (r.pushAll messages) where
  served c hc m hm := by
    rw [connections_pushAll hr.nodup, mailbox?_pushAll hr.nodup, hm, shareOf,
      connection?_of_mem hr hc, hm]
    exact ⟨List.mem_filter.2 ⟨hc, by simp [isDead, hm]⟩, rfl⟩
  unread c hc hm := by
    rw [connections_pushAll hr.nodup, mailbox?_pushAll hr.nodup, hm]
    simp [isDead, hc, hm]
  unconnected id hid := by
    rw [mailbox?_pushAll hr.nodup, shareOf, hid]
    simp
  connections := connections_pushAll hr.nodup messages ▸ List.filter_sublist
  counts := fst_pushAll hr.nodup messages

theorem mailbox?_receive (r : Registry) (id other : Nat) (limit : Option Nat) :
    (r.receive other limit).2.mailbox? id =
      if id = other then
        (r.mailbox? id).map fun m =>
          { m with queue := m.queue.drop (limit.getD (m.queue.length + 1)) }
      else r.mailbox? id := by
  unfold receive
  cases hother : r.mailbox? other with
  | none =>
    by_cases hid : id = other
    · simp [hid, hother]
    · simp [hid]
  | some n =>
    dsimp only
    rw [mailbox?_map (fun m => by split <;> rfl)]
    by_cases hid : id = other
    · subst hid
      simp [hother, id_of_mailbox? hother]
    · cases h : r.mailbox? id with
      | none => simp [hid]
      | some m => simp [id_of_mailbox? h, hid]

theorem mailbox?_dropMailbox (r : Registry) (id other : Nat) :
    (r.dropMailbox other).2.mailbox? id = if id = other then none else r.mailbox? id := by
  unfold dropMailbox mailbox?
  rw [List.find?_filter]
  split
  · rename_i hid
    simp [hid]
  · rename_i hid
    congr 1
    funext m
    by_cases hm : m.id = id
    · simp [hm, hid]
    · simp [hm]

/-- Registering is refused, or adds a connection and a mailbox under a new number. -/
theorem register_eq (r : Registry) :
    r.register.2 = r ∨
      r.register.2 =
        { r with
          nextId := r.nextId + 1
          connections := r.connections ++ [⟨r.nextId, []⟩]
          mailboxes := r.mailboxes ++ [⟨r.nextId, []⟩] } := by
  unfold register
  split
  · exact .inl rfl
  · exact .inr rfl

/-- Reading is a matter of mailboxes. -/
theorem receive_eq (r : Registry) (id : Nat) (limit : Option Nat) :
    ∃ mailboxes, (r.receive id limit).2 = { r with mailboxes } := by
  unfold receive
  split
  · exact ⟨r.mailboxes, rfl⟩
  · exact ⟨_, rfl⟩

/-- A new connection has a number that had no mailbox. -/
theorem mailbox?_add (hr : r.WellFormed) (connections : List Connection) (nextId id : Nat) :
    mailbox? { r with nextId, connections, mailboxes := r.mailboxes ++ [⟨r.nextId, []⟩] } id =
      if id = r.nextId then some ⟨id, []⟩ else r.mailbox? id := by
  have hfresh : r.mailbox? r.nextId = none := mailbox?_eq_none hr (Nat.le_refl _)
  rw [mailbox?, List.find?_append]
  change (r.mailbox? id).or _ = _
  by_cases hid : id = r.nextId
  · simp [hid, hfresh]
  · simp [hid, Ne.symm hid]

/-- An action keeps the account of a reader that is there after it: what the reader reads leaves its
queue in front, and what it is handed is added behind.  A new reader starts with nothing. -/
theorem queue_act (hr : r.WellFormed) {a : Action} {m' : Mailbox}
    (h : (r.act a).mailbox? id = some m') :
    (∃ m, r.mailbox? id = some m ∧ read id r a ++ m'.queue = m.queue ++ handed id r a) ∨
      (a = .register ∧ id = r.nextId ∧ (r.act a).nextId = r.nextId + 1 ∧ m'.queue = []) := by
  cases a with
  | register =>
    rw [act] at h ⊢
    obtain hsame | hadd := register_eq r
    · rw [hsame] at h
      exact .inl ⟨m', h, by simp [read, handed]⟩
    · rw [hadd, mailbox?_add hr] at h
      by_cases hid : id = r.nextId
      · rw [if_pos hid, Option.some.injEq] at h
        exact .inr ⟨rfl, hid, by rw [hadd], by rw [← h]⟩
      · rw [if_neg hid] at h
        exact .inl ⟨m', h, by simp [read, handed]⟩
  | setFilters other filters => exact .inl ⟨m', h, by simp [read, handed]⟩
  | remove other => exact .inl ⟨m', h, by simp [read, handed]⟩
  | pushAll messages =>
    rw [act, mailbox?_pushAll hr.nodup, Option.map_eq_some_iff] at h
    obtain ⟨m, hm, rfl⟩ := h
    exact .inl ⟨m, hm, rfl⟩
  | fanOut b =>
    rw [act, fanOut, mailbox?_pushAll hr.nodup, Option.map_eq_some_iff] at h
    obtain ⟨m, hm, rfl⟩ := h
    exact .inl ⟨m, hm, rfl⟩
  | receive other limit =>
    rw [act, mailbox?_receive] at h
    by_cases hid : id = other
    · rw [if_pos hid, Option.map_eq_some_iff] at h
      obtain ⟨m, hm, rfl⟩ := h
      refine .inl ⟨m, hm, ?_⟩
      simp [read, receive, handed, ← hid, hm]
    · rw [if_neg hid] at h
      exact .inl ⟨m', h, by simp [read, handed, Ne.symm hid]⟩
  | dropMailbox other =>
    rw [act, mailbox?_dropMailbox] at h
    by_cases hid : id = other
    · simp [hid] at h
    · rw [if_neg hid] at h
      exact .inl ⟨m', h, by simp [read, handed]⟩

theorem capacity_act (hr : r.WellFormed) (a : Action) : (r.act a).capacity = r.capacity := by
  cases a with
  | register =>
    rw [act]
    obtain h | h := register_eq r <;> rw [h]
  | pushAll messages => exact (visited_pushAll hr.nodup messages).capacity
  | fanOut b => exact (visited_pushAll hr.nodup b.messages).capacity
  | receive id limit =>
    obtain ⟨_, h⟩ := receive_eq r id limit
    rw [act, h]
  | setFilters | remove | dropMailbox => rfl

/-- The numbers of the connections after an action: some may be gone, or there is a new one. -/
theorem ids_act (hr : r.WellFormed) (a : Action) :
    ((r.act a).nextId = r.nextId ∧
        ((r.act a).connections.map (·.id)).Sublist (r.connections.map (·.id))) ∨
      ((r.act a).nextId = r.nextId + 1 ∧
        (r.act a).connections.map (·.id) = r.connections.map (·.id) ++ [r.nextId]) := by
  have hpush (messages : List Push) :
      (r.pushAll messages).2.nextId = r.nextId ∧
        ((r.pushAll messages).2.connections.map (·.id)).Sublist (r.connections.map (·.id)) :=
    ⟨(visited_pushAll hr.nodup messages).nextId,
      (handedOut_pushAll hr messages).connections.map _⟩
  cases a with
  | register =>
    rw [act]
    obtain h | h := register_eq r
    · rw [h]
      exact .inl ⟨rfl, .refl _⟩
    · rw [h]
      exact .inr ⟨rfl, by simp⟩
  | setFilters id filters =>
    have hids : (r.setFilters id filters).2.connections.map (·.id) = r.connections.map (·.id) := by
      unfold setFilters
      rw [List.map_map]
      refine List.map_congr_left fun c _ => ?_
      dsimp only [Function.comp_apply]
      split <;> rfl
    exact .inl ⟨rfl, hids ▸ .refl _⟩
  | remove id => exact .inl ⟨rfl, List.filter_sublist.map _⟩
  | pushAll messages => exact .inl (hpush messages)
  | fanOut b => exact .inl (hpush b.messages)
  | receive id limit =>
    obtain ⟨_, h⟩ := receive_eq r id limit
    rw [act, h]
    exact .inl ⟨rfl, .refl _⟩
  | dropMailbox id => exact .inl ⟨rfl, .refl _⟩

theorem nextId_le_act (hr : r.WellFormed) (a : Action) : r.nextId ≤ (r.act a).nextId := by
  obtain ⟨h, -⟩ | ⟨h, -⟩ := ids_act hr a <;> omega

theorem length_handed_le (hr : r.WellFormed) {m : Mailbox} (h : r.mailbox? id = some m)
    (a : Action) : (m.queue ++ handed id r a).length ≤ r.capacity := by
  have hqueue := hr.queue_le h
  have hshare (messages : List Push) :
      (m.queue ++ r.shareOf id messages).length ≤ r.capacity := by
    unfold shareOf
    rw [h]
    cases r.connection? id with
    | none => simpa using hqueue
    | some c =>
      simp only [Connection.share, List.length_append, List.length_take]
      omega
  cases a with
  | pushAll messages => exact hshare messages
  | fanOut b => exact hshare b.messages
  | register | setFilters | remove | receive | dropMailbox => simpa [handed] using hqueue

theorem WellFormed.act (hr : r.WellFormed) (a : Action) : (r.act a).WellFormed where
  nodup := by
    obtain ⟨-, hsub⟩ | ⟨-, hmap⟩ := ids_act hr a
    · exact hr.nodup.sublist hsub
    · rw [hmap, List.nodup_append]
      refine ⟨hr.nodup, by simp, fun x hx y hy hxy => ?_⟩
      obtain ⟨c, hc, rfl⟩ := List.mem_map.1 hx
      have hlt := hr.connection_lt c hc
      rw [hxy, List.mem_singleton.1 hy] at hlt
      exact Nat.lt_irrefl _ hlt
  connection_lt c hc := by
    have hid : c.id ∈ (r.act a).connections.map (·.id) := List.mem_map_of_mem hc
    have hold (h : c.id ∈ r.connections.map (·.id)) : c.id < r.nextId := by
      obtain ⟨other, hother, hid⟩ := List.mem_map.1 h
      exact hid ▸ hr.connection_lt other hother
    obtain ⟨hnext, hsub⟩ | ⟨hnext, hmap⟩ := ids_act hr a
    · exact Nat.lt_of_lt_of_le (hold (hsub.subset hid)) (Nat.le_of_eq hnext.symm)
    · rw [hmap, List.mem_append, List.mem_singleton] at hid
      obtain hid | hid := hid
      · exact Nat.lt_of_lt_of_le (hold hid) (nextId_le_act hr a)
      · rw [hid, hnext]
        exact Nat.lt_succ_self _
  mailbox_lt {id m'} h := by
    obtain ⟨m, hm, -⟩ | ⟨-, hid, hnext, -⟩ := queue_act hr h
    · exact Nat.lt_of_lt_of_le (hr.mailbox_lt hm) (nextId_le_act hr a)
    · rw [hid, hnext]
      exact Nat.lt_succ_self _
  queue_le {id m'} h := by
    rw [capacity_act hr]
    obtain ⟨m, hm, haccount⟩ | ⟨-, -, -, hempty⟩ := queue_act hr h
    · have hle := length_handed_le hr hm a
      rw [← haccount, List.length_append] at hle
      omega
    · simp [hempty]

/-! ## What a run does -/

/-- The account of a reader: what it has read, with what is queued, is what it was handed.  A number
that is not given out yet has no account. -/
structure Balanced (r : Registry) (id : Nat) (got given : List Push) : Prop where
  queued : ∀ m, r.mailbox? id = some m → got ++ m.queue = given
  fresh : r.nextId ≤ id → got = [] ∧ given = []

theorem Balanced.act (hr : r.WellFormed) {got given : List Push} (h : r.Balanced id got given)
    (a : Action) :
    (r.act a).Balanced id (got ++ read id r a) (given ++ handed id r a) where
  queued m' hm' := by
    obtain ⟨m, hm, haccount⟩ | ⟨rfl, hid, -, hempty⟩ := queue_act hr hm'
    · rw [List.append_assoc, haccount, ← List.append_assoc, h.queued m hm]
    · obtain ⟨hgot, hgiven⟩ := h.fresh (Nat.le_of_eq hid.symm)
      simp [hgot, hgiven, hempty, read, handed]
  fresh hid := by
    have hfresh : r.nextId ≤ id := Nat.le_trans (nextId_le_act hr a) hid
    obtain ⟨hgot, hgiven⟩ := h.fresh hfresh
    have hmailbox : r.mailbox? id = none := mailbox?_eq_none hr hfresh
    have hshare (messages : List Push) : r.shareOf id messages = [] := by
      unfold shareOf
      rw [hmailbox]
      split <;> simp_all
    refine ⟨?_, ?_⟩
    · rw [hgot, read.eq_def]
      split
      · rename_i other limit
        by_cases hother : other = id
        · simp [receive, hother, hmailbox]
        · simp [hother]
      · rfl
    · rw [hgiven, handed.eq_def]
      split <;> simp [hshare]

theorem WellFormed.new (maxClients capacity : Nat) : (new maxClients capacity).WellFormed where
  nodup := List.nodup_nil
  connection_lt _ hc := absurd hc List.not_mem_nil
  mailbox_lt h := nomatch h
  queue_le h := nomatch h

theorem WellFormed.run (hr : r.WellFormed) (actions : List Action) :
    (r.run actions).WellFormed := by
  induction actions generalizing r with
  | nil => exact hr
  | cons a actions ih => exact ih (hr.act a)

theorem capacity_run (hr : r.WellFormed) (actions : List Action) :
    (r.run actions).capacity = r.capacity := by
  induction actions generalizing r with
  | nil => rfl
  | cons a actions ih => exact (ih (hr.act a)).trans (capacity_act hr a)

theorem balanced_run (maxClients capacity id : Nat) (actions : List Action) :
    ((new maxClients capacity).run actions).Balanced id
      (along (read id) (new maxClients capacity) actions)
      (along (handed id) (new maxClients capacity) actions) := by
  -- the last action is the one that meets the account so far
  induction actions using List.reverseRecOn with
  | nil => exact ⟨fun _ h => (nomatch h), fun _ => ⟨rfl, rfl⟩⟩
  | append_singleton actions a ih =>
    rw [run_concat, along_concat, along_concat]
    exact ih.act ((WellFormed.new maxClients capacity).run actions) a

/-- After any run, messages are handed out exactly; and what a reader has read along the run, with
what is still queued for it, is what it was handed, in order. -/
theorem handedOut_run (maxClients capacity : Nat) (actions : List Action) :
    (∀ messages, HandedOut (max capacity 1) messages ((new maxClients capacity).run actions)
      (((new maxClients capacity).run actions).pushAll messages)) ∧
    ∀ id m, ((new maxClients capacity).run actions).mailbox? id = some m →
      m.queue.length ≤ max capacity 1 ∧
        along (read id) (new maxClients capacity) actions ++ m.queue =
          along (handed id) (new maxClients capacity) actions := by
  have hnew := WellFormed.new maxClients capacity
  have hrun := hnew.run actions
  have hcapacity : ((new maxClients capacity).run actions).capacity = max capacity 1 :=
    capacity_run hnew actions
  refine ⟨fun messages => ?_, fun id m hm => ⟨?_, ?_⟩⟩
  · rw [← hcapacity]
    exact handedOut_pushAll hrun messages
  · rw [← hcapacity]
    exact hrun.queue_le hm
  · exact (balanced_run maxClients capacity id actions).queued m hm

/-- A message about a change, known by its checkpoint. -/
def note (checkpoint : UInt64) : Push := ⟨.change, "", none, checkpoint, none, .null⟩

/-- Two connections, the first with two filters for the same messages.  It is handed two of three
messages, reads one, and the reader of the second goes away. -/
def twoReaders : List Action :=
  [.register, .register,
    .setFilters 1 [.changes none, ⟨.change, none, some "anyone"⟩], .setFilters 2 [.changes none],
    .pushAll [note 1, note 2, note 3], .receive 1 (some 1), .dropMailbox 2]

theorem handedOut_run_twoReaders :
    HandedOut 2 [note 4, note 5] ((new 8 2).run twoReaders)
        (((new 8 2).run twoReaders).pushAll [note 4, note 5]) ∧
      (((new 8 2).run twoReaders).pushAll [note 4, note 5]).1 = ⟨1, 1, 1⟩ ∧
      ((new 8 2).run (twoReaders ++ [.pushAll [note 4, note 5]])).mailbox? 1 =
        some ⟨1, [note 2, note 4]⟩ ∧
      along (read 1) (new 8 2) (twoReaders ++ [.pushAll [note 4, note 5]]) ++ [note 2, note 4] =
        along (handed 1) (new 8 2) (twoReaders ++ [.pushAll [note 4, note 5]]) :=
  ⟨(handedOut_run 8 2 twoReaders).1 [note 4, note 5], by rfl, by rfl,
    ((handedOut_run 8 2 (twoReaders ++ [.pushAll [note 4, note 5]])).2 1 _ (by rfl)).2⟩

end LedgerIndex.Registry
