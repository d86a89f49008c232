import LedgerIndex.Proofs.Subscription.Delivery

/-!
# Subscribers do not notice each other

All connections share one registry, and messages are handed out to all of them in one loop.  Still
each client has a place of its own there (`Seat`): its filters while it is connected, and its queue
while it reads.  What an action does to a seat, and what it answers to the client, is decided by the
seat and by what the action is to this client (`seat_act`, `answer?_eq`).  So the answers along a
run are a function of what the client itself does and of the messages handed out (`answers_eq`),
whatever number its connection has and whatever the others do.
-/

namespace LedgerIndex

namespace Delivery

theorem add_comm (a b : Delivery) : a + b = b + a := by
  change add a b = add b a
  simp [add, Nat.add_comm]

/-- A total does not depend on the order. -/
theorem total_perm {ds es : List Delivery} (h : ds.Perm es) : total ds = total es := by
  induction h with
  | nil => rfl
  | cons d _ ih => exact congrArg (d + ·) ih
  | swap d e ds =>
    change e + (d + total ds) = d + (e + total ds)
    rw [← add_assoc, ← add_assoc, add_comm e d]
  | trans _ _ ih ih' => exact ih.trans ih'

end Delivery

namespace Registry

/-! ## Seats -/

/-- What concerns a client: what it does itself, and what is handed out to all. -/
inductive Deal where
  | setFilters (filters : List Filter)
  | remove
  | receive (limit : Option Nat)
  | dropMailbox
  | messages (messages : List Push)

/-- What an answer tells a client. -/
inductive Reply where
  /-- whether there was a connection, or a reader -/
  | known (wasThere : Bool)
  /-- what was read, and why reading stopped; nothing without a reader -/
  | read (found : Option (List Push × ReadEnd))

/-- The place of a client. -/
structure Seat where
  /-- the filters, while the connection is there -/
  filters : Option (List Filter)
  /-- what is queued, while the reader is there -/
  queue : Option (List Push)

namespace Seat

/-- The seat after something that concerns it. -/
def after (capacity : Nat) (s : Seat) : Deal → Seat
  | .setFilters filters => { s with filters := s.filters.map fun _ => filters }
  | .remove => { s with filters := none }
  | .receive limit => { s with queue := s.queue.map fun q => q.drop (limit.getD (q.length + 1)) }
  | .dropMailbox => { s with queue := none }
  | .messages messages =>
    match s.filters, s.queue with
    | some filters, some queue =>
      let wanted := messages.filter fun p => filters.any (·.wants p)
      { s with queue := some (queue ++ wanted.take (capacity - queue.length)) }
    | some filters, none =>
      if messages.any fun p => filters.any (·.wants p) then { s with filters := none } else s
    | none, _ => s

/-- What the client is answered. -/
def answer? (s : Seat) : Deal → Option Reply
  | .setFilters _ | .remove => some (.known s.filters.isSome)
  | .receive limit =>
    some (.read (s.queue.map fun q =>
      let count := limit.getD (q.length + 1)
      (q.take count,
        if count ≤ q.length then .more else if s.filters.isSome then .empty else .closed)))
  | .dropMailbox => some (.known s.queue.isSome)
  | .messages _ => none

/-- What the client is answered along the way. -/
def answers (capacity : Nat) : Seat → List Deal → List Reply
  | _, [] => []
  | s, d :: deals => (s.answer? d).toList ++ answers capacity (s.after capacity d) deals

end Seat

/-- What an action is to the client of a number, if it concerns it. -/
def concern? (id : Nat) : Action → Option Deal
  | .register => none
  | .setFilters other filters => if other = id then some (.setFilters filters) else none
  | .remove other => if other = id then some .remove else none
  | .pushAll messages => some (.messages messages)
  | .fanOut b => some (.messages b.messages)
  | .receive other limit => if other = id then some (.receive limit) else none
  | .dropMailbox other => if other = id then some .dropMailbox else none

/-- What the registry answers to the client of a number. -/
def answer? (id : Nat) (r : Registry) : Action → Option Reply
  | .setFilters other filters =>
    if other = id then some (.known (r.setFilters id filters).1) else none
  | .remove other => if other = id then some (.known (r.remove id).1) else none
  | .receive other limit => if other = id then some (.read (r.receive id limit).1) else none
  | .dropMailbox other => if other = id then some (.known (r.dropMailbox id).1) else none
  | .register | .pushAll _ | .fanOut _ => none

/-- What the registry answers to the client of a number along a run. -/
def answers (id : Nat) : Registry → List Action → List Reply
  | _, [] => []
  | r, a :: actions => (r.answer? id a).toList ++ answers id (r.act a) actions

/-- The place of the client of a number: its filters and its queue, and nothing of the others. -/
def seat (r : Registry) (id : Nat) : Seat :=
  ⟨(r.connection? id).map (·.filters), (r.mailbox? id).map (·.queue)⟩

variable {r : Registry} {id : Nat}

/-! ## Connections by number -/

theorem connection?_setFilters (r : Registry) (id other : Nat) (filters : List Filter) :
    (r.setFilters other filters).2.connection? id =
      (r.connection? id).map fun c => if id = other then { c with filters } else c := by
  have hid (c : Connection) : (if c.id = other then { c with filters } else c).id = c.id := by
    split <;> rfl
  simp only [setFilters, connection?, List.find?_map, Function.comp_def, hid]
  refine Option.map_congr fun c hc => ?_
  rw [id_of_connection? hc]

theorem connection?_remove (r : Registry) (id other : Nat) :
    (r.remove other).2.connection? id = if id = other then none else r.connection? id := by
  simp only [remove, connection?, List.find?_filter]
  split
  · rename_i hid
    simp [hid]
  · rename_i hid
    congr 1
    funext c
    by_cases hc : c.id = id
    · simp [hc, hid]
    · simp [hc]

theorem connection?_add (hid : id < r.nextId) (nextId : Nat)
    (mailboxes : List Mailbox) :
    connection? { r with nextId, connections := r.connections ++ [⟨r.nextId, []⟩], mailboxes } id =
      r.connection? id := by
  rw [connection?, List.find?_append]
  change (r.connection? id).or _ = _
  simp [Nat.ne_of_gt hid]

/-- Where numbers are not shared, a connection is found by its number. -/
theorem find?_eq_some_of_nodup {cs : List Connection} (h : (cs.map (·.id)).Nodup) {id : Nat}
    {c : Connection} : cs.find? (·.id == id) = some c ↔ c ∈ cs ∧ c.id = id := by
  constructor
  · intro hc
    exact ⟨List.mem_of_find?_eq_some hc, by simpa using List.find?_some hc⟩
  · rintro ⟨hc, rfl⟩
    cases hfind : cs.find? (·.id == c.id) with
    | none => simpa using List.find?_eq_none.1 hfind c hc
    | some other =>
      have hid : other.id = c.id := by simpa using List.find?_some hfind
      rw [List.inj_on_of_nodup_map h (List.mem_of_find?_eq_some hfind) hc hid]

theorem find?_filter_of_nodup {cs : List Connection} (h : (cs.map (·.id)).Nodup)
    (keep : Connection → Bool) (id : Nat) :
    (cs.filter keep).find? (·.id == id) = (cs.find? (·.id == id)).filter keep := by
  ext c
  rw [find?_eq_some_of_nodup (h.sublist (List.filter_sublist.map _)), Option.filter_eq_some_iff,
    find?_eq_some_of_nodup h, List.mem_filter]
  exact and_right_comm

/-- The order of connections does not matter for finding one. -/
theorem find?_perm_of_nodup {cs ds : List Connection} (hperm : cs.Perm ds)
    (h : (ds.map (·.id)).Nodup) (id : Nat) : cs.find? (·.id == id) = ds.find? (·.id == id) := by
  ext c
  rw [find?_eq_some_of_nodup h, find?_eq_some_of_nodup ((hperm.map _).nodup_iff.2 h),
    hperm.mem_iff]

theorem connection?_pushAll (hr : r.WellFormed) (messages : List Push) (id : Nat) :
    (r.pushAll messages).2.connection? id =
      (r.connection? id).filter fun c => !r.isDead messages c := by
  rw [connection?, connections_pushAll hr.nodup, find?_filter_of_nodup hr.nodup]
  rfl

/-! ## What an action does to a seat -/

theorem seat_pushAll (hr : r.WellFormed) (messages : List Push) (id : Nat) :
    (r.pushAll messages).2.seat id = (r.seat id).after r.capacity (.messages messages) := by
  rw [seat, connection?_pushAll hr, mailbox?_pushAll hr.nodup, seat, shareOf]
  cases hc : r.connection? id with
  | none => cases r.mailbox? id <;> simp [Seat.after]
  | some c =>
    have hid := id_of_connection? hc
    cases hm : r.mailbox? id with
    | none =>
      have hdead : r.isDead messages c = messages.any c.wants := by simp [isDead, hid, hm]
      -- without a reader, the connection is found dead by a message that it wants
      change Seat.mk (((some c).filter fun c => !r.isDead messages c).map (·.filters)) none =
        if messages.any c.wants then _ else _
      by_cases hwants : messages.any c.wants
      · simp [Option.filter, hdead, hwants]
      · simp [Option.filter, hdead, hwants]
    | some m =>
      have hdead : r.isDead messages c = false := by simp [isDead, hid, hm]
      change Seat.mk (((some c).filter fun c => !r.isDead messages c).map (·.filters))
        (some (m.queue ++ c.share r.capacity messages m)) = _
      rw [Option.filter, hdead]
      rfl

theorem seat_act (hr : r.WellFormed) (hid : id < r.nextId) (a : Action) :
    (r.act a).seat id =
      match concern? id a with
      | none => r.seat id
      | some d => (r.seat id).after r.capacity d := by
  cases a with
  | register =>
    rw [act]
    obtain h | h := register_eq r
    · rw [h]
      rfl
    · -- the new connection has a number of its own
      rw [h, seat, connection?_add hid, mailbox?_add hr, if_neg (Nat.ne_of_lt hid)]
      rfl
  | setFilters other filters =>
    have hmailbox : (r.setFilters other filters).2.mailbox? id = r.mailbox? id := rfl
    rw [act, seat, connection?_setFilters, hmailbox, concern?]
    by_cases hother : other = id
    · simp [hother, seat, Seat.after, Function.comp_def]
    · simp [hother, Ne.symm hother, seat]
  | remove other =>
    have hmailbox : (r.remove other).2.mailbox? id = r.mailbox? id := rfl
    rw [act, seat, connection?_remove, hmailbox, concern?]
    by_cases hother : other = id
    · simp [hother, seat, Seat.after]
    · simp [hother, Ne.symm hother, seat]
  | pushAll messages => exact seat_pushAll hr messages id
  | fanOut b => exact seat_pushAll hr b.messages id
  | receive other limit =>
    have hconnection : (r.receive other limit).2.connection? id = r.connection? id := by
      obtain ⟨_, h⟩ := receive_eq r other limit
      rw [h]
      rfl
    rw [act, seat, hconnection, mailbox?_receive, concern?]
    by_cases hother : other = id
    · simp [hother, seat, Seat.after, Function.comp_def]
    · simp [hother, Ne.symm hother, seat]
  | dropMailbox other =>
    have hconnection : (r.dropMailbox other).2.connection? id = r.connection? id := rfl
    rw [act, seat, hconnection, mailbox?_dropMailbox, concern?]
    by_cases hother : other = id
    · simp [hother, seat, Seat.after]
    · simp [hother, Ne.symm hother, seat]

/-- An answer tells no more than the seat. -/
theorem answer?_eq (r : Registry) (id : Nat) (a : Action) :
    r.answer? id a = (concern? id a).bind (r.seat id).answer? := by
  cases a with
  | setFilters other filters =>
    by_cases hother : other = id
    · simp [answer?, concern?, hother, setFilters, seat, Seat.answer?]
    · simp [answer?, concern?, hother]
  | remove other =>
    by_cases hother : other = id
    · simp [answer?, concern?, hother, remove, seat, Seat.answer?]
    · simp [answer?, concern?, hother]
  | receive other limit =>
    by_cases hother : other = id
    · cases hm : r.mailbox? id <;>
        simp [answer?, concern?, hother, receive, seat, Seat.answer?, hm]
    · simp [answer?, concern?, hother]
  | dropMailbox other =>
    by_cases hother : other = id
    · simp [answer?, concern?, hother, dropMailbox, seat, Seat.answer?]
    · simp [answer?, concern?, hother]
  | register | pushAll | fanOut => rfl

/-! ## What a client is answered along a run -/

theorem answers_eq (hr : r.WellFormed) (hid : id < r.nextId) (actions : List Action) :
    answers id r actions =
      (r.seat id).answers r.capacity (actions.filterMap (concern? id)) := by
  induction actions generalizing r with
  | nil => rfl
  | cons a actions ih =>
    have hseat := seat_act hr hid a
    rw [answers, answer?_eq, ih (hr.act a) (Nat.lt_of_lt_of_le hid (nextId_le_act hr a)),
      capacity_act hr, hseat]
    -- what is no concern of the client leaves its seat, and is not answered
    cases h : concern? id a with
    | none => simp [h]
    | some d => simp [h, Seat.answers]

/-- A client that is taken on has no filters and nothing to read. -/
theorem seat_register (hr : r.WellFormed) (h : r.register.1 = .ok id) :
    id < (r.act .register).nextId ∧ (r.act .register).seat id = ⟨some [], some []⟩ := by
  rw [act]
  unfold register at h ⊢
  split at h
  · cases h
  · rename_i hroom
    cases h
    rw [if_neg hroom]
    refine ⟨Nat.lt_succ_self _, ?_⟩
    have hnew : r.connections.find? (·.id == r.nextId) = none := by
      refine List.find?_eq_none.2 fun c hc hid => ?_
      have hlt := hr.connection_lt c hc
      rw [beq_iff_eq.1 hid] at hlt
      exact Nat.lt_irrefl _ hlt
    rw [seat, mailbox?_add hr, if_pos rfl, connection?, List.find?_append, hnew]
    simp

/-! ## The order of the connections -/

/-- Visits do the same in any order. -/
theorem visited_perm {messages : List Push} {cs ds : List Connection} (hperm : cs.Perm ds)
    (h : (ds.map (·.id)).Nodup) {before after after' : Delivery × Registry}
    (hcs : Visited messages cs before after) (hds : Visited messages ds before after') :
    after.1 = after'.1 ∧ after.2.connections = after'.2.connections ∧
      ∀ id, after.2.mailbox? id = after'.2.mailbox? id := by
  refine ⟨?_, ?_, fun id => ?_⟩
  · rw [hcs.delivery, hds.delivery, Delivery.total_perm (hperm.map _)]
  · rw [hcs.connections, hds.connections]
    exact List.filter_congr fun c _ => by rw [hperm.any_eq]
  · rw [hcs.mailbox, hds.mailbox, find?_perm_of_nodup hperm h]

/-- **Subscribers do not notice each other.**  Two registries whose mailboxes hold equally much may
have been used differently, before a client was taken on and after; where the client did the same in
both, and the same messages were handed out, it was answered the same in both.  And messages may be
handed out to the connections in any order. -/
theorem answers_eq_of_concerns (p q capacity : Nat) (before before' after after' : List Action)
    {id id' : Nat} (hid : ((new p capacity).run before).register.1 = .ok id)
    (hid' : ((new q capacity).run before').register.1 = .ok id')
    (h : after.filterMap (concern? id) = after'.filterMap (concern? id')) :
    answers id (((new p capacity).run before).act .register) after =
        answers id' (((new q capacity).run before').act .register) after' ∧
      ∀ (actions : List Action) (messages : List Push) (cs : List Connection),
        cs.Perm ((new p capacity).run actions).connections →
          let r := (new p capacity).run actions
          let visited := cs.foldl (visit messages) (.none, r)
          visited.1 = (r.pushAll messages).1 ∧
            visited.2.connections = (r.pushAll messages).2.connections ∧
            ∀ id, visited.2.mailbox? id = (r.pushAll messages).2.mailbox? id := by
  have hstart (n : Nat) (actions : List Action) : ((new n capacity).run actions).WellFormed :=
    (WellFormed.new n capacity).run actions
  have hcapacity (n : Nat) (actions : List Action) :
      (((new n capacity).run actions).act .register).capacity = max capacity 1 := by
    rw [capacity_act (hstart n actions), capacity_run (.new n capacity)]
    rfl
  constructor
  · obtain ⟨hlt, hseat⟩ := seat_register (hstart p before) hid
    obtain ⟨hlt', hseat'⟩ := seat_register (hstart q before') hid'
    rw [answers_eq ((hstart p before).act _) hlt, answers_eq ((hstart q before').act _) hlt', hseat,
      hseat', hcapacity, hcapacity, h]
  · intro actions messages cs hperm
    have hnodup := (hstart p actions).nodup
    exact visited_perm hperm hnodup
      (visited_foldl messages cs ((hperm.map _).nodup_iff.2 hnodup) _ _)
      (visited_pushAll hnodup messages)

/-- A client by itself: its mailbox overflows, and it reads on after its connection is gone. -/
def byItself : List Action :=
  [.setFilters 1 [.changes none], .pushAll [note 1, note 2, note 3], .receive 1 (some 1),
    .pushAll [note 4], .remove 1, .pushAll [note 5], .receive 1 none]

/-- The same client among others, of which one never reads, one is gone and one comes later. -/
def amongOthers : List Action :=
  [.setFilters 3 [.changes none], .setFilters 2 [.changes none], .dropMailbox 2,
    .pushAll [note 1, note 2, note 3], .register, .receive 3 (some 1),
    .setFilters 4 [.entries none none], .pushAll [note 4], .remove 1, .remove 3, .pushAll [note 5],
    .receive 4 none, .receive 3 none]

theorem answers_eq_amongOthers :
    byItself.filterMap (concern? 1) = amongOthers.filterMap (concern? 3) ∧
      answers 1 ((new 1 2).act .register) byItself =
        [.known true, .read (some ([note 1], .more)), .known true,
          .read (some ([note 2, note 4], .closed))] ∧
      answers 3 (((new 8 2).run [.register, .register, .setFilters 1 [.changes none]]).act
        .register) amongOthers = answers 1 ((new 1 2).act .register) byItself ∧
      (((new 8 2).run twoReaders).connections.reverse.foldl (visit [note 4, note 5])
        (.none, (new 8 2).run twoReaders)).1 = ⟨1, 1, 1⟩ := by
  have hid : ((new 1 2).run []).register.1 = .ok 1 := by rfl
  have hid' : ((new 8 2).run [.register, .register, .setFilters 1 [.changes none]]).register.1 =
    .ok 3 := by rfl
  have hconcerns : byItself.filterMap (concern? 1) = amongOthers.filterMap (concern? 3) := by rfl
  obtain ⟨hanswers, -⟩ := answers_eq_of_concerns 1 8 2 _ _ _ _ hid hid' hconcerns
  obtain ⟨-, horder⟩ := answers_eq_of_concerns 8 1 2 _ _ _ _ hid' hid hconcerns.symm
  have hstats := (horder twoReaders [note 4, note 5] _ (List.reverse_perm _)).1
  exact ⟨hconcerns, by rfl, hanswers.symm, hstats.trans (by rfl)⟩

end Registry

end LedgerIndex
