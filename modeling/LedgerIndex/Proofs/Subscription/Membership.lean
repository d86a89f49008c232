import LedgerIndex.Proofs.Subscription.Isolation

/-!
# Who is connected

Connections come by registering and go in two ways: they are removed, or they are found dead when a
message that they want is handed out after their reader has gone (`Ends`).  A connection that is
taken on is there until the first of these happens, and does not come back (`seat_since`).  Numbers
are given out one after the other, so none of them comes back either (`granted_eq_range'`).

Together with the limits on connections and queues, this is what holds of a registry after any run
(`kept_run`).
-/

namespace LedgerIndex.Registry

/-! ## Numbers that were given out -/

/-- The number that is given out in an action, if it is a registration that succeeds. -/
def granted? (r : Registry) : Action → Option Nat
  | .register => r.register.1.toOption
  | _ => none

/-- The numbers that are given out along a run, in order. -/
def granted : Registry → List Action → List Nat
  | _, [] => []
  | r, a :: actions => (r.granted? a).toList ++ granted (r.act a) actions

variable {r : Registry} {id : Nat}

theorem register_of_lt (h : r.size < r.maxClients) :
    r.register =
      (.ok r.nextId,
        { r with
          nextId := r.nextId + 1
          connections := r.connections ++ [⟨r.nextId, []⟩]
          mailboxes := r.mailboxes ++ [⟨r.nextId, []⟩] }) := by
  rw [register, if_neg (Nat.not_le.2 h)]

theorem register_of_le (h : r.maxClients ≤ r.size) :
    r.register =
      (.error (.subscription ("connection limit reached (" ++ toString r.maxClients ++ ")")),
        r) := by
  rw [register, if_pos h]

theorem granted_concat (r : Registry) (actions : List Action) (a : Action) :
    r.granted (actions ++ [a]) = r.granted actions ++ ((r.run actions).granted? a).toList := by
  induction actions generalizing r with
  | nil => simp [granted, run]
  | cons b actions ih =>
    rw [List.cons_append, granted, granted, ih, List.append_assoc]
    rfl

/-- A number that was given out belongs to a registration. -/
theorem mem_granted {actions : List Action} :
    id ∈ r.granted actions ↔ ∃ before since, actions = before ++ .register :: since ∧
      (r.run before).register.1 = .ok id := by
  induction actions generalizing r with
  | nil => simp [granted]
  | cons a actions ih =>
    rw [granted, List.mem_append, ih]
    constructor
    · rintro (hid | ⟨before, since, rfl, hid⟩)
      · cases a with
        | register =>
          refine ⟨[], actions, rfl, ?_⟩
          rw [granted?, Option.mem_toList] at hid
          change r.register.1 = _
          cases h : r.register.1 with
          | error e => rw [h] at hid; cases hid
          | ok n => rw [h] at hid; cases hid; rfl
        | setFilters | remove | pushAll | fanOut | receive | dropMailbox => cases hid
      · exact ⟨a :: before, since, rfl, hid⟩
    · rintro ⟨before, since, hactions, hid⟩
      cases before with
      | nil =>
        obtain ⟨rfl, rfl⟩ := List.cons.inj hactions
        change r.register.1 = _ at hid
        exact .inl (by simp [granted?, hid, Except.toOption])
      | cons b before =>
        obtain ⟨rfl, rfl⟩ := List.cons.inj hactions
        exact .inr ⟨before, since, rfl, hid⟩

/-- Numbers are given out in order. -/
theorem granted?_eq (r : Registry) (a : Action) :
    (r.granted? a).toList = List.range' r.nextId (r.granted? a).toList.length := by
  cases a with
  | register =>
    rw [granted?]
    obtain h | h := Nat.lt_or_ge r.size r.maxClients
    · rw [register_of_lt h]
      rfl
    · rw [register_of_le h]
      rfl
  | setFilters | remove | pushAll | fanOut | receive | dropMailbox => rfl

theorem nextId_act (hr : r.WellFormed) (a : Action) :
    (r.act a).nextId = r.nextId + (r.granted? a).toList.length := by
  cases a with
  | register =>
    rw [act, granted?]
    obtain h | h := Nat.lt_or_ge r.size r.maxClients
    · rw [register_of_lt h]
      rfl
    · rw [register_of_le h]
      rfl
  | pushAll messages => exact (visited_pushAll hr.nodup messages).nextId
  | fanOut b => exact (visited_pushAll hr.nodup b.messages).nextId
  | receive id limit =>
    obtain ⟨_, h⟩ := receive_eq r id limit
    rw [act, h]
    rfl
  | setFilters | remove | dropMailbox => rfl

/-- The numbers that were given out are the first ones, each of them once. -/
theorem granted_eq_range' (maxClients capacity : Nat) (actions : List Action) :
    (new maxClients capacity).granted actions =
        List.range' 1 ((new maxClients capacity).granted actions).length ∧
      ((new maxClients capacity).run actions).nextId =
        ((new maxClients capacity).granted actions).length + 1 := by
  induction actions using List.reverseRecOn with
  | nil => exact ⟨rfl, rfl⟩
  | append_singleton actions a ih =>
    obtain ⟨hgranted, hnext⟩ := ih
    have hrun := (WellFormed.new maxClients capacity).run actions
    rw [granted_concat, run_concat, nextId_act hrun, List.length_append]
    constructor
    · rw [← List.range'_append_1, ← hgranted, Nat.add_comm 1, ← hnext, ← granted?_eq]
    · omega

/-! ## The limit -/

theorem maxClients_foldl_visit (messages : List Push) (cs : List Connection)
    (s : Delivery × Registry) : (cs.foldl (visit messages) s).2.maxClients = s.2.maxClients := by
  induction cs generalizing s with
  | nil => rfl
  | cons c cs ih =>
    rw [List.foldl_cons, ih, visit]
    cases s.2.mailbox? c.id with
    | some m => rfl
    | none =>
      dsimp only
      split <;> rfl

theorem maxClients_act (r : Registry) (a : Action) : (r.act a).maxClients = r.maxClients := by
  cases a with
  | register =>
    rw [act]
    obtain h | h := register_eq r <;> rw [h]
  | pushAll messages => exact maxClients_foldl_visit ..
  | fanOut b => exact maxClients_foldl_visit ..
  | receive id limit =>
    obtain ⟨_, h⟩ := receive_eq r id limit
    rw [act, h]
  | setFilters | remove | dropMailbox => rfl

theorem maxClients_run (r : Registry) (actions : List Action) :
    (r.run actions).maxClients = r.maxClients := by
  induction actions generalizing r with
  | nil => rfl
  | cons a actions ih => exact (ih (r.act a)).trans (maxClients_act r a)

/-- Only registering adds a connection, and it does so only below the limit. -/
theorem size_act_le (hr : r.WellFormed) (h : r.size ≤ r.maxClients) (a : Action) :
    (r.act a).size ≤ (r.act a).maxClients := by
  rw [maxClients_act]
  obtain ⟨-, hsub⟩ | ⟨hnext, hids⟩ := ids_act hr a
  · have hlength := hsub.length_le
    rw [List.length_map, List.length_map] at hlength
    exact Nat.le_trans hlength h
  · have hlength := congrArg List.length hids
    rw [List.length_map, List.length_append, List.length_map, List.length_singleton] at hlength
    have hone : (r.granted? a).toList.length = 1 := by
      have := nextId_act hr a
      omega
    have hroom : r.size < r.maxClients := by
      cases a with
      | register =>
        by_contra hfull
        rw [granted?, register_of_le (Nat.not_lt.1 hfull)] at hone
        cases hone
      | setFilters | remove | pushAll | fanOut | receive | dropMailbox => cases hone
    rw [size, hlength]
    exact hroom

theorem size_run_le (hr : r.WellFormed) (h : r.size ≤ r.maxClients) (actions : List Action) :
    (r.run actions).size ≤ r.maxClients := by
  induction actions generalizing r with
  | nil => exact h
  | cons a actions ih =>
    have hrun := ih (hr.act a) (size_act_le hr h a)
    rwa [maxClients_act] at hrun

/-! ## How long a connection is there -/

/-- The messages that are handed out in an action. -/
def Action.messages : Action → List Push
  | .pushAll messages => messages
  | .fanOut b => b.messages
  | _ => []

/-- The filters that an action sets for a connection. -/
def Action.filtersFor? (id : Nat) : Action → Option (List Filter)
  | .setFilters other filters => if other = id then some filters else none
  | _ => none

/-- The filters of a connection, given what was done since it was taken on. -/
def filtersSince (id : Nat) (since : List Action) : List Filter :=
  (since.filterMap (·.filtersFor? id)).getLast?.getD []

/-- An action takes a connection away, given what was done since it was taken on: it removes the
connection, or it hands out a message that the connection wants after its reader has gone. -/
def Ends (id : Nat) (since : List Action) (a : Action) : Prop :=
  a = .remove id ∨
    .dropMailbox id ∈ since ∧ ∃ p ∈ a.messages, ∃ f ∈ filtersSince id since, f.wants p

/-- Nothing of what was done since a connection was taken on has taken it away. -/
def Lasts (id : Nat) (since : List Action) : Prop :=
  ∀ earlier a later, since = earlier ++ a :: later → ¬ Ends id earlier a

theorem lasts_nil (id : Nat) : Lasts id [] := by
  intro earlier a later h
  simp at h

theorem lasts_concat {since : List Action} {a : Action} :
    Lasts id (since ++ [a]) ↔ Lasts id since ∧ ¬ Ends id since a := by
  constructor
  · intro h
    refine ⟨fun earlier b later hsince => ?_, h since a [] rfl⟩
    exact h earlier b (later ++ [a]) (by rw [hsince, List.append_assoc, List.cons_append])
  · rintro ⟨hlasts, hends⟩ earlier b later h
    cases later using List.reverseRecOn with
    | nil =>
      obtain ⟨rfl, hab⟩ := List.append_inj' h rfl
      obtain rfl := List.singleton_inj.1 hab
      exact hends
    | append_singleton later c =>
      rw [← List.cons_append, ← List.append_assoc] at h
      exact hlasts earlier b later (List.append_inj' h rfl).1

theorem filtersSince_concat (id : Nat) (since : List Action) (a : Action) :
    filtersSince id (since ++ [a]) = (a.filtersFor? id).getD (filtersSince id since) := by
  rw [filtersSince, List.filterMap_append]
  cases h : a.filtersFor? id with
  | none => simp [h, filtersSince]
  | some filters => simp [h]

/-- The place of a client, given what was done since it was taken on. -/
structure SeatSince (id : Nat) (since : List Action) (s : Seat) : Prop where
  queue : s.queue = none ↔ .dropMailbox id ∈ since
  lasting : Lasts id since → s.filters = some (filtersSince id since)
  gone : ¬ Lasts id since → s.filters = none

/-- An action that does not take the connection away leaves it with the filters that it has or
gets. -/
theorem SeatSince.concat {since : List Action} {s s' : Seat} {a : Action} (h : SeatSince id since s)
    (hqueue : s'.queue = none ↔ s.queue = none ∨ a = .dropMailbox id)
    (hends : Ends id since a → s'.filters = none)
    (hstays : ¬ Ends id since a → s'.filters = s.filters.map fun filters =>
      (a.filtersFor? id).getD filters) : SeatSince id (since ++ [a]) s' where
  queue := by
    rw [hqueue, h.queue, List.mem_append, List.mem_singleton, @eq_comm _ a]
  lasting hlasts := by
    obtain ⟨hlasts, hnot⟩ := lasts_concat.1 hlasts
    rw [hstays hnot, h.lasting hlasts, filtersSince_concat]
    rfl
  gone hnot := by
    by_cases ha : Ends id since a
    · exact hends ha
    · rw [hstays ha, h.gone fun hlasts => hnot (lasts_concat.2 ⟨hlasts, ha⟩)]
      rfl

/-- A connection that is there has the filters that were last set for it. -/
theorem SeatSince.filters_eq {since : List Action} {s : Seat} (h : SeatSince id since s)
    {filters : List Filter} (hs : s.filters = some filters) : filters = filtersSince id since := by
  by_cases hlasts : Lasts id since
  · rw [h.lasting hlasts, Option.some.injEq] at hs
    exact hs.symm
  · rw [h.gone hlasts] at hs
    cases hs

/-- Handing out messages takes a connection away that has no reader and wants one of them. -/
theorem SeatSince.messages {since : List Action} {s : Seat} {a : Action} (h : SeatSince id since s)
    (capacity : Nat) (hremove : a ≠ .remove id) (hdrop : a ≠ .dropMailbox id)
    (hfilters : a.filtersFor? id = none) :
    SeatSince id (since ++ [a]) (s.after capacity (.messages a.messages)) := by
  have hends : Ends id since a ↔ s.queue = none ∧
      (a.messages.any fun p => (filtersSince id since).any (·.wants p)) = true := by
    rw [h.queue]
    simp [Ends, hremove]
  have hmap : (s.filters.map fun filters => (a.filtersFor? id).getD filters) = s.filters := by
    simp [hfilters]
  rw [Seat.after]
  cases hs : s.filters with
  | none => exact h.concat (by simp [hdrop]) (fun _ => hs) fun _ => hmap.symm
  | some filters =>
    obtain rfl := h.filters_eq hs
    cases hq : s.queue with
    | some queue =>
      have hnot : ¬ Ends id since a := fun ha => by simp [hends, hq] at ha
      exact h.concat (by simp [hq, hdrop]) (fun ha => absurd ha hnot) fun _ => (hmap.trans hs).symm
    | none =>
      dsimp only
      split
      · rename_i hwants
        exact h.concat (by simp [hq]) (fun _ => rfl) fun ha => absurd (hends.2 ⟨hq, hwants⟩) ha
      · rename_i hwants
        exact h.concat (by simp [hq]) (fun ha => absurd (hends.1 ha).2 hwants) fun _ => hmap.symm

/-- What is done to a connection once it was taken on. -/
theorem SeatSince.act (hr : r.WellFormed) (hid : id < r.nextId) {since : List Action}
    (h : SeatSince id since (r.seat id)) (a : Action) :
    SeatSince id (since ++ [a]) ((r.act a).seat id) := by
  -- an action that hands out nothing can end a connection only by removing it
  have hquiet {a : Action} (ha : a.messages = []) (hremove : a ≠ .remove id) :
      ¬ Ends id since a := by simp [Ends, ha, hremove]
  rw [seat_act hr hid]
  cases a with
  | register =>
    exact h.concat (by simp [concern?]) (fun ha => absurd ha (hquiet rfl (by simp)))
      fun _ => by simp [concern?, Action.filtersFor?]
  | setFilters other filters =>
    refine h.concat ?_ (fun ha => absurd ha (hquiet rfl (by simp))) fun _ => ?_
    · by_cases hother : other = id <;> simp [concern?, hother, Seat.after]
    · by_cases hother : other = id <;> simp [concern?, hother, Seat.after, Action.filtersFor?]
  | remove other =>
    by_cases hother : other = id
    · subst hother
      exact h.concat (by simp [concern?, Seat.after]) (fun _ => by simp [concern?, Seat.after])
        fun ha => absurd (.inl rfl) ha
    · exact h.concat (by simp [concern?, hother])
        (fun ha => absurd ha (hquiet rfl (by simp [hother])))
        fun _ => by simp [concern?, hother, Action.filtersFor?]
  | pushAll messages => exact h.messages r.capacity (by simp) (by simp) rfl
  | fanOut b => exact h.messages r.capacity (by simp) (by simp) rfl
  | receive other limit =>
    refine h.concat ?_ (fun ha => absurd ha (hquiet rfl (by simp))) fun _ => ?_
    · by_cases hother : other = id <;> simp [concern?, hother, Seat.after]
    · by_cases hother : other = id <;> simp [concern?, hother, Seat.after, Action.filtersFor?]
  | dropMailbox other =>
    refine h.concat ?_ (fun ha => absurd ha (hquiet rfl (by simp))) fun _ => ?_
    · by_cases hother : other = id <;> simp [concern?, hother, Seat.after]
    · by_cases hother : other = id <;> simp [concern?, hother, Seat.after, Action.filtersFor?]

/-- A connection that is taken on is there until an action takes it away. -/
theorem seatSince_run (hr : r.WellFormed) (h : r.register.1 = .ok id) (since : List Action) :
    SeatSince id since (((r.act .register).run since).seat id) ∧
      id < ((r.act .register).run since).nextId := by
  obtain ⟨hlt, hseat⟩ := seat_register hr h
  induction since using List.reverseRecOn with
  | nil =>
    refine ⟨?_, hlt⟩
    change SeatSince id [] ((r.act .register).seat id)
    rw [hseat]
    exact ⟨by simp, fun _ => rfl, fun hnot => absurd (lasts_nil id) hnot⟩
  | append_singleton since a ih =>
    have hrun := (hr.act .register).run since
    rw [run_concat]
    exact ⟨ih.1.act hrun ih.2 a, Nat.lt_of_lt_of_le ih.2 (nextId_le_act hrun a)⟩

/-- The number of a connection was given out. -/
theorem mem_granted_of_mem {maxClients capacity : Nat} {actions : List Action} {c : Connection}
    (hc : c ∈ ((new maxClients capacity).run actions).connections) :
    c.id ∈ (new maxClients capacity).granted actions := by
  suffices h : ((new maxClients capacity).run actions).connections.map (·.id) ⊆
      (new maxClients capacity).granted actions from h (List.mem_map_of_mem hc)
  clear hc
  induction actions using List.reverseRecOn with
  | nil => exact List.nil_subset _
  | append_singleton actions a ih =>
    have hrun := (WellFormed.new maxClients capacity).run actions
    have hstep := nextId_act hrun a
    rw [run_concat, granted_concat]
    obtain ⟨-, hsub⟩ | ⟨hnext, hids⟩ := ids_act hrun a
    · exact fun id hid => List.mem_append_left _ (ih (hsub.subset hid))
    · rw [hids]
      refine List.append_subset.2 ⟨fun id hid => List.mem_append_left _ (ih hid), ?_⟩
      have hone : (((new maxClients capacity).run actions).granted? a).toList.length = 1 := by omega
      rw [granted?_eq, hone]
      exact fun id hid => List.mem_append_right _ hid

/-- A connection is there if and only if it was taken on and nothing has taken it away since. -/
theorem isSome_connection?_iff (maxClients capacity : Nat) (actions : List Action) (id : Nat) :
    (((new maxClients capacity).run actions).connection? id).isSome ↔
      ∃ before since, actions = before ++ .register :: since ∧
        ((new maxClients capacity).run before).register.1 = .ok id ∧ Lasts id since := by
  have hsplit {before since : List Action} (h : actions = before ++ .register :: since) :
      (new maxClients capacity).run actions =
        (((new maxClients capacity).run before).act .register).run since := by
    rw [h, run, List.foldl_append]
    rfl
  constructor
  · intro hsome
    obtain ⟨c, hc⟩ := Option.isSome_iff_exists.1 hsome
    have hid := id_of_connection? hc
    have hgranted := mem_granted_of_mem (List.mem_of_find?_eq_some hc)
    rw [hid] at hgranted
    obtain ⟨before, since, hactions, hregister⟩ := mem_granted.1 hgranted
    refine ⟨before, since, hactions, hregister, ?_⟩
    obtain ⟨hseat, -⟩ :=
      seatSince_run ((WellFormed.new maxClients capacity).run before) hregister since
    by_contra hnot
    have hnone := hseat.gone hnot
    rw [← hsplit hactions, seat, hc] at hnone
    cases hnone
  · rintro ⟨before, since, hactions, hregister, hlasts⟩
    obtain ⟨hseat, -⟩ :=
      seatSince_run ((WellFormed.new maxClients capacity).run before) hregister since
    have hfilters := congrArg Option.isSome (hseat.lasting hlasts)
    rw [← hsplit hactions, seat, Option.isSome_map] at hfilters
    exact hfilters

/-! ## After any run -/

theorem setFilters_of_none (h : r.connection? id = none) (filters : List Filter) :
    r.setFilters id filters = (false, r) := by
  have hne (c : Connection) (hc : c ∈ r.connections) : c.id ≠ id := by
    simpa using List.find?_eq_none.1 h c hc
  have hsame : (r.connections.map fun c => if c.id = id then { c with filters } else c) =
      r.connections := by
    refine (List.map_congr_left fun c hc => ?_).trans (List.map_id _)
    rw [if_neg (hne c hc)]
    rfl
  rw [setFilters, h, hsame]
  rfl

theorem remove_of_none (h : r.connection? id = none) : r.remove id = (false, r) := by
  have hsame : r.connections.filter (·.id != id) = r.connections :=
    List.filter_eq_self.2 fun c hc => by simpa using List.find?_eq_none.1 h c hc
  rw [remove, h, hsame]
  rfl

/-- What holds of a registry after some actions. -/
structure Kept (maxClients capacity : Nat) (actions : List Action) (r : Registry) : Prop where
  size_le : r.size ≤ maxClients
  nodup : (r.connections.map (·.id)).Nodup
  /-- registering gives out the next number below the limit, and does nothing at the limit -/
  register :
    if r.size < maxClients then
      r.register.1 = .ok (((new maxClients capacity).granted actions).length + 1)
    else
      r.register =
        (.error (.subscription ("connection limit reached (" ++ toString maxClients ++ ")")), r)
  /-- the numbers that were given out are the first ones in order, so none came twice -/
  granted : (new maxClients capacity).granted actions =
    List.range' 1 ((new maxClients capacity).granted actions).length
  /-- a connection is there from its registration until an action takes it away -/
  present (id : Nat) : (r.connection? id).isSome ↔
    ∃ before since, actions = before ++ .register :: since ∧
      ((new maxClients capacity).run before).register.1 = .ok id ∧ Lasts id since
  /-- where there is no connection, nothing can be set or removed -/
  absent (id : Nat) : r.connection? id = none →
    (∀ filters, r.setFilters id filters = (false, r)) ∧ r.remove id = (false, r)
  queue_le (id : Nat) (m : Mailbox) : r.mailbox? id = some m → m.queue.length ≤ max capacity 1

/-- **Who is connected.**  After any run, there are no more connections than allowed, and they are
those that registered and were neither removed nor found dead since; no number was given out twice,
and no queue is longer than allowed. -/
theorem kept_run (maxClients capacity : Nat) (actions : List Action) :
    Kept maxClients capacity actions ((new maxClients capacity).run actions) := by
  have hnew := WellFormed.new maxClients capacity
  have hrun := hnew.run actions
  have hmax : ((new maxClients capacity).run actions).maxClients = maxClients :=
    maxClients_run _ actions
  have hcapacity : ((new maxClients capacity).run actions).capacity = max capacity 1 :=
    capacity_run hnew actions
  obtain ⟨hgranted, hnext⟩ := granted_eq_range' maxClients capacity actions
  refine ⟨size_run_le hnew (Nat.zero_le _) actions, hrun.nodup, ?_, hgranted,
    isSome_connection?_iff maxClients capacity actions,
    fun id hid => ⟨setFilters_of_none hid, remove_of_none hid⟩, fun id m hm => ?_⟩
  · split
    · rename_i hroom
      rw [register_of_lt (by rwa [hmax]), hnext]
    · rename_i hfull
      rw [register_of_le (by rw [hmax]; exact Nat.not_lt.1 hfull), hmax]
  · rw [← hcapacity]
    exact hrun.queue_le hm

/-- Two connections and a third that is refused.  The reader of the first goes away, which shows at
the first message that it wants; then there is room again, and the second is removed. -/
def comings : List Action :=
  [.register, .register, .register, .setFilters 1 [.changes none], .dropMailbox 1,
    .pushAll [.ofEvent ⟨"0x2", 1, "a", "sold", "sold_event", .null, 0⟩], .register,
    .pushAll [note 2], .setFilters 1 [], .register, .remove 2]

theorem kept_run_comings :
    Kept 2 0 comings ((new 2 0).run comings) ∧ (new 2 0).granted comings = [1, 2, 3] ∧
      ((new 2 0).run comings).connections.map (·.id) = [3] ∧
      (∀ before since, comings = before ++ .register :: since →
        ((new 2 0).run before).register.1 = .ok 1 → ¬ Lasts 1 since) ∧
      ((new 2 0).run comings).register.1 = .ok 4 := by
  have hkept := kept_run 2 0 comings
  refine ⟨hkept, by rfl, by rfl, fun before since hcomings hregister hlasts => ?_, hkept.register⟩
  have hpresent := (hkept.present 1).2 ⟨before, since, hcomings, hregister, hlasts⟩
  exact Bool.false_ne_true hpresent

end LedgerIndex.Registry
