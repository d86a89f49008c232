import LedgerIndex.Subscription.Registry
import Mathlib.Data.List.Nodup
import Mathlib.Tactic.Common

/-!
# Handing out messages once

A connection is handed the first of the messages that it wants, as many as its mailbox has room for
(`serve_eq`).  The connections do not get in each other's way: what handing out comes to for a
connection depends on its own mailbox as it was before (`mailbox?_pushAll`, `connections_pushAll`),
and the counts are the sums over all connections (`fst_pushAll`).
-/

namespace LedgerIndex

namespace Delivery

@[simp] theorem none_add (d : Delivery) : none + d = d := by
  change add none d = d
  simp [add, none]

@[simp] theorem add_none (d : Delivery) : d + none = d := rfl

theorem add_assoc (a b c : Delivery) : a + b + c = a + (b + c) := by
  change add (add a b) c = add a (add b c)
  simp [add, Nat.add_assoc]

/-- All together. -/
def total (ds : List Delivery) : Delivery := ds.foldr (· + ·) none

end Delivery

/-! ## One connection -/

namespace Connection

variable {capacity : Nat} {c : Connection}

/-- The messages that a connection is handed: of those that it wants, the first ones, as many as
there is room for. -/
def share (capacity : Nat) (messages : List Push) (c : Connection) (m : Mailbox) : List Push :=
  (messages.filter c.wants).take (capacity - m.queue.length)

/-- What comes of handing messages to a connection, whose reader has a mailbox or is gone. -/
def outcome (capacity : Nat) (messages : List Push) (c : Connection) :
    Option Mailbox → Delivery
  | some m =>
    let wanted := messages.countP c.wants
    let queued := min (capacity - m.queue.length) wanted
    ⟨queued, wanted - queued, 0⟩
  | none => ⟨0, 0, if messages.any c.wants then 1 else 0⟩

/-- A mailbox with the share of its connection. -/
def feed (capacity : Nat) (messages : List Push) (c : Connection) (m : Mailbox) : Mailbox :=
  { m with queue := m.queue ++ c.share capacity messages m }

theorem offer_of_lt {m : Mailbox} (h : m.queue.length < capacity) (p : Push) :
    m.offer capacity p = (true, { m with queue := m.queue ++ [p] }) := by
  rw [Mailbox.offer, if_pos h]

theorem offer_of_le {m : Mailbox} (h : capacity ≤ m.queue.length) (p : Push) :
    m.offer capacity p = (false, m) := by
  rw [Mailbox.offer, if_neg (Nat.not_lt.2 h)]

/-- A connection is handed its share, and the rest of what it wants is dropped. -/
theorem serve_eq (capacity : Nat) (c : Connection) (messages : List Push) (m : Mailbox) :
    c.serve capacity messages m =
      (c.outcome capacity messages (some m), c.feed capacity messages m) := by
  induction messages generalizing m with
  | nil => simp [serve, outcome, feed, share, Delivery.none]
  | cons p messages ih =>
    rw [serve]
    by_cases hp : c.wants p
    · rw [if_pos hp]
      by_cases hroom : m.queue.length < capacity
      · -- the mailbox has one place less for the messages that follow
        have hlength : capacity - m.queue.length = capacity - (m.queue.length + 1) + 1 := by omega
        rw [offer_of_lt hroom]
        simp only [ih, Prod.mk.injEq]
        constructor
        · change Delivery.add _ _ = _
          simp only [Delivery.add, outcome, List.length_append, List.length_singleton,
            List.countP_cons_of_pos hp, Delivery.mk.injEq, and_true]
          omega
        · simp [feed, share, hp, hlength]
      · have hfull : capacity - m.queue.length = 0 := by omega
        rw [offer_of_le (Nat.not_lt.1 hroom)]
        simp only [ih, Prod.mk.injEq]
        constructor
        · change Delivery.add _ _ = _
          simp only [Delivery.add, outcome, hfull, List.countP_cons_of_pos hp, Delivery.mk.injEq,
            and_true]
          omega
        · simp [feed, share, hfull]
    · rw [if_neg hp, ih]
      simp [outcome, feed, share, hp]

end Connection

namespace Registry

variable {r : Registry} {messages : List Push} {id : Nat}

/-! ## Mailboxes by number -/

theorem id_of_mailbox? {m : Mailbox} (h : r.mailbox? id = some m) : m.id = id := by
  simpa using List.find?_some h

theorem id_of_connection? {c : Connection} (h : r.connection? id = some c) : c.id = id := by
  simpa using List.find?_some h

/-- Mailboxes that keep their numbers are found as before. -/
theorem mailbox?_map {edit : Mailbox → Mailbox} (hedit : ∀ m, (edit m).id = m.id) (id : Nat) :
    ({ r with mailboxes := r.mailboxes.map edit } : Registry).mailbox? id =
      (r.mailbox? id).map edit := by
  simp only [mailbox?, List.find?_map, Function.comp_def, hedit]

theorem mailbox?_putMailbox (m : Mailbox) (id : Nat) :
    (r.putMailbox m).mailbox? id =
      if id = m.id then (r.mailbox? id).map fun _ => m else r.mailbox? id := by
  have hedit (other : Mailbox) : (if other.id = m.id then m else other).id = other.id := by
    split
    · rename_i h
      exact h.symm
    · rfl
  rw [putMailbox, mailbox?_map hedit]
  cases h : r.mailbox? id with
  | none => simp
  | some other =>
    have hid := id_of_mailbox? h
    rw [Option.map_some, hid]
    split <;> rfl

/-! ## Visits -/

/-- A connection is dead if its reader is gone, which is found out by a message that it wants. -/
def isDead (messages : List Push) (r : Registry) (c : Connection) : Bool :=
  (r.mailbox? c.id).isNone && messages.any c.wants

/-- What visits to some connections do.  Each gets its share and those found dead are removed, as
the mailboxes were before the visits. -/
structure Visited (messages : List Push) (cs : List Connection)
    (before after : Delivery × Registry) : Prop where
  delivery : after.1 = before.1 + .total (cs.map fun c =>
    c.outcome before.2.capacity messages (before.2.mailbox? c.id))
  mailbox (id : Nat) : after.2.mailbox? id =
    match cs.find? (·.id == id) with
    | some c => (before.2.mailbox? id).map (c.feed before.2.capacity messages)
    | none => before.2.mailbox? id
  connections : after.2.connections = before.2.connections.filter fun other =>
    !cs.any fun c => other.id == c.id && before.2.isDead messages c
  capacity : after.2.capacity = before.2.capacity
  nextId : after.2.nextId = before.2.nextId

theorem visited_visit (messages : List Push) (c : Connection) (d : Delivery) (r : Registry) :
    Visited messages [c] (d, r) (visit messages (d, r) c) := by
  rw [visit]
  cases hm : r.mailbox? c.id with
  | some m =>
    have hid : m.id = c.id := id_of_mailbox? hm
    simp only [Connection.serve_eq]
    refine ⟨by simp [hm, Delivery.total], fun id => ?_, by simp [isDead, hm, putMailbox], rfl, rfl⟩
    have hfed : (c.feed r.capacity messages m).id = c.id := hid
    rw [mailbox?_putMailbox, List.find?_singleton, hfed]
    by_cases h : id = c.id
    · simp [h, hm]
    · simp [h, Ne.symm h]
  | none =>
    have hmailbox (id : Nat) : r.mailbox? id = match [c].find? (·.id == id) with
        | some c => (r.mailbox? id).map (c.feed r.capacity messages)
        | none => r.mailbox? id := by
      rw [List.find?_singleton]
      by_cases h : id = c.id
      · simp [h, hm]
      · simp [Ne.symm h]
    by_cases hwants : messages.any c.wants
    · simp only [hwants, if_true]
      refine ⟨?_, hmailbox, ?_, rfl, rfl⟩
      · simp only [hm, Connection.outcome, hwants, Delivery.total, if_true, List.map_singleton,
          List.foldr_cons, List.foldr_nil, Delivery.add_none]
      · simp [isDead, hm, hwants, remove, bne]
    · simp only [hwants]
      refine ⟨?_, hmailbox, by simp [isDead, hm, hwants], rfl, rfl⟩
      simp only [hm, Connection.outcome, hwants, Delivery.total, List.map_singleton,
        List.foldr_cons, List.foldr_nil, Delivery.add_none]
      rfl

/-- A visit does not touch what the visits to other connections look at. -/
theorem Visited.cons {c : Connection} {cs : List Connection} {s t u : Delivery × Registry}
    (h : Visited messages [c] s t) (h' : Visited messages cs t u)
    (hc : ∀ other ∈ cs, other.id ≠ c.id) : Visited messages (c :: cs) s u := by
  have hmailbox (id : Nat) (hid : id ≠ c.id) : t.2.mailbox? id = s.2.mailbox? id := by
    simp [h.mailbox id, Ne.symm hid]
  have hdead (other : Connection) (hother : other ∈ cs) :
      t.2.isDead messages other = s.2.isDead messages other := by
    rw [isDead, isDead, hmailbox other.id (hc other hother)]
  have hothers : (cs.map fun other => other.outcome t.2.capacity messages (t.2.mailbox? other.id)) =
      cs.map fun other => other.outcome s.2.capacity messages (s.2.mailbox? other.id) :=
    List.map_congr_left fun other hother => by rw [h.capacity, hmailbox other.id (hc other hother)]
  refine ⟨?_, fun id => ?_, ?_, h'.capacity.trans h.capacity, h'.nextId.trans h.nextId⟩
  · rw [h'.delivery, h.delivery, hothers, Delivery.add_assoc]
    rfl
  · rw [h'.mailbox, h.capacity]
    by_cases hid : id = c.id
    · -- none of the connections that follow has this number
      have hnone : cs.find? (·.id == c.id) = none := by simpa using hc
      simp [hid, hnone, h.mailbox c.id]
    · simp [Ne.symm hid, hmailbox id hid]
  · rw [h'.connections, h.connections, List.filter_filter]
    refine List.filter_congr fun other _ => ?_
    have hany : (cs.any fun c' => other.id == c'.id && t.2.isDead messages c') =
        cs.any fun c' => other.id == c'.id && s.2.isDead messages c' := by
      rw [Bool.eq_iff_iff, List.any_eq_true, List.any_eq_true]
      exact exists_congr fun c' => and_congr_right fun hc' => by rw [hdead c' hc']
    simp [hany, Bool.and_comm]

theorem visited_foldl (messages : List Push) (cs : List Connection)
    (hnodup : (cs.map (·.id)).Nodup) (d : Delivery) (r : Registry) :
    Visited messages cs (d, r) (cs.foldl (visit messages) (d, r)) := by
  induction cs generalizing d r with
  | nil => exact ⟨rfl, fun _ => rfl, by simp, rfl, rfl⟩
  | cons c cs ih =>
    have hother : ∀ other ∈ cs, other.id ≠ c.id := by
      intro other hother hid
      exact (List.nodup_cons.1 hnodup).1 (List.mem_map.2 ⟨other, hother, hid⟩)
    exact (visited_visit messages c d r).cons (ih (List.nodup_cons.1 hnodup).2 _ _) hother

/-! ## Handing out to all -/

/-- What a reader is handed, if it is there and its connection too. -/
def shareOf (r : Registry) (id : Nat) (messages : List Push) : List Push :=
  match r.connection? id, r.mailbox? id with
  | some c, some m => c.share r.capacity messages m
  | _, _ => []

theorem visited_pushAll (hr : (r.connections.map (·.id)).Nodup) (messages : List Push) :
    Visited messages r.connections (.none, r) (r.pushAll messages) :=
  visited_foldl messages r.connections hr .none r

theorem fst_pushAll (hr : (r.connections.map (·.id)).Nodup) (messages : List Push) :
    (r.pushAll messages).1 =
      .total (r.connections.map fun c => c.outcome r.capacity messages (r.mailbox? c.id)) := by
  rw [(visited_pushAll hr messages).delivery, Delivery.none_add]

theorem connections_pushAll (hr : (r.connections.map (·.id)).Nodup) (messages : List Push) :
    (r.pushAll messages).2.connections =
      r.connections.filter fun c => !r.isDead messages c := by
  rw [(visited_pushAll hr messages).connections]
  refine List.filter_congr fun c hc => congrArg (!·) ?_
  rw [Bool.eq_iff_iff, List.any_eq_true]
  constructor
  · rintro ⟨other, hother, h⟩
    rw [Bool.and_eq_true, beq_iff_eq] at h
    -- numbers are not shared
    rw [List.inj_on_of_nodup_map hr hc hother h.1]
    exact h.2
  · intro h
    exact ⟨c, hc, by simpa using h⟩

theorem mailbox?_pushAll (hr : (r.connections.map (·.id)).Nodup) (messages : List Push) (id : Nat) :
    (r.pushAll messages).2.mailbox? id =
      (r.mailbox? id).map fun m => { m with queue := m.queue ++ r.shareOf id messages } := by
  rw [(visited_pushAll hr messages).mailbox]
  change (match r.connection? id with | some c => _ | none => _) = _
  unfold shareOf
  cases r.connection? id <;> cases r.mailbox? id <;> simp [Connection.feed]

end Registry

end LedgerIndex
