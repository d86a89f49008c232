import LedgerIndex.Proofs.Subscription.Membership
import LedgerIndex.Subscription.Session

/-!
# Sessions are faithful clients

A session reacts to its client, to its mailbox and to the call to stop, while others use the same
registry (`SessionStep`).  Whatever the order, its connection has the filters that the client has
asked for last, the client is sent what was queued for it, in order, and when the session has ended
nothing of it is left in the registry (`Standing`).  One step keeps this up (`Standing.after`), and
a session never touches what belongs to another connection (`without_react`).
-/

namespace LedgerIndex

namespace Registry

variable {r : Registry} {id : Nat}

/-! ## What belongs to the others -/

/-- The registry without the connection and the mailbox of a number. -/
def without (r : Registry) (id : Nat) : Registry :=
  { r with
    connections := r.connections.filter (·.id != id)
    mailboxes := r.mailboxes.filter (·.id != id) }

/-- What a client does itself, and not to others. -/
inductive Action.IsOwn (id : Nat) : Action → Prop
  | setFilters (filters : List Filter) : IsOwn id (.setFilters id filters)
  | remove : IsOwn id (.remove id)
  | receive (limit : Option Nat) : IsOwn id (.receive id limit)
  | dropMailbox : IsOwn id (.dropMailbox id)

/-- Changing what is not kept leaves what is kept. -/
theorem filter_map_of_kept {α : Type} {as : List α} {keep : α → Bool} {edit : α → α}
    (hkeep : ∀ a, keep (edit a) = keep a) (hedit : ∀ a, keep a → edit a = a) :
    (as.map edit).filter keep = as.filter keep := by
  have hcomp : keep ∘ edit = keep := funext hkeep
  rw [List.filter_map, hcomp, List.map_congr_left fun a ha => hedit a (List.mem_filter.1 ha).2,
    List.map_id']

theorem without_act {a : Action} (h : a.IsOwn id) : (r.act a).without id = r.without id := by
  cases h with
  | setFilters filters =>
    have hconnections :
        ((r.connections.map fun c => if c.id = id then { c with filters } else c)
          |>.filter (·.id != id)) = r.connections.filter (·.id != id) :=
      filter_map_of_kept (fun c => by split <;> rfl) fun c hc => if_neg (by simpa using hc)
    rw [act, setFilters, without, hconnections]
    rfl
  | remove =>
    rw [act, remove, without, List.filter_filter]
    simp only [Bool.and_self]
    rfl
  | receive limit =>
    have hmailboxes (count : Nat) :
        ((r.mailboxes.map fun m => if m.id = id then { m with queue := m.queue.drop count } else m)
          |>.filter (·.id != id)) = r.mailboxes.filter (·.id != id) :=
      filter_map_of_kept (fun m => by split <;> rfl) fun m hm => if_neg (by simpa using hm)
    rw [act, receive]
    split
    · rfl
    · rw [without, hmailboxes]
      rfl
  | dropMailbox =>
    rw [act, dropMailbox, without, List.filter_filter]
    simp only [Bool.and_self]
    rfl

theorem without_run {actions : List Action} (h : ∀ a ∈ actions, a.IsOwn id) :
    (r.run actions).without id = r.without id := by
  induction actions generalizing r with
  | nil => rfl
  | cons a actions ih =>
    obtain ⟨ha, hrest⟩ := List.forall_mem_cons.1 h
    exact (ih hrest).trans (without_act ha)

/-- A client that is taken on is added to the others. -/
theorem without_register (hr : r.WellFormed) (h : r.register.1 = .ok id) :
    id = r.nextId ∧ (r.act .register).without id = { r with nextId := r.nextId + 1 } := by
  have hroom : r.size < r.maxClients := by
    by_contra hfull
    rw [register_of_le (Nat.not_lt.1 hfull)] at h
    cases h
  rw [register_of_lt hroom] at h
  cases h
  have hconnections : r.connections.filter (·.id != r.nextId) = r.connections := by
    refine List.filter_eq_self.2 fun c hc => ?_
    simpa using Nat.ne_of_lt (hr.connection_lt c hc)
  have hmailboxes : r.mailboxes.filter (·.id != r.nextId) = r.mailboxes := by
    refine List.filter_eq_self.2 fun m hm => ?_
    have hnone : r.mailbox? r.nextId = none := mailbox?_eq_none hr (Nat.le_refl _)
    simpa using List.find?_eq_none.1 hnone m hm
  refine ⟨rfl, ?_⟩
  rw [act, register_of_lt hroom, without, List.filter_append, List.filter_append, hconnections,
    hmailboxes]
  simp

/-! ## What a seat is handed -/

theorem shareOf_eq_seat (r : Registry) (id : Nat) (messages : List Push) :
    r.shareOf id messages =
      match (r.seat id).filters, (r.seat id).queue with
      | some filters, some queue =>
        (messages.filter fun p => filters.any (·.wants p)).take (r.capacity - queue.length)
      | _, _ => [] := by
  rw [shareOf, seat]
  cases r.connection? id <;> cases r.mailbox? id <;> rfl

theorem handed_eq (id : Nat) (r : Registry) (a : Action) :
    handed id r a =
      match concern? id a with
      | some (.messages messages) => r.shareOf id messages
      | _ => [] := by
  cases a with
  | register | pushAll | fanOut => rfl
  | setFilters other | remove other | receive other | dropMailbox other =>
    rw [concern?]
    split
    · rename_i h
      split at h <;> cases h
    · rfl

/-- What is read when one message is asked for. -/
theorem receive_one (r : Registry) (id : Nat) :
    r.receive id (some 1) =
      ((r.seat id).queue.map fun queue => (queue.take 1,
        if 1 ≤ queue.length then .more
        else if (r.seat id).filters.isSome then .empty else .closed),
        r.act (.receive id (some 1))) := by
  have hanswer := answer?_eq r id (.receive id (some 1))
  rw [answer?, concern?, if_pos rfl, if_pos rfl, Option.bind_some, Seat.answer?,
    Option.some.injEq, Reply.read.injEq] at hanswer
  exact Prod.ext hanswer rfl

end Registry

/-! ## Steps -/

/-- What happens around a session: what it reacts to, and what others do to the registry. -/
inductive SessionStep where
  | event (e : SessionEvent)
  | others (a : Registry.Action)

namespace SessionStep

/-- The filters that the client asks for. -/
def asked? : SessionStep → Option (List Filter)
  | .event (.inbound (.text t)) =>
    match Request.parse t with
    | .ok (.subscribe filters) => some filters
    | .error _ => none
  | _ => none

/-- What others do to the registry. -/
def others? : SessionStep → Option Registry.Action
  | .others a => some a
  | .event _ => none

/-- The messages that are queued for a connection. -/
def handed (id : Nat) (r : Registry) : SessionStep → List Push
  | .others a => Registry.handed id r a
  | .event _ => []

/-- No one else acts for the client of a number.  Messages may be handed out to all. -/
def Spares (id : Nat) : SessionStep → Prop
  | .others a => ∀ d, Registry.concern? id a = some d → ∃ messages, d = .messages messages
  | .event _ => True

end SessionStep

/-- The text of a frame. -/
def Frame.text? : Frame → Option String
  | .text s => some s
  | .close _ => none

/-- The frame in which a message is sent. -/
def Push.frame (p : Push) : Frame := .text p.toJson.text

/-- A frame is passed over: it is no text, or its text is no request. -/
def Inbound.IsPassedOver : Inbound → Prop
  | .text t => ∃ fault, Request.parse t = .error fault
  | .other => True
  | .ended => False

namespace Session

open Registry

variable {s : Session} {r : Registry} {id : Nat}

/-- A session and the registry after a step. -/
def after (now : Session × Registry) : SessionStep → Session × Registry
  | .event e => now.1.react now.2 e
  | .others a => (now.1, now.2.act a)

/-- A session and the registry after some steps. -/
def course (start : Session × Registry) (steps : List SessionStep) : Session × Registry :=
  steps.foldl after start

/-- The filters that the client has asked for last, none if it has not. -/
def asked (steps : List SessionStep) : List Filter :=
  ((steps.filterMap (·.asked?)).getLast?).getD []

/-- The messages that are queued for a connection in some steps, in order. -/
def queued (id : Nat) : Session × Registry → List SessionStep → List Push
  | _, [] => []
  | now, x :: steps => x.handed id now.2 ++ queued id (after now x) steps

/-! ## Reactions -/

theorem react_inbound (hopen : s.isOpen = true) (hid : s.id = some id) (i : Inbound) :
    s.react r (.inbound i) = s.receive id r i := by
  rw [react, hopen, hid]

theorem react_forward (hopen : s.isOpen = true) (hid : s.id = some id) (isWritten : Bool) :
    s.react r (.forward isWritten) = s.forward id r isWritten := by
  rw [react, hopen, hid]

theorem react_signalled (hopen : s.isOpen = true) (hid : s.id = some id) (isRaised : Bool) :
    s.react r (.signalled isRaised) =
      if isRaised then (s.send (.close none)).finish id r else (s, r) := by
  cases isRaised <;> rw [react, hopen, hid] <;> rfl

theorem react_abandoned (hopen : s.isOpen = true) (hid : s.id = some id) :
    s.react r .abandoned = (s.send (.close none)).finish id r := by
  rw [react, hopen, hid]

theorem react_of_closed (hclosed : s.isOpen = false) (e : SessionEvent) :
    s.react r e = (s, r) := by
  rw [react, hclosed]

theorem receive_of_passedOver {i : Inbound} (h : i.IsPassedOver) : s.receive id r i = (s, r) := by
  cases i with
  | text t =>
    obtain ⟨fault, hfault⟩ := h
    rw [receive, hfault]
  | other => rfl
  | ended => cases h

/-- There is a message to forward. -/
theorem forward_of_cons {p : Push} {queue : List Push} (h : (r.seat id).queue = some (p :: queue))
    (isWritten : Bool) :
    s.forward id r isWritten =
      if isWritten then (s.send p.frame, r.act (.receive id (some 1)))
      else s.finish id (r.act (.receive id (some 1))) := by
  rw [forward, receive_one, h]
  rfl

/-- There is no message to forward yet. -/
theorem forward_of_nil {filters : List Filter} (h : r.seat id = ⟨some filters, some []⟩)
    (isWritten : Bool) : s.forward id r isWritten = (s, r.act (.receive id (some 1))) := by
  rw [forward, receive_one, h]
  rfl

/-- What a session does to the registry are actions of its own. -/
theorem react_run (hid : s.id = some id) (r : Registry) (e : SessionEvent) :
    ∃ actions, (∀ a ∈ actions, a.IsOwn id) ∧ (s.react r e).2 = r.run actions := by
  have hnothing : ∃ actions : List Action, (∀ a ∈ actions, a.IsOwn id) ∧ r = r.run actions :=
    ⟨[], by simp, rfl⟩
  have hfinish : ∀ a ∈ [Action.remove id, .dropMailbox id], a.IsOwn id := by
    simp [Action.IsOwn.remove, Action.IsOwn.dropMailbox]
  cases hopen : s.isOpen with
  | false =>
    rw [react_of_closed hopen]
    exact hnothing
  | true =>
    cases e with
    | inbound i =>
      rw [react_inbound hopen hid]
      cases i with
      | text t =>
        rw [receive]
        cases Request.parse t with
        | ok request =>
          obtain ⟨filters⟩ := request
          exact ⟨[.setFilters id filters], by simp [Action.IsOwn.setFilters], rfl⟩
        | error => exact hnothing
      | other => exact hnothing
      | ended => exact ⟨_, hfinish, rfl⟩
    | forward isWritten =>
      have hreceive : Action.IsOwn id (.receive id (some 1)) := .receive _
      have hread : ∃ actions, (∀ a ∈ actions, a.IsOwn id) ∧
          r.act (.receive id (some 1)) = r.run actions :=
        ⟨[.receive id (some 1)], by simp [hreceive], rfl⟩
      have hlast : ∃ actions, (∀ a ∈ actions, a.IsOwn id) ∧
          (s.finish id (r.act (.receive id (some 1)))).2 = r.run actions :=
        ⟨[.receive id (some 1), .remove id, .dropMailbox id],
          List.forall_mem_cons.2 ⟨hreceive, hfinish⟩, rfl⟩
      rw [react_forward hopen hid, forward, receive_one]
      -- what is queued, and whether there is a connection, decide what is done besides reading
      rcases r.seat id with ⟨_ | filters, _ | _ | ⟨p, queue⟩⟩ <;> cases isWritten <;>
        first | exact hread | exact hlast
    | signalled isRaised =>
      rw [react_signalled hopen hid]
      cases isRaised with
      | false => exact hnothing
      | true => exact ⟨_, hfinish, rfl⟩
    | abandoned =>
      rw [react_abandoned hopen hid]
      exact ⟨_, hfinish, rfl⟩

/-- A session never touches what belongs to another connection. -/
theorem without_react (hid : s.id = some id) (r : Registry) (e : SessionEvent) :
    (s.react r e).2.without id = r.without id := by
  obtain ⟨actions, hown, hrun⟩ := react_run hid r e
  rw [hrun]
  exact without_run hown

/-! ## Where a session stands -/

/-- Where the session of a connection stands, after its client has asked for some filters last and
some messages were queued for it. -/
structure Standing (id : Nat) (asked : List Filter) (queued : List Push)
    (now : Session × Registry) : Prop where
  wellFormed : now.2.WellFormed
  lt_nextId : id < now.2.nextId
  numbered : now.1.id = some id
  /-- while it is open, its client was sent what is no longer queued -/
  seated : now.1.isOpen = true → ∃ written left, queued = written ++ left ∧
    now.1.sent = written.map Push.frame ∧ now.2.seat id = ⟨some asked, some left⟩
  /-- once it has ended, nothing of it is left -/
  left : now.1.isOpen = false → now.2.seat id = ⟨none, none⟩ ∧ ∃ written rest ending,
    queued = written ++ rest ∧ now.1.sent = written.map Push.frame ++ ending ∧
      (ending = [] ∨ ending = [.close none])

/-- The texts that a client was sent are the first of the messages queued for it. -/
theorem Standing.texts {asked : List Filter} {queued : List Push} {now : Session × Registry}
    (h : Standing id asked queued now) :
    now.1.sent.filterMap (·.text?) <+: queued.map fun p => p.toJson.text := by
  have htexts (written : List Push) : (written.map Push.frame).filterMap (·.text?) =
      written.map fun p => p.toJson.text := by
    rw [List.filterMap_map, ← List.filterMap_eq_map]
    rfl
  cases hopen : now.1.isOpen with
  | true =>
    obtain ⟨written, left, rfl, hsent, -⟩ := h.seated hopen
    rw [hsent, htexts, List.map_append]
    exact List.prefix_append ..
  | false =>
    obtain ⟨-, written, rest, ending, rfl, hsent, hending⟩ := h.left hopen
    have hsilent : ending.filterMap (·.text?) = [] := by
      obtain rfl | rfl := hending <;> rfl
    rw [hsent, List.filterMap_append, htexts, hsilent, List.append_nil, List.map_append]
    exact List.prefix_append ..

theorem standing_accept (hr : r.WellFormed) (h : r.register.1 = .ok id) :
    Standing id [] [] (accept r) := by
  obtain ⟨hlt, hseat⟩ := seat_register hr h
  have haccept : accept r = (⟨some id, true, []⟩, r.act .register) := by
    rw [accept, act]
    rcases hregister : r.register with ⟨_ | n, r'⟩ <;> rw [hregister] at h <;> cases h
    rfl
  rw [haccept]
  exact ⟨hr.act .register, hlt, rfl, fun _ => ⟨[], [], rfl, rfl, hseat⟩,
    fun hclosed => Bool.noConfusion hclosed⟩

variable {filters : List Filter} {given : List Push} {now : Session × Registry}

theorem seat_finish (hr : r.WellFormed) (hid : id < r.nextId) (s : Session) :
    (s.finish id r).2.seat id = ⟨none, none⟩ := by
  have hlt : id < (r.act (.remove id)).nextId := Nat.lt_of_lt_of_le hid (nextId_le_act hr _)
  have hremoved := seat_act hr hid (.remove id)
  have hdropped := seat_act (hr.act (.remove id)) hlt (.dropMailbox id)
  simp only [concern?, if_true] at hremoved hdropped
  rw [hremoved] at hdropped
  exact hdropped

theorem nextId_le_run (hr : r.WellFormed) (actions : List Action) :
    r.nextId ≤ (r.run actions).nextId := by
  induction actions generalizing r with
  | nil => exact Nat.le_refl _
  | cons a actions ih => exact Nat.le_trans (nextId_le_act hr a) (ih (hr.act a))

/-- A session that ends leaves nothing behind. -/
theorem Standing.finished (hr : r.WellFormed) (hlt : id < r.nextId) (hid : s.id = some id)
    {written rest : List Push} {ending : List Frame} (hgiven : given = written ++ rest)
    (hsent : s.sent = written.map Push.frame ++ ending)
    (hending : ending = [] ∨ ending = [.close none]) :
    Standing id filters given (s.finish id r) where
  wellFormed := hr.run [.remove id, .dropMailbox id]
  lt_nextId := Nat.lt_of_lt_of_le hlt (nextId_le_run hr [.remove id, .dropMailbox id])
  numbered := hid
  seated := nofun
  left _ := ⟨seat_finish hr hlt s, written, rest, ending, hgiven, hsent, hending⟩

theorem Standing.of_open (hr : r.WellFormed) (hlt : id < r.nextId) (hid : s.id = some id)
    (hopen : s.isOpen = true) {written left : List Push} (hgiven : given = written ++ left)
    (hsent : s.sent = written.map Push.frame)
    (hseat : r.seat id = ⟨some filters, some left⟩) : Standing id filters given (s, r) where
  wellFormed := hr
  lt_nextId := hlt
  numbered := hid
  seated _ := ⟨written, left, hgiven, hsent, hseat⟩
  left hclosed := Bool.noConfusion (hopen.symm.trans hclosed)

/-- A client changes its filters by a request, and may go. -/
theorem Standing.receive (h : Standing id filters given (s, r)) (hopen : s.isOpen = true)
    (i : Inbound) : Standing id (((SessionStep.event (.inbound i)).asked?).getD filters) given
      (s.receive id r i) := by
  obtain ⟨written, left, hgiven, hsent, hseat⟩ := h.seated hopen
  have hr : r.WellFormed := h.wellFormed
  have hlt : id < r.nextId := h.lt_nextId
  cases i with
  | text t =>
    dsimp only [SessionStep.asked?]
    rw [Session.receive]
    cases Request.parse t with
    | error fault => exact h
    | ok request =>
      obtain ⟨asked⟩ := request
      have hasked := seat_act hr hlt (.setFilters id asked)
      rw [concern?, if_pos rfl, hseat] at hasked
      exact .of_open (hr.act (.setFilters id asked))
        (Nat.lt_of_lt_of_le hlt (nextId_le_act hr (.setFilters id asked))) h.numbered hopen hgiven
        hsent hasked
  | other => exact h
  | ended =>
    exact .finished hr hlt h.numbered hgiven (hsent.trans (List.append_nil _).symm) (.inl rfl)

/-- The first message that is queued is sent, or lost when the session ends for it. -/
theorem Standing.forward (h : Standing id filters given (s, r)) (hopen : s.isOpen = true)
    (isWritten : Bool) : Standing id filters given (s.forward id r isWritten) := by
  obtain ⟨hr, hlt, hid, hseated, -⟩ := h
  obtain ⟨written, left, rfl, hsent, hseat⟩ := hseated hopen
  have hr' := hr.act (.receive id (some 1))
  have hlt' := Nat.lt_of_lt_of_le hlt (nextId_le_act hr (.receive id (some 1)))
  have hread := seat_act hr hlt (.receive id (some 1))
  rw [concern?, if_pos rfl, hseat] at hread
  cases left with
  | nil =>
    rw [forward_of_nil hseat]
    exact .of_open hr' hlt' hid hopen rfl hsent hread
  | cons p left =>
    have hqueue : (r.seat id).queue = some (p :: left) := by rw [hseat]
    rw [forward_of_cons hqueue]
    cases isWritten with
    | true =>
      refine .of_open hr' hlt' hid hopen (List.append_cons written p left) ?_ hread
      rw [List.map_append]
      exact congrArg (· ++ _) hsent
    | false => exact .finished hr' hlt' hid rfl (hsent.trans (List.append_nil _).symm) (.inl rfl)

/-- A session that is told to stop says so to its client. -/
theorem Standing.stopped (h : Standing id filters given (s, r)) (hopen : s.isOpen = true) :
    Standing id filters given ((s.send (.close none)).finish id r) := by
  obtain ⟨hr, hlt, hid, hseated, -⟩ := h
  obtain ⟨written, left, hgiven, hsent, -⟩ := hseated hopen
  exact .finished hr hlt hid hgiven (congrArg (· ++ _) hsent) (.inr rfl)

/-- What a session reacts to changes its filters if its client asks for that, and queues nothing. -/
theorem Standing.react (h : Standing id filters given now) (e : SessionEvent) :
    Standing id (((SessionStep.event e).asked?).getD filters) given (now.1.react now.2 e) := by
  obtain ⟨s, r⟩ := now
  cases hopen : s.isOpen with
  | false =>
    rw [react_of_closed hopen]
    exact ⟨h.wellFormed, h.lt_nextId, h.numbered,
      fun hreopened => Bool.noConfusion (hopen.symm.trans hreopened), h.left⟩
  | true =>
    cases e with
    | inbound i =>
      rw [react_inbound hopen h.numbered]
      exact h.receive hopen i
    | forward isWritten =>
      rw [react_forward hopen h.numbered]
      exact h.forward hopen isWritten
    | signalled isRaised =>
      rw [react_signalled hopen h.numbered]
      cases isRaised with
      | false => exact h
      | true => exact h.stopped hopen
    | abandoned =>
      rw [react_abandoned hopen h.numbered]
      exact h.stopped hopen

/-- What others do queues messages, and nothing else. -/
theorem Standing.others (h : Standing id filters given now) {a : Action}
    (hspares : (SessionStep.others a).Spares id) :
    Standing id filters (given ++ handed id now.2 a) (now.1, now.2.act a) := by
  obtain ⟨s, r⟩ := now
  obtain ⟨hr, hlt, hid, hseated, hleft⟩ := h
  dsimp only at hr hlt hid hseated hleft ⊢
  have hseat := seat_act hr hlt a
  refine ⟨hr.act a, Nat.lt_of_lt_of_le hlt (nextId_le_act hr a), hid, fun hopen => ?_,
    fun hclosed => ?_⟩
  · obtain ⟨written, left, rfl, hsent, hbefore⟩ := hseated hopen
    rw [handed_eq]
    cases hconcern : concern? id a with
    | none =>
      rw [hconcern] at hseat
      exact ⟨written, left, List.append_nil _, hsent, hseat.trans hbefore⟩
    | some d =>
      obtain ⟨messages, rfl⟩ := hspares d hconcern
      rw [hconcern, hbefore] at hseat
      refine ⟨written, left ++ r.shareOf id messages, List.append_assoc .., hsent, ?_⟩
      rw [shareOf_eq_seat, hbefore]
      exact hseat
  · obtain ⟨hbefore, written, rest, ending, rfl, hsent, hending⟩ := hleft hclosed
    refine ⟨?_, written, rest ++ handed id r a, ending, List.append_assoc .., hsent, hending⟩
    cases hconcern : concern? id a with
    | none =>
      rw [hconcern] at hseat
      exact hseat.trans hbefore
    | some d =>
      obtain ⟨messages, rfl⟩ := hspares d hconcern
      rw [hconcern, hbefore] at hseat
      exact hseat

/-! ## A step, and all of them -/

theorem Standing.after (h : Standing id filters given now) {x : SessionStep} (hx : x.Spares id) :
    Standing id (x.asked?.getD filters) (given ++ x.handed id now.2) (Session.after now x) := by
  cases x with
  | event e =>
    have hreact := h.react e
    rwa [← List.append_nil given] at hreact
  | others a => exact h.others hx

theorem Standing.course (h : Standing id filters given now) {steps : List SessionStep}
    (hsteps : ∀ x ∈ steps, x.Spares id) :
    Standing id ((steps.filterMap (·.asked?)).getLast?.getD filters)
      (given ++ queued id now steps) (Session.course now steps) := by
  induction steps generalizing filters given now with
  | nil =>
    rw [queued, List.append_nil]
    exact h
  | cons x steps ih =>
    obtain ⟨hx, hrest⟩ := List.forall_mem_cons.1 hsteps
    have hlast : ((x :: steps).filterMap (·.asked?)).getLast?.getD filters =
        (steps.filterMap (·.asked?)).getLast?.getD (x.asked?.getD filters) := by
      rw [List.filterMap_cons]
      cases x.asked? with
      | none => rfl
      | some asked => rw [List.getLast?_cons]; rfl
    rw [hlast, queued, ← List.append_assoc]
    exact ih (h.after hx) hrest

/-- A client that is refused is told so, and nothing else is done for it. -/
theorem course_of_refused {e : Error} (h : r.register.1 = .error e) (steps : List SessionStep) :
    accept r = (⟨none, false, [.close (some (tryAgain, e.message))]⟩, r) ∧
      course (accept r) steps = ((accept r).1, r.run (steps.filterMap (·.others?))) := by
  have haccept : accept r = (⟨none, false, [.close (some (tryAgain, e.message))]⟩, r) := by
    obtain hroom | hfull := Nat.lt_or_ge r.size r.maxClients
    · rw [register_of_lt hroom] at h
      cases h
    · rw [register_of_le hfull] at h
      cases h
      rw [accept, register_of_le hfull]
  refine ⟨haccept, ?_⟩
  rw [haccept]
  clear haccept h
  induction steps generalizing r with
  | nil => rfl
  | cons x steps ih =>
    cases x with
    | event e => exact ih
    | others a => exact ih

/-- What holds of the session of a connection, taken on by a registry, after some steps. -/
structure Faithful (id : Nat) (r : Registry) (steps : List SessionStep)
    (now : Session × Registry) : Prop where
  /-- while it is open, its connection has the filters that its client has asked for last -/
  filters : now.1.isOpen = true → (now.2.connection? id).map (·.filters) = some (asked steps)
  /-- what is no request is passed over -/
  passedOver : now.1.isOpen = true → ∀ i : Inbound, i.IsPassedOver →
    now.1.react now.2 (.inbound i) = now
  /-- the texts that the client was sent are the first of the messages queued for it -/
  texts : now.1.sent.filterMap (·.text?) <+:
    (queued id (accept r) steps).map fun p => p.toJson.text
  /-- once it has ended, nothing of it is left -/
  ended : now.1.isOpen = false → now.2.connection? id = none ∧ now.2.mailbox? id = none
  /-- whatever it reacts to next, it touches nothing that belongs to others -/
  apart : ∀ e, (now.1.react now.2 e).2.without id = now.2.without id

/-- **A session is a faithful client.**  A client that is refused by a registry is sent the end of
the session, and the registry stays as it is but for what others do.  Any other client gets a
connection beside the others, and its session is faithful at all times, whatever the order of what
it reacts to and of what others do. -/
theorem faithful_course (maxClients capacity : Nat) (before : List Action) :
    let r := (Registry.new maxClients capacity).run before
    (∀ e, r.register.1 = .error e → ∀ steps,
      accept r = (⟨none, false, [.close (some (tryAgain, e.message))]⟩, r) ∧
      course (accept r) steps = ((accept r).1, r.run (steps.filterMap (·.others?)))) ∧
    ∀ id, r.register.1 = .ok id →
      (accept r).2.without id = { r with nextId := r.nextId + 1 } ∧
      ∀ steps, (∀ x ∈ steps, x.Spares id) →
        Faithful id r steps (course (accept r) steps) := by
  intro r
  have hr : r.WellFormed := (WellFormed.new maxClients capacity).run before
  refine ⟨fun e he steps => course_of_refused he steps, fun id hid => ⟨?_, fun steps hsteps => ?_⟩⟩
  · have haccept : (accept r).2 = r.act .register := by
      rw [accept, act]
      rcases r.register with ⟨_ | _, _⟩ <;> rfl
    rw [haccept]
    exact (without_register hr hid).2
  · have hstanding : Standing id (asked steps) (queued id (accept r) steps)
        (course (accept r) steps) := (standing_accept hr hid).course hsteps
    generalize course (accept r) steps = now at hstanding ⊢
    obtain ⟨s, r'⟩ := now
    refine ⟨fun hopen => ?_, fun hopen i hi => ?_, hstanding.texts, fun hclosed => ?_,
      without_react hstanding.numbered r'⟩
    · obtain ⟨written, left, -, -, hseat⟩ := hstanding.seated hopen
      exact congrArg Seat.filters hseat
    · rw [react_inbound hopen hstanding.numbered]
      exact receive_of_passedOver hi
    · obtain ⟨hseat, -⟩ := hstanding.left hclosed
      have hfilters := congrArg Seat.filters hseat
      have hqueue := congrArg Seat.queue hseat
      exact ⟨Option.map_eq_none_iff.1 hfilters, Option.map_eq_none_iff.1 hqueue⟩

/-! ### A session among others -/

/-- A client that asks for all changes after some nonsense, and later for nothing.  It is sent one
of two messages and is lost when the other cannot be written; someone else reads meanwhile. -/
def eventfulSession : List SessionStep :=
  [.event (.inbound (.text "changes, please")), .event (.inbound .other),
    .others (.pushAll [note 3]), .event (.forward true),
    .event (.inbound (.text ("\x7b\"type\":\"subscribe\",\"filters\":" ++
      "[\x7b\"kind\":\"StateChange\"\x7d]\x7d"))),
    .event (.signalled false), .others (.pushAll [note 4, note 5]), .others (.receive 1 none),
    .event (.forward true),
    .event (.inbound (.text "\x7b\"filters\":[],\"type\":\"subscribe\"\x7d")),
    .others (.pushAll [note 6]), .event (.forward false), .event (.forward true)]

theorem faithful_course_eventfulSession :
    let r := (Registry.new 2 8).run [.register, .setFilters 1 [.changes none]]
    let early := course (accept r) (eventfulSession.take 8)
    let late := course (accept r) eventfulSession
    (Faithful 2 r (eventfulSession.take 8) early ∧ early.1.isOpen = true ∧
      (early.2.connection? 2).map (·.filters) = some [.changes none]) ∧
    (Faithful 2 r eventfulSession late ∧ late.1.isOpen = false ∧
      late.1.sent = [(note 4).frame] ∧ (queued 2 (accept r) eventfulSession).length = 2 ∧
      late.2.connections = [⟨1, [.changes none]⟩]) ∧
    (course (accept (r.act .register)) eventfulSession).1.sent =
      [.close (some (1013, "Subscription error: connection limit reached (2)"))] := by
  have hid : ((Registry.new 2 8).run [.register, .setFilters 1 [.changes none]]).register.1 =
    .ok 2 := by rfl
  have spares : ∀ x ∈ eventfulSession, x.Spares 2 := by
    simp [eventfulSession, SessionStep.Spares, concern?]
  obtain ⟨-, faithful⟩ := faithful_course 2 8 [.register, .setFilters 1 [.changes none]]
  obtain ⟨refused, -⟩ := faithful_course 2 8 [.register, .setFilters 1 [.changes none], .register]
  obtain ⟨-, faithful⟩ := faithful 2 hid
  obtain ⟨accepted, course⟩ := refused _ (by rfl) eventfulSession
  refine ⟨⟨faithful _ fun x hx => spares x (List.mem_of_mem_take hx), by decide +kernel,
    by decide +kernel⟩, ⟨faithful _ spares, by decide +kernel, by decide +kernel,
    by decide +kernel, by decide +kernel⟩, ?_⟩
  refine (congrArg (fun now => now.1.sent) course).trans ?_
  decide +kernel

end Session

end LedgerIndex
