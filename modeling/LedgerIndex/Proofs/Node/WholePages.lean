import LedgerIndex.App.Program
import LedgerIndex.Proofs.Json.Fields
import LedgerIndex.Proofs.Node.Retrying
import LedgerIndex.Proofs.Node.Wire
import LedgerIndex.Proofs.Sync.Round
import LedgerIndex.Proofs.Traversal

/-!
# Pages come whole or not at all

A page of the node becomes transactions of the ledger only if each of its blocks does.  What a block
becomes is told by the value that the node sent (`Block.Becomes`); one block without a checkpoint
that can be read refuses the page, and the first such block is named (`Page.Judged`).  An indexer
that meets such a page stays where it is (`fetchPage_judged`).
-/

namespace LedgerIndex.Node

open Shape

/-! ## What the node's values become -/

/-- The event of the ledger that a value of the node becomes.  Its payload is `null` where the value
says none. -/
structure BlockEvent.Becomes (v : Json) (e : RawEvent) : Prop where
  type : v.field? "type" 0 = some (.string e.type)
  sender : v.field? "sender" 1 = some (.string e.sender)
  payload : e.payload = (v.field? "parsedJson" 2).getD .null

/-- The transaction of the ledger that a value of the node becomes.  Its time is zero where the
value says none, or none that can be read. -/
structure Block.Becomes (v : Json) (t : Transaction) : Prop where
  digest : v.field? "digest" 0 = some (.string t.digest)
  checkpoint : ∃ text, v.field? "checkpoint" 1 = some (.string text) ∧
    Decimal.word? text = some t.checkpoint
  timestamp : t.timestamp =
    (((v.field? "timestampMs" 2).bind Json.string?).bind Decimal.word?).getD 0
  events : ∃ items, (v.field? "events" 4).getD (.array []) = .array items ∧
    List.Forall₂ BlockEvent.Becomes items t.events

/-- The transactions that a page becomes, block by block. -/
def Page.Becomes (v : Json) (ts : List Transaction) : Prop :=
  ∃ items, v.field? "data" 0 = some (.array items) ∧ List.Forall₂ Block.Becomes items ts

/-- The event of the ledger that an event of a block is. -/
def BlockEvent.raw (e : BlockEvent) : RawEvent := ⟨e.type, e.sender, e.parsedJson⟩

theorem BlockEvent.becomes_raw {room : Nat} {v : Json} {e : BlockEvent} (hkept : v.Kept room)
    (h : shape room (.ofJson v) = .ok e) : Becomes v e.raw := by
  obtain ⟨n, s, rfl, hs, hfinish⟩ := exists_takenFrom h
  obtain rfl := ofFields_eq_ok_iff.1 hfinish
  have htype := hs.field Fields.type 0 rfl (by simp [fields]) fun _ _ => rfl
  have hsender := hs.field Fields.sender 1 rfl (by simp [fields]) fun _ _ => rfl
  have hpayload := hs.field Fields.parsedJson 2 rfl (by simp [fields]) fun _ _ => rfl
  exact ⟨htype.string, hsender.string, hpayload.json fun w hw => hkept.field hw⟩

namespace Block

/-- The block has a checkpoint that can be read. -/
def IsPlaced (b : Block) : Prop :=
  ∃ text n, b.checkpoint = some text ∧ Decimal.word? text = some n

theorem isPlaced_iff {b : Block} : b.IsPlaced ↔ ∃ n, b.checkpoint? = some n := by
  rw [IsPlaced, checkpoint?, exists_comm]
  simp only [Option.bind_eq_some_iff]

theorem toTransaction_of_not_isPlaced {b : Block} (h : ¬ b.IsPlaced) :
    b.toTransaction = .error (.rpc ("transaction " ++ b.digest ++ " has no checkpoint")) := by
  have hnone : b.checkpoint? = none :=
    Option.eq_none_iff_forall_ne_some.2 fun n hn => h (isPlaced_iff.2 ⟨n, hn⟩)
  rw [toTransaction, hnone]

theorem exists_toTransaction {b : Block} (h : b.IsPlaced) : ∃ t, b.toTransaction = .ok t := by
  obtain ⟨n, hn⟩ := isPlaced_iff.1 h
  exact ⟨_, by rw [toTransaction, hn]⟩

theorem becomes_of_toTransaction {room : Nat} {v : Json} {b : Block} {t : Transaction}
    (hkept : v.Kept room) (h : shape room (.ofJson v) = .ok b) (ht : b.toTransaction = .ok t) :
    Becomes v t := by
  obtain ⟨n, s, rfl, hs, hfinish⟩ := exists_takenFrom h
  obtain rfl := ofFields_eq_ok_iff.1 hfinish
  have hdigest := hs.field Fields.digest 0 rfl (by simp [fields]) fun _ _ => rfl
  have hcheckpoint := hs.field Fields.checkpoint 1 rfl (by simp [fields]) fun _ _ => rfl
  have htimestamp := hs.field Fields.timestamp 2 rfl (by simp [fields]) fun _ _ => rfl
  have hevents := hs.field Fields.events 4 rfl (by simp [fields]) fun _ _ => rfl
  obtain ⟨items, hitems, hall⟩ := hevents.list fun w hw => hkept.field hw
  rw [toTransaction] at ht
  cases hplace : b.checkpoint? with
  | none =>
    rw [hplace] at ht
    cases ht
  | some checkpoint =>
    rw [hplace] at ht
    obtain rfl := Except.ok.inj ht
    rw [checkpoint?, Option.bind_eq_some_iff] at hplace
    obtain ⟨text, htext, hword⟩ := hplace
    refine ⟨hdigest.string, ⟨text, ?_, hword⟩, ?_, items, hitems, ?_⟩
    · have hsaid := hcheckpoint.optional_string.symm.trans htext
      obtain ⟨w, hw, hstring⟩ := Option.bind_eq_some_iff.1 hsaid
      cases w with
      | string s => rw [hw, Option.some.inj hstring]
      | null | bool | number | array | object => cases hstring
    · exact congrArg (fun s => (Option.bind s Decimal.word?).getD 0) htimestamp.optional_string
    · refine List.forall₂_map_right_iff.2 (hall.imp fun w e hw => ?_)
      obtain ⟨m, hm, he⟩ := hw
      exact BlockEvent.becomes_raw hm he

end Block

/-! ## A page -/

namespace Page

variable [Wording]

/-- The value is a page, and all its blocks have their place. -/
def IsWhole (result : Json) : Prop :=
  ∃ p, shape.ofJson? result = some p ∧ ∀ b ∈ p.blocks, b.IsPlaced

/-- What is made of the node's result. -/
structure Judged (result : Json) (answer : Except Error (List Transaction)) : Prop where
  ok_iff : (∃ ts, answer = .ok ts) ↔ IsWhole result
  becomes : ∀ ts, answer = .ok ts → Becomes result ts
  /-- what is no page is said to be none, and why in the words of the reader of JSON -/
  invalid : shape.ofJson? result = none → answer = .error (.rpc (invalidText result))
  /-- the first block that has no place is named -/
  first : ∀ p, shape.ofJson? result = some p → (¬ ∀ b ∈ p.blocks, b.IsPlaced) →
    ∃ before b after, p.blocks = before ++ b :: after ∧ (∀ b ∈ before, b.IsPlaced) ∧
      ¬ b.IsPlaced ∧ answer = .error (.rpc ("transaction " ++ b.digest ++ " has no checkpoint"))

theorem transactionsOf_of_none {result : Json} (h : shape.ofJson? result = none) :
    transactionsOf result = .error (.rpc (invalidText result)) := by
  rw [transactionsOf, ofResult, h]
  rfl

theorem transactionsOf_of_some {result : Json} {p : Page} (h : shape.ofJson? result = some p) :
    transactionsOf result = p.blocks.mapM Block.toTransaction := by
  rw [transactionsOf, ofResult, h]
  rfl

omit [Wording] in
theorem becomes_of_mapM {room : Nat} {v : Json} {p : Page} {ts : List Transaction}
    (hkept : v.Kept room) (h : shape room (.ofJson v) = .ok p)
    (hts : p.blocks.mapM Block.toTransaction = .ok ts) : Becomes v ts := by
  obtain ⟨n, s, rfl, hs, hfinish⟩ := exists_takenFrom h
  obtain rfl := ofFields_eq_ok_iff.1 hfinish
  have hblocks := hs.field Fields.blocks 0 rfl (by simp [fields]) fun _ _ => rfl
  obtain ⟨w, hw, hlist⟩ := hblocks.required
  obtain ⟨items, rfl, hall⟩ := list_kept (hkept.field hw) hlist
  refine ⟨items, hw, forall₂_comp (fun v b t hv ht => ?_) hall (mapM_eq_ok_iff.1 hts)⟩
  obtain ⟨m, hm, hb⟩ := hv
  exact Block.becomes_of_toTransaction hm hb ht

theorem judged_transactionsOf {result : Json} (hkept : result.Kept Json.maxDepth) :
    Judged result (transactionsOf result) := by
  cases hp : shape.ofJson? result with
  | none =>
    have hnone := transactionsOf_of_none hp
    refine ⟨⟨?_, ?_⟩, ?_, fun _ => hnone, ?_⟩
    · rintro ⟨ts, hts⟩
      cases hnone.symm.trans hts
    · rintro ⟨p, hsome, -⟩
      cases hp.symm.trans hsome
    · intro ts hts
      cases hnone.symm.trans hts
    · intro p hsome
      cases hp.symm.trans hsome
  | some p =>
    have hsome := transactionsOf_of_some hp
    have hiff : (∃ ts, transactionsOf result = .ok ts) ↔ ∀ b ∈ p.blocks, b.IsPlaced := by
      rw [hsome, exists_mapM_iff]
      refine forall₂_congr fun b _ => ⟨fun ⟨t, ht⟩ => ?_, Block.exists_toTransaction⟩
      by_contra hb
      cases (Block.toTransaction_of_not_isPlaced hb).symm.trans ht
    refine ⟨hiff.trans ⟨fun h => ⟨p, hp, h⟩, ?_⟩, fun ts hts => ?_, ?_, ?_⟩
    · rintro ⟨p', hp', h⟩
      cases hp.symm.trans hp'
      exact h
    · refine becomes_of_mapM hkept ?_ (hsome.symm.trans hts)
      rw [Shape.ofJson?] at hp
      cases hread : shape Json.maxDepth (.ofJson result) with
      | error =>
        rw [hread] at hp
        cases hp
      | ok p' =>
        rw [hread] at hp
        rw [Option.some.inj hp]
    · intro hnone
      cases hp.symm.trans hnone
    · intro p' hp' hbad
      cases hp.symm.trans hp'
      obtain ⟨before, b, after, hblocks, hbefore, hb⟩ := exists_first_not hbad
      refine ⟨before, b, after, hblocks, hbefore, hb, ?_⟩
      rw [hsome, hblocks]
      exact mapM_of_first_error (fun b' hb' => Block.exists_toTransaction (hbefore b' hb'))
        (Block.toTransaction_of_not_isPlaced hb)

end Page

/-! ## The result of a call -/

/-- A result was read from a text. -/
theorem Response.kept_of_outcome {text : String} {r : Response} {v : Json}
    (h : parse text = .ok r) (hv : r.outcome = .ok v) : v.Kept Json.maxDepth := by
  obtain ⟨n, hn, -, hresult, -⟩ := exists_fits (takes_of_parse h)
  rw [outcome] at hv
  cases herror : r.error with
  | some e =>
    rw [herror] at hv
    cases hv
  | none =>
    rw [herror] at hv
    obtain rfl := Except.ok.inj hv
    cases hfound : r.result with
    | none => exact .null
    | some w => exact (hresult w hfound).2.mono (by omega)

theorem Reply.exists_parse_of_answered {url : String} {reply : Reply} {r : Response}
    (h : reply.attempt url = .answered r) : ∃ text, Response.parse text = .ok r := by
  cases reply with
  | lost => cases h
  | answer status sent =>
    rw [attempt_answer] at h
    split at h
    · cases h
    · split at h
      · split at h
        · rename_i r' hparse
          cases h
          exact ⟨_, hparse⟩
        · cases h
      · split at h <;> cases h

variable {η : Type} [HttpServer η]

theorem Transport.kept_of_attempts {url : String} {policy : RetryPolicy} {r : Request} {v : Json} :
    ∀ {fuel attempt : Nat} {server server' : η},
      attempts url policy r fuel attempt server = (.ok v, server') → v.Kept Json.maxDepth := by
  intro fuel
  induction fuel with
  | zero => exact fun h => nomatch h
  | succ fuel ih =>
    intro attempt server server' h
    rw [attempts] at h
    dsimp only at h
    cases hattempt : (HttpServer.post r server).1.attempt url with
    | answered response =>
      rw [hattempt] at h
      dsimp only at h
      obtain ⟨text, hparse⟩ := Reply.exists_parse_of_answered hattempt
      have houtcome : response.outcome = .ok v := by
        cases hout : response.outcome with
        | error e =>
          rw [hout] at h
          cases h
        | ok w =>
          rw [hout] at h
          cases h
          rfl
      exact Response.kept_of_outcome hparse houtcome
    | transient text =>
      rw [hattempt] at h
      dsimp only at h
      split at h
      · exact ih h
      · cases h
    | final text =>
      rw [hattempt] at h
      cases h

theorem Client.kept_of_call {c c' : Client η} {method : String} {params : List Json} {v : Json}
    (h : c.call method params = (.ok v, c')) : v.Kept Json.maxDepth := by
  rw [call, Transport.call] at h
  cases hattempts : Transport.attempts c.transport.url c.transport.policy
      ⟨c.transport.nextId, method, params⟩ (c.transport.policy.maxRetries + 1) 1 c.server with
  | mk answer server =>
    rw [hattempts] at h
    cases h
    exact Transport.kept_of_attempts hattempts

/-! ## Fetching a page -/

/-- A round in which the ledger gives no page leaves the indexer and its store as they were. -/
theorem step_of_fetch_error {ν σ : Type} [Ledger ν] [Clock ν] [CommitStore σ]
    {m : Sync.Machine ν σ} (hloaded : m.loop.isLoaded) {e : Error} {w : ν}
    (h : m.core.fetch m.outside = (.error e, w)) :
    m.step.1 = .ok .fetchFailed ∧ m.step.2.core = m.core := by
  have hready : m.core.ready = (.ok (), m.core) := if_pos hloaded
  have hround := m.round
  generalize m.step = after at hround
  obtain ⟨outcome, m'⟩ := after
  dsimp only at hround ⊢
  generalize m'.core = core, m'.outside = w' at hround
  cases hround with
  | refused hrefused => cases hready.symm.trans hrefused
  | failed hready' =>
    cases hready.symm.trans hready'
    exact ⟨rfl, rfl⟩
  | empty hready' hfetch | rejected hready' hfetch | stored hready' hfetch =>
    cases hready.symm.trans hready'
    cases h.symm.trans hfetch

/-- **A page is fetched whole or not at all.**  When the node answers the query for a page with a
result, the client makes of it what `Page.Judged` says: a transaction for each block, in order, if
it is a page whose blocks all have a checkpoint that can be read, and an error otherwise.  An
indexer that asks this client, whatever its store is, then ends its round without a page, with its
cursor and its store as they were. -/
theorem fetchPage_judged [Wording] {c c' : Client η} {filter : ObjectFilter} {after : Option String}
    {limit : Nat} {result : Json}
    (hcall : c.call "suix_queryTransactionBlocks" (Client.pageParams filter after limit) =
      (.ok result, c')) :
    (c.fetchPage filter after limit).2 = c' ∧
    Page.Judged result (c.fetchPage filter after limit).1 ∧
    ∀ {σ : Type} [CommitStore σ] (m : Sync.Machine (App.Outside η) σ), m.loop.isLoaded →
      m.outside.client = c → m.loop.filter = filter → m.loop.after = after →
      m.loop.config.pageSize = limit → ¬ Page.IsWhole result →
      m.step.1 = .ok .fetchFailed ∧ m.step.2.store = m.store ∧
        m.step.2.loop.cursor = m.loop.cursor := by
  have hfetch : c.fetchPage filter after limit = (Page.transactionsOf result, c') := by
    rw [Client.fetchPage, hcall]
    rfl
  have hjudged := Page.judged_transactionsOf (Client.kept_of_call hcall)
  rw [hfetch]
  refine ⟨rfl, hjudged, ?_⟩
  rintro σ _ m hloaded rfl rfl rfl rfl hbad
  have hnone : ∃ e, Page.transactionsOf result = .error e := by
    cases hts : Page.transactionsOf result with
    | error e => exact ⟨e, rfl⟩
    | ok ts => exact absurd (hjudged.ok_iff.1 ⟨ts, hts⟩) hbad
  obtain ⟨e, he⟩ := hnone
  have hcore : m.core.fetch m.outside = (.error e, { m.outside with client := c' }) := by
    have hask : m.core.fetch m.outside =
        App.Outside.ask (fun c => c.fetchPage m.loop.filter m.loop.after m.loop.config.pageSize)
          m.outside := rfl
    rw [hask, App.Outside.ask, hfetch, he]
  obtain ⟨houtcome, hsame⟩ := step_of_fetch_error hloaded hcore
  exact ⟨houtcome, congrArg Sync.Core.store hsame, congrArg Sync.Core.cursor hsame⟩

/-! ### A page with a gap, and without -/

/-- The first block says little more than where it is, the last brings an event. -/
def early : Json := .object [("checkpoint", .string "7"), ("digest", .string "d1")]

/-- A block without a checkpoint. -/
def lost : Json := .object [("digest", .string "d2")]

@[inherit_doc early]
def late : Json :=
  .object
    [ ("checkpoint", .string "8"), ("digest", .string "d3"),
      ("events", .array [.object [("sender", .string "0x1"), ("type", .string "0x2::a::B")]]) ]

/-- The page of some blocks. -/
def pageOf (blocks : List Json) : Json := .object [("data", .array blocks)]

/-- The response that brings a page. -/
def answerOf (page : Json) : Response := ⟨"2.0", .ofInt 1, some page, none⟩

theorem parse_answerOf {page : Json}
    (h : page = pageOf [early, late] ∨ page = pageOf [early, lost, late]) :
    Response.parse (answerOf page).toJson.text = .ok (answerOf page) := by
  have hintegral : (answerOf page).toJson.Integral := by
    refine .ofMembers ?_
    rcases h with rfl | rfl <;>
      simp [Response.members, answerOf, pageOf, early, lost, late, Json.optionalMember,
        Json.integral_array, Json.integral_object, Json.ofInt, Json.integral_int]
  rw [Response.parse, Shape.parse, Document.read_text hintegral]
  rcases h with rfl | rfl <;> rfl

/-- A client of a node that always brings this page. -/
def bringing (page : Json) : Client Tape :=
  ⟨.new "http://node" ⟨3, 0, 0, 1⟩, ⟨fun _ => .answer 200 (answerOf page).toJson.text, []⟩⟩

theorem exists_call_bringing {page : Json}
    (h : Response.parse (answerOf page).toJson.text = .ok (answerOf page)) (method : String)
    (params : List Json) : ∃ c, (bringing page).call method params = (.ok page, c) := by
  have houtcome : Reply.outcome? ⟨(bringing page).transport.nextId, method, params⟩
      (((bringing page).server.ahead 0).attempt (bringing page).transport.url) =
        some (.ok page) := by
    rw [show (bringing page).server.ahead 0 = .answer 200 (answerOf page).toJson.text from rfl,
      Reply.attempt_answer]
    have hbody (text : String) : Reply.bodyWith 200 text = text := if_neg (by decide)
    rw [hbody, h, if_neg (by decide), if_pos (by decide)]
    rfl
  rw [Client.call, Transport.call, Transport.attempts_lasting houtcome]
  exact ⟨_, rfl⟩

/-- An indexer past `d0` that asks this client. -/
def asking (page : Json) : Sync.Machine (App.Outside Tape) Memory :=
  { loop :=
      { Sync.Loop.new { Sync.Config.usual with id := "shop", tracked := "0x5" } with
        isLoaded := true, cursor := some ⟨"d0", 6⟩ }
    outside := ⟨bringing page, 0, 0⟩
    store := .empty
    registry := none
    log := [] }

theorem isWhole_pageOf : Page.IsWhole (pageOf [early, late]) := by
  refine ⟨⟨[⟨"d1", some "7", none, none, []⟩,
    ⟨"d3", some "8", none, none, [⟨"0x2::a::B", "0x1", .null⟩]⟩], none, false⟩, rfl, ?_⟩
  simp only [List.forall_mem_cons, List.not_mem_nil, false_imp_iff, implies_true, and_true]
  exact ⟨⟨"7", 7, rfl, rfl⟩, ⟨"8", 8, rfl, rfl⟩⟩

/-- The block without a checkpoint, as it is read. -/
def lostBlock : Block := ⟨"d2", none, none, none, []⟩

theorem not_isPlaced_lostBlock : ¬ lostBlock.IsPlaced := by
  rintro ⟨text, n, ⟨⟩, -⟩

theorem exists_read_gap : ∃ p b b', Page.shape.ofJson? (pageOf [early, lost, late]) = some p ∧
    p.blocks = [b, lostBlock, b'] ∧ b.IsPlaced :=
  ⟨_, _, _, rfl, rfl, "7", 7, rfl, rfl⟩

theorem fetchPage_judged_gap :
    (∃ c, (bringing (pageOf [early, late])).call "suix_queryTransactionBlocks"
      (Client.pageParams ⟨"0x5"⟩ (some "d0") 50) = (.ok (pageOf [early, late]), c)) ∧
    (∃ ts, ((bringing (pageOf [early, late])).fetchPage ⟨"0x5"⟩ (some "d0") 50).1 = .ok ts ∧
      List.Forall₂ Block.Becomes [early, late] ts) ∧
    ((bringing (pageOf [early, lost, late])).fetchPage ⟨"0x5"⟩ (some "d0") 50).1 =
      .error (.rpc "transaction d2 has no checkpoint") ∧
    (asking (pageOf [early, lost, late])).step.1 = .ok .fetchFailed ∧
    (asking (pageOf [early, lost, late])).step.2.loop.cursor = some ⟨"d0", 6⟩ := by
  obtain ⟨c, hcall⟩ := exists_call_bringing (parse_answerOf (.inl rfl))
    "suix_queryTransactionBlocks" (Client.pageParams ⟨"0x5"⟩ (some "d0") 50)
  obtain ⟨c', hcall'⟩ := exists_call_bringing (parse_answerOf (.inr rfl))
    "suix_queryTransactionBlocks" (Client.pageParams ⟨"0x5"⟩ (some "d0") 50)
  obtain ⟨-, hjudged, -⟩ := fetchPage_judged hcall
  obtain ⟨-, hjudged', hstays⟩ := fetchPage_judged hcall'
  obtain ⟨ts, hts⟩ := hjudged.ok_iff.2 isWhole_pageOf
  obtain ⟨items, ⟨⟩, hbecomes⟩ := hjudged.becomes ts hts
  obtain ⟨p, b, b', hp, hblocks, hb⟩ := exists_read_gap
  have hbad : ¬ ∀ x ∈ p.blocks, x.IsPlaced := fun h =>
    not_isPlaced_lostBlock (h lostBlock (by simp [hblocks]))
  have hgap : ¬ Page.IsWhole (pageOf [early, lost, late]) := by
    rintro ⟨p', hp', h⟩
    cases hp.symm.trans hp'
    exact hbad h
  obtain ⟨hstep, -, hcursor⟩ := hstays (asking _) rfl rfl rfl rfl rfl hgap
  refine ⟨⟨c, hcall⟩, ⟨ts, hts, hbecomes⟩, ?_, hstep, hcursor⟩
  obtain ⟨before, x, after, hsplit, hbefore, hx, hanswer⟩ := hjudged'.first p hp hbad
  rw [hblocks] at hsplit
  rcases before with _ | ⟨x₁, _ | ⟨x₂, before⟩⟩
  · cases hsplit
    exact absurd hb hx
  · cases hsplit
    exact hanswer
  · obtain ⟨rfl, -⟩ := List.cons.inj (List.cons.inj hsplit).2
    exact absurd (hbefore lostBlock (by simp)) not_isPlaced_lostBlock

end LedgerIndex.Node
