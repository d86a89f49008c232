import LedgerIndex.Proofs.Store.Replay
import LedgerIndex.Proofs.Store.Standing
import LedgerIndex.Subscription.Filter

/-!
# What subscribers were told last

Subscribers are told of the changes of a batch by checkpoint, and in order where checkpoints are
equal.  The store looks for the latest change to each key, and guards it against the row that is
there.  Both come to the same change (`lastAbout?_messages`), so the last message about a row agrees
with what the store shows, unless the row was newer than all that the batch says of it
(`agrees_lastAbout`).
-/

namespace LedgerIndex

/-! ## Changes by checkpoint -/

/-- The checkpoint of the first change is not above that of the second. -/
def noLater (a b : Change) : Bool := a.checkpoint ≤ b.checkpoint

theorem noLater_trans (a b c : Change) (hab : noLater a b) (hbc : noLater b c) : noLater a c := by
  simp only [noLater, decide_eq_true_eq] at *
  exact UInt64.le_trans hab hbc

theorem noLater_total (a b : Change) : noLater a b || noLater b a := by
  simpa [noLater] using UInt64.le_total a.checkpoint b.checkpoint

/-- The changes by checkpoint, and in order where checkpoints are equal. -/
def byCheckpoint (changes : List Change) : List Change := changes.mergeSort noLater

theorem ordered_byCheckpoint (changes : List Change) : Ordered (byCheckpoint changes) := by
  have hsorted := List.pairwise_mergeSort noLater_trans noLater_total changes
  simpa [Ordered, byCheckpoint, noLater] using hsorted

/-- A change is put behind those that came after it if they are older, and before all others. -/
theorem exists_byCheckpoint_cons (c : Change) (changes : List Change) :
    ∃ older others, byCheckpoint (c :: changes) = older ++ c :: others ∧
      byCheckpoint changes = older ++ others ∧ ∀ d ∈ older, d.checkpoint < c.checkpoint := by
  obtain ⟨older, others, hcons, hrest, holder⟩ :=
    List.mergeSort_cons noLater_trans noLater_total c changes
  refine ⟨older, others, hcons, hrest, fun d hd => ?_⟩
  have hnot := holder d hd
  exact UInt64.not_le.1 (by simpa [noLater] using hnot)

/-- What is older than a change can be looked at before it or after it. -/
theorem later_left_comm {older : Option Change} {c : Change}
    (h : ∀ d ∈ older, d.checkpoint < c.checkpoint) (others : Option Change) :
    later older (later (some c) others) = later (some c) (later older others) := by
  cases older with
  | none => simp
  | some d =>
    have hdc : d.checkpoint < c.checkpoint := h d rfl
    cases others with
    | none => simp [later, UInt64.le_of_lt hdc, UInt64.not_le.2 hdc]
    | some e => grind [later, UInt64.le_trans, UInt64.le_of_lt, UInt64.not_le]

/-- The order of checkpoints does not change which of the wanted changes is the latest. -/
theorem latest?_filter_byCheckpoint (f : Change → Bool) (changes : List Change) :
    latest? ((byCheckpoint changes).filter f) = latest? (changes.filter f) := by
  induction changes with
  | nil => simp [byCheckpoint]
  | cons c changes ih =>
    obtain ⟨older, others, hcons, hrest, holder⟩ := exists_byCheckpoint_cons c changes
    rw [hrest, List.filter_append, latest?_append] at ih
    rw [hcons, List.filter_append, latest?_append]
    by_cases hc : f c
    · have hfiltered : ∀ d ∈ latest? (older.filter f), d.checkpoint < c.checkpoint := fun d hd =>
        holder d (List.mem_filter.1 (mem_of_latest? hd)).1
      rw [List.filter_cons_of_pos hc, List.filter_cons_of_pos hc, latest?, latest?,
        later_left_comm hfiltered, ih]
    · rw [List.filter_cons_of_neg hc, List.filter_cons_of_neg hc, ih]

theorem getLast?_of_ordered {changes : List Change} (h : Ordered changes) :
    changes.getLast? = latest? changes := by
  cases changes using List.reverseRecOn with
  | nil => rfl
  | append_singleton init c => rw [latest?_of_ordered h, List.getLast?_concat]

/-- The last change to a key, by checkpoint, is the latest one. -/
theorem getLast?_changesTo_byCheckpoint (key : Key) (changes : List Change) :
    (changesTo key (byCheckpoint changes)).getLast? = latestTo? key changes := by
  have hordered : Ordered (changesTo key (byCheckpoint changes)) :=
    (ordered_byCheckpoint changes).filter _
  rw [getLast?_of_ordered hordered]
  exact latest?_filter_byCheckpoint _ changes

/-! ## Messages about a key -/

namespace Push

/-- What a key column is in a message. -/
def column? : Option Json → Option (Option String)
  | some .null => some none
  | some (.string s) => some (some s)
  | _ => none

/-- The key that a message is about, if it is about a change. -/
def key? (p : Push) : Option Key :=
  match p.topic, p.table, column? (p.data.get? "key1"), column? (p.data.get? "key2") with
  | .change, some name, some key1, some key2 => some ⟨name, key1, key2⟩
  | _, _, _, _ => none

theorem changeData_eq (c : Change) :
    changeData c = .object [("is_removed", .bool c.isRemove),
      ("key1", .ofOption .string c.key.key1), ("key2", .ofOption .string c.key.key2),
      ("value", c.value.getD .null)] := by
  simp [changeData, Json.ofMembers, Json.insertMember, show ¬ "key2" < "key1" by decide,
    show ¬ "value" < "key1" by decide, show ¬ "value" < "key2" by decide,
    show "is_removed" < "key1" by decide]

theorem column?_ofOption (column : Option String) :
    column? (some (.ofOption .string column)) = some column := by
  cases column <;> rfl

@[simp] theorem isRemoved_ofChange (c : Change) :
    (ofChange c).data.get? "is_removed" = some (.bool c.isRemove) := by
  simp [ofChange, changeData_eq, Json.get?, Json.member?]

@[simp] theorem value_ofChange (c : Change) :
    (ofChange c).data.get? "value" = some (c.value.getD .null) := by
  simp [ofChange, changeData_eq, Json.get?, Json.member?]

@[simp] theorem key?_ofChange (c : Change) : (ofChange c).key? = some c.key := by
  simp [key?, ofChange, changeData_eq, Json.get?, Json.member?, column?_ofOption]

@[simp] theorem key?_ofEvent (e : EventRecord) : (ofEvent e).key? = none := rfl

/-- The last of some messages that is about a key. -/
def lastAbout? (key : Key) (messages : List Push) : Option Push :=
  (messages.filter fun p => p.key? = some key).getLast?

/-- The last message about a key is the one for the latest change to it. -/
theorem lastAbout?_messages (key : Key) (b : Batch) :
    lastAbout? key b.messages = (latestTo? key b.changes).map ofChange := by
  have hevents : (b.events.map ofEvent).filter (fun p => p.key? = some key) = [] := by
    simp [List.filter_eq_nil_iff]
  have hchanges : ((byCheckpoint b.changes).map ofChange).filter (fun p => p.key? = some key) =
      (changesTo key (byCheckpoint b.changes)).map ofChange := by
    rw [List.filter_map, changesTo]
    simp [Function.comp_def]
  have hmessages : b.messages = b.events.map ofEvent ++ (byCheckpoint b.changes).map ofChange := rfl
  rw [lastAbout?, hmessages, List.filter_append, hevents, hchanges, List.nil_append,
    List.getLast?_map, getLast?_changesTo_byCheckpoint]

end Push

/-! ## Agreement with the store -/

/-- How the last message about a key agrees with the row of the key before and after the changes of
a batch. -/
inductive Agrees (key : Key) (changes : List Change) (p : Push) (before after : Option Row) : Prop
  /-- the row shows what the message says -/
  | shown {r} : after = some r → r.checkpoint = p.checkpoint →
      p.data.get? "is_removed" = some (.bool r.isRemoved) →
      (r.isRemoved = false → p.data.get? "value" = some r.value) → Agrees key changes p before after
  /-- the row was newer, and stays -/
  | newer {r} : before = some r → after = some r → p.checkpoint < r.checkpoint →
      Agrees key changes p before after
  /-- the row was set at the same checkpoint before, and stays -/
  | tied {r} : before = some r → after = some r → r.checkpoint = p.checkpoint →
      p.data.get? "is_removed" = some (.bool false) → Agrees key changes p before after
  /-- there is nothing to remove -/
  | absent : before = none → after = none → (∀ c ∈ changes, c.key = key → c.isRemove) →
      Agrees key changes p before after

namespace Memory

/-- A row that is past the latest change to its key stays as it is. -/
theorem row?_commit_of_isPast {m : Memory} {now : Int} {indexer : String} {b : Batch} {key : Key}
    {r : Row} {top : Change} (hr : m.row? key = some r) (ht : latestTo? key b.changes = some top)
    (hpast : r.IsPast top) : (m.commit now indexer b).2.row? key = some r := by
  obtain ⟨id, hid⟩ := exists_row?_commit m now indexer b key
  have hset : afterSet id (some r) (latestSetTo? key b.changes) = some r := by
    cases hs : latestSetTo? key b.changes with
    | none => rfl
    | some s =>
      have hle := UInt64.le_trans (checkpoint_latestSetTo?_le hs ht) hpast.le
      have hpast' : r.IsPast s := Row.isPast_of_le (mem_of_latestSetTo? hs).2.2 hle
      rw [afterSet, Option.elim_some, hpast'.set_eq]
  rw [hid, hr, hset, ht, afterRemove]
  split
  · rename_i hrem
    rw [Option.map_some, hpast.remove_eq hrem]
  · rfl

/-- A row that shows a change shows what the message for the change says. -/
theorem agrees_of_standing {key : Key} {changes : List Change} {top : Change}
    {before after : Option Row} (h : after.map (·.standing) = some (.ofChange top)) :
    Agrees key changes (.ofChange top) before after := by
  obtain ⟨r, hr, hstanding⟩ := Option.map_eq_some_iff.1 h
  have hcheckpoint : r.checkpoint = top.checkpoint := congrArg Standing.checkpoint hstanding
  have hlive : (if r.isRemoved then none else some r.value) = top.value :=
    congrArg Standing.live hstanding
  cases hrem : r.isRemoved with
  | true =>
    rw [hrem, if_pos rfl] at hlive
    refine .shown hr hcheckpoint ?_ fun hnot => ?_
    · simp [hrem, Change.isRemove, ← hlive]
    · rw [hrem] at hnot
      cases hnot
  | false =>
    rw [hrem, if_neg (by simp)] at hlive
    refine .shown hr hcheckpoint ?_ fun _ => ?_
    · simp [hrem, Change.isRemove, ← hlive]
    · simp [← hlive]

/-- **What subscribers are told agrees with what is stored.**  There is a last message about each
key that a batch changes, and the row of the key agrees with it. -/
theorem agrees_lastAbout (m : Memory) (now : Int) (indexer : String) (b : Batch) {key : Key}
    (hkey : key ∈ b.changes.map (·.key)) :
    ∃ p, Push.lastAbout? key b.messages = some p ∧
      Agrees key b.changes p (m.row? key) ((m.commit now indexer b).2.row? key) := by
  obtain ⟨c, hc, hck⟩ := List.mem_map.1 hkey
  have hsome : (latestTo? key b.changes).isSome := by
    rw [Option.isSome_iff_ne_none, latestTo?, Ne, latest?_eq_none]
    exact List.ne_nil_of_mem (mem_changesTo.2 ⟨hc, hck⟩)
  obtain ⟨top, ht⟩ := Option.isSome_iff_exists.1 hsome
  refine ⟨.ofChange top, by rw [Push.lastAbout?_messages, ht]; rfl, ?_⟩
  have hstanding := standing_commit m now indexer b key
  cases hr : m.row? key with
  | none =>
    rw [hr, Option.map_none, settle_none ht] at hstanding
    by_cases hall : (changesTo key b.changes).all (·.isRemove)
    · rw [if_pos hall, Option.map_eq_none_iff] at hstanding
      refine .absent rfl hstanding fun d hd hdk => ?_
      exact List.all_eq_true.1 hall d (mem_changesTo.2 ⟨hd, hdk⟩)
    · rw [if_neg hall] at hstanding
      exact agrees_of_standing hstanding
  | some r =>
    rw [hr, Option.map_some, settle_some ht] at hstanding
    split at hstanding
    · exact agrees_of_standing hstanding
    · rename_i hguard
      -- the guard of the store holds the latest change back, so the row is past it
      have hle : top.checkpoint ≤ r.checkpoint :=
        UInt64.not_lt.1 fun hlt => hguard (Or.inl hlt)
      rcases UInt64.lt_or_eq_of_le hle with hlt | heq
      · exact .newer rfl (row?_commit_of_isPast hr ht (Or.inl hlt)) hlt
      · have hset : top.isRemove = false := by
          by_contra hrem
          exact hguard (Or.inr ⟨heq.symm, by simpa using hrem⟩)
        have hpast : r.IsPast top := Row.isPast_of_le hset hle
        exact .tied rfl (row?_commit_of_isPast hr ht hpast) heq.symm (by simp [hset])

/-! ### A page out of order -/

/-- A set, a removal of the same row that is older, and a removal that meets no row. -/
def disordered : Batch :=
  { Batch.empty with
    events := [⟨"0x1", 8, "a", "stock", "stock_event", .null, 0⟩]
    changes := [changeOf "stock" (some (.bool true)) 9 "b", changeOf "offer" none 8 "a",
      changeOf "stock" none 8 "a"] }

theorem agrees_lastAbout_disordered :
    Key.singleton "stock" ∈ disordered.changes.map (·.key) ∧
      (Push.lastAbout? (.singleton "stock") disordered.messages).map (·.checkpoint) = some 9 ∧
      ∃ p, Push.lastAbout? (.singleton "stock") disordered.messages = some p ∧
        Agrees (.singleton "stock") disordered.changes p (stocked.row? (.singleton "stock"))
          ((stocked.commit 1 "default" disordered).2.row? (.singleton "stock")) := by
  have hkey : Key.singleton "stock" ∈ disordered.changes.map (·.key) := by decide
  exact ⟨hkey, by cbv, agrees_lastAbout stocked 1 "default" disordered hkey⟩

end Memory

end LedgerIndex
