import LedgerIndex.Proofs.Store.Replay
import LedgerIndex.Proofs.Store.Standing

/-!
# Batches in either order

A ledger may serve a page from behind the cursor, so an older batch can reach a store after a newer
one.  Two batches that do not meet at a checkpoint leave a row standing alike in either order: the
newest change of both has the last word, since each is held against the checkpoint of the row.  But
there has to be a row.  A removal leaves no trace where there is none, so it is forgotten when a set
that is older comes after it (`Forgets`); that is the only case in which the order can be seen
(`settle_comm_iff`).
-/

namespace LedgerIndex

/-! ## Over a row -/

namespace Standing

/-- The standing after a page, by the latest change of the page. -/
def after (s : Standing) (top : Change) : Standing :=
  if s.checkpoint < top.checkpoint ∨ (s.checkpoint = top.checkpoint ∧ top.isRemove) then
    .ofChange top
  else s

variable {s : Standing} {top older newer : Change}

theorem after_of_lt (h : s.checkpoint < top.checkpoint) : s.after top = .ofChange top :=
  if_pos (.inl h)

theorem after_of_gt (h : top.checkpoint < s.checkpoint) : s.after top = s := by
  refine if_neg ?_
  rintro (hlt | ⟨heq, -⟩)
  · exact UInt64.lt_asymm h hlt
  · exact UInt64.lt_irrefl _ (heq ▸ h)

/-- An older change makes no difference to what a newer one leaves. -/
theorem after_older_newer (s : Standing) (h : older.checkpoint < newer.checkpoint) :
    (s.after older).after newer = s.after newer := by
  rw [after.eq_def s older]
  split
  · rename_i hold
    have hle : s.checkpoint ≤ older.checkpoint :=
      hold.elim UInt64.le_of_lt fun heq => UInt64.le_of_eq heq.1
    rw [after_of_lt h, after_of_lt (UInt64.lt_of_le_of_lt hle h)]
  · rfl

/-- Neither does it come after the newer one. -/
theorem after_newer_older (s : Standing) (h : older.checkpoint < newer.checkpoint) :
    (s.after newer).after older = s.after newer := by
  apply after_of_gt
  rw [after]
  split
  · exact h
  · rename_i hkept
    have hle : newer.checkpoint ≤ s.checkpoint := UInt64.not_lt.1 fun hlt => hkept (.inl hlt)
    exact UInt64.lt_of_lt_of_le h hle

theorem after_comm (s : Standing) {c d : Change} (h : c.checkpoint ≠ d.checkpoint) :
    (s.after c).after d = (s.after d).after c := by
  rcases UInt64.lt_or_lt_of_ne h with hlt | hlt
  · rw [after_older_newer s hlt, after_newer_older s hlt]
  · rw [after_older_newer s hlt, after_newer_older s hlt]

end Standing

theorem settle_some_eq {changes : List Change} {top : Change} (h : latest? changes = some top)
    (s : Standing) : settle (some s) changes = some (s.after top) := settle_some h s

theorem exists_latest? {changes : List Change} (h : changes ≠ []) :
    ∃ top, latest? changes = some top := by
  cases ht : latest? changes with
  | none => exact absurd (latest?_eq_none.1 ht) h
  | some top => exact ⟨top, rfl⟩

/-! ## Two pages -/

/-- No change of one page has the checkpoint of a change of the other. -/
def NoTies (a b : List Change) : Prop := ∀ c ∈ a, ∀ d ∈ b, c.checkpoint ≠ d.checkpoint

/-- Where there is no row, one page has nothing but removals, one of them newer than all changes of
the other page, and that has a set. -/
structure Forgets (before : Option Standing) (removals others : List Change) : Prop where
  absent : before = none
  remove : ∀ r ∈ removals, r.isRemove
  set : ∃ s ∈ others, s.isRemove = false
  newest : ∃ r ∈ removals, ∀ c ∈ others, c.checkpoint < r.checkpoint

variable {before : Option Standing} {a b : List Change} {c d : Change}

theorem NoTies.symm (h : NoTies a b) : NoTies b a := fun c hc d hd => (h d hd c hc).symm

theorem NoTies.latest (h : NoTies a b) (hc : latest? a = some c) (hd : latest? b = some d) :
    c.checkpoint ≠ d.checkpoint :=
  h c (mem_of_latest? hc) d (mem_of_latest? hd)

/-- A page has a change that is newer than all of another if its latest change is newer. -/
theorem exists_newest_iff (hc : latest? a = some c) (hd : latest? b = some d) :
    (∃ r ∈ a, ∀ e ∈ b, e.checkpoint < r.checkpoint) ↔ d.checkpoint < c.checkpoint := by
  constructor
  · rintro ⟨r, hr, hnewest⟩
    exact UInt64.lt_of_lt_of_le (hnewest d (mem_of_latest? hd)) (checkpoint_le_of_latest? hc hr)
  · intro h
    exact ⟨c, mem_of_latest? hc, fun e he =>
      UInt64.lt_of_le_of_lt (checkpoint_le_of_latest? hd he) h⟩

theorem not_forgets_of_all (hb : b.all (·.isRemove)) : ¬ Forgets before a b := by
  rintro ⟨-, -, ⟨s, hs, hset⟩, -⟩
  have hrem := List.all_eq_true.1 hb s hs
  rw [hset] at hrem
  cases hrem

theorem not_forgets_of_not_all (ha : ¬ a.all (·.isRemove)) : ¬ Forgets before a b :=
  fun h => ha (List.all_eq_true.2 h.remove)

/-- Where there is no row, a page of removals against a page with a set. -/
theorem forgets_iff (ha : a.all (·.isRemove)) (hb : ¬ b.all (·.isRemove))
    (hc : latest? a = some c) (hd : latest? b = some d) :
    Forgets none a b ↔ d.checkpoint < c.checkpoint := by
  have hset : ∃ s ∈ b, s.isRemove = false := by simpa using hb
  rw [← exists_newest_iff hc hd]
  exact ⟨Forgets.newest, fun h => ⟨rfl, List.all_eq_true.1 ha, hset, h⟩⟩

/-- Where there is no row, removals first leave no trace, and removals second are held against the
row that the other page made. -/
theorem settle_removals (ha : a.all (·.isRemove)) (hb : ¬ b.all (·.isRemove))
    (hc : latest? a = some c) (hd : latest? b = some d) :
    settle (settle none a) b = some (.ofChange d) ∧
      settle (settle none b) a = some ((Standing.ofChange d).after c) := by
  rw [settle_none hc, if_pos ha, settle_none hd, if_neg hb, settle_some_eq hc]
  exact ⟨rfl, rfl⟩

/-- The orders agree unless the removal is the newer change. -/
theorem settle_removals_comm_iff (h : NoTies a b) (ha : a.all (·.isRemove))
    (hb : ¬ b.all (·.isRemove)) (hc : latest? a = some c) (hd : latest? b = some d) :
    settle (settle none a) b = settle (settle none b) a ↔ ¬ Forgets none a b := by
  obtain ⟨hfirst, hsecond⟩ := settle_removals ha hb hc hd
  rw [hfirst, hsecond, forgets_iff ha hb hc hd, Option.some.injEq]
  rcases UInt64.lt_or_lt_of_ne (h.latest hc hd) with hlt | hlt
  · rw [Standing.after_of_gt hlt]
    exact iff_of_true rfl (UInt64.lt_asymm hlt)
  · rw [Standing.after_of_lt hlt]
    refine iff_of_false (fun heq => ?_) (not_not.2 hlt)
    exact h.latest hc hd (congrArg Standing.checkpoint heq).symm

/-- Pages without ties leave a row standing alike in either order, unless a removal is forgotten. -/
theorem settle_comm_iff (h : NoTies a b) :
    settle (settle before a) b = settle (settle before b) a ↔
      ¬ Forgets before a b ∧ ¬ Forgets before b a := by
  by_cases ha : a = []
  · subst ha
    exact iff_of_true rfl ⟨fun hf => by simpa using hf.newest, not_forgets_of_all rfl⟩
  by_cases hb : b = []
  · subst hb
    exact iff_of_true rfl ⟨not_forgets_of_all rfl, fun hf => by simpa using hf.newest⟩
  obtain ⟨c, hc⟩ := exists_latest? ha
  obtain ⟨d, hd⟩ := exists_latest? hb
  have hne := h.latest hc hd
  cases before with
  | some s =>
    rw [settle_some_eq hc, settle_some_eq hd, settle_some_eq hd, settle_some_eq hc,
      Standing.after_comm s hne]
    exact iff_of_true rfl ⟨fun hf => (nomatch hf.absent), fun hf => (nomatch hf.absent)⟩
  | none =>
    by_cases hac : a.all (·.isRemove) <;> by_cases hbd : b.all (·.isRemove)
    · rw [settle_none hc, settle_none hd, if_pos hac, if_pos hbd, settle_none hc, settle_none hd,
        if_pos hac, if_pos hbd]
      exact iff_of_true rfl ⟨not_forgets_of_all hbd, not_forgets_of_all hac⟩
    · rw [settle_removals_comm_iff h hac hbd hc hd]
      exact (and_iff_left (not_forgets_of_all hac)).symm
    · rw [eq_comm, settle_removals_comm_iff h.symm hbd hac hd hc]
      exact (and_iff_right (not_forgets_of_all hbd)).symm
    · rw [settle_none hc, settle_none hd, if_neg hac, if_neg hbd, settle_some_eq hd,
        settle_some_eq hc, Option.some.injEq]
      refine iff_of_true ?_ ⟨not_forgets_of_not_all hac, not_forgets_of_not_all hbd⟩
      rcases UInt64.lt_or_lt_of_ne hne with hlt | hlt
      · rw [Standing.after_of_lt hlt, Standing.after_of_gt hlt]
      · rw [Standing.after_of_gt hlt, Standing.after_of_lt hlt]

/-- What the two orders leave where a removal is forgotten. -/
theorem Forgets.settle (h : Forgets before a b) :
    ∃ r ∈ latest? a, ∃ d ∈ latest? b, r.isRemove ∧
      LedgerIndex.settle (LedgerIndex.settle before a) b = some (.ofChange d) ∧
      LedgerIndex.settle (LedgerIndex.settle before b) a = some (.ofChange r) := by
  obtain ⟨rfl, hrem, ⟨s, hs, hset⟩, ⟨r, hr, hnewest⟩⟩ := h
  obtain ⟨c, hc⟩ := exists_latest? (List.ne_nil_of_mem hr)
  obtain ⟨d, hd⟩ := exists_latest? (List.ne_nil_of_mem hs)
  have ha : a.all (·.isRemove) := List.all_eq_true.2 hrem
  have hb : ¬ b.all (·.isRemove) := by simpa using ⟨s, hs, hset⟩
  have hlt : d.checkpoint < c.checkpoint := (exists_newest_iff hc hd).1 ⟨r, hr, hnewest⟩
  obtain ⟨hfirst, hsecond⟩ := settle_removals ha hb hc hd
  rw [Standing.after_of_lt hlt] at hsecond
  exact ⟨c, hc, d, hd, hrem c (mem_of_latest? hc), hfirst, hsecond⟩

/-! ## Two batches -/

namespace Memory

/-- The removals of a key in one batch are forgotten if the other batch comes after them. -/
def Forgets (m : Memory) (key : Key) (removals others : Batch) : Prop :=
  LedgerIndex.Forgets ((m.row? key).map (·.standing)) (changesTo key removals.changes)
    (changesTo key others.changes)

/-- **The newest change wins in either order**, unless a removal is forgotten.  Two batches that
share no checkpoint for a key leave its row standing alike; and a removal that was forgotten leaves
the row to the latest change of the other batch, which in the other order it would have ended. -/
theorem standing_commit_comm (m : Memory) {a b : Batch} (t u t' u' : Int) (i j : String)
    (distinct : ∀ c ∈ a.changes, ∀ d ∈ b.changes, c.key = d.key → c.checkpoint ≠ d.checkpoint)
    (key : Key) :
    let ab := ((m.commit t i a).2.commit u j b).2
    let ba := ((m.commit t' j b).2.commit u' i a).2
    ((ab.row? key).map (·.standing) = (ba.row? key).map (·.standing) ↔
        ¬ m.Forgets key a b ∧ ¬ m.Forgets key b a) ∧
      (m.Forgets key a b →
        ∃ r ∈ latestTo? key a.changes, ∃ d ∈ latestTo? key b.changes, r.isRemove ∧
          (ab.row? key).map (·.standing) = some (.ofChange d) ∧
          (ba.row? key).map (·.standing) = some (.ofChange r)) := by
  intro ab ba
  have hties : NoTies (changesTo key a.changes) (changesTo key b.changes) := by
    intro c hc d hd
    obtain ⟨hc, hck⟩ := mem_changesTo.1 hc
    obtain ⟨hd, hdk⟩ := mem_changesTo.1 hd
    exact distinct c hc d hd (hck.trans hdk.symm)
  rw [standing_commit, standing_commit, standing_commit, standing_commit]
  exact ⟨settle_comm_iff hties, LedgerIndex.Forgets.settle⟩

/-! ### A removal that is forgotten -/

/-- A set of a row that is there, and sets of two that are not. -/
def behind : Batch :=
  { Batch.empty with
    changes := [changeOf "stock" (some .null) 6 "b", changeOf "price" (some (.bool true)) 8 "c",
      changeOf "offer" (some .null) 6 "b"] }

/-- Removals of two of these rows, and a set of the third that is older. -/
def ahead : Batch :=
  { Batch.empty with
    changes := [changeOf "stock" none 9 "e", changeOf "price" (some (.bool false)) 7 "d",
      changeOf "offer" none 9 "e"] }

/-- What the row of a table without key columns shows. -/
def shownOf (m : Memory) (name : String) : Option (UInt64 × String × Bool) :=
  (m.row? (.singleton name)).map fun r => (r.checkpoint, r.digest, r.isRemoved)

/-- The offer is live if its removal comes before the set that is older, and removed if it comes
after it. -/
theorem offer_shownOf_forgotten :
    (behind.changes ++ ahead.changes).Pairwise
        (fun c d => c.key = d.key → c.checkpoint ≠ d.checkpoint) ∧
      ((stocked.commit 1 "default" ahead).2.commit 2 "default" behind).2.shownOf "offer" =
        some (6, "b", false) ∧
      ((stocked.commit 1 "default" behind).2.commit 2 "default" ahead).2.shownOf "offer" =
        some (9, "e", true) :=
  ⟨by decide, by cbv, by cbv⟩

theorem standing_commit_comm_stocked :
    (∀ c ∈ ahead.changes, ∀ d ∈ behind.changes, c.key = d.key → c.checkpoint ≠ d.checkpoint) ∧
      stocked.Forgets (.singleton "offer") ahead behind ∧
      let ab := ((stocked.commit 1 "default" ahead).2.commit 2 "default" behind).2
      let ba := ((stocked.commit 1 "default" behind).2.commit 2 "default" ahead).2
      (ab.row? (.singleton "stock")).map (·.standing) =
          (ba.row? (.singleton "stock")).map (·.standing) ∧
        (ab.row? (.singleton "price")).map (·.standing) =
          (ba.row? (.singleton "price")).map (·.standing) ∧
        (ab.row? (.singleton "offer")).map (·.standing) ≠
          (ba.row? (.singleton "offer")).map (·.standing) := by
  have distinct : ∀ c ∈ ahead.changes, ∀ d ∈ behind.changes,
      c.key = d.key → c.checkpoint ≠ d.checkpoint := by decide
  have forgotten : stocked.Forgets (.singleton "offer") ahead behind :=
    ⟨by decide, by decide, by decide, by decide⟩
  have hrows := standing_commit_comm stocked 1 2 1 2 "default" "default" distinct
  refine ⟨distinct, forgotten, ?_, ?_, ?_⟩
  · refine (hrows (.singleton "stock")).1.2 ⟨fun h => ?_, fun h => ?_⟩
    · exact absurd h.absent (by decide)
    · exact absurd h.absent (by decide)
  · refine (hrows (.singleton "price")).1.2 ⟨fun h => ?_, fun h => ?_⟩
    · exact absurd h.remove (by decide)
    · exact absurd h.remove (by decide)
  · exact fun heq => ((hrows (.singleton "offer")).1.1 heq).1 forgotten

end Memory

end LedgerIndex
