import LedgerIndex.Proofs.Store.Rows
import Mathlib.Data.List.TakeWhile

/-!
# How a row stands

Apart from its id, a row is known to a reader by the checkpoint and the digest of the change that
it shows, and by its value while it is live.  A batch moves this standing in one step (`settle`),
and pages stored one after the other move it once for each page.  Where the pages are in the order
of checkpoints, the standing always shows one of the changes from the first set on, and one of the
last checkpoint among them.
-/

namespace LedgerIndex

/-! ## Standings -/

/-- What a row shows. -/
structure Standing where
  checkpoint : UInt64
  digest : String
  /-- the value; nothing once the row is removed -/
  live : Option Json

/-- The standing right after a change was written. -/
def Standing.ofChange (c : Change) : Standing := ⟨c.checkpoint, c.digest, c.value⟩

/-- How a row stands. -/
def Row.standing (r : Row) : Standing :=
  ⟨r.checkpoint, r.digest, if r.isRemoved then none else some r.value⟩

/-- How a row stands after the changes of one page to it.  Only the latest of them can come to be
shown; a removal needs a checkpoint that is not lower, a set one that is higher, and where there is
no row there has to be a set to make one. -/
def settle (before : Option Standing) (changes : List Change) : Option Standing :=
  match latest? changes, before with
  | none, _ => before
  | some top, none => if changes.all (·.isRemove) then none else some (.ofChange top)
  | some top, some s =>
    if s.checkpoint < top.checkpoint ∨ (s.checkpoint = top.checkpoint ∧ top.isRemove) then
      some (.ofChange top)
    else some s

@[simp] theorem settle_nil (before : Option Standing) : settle before [] = before := rfl

theorem settle_none {changes : List Change} {top : Change} (h : latest? changes = some top) :
    settle none changes =
      if changes.all (·.isRemove) then none else some (.ofChange top) := by
  simp only [settle, h]

theorem settle_some {changes : List Change} {top : Change} (h : latest? changes = some top)
    (s : Standing) : settle (some s) changes =
      some (if s.checkpoint < top.checkpoint ∨ (s.checkpoint = top.checkpoint ∧ top.isRemove) then
        .ofChange top else s) := by
  simp only [settle, h]
  split <;> rfl

theorem Change.value_eq_none {c : Change} (h : c.isRemove) : c.value = none := by
  simpa [isRemove] using h

theorem Change.exists_value {c : Change} (h : c.isRemove = false) : ∃ v, c.value = some v :=
  Option.isSome_iff_exists.1 (by simpa [isRemove] using h)

namespace Row

@[simp] theorem checkpoint_standing (r : Row) : r.standing.checkpoint = r.checkpoint := rfl

theorem standing_create (id : Int) {c : Change} (h : c.isRemove = false) :
    (create id c).standing = .ofChange c := by
  obtain ⟨v, hv⟩ := Change.exists_value h
  simp [standing, create, Standing.ofChange, hv]

theorem standing_set (r : Row) {c : Change} (h : c.isRemove = false) :
    (r.set c).standing =
      if r.checkpoint < c.checkpoint then .ofChange c else r.standing := by
  obtain ⟨v, hv⟩ := Change.exists_value h
  rw [set]
  split <;> simp [standing, Standing.ofChange, hv]

theorem standing_remove (r : Row) {c : Change} (h : c.isRemove) :
    (r.remove c).standing =
      if r.checkpoint ≤ c.checkpoint then .ofChange c else r.standing := by
  rw [remove]
  split <;> simp [standing, Standing.ofChange, Change.value_eq_none h]

end Row

/-! ## Pages -/

theorem latestSetTo?_eq_none_iff {key : Key} {changes : List Change} :
    latestSetTo? key changes = none ↔ (changesTo key changes).all (·.isRemove) := by
  rw [latestSetTo?, latest?_eq_none, List.filter_eq_nil_iff, List.all_eq_true]
  simp

theorem not_all_isRemove {key : Key} {changes : List Change} {s : Change}
    (h : latestSetTo? key changes = some s) : ¬ (changesTo key changes).all (·.isRemove) := by
  rw [← latestSetTo?_eq_none_iff, h]
  simp

namespace Memory

/-- A page that ends in a set of the key. -/
theorem standing_afterSet (id : Int) (before : Option Row) {key : Key} {changes : List Change}
    {top : Change} (ht : latestTo? key changes = some top) (hset : top.isRemove = false) :
    (afterSet id before (some top)).map (·.standing) =
      settle (before.map (·.standing)) (changesTo key changes) := by
  have hall := not_all_isRemove (latestSetTo?_of_latestTo? ht hset)
  cases before with
  | none => simp [settle_none ht, afterSet, hall, Row.standing_create id hset]
  | some r => simp [settle_some ht, afterSet, hset, Row.standing_set r hset]

/-- A page that ends in a removal of the key. -/
theorem standing_afterRemove (id : Int) (before : Option Row) {key : Key} {changes : List Change}
    {top : Change} (ht : latestTo? key changes = some top) (hrem : top.isRemove) :
    (afterRemove (afterSet id before (latestSetTo? key changes)) (some top)).map (·.standing) =
      settle (before.map (·.standing)) (changesTo key changes) := by
  have hle_iff (a b : UInt64) : a ≤ b ↔ a < b ∨ a = b := by
    rw [UInt64.le_iff_toNat_le, UInt64.lt_iff_toNat_lt, ← UInt64.toNat_inj]
    omega
  rw [afterRemove, if_pos hrem]
  cases hs : latestSetTo? key changes with
  | none =>
    have hall := latestSetTo?_eq_none_iff.1 hs
    cases before with
    | none => simp [settle_none ht, afterSet, hall]
    | some r =>
      simp [settle_some ht, afterSet, Row.standing_remove r hrem, hrem, hle_iff]
  | some s =>
    obtain ⟨-, -, hsv⟩ := mem_of_latestSetTo? hs
    have hle : s.checkpoint ≤ top.checkpoint := checkpoint_latestSetTo?_le hs ht
    have hall := not_all_isRemove hs
    cases before with
    | none => simp [settle_none ht, afterSet, hall, Row.standing_remove _ hrem, Row.create, hle]
    | some r =>
      simp only [settle_some ht, afterSet, Option.elim_some, Option.map_some, remove_set hle,
        Row.checkpoint_standing, hrem, and_true, ← hle_iff]
      split <;> simp [Row.standing, Standing.ofChange, Change.value_eq_none hrem]

/-- A commit moves the standing of a row by the changes to its key. -/
theorem standing_commit (m : Memory) (now : Int) (indexer : String) (b : Batch) (key : Key) :
    ((m.commit now indexer b).2.row? key).map (·.standing) =
      settle ((m.row? key).map (·.standing)) (changesTo key b.changes) := by
  obtain ⟨id, hid⟩ := exists_row?_commit m now indexer b key
  rw [hid]
  cases ht : latestTo? key b.changes with
  | none =>
    have hnil := latest?_eq_none.1 ht
    simp [latestSetTo?, hnil, afterSet, afterRemove]
  | some top =>
    cases htop : top.isRemove with
    | true => exact standing_afterRemove id _ ht htop
    | false =>
      rw [latestSetTo?_of_latestTo? ht htop, afterRemove, htop]
      exact standing_afterSet id _ ht htop

end Memory

/-! ## Changes from the first set on -/

/-- The changes from the first set on.  Removals before it find no row. -/
def fromFirstSet (changes : List Change) : List Change := changes.dropWhile (·.isRemove)

theorem fromFirstSet_eq_nil {changes : List Change} :
    fromFirstSet changes = [] ↔ changes.all (·.isRemove) := by
  rw [fromFirstSet, List.dropWhile_eq_nil_iff, List.all_eq_true]

theorem mem_of_mem_fromFirstSet {changes : List Change} {d : Change}
    (h : d ∈ fromFirstSet changes) : d ∈ changes :=
  (List.dropWhile_sublist _).subset h

theorem fromFirstSet_append_of_nil {l : List Change} (h : fromFirstSet l = []) (r : List Change) :
    fromFirstSet (l ++ r) = fromFirstSet r := by
  rw [fromFirstSet] at h
  rw [fromFirstSet, List.dropWhile_append, h]
  rfl

theorem fromFirstSet_append_of_ne {l : List Change} (h : fromFirstSet l ≠ []) (r : List Change) :
    fromFirstSet (l ++ r) = fromFirstSet l ++ r := by
  rw [fromFirstSet] at h
  rw [fromFirstSet, List.dropWhile_append, if_neg (by simpa using h)]
  rfl

/-- Unless all changes are removals, the last one comes after the first set or is it. -/
theorem getLast?_fromFirstSet {changes : List Change} (h : fromFirstSet changes ≠ []) :
    (fromFirstSet changes).getLast? = changes.getLast? := by
  cases changes using List.reverseRecOn with
  | nil => rfl
  | append_singleton init c =>
    by_cases hinit : fromFirstSet init = []
    · rw [fromFirstSet_append_of_nil hinit] at h ⊢
      have hc : ¬ c.isRemove := by simpa [fromFirstSet_eq_nil] using h
      simp [fromFirstSet, hc]
    · rw [fromFirstSet_append_of_ne hinit]
      simp

/-! ## Pages one after the other -/

/-- How a row stands after pages of changes to it, where there was none before. -/
def settleAll (pages : List (List Change)) : Option Standing := pages.foldl settle none

/-- The checkpoints go up. -/
def Ordered (changes : List Change) : Prop := changes.Pairwise (·.checkpoint ≤ ·.checkpoint)

theorem Ordered.left {l r : List Change} (h : Ordered (l ++ r)) : Ordered l :=
  (List.pairwise_append.1 h).1

theorem Ordered.right {l r : List Change} (h : Ordered (l ++ r)) : Ordered r :=
  (List.pairwise_append.1 h).2.1

theorem Ordered.le {l r : List Change} (h : Ordered (l ++ r)) {c d : Change} (hc : c ∈ l)
    (hd : d ∈ r) : c.checkpoint ≤ d.checkpoint :=
  (List.pairwise_append.1 h).2.2 c hc d hd

/-- The standing that the last change leaves, if there is a set among the changes. -/
def lastWord (changes : List Change) : Option Standing :=
  (fromFirstSet changes).getLast?.map .ofChange

theorem latest?_of_ordered {init : List Change} {c : Change} (h : Ordered (init ++ [c])) :
    latest? (init ++ [c]) = some c :=
  latest?_append_cons (fun _ hd => h.le hd (by simp)) (by simp)

/-- In one page the last change has the last word. -/
theorem settle_none_of_ordered {changes : List Change} (h : Ordered changes) :
    settle none changes = lastWord changes := by
  cases changes using List.reverseRecOn with
  | nil => rfl
  | append_singleton init c =>
    rw [settle_none (latest?_of_ordered h), lastWord]
    split
    · rename_i hall
      rw [fromFirstSet_eq_nil.2 hall]
      rfl
    · rename_i hall
      rw [getLast?_fromFirstSet (by rwa [Ne, fromFirstSet_eq_nil])]
      simp

/-- The standing shows one of the changes from the first set on, and its checkpoint is the last.
Without a set there is none. -/
def Shows (changes : List Change) : Option Standing → Prop
  | none => fromFirstSet changes = []
  | some s => ∃ d ∈ fromFirstSet changes, s = .ofChange d ∧
      changes.getLast?.map (·.checkpoint) = some d.checkpoint

theorem Shows.checkpoint {changes : List Change} {o : Option Standing} (h : Shows changes o) :
    o.map (·.checkpoint) = (lastWord changes).map (·.checkpoint) := by
  rw [lastWord, Option.map_map]
  cases o with
  | none =>
    rw [show fromFirstSet changes = [] from h]
    rfl
  | some s =>
    obtain ⟨d, hd, rfl, hlast⟩ := h
    rw [getLast?_fromFirstSet (List.ne_nil_of_mem hd)]
    exact hlast.symm

theorem lastWord_append {changes : List Change} (h : fromFirstSet changes ≠ [])
    (init : List Change) (c : Change) :
    lastWord (changes ++ (init ++ [c])) = some (.ofChange c) := by
  rw [lastWord, fromFirstSet_append_of_ne h]
  simp

/-- A page over a row that shows an earlier change.  The row gives way to a set of a higher
checkpoint, and to any removal. -/
theorem settle_shown {changes init : List Change} {c d : Change}
    (ordered : Ordered (changes ++ (init ++ [c]))) (hd : d ∈ changes) :
    settle (some (.ofChange d)) (init ++ [c]) =
      some (.ofChange (if d.checkpoint < c.checkpoint ∨ c.isRemove then c else d)) := by
  have hle : d.checkpoint ≤ c.checkpoint := ordered.le hd (by simp)
  have hiff : (d.checkpoint < c.checkpoint ∨ (d.checkpoint = c.checkpoint ∧ c.isRemove)) ↔
      (d.checkpoint < c.checkpoint ∨ c.isRemove) := by
    refine ⟨Or.imp_right And.right, fun h => ?_⟩
    rcases UInt64.lt_or_eq_of_le hle with hlt | heq
    · exact Or.inl hlt
    · exact h.imp_right fun hrem => ⟨heq, hrem⟩
  rw [settle_some (latest?_of_ordered ordered.right)]
  simp only [show (Standing.ofChange d).checkpoint = d.checkpoint from rfl, hiff]
  split <;> rfl

/-- One page more keeps that the standing shows the last checkpoint. -/
theorem Shows.step {changes page : List Change} {before : Option Standing}
    (h : Shows changes before) (ordered : Ordered (changes ++ page)) :
    Shows (changes ++ page) (settle before page) := by
  cases page using List.reverseRecOn with
  | nil => simpa using h
  | append_singleton init c =>
    have hlast : (changes ++ (init ++ [c])).getLast?.map (·.checkpoint) = some c.checkpoint := by
      simp
    cases before with
    | none =>
      rw [settle_none_of_ordered ordered.right, lastWord]
      have hnil : fromFirstSet changes = [] := h
      by_cases hp : fromFirstSet (init ++ [c]) = []
      · rw [hp]
        exact (fromFirstSet_append_of_nil hnil _).trans hp
      · have hc : (fromFirstSet (init ++ [c])).getLast? = some c := by
          rw [getLast?_fromFirstSet hp]; simp
        rw [hc]
        refine ⟨c, ?_, rfl, hlast⟩
        rw [fromFirstSet_append_of_nil hnil]
        exact List.mem_of_getLast? hc
    | some s =>
      obtain ⟨d, hd, rfl, -⟩ := h
      have happ := fromFirstSet_append_of_ne (List.ne_nil_of_mem hd) (init ++ [c])
      have hmem := mem_of_mem_fromFirstSet hd
      rw [settle_shown ordered hmem]
      split
      · exact ⟨c, by rw [happ]; simp, rfl, hlast⟩
      · rename_i hkept
        -- the row is kept, so the page does not go beyond its checkpoint
        have heq : c.checkpoint = d.checkpoint := by
          have hlt : ¬ d.checkpoint < c.checkpoint := fun hlt => hkept (Or.inl hlt)
          exact UInt64.le_antisymm (UInt64.not_lt.1 hlt) (ordered.le hmem (by simp))
        exact ⟨d, by rw [happ]; exact List.mem_append_left _ hd, rfl, by rw [hlast, heq]⟩

theorem settleAll_append (pages : List (List Change)) (page : List Change) :
    settleAll (pages ++ [page]) = settle (settleAll pages) page := by
  simp [settleAll]

theorem shows_settleAll {pages : List (List Change)} (ordered : Ordered pages.flatten) :
    Shows pages.flatten (settleAll pages) := by
  induction pages using List.reverseRecOn with
  | nil => exact rfl
  | append_singleton pages page ih =>
    rw [List.flatten_append, List.flatten_singleton] at ordered ⊢
    rw [settleAll_append]
    exact (ih ordered.left).step ordered

/-! ## When the pages do not matter -/

/-- The last change is a removal, or no change of another transaction at its checkpoint comes
between the first set and it. -/
def Settled (changes : List Change) : Prop :=
  ∀ c ∈ changes.getLast?, c.isRemove ∨
    ∀ d ∈ fromFirstSet changes, d.checkpoint = c.checkpoint → d.digest = c.digest

instance (changes : List Change) : Decidable (Settled changes) :=
  inferInstanceAs (Decidable (∀ c ∈ changes.getLast?, _))

/-- Different pages are about different transactions. -/
def Apart (pages : List (List Change)) : Prop :=
  pages.Pairwise fun p q => ∀ c ∈ p, ∀ d ∈ q, c.digest ≠ d.digest

theorem Apart.digest_ne {pages : List (List Change)} {page : List Change}
    (h : Apart (pages ++ [page])) {c d : Change} (hc : c ∈ pages.flatten) (hd : d ∈ page) :
    c.digest ≠ d.digest := by
  obtain ⟨p, hp, hc⟩ := List.mem_flatten.1 hc
  exact (List.pairwise_append.1 h).2.2 p hp page (by simp) c hc d hd

/-- One page more of settled changes, where the last transaction is on that page only. -/
theorem Shows.settle_of_settled {changes init : List Change} {c : Change}
    {before : Option Standing} (hs : Shows changes before)
    (ordered : Ordered (changes ++ (init ++ [c]))) (apart : ∀ d ∈ changes, d.digest ≠ c.digest)
    (h : Settled (changes ++ (init ++ [c]))) :
    settle before (init ++ [c]) = lastWord (changes ++ (init ++ [c])) := by
  cases before with
  | none =>
    rw [settle_none_of_ordered ordered.right, lastWord, lastWord,
      fromFirstSet_append_of_nil hs]
  | some s =>
    obtain ⟨d, hd, rfl, -⟩ := hs
    have hne := List.ne_nil_of_mem hd
    have hmem := mem_of_mem_fromFirstSet hd
    rw [lastWord_append hne, settle_shown ordered hmem, if_pos]
    rcases h c (by simp) with hrem | hdigest
    · exact Or.inr hrem
    · refine Or.inl (UInt64.lt_of_le_of_ne (ordered.le hmem (by simp)) fun heq => ?_)
      -- a row at the checkpoint of the last change would show an earlier change of its
      -- transaction, which is on another page
      have hd' : d ∈ fromFirstSet (changes ++ (init ++ [c])) := by
        rw [fromFirstSet_append_of_ne hne]
        exact List.mem_append_left _ hd
      exact apart d hmem (hdigest d hd' heq)

/-- If the changes are settled, the last one has the last word, whatever the pages. -/
theorem settleAll_of_settled {pages : List (List Change)} (ordered : Ordered pages.flatten)
    (apart : Apart pages) (h : Settled pages.flatten) :
    settleAll pages = lastWord pages.flatten := by
  induction pages using List.reverseRecOn with
  | nil => rfl
  | append_singleton pages page ih =>
    rw [List.flatten_append, List.flatten_singleton] at ordered h ⊢
    rw [settleAll_append]
    cases page using List.reverseRecOn with
    | nil =>
      rw [List.append_nil] at h ⊢
      exact ih ordered.left (List.pairwise_append.1 apart).1 h
    | append_singleton init c =>
      exact (shows_settleAll ordered.left).settle_of_settled ordered
        (fun d hd => apart.digest_ne hd (by simp)) h

theorem Ordered.le_last {changes : List Change} (h : Ordered changes) {c d : Change}
    (hd : d ∈ changes) (hc : changes.getLast?.map (·.checkpoint) = some c.checkpoint) :
    d.checkpoint ≤ c.checkpoint := by
  cases changes using List.reverseRecOn with
  | nil => simp at hd
  | append_singleton init z =>
    have hz : z.checkpoint = c.checkpoint := by simpa using hc
    rw [← hz]
    rcases List.mem_append.1 hd with hd | hd
    · exact h.le hd (by simp)
    · rw [List.mem_singleton.1 hd]
      exact UInt64.le_refl _

/-- One page more of changes that are not settled, where the page is one transaction. -/
theorem Shows.settle_ne_of_not_settled {changes init : List Change} {c : Change}
    {before : Option Standing} (hs : Shows changes before)
    (ordered : Ordered (changes ++ (init ++ [c]))) (apart : ∀ d ∈ changes, d.digest ≠ c.digest)
    (single : ∀ d ∈ init ++ [c], d.digest = c.digest)
    (h : ¬ Settled (changes ++ (init ++ [c]))) :
    settle before (init ++ [c]) ≠ lastWord (changes ++ (init ++ [c])) := by
  obtain ⟨hset, d, hd, hcp, hdigest⟩ : c.isRemove = false ∧
      ∃ d ∈ fromFirstSet (changes ++ (init ++ [c])),
        d.checkpoint = c.checkpoint ∧ d.digest ≠ c.digest := by
    simpa [Settled, and_assoc] using h
  have hd_page : d ∉ init ++ [c] := fun hmem => hdigest (single d hmem)
  -- the other transaction is on an earlier page, and so is the first set
  have hne : fromFirstSet changes ≠ [] := fun hnil =>
    hd_page (mem_of_mem_fromFirstSet (by rwa [fromFirstSet_append_of_nil hnil] at hd))
  have hd_mem : d ∈ changes := by
    rw [fromFirstSet_append_of_ne hne] at hd
    exact mem_of_mem_fromFirstSet ((List.mem_append.1 hd).resolve_right hd_page)
  cases before with
  | none => exact absurd hs hne
  | some s =>
    obtain ⟨e, he, rfl, hlast⟩ := hs
    have hmem := mem_of_mem_fromFirstSet he
    have hkept : ¬ (e.checkpoint < c.checkpoint ∨ c.isRemove) := by
      rintro (hlt | hrem)
      · exact UInt64.not_lt.2 (hcp ▸ ordered.left.le_last hd_mem hlast) hlt
      · rw [hset] at hrem
        cases hrem
    rw [settle_shown ordered hmem, lastWord_append hne, if_neg hkept]
    intro heq
    have hdig : e.digest = c.digest := congrArg (·.digest) (Option.some.inj heq)
    exact apart e hmem hdig

/-- If the changes are not settled, pages of one transaction each leave the row with another digest
than the last change has. -/
theorem settleAll_ne_of_not_settled {pages : List (List Change)} (ordered : Ordered pages.flatten)
    (apart : Apart pages) (single : ∀ page ∈ pages, ∀ c ∈ page, ∀ d ∈ page, c.digest = d.digest)
    (h : ¬ Settled pages.flatten) : settleAll pages ≠ lastWord pages.flatten := by
  induction pages using List.reverseRecOn with
  | nil => exact absurd (by simp [Settled]) h
  | append_singleton pages page ih =>
    rw [List.flatten_append, List.flatten_singleton] at ordered h ⊢
    rw [settleAll_append]
    cases page using List.reverseRecOn with
    | nil =>
      rw [List.append_nil] at h ⊢
      exact ih ordered.left (List.pairwise_append.1 apart).1
        (fun page hp => single page (List.mem_append_left _ hp)) h
    | append_singleton init c =>
      have hc : c ∈ init ++ [c] := by simp
      exact (shows_settleAll ordered.left).settle_ne_of_not_settled ordered
        (fun d hd => apart.digest_ne hd hc) (fun d hd => single _ (by simp) d hd c hc) h

end LedgerIndex
