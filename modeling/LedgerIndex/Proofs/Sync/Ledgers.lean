import LedgerIndex.Proofs.Sync.Round
import Mathlib.Data.List.Induction
import Mathlib.Data.List.Nodup

/-!
# Ledgers with a history

What is asked of a ledger: that its pages are parts of one history of transactions, with no digest
twice, each page taken up right after the digest that was asked for.  A `Truthful` ledger may fail,
may answer with less than it has, and may grow at the end of its history.  One that `Serves` has a
fixed history and never fails, and answers with nothing only at its end.
-/

namespace LedgerIndex.Sync

/-! ## Places in a history -/

/-- The transactions after the one with a digest; all of them if no digest is given. -/
def following (history : List Transaction) : Option String → List Transaction
  | none => history
  | some digest => (history.dropWhile fun t => t.digest != digest).tail

@[simp] theorem endOf_nil : endOf [] = none := rfl

theorem endOf_append (before page : List Transaction) :
    endOf (before ++ page) = (endOf page).or (endOf before) := by
  simp only [endOf, List.getLast?_append]
  cases page.getLast? <;> rfl

theorem endOf_isSome {page : List Transaction} (h : page ≠ []) : (endOf page).isSome := by
  simpa [endOf] using h

/-- What follows the end of a part of the history is the rest of it. -/
theorem following_endOf {before after : List Transaction}
    (distinct : ((before ++ after).map (·.digest)).Nodup) :
    following (before ++ after) ((endOf before).map (·.digest)) = after := by
  cases before using List.reverseRecOn with
  | nil => rfl
  | append_singleton init t =>
    have hne : ∀ u ∈ init, u.digest != t.digest := by
      intro u hu
      rw [List.map_append, List.map_append] at distinct
      have h := (List.nodup_append.1 (List.nodup_append.1 distinct).1).2.2
      simpa using h u.digest (List.mem_map_of_mem hu) t.digest (by simp)
    have hend : (endOf (init ++ [t])).map (·.digest) = some t.digest := by simp [endOf]
    rw [hend, following, List.append_assoc, List.dropWhile_append_of_pos hne]
    simp

/-! ## Laws -/

variable {ν : Type} [Ledger ν] [Clock ν]

/-- The ledger answers from one history for the transactions of an object, or not at all.  The
history may grow at its end. -/
structure Truthful (ν : Type) [Ledger ν] [Clock ν] (object : String)
    (history : ν → List Transaction) : Prop where
  /-- no digest occurs twice -/
  distinct (w : ν) : ((history w).map (·.digest)).Nodup
  /-- a page is part of what follows a digest of the history, and not longer than asked for -/
  page {after limit w page w'} : Ledger.fetchPage ⟨object⟩ after limit w = (.ok page, w') →
    (∀ d ∈ after, d ∈ (history w).map (·.digest)) →
    page <+: following (history w') after ∧ page.length ≤ limit
  fetch_grows (after limit w) : history w <+: history (Ledger.fetchPage ⟨object⟩ after limit w).2
  head_grows (w : ν) : history w <+: history (Ledger.headCheckpoint w).2
  now_grows (w : ν) : history w <+: history (Clock.now w).2
  stamp_grows (w : ν) : history w <+: history (Clock.stamp w).2

theorem Truthful.aside_grows {object : String} {history : ν → List Transaction}
    (h : Truthful ν object history) {w w' : ν} (ha : Aside w w') : history w <+: history w' := by
  induction ha with
  | refl => exact List.prefix_refl _
  | now _ ih => exact ih.trans (h.now_grows _)
  | stamp _ ih => exact ih.trans (h.stamp_grows _)
  | head _ ih => exact ih.trans (h.head_grows _)

/-- The ledger has a fixed history, and answers with the next transactions, at most as many as
asked for, and at least one if there is one. -/
structure Serves (ν : Type) [Ledger ν] (object : String) (history : List Transaction) :
    Prop where
  page (after : Option String) (limit : Nat) (w : ν) :
    ∃ page, (Ledger.fetchPage ⟨object⟩ after limit w).1 = .ok page ∧
      page <+: following history after ∧ page.length ≤ limit ∧
      (0 < limit → page = [] → following history after = [])

/-- The ledger answers with as many transactions as asked for, unless its history ends before. -/
def FullPages (ν : Type) [Ledger ν] (object : String) (history : List Transaction) : Prop :=
  ∀ (after : Option String) (limit : Nat) (w : ν),
    (Ledger.fetchPage ⟨object⟩ after limit w).1 = .ok ((following history after).take limit)

omit [Clock ν] in
theorem FullPages.serves {object : String} {history : List Transaction}
    (h : FullPages ν object history) : Serves ν object history where
  page after limit w := by
    refine ⟨_, h after limit w, List.take_prefix .., List.length_take_le .., fun hl ht => ?_⟩
    rcases List.take_eq_nil_iff.1 ht with h0 | h0
    · omega
    · exact h0

/-! ## Ledgers that keep the laws -/

/-- A ledger that grows by one transaction with each question, up to a given history, and that
fails or falls short on cue. -/
structure Feed (all : List Transaction) where
  /-- how many transactions there are so far -/
  shown : Nat
  /-- the most transactions to answer the next questions with, or no answer -/
  moods : List (Option Nat)
  /-- the clock, in nanoseconds -/
  time : Nat

namespace Feed

variable {all : List Transaction}

/-- The transactions so far. -/
def history (f : Feed all) : List Transaction := all.take f.shown

/-- Answers with what follows a digest, as the mood of the moment is. -/
def fetchPage (_ : ObjectFilter) (after : Option String) (limit : Nat) (f : Feed all) :
    Except Error (List Transaction) × Feed all :=
  let grown := { f with shown := f.shown + 1, moods := f.moods.tail }
  match f.moods.head? with
  | some none => (.error (.rpc "no answer"), grown)
  | some (some most) => (.ok ((following grown.history after).take (min most limit)), grown)
  | none => (.ok ((following grown.history after).take limit), grown)

instance : Ledger (Feed all) := ⟨fetchPage, fun f => (.ok 0, f)⟩

instance : Clock (Feed all) :=
  ⟨fun f => (f.time, { f with time := f.time + 1 }), fun f => (f.time, f)⟩

theorem fetchPage_snd (filter : ObjectFilter) (after : Option String) (limit : Nat)
    (f : Feed all) : (f.fetchPage filter after limit).2.shown = f.shown + 1 := by
  rw [fetchPage]
  rcases f.moods.head? with _ | _ | _ <;> rfl

theorem history_prefix {f g : Feed all} (h : f.shown ≤ g.shown) : f.history <+: g.history :=
  List.take_prefix_take_left h

/-- A feed of transactions with different digests is truthful. -/
theorem truthful (distinct : (all.map (·.digest)).Nodup) (object : String) :
    Truthful (Feed all) object history where
  distinct f := distinct.sublist ((List.take_sublist ..).map _)
  page {after limit f page f'} hf _ := by
    change f.fetchPage ⟨object⟩ after limit = _ at hf
    rw [fetchPage] at hf
    split at hf
    · cases hf
    · rw [Prod.mk.injEq] at hf
      obtain ⟨hpage, rfl⟩ := hf
      cases hpage
      exact ⟨List.take_prefix .., Nat.le_trans (List.length_take_le ..) (Nat.min_le_right ..)⟩
    · rw [Prod.mk.injEq] at hf
      obtain ⟨hpage, rfl⟩ := hf
      cases hpage
      exact ⟨List.take_prefix .., List.length_take_le ..⟩
  fetch_grows after limit f :=
    history_prefix (by
      have := fetchPage_snd ⟨object⟩ after limit f
      exact Nat.le_of_lt (by change f.shown < (f.fetchPage _ _ _).2.shown; omega))
  head_grows f := List.prefix_refl _
  now_grows f := List.prefix_refl _
  stamp_grows f := List.prefix_refl _

end Feed

/-- A ledger with all of its history there from the beginning. -/
structure Shelf (history : List Transaction) where
  /-- the clock, in nanoseconds -/
  time : Nat

namespace Shelf

variable {history : List Transaction}

instance : Ledger (Shelf history) :=
  ⟨fun _ after limit s => (.ok ((following history after).take limit), s), fun s => (.ok 0, s)⟩

instance : Clock (Shelf history) := ⟨fun s => (s.time, ⟨s.time + 1⟩), fun s => (s.time, s)⟩

theorem fullPages (object : String) : FullPages (Shelf history) object history :=
  fun _ _ _ => rfl

end Shelf

end LedgerIndex.Sync
