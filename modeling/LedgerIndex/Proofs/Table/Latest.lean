import LedgerIndex.Table.Plan
import Mathlib.Data.List.Induction
import Mathlib.Tactic.Common

/-!
# The latest change

Changes of a page are ranked by checkpoint, and by their place in the page where checkpoints are
equal.  The latest of a list is the one of highest rank.  This file says what that means for a
list of changes (`latest?_eq_some_iff`) and for changes that carry their places (`IsTop`), and
that both readings agree (`latest?_of_isTop`).
-/

namespace LedgerIndex

/-! ## Lists of changes -/

/-- The later of two changes, of which the second one arrived later. -/
def later : Option Change → Option Change → Option Change
  | none, d => d
  | c, none => c
  | some c, some d => if c.checkpoint ≤ d.checkpoint then some d else some c

/-- The latest of some changes, which are given in the order of their arrival. -/
def latest? : List Change → Option Change
  | [] => none
  | c :: rest => later (some c) (latest? rest)

@[simp] theorem latest?_nil : latest? [] = none := rfl

@[simp] theorem later_none_left (d : Option Change) : later none d = d := by
  cases d <;> rfl

@[simp] theorem later_none_right (c : Option Change) : later c none = c := by
  cases c <;> rfl

theorem later_assoc (a b c : Option Change) : later (later a b) c = later a (later b c) := by
  cases a with
  | none => simp
  | some a =>
    cases b with
    | none => simp
    | some b =>
      cases c with
      | none => simp
      | some c => grind [later, UInt64.le_trans, UInt64.le_total]

theorem latest?_append (l r : List Change) : latest? (l ++ r) = later (latest? l) (latest? r) := by
  induction l with
  | nil => simp
  | cons c l ih => rw [List.cons_append, latest?, latest?, ih, later_assoc]

@[simp] theorem latest?_eq_none {l : List Change} : latest? l = none ↔ l = [] := by
  cases l with
  | nil => simp
  | cons c l =>
    simp only [latest?, reduceCtorEq, iff_false]
    cases latest? l with
    | none => simp
    | some d => simp only [later]; split <;> simp

theorem mem_of_latest? {l : List Change} {c : Change} (h : latest? l = some c) : c ∈ l := by
  induction l with
  | nil => simp at h
  | cons d l ih =>
    rw [latest?] at h
    cases hl : latest? l with
    | none => rw [hl, later_none_right] at h; cases h; exact List.mem_cons_self ..
    | some e =>
      rw [hl, later] at h
      split at h
      · exact List.mem_cons_of_mem _ (ih (hl.trans h))
      · cases h; exact List.mem_cons_self ..

/-- A change that is not below those before it and above those after it is the latest. -/
theorem latest?_append_cons {before after : List Change} {c : Change}
    (hb : ∀ d ∈ before, d.checkpoint ≤ c.checkpoint)
    (ha : ∀ d ∈ after, d.checkpoint < c.checkpoint) :
    latest? (before ++ c :: after) = some c := by
  have hafter : later (some c) (latest? after) = some c := by
    cases h : latest? after with
    | none => simp
    | some d => rw [later, if_neg (UInt64.not_le.2 (ha d (mem_of_latest? h)))]
  rw [latest?_append, latest?, hafter]
  cases h : latest? before with
  | none => simp
  | some d => rw [later, if_pos (hb d (mem_of_latest? h))]

/-- The latest change is not below those before it, and above those after it. -/
theorem latest?_eq_some_iff {l : List Change} {c : Change} :
    latest? l = some c ↔ ∃ before after, l = before ++ c :: after ∧
      (∀ d ∈ before, d.checkpoint ≤ c.checkpoint) ∧ ∀ d ∈ after, d.checkpoint < c.checkpoint := by
  constructor
  · intro h
    induction l generalizing c with
    | nil => simp at h
    | cons d l ih =>
      rw [latest?] at h
      cases hl : latest? l with
      | none =>
        rw [hl, later_none_right] at h
        cases h
        exact ⟨[], [], by rw [latest?_eq_none.1 hl]; rfl, by simp, by simp⟩
      | some e =>
        obtain ⟨before, after, rfl, hb, ha⟩ := ih hl
        rw [hl, later] at h
        split at h
        · rename_i hde
          cases h
          exact ⟨d :: before, after, rfl, by simpa [hde] using hb, ha⟩
        · rename_i hde
          cases h
          have hec : e.checkpoint < d.checkpoint := UInt64.not_le.1 hde
          refine ⟨[], before ++ e :: after, rfl, by simp, fun x hx => ?_⟩
          rcases List.mem_append.1 hx with hx | hx
          · exact UInt64.lt_of_le_of_lt (hb x hx) hec
          · rcases List.mem_cons.1 hx with rfl | hx
            · exact hec
            · exact UInt64.lt_trans (ha x hx) hec
  · rintro ⟨before, after, rfl, hb, ha⟩
    exact latest?_append_cons hb ha

theorem checkpoint_le_of_latest? {l : List Change} {c d : Change} (h : latest? l = some c)
    (hd : d ∈ l) : d.checkpoint ≤ c.checkpoint := by
  obtain ⟨before, after, rfl, hb, ha⟩ := latest?_eq_some_iff.1 h
  rcases List.mem_append.1 hd with hd | hd
  · exact hb d hd
  · rcases List.mem_cons.1 hd with rfl | hd
    · exact UInt64.le_refl _
    · exact UInt64.le_of_lt (ha d hd)

/-- Leaving out other changes leaves the latest one the latest. -/
theorem latest?_filter {l : List Change} {f : Change → Bool} {c : Change}
    (h : latest? l = some c) (hf : f c) : latest? (l.filter f) = some c := by
  obtain ⟨before, after, rfl, hb, ha⟩ := latest?_eq_some_iff.1 h
  rw [List.filter_append, List.filter_cons_of_pos hf]
  exact latest?_append_cons (fun d hd => hb d ((List.mem_filter.1 hd).1))
    fun d hd => ha d ((List.mem_filter.1 hd).1)

/-! ## Changes with their places -/

namespace Placed

theorem outranks_iff {a b : Placed} :
    a.outranks b = true ↔ b.change.checkpoint < a.change.checkpoint ∨
      (b.change.checkpoint = a.change.checkpoint ∧ b.place < a.place) := by
  simp [outranks]

theorem outranks_trans {a b c : Placed} (hab : a.outranks b) (hbc : b.outranks c) :
    a.outranks c := by
  rw [outranks_iff, UInt64.lt_iff_toNat_lt, ← UInt64.toNat_inj] at *
  omega

theorem not_outranks_self (a : Placed) : ¬ a.outranks a := by
  rw [outranks_iff]
  rintro (h | ⟨-, h⟩)
  · exact UInt64.lt_irrefl _ h
  · exact Nat.lt_irrefl _ h

/-- Of two changes in different places one outranks the other. -/
theorem outranks_of_not {a b : Placed} (hp : a.place ≠ b.place) (h : ¬ a.outranks b) :
    b.outranks a := by
  rw [outranks_iff, UInt64.lt_iff_toNat_lt, ← UInt64.toNat_inj] at *
  omega

end Placed

/-- Places ascend along the list, as they do along a page. -/
def Ascending (ps : List Placed) : Prop := ps.Pairwise fun a b => a.place < b.place

/-- The change of highest rank. -/
def IsTop (p : Placed) (ps : List Placed) : Prop := p ∈ ps ∧ ∀ q ∈ ps, q = p ∨ p.outranks q

/-- The change of highest rank among those met so far, as the winners keep it. -/
def highest (ps : List Placed) : Option Placed :=
  ps.foldl (fun best p => some (Placed.higher best p)) none

theorem Ascending.place_lt {ps : List Placed} {p : Placed} (h : Ascending (ps ++ [p])) :
    ∀ q ∈ ps, q.place < p.place := by
  intro q hq
  exact (List.pairwise_append.1 h).2.2 q hq p (List.mem_singleton_self _)

theorem isTop_unique {ps : List Placed} {p q : Placed} (hp : IsTop p ps) (hq : IsTop q ps) :
    p = q := by
  rcases hp.2 q hq.1 with h | h
  · exact h.symm
  rcases hq.2 p hp.1 with h' | h'
  · exact h'
  exact absurd (Placed.outranks_trans h h') (Placed.not_outranks_self p)

theorem highest_append (ps : List Placed) (p : Placed) :
    highest (ps ++ [p]) = some (Placed.higher (highest ps) p) := by
  simp [highest]

theorem isTop_highest {ps : List Placed} (h : Ascending ps) {p : Placed}
    (hp : highest ps = some p) : IsTop p ps := by
  induction ps using List.reverseRecOn generalizing p with
  | nil => simp [highest] at hp
  | append_singleton ps q ih =>
    rw [highest_append, Option.some.injEq] at hp
    cases hps : highest ps with
    | none =>
      have hnil : ps = [] := by
        cases ps using List.reverseRecOn with
        | nil => rfl
        | append_singleton ps r => rw [highest_append] at hps; exact absurd hps (by simp)
      subst hnil
      rw [hps, Placed.higher] at hp
      subst hp
      exact ⟨by simp, by simp⟩
    | some a =>
      have hleft : Ascending ps := (List.pairwise_append.1 h).1
      obtain ⟨ha, hatop⟩ := ih hleft hps
      rw [hps, Placed.higher] at hp
      split at hp
      · rename_i hqa
        subst hp
        refine ⟨by simp, fun r hr => ?_⟩
        rcases List.mem_append.1 hr with hr | hr
        · rcases hatop r hr with rfl | har
          · exact Or.inr hqa
          · exact Or.inr (Placed.outranks_trans hqa har)
        · exact Or.inl (List.mem_singleton.1 hr)
      · rename_i hqa
        subst hp
        refine ⟨List.mem_append_left _ ha, fun r hr => ?_⟩
        rcases List.mem_append.1 hr with hr | hr
        · exact hatop r hr
        · rw [List.mem_singleton.1 hr]
          exact Or.inr (Placed.outranks_of_not (Nat.ne_of_gt (h.place_lt a ha)) hqa)

theorem highest_eq_none {ps : List Placed} : highest ps = none ↔ ps = [] := by
  cases ps using List.reverseRecOn with
  | nil => simp [highest]
  | append_singleton ps p => simp [highest_append]

/-- What the winners keep is the change of highest rank. -/
theorem highest_eq_some_iff {ps : List Placed} (h : Ascending ps) {p : Placed} :
    highest ps = some p ↔ IsTop p ps := by
  refine ⟨isTop_highest h, fun hp => ?_⟩
  cases hps : highest ps with
  | none => rw [highest_eq_none.1 hps] at hp; exact absurd hp.1 (by simp)
  | some q => rw [isTop_unique (isTop_highest h hps) hp]

/-- The change of highest rank is the latest one. -/
theorem latest?_of_isTop {ps : List Placed} (h : Ascending ps) {p : Placed} (hp : IsTop p ps) :
    latest? (ps.map (·.change)) = some p.change := by
  obtain ⟨before, after, rfl⟩ := List.append_of_mem hp.1
  have hplaces := List.pairwise_append.1 h
  rw [List.map_append, List.map_cons]
  apply latest?_append_cons
  · intro d hd
    obtain ⟨q, hq, rfl⟩ := List.mem_map.1 hd
    rcases hp.2 q (List.mem_append_left _ hq) with rfl | hpq
    · exact UInt64.le_refl _
    · rcases Placed.outranks_iff.1 hpq with hlt | ⟨heq, -⟩
      · exact UInt64.le_of_lt hlt
      · exact UInt64.le_of_eq heq
  · intro d hd
    obtain ⟨q, hq, rfl⟩ := List.mem_map.1 hd
    have hplace : p.place < q.place := (List.pairwise_cons.1 hplaces.2.1).1 q hq
    rcases hp.2 q (by simp [hq]) with rfl | hpq
    · exact absurd hplace (Nat.lt_irrefl _)
    · rcases Placed.outranks_iff.1 hpq with hlt | ⟨-, hlt⟩
      · exact hlt
      · exact absurd hplace (Nat.lt_asymm hlt)

theorem highest_map_change {ps : List Placed} (h : Ascending ps) :
    (highest ps).map (·.change) = latest? (ps.map (·.change)) := by
  cases hps : highest ps with
  | none => rw [highest_eq_none.1 hps]; rfl
  | some p => rw [latest?_of_isTop h (isTop_highest h hps)]; rfl

end LedgerIndex
