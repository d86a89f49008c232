import Mathlib.Data.List.Forall2
import Mathlib.Tactic.Common

/-!
# Traversals that may fail

A list is gone through in order, and the first step that fails ends it.  So either every step gives
something (`mapM_eq_ok_iff`), or the traversal fails as the first failing step does
(`mapM_of_first_error`).
-/

namespace LedgerIndex

variable {α β γ ε : Type} {f : α → Except ε β} {as : List α}

/-- A traversal succeeds if each step does. -/
theorem mapM_eq_ok_iff {bs : List β} :
    as.mapM f = .ok bs ↔ List.Forall₂ (fun a b => f a = .ok b) as bs := by
  induction as generalizing bs with
  | nil =>
    rw [List.mapM_nil, List.forall₂_nil_left_iff]
    exact ⟨fun h => (Except.ok.inj h).symm, fun h => h ▸ rfl⟩
  | cons a as ih =>
    rw [List.mapM_cons, List.forall₂_cons_left_iff]
    simp only [← ih]
    cases ha : f a with
    | error e => exact ⟨nofun, by rintro ⟨b, _, ⟨⟩, -⟩⟩
    | ok b =>
      cases has : as.mapM f with
      | error e => exact ⟨nofun, by rintro ⟨b, _, -, ⟨⟩, -⟩⟩
      | ok rest =>
        constructor
        · rintro ⟨⟩
          exact ⟨b, rest, rfl, rfl, rfl⟩
        · rintro ⟨b, rest, ⟨⟩, ⟨⟩, rfl⟩
          rfl

theorem mapM_eq_ok_map {g : α → β} (h : ∀ a ∈ as, f a = .ok (g a)) :
    as.mapM f = .ok (as.map g) :=
  mapM_eq_ok_iff.2 (List.forall₂_map_right_iff.2 (List.forall₂_same.2 h))

theorem exists_mapM_iff : (∃ bs, as.mapM f = .ok bs) ↔ ∀ a ∈ as, ∃ b, f a = .ok b := by
  simp only [mapM_eq_ok_iff]
  induction as with
  | nil => exact ⟨fun _ => nofun, fun _ => ⟨[], .nil⟩⟩
  | cons a as ih =>
    rw [List.forall_mem_cons, ← ih]
    constructor
    · rintro ⟨_, hb | ⟨hb, hbs⟩⟩
      exact ⟨⟨_, hb⟩, _, hbs⟩
    · rintro ⟨⟨b, hb⟩, bs, hbs⟩
      exact ⟨b :: bs, .cons hb hbs⟩

/-- A traversal fails as its first failure does. -/
theorem mapM_of_first_error {before after : List α} {a : α} {e : ε}
    (hbefore : ∀ b ∈ before, ∃ c, f b = .ok c) (ha : f a = .error e) :
    (before ++ a :: after).mapM f = .error e := by
  induction before with
  | nil =>
    rw [List.nil_append, List.mapM_cons, ha]
    rfl
  | cons b before ih =>
    obtain ⟨⟨c, hc⟩, hrest⟩ := List.forall_mem_cons.1 hbefore
    rw [List.cons_append, List.mapM_cons, hc, ih hrest]
    rfl

theorem exists_first_not {P : α → Prop} (h : ¬ ∀ a ∈ as, P a) :
    ∃ before a after, as = before ++ a :: after ∧ (∀ b ∈ before, P b) ∧ ¬ P a := by
  induction as with
  | nil => exact absurd nofun h
  | cons a as ih =>
    by_cases ha : P a
    · obtain ⟨before, b, after, rfl, hbefore, hb⟩ :=
        ih fun has => h (List.forall_mem_cons.2 ⟨ha, has⟩)
      exact ⟨a :: before, b, after, rfl, List.forall_mem_cons.2 ⟨ha, hbefore⟩, hb⟩
    · exact ⟨[], a, as, rfl, nofun, ha⟩

/-- Two relations between lists, one after the other. -/
theorem forall₂_comp {R : α → β → Prop} {S : β → γ → Prop} {T : α → γ → Prop} {bs : List β}
    {cs : List γ} (hstep : ∀ a b c, R a b → S b c → T a c) (h : List.Forall₂ R as bs)
    (h' : List.Forall₂ S bs cs) : List.Forall₂ T as cs := by
  induction h generalizing cs with
  | nil =>
    cases h'
    exact .nil
  | cons hab _ ih =>
    cases h' with
    | cons hbc hrest => exact .cons (hstep _ _ _ hab hbc) (ih hrest)

/-- A relation that is that of a function relates a list to its image. -/
theorem forall₂_iff_map (R : α → β → Prop) (g : α → β) (h : ∀ a b, R a b ↔ g a = b)
    {bs : List β} : List.Forall₂ R as bs ↔ as.map g = bs := by
  have hR : R = fun a b => g a = b := by
    funext a b
    exact propext (h a b)
  rw [hR, ← List.forall₂_eq_eq_eq, List.forall₂_map_left_iff]

/-- What stands in one of two lists has its counterpart in the other. -/
theorem exists_right_of_forall₂ {R : α → β → Prop} {bs : List β} (h : List.Forall₂ R as bs) {a : α}
    (ha : a ∈ as) : ∃ b ∈ bs, R a b := by
  induction h with
  | nil => cases ha
  | cons hab _ ih =>
    obtain rfl | ha := List.mem_cons.1 ha
    · exact ⟨_, List.mem_cons_self, hab⟩
    · obtain ⟨b, hb, hR⟩ := ih ha
      exact ⟨b, List.mem_cons_of_mem _ hb, hR⟩

theorem exists_left_of_forall₂ {R : α → β → Prop} {bs : List β} (h : List.Forall₂ R as bs) {b : β}
    (hb : b ∈ bs) : ∃ a ∈ as, R a b :=
  exists_right_of_forall₂ h.flip hb

end LedgerIndex
