import LedgerIndex.Decimal.Digits
import Mathlib.Data.Nat.Digits.Defs
import Mathlib.Data.String.Basic
import Mathlib.Tactic.Common

/-!
# Numbers by their places

What a run of digits stands for is said apart from how any reader gets at it: the digits weigh as
much as their places say (`positional`), in whatever base.  A digit in front adds its own weight
(`positional_cons`), which is what readers from the left come to; and the digits of the number
itself are those of the run without the zeros in front (`digits_positional`), so that a number has
many runs of digits but only one without such zeros.
-/

namespace LedgerIndex.Digits

/-! ## Single digits -/

theorem digit?_lt {base : Nat} {c : Char} {d : Nat} (h : digit? base c = some d) : d < base := by
  simp only [digit?, Option.ite_none_right_eq_some, Option.some.injEq] at h
  obtain ⟨hlt, rfl⟩ := h
  exact hlt

theorem digit?_zero {base : Nat} (h : 0 < base) : digit? base '0' = some 0 := by
  simp [digit?, h]

/-- The decimal digits are digits of each base from ten on. -/
theorem digit?_of_isDigit {base : Nat} (hbase : 10 ≤ base) {c : Char} (h : c.isDigit = true) :
    digit? base c = some (c.toNat - '0'.toNat) := by
  obtain ⟨hlow, hhigh⟩ : '0' ≤ c ∧ c ≤ '9' := by
    simpa [Char.isDigit, Char.le_def] using h
  have hnine : c.toNat ≤ 57 := hhigh
  have hlt : c.toNat - '0'.toNat < base := by
    have hzero : '0'.toNat = 48 := rfl
    omega
  simp only [digit?, if_pos (And.intro hlow hhigh), if_pos hlt]

/-- Base ten has no other digits. -/
theorem isDigit_of_digit? {c : Char} {d : Nat} (h : digit? 10 c = some d) : c.isDigit = true := by
  by_cases hc : '0' ≤ c ∧ c ≤ '9'
  · simpa [Char.isDigit, Char.le_def] using hc
  · -- letters are worth ten and more
    simp only [digit?, if_neg hc, Option.ite_none_right_eq_some] at h
    obtain ⟨hlt, -⟩ := h
    split_ifs at hlt <;> omega

/-! ## Runs of digits -/

/-- All characters are digits. -/
def AllDigits (base : Nat) (cs : List Char) : Prop := ∀ c ∈ cs, (digit? base c).isSome = true

instance (base : Nat) (cs : List Char) : Decidable (AllDigits base cs) :=
  decidable_of_iff ((cs.all fun c => (digit? base c).isSome) = true) List.all_eq_true

/-- The values of digits. -/
def values (base : Nat) (cs : List Char) : List Nat := cs.filterMap (digit? base)

/-- The number that digits stand for: the last one counts once, and each other one as often as the
base says for its place.  No digits at all stand for zero. -/
def positional (base : Nat) (cs : List Char) : Nat := Nat.ofDigits base (values base cs).reverse

@[simp] theorem positional_nil (base : Nat) : positional base [] = 0 := rfl

theorem allDigits_cons {base : Nat} {c : Char} {cs : List Char} :
    AllDigits base (c :: cs) ↔ (∃ d, digit? base c = some d) ∧ AllDigits base cs := by
  simp [AllDigits, Option.isSome_iff_exists]

theorem values_cons {base : Nat} {c : Char} {d : Nat} (h : digit? base c = some d)
    (cs : List Char) : values base (c :: cs) = d :: values base cs := by
  simp [values, h]

theorem length_values {base : Nat} {cs : List Char} (h : AllDigits base cs) :
    (values base cs).length = cs.length := by
  induction cs with
  | nil => rfl
  | cons c cs ih =>
    obtain ⟨⟨d, hd⟩, hcs⟩ := allDigits_cons.1 h
    rw [values_cons hd, List.length_cons, List.length_cons, ih hcs]

theorem values_lt {base : Nat} {cs : List Char} {d : Nat} (h : d ∈ values base cs) : d < base := by
  obtain ⟨c, -, hc⟩ := List.mem_filterMap.1 h
  exact digit?_lt hc

/-- A digit in front weighs what its place says. -/
theorem positional_cons {base : Nat} {c : Char} {d : Nat} (hd : digit? base c = some d)
    {cs : List Char} (hcs : AllDigits base cs) :
    positional base (c :: cs) = d * base ^ cs.length + positional base cs := by
  rw [positional, values_cons hd, Nat.ofDigits_reverse_cons, length_values hcs, positional]
  ring

/-! ## Zeros in front -/

theorem positional_replicate_zero {base : Nat} (hbase : 0 < base) (k : Nat) (cs : List Char) :
    positional base (List.replicate k '0' ++ cs) = positional base cs := by
  have hvalues : values base (List.replicate k '0' ++ cs) =
      List.replicate k 0 ++ values base cs := by
    simp [values, digit?_zero hbase]
  rw [positional, hvalues, List.reverse_append, List.reverse_replicate,
    Nat.ofDigits_append_replicate_zero, positional]

/-- The digits of a sum by places are its summands without the zeros of the highest places. -/
theorem digits_ofDigits_reverse {base : Nat} (hbase : 1 < base) {ds : List Nat}
    (h : ∀ d ∈ ds, d < base) :
    Nat.digits base (Nat.ofDigits base ds.reverse) = (ds.dropWhile (· == 0)).reverse := by
  induction ds with
  | nil => simp
  | cons d ds ih =>
    by_cases hd : d = 0
    · subst hd
      rw [Nat.ofDigits_reverse_zero_cons, ih fun d hd => h d (List.mem_cons_of_mem _ hd)]
      simp
    · have hstop : (d :: ds).dropWhile (· == 0) = d :: ds := by simp [hd]
      rw [hstop]
      apply Nat.digits_ofDigits base hbase
      · intro d hd
        exact h d (List.mem_reverse.1 hd)
      · intro _
        simpa using hd

theorem digits_positional {base : Nat} (hbase : 1 < base) (cs : List Char) :
    Nat.digits base (positional base cs) = ((values base cs).dropWhile (· == 0)).reverse :=
  digits_ofDigits_reverse hbase fun _ hd => values_lt hd

end LedgerIndex.Digits
