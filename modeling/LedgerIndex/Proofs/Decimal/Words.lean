import LedgerIndex.Decimal.Word
import LedgerIndex.Proofs.Decimal.Positional

/-!
# Words are read exactly

A text is read as a word just if it spells the number that the word holds (`Spells`,
`wordOfChars?_eq_some_iff`).  Nothing bounds the length of such a text, since zeros may stand in
front.  The same reading can be done in the arithmetic of words alone, digit by digit from the left,
if each product and each sum is checked (`wordOfChars?_eq_readDigits?`): what a step has read only
grows, so a text that ends with a word has not left the words on the way.
-/

namespace LedgerIndex.Decimal

open Digits

/-! ## Numbers that are spelled out -/

/-- The characters spell a number: they are decimal digits, at least one, possibly after a plus
sign, and the number is what the digits stand for. -/
inductive Spells : List Char → Nat → Prop
  | plain {ds : List Char} : ds ≠ [] → (∀ c ∈ ds, c.isDigit = true) → Spells ds (positional 10 ds)
  | signed {ds : List Char} : ds ≠ [] → (∀ c ∈ ds, c.isDigit = true) →
      Spells ('+' :: ds) (positional 10 ds)

theorem allDigits_ten_iff {cs : List Char} :
    AllDigits 10 cs ↔ ∀ c ∈ cs, c.isDigit = true := by
  constructor
  · intro h c hc
    obtain ⟨d, hd⟩ := Option.isSome_iff_exists.1 (h c hc)
    exact isDigit_of_digit? hd
  · intro h c hc
    rw [digit?_of_isDigit (le_refl 10) (h c hc)]
    rfl

theorem dropPlus_of_digits {ds : List Char} (h : ∀ c ∈ ds, c.isDigit = true) :
    dropPlus ds = ds := by
  unfold dropPlus
  split
  · exact absurd (h '+' List.mem_cons_self) (by decide)
  · rfl

/-- Nothing but a plus sign is dropped. -/
theorem dropPlus_cases (cs : List Char) : cs = dropPlus cs ∨ cs = '+' :: dropPlus cs := by
  unfold dropPlus
  split
  · exact .inr rfl
  · exact .inl rfl

theorem spells_iff {cs : List Char} {n : Nat} :
    Spells cs n ↔ dropPlus cs ≠ [] ∧ (∀ c ∈ dropPlus cs, c.isDigit = true) ∧
      positional 10 (dropPlus cs) = n := by
  constructor
  · intro h
    cases h with
    | plain hne hall =>
      rw [dropPlus_of_digits hall]
      exact ⟨hne, hall, rfl⟩
    | signed hne hall => exact ⟨hne, hall, rfl⟩
  · rintro ⟨hne, hall, rfl⟩
    have hcases := dropPlus_cases cs
    generalize dropPlus cs = ds at hne hall hcases
    obtain rfl | rfl := hcases
    · exact .plain hne hall
    · exact .signed hne hall

/-- Multiplying and adding from the left comes to the sum by places. -/
theorem foldl_eq_positional {ds : List Char} (h : ∀ c ∈ ds, c.isDigit = true) (n : Nat) :
    ds.foldl (fun n c => n * 10 + (c.toNat - '0'.toNat)) n =
      n * 10 ^ ds.length + positional 10 ds := by
  induction ds generalizing n with
  | nil => simp
  | cons c ds ih =>
    obtain ⟨hc, hds⟩ := List.forall_mem_cons.1 h
    rw [List.foldl_cons, ih hds,
      positional_cons (digit?_of_isDigit (le_refl 10) hc) (allDigits_ten_iff.2 hds),
      List.length_cons]
    ring

theorem value_eq_positional {ds : List Char} (h : ∀ c ∈ ds, c.isDigit = true) :
    value ds = positional 10 ds := by
  rw [value, foldl_eq_positional h, Nat.zero_mul, Nat.zero_add]

/-- **A text is read as a word just if it spells it.** -/
theorem wordOfChars?_eq_some_iff {cs : List Char} {n : UInt64} :
    wordOfChars? cs = some n ↔ Spells cs n.toNat := by
  rw [spells_iff]
  simp only [wordOfChars?, Bool.and_eq_true, Bool.not_eq_true', List.isEmpty_eq_false_iff,
    List.all_eq_true, decide_eq_true_eq, Option.ite_none_right_eq_some, Option.some.injEq]
  constructor
  · rintro ⟨⟨⟨hne, hall⟩, hlt⟩, rfl⟩
    exact ⟨hne, hall, by rw [UInt64.toNat_ofNat_of_lt' hlt, value_eq_positional hall]⟩
  · rintro ⟨hne, hall, hn⟩
    rw [← value_eq_positional hall] at hn
    rw [hn]
    exact ⟨⟨⟨hne, hall⟩, n.toNat_lt_size⟩, UInt64.ofNat_toNat⟩

/-! ## Digit by digit -/

/-- The product of words, unless it wraps around. -/
def mul? (a b : UInt64) : Option UInt64 :=
  if a.toNat * b.toNat < UInt64.size then some (a * b) else none

/-- The sum of words, unless it wraps around. -/
def add? (a b : UInt64) : Option UInt64 :=
  if a.toNat + b.toNat < UInt64.size then some (a + b) else none

/-- A word with a digit put behind it. -/
def push? (n : UInt64) (c : Char) : Option UInt64 := do
  let d ← digit? 10 c
  add? (← mul? n 10) (.ofNat d)

/-- The word that digits are, at least one of them, in the arithmetic of words. -/
def readDigits? (ds : List Char) : Option UInt64 :=
  if ds = [] then none else ds.foldlM push? 0

/-- A result that is checked against the exact one is exact. -/
theorem checked_eq_some_iff {exact : Nat} {w c : UInt64} (hw : w.toNat = exact % UInt64.size) :
    (if exact < UInt64.size then some w else none) = some c ↔ c.toNat = exact := by
  rw [Option.ite_none_right_eq_some, Option.some.injEq]
  constructor
  · rintro ⟨hlt, rfl⟩
    rw [hw, Nat.mod_eq_of_lt hlt]
  · intro h
    have hlt : exact < UInt64.size := h ▸ c.toNat_lt_size
    refine ⟨hlt, UInt64.toNat_inj.1 ?_⟩
    rw [hw, Nat.mod_eq_of_lt hlt, h]

theorem mul?_eq_some_iff {a b c : UInt64} : mul? a b = some c ↔ c.toNat = a.toNat * b.toNat :=
  checked_eq_some_iff (UInt64.toNat_mul a b)

theorem add?_eq_some_iff {a b c : UInt64} : add? a b = some c ↔ c.toNat = a.toNat + b.toNat :=
  checked_eq_some_iff (UInt64.toNat_add a b)

theorem push?_eq_some_iff {m n : UInt64} {c : Char} :
    push? m c = some n ↔ ∃ d, digit? 10 c = some d ∧ n.toNat = m.toNat * 10 + d := by
  have hten : (10 : UInt64).toNat = 10 := rfl
  simp only [push?, Option.bind_eq_bind, Option.bind_eq_some_iff, mul?_eq_some_iff,
    add?_eq_some_iff, hten]
  refine exists_congr fun d => and_congr_right fun hd => ?_
  have hword : (UInt64.ofNat d).toNat = d :=
    UInt64.toNat_ofNat_of_lt' ((digit?_lt hd).trans (by decide))
  rw [hword]
  constructor
  · rintro ⟨w, hw, hn⟩
    rw [hn, hw]
  · -- the product is no more than the sum, which is a word
    intro hn
    have hlt : m.toNat * 10 < UInt64.size := by
      have := n.toNat_lt_size
      omega
    refine ⟨.ofNat (m.toNat * 10), UInt64.toNat_ofNat_of_lt' hlt, ?_⟩
    rw [hn, UInt64.toNat_ofNat_of_lt' hlt]

/-- The steps go through just if all characters are digits and what is read in the end is a word. -/
theorem foldlM_push?_eq_some_iff {ds : List Char} {m n : UInt64} :
    ds.foldlM push? m = some n ↔
      (∀ c ∈ ds, c.isDigit = true) ∧ n.toNat = m.toNat * 10 ^ ds.length + positional 10 ds := by
  induction ds generalizing m with
  | nil =>
    have hread : ([] : List Char).foldlM push? m = some n ↔ n = m := Option.some_inj.trans eq_comm
    rw [hread, ← UInt64.toNat_inj]
    simp
  | cons c ds ih =>
    rw [List.foldlM_cons, Option.bind_eq_bind, Option.bind_eq_some_iff, List.forall_mem_cons,
      List.length_cons]
    simp only [push?_eq_some_iff, ih]
    constructor
    · rintro ⟨w, ⟨d, hd, hw⟩, hds, hn⟩
      refine ⟨⟨isDigit_of_digit? hd, hds⟩, ?_⟩
      rw [hn, hw, positional_cons hd (allDigits_ten_iff.2 hds)]
      ring
    · rintro ⟨⟨hc, hds⟩, hn⟩
      have hd := digit?_of_isDigit (le_refl 10) hc
      rw [positional_cons hd (allDigits_ten_iff.2 hds)] at hn
      generalize c.toNat - '0'.toNat = d at hd hn
      -- what is read so far is at most what is read in the end
      have hle : m.toNat * 10 + d ≤ n.toNat := by
        calc m.toNat * 10 + d ≤ (m.toNat * 10 + d) * 10 ^ ds.length :=
              Nat.le_mul_of_pos_right _ (by positivity)
          _ ≤ (m.toNat * 10 + d) * 10 ^ ds.length + positional 10 ds := Nat.le_add_right ..
          _ = n.toNat := by rw [hn]; ring
      have hw : (UInt64.ofNat (m.toNat * 10 + d)).toNat = m.toNat * 10 + d :=
        UInt64.toNat_ofNat_of_lt' (hle.trans_lt n.toNat_lt_size)
      refine ⟨_, ⟨d, hd, hw⟩, hds, ?_⟩
      rw [hw, hn]
      ring

/-- **Checking each step is enough.** -/
theorem wordOfChars?_eq_readDigits? (cs : List Char) :
    wordOfChars? cs = readDigits? (dropPlus cs) := by
  apply Option.ext
  intro n
  rw [wordOfChars?_eq_some_iff, spells_iff, readDigits?]
  by_cases hnil : dropPlus cs = []
  · simp [hnil]
  · have hzero : (0 : UInt64).toNat = 0 := rfl
    rw [if_neg hnil, foldlM_push?_eq_some_iff, hzero, Nat.zero_mul, Nat.zero_add]
    exact ⟨fun h => ⟨h.2.1, h.2.2.symm⟩, fun h => ⟨hnil, h.1, h.2.symm⟩⟩

end LedgerIndex.Decimal
