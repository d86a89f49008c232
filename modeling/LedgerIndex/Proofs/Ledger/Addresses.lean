import LedgerIndex.Ledger.EventType
import LedgerIndex.Proofs.Decimal.Positional

/-!
# Addresses are compared by value

An address is a number, written in hexadecimal digits of either case with as many zeros in front as
the writer likes, possibly after a mark (`WrittenAddress`).  What is compared of two addresses is
the numeral of this number: no mark, lower case, no zeros in front, and nothing at all for zero
(`addressDigits_text`).  A numeral gives its number back (`positional_hexNumeral`), so the
comparison is that of the numbers, and how they are written does not matter (`sameAddress_text`).
-/

namespace LedgerIndex

open Digits

/-! ## Hexadecimal digits -/

/-- The hexadecimal digits, in either case. -/
def hexDigits : List Char := "0123456789abcdefABCDEF".toList

theorem mem_hexDigits {c : Char} {d : Nat} (h : digit? 16 c = some d) : c ∈ hexDigits := by
  have hrange : ('0' ≤ c ∧ c ≤ '9') ∨ ('a' ≤ c ∧ c ≤ 'f') ∨ ('A' ≤ c ∧ c ≤ 'F') := by
    by_contra hnone
    simp only [not_or] at hnone
    obtain ⟨hdigit, hlower, hupper⟩ := hnone
    simp [digit?, hdigit, hlower, hupper] at h
  -- the same ranges by codes, few enough to go through
  have hcode : (48 ≤ c.toNat ∧ c.toNat ≤ 57) ∨ (97 ≤ c.toNat ∧ c.toNat ≤ 102) ∨
      (65 ≤ c.toNat ∧ c.toNat ≤ 70) := hrange
  have hall : ∀ n < 103, (48 ≤ n ∧ n ≤ 57) ∨ (97 ≤ n ∧ n ≤ 102) ∨ (65 ≤ n ∧ n ≤ 70) →
      Char.ofNat n ∈ hexDigits := by decide
  have hc := hall c.toNat (by omega) hcode
  rwa [Char.ofNat_toNat] at hc

theorem toLower_of_digit? {c : Char} {d : Nat} (h : digit? 16 c = some d) :
    c.toLower = Nat.digitChar d := by
  have hall :
      hexDigits.all (fun c => (digit? 16 c).map Nat.digitChar == some c.toLower) = true := by decide
  have hc := List.all_eq_true.1 hall c (mem_hexDigits h)
  rw [h, beq_iff_eq] at hc
  exact (Option.some.inj hc).symm

/-- The zero is written in one way only. -/
theorem eq_zero_iff_of_digit? {c : Char} {d : Nat} (h : digit? 16 c = some d) :
    c = '0' ↔ d = 0 := by
  have hall : hexDigits.all (fun c => c = '0' ↔ digit? 16 c = some 0) = true := by decide
  have hc := List.all_eq_true.1 hall c (mem_hexDigits h)
  rw [decide_eq_true_eq] at hc
  rw [hc, h, Option.some.injEq]

/-- A run of digits in lower case is that of their values. -/
theorem map_toLower {cs : List Char} (h : AllDigits 16 cs) :
    cs.map Char.toLower = (values 16 cs).map Nat.digitChar := by
  induction cs with
  | nil => rfl
  | cons c cs ih =>
    obtain ⟨⟨d, hd⟩, hcs⟩ := allDigits_cons.1 h
    rw [values_cons hd, List.map_cons, List.map_cons, toLower_of_digit? hd, ih hcs]

/-- So is what is left of it without the zeros in front. -/
theorem map_toLower_dropWhile {cs : List Char} (h : AllDigits 16 cs) :
    (cs.dropWhile (· == '0')).map Char.toLower =
      ((values 16 cs).dropWhile (· == 0)).map Nat.digitChar := by
  induction cs with
  | nil => rfl
  | cons c cs ih =>
    obtain ⟨⟨d, hd⟩, hcs⟩ := allDigits_cons.1 h
    rw [values_cons hd]
    by_cases hc : c = '0'
    · have hzero := (eq_zero_iff_of_digit? hd).1 hc
      simpa [hc, hzero] using ih hcs
    · -- zeros behind another digit stay
      have hzero : d ≠ 0 := fun hzero => hc ((eq_zero_iff_of_digit? hd).2 hzero)
      have hall := map_toLower h
      rw [values_cons hd] at hall
      simpa [hc, hzero] using hall

/-! ## Numerals -/

/-- The numeral of a number: its digits in lower case, without zeros in front. -/
def hexNumeral (n : Nat) : List Char := (Nat.digits 16 n).reverse.map Nat.digitChar

theorem values_map_digitChar {ds : List Nat} (h : ∀ d ∈ ds, d < 16) :
    values 16 (ds.map Nat.digitChar) = ds := by
  have hdigit : ∀ d < 16, digit? 16 (Nat.digitChar d) = some d := by decide
  induction ds with
  | nil => rfl
  | cons d ds ih =>
    obtain ⟨hd, hds⟩ := List.forall_mem_cons.1 h
    rw [List.map_cons, values_cons (hdigit d hd), ih hds]

/-- A numeral gives its number back. -/
theorem positional_hexNumeral (n : Nat) : positional 16 (hexNumeral n) = n := by
  have hlt : ∀ d ∈ (Nat.digits 16 n).reverse, d < 16 := by
    intro d hd
    exact Nat.digits_lt_base (by decide) (List.mem_reverse.1 hd)
  rw [hexNumeral, positional, values_map_digitChar hlt, List.reverse_reverse, Nat.ofDigits_digits]

theorem hexNumeral_inj {m n : Nat} : hexNumeral m = hexNumeral n ↔ m = n := by
  constructor
  · intro h
    rw [← positional_hexNumeral m, h, positional_hexNumeral]
  · rintro rfl
    rfl

/-! ## Addresses as they are written -/

/-- An address as it is written: hexadecimal digits in any case, any number of them, possibly after
a mark. -/
structure WrittenAddress where
  marked : Bool
  digits : List Char
  all_digits : AllDigits 16 digits

namespace WrittenAddress

variable (a : WrittenAddress)

/-- The text of the address. -/
def text : String := (if a.marked then "0x" else "") ++ String.ofList a.digits

/-- The number that the address is. -/
def number : Nat := positional 16 a.digits

/-- The mark is taken away, and nothing else: digits do not look like one. -/
theorem dropHexMark_text : dropHexMark a.text.toList = a.digits := by
  obtain ⟨marked, digits, hall⟩ := a
  cases marked with
  | true => simp [text, dropHexMark]
  | false =>
    have htext : (WrittenAddress.mk false digits hall).text.toList = digits := by simp [text]
    rw [htext]
    unfold dropHexMark
    split
    · -- the second digit would be an `x`
      have hx := hall 'x' (by simp)
      exact absurd hx (by decide)
    · rfl

/-- **What is compared is the numeral of the number.** -/
theorem addressDigits_text : addressDigits a.text = hexNumeral a.number := by
  rw [addressDigits, dropHexMark_text, map_toLower_dropWhile a.all_digits, hexNumeral, number,
    digits_positional (by decide), List.reverse_reverse]

theorem sameAddress_iff {a b : WrittenAddress} :
    sameAddress a.text b.text = true ↔ a.number = b.number := by
  rw [sameAddress, beq_iff_eq, addressDigits_text, addressDigits_text, hexNumeral_inj]

/-- Case and zeros in front do not change the number. -/
theorem number_eq_of_respelled {a b : WrittenAddress} {k : Nat}
    (h : b.digits.map Char.toLower = List.replicate k '0' ++ a.digits.map Char.toLower) :
    b.number = a.number := by
  have hpadded : AllDigits 16 (List.replicate k '0' ++ a.digits) := by
    intro c hc
    obtain hc | hc := List.mem_append.1 hc
    · rw [List.eq_of_mem_replicate hc]
      decide
    · exact a.all_digits c hc
  have hlower : b.digits.map Char.toLower =
      (List.replicate k '0' ++ a.digits).map Char.toLower := by
    rw [h, List.map_append, List.map_replicate]
    rfl
  rw [map_toLower b.all_digits, map_toLower hpadded] at hlower
  have hvalues : values 16 b.digits = values 16 (List.replicate k '0' ++ a.digits) := by
    rw [← values_map_digitChar fun _ hd => values_lt hd, hlower,
      values_map_digitChar fun _ hd => values_lt hd]
  rw [number, positional, hvalues, ← positional, positional_replicate_zero (by decide), number]

/-- **Addresses are compared by value.**  Two texts of hexadecimal digits, with or without a mark,
are the same address just if they are the same number, no digits being zero.  So this is an
equivalence of such texts, and it holds between all ways to write a number: marked or not, in any
case, with any number of zeros in front. -/
theorem sameAddress_text :
    (∀ a b : WrittenAddress, sameAddress a.text b.text = true ↔ a.number = b.number) ∧
      (Equivalence fun a b : WrittenAddress => sameAddress a.text b.text = true) ∧
      ∀ (a b : WrittenAddress) (k : Nat),
        b.digits.map Char.toLower = List.replicate k '0' ++ a.digits.map Char.toLower →
          sameAddress a.text b.text = true := by
  refine ⟨fun a b => sameAddress_iff, ⟨?_, ?_, ?_⟩, ?_⟩
  · intro a
    exact sameAddress_iff.2 rfl
  · intro a b hab
    exact sameAddress_iff.2 (sameAddress_iff.1 hab).symm
  · intro a b c hab hbc
    exact sameAddress_iff.2 ((sameAddress_iff.1 hab).trans (sameAddress_iff.1 hbc))
  · intro a b k h
    exact sameAddress_iff.2 (number_eq_of_respelled h).symm

/-- An address with a zero in its midst and one at its end. -/
def shop : WrittenAddress := ⟨false, ['a', '0', 'B', '0'], by decide⟩

/-- The same address with a mark and zeros in front, in the other case. -/
def shopPadded : WrittenAddress := ⟨true, ['0', '0', '0', 'A', '0', 'b', '0'], by decide⟩

/-- Zero, with a mark and without digits. -/
def zeroMarked : WrittenAddress := ⟨true, [], by decide⟩

/-- Zero, written as a single digit. -/
def zeroDigit : WrittenAddress := ⟨false, ['0'], by decide⟩

/-- What the address would be without the zero at its end. -/
def shopCut : WrittenAddress := ⟨true, ['a', '0', 'b'], by decide⟩

theorem sameAddress_text_shop :
    shop.text = "a0B0" ∧ shopPadded.text = "0x000A0b0" ∧
      sameAddress shop.text shopPadded.text = true ∧
      sameAddress zeroMarked.text zeroDigit.text = true ∧
      sameAddress shop.text shopCut.text = false := by
  obtain ⟨hvalue, -, hrespelled⟩ := sameAddress_text
  refine ⟨by decide, by decide, ?_, ?_, ?_⟩
  · exact hrespelled shop shopPadded 3 (by decide)
  · exact hrespelled zeroMarked zeroDigit 1 (by decide)
  · rw [Bool.eq_false_iff, Ne, hvalue]
    decide

end WrittenAddress

end LedgerIndex
