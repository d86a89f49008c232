import LedgerIndex.Json.Reader
import LedgerIndex.Json.Text
import LedgerIndex.Proofs.Json.Values
import Mathlib.Data.List.TakeDrop

/-!
# Texts are read back

The text of a value whose numbers are integers (`Json.Integral`) is read as this value, whatever the
order of its members and whatever its strings hold (`Document.read_text`).  The reader is taken
through the text token by token: it reads back an escaped character, a run of digits, and then, by
induction on the value, a value in front of anything that does not go on with a number
(`Json.readValue_chars`).
-/

namespace LedgerIndex

open Json.Reader

/-! ## Strings -/

namespace Json

theorem escapeChar_ne_nil (c : Char) : escapeChar c ≠ [] := by
  unfold escapeChar
  split_ifs <;> simp

theorem length_le_escape (cs : List Char) : cs.length ≤ (cs.flatMap escapeChar).length := by
  induction cs with
  | nil => exact Nat.le_refl _
  | cons c cs ih =>
    have hc := List.length_pos_iff.2 (escapeChar_ne_nil c)
    rw [List.flatMap_cons, List.length_append, List.length_cons]
    omega

/-- A control character is written with its number. -/
theorem hex4_control {n : Nat} (hn : n < 0x20) (rest : List Char) :
    hex4 ('0' :: '0' :: hexChar (n / 16) :: hexChar (n % 16) :: rest) = .ok (n, rest) := by
  have hdigits : ∀ n < 0x20, hexDigit? (hexChar (n / 16)) = some (n / 16) ∧
      hexDigit? (hexChar (n % 16)) = some (n % 16) := by decide
  obtain ⟨hhigh, hlow⟩ := hdigits n hn
  have hzero : hexDigit? '0' = some 0 := rfl
  have hsum : ((0 * 16 + 0) * 16 + n / 16) * 16 + n % 16 = n := by omega
  simp only [hex4, hzero, hhigh, hlow, hsum]

end Json

namespace Json.Reader

theorem pieces_plain {c : Char} (hquote : c ≠ '"') (hslash : c ≠ '\\') (hcontrol : ¬ c.toNat < 0x20)
    (fuel : Nat) (rest : List Char) :
    pieces (fuel + 1) (c :: rest) =
      (.char c :: (pieces fuel rest).1, (pieces fuel rest).2) := by
  rw [pieces]
  · rw [if_neg hcontrol]
  all_goals simp_all

/-- A character is read back from what stands for it. -/
theorem pieces_escapeChar (c : Char) (fuel : Nat) (rest : List Char) :
    pieces (fuel + 1) (escapeChar c ++ rest) =
      (.char c :: (pieces fuel rest).1, (pieces fuel rest).2) := by
  unfold escapeChar
  split_ifs with hquote hslash hcontrol hb ht hn hf hr
  · subst hquote; rfl
  · subst hslash; rfl
  · subst hb; rfl
  · subst ht; rfl
  · subst hn; rfl
  · subst hf; rfl
  · subst hr; rfl
  · have hhalf : isHalf c.toNat = false := by
      rw [isHalf, Bool.and_eq_false_iff]
      left
      rw [decide_eq_false_iff_not]
      omega
    simp only [List.cons_append, List.nil_append, pieces, hex4_control hcontrol, hhalf,
      Char.ofNat_toNat, Bool.false_eq_true, if_false]
  · exact pieces_plain hquote hslash hcontrol fuel rest

theorem pieces_escape (cs rest : List Char) {fuel : Nat} (hfuel : cs.length < fuel) :
    pieces fuel (cs.flatMap escapeChar ++ '"' :: rest) = (cs.map .char, .ok rest) := by
  induction cs generalizing fuel with
  | nil =>
    obtain ⟨fuel, rfl⟩ := Nat.exists_eq_add_one_of_ne_zero (Nat.ne_of_gt hfuel)
    rfl
  | cons c cs ih =>
    obtain ⟨fuel, rfl⟩ := Nat.exists_eq_add_one_of_ne_zero (Nat.ne_of_gt (Nat.zero_lt_of_lt hfuel))
    have hrest := ih (Nat.lt_of_succ_lt_succ hfuel)
    rw [List.flatMap_cons, List.append_assoc, pieces_escapeChar, hrest]
    rfl

/-- Characters need no joining. -/
theorem join_map_char (atEnd : Fault) (cs : List Char) : join atEnd (cs.map .char) = .ok cs := by
  induction cs with
  | nil => rfl
  | cons c cs ih => rw [List.map_cons, join, ih, Except.map]

/-- A string is read back up to its closing quote. -/
theorem readString_escape (s : String) (rest : List Char) :
    readString (escape s ++ '"' :: rest) = (.ok s, .ok rest) := by
  have hfuel : s.toList.length < (escape s ++ '"' :: rest).length + 1 := by
    have hlength : s.toList.length ≤ (escape s).length := length_le_escape s.toList
    rw [List.length_append]
    omega
  have hpieces : pieces ((escape s ++ '"' :: rest).length + 1) (escape s ++ '"' :: rest) =
      (s.toList.map .char, .ok rest) := pieces_escape s.toList rest hfuel
  simp only [readString, hpieces, join_map_char, Except.map, String.ofList_toList]

end Json.Reader

/-! ## Integers -/

/-- A text does not go on with a number. -/
def Delimits : List Char → Prop
  | [] => True
  | c :: _ => c.isDigit = false ∧ c ≠ '.' ∧ c ≠ 'e' ∧ c ≠ 'E'

theorem value_digits (n : Nat) : Decimal.value (digits n) = n := by
  have hvalue := Nat.ofDigitChars_ten_toDigits (n := n)
  rw [Nat.ofDigitChars_eq_foldl] at hvalue
  simpa only [Decimal.value, digits, Nat.mul_comm 10] using hvalue

theorem isDigit_of_mem_digits {n : Nat} {c : Char} (h : c ∈ digits n) : c.isDigit = true :=
  Nat.isDigit_of_mem_toDigits (by decide) (by decide) h

theorem exists_digits_cons (n : Nat) : ∃ c cs, digits n = c :: cs ∧ c.isDigit = true := by
  obtain ⟨c, cs, h⟩ := List.exists_cons_of_ne_nil (Nat.toDigits_ne_nil (n := n) (b := 10))
  have hdigits : digits n = c :: cs := h
  exact ⟨c, cs, hdigits, isDigit_of_mem_digits (by rw [hdigits]; exact List.mem_cons_self)⟩

/-- Only zero begins with a zero. -/
theorem head_digits_ne (n : Nat) (hn : n ≠ 0) : (digits n).head? ≠ some '0' := by
  induction n using Nat.strongRecOn with
  | ind n ih =>
    rw [digits, Nat.toDigits_eq_if (by decide)]
    split
    · rename_i hlt
      have hdigit : ∀ n < 10, n ≠ 0 → n.digitChar ≠ '0' := by decide
      simpa using hdigit n hlt hn
    · rename_i hge
      have hhead := ih (n / 10) (Nat.div_lt_self (Nat.pos_of_ne_zero hn) (by decide)) (by omega)
      rw [digits] at hhead
      rwa [List.head?_append_of_ne_nil _ Nat.toDigits_ne_nil]

/-- The digits of a number are a zero, or begin with another digit. -/
theorem digits_cases (n : Nat) :
    digits n = ['0'] ∨ ∃ c cs, digits n = c :: cs ∧ c ≠ '0' := by
  by_cases hn : n = 0
  · subst hn
    exact .inl rfl
  · right
    have hhead := head_digits_ne n hn
    cases h : digits n with
    | nil => exact absurd h Nat.toDigits_ne_nil
    | cons c cs =>
      rw [h] at hhead
      exact ⟨c, cs, rfl, by simpa using hhead⟩

theorem span_digits (n : Nat) {rest : List Char} (hrest : Delimits rest) :
    (digits n ++ rest).span Char.isDigit = (digits n, rest) := by
  have hstop : rest.takeWhile Char.isDigit = [] ∧ rest.dropWhile Char.isDigit = rest := by
    cases rest with
    | nil => exact ⟨rfl, rfl⟩
    | cons c rest => simp [hrest.1]
  have hdigits : ∀ c ∈ digits n, c.isDigit = true := fun _ => isDigit_of_mem_digits
  rw [List.span_eq_takeWhile_dropWhile, List.takeWhile_append_of_pos hdigits,
    List.dropWhile_append_of_pos hdigits, hstop.1, hstop.2, List.append_nil]

namespace Json.Reader

theorem readExponent_of_delimits (negative : Bool) (whole : List Char)
    (fraction : Option (List Char)) {rest : List Char} (hrest : Delimits rest) :
    readExponent negative whole fraction rest =
      (.number (number? negative whole fraction none false), some rest) := by
  cases rest with
  | nil => rfl
  | cons c rest =>
    obtain ⟨-, -, hlower, hupper⟩ := hrest
    simp [readExponent, hlower, hupper]

/-- A run of digits is a number by itself. -/
theorem readNumber_digits (negative : Bool) (n : Nat) {rest : List Char} (hrest : Delimits rest) :
    readNumber negative (digits n ++ rest) =
      (.number (number? negative (digits n) none none false), some rest) := by
  rw [readNumber, span_digits n hrest, ← readExponent_of_delimits negative _ none hrest]
  have hpoint (tail : List Char) : rest ≠ '.' :: tail := by
    rintro rfl
    exact hrest.2.1 rfl
  obtain h | ⟨c, cs, h, hc⟩ := digits_cases n <;> rw [h]
  · split <;> simp_all
  · split <;> simp_all

/-- A natural number of 64 bits stays an integer. -/
theorem number?_digits {n : Nat} (hn : n < UInt64.size) :
    number? false (digits n) none none false = some (.int n) := by
  simp [number?, value_digits, hn]

/-- So does a negative number. -/
theorem number?_digits_succ {n : Nat} (hn : n + 1 ≤ Nat.pow 2 63) :
    number? true (digits (n + 1)) none none false = some (.int (.negSucc n)) := by
  have hn' : n + 1 ≤ 9223372036854775808 := hn
  simp [number?, value_digits, hn', Int.negSucc_eq]

end Json.Reader

/-! ## Values -/

namespace Json

/-- All numbers of a value are integers of 64 bits, signed or unsigned.  What is written `-0` is
one, though it is kept as a double. -/
inductive Integral : Json → Prop
  | null : Integral .null
  | bool (b : Bool) : Integral (.bool b)
  | int {i : Int} : -Nat.pow 2 63 ≤ i → i < UInt64.size → Integral (.number (.int i))
  | minusZero : Integral (.number .minusZero)
  | string (s : String) : Integral (.string s)
  | array {items : List Json} : (∀ item ∈ items, Integral item) → Integral (.array items)
  | object {members : List (String × Json)} : (∀ m ∈ members, Integral m.2) →
      Integral (.object members)

attribute [simp] Integral.null Integral.bool Integral.minusZero Integral.string

theorem integral_int {i : Int} :
    Integral (.number (.int i)) ↔ -Nat.pow 2 63 ≤ i ∧ i < UInt64.size := by
  constructor
  · rintro (⟨⟩ | ⟨⟩)
    rename_i hlow hhigh
    exact ⟨hlow, hhigh⟩
  · exact fun h => .int h.1 h.2

theorem integral_array {items : List Json} :
    Integral (.array items) ↔ ∀ item ∈ items, Integral item := by
  constructor
  · rintro (⟨⟩ | ⟨⟩)
    assumption
  · exact .array

theorem integral_object {members : List (String × Json)} :
    Integral (.object members) ↔ ∀ m ∈ members, Integral m.2 := by
  constructor
  · rintro (⟨⟩ | ⟨⟩)
    assumption
  · exact .object

theorem Integral.ofMembers {members : List (String × Json)} (h : ∀ m ∈ members, Integral m.2) :
    Integral (.ofMembers members) :=
  .object fun m hm => h m (mem_of_mem_arranged hm)

theorem Integral.ofOption {α : Type} {f : α → Json} {a : Option α}
    (h : ∀ x ∈ a, Integral (f x)) : Integral (.ofOption f a) := by
  cases a with
  | none => exact .null
  | some x => exact h x rfl

@[simp]
theorem Integral.ofOption_string (s : Option String) : Integral (.ofOption .string s) :=
  .ofOption fun _ _ => .string _

theorem Integral.ofUInt64 (n : UInt64) : Integral (.ofUInt64 n) :=
  .int (Int.le_trans (by decide) (Int.natCast_nonneg _)) (Int.ofNat_lt.2 n.toNat_lt_size)

theorem isBlank_of_isDigit {c : Char} (hc : c.isDigit = true) : isBlank c = false := by
  cases hblank : isBlank c with
  | false => rfl
  | true =>
    simp only [isBlank, Bool.or_eq_true, decide_eq_true_eq] at hblank
    obtain ((rfl | rfl) | rfl) | rfl := hblank <;> cases hc

/-- A value begins with neither a blank nor a closing bracket. -/
theorem Integral.exists_cons {v : Json} (h : v.Integral) :
    ∃ c cs, v.chars = c :: cs ∧ isBlank c = false ∧ c ≠ ']' := by
  cases h with
  | null => exact ⟨_, _, rfl, rfl, by decide⟩
  | bool b => cases b <;> exact ⟨_, _, rfl, rfl, by decide⟩
  | @int i =>
    cases i with
    | ofNat n =>
      obtain ⟨c, cs, hdigits, hc⟩ := exists_digits_cons n
      refine ⟨c, cs, hdigits, isBlank_of_isDigit hc, ?_⟩
      rintro rfl
      cases hc
    | negSucc n => exact ⟨_, _, rfl, rfl, by decide⟩
  | minusZero => exact ⟨_, _, rfl, rfl, by decide⟩
  | string s => exact ⟨_, _, rfl, rfl, by decide⟩
  | @array items => cases items <;> exact ⟨_, _, rfl, rfl, by decide⟩
  | @object members => cases members <;> exact ⟨_, _, rfl, rfl, by decide⟩

namespace Reader

theorem skipBlank_cons {c : Char} (hc : isBlank c = false) (rest : List Char) :
    skipBlank (c :: rest) = c :: rest := by
  rw [skipBlank, List.dropWhile_cons, hc]
  rfl

theorem readValue_of_isDigit {c : Char} (hc : c.isDigit = true) (fuel : Nat) (rest : List Char) :
    readValue (fuel + 1) (c :: rest) = readNumber false (c :: rest) := by
  rw [readValue, skipBlank_cons (isBlank_of_isDigit hc)]
  split <;> rename_i h <;> cases h <;> first | cases hc | skip
  rw [if_pos hc]

end Reader

/-- What the reader makes of a value in front of anything that does not go on with a number. -/
def ReadAs (v : Json) : Prop :=
  ∀ (rest : List Char) (fuel : Nat), Delimits rest → 2 * v.chars.length ≤ fuel →
    readValue fuel (v.chars ++ rest) = (.ofJson v, some rest)

theorem delimits_charsItems (items : List Json) (rest : List Char) :
    Delimits (charsItems items ++ rest) := by
  cases items <;> exact ⟨rfl, by decide, by decide, by decide⟩

theorem delimits_charsMembers (members : List (String × Json)) (rest : List Char) :
    Delimits (charsMembers members ++ rest) := by
  cases members with
  | nil => exact ⟨rfl, by decide, by decide, by decide⟩
  | cons m members => exact ⟨rfl, by decide, by decide, by decide⟩

namespace Reader

section Steps

variable {fuel : Nat} {cs rest more : List Char} {item : Reading} {name : String}

/-- The last item of an array. -/
theorem readItems_last (hitem : readValue fuel cs = (item, some rest))
    (hrest : skipBlank rest = ']' :: more) :
    readItems (fuel + 1) cs = ([item], .closed, some more) := by
  simp only [readItems, hitem, hrest]

/-- An item of an array with others after it. -/
theorem readItems_next (hitem : readValue fuel cs = (item, some rest))
    (hrest : skipBlank rest = ',' :: more) :
    readItems (fuel + 1) cs = (item :: (readItems fuel more).1, (readItems fuel more).2) := by
  simp only [readItems, hitem, hrest]

theorem skipBlank_quote (name : String) (cs : List Char) :
    skipBlank (quote name ++ cs) = '"' :: (escape name ++ '"' :: cs) := by
  rw [quote, List.cons_append, List.cons_append, List.append_assoc]
  exact skipBlank_cons rfl _

/-- The last member of an object. -/
theorem readMembers_last (hvalue : readValue fuel cs = (item, some rest))
    (hrest : skipBlank rest = '\x7d' :: more) :
    readMembers (fuel + 1) (quote name ++ ':' :: cs) =
      ([(.ok name, item)], .closed, some more) := by
  have hcolon : skipBlank (':' :: cs) = ':' :: cs := skipBlank_cons rfl _
  simp only [readMembers, skipBlank_quote, readString_escape, hcolon, hvalue, hrest]

/-- A member of an object with others after it. -/
theorem readMembers_next (hvalue : readValue fuel cs = (item, some rest))
    (hrest : skipBlank rest = ',' :: more) :
    readMembers (fuel + 1) (quote name ++ ':' :: cs) =
      ((.ok name, item) :: (readMembers fuel more).1, (readMembers fuel more).2) := by
  have hcolon : skipBlank (':' :: cs) = ':' :: cs := skipBlank_cons rfl _
  simp only [readMembers, skipBlank_quote, readString_escape, hcolon, hvalue, hrest]

theorem readValue_quote (fuel : Nat) (s : String) (rest : List Char) :
    readValue (fuel + 1) (quote s ++ rest) = (.string (.ok s), some rest) := by
  simp only [readValue, skipBlank_quote, readString_escape]

/-- An array with items. -/
theorem readValue_bracket {c : Char} (hblank : isBlank c = false) (hbracket : c ≠ ']') :
    readValue (fuel + 1) ('[' :: c :: cs) =
      (.array (readItems fuel (c :: cs)).1 (readItems fuel (c :: cs)).2.1,
        (readItems fuel (c :: cs)).2.2) := by
  have hopen : skipBlank ('[' :: c :: cs) = '[' :: c :: cs := skipBlank_cons rfl _
  simp only [readValue, hopen, skipBlank_cons hblank]
  split
  · rename_i h
    exact absurd (List.cons.inj h).1 hbracket
  · rfl

/-- An object with members. -/
theorem readValue_brace :
    readValue (fuel + 1) ('\x7b' :: (quote name ++ cs)) =
      (.object (readMembers fuel (quote name ++ cs)).1 (readMembers fuel (quote name ++ cs)).2.1,
        (readMembers fuel (quote name ++ cs)).2.2) := by
  have hquote : quote name ++ cs = '"' :: (escape name ++ '"' :: cs) := by
    rw [quote, List.cons_append, List.cons_append, List.append_assoc]
    rfl
  rw [hquote]
  generalize escape name ++ '"' :: cs = rest
  have hopen : skipBlank ('\x7b' :: '"' :: rest) = '\x7b' :: '"' :: rest := skipBlank_cons rfl _
  have hname : skipBlank ('"' :: rest) = '"' :: rest := skipBlank_cons rfl _
  simp only [readValue, hopen, hname]
  rfl

end Steps

end Reader

theorem readItems_chars {items : List Json} (rest : List Char) (item : Json)
    (h : ∀ v ∈ item :: items, v.ReadAs) {fuel : Nat}
    (hfuel : 2 * (item.chars ++ charsItems items).length ≤ fuel) :
    readItems fuel (item.chars ++ (charsItems items ++ rest)) =
      (Reading.ofItems (item :: items), .closed, some rest) := by
  induction items generalizing item fuel with
  | nil =>
    obtain ⟨hitem, -⟩ := List.forall_mem_cons.1 h
    rw [charsItems, List.length_append, List.length_singleton] at hfuel
    obtain ⟨fuel, rfl⟩ : ∃ f, fuel = f + 1 := ⟨fuel - 1, by omega⟩
    exact readItems_last (hitem _ fuel (delimits_charsItems [] rest) (by omega))
      (skipBlank_cons rfl _)
  | cons next items ih =>
    obtain ⟨hitem, hitems⟩ := List.forall_mem_cons.1 h
    rw [List.length_append, charsItems, List.length_append, List.length_cons] at hfuel
    obtain ⟨fuel, rfl⟩ : ∃ f, fuel = f + 1 := ⟨fuel - 1, by omega⟩
    have hvalue := hitem _ fuel (delimits_charsItems (next :: items) rest) (by omega)
    have hcomma : skipBlank (charsItems (next :: items) ++ rest) =
        ',' :: (next.chars ++ (charsItems items ++ rest)) := by
      rw [charsItems, List.append_assoc, List.cons_append]
      exact skipBlank_cons rfl _
    rw [readItems_next hvalue hcomma, ih next hitems (by rw [List.length_append]; omega)]
    rfl

theorem readMembers_chars {members : List (String × Json)} (rest : List Char) (m : String × Json)
    (h : ∀ m' ∈ m :: members, m'.2.ReadAs) {fuel : Nat}
    (hfuel : 2 * (m.2.chars ++ charsMembers members).length ≤ fuel) :
    readMembers fuel (quote m.1 ++ ':' :: (m.2.chars ++ (charsMembers members ++ rest))) =
      (Reading.ofMembers (m :: members), .closed, some rest) := by
  induction members generalizing m fuel with
  | nil =>
    obtain ⟨hm, -⟩ := List.forall_mem_cons.1 h
    rw [charsMembers, List.length_append, List.length_singleton] at hfuel
    obtain ⟨fuel, rfl⟩ : ∃ f, fuel = f + 1 := ⟨fuel - 1, by omega⟩
    exact readMembers_last (hm _ fuel (delimits_charsMembers [] rest) (by omega))
      (skipBlank_cons rfl _)
  | cons next members ih =>
    obtain ⟨hm, hmembers⟩ := List.forall_mem_cons.1 h
    rw [List.length_append, charsMembers, List.length_append, List.length_append,
      List.length_cons, List.length_cons] at hfuel
    obtain ⟨fuel, rfl⟩ : ∃ f, fuel = f + 1 := ⟨fuel - 1, by omega⟩
    have hvalue := hm _ fuel (delimits_charsMembers (next :: members) rest) (by omega)
    have hcomma : skipBlank (charsMembers (next :: members) ++ rest) =
        ',' :: (quote next.1 ++ ':' :: (next.2.chars ++ (charsMembers members ++ rest))) := by
      obtain ⟨name, value⟩ := next
      simp only [charsMembers, List.append_assoc, List.cons_append]
      exact skipBlank_cons rfl _
    rw [readMembers_next hvalue hcomma, ih next hmembers (by rw [List.length_append]; omega)]
    rfl

/-- There is always fuel for the first character of a value. -/
theorem ReadAs.intro {v : Json} (hv : v.Integral)
    (h : ∀ (rest : List Char) (fuel : Nat), Delimits rest → 2 * v.chars.length ≤ fuel + 1 →
      readValue (fuel + 1) (v.chars ++ rest) = (.ofJson v, some rest)) : v.ReadAs := by
  intro rest fuel hrest hfuel
  obtain ⟨c, cs, hchars, -⟩ := hv.exists_cons
  cases fuel with
  | zero => simp [hchars] at hfuel
  | succ fuel => exact h rest fuel hrest hfuel

theorem readAs_int {i : Int} (hlow : -Nat.pow 2 63 ≤ i) (hhigh : i < UInt64.size) :
    (number (.int i)).ReadAs := by
  refine .intro (.int hlow hhigh) fun rest fuel hrest _ => ?_
  cases i with
  | ofNat n =>
    have hn : n < UInt64.size := Int.ofNat_lt.1 hhigh
    obtain ⟨c, cs, hcons, hc⟩ := exists_digits_cons n
    have hchars : (number (.int (.ofNat n))).chars = digits n := rfl
    rw [hchars, hcons, List.cons_append, readValue_of_isDigit hc, ← List.cons_append, ← hcons,
      readNumber_digits false n hrest, number?_digits hn]
    rfl
  | negSucc n =>
    have hn : n + 1 ≤ Nat.pow 2 63 := by
      have hpow : Nat.pow 2 63 = 9223372036854775808 := rfl
      rw [hpow] at hlow ⊢
      omega
    have hchars : (number (.int (.negSucc n))).chars = '-' :: digits (n + 1) := rfl
    have hread : readValue (fuel + 1) ('-' :: (digits (n + 1) ++ rest)) =
        readNumber true (digits (n + 1) ++ rest) := rfl
    rw [hchars, List.cons_append, hread, readNumber_digits true _ hrest, number?_digits_succ hn]
    rfl

/-- Minus zero is written with a fraction. -/
theorem readAs_minusZero : (number .minusZero).ReadAs := by
  refine .intro .minusZero fun rest fuel hrest _ => ?_
  have hchars : (number .minusZero).chars ++ rest = '-' :: '0' :: '.' :: (digits 0 ++ rest) := rfl
  have hread : readValue (fuel + 1) ('-' :: '0' :: '.' :: (digits 0 ++ rest)) =
      readNumber true ('0' :: '.' :: (digits 0 ++ rest)) := rfl
  have hspan : ('0' :: '.' :: (digits 0 ++ rest)).span Char.isDigit =
      (['0'], '.' :: (digits 0 ++ rest)) := rfl
  rw [hchars, hread, readNumber, hspan]
  simp only [span_digits 0 hrest]
  exact readExponent_of_delimits true _ _ hrest

theorem readAs_array {items : List Json} (hitems : ∀ item ∈ items, item.Integral)
    (h : ∀ item ∈ items, item.ReadAs) : (array items).ReadAs := by
  refine .intro (.array hitems) fun rest fuel _ hfuel => ?_
  cases items with
  | nil => rfl
  | cons item items =>
    rw [chars, List.length_append, List.length_cons] at hfuel
    obtain ⟨c, cs, hcons, hblank, hbracket⟩ := (hitems item List.mem_cons_self).exists_cons
    have hread : readItems fuel (item.chars ++ (charsItems items ++ rest)) = _ :=
      readItems_chars rest item h (by rw [List.length_append]; omega)
    rw [hcons, List.cons_append] at hread
    rw [chars, List.append_assoc, List.cons_append, hcons, List.cons_append,
      readValue_bracket hblank hbracket, hread]
    rfl

theorem readAs_object {members : List (String × Json)} (hmembers : ∀ m ∈ members, m.2.Integral)
    (h : ∀ m ∈ members, m.2.ReadAs) : (object members).ReadAs := by
  refine .intro (.object hmembers) fun rest fuel _ hfuel => ?_
  cases members with
  | nil => rfl
  | cons m members =>
    obtain ⟨name, value⟩ := m
    simp only [chars, List.length_append, List.length_cons] at hfuel
    have hread : readMembers fuel
        (quote name ++ ':' :: (value.chars ++ (charsMembers members ++ rest))) = _ :=
      readMembers_chars rest (name, value) h (by dsimp only; rw [List.length_append]; omega)
    have hchars : (object ((name, value) :: members)).chars ++ rest =
        '\x7b' :: (quote name ++ ':' :: (value.chars ++ (charsMembers members ++ rest))) := by
      simp only [chars, List.append_assoc, List.cons_append]
    rw [hchars, readValue_brace, hread]
    rfl

/-- The reader reads a value back, and leaves what comes after it. -/
theorem readValue_chars {v : Json} (h : v.Integral) : v.ReadAs := by
  induction h with
  | null => exact .intro .null fun _ _ _ _ => rfl
  | bool b => exact .intro (.bool b) fun _ _ _ _ => by cases b <;> rfl
  | int hlow hhigh => exact readAs_int hlow hhigh
  | minusZero => exact readAs_minusZero
  | string s => exact .intro (.string s) fun rest fuel _ _ => readValue_quote fuel s rest
  | array hitems ih => exact readAs_array hitems ih
  | object hmembers ih => exact readAs_object hmembers ih

end Json

/-! ## Texts -/

/-- **Texts are read back.**  The text of a value whose numbers are integers holds just the reading
of this value. -/
theorem Document.read_text {v : Json} (h : v.Integral) :
    Document.read v.text = ⟨.ofJson v, .ok ()⟩ := by
  have hread := Json.readValue_chars h [] (2 * v.chars.length + 2) trivial (Nat.le_add_right _ 2)
  rw [List.append_nil] at hread
  rw [read, Json.text, String.toList_ofList, hread]
  rfl

/-- A text says a value: it is well formed, names each member of an object once, and this is the
value that it holds. -/
def Says (text : String) (v : Json) : Prop :=
  ∃ r : Reading, Document.read text = ⟨r, .ok ()⟩ ∧ r.Distinct ∧ r.json Json.maxDepth = .ok v

/-- A text says one value only. -/
theorem Says.unique {text : String} {v w : Json} (hv : Says text v) (hw : Says text w) : v = w := by
  obtain ⟨r, hread, -, hr⟩ := hv
  obtain ⟨r', hread', -, hr'⟩ := hw
  obtain rfl : r = r' := congrArg Document.value (hread.symm.trans hread')
  exact Except.ok.inj (hr.symm.trans hr')

/-- The text of a value says it. -/
theorem says_text {v : Json} (h : v.Integral) (hkept : v.Kept Json.maxDepth) : Says v.text v :=
  ⟨.ofJson v, Document.read_text h, Reading.distinct_ofJson hkept, Reading.json_ofJson hkept⟩

end LedgerIndex
