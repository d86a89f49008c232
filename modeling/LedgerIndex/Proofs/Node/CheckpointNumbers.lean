import LedgerIndex.Node.Client
import LedgerIndex.Proofs.Decimal.Words
import LedgerIndex.Proofs.Json.Texts
import LedgerIndex.Proofs.Node.CallLog

/-!
# Checkpoint numbers are read exactly

A node sends a checkpoint as an integer or spells it out in a text; the words that a value may say
so are told apart from the reader (`SaysWord`).  The reader finds just these: what is too large for
a word is refused and not wrapped around, and a double is no checkpoint, be it whole or not.  The
head of the ledger and the checkpoints of its blocks are read by this one rule, and where it finds
no word there is an error (`checkpoints_read`).
-/

namespace LedgerIndex.Node

/-! ## Words that are said -/

/-- A value says a word: it is the integer number, or a text that spells it. -/
inductive SaysWord : Json → UInt64 → Prop
  | integer (n : UInt64) : SaysWord (.number (.int n.toNat)) n
  | text {s : String} {n : UInt64} : Decimal.Spells s.toList n.toNat → SaysWord (.string s) n

theorem wordOf?_eq_some_iff {v : Json} {n : UInt64} : wordOf? v = some n ↔ SaysWord v n := by
  constructor
  · intro h
    cases v with
    | string s => exact .text (Decimal.wordOfChars?_eq_some_iff.1 h)
    | number m =>
      obtain rfl := Number.toUInt64?_eq_some_iff.1 h
      exact .integer n
    | null | bool | array | object => cases h
  · intro h
    cases h with
    | integer => exact Number.toUInt64?_ofUInt64 n
    | text h => exact Decimal.wordOfChars?_eq_some_iff.2 h

/-- A number that is spelled out is read as it is or, if it is no word, not at all. -/
theorem map_toNat_wordOf? {s : String} {m : Nat} (h : Decimal.Spells s.toList m) :
    (wordOf? (.string s)).map UInt64.toNat = if m < 2 ^ 64 then some m else none := by
  split
  · rename_i hlt
    have hm : (UInt64.ofNat m).toNat = m := UInt64.toNat_ofNat_of_lt' hlt
    have hword : wordOf? (.string s) = some (.ofNat m) :=
      wordOf?_eq_some_iff.2 (.text (hm.symm ▸ h))
    rw [hword, Option.map_some, hm]
  · rename_i hge
    rw [Option.map_eq_none_iff, Option.eq_none_iff_forall_ne_some]
    intro n hn
    have hn := Decimal.spells_iff.1 (Decimal.wordOfChars?_eq_some_iff.1 hn)
    have hm := Decimal.spells_iff.1 h
    have hlt : n.toNat < 2 ^ 64 := n.toNat_lt
    rw [← hn.2.2, hm.2.2] at hlt
    exact hge hlt

/-- The decimal text of a number spells it. -/
theorem spells_repr (n : Nat) : Decimal.Spells (Nat.repr n).toList n := by
  have hall : ∀ c ∈ digits n, c.isDigit = true := fun _ => isDigit_of_mem_digits
  have hvalue : Digits.positional 10 (digits n) = n := by
    rw [← Decimal.value_eq_positional hall, value_digits]
  have hchars : (Nat.repr n).toList = digits n := String.toList_ofList
  have hspells : Decimal.Spells (digits n) (Digits.positional 10 (digits n)) :=
    .plain Nat.toDigits_ne_nil hall
  rw [hvalue] at hspells
  rwa [hchars]

/-! ## Answers -/

/-- What is answered are the words that are said, and an error if there is none. -/
structure Decided (said : UInt64 → Prop) (complaint : Error) (answer : Except Error UInt64) :
    Prop where
  ok_iff : ∀ n, answer = .ok n ↔ said n
  refused : (∀ n, ¬ said n) → answer = .error complaint

/-- The answer that goes by a reading with its error in place of nothing. -/
theorem decided_of_reading {said : UInt64 → Prop} {complaint : Error}
    {answer : Except Error UInt64} {reading : Option UInt64}
    (hreading : ∀ n, reading = some n ↔ said n)
    (hanswer : answer = reading.elim (.error complaint) .ok) :
    Decided said complaint answer := by
  subst hanswer
  cases reading with
  | none => exact ⟨fun n => by simp [← hreading], fun _ => rfl⟩
  | some m =>
    refine ⟨fun n => by simp [← hreading], fun hnone => ?_⟩
    exact absurd ((hreading m).1 rfl) (hnone m)

theorem decided_headOf (v : Json) :
    Decided (SaysWord v) (.rpc ("invalid checkpoint number: " ++ v.text)) (headOf v) := by
  apply decided_of_reading fun n => wordOf?_eq_some_iff
  unfold headOf
  cases wordOf? v <;> rfl

namespace Block

theorem checkpoint?_eq_some_iff {b : Block} {n : UInt64} :
    b.checkpoint? = some n ↔ ∃ s, b.checkpoint = some s ∧ SaysWord (.string s) n := by
  rw [checkpoint?, Option.bind_eq_some_iff]
  refine exists_congr fun s => and_congr_right fun _ => ?_
  exact wordOf?_eq_some_iff (v := .string s)

theorem decided_toTransaction (b : Block) :
    Decided (fun n => ∃ s, b.checkpoint = some s ∧ SaysWord (.string s) n)
      (.rpc ("transaction " ++ b.digest ++ " has no checkpoint"))
      (b.toTransaction.map (·.checkpoint)) := by
  apply decided_of_reading fun n => checkpoint?_eq_some_iff
  unfold toTransaction
  cases b.checkpoint? <;> rfl

end Block

/-- **Checkpoint numbers are read exactly.**  A value is read as a word just if it says it, as an
integer or spelled out in a text; the digits of a text may be read one by one in the arithmetic of
words if each product and each sum is checked.  A text that spells a number too large for a word is
refused, however it is written, and each word is read from its own number and its own decimal text.
The head of the ledger and the checkpoint of a block are read by this rule, and where no word is
said the node's answer, or the block, is refused. -/
theorem checkpoints_read :
    (∀ (v : Json) (n : UInt64), wordOf? v = some n ↔ SaysWord v n) ∧
      (∀ s : String, wordOf? (.string s) = Decimal.readDigits? (Decimal.dropPlus s.toList)) ∧
      (∀ (s : String) (m : Nat), Decimal.Spells s.toList m →
        (wordOf? (.string s)).map UInt64.toNat = if m < 2 ^ 64 then some m else none) ∧
      (∀ n : UInt64, wordOf? (.number (.int n.toNat)) = some n ∧
        wordOf? (.string (Nat.repr n.toNat)) = some n) ∧
      (∀ v : Json,
        Decided (SaysWord v) (.rpc ("invalid checkpoint number: " ++ v.text)) (headOf v)) ∧
      ∀ b : Block,
        Decided (fun n => ∃ s, b.checkpoint = some s ∧ SaysWord (.string s) n)
          (.rpc ("transaction " ++ b.digest ++ " has no checkpoint"))
          (b.toTransaction.map (·.checkpoint)) := by
  refine ⟨fun v n => wordOf?_eq_some_iff, fun s => ?_, fun s m h => map_toNat_wordOf? h,
    fun n => ⟨?_, ?_⟩, decided_headOf, Block.decided_toTransaction⟩
  · exact Decimal.wordOfChars?_eq_readDigits? s.toList
  · exact wordOf?_eq_some_iff.2 (.integer n)
  · exact wordOf?_eq_some_iff.2 (.text (spells_repr n.toNat))

/-- The largest word, with a sign and zeros in front. -/
def lastWord : String := "+0000000000018446744073709551615"

/-- The number after it, as it is. -/
def firstTooLarge : String := "18446744073709551616"

/-- A block whose checkpoint is this text. -/
def blockAt (checkpoint : String) : Block := ⟨"d1", some checkpoint, none, none, []⟩

theorem checkpoints_read_limits :
    (wordOf? (.string lastWord)).map UInt64.toNat = some (2 ^ 64 - 1) ∧
      (wordOf? (.string firstTooLarge)).map UInt64.toNat = none ∧
      wordOf? (.number .minusZero) = none ∧
      headOf (.string lastWord) = .ok 0xFFFFFFFFFFFFFFFF ∧
      (blockAt firstTooLarge).toTransaction.map (·.checkpoint) =
        .error (.rpc "transaction d1 has no checkpoint") := by
  obtain ⟨hwords, -, hspelled, -, hhead, hblock⟩ := checkpoints_read
  have hlast : Decimal.Spells lastWord.toList (2 ^ 64 - 1) :=
    Decimal.spells_iff.2 ⟨by decide, List.all_eq_true.1 (by decide), by decide⟩
  have hlarge : Decimal.Spells firstTooLarge.toList (2 ^ 64) :=
    Decimal.spells_iff.2 ⟨by decide, List.all_eq_true.1 (by decide), by decide⟩
  have hnone : wordOf? (.string firstTooLarge) = none := by
    rw [← Option.map_eq_none_iff]
    exact hspelled firstTooLarge _ hlarge
  refine ⟨hspelled lastWord _ hlast, hspelled firstTooLarge _ hlarge, ?_, ?_, ?_⟩
  · rw [Option.eq_none_iff_forall_ne_some]
    intro n hn
    cases (hwords _ _).1 hn
  · exact ((hhead (.string lastWord)).ok_iff _).2 (.text hlast)
  · refine (hblock (blockAt firstTooLarge)).refused ?_
    rintro n ⟨s, hs, hsaid⟩
    cases hs
    rw [(hwords _ _).2 hsaid] at hnone
    cases hnone

end LedgerIndex.Node
