import LedgerIndex.Ledger.EventType
import Mathlib.Data.String.Basic
import Mathlib.Tactic.Common

/-!
# What a filter sees of a type

A type is written as its package, the modules on the way and its name, with type arguments at the
end if it has any (`WrittenType`).  The arguments may hold types themselves, so the text is cut at
the first angle bracket before it is cut at the colons: `typeSegments_text` says that this gives back
just the parts that the type is written with, however many modules there are and whatever the
arguments hold.  Hence a filter goes by the package and the name, and by nothing else
(`accepts_text`).
-/

namespace LedgerIndex

/-! ## Segments -/

/-- The segments of a text without colons are this text. -/
theorem segments_of_plain {cs : List Char} (h : ':' ∉ cs) : segments cs = [cs] := by
  induction cs with
  | nil => rfl
  | cons c rest ih =>
    obtain ⟨hc, hrest⟩ := not_or.1 (List.mem_cons.not.1 h)
    rw [segments, ih hrest]
    intro _ hcolon
    exact absurd hcolon.symm hc

/-- A text without colons in front of a pair of them is the first segment. -/
theorem segments_append_colons {cs : List Char} (h : ':' ∉ cs) (rest : List Char) :
    segments (cs ++ ':' :: ':' :: rest) = cs :: segments rest := by
  induction cs with
  | nil => rw [List.nil_append, segments]
  | cons c cs ih =>
    obtain ⟨hc, hcs⟩ := not_or.1 (List.mem_cons.not.1 h)
    rw [List.cons_append, segments, ih hcs]
    intro _ hcolon
    exact absurd hcolon.symm hc

/-- A part after the first, with the colons before it. -/
def colonsBefore (part : List Char) : List Char := ':' :: ':' :: part

/-- Parts without colons are found again between the colons. -/
theorem segments_joined {first : List Char} {others : List (List Char)} (hfirst : ':' ∉ first)
    (hothers : ∀ part ∈ others, ':' ∉ part) :
    segments (first ++ others.flatMap colonsBefore) = first :: others := by
  induction others generalizing first with
  | nil =>
    rw [List.flatMap_nil, List.append_nil]
    exact segments_of_plain hfirst
  | cons next others ih =>
    obtain ⟨hnext, hothers⟩ := List.forall_mem_cons.1 hothers
    show segments (first ++ ':' :: ':' :: (next ++ others.flatMap colonsBefore)) = _
    rw [segments_append_colons hfirst, ih hnext hothers]

/-! ## Types as they are written -/

/-- A type as it is written.  No colon and no angle bracket stands in its package, its modules and
its name; the type arguments are any text. -/
structure WrittenType where
  package : String
  modules : List String
  name : String
  arguments : Option String
  no_colon : ∀ part ∈ package :: (modules ++ [name]), ':' ∉ part.toList
  no_bracket : ∀ part ∈ package :: (modules ++ [name]), '<' ∉ part.toList

namespace WrittenType

variable (t : WrittenType)

/-- The type arguments with their brackets. -/
def argumentsText : String :=
  match t.arguments with
  | none => ""
  | some arguments => "<" ++ arguments ++ ">"

/-- The text of the type. -/
def text : String :=
  t.package ++ String.join (t.modules.map ("::" ++ ·)) ++ "::" ++ t.name ++ t.argumentsText

/-- The characters in front of the type arguments. -/
def baseChars : List Char :=
  t.package.toList ++ ((t.modules ++ [t.name]).map String.toList).flatMap colonsBefore

theorem toList_text : t.text.toList = t.baseChars ++ t.argumentsText.toList := by
  simp [text, baseChars, String.toList_join, List.flatMap_map, colonsBefore]

theorem not_mem_baseChars : '<' ∉ t.baseChars := by
  obtain ⟨hpackage, hothers⟩ := List.forall_mem_cons.1 t.no_bracket
  intro h
  obtain h | h := List.mem_append.1 h
  · exact hpackage h
  · obtain ⟨cs, hcs, h⟩ := List.mem_flatMap.1 h
    obtain ⟨part, hpart, rfl⟩ := List.mem_map.1 hcs
    apply hothers part hpart
    simpa [colonsBefore] using h

/-- The base ends where the first angle bracket opens. -/
theorem takeWhile_text : t.text.toList.takeWhile (· != '<') = t.baseChars := by
  have hbase : ∀ c ∈ t.baseChars, (c != '<') = true := by
    intro c hc
    simpa using ne_of_mem_of_not_mem hc t.not_mem_baseChars
  rw [toList_text, List.takeWhile_append_of_pos hbase, argumentsText]
  cases t.arguments <;> simp

/-- **The parts of a type are found again.** -/
theorem typeSegments_text :
    typeSegments t.text = t.package.toList :: (t.modules ++ [t.name]).map String.toList := by
  obtain ⟨hpackage, hothers⟩ := List.forall_mem_cons.1 t.no_colon
  rw [typeSegments, takeWhile_text, baseChars]
  exact segments_joined hpackage (List.forall_mem_map.2 hothers)

theorem typePackage_text : typePackage t.text = t.package := by
  rw [typePackage, typeSegments_text]
  exact String.ofList_toList

theorem typeName_text : typeName t.text = t.name := by
  rw [typeName, typeSegments_text, List.tail_cons, List.map_append, List.map_singleton,
    List.getLastD_concat, String.ofList_toList]

end WrittenType

/-! ## The filter -/

namespace TypeFilter

/-- **A filter looks at the package and the name only.**  It accepts a type just if it lists no
packages or one that is the same address as the package of the type, and lists no names or the name
of the type.  Types that share both are accepted alike, whatever their modules and arguments. -/
theorem accepts_text (f : TypeFilter) (t : WrittenType) :
    (f.accepts t.text = true ↔
      (f.packages = [] ∨ ∃ p ∈ f.packages, sameAddress p t.package = true) ∧
        (f.names = [] ∨ t.name ∈ f.names)) ∧
      ∀ u : WrittenType, u.package = t.package → u.name = t.name →
        f.accepts u.text = f.accepts t.text := by
  constructor
  · rw [accepts, t.typePackage_text, t.typeName_text]
    simp
  · intro u hpackage hname
    rw [accepts, accepts, u.typePackage_text, t.typePackage_text, u.typeName_text,
      t.typeName_text, hpackage, hname]

/-- A type in nested modules, with type arguments that have colons and brackets of their own. -/
def soldCoins : WrittenType where
  package := "0xabc"
  modules := ["market", "shop"]
  name := "Sold"
  arguments := some "0x2::coin::Coin<0x2::sui::SUI>, u64"
  no_colon := by decide
  no_bracket := by decide

/-- The type of the same name right in the package, without arguments. -/
def soldPlainly : WrittenType where
  package := "0xabc"
  modules := []
  name := "Sold"
  arguments := none
  no_colon := by decide
  no_bracket := by decide

theorem accepts_text_soldCoins :
    soldCoins.text = "0xabc::market::shop::Sold<0x2::coin::Coin<0x2::sui::SUI>, u64>" ∧
      accepts ⟨["0x2", "0x0ABC"], ["Coin", "Sold"]⟩ soldCoins.text = true ∧
      accepts ⟨["0x2", "0x0ABC"], ["Coin", "Sold"]⟩ soldPlainly.text = true ∧
      accepts ⟨[], ["Coin", "shop"]⟩ soldCoins.text = false := by
  have hboth := accepts_text ⟨["0x2", "0x0ABC"], ["Coin", "Sold"]⟩ soldCoins
  have hsold : accepts ⟨["0x2", "0x0ABC"], ["Coin", "Sold"]⟩ soldCoins.text = true := by
    refine hboth.1.2 ⟨.inr ⟨"0x0ABC", by simp, by decide⟩, .inr ?_⟩
    simp [soldCoins]
  refine ⟨by decide, hsold, (hboth.2 soldPlainly rfl rfl).trans hsold, ?_⟩
  rw [Bool.eq_false_iff]
  intro h
  have hname := ((accepts_text ⟨[], ["Coin", "shop"]⟩ soldCoins).1.1 h).2
  simp [soldCoins] at hname

end TypeFilter

end LedgerIndex
