import LedgerIndex.Ledger.Payload
import LedgerIndex.Proofs.Json.Fields
import LedgerIndex.Proofs.Json.Texts

/-!
# When two keys are one

A key column is stored as a text, so two values that are stored as one text are one key.  The
compact text of a value says what the value is (`Json.text_inj`): nested arrays and objects, escaped
characters and numbers cannot be mistaken for one another.  So the only values that fall together
though they differ are a string and what this string is the text of (`keyText_eq_iff`).
-/

namespace LedgerIndex

namespace Json

/-! ## The same value -/

/-- Two values are the same.  An object is what it gives for each name, in whatever order its
members stand. -/
inductive Same : Json → Json → Prop
  | null : Same .null .null
  | bool (b : Bool) : Same (.bool b) (.bool b)
  | number (n : Number) : Same (.number n) (.number n)
  | string (s : String) : Same (.string s) (.string s)
  | array {items items' : List Json} : items.length = items'.length →
      (∀ (i : Nat) (v w : Json), items[i]? = some v → items'[i]? = some w → Same v w) →
      Same (.array items) (.array items')
  | object {members members' : List (String × Json)} :
      (∀ name, (member? name members).isSome = (member? name members').isSome) →
      (∀ name v w, member? name members = some v → member? name members' = some w → Same v w) →
      Same (.object members) (.object members')

/-- A member is found by its name if no other has this name. -/
theorem member?_of_mem {members : List (String × Json)} (h : (members.map (·.1)).Nodup)
    {name : String} {v : Json} (hv : (name, v) ∈ members) : member? name members = some v := by
  induction members with
  | nil => cases hv
  | cons m rest ih =>
    rw [List.map_cons, List.nodup_cons] at h
    unfold member?
    by_cases hname : name = m.1
    · rw [if_pos hname]
      obtain rfl | hv := List.mem_cons.1 hv
      · rfl
      · exact absurd (hname ▸ List.mem_map_of_mem hv) h.1
    · rw [if_neg hname]
      obtain rfl | hv := List.mem_cons.1 hv
      · exact absurd rfl hname
      · exact ih h.2 hv

/-- Members in order are known by what they give for each name. -/
theorem Ascend.ext {members members' : List (String × Json)} (h : Ascend members)
    (h' : Ascend members') (hsame : ∀ name, member? name members = member? name members') :
    members = members' := by
  have hperm : members.Perm members' := by
    refine (List.perm_ext_iff_of_nodup h.nodup.of_map h'.nodup.of_map).2 ?_
    rintro ⟨name, v⟩
    constructor
    · intro hv
      apply mem_of_member?
      rw [← hsame name]
      exact member?_of_mem h.nodup hv
    · intro hv
      apply mem_of_member?
      rw [hsame name]
      exact member?_of_mem h'.nodup hv
  exact hperm.eq_of_pairwise (fun m m' _ _ hlt hgt => absurd hgt (not_lt_of_gt hlt)) h h'

/-- Values that are kept and are the same are equal. -/
theorem Same.eq_of_kept {room : Nat} {v w : Json} (h : Same v w) (hv : Kept room v)
    (hw : Kept room w) : v = w := by
  induction h generalizing room with
  | null | bool | number | string => rfl
  | @array items items' hlength _ ih =>
    cases hv with
    | array hitems =>
      cases hw with
      | array hitems' =>
        congr 1
        refine List.ext_getElem hlength fun i hi hi' => ?_
        have hget := List.getElem?_eq_getElem hi
        have hget' := List.getElem?_eq_getElem hi'
        exact ih i _ _ hget hget' (hitems _ (List.getElem_mem hi)) (hitems' _ (List.getElem_mem hi'))
  | @object members members' hnames _ ih =>
    cases hv with
    | object hascend hmembers =>
      cases hw with
      | object hascend' hmembers' =>
        congr 1
        apply hascend.ext hascend'
        intro name
        have hname := hnames name
        cases hm : member? name members with
        | none =>
          rw [hm] at hname
          exact (Option.not_isSome_iff_eq_none.1 (hname ▸ Bool.false_ne_true)).symm
        | some v =>
          rw [hm] at hname
          obtain ⟨w, hm'⟩ := Option.isSome_iff_exists.1 hname.symm
          rw [hm', ih name v w hm hm' (hmembers _ (mem_of_member? hm))
            (hmembers' _ (mem_of_member? hm'))]

theorem Kept.same_self {room : Nat} {v : Json} (h : Kept room v) : Same v v := by
  induction h with
  | null => exact .null
  | bool b => exact .bool b
  | number n => exact .number n
  | string s => exact .string s
  | array _ ih =>
    refine .array rfl ?_
    intro i v w hv hw
    obtain rfl : v = w := Option.some.inj (hv.symm.trans hw)
    exact ih v (List.mem_of_getElem? hv)
  | object _ _ ih =>
    refine .object (fun _ => rfl) ?_
    intro name v w hv hw
    obtain rfl : v = w := Option.some.inj (hv.symm.trans hw)
    exact ih (name, v) (mem_of_member? hv)

/-! ## Texts -/

/-- The compact text of a value whose numbers are integers says what the value is. -/
theorem text_inj {room room' : Nat} {v w : Json} (hv : v.Integral) (hw : w.Integral)
    (hkept : Kept room v) (hkept' : Kept room' w) (h : v.text = w.text) : v = w := by
  have hread : Reading.ofJson v = Reading.ofJson w := by
    have hdocument := congrArg Document.read h
    rw [Document.read_text hv, Document.read_text hw] at hdocument
    exact congrArg Document.value hdocument
  have hheld := Reading.json_ofJson (hkept.mono (Nat.le_max_left room room'))
  rw [hread, Reading.json_ofJson (hkept'.mono (Nat.le_max_right room room'))] at hheld
  exact (Except.ok.inj hheld).symm

/-- A value that is neither a string nor `null`: as a key it is stored as its compact text. -/
def IsWritten (v : Json) : Prop := v ≠ .null ∧ ∀ s, v ≠ .string s

/-- A string that is the compact text of another value. -/
def IsTextOf (s v : Json) : Prop := s = .string v.text ∧ v.IsWritten

end Json

open Json

theorem keyText_of_isWritten {v : Json} (h : v.IsWritten) : keyText (some v) = some v.text := by
  cases v with
  | null => exact absurd rfl h.1
  | string s => exact absurd rfl (h.2 s)
  | bool | number | array | object => rfl

/-- Only what is absent and `null` are no key. -/
theorem keyText_eq_none_iff {v : Option Json} : keyText v = none ↔ v = none ∨ v = some .null := by
  cases v with
  | none => simp [keyText]
  | some v => cases v <;> simp [keyText]

/-- A value is `null`, a string, or stored as its compact text. -/
theorem null_or_string_or_isWritten (v : Json) : v = .null ∨ (∃ s, v = .string s) ∨ v.IsWritten := by
  cases v <;> simp [IsWritten]

theorem keyText_of_isTextOf {s v : Json} (h : IsTextOf s v) :
    keyText (some s) = keyText (some v) := by
  obtain ⟨rfl, hwritten⟩ := h
  rw [keyText_of_isWritten hwritten]
  rfl

theorem isTextOf_of_keyText {s : String} {v : Json} (hv : v.IsWritten)
    (h : keyText (some (.string s)) = keyText (some v)) : IsTextOf (.string s) v := by
  rw [keyText_of_isWritten hv] at h
  exact ⟨congrArg Json.string (Option.some.inj h), hv⟩

/-- Values that fall together are equal, or one is a string that is the text of the other. -/
theorem eq_or_isTextOf_of_keyText {room room' : Nat} {v w : Json} (hv : v.Integral)
    (hw : w.Integral) (hkept : Kept room v) (hkept' : Kept room' w)
    (h : keyText (some v) = keyText (some w)) : v = w ∨ IsTextOf v w ∨ IsTextOf w v := by
  obtain rfl | ⟨s, rfl⟩ | hwritten := null_or_string_or_isWritten v
  · left
    simpa [eq_comm] using keyText_eq_none_iff.1 h.symm
  · obtain rfl | ⟨t, rfl⟩ | hwritten' := null_or_string_or_isWritten w
    · cases h
    · exact .inl (congrArg Json.string (Option.some.inj h))
    · exact .inr (.inl (isTextOf_of_keyText hwritten' h))
  · obtain rfl | ⟨t, rfl⟩ | hwritten' := null_or_string_or_isWritten w
    · rw [keyText_of_isWritten hwritten] at h
      cases h
    · exact .inr (.inr (isTextOf_of_keyText hwritten h.symm))
    · rw [keyText_of_isWritten hwritten, keyText_of_isWritten hwritten'] at h
      exact .inl (text_inj hv hw hkept hkept' (Option.some.inj h))

/-- **When two keys are one.**  Two values whose numbers are integers are stored as the same key just
if they are the same value, or one is a string that is the compact text of the other.  Nothing but
`null` and an absent value is stored as no key. -/
theorem keyText_eq_iff {room room' : Nat} {v w : Json} (hv : v.Integral) (hw : w.Integral)
    (hkept : Kept room v) (hkept' : Kept room' w) :
    (keyText (some v) = keyText (some w) ↔ Same v w ∨ IsTextOf v w ∨ IsTextOf w v) ∧
      ∀ key : Option Json, keyText key = none ↔ key = none ∨ key = some .null := by
  refine ⟨⟨fun h => ?_, fun h => ?_⟩, fun _ => keyText_eq_none_iff⟩
  · obtain rfl | htext := eq_or_isTextOf_of_keyText hv hw hkept hkept' h
    · exact .inl hkept.same_self
    · exact .inr htext
  · obtain hsame | htext | htext := h
    · have hkept := hkept.mono (Nat.le_max_left room room')
      have hkept' := hkept'.mono (Nat.le_max_right room room')
      rw [hsame.eq_of_kept hkept hkept']
    · exact keyText_of_isTextOf htext
    · exact (keyText_of_isTextOf htext).symm

/-- An array that holds an object with an escaped character, as a key column might hold it. -/
def nestedKey : Json := .array [.number (.int (-2)), .object [("a", .string "\n")]]

/-- It falls together with its text, but not with a shorter array. -/
theorem keyText_eq_iff_nested :
    nestedKey.Integral ∧ Kept 2 nestedKey ∧
      nestedKey.text = "[-2,\x7b\"a\":\"\\n\"\x7d]" ∧
      keyText (some nestedKey) = keyText (some (.string nestedKey.text)) ∧
      keyText (some nestedKey) ≠ keyText (some (.array [.number (.int (-2))])) := by
  have hintegral : nestedKey.Integral := by
    simp [nestedKey, integral_array, integral_object, integral_int]
  have hkept : Kept 2 nestedKey := by
    have hobject : Kept 1 (.object [("a", .string "\n")]) :=
      .object (List.pairwise_singleton ..) (by simp)
    exact .array (by simp [hobject])
  refine ⟨hintegral, hkept, by decide +kernel, ?_, ?_⟩
  · have htext : Kept 0 (.string nestedKey.text) := .string _
    refine ((keyText_eq_iff hintegral (.string _) hkept htext).1).2 ?_
    exact .inr (.inr ⟨rfl, nofun, nofun⟩)
  · have hshort : Kept 1 (.array [.number (.int (-2))]) := .array (by simp)
    have hshort' : Integral (.array [.number (.int (-2))]) := by simp [integral_array, integral_int]
    intro h
    obtain h | h | h := (keyText_eq_iff hintegral hshort' hkept hshort).1.1 h
    · cases h
      contradiction
    · cases h.1
    · cases h.1

end LedgerIndex
