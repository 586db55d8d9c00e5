import CodingLearners.Library.JsonText
import Mathlib.Algebra.Order.BigOperators.Group.List
import Mathlib.Algebra.Order.Ring.Nat
import Mathlib.Data.List.Perm.Subperm

/-!
# `JSON.stringify` of what `JSON.parse` builds

An object has the members of its text, the last one of each name, at the place of the
first one. Which characters a value is written with says which ones its parts are
written with; a string that is written with plain characters only is written as it is.

## Implementation notes

Names that are integers keep their place too, though JavaScript puts them first.
-/

namespace Js

variable (numbers : Numbers)

/-- A number, of which JSON has no infinite ones. -/
def numberText (d : numbers.Double) : JsString :=
  if numbers.toText d = units "Infinity" ∨ numbers.toText d = units "-Infinity" then units "null"
  else numbers.toText d

/-- A member with the text of its value; one of a name that is there replaces it. -/
def putMember (members : List (JsString × JsString)) (member : JsString × JsString) :
    List (JsString × JsString) :=
  if members.any fun m => decide (m.1 = member.1) then
    members.map fun m => if m.1 = member.1 then member else m
  else members ++ [member]

/-- An object, from its members. -/
def bracesText (members : List (JsString × JsString)) : JsString :=
  123 :: ([44].intercalate (members.map fun m => textUnits (stringify m.1) ++ 58 :: m.2) ++ [125])

mutual

/-- `JSON.stringify(value)` -/
def jsonText : JsonValue numbers.Double → JsString
  | .null => units "null"
  | .bool b => units (if b then "true" else "false")
  | .number d => numberText numbers d
  | .string s => textUnits (stringify s)
  | .array items => 91 :: ([44].intercalate (itemTexts items) ++ [93])
  | .object members => bracesText ((memberTexts members).foldl putMember [])

def itemTexts : List (JsonValue numbers.Double) → List JsString
  | [] => []
  | item :: items => jsonText item :: itemTexts items

def memberTexts : List (JsString × JsonValue numbers.Double) → List (JsString × JsString)
  | [] => []
  | member :: members => memberText member :: memberTexts members

def memberText : JsString × JsonValue numbers.Double → JsString × JsString
  | (name, value) => (name, jsonText value)

end

/-! ## The members of an object -/

theorem memberTexts_eq (members : List (JsString × JsonValue numbers.Double)) :
    memberTexts numbers members = members.map fun m => (m.1, jsonText numbers m.2) := by
  induction members with
  | nil => rw [memberTexts, List.map_nil]
  | cons m members ih => rw [memberTexts, List.map_cons, ih, memberText]

section Units

variable {p : UInt16 → Prop}

theorem forall_intercalate {sep : UInt16} (hsep : p sep) {pieces : List JsString} :
    (∀ u ∈ [sep].intercalate pieces, p u) ↔ ∀ piece ∈ pieces, ∀ u ∈ piece, p u := by
  induction pieces with
  | nil => simp
  | cons piece pieces ih =>
      cases pieces with
      | nil => simp
      | cons next pieces =>
          rw [List.intercalate_cons_cons, List.forall_mem_cons, ← ih, List.forall_mem_append,
            List.forall_mem_append, List.forall_mem_singleton, and_iff_left hsep]

/-- An object is written with some characters if its members are. -/
theorem forall_bracesText (hbraces : p 123 ∧ p 125) (hcomma : p 44) (hcolon : p 58)
    {members : List (JsString × JsString)} :
    (∀ u ∈ bracesText members, p u) ↔
      ∀ m ∈ members, (∀ u ∈ textUnits (stringify m.1), p u) ∧ ∀ u ∈ m.2, p u := by
  rw [bracesText, List.forall_mem_cons, and_iff_right hbraces.1, List.forall_mem_append,
    List.forall_mem_singleton, and_iff_left hbraces.2, forall_intercalate hcomma,
    List.forall_mem_map]
  simp only [List.forall_mem_append, List.forall_mem_cons, hcolon, true_and]

end Units

/-! ## The length of a text -/

theorem length_bracesText (members : List (JsString × JsString)) :
    (bracesText members).length + (if members = [] then 0 else 1) =
      2 + (members.map fun m => (textUnits (stringify m.1)).length + m.2.length + 2).sum := by
  induction members with
  | nil => rfl
  | cons m members ih =>
      cases members with
      | nil =>
          rw [bracesText, if_neg (by simp)]
          simp
          omega
      | cons next members =>
          rw [if_neg (by simp)] at ih ⊢
          rw [List.map_cons, List.sum_cons, Nat.add_left_comm, ← ih]
          simp [bracesText, List.intercalate_cons_cons]
          omega

/-- No character of the kind needs an escape, apart from the quote. -/
structure Verbatim (p : UInt16 → Prop) : Prop where
  backslash : ¬ p 92
  control : ∀ u : UInt16, u.toNat < 32 → ¬ p u
  surrogate : ∀ u : UInt16, isLead u = true ∨ isTrail u = true → ¬ p u

section Verbatim

variable {p : UInt16 → Prop}

/-- A symbol that needs an escape has other characters. -/
theorem Verbatim.not_special (hp : Verbatim p) {x : Symbol}
    (special : ∀ c, x = .scalar c → c.toNat < 32 ∨ c = '\\') : ¬ ∀ u ∈ x.units, p u := by
  intro h
  cases x with
  | lone u surrogate => exact hp.surrogate u surrogate (h u List.mem_cons_self)
  | scalar c =>
      rcases special c rfl with hcontrol | rfl
      · rw [Symbol.units, utf16_of_lt (by omega), List.forall_mem_singleton] at h
        refine hp.control _ ?_ h
        rwa [UInt16.toNat_ofNat', Nat.mod_eq_of_lt (by omega)]
      · exact hp.backslash (h 92 (by decide))

/-- A symbol is written with such characters only if it is written as it is. -/
theorem Verbatim.quote (hp : Verbatim p) (x : Symbol) :
    ((∀ u ∈ textUnits x.quote, p u) ↔ ∀ u ∈ x.units, p u ∧ u ≠ 34) ∧
      ((∀ u ∈ x.units, p u ∧ u ≠ 34) → textUnits x.quote = x.units) := by
  have hescape : ∀ rest : List Char, ¬ ∀ u ∈ textUnits ('\\' :: rest), p u :=
    fun rest h => hp.backslash (h 92 (by simp [utf16_of_lt]))
  have hquote := quote_spec x
  generalize x.quote = q at hquote ⊢
  cases hquote with
  | @plain c printable noMark noBackslash =>
      have hnoMark : ∀ u ∈ (Symbol.scalar c).units, u ≠ 34 := by
        rintro u hu rfl
        have hc := (mem_units_iff (by decide) (by decide)).mp hu
        exact noMark (Symbol.scalar.inj hc)
      have htext : textUnits [c] = (Symbol.scalar c).units := by
        rw [textUnits_cons, textUnits_nil, List.append_nil]
        rfl
      rw [htext]
      exact ⟨⟨fun h u hu => ⟨h u hu, hnoMark u hu⟩, fun h u hu => (h u hu).1⟩, fun _ => rfl⟩
  | mark =>
      have hnot : ¬ ∀ u ∈ (Symbol.scalar '"').units, p u ∧ u ≠ 34 :=
        fun h => (h 34 (by decide)).2 rfl
      exact ⟨iff_of_false (hescape _) hnot, fun h => absurd h hnot⟩
  | escape special ascii =>
      have hnot : ¬ ∀ u ∈ x.units, p u ∧ u ≠ 34 :=
        fun h => hp.not_special special fun u hu => (h u hu).1
      exact ⟨iff_of_false (hescape _) hnot, fun h => absurd h hnot⟩

/-- A string is written with such characters only if it is written as it is. -/
theorem Verbatim.stringify (hp : Verbatim p) (hmark : p 34) (s : JsString) :
    ((∀ u ∈ textUnits (stringify s), p u) ↔ ∀ u ∈ s, p u ∧ u ≠ 34) ∧
      ((∀ u ∈ s, p u ∧ u ≠ 34) → textUnits (stringify s) = 34 :: (s ++ [34])) := by
  have hitems : ∀ items : List Symbol,
      ((∀ u ∈ textUnits (items.flatMap Symbol.quote), p u) ↔
        ∀ u ∈ items.flatMap Symbol.units, p u ∧ u ≠ 34) ∧
      ((∀ u ∈ items.flatMap Symbol.units, p u ∧ u ≠ 34) →
        textUnits (items.flatMap Symbol.quote) = items.flatMap Symbol.units) := by
    intro items
    induction items with
    | nil => exact ⟨Iff.rfl.trans (by simp), fun _ => rfl⟩
    | cons x items ih =>
        simp only [List.flatMap_cons, textUnits_append, List.forall_mem_append, ih.1,
          (hp.quote x).1, true_and]
        exact fun h => by rw [(hp.quote x).2 h.1, ih.2 h.2]
  have hs := hitems (symbols s)
  rw [flatMap_symbols] at hs
  have htext : textUnits (Js.stringify s) = 34 :: (textUnits (quoted s) ++ [34]) := by
    have happend := textUnits_stringify s []
    rwa [List.append_nil] at happend
  rw [htext, List.forall_mem_cons, List.forall_mem_append, List.forall_mem_singleton,
    and_iff_right hmark, and_iff_left hmark]
  exact ⟨hs.1, fun h => by rw [quoted, hs.2 h]⟩

end Verbatim

end Js
