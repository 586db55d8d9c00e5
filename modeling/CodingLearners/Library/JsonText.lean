import CodingLearners.Library.JsValue
import CodingLearners.Library.Stringify

/-!
# `JSON.parse` of what `JSON.stringify` writes

For a flat object of strings: each symbol of a string is read back from its
escape, each string from its quotes, and the members in their order.
-/

namespace Js

/-- The code units of a text. -/
def textUnits (text : List Char) : JsString := text.flatMap fun c => utf16 c.toNat

/-- A member as `JSON.stringify` writes it. -/
def memberUnits (m : JsString × JsString) : JsString :=
  textUnits (stringify m.1) ++ 58 :: textUnits (stringify m.2)

/-- `JSON.stringify` of an object of strings. -/
def stringifyMembers (members : List (JsString × JsString)) : JsString :=
  123 :: (List.intercalate [44] (members.map memberUnits) ++ [125])

@[simp] theorem textUnits_nil : textUnits [] = [] := rfl

@[simp] theorem textUnits_cons (c : Char) (text : List Char) :
    textUnits (c :: text) = utf16 c.toNat ++ textUnits text := rfl

@[simp] theorem textUnits_append (text text' : List Char) :
    textUnits (text ++ text') = textUnits text ++ textUnits text' :=
  List.flatMap_append

theorem utf16_of_lt {cp : Nat} (h : cp < 0x10000) : utf16 cp = [UInt16.ofNat cp] := if_pos h

/-! ## Symbols -/

section Symbols

variable {u : UInt16}

theorem parseString_plain (hmark : u ≠ 34) (hback : u ≠ 92) (hprintable : 32 ≤ u.toNat)
    (rest : JsString) :
    parseString (u :: rest) = (parseString rest).map fun p => (u :: p.1, p.2) := by
  rw [parseString.eq_def]
  simp only [hmark, hback, Nat.not_lt.mpr hprintable, if_false]
  cases parseString rest <;> rfl

theorem parseString_escaped {e : UInt16} (hletter : e ≠ 117) (hescape : escaped e = some u)
    (rest : JsString) :
    parseString (92 :: e :: rest) = (parseString rest).map fun p => (u :: p.1, p.2) := by
  rw [parseString.eq_def]
  simp only [hletter, hescape, if_false, show (92 : UInt16) ≠ 34 by decide, if_true]
  cases parseString rest <;> rfl

theorem hexValue_digitChar {n : Nat} (h : n < 16) :
    hexValue (UInt16.ofNat (Nat.digitChar n).toNat) = some n := by
  revert n
  decide

theorem digitChar_lt {n : Nat} (h : n < 16) : (Nat.digitChar n).toNat < 0x10000 := by
  revert n
  decide

theorem parseString_unicodeEscape (u : UInt16) (rest : JsString) :
    parseString (textUnits (unicodeEscape u) ++ rest) =
      (parseString rest).map fun p => (u :: p.1, p.2) := by
  have hu := u.toNat_lt
  have h1 : u.toNat / 4096 < 16 := by omega
  have h2 : u.toNat / 256 % 16 < 16 := by omega
  have h3 : u.toNat / 16 % 16 < 16 := by omega
  have h4 : u.toNat % 16 < 16 := by omega
  have hvalue : 4096 * (u.toNat / 4096) + 256 * (u.toNat / 256 % 16) +
      16 * (u.toNat / 16 % 16) + u.toNat % 16 = u.toNat := by omega
  have htext : textUnits (unicodeEscape u) = 92 :: 117 ::
      [u.toNat / 4096, u.toNat / 256 % 16, u.toNat / 16 % 16, u.toNat % 16].map
        fun n => UInt16.ofNat (Nat.digitChar n).toNat := by
    simp [unicodeEscape, utf16_of_lt, digitChar_lt h1, digitChar_lt h2, digitChar_lt h3,
      digitChar_lt h4]
  rw [htext, parseString.eq_def]
  simp only [List.map_cons, List.map_nil, List.cons_append, List.nil_append, hexValue_digitChar h1,
    hexValue_digitChar h2, hexValue_digitChar h3, hexValue_digitChar h4, if_true,
    show (92 : UInt16) ≠ 34 by decide, if_false, Option.bind_eq_bind, Option.bind_some, hvalue,
    UInt16.ofNat_toNat]
  cases parseString rest <;> rfl

/-- A short escape stands for its character. -/
theorem escaped_shortEscape {c d : Char} (h : shortEscape c = some d) :
    c.toNat < 0x10000 ∧ d.toNat < 0x10000 ∧ UInt16.ofNat d.toNat ≠ 117 ∧
      escaped (UInt16.ofNat d.toNat) = some (UInt16.ofNat c.toNat) := by
  simp only [shortEscape] at h
  split_ifs at h with h8 h9 h10 h12 h13 hmark hback
  all_goals obtain rfl := Option.some.inj h
  · rw [h8]; decide
  · rw [h9]; decide
  · rw [h10]; decide
  · rw [h12]; decide
  · rw [h13]; decide
  · rw [hmark]; decide
  · rw [hback]; decide

theorem parseString_utf16 {c : Char} (hmark : c ≠ '"') (hback : c ≠ '\\')
    (hprintable : 32 ≤ c.toNat) (rest : JsString) :
    parseString (utf16 c.toNat ++ rest) =
      (parseString rest).map fun p => (utf16 c.toNat ++ p.1, p.2) := by
  have hc : c.toNat < 0x110000 := by
    cases isScalar_char c with
    | inl h => omega
    | inr h => exact h.2
  have hunit : ∀ {n : Nat}, n < 0x10000 → (UInt16.ofNat n).toNat = n := fun h => by
    rw [UInt16.toNat_ofNat', Nat.mod_eq_of_lt h]
  by_cases hsmall : c.toNat < 0x10000
  · have hne : ∀ d : Char, c ≠ d → d.toNat < 0x10000 →
        UInt16.ofNat c.toNat ≠ UInt16.ofNat d.toNat := by
      intro d hcd hd heq
      rw [← UInt16.toNat_inj, hunit hsmall, hunit hd, Char.toNat_inj] at heq
      exact hcd heq
    rw [utf16_of_lt hsmall]
    exact parseString_plain (hne '"' hmark (by decide)) (hne '\\' hback (by decide))
      (by rwa [hunit hsmall]) rest
  · rw [utf16, if_neg hsmall]
    have hplain : ∀ {n : Nat}, 0xD800 ≤ n → n < 0xE000 → ∀ rest : JsString,
        parseString (UInt16.ofNat n :: rest) =
          (parseString rest).map fun p => (UInt16.ofNat n :: p.1, p.2) := by
      intro n hlow hhigh rest
      have hn := hunit (show n < 0x10000 by omega)
      apply parseString_plain
      · rw [Ne, ← UInt16.toNat_inj, hn, show (34 : UInt16).toNat = 34 from rfl]
        omega
      · rw [Ne, ← UInt16.toNat_inj, hn, show (92 : UInt16).toNat = 92 from rfl]
        omega
      · omega
    rw [List.cons_append, List.cons_append, List.nil_append, hplain (by omega) (by omega),
      hplain (by omega) (by omega), Option.map_map]
    rfl

/-- A symbol is read back from its escape. -/
theorem parseString_quote (x : Symbol) (rest : JsString) :
    parseString (textUnits x.quote ++ rest) =
      (parseString rest).map fun p => (x.units ++ p.1, p.2) := by
  cases x with
  | lone u surrogate => exact parseString_unicodeEscape u rest
  | scalar c =>
      rw [Symbol.quote, Symbol.units]
      cases hshort : shortEscape c with
      | some d =>
          obtain ⟨hc, hd, hletter, hescape⟩ := escaped_shortEscape hshort
          simp only [textUnits_cons, textUnits_nil, utf16_of_lt hd, utf16_of_lt hc]
          exact parseString_escaped hletter hescape rest
      | none =>
          obtain ⟨hmark, hback⟩ := shortEscape_eq_none hshort
          dsimp only
          split
          · next hcontrol =>
            have hsmall : c.toNat < 0x10000 := by omega
            rw [utf16_of_lt hsmall]
            exact parseString_unicodeEscape _ rest
          · next hcontrol =>
            rw [textUnits_cons, textUnits_nil, List.append_nil]
            exact parseString_utf16 hmark hback (Nat.le_of_not_lt hcontrol) rest

end Symbols

/-! ## Strings and members -/

/-- A string is read back from its quotes, whatever follows. -/
theorem parseString_quoted (s rest : JsString) :
    parseString (textUnits (quoted s) ++ 34 :: rest) = some (s, rest) := by
  suffices ∀ items : List Symbol,
      parseString (textUnits (items.flatMap Symbol.quote) ++ 34 :: rest) =
        some (items.flatMap Symbol.units, rest) by
    rw [quoted, this (symbols s), flatMap_symbols]
  intro items
  induction items with
  | nil => simp [parseString.eq_def (34 :: rest)]
  | cons x items ih =>
      rw [List.flatMap_cons, textUnits_append, List.append_assoc, parseString_quote, ih]
      rfl

theorem textUnits_stringify (s rest : JsString) :
    textUnits (stringify s) ++ rest = 34 :: (textUnits (quoted s) ++ 34 :: rest) := by
  have hmark : utf16 34 = [34] := by decide
  simp [stringify, hmark]

theorem skipSpace_cons {u : UInt16} (h : isJsonSpace u = false) (rest : JsString) :
    skipSpace (u :: rest) = u :: rest := by
  simp [skipSpace, h]

/-- The marks of an object are not skipped. -/
theorem skipSpace_mark {u : UInt16} (h : u ∈ [(34 : UInt16), 44, 58, 123, 125]) (rest : JsString) :
    skipSpace (u :: rest) = u :: rest :=
  skipSpace_cons (by revert u; simp; decide) rest

section Members

variable (numbers : Numbers)

theorem parseValue_stringify (fuel : Nat) (s rest : JsString) :
    parseValue numbers (fuel + 1) (textUnits (stringify s) ++ rest) = some (.string s, rest) := by
  rw [textUnits_stringify, parseValue, skipSpace_cons (by decide)]
  simp only [if_true, parseString_quoted, Option.map_some]

/-- What is read of a member depends on its value and on the mark behind it. -/
theorem parseMembers_front (fuel : Nat) {s t name rest after : JsString}
    (hquote : skipSpace s = 34 :: t) (hname : parseString t = some (name, rest))
    (hcolon : skipSpace rest = 58 :: after) :
    parseMembers numbers (fuel + 1) s =
      (parseValue numbers fuel after).bind fun p =>
        if (skipSpace p.2).head? = some 125 then some ([(name, p.1)], (skipSpace p.2).tail)
        else if (skipSpace p.2).head? = some 44 then
          (parseMembers numbers fuel (skipSpace p.2).tail).map fun q => ((name, p.1) :: q.1, q.2)
        else none := by
  rw [parseMembers, hquote]
  simp only [ne_eq, not_true_eq_false, if_false, hname, Option.bind_eq_bind, Option.bind_some,
    hcolon, List.head?_cons, List.tail_cons]
  refine Option.bind_congr fun p _ => ?_
  split
  · rfl
  · split
    · rfl
    · next hcomma =>
        rw [if_pos (not_not.mp hcomma)]
        cases parseMembers numbers fuel (skipSpace p.2).tail <;> rfl

/-- A member up to the comma or the brace behind it. -/
theorem parseMembers_member (fuel : Nat) (m : JsString × JsString) (rest : JsString) :
    parseMembers numbers (fuel + 2) (memberUnits m ++ 125 :: rest) =
        some ([(m.1, .string m.2)], rest) ∧
      parseMembers numbers (fuel + 2) (memberUnits m ++ 44 :: rest) =
        (parseMembers numbers (fuel + 1) rest).map fun p => ((m.1, .string m.2) :: p.1, p.2) := by
  have hfront : ∀ rest, skipSpace (memberUnits m ++ rest) = 34 :: (textUnits (quoted m.1) ++
      34 :: 58 :: (textUnits (stringify m.2) ++ rest)) := by
    intro rest
    rw [memberUnits, List.append_assoc, textUnits_stringify, skipSpace_mark (by simp)]
    rfl
  have hmember := fun rest => parseMembers_front numbers (fuel + 1) (hfront rest)
    (parseString_quoted _ _) (skipSpace_mark (by simp) _)
  constructor
  · rw [hmember, parseValue_stringify, Option.bind_some]
    simp [skipSpace_mark]
  · rw [hmember, parseValue_stringify, Option.bind_some]
    simp [skipSpace_mark]

/-- The members are read back up to the brace. -/
theorem parseMembers_stringify (m : JsString × JsString) (members : List (JsString × JsString))
    (rest : JsString) (fuel : Nat) :
    parseMembers numbers (fuel + members.length + 2)
        (List.intercalate [44] ((m :: members).map memberUnits) ++ 125 :: rest) =
      some ((m :: members).map fun m => (m.1, .string m.2), rest) := by
  induction members generalizing m with
  | nil =>
      rw [List.map_singleton, List.intercalate_singleton]
      exact (parseMembers_member numbers _ m rest).1
  | cons next members ih =>
      rw [List.map_cons, List.map_cons, List.intercalate_cons_cons, List.append_assoc,
        List.append_assoc, List.singleton_append, (parseMembers_member numbers _ m _).2]
      rw [show fuel + (next :: members).length + 1 = fuel + members.length + 2 by
        simp; omega, ← List.map_cons, ih next]
      rfl

theorem length_le_members (m : JsString × JsString) (members : List (JsString × JsString)) :
    members.length + 1 ≤ (List.intercalate [44] ((m :: members).map memberUnits)).length := by
  induction members generalizing m with
  | nil => simp [memberUnits]; omega
  | cons next members ih =>
      have := ih next
      rw [List.map_cons, List.map_cons, List.intercalate_cons_cons, ← List.map_cons]
      simp only [List.length_append, List.length_cons, List.length_nil] at this ⊢
      omega

theorem members_head (m : JsString × JsString) (members : List (JsString × JsString))
    (rest : JsString) :
    ∃ body, List.intercalate [44] ((m :: members).map memberUnits) ++ rest = 34 :: body := by
  cases members with
  | nil =>
      rw [List.map_singleton, List.intercalate_singleton, memberUnits, List.append_assoc,
        textUnits_stringify]
      exact ⟨_, rfl⟩
  | cons next members =>
      rw [List.map_cons, List.map_cons, List.intercalate_cons_cons, memberUnits, List.append_assoc,
        List.append_assoc, List.append_assoc, textUnits_stringify]
      exact ⟨_, rfl⟩

/-- `JSON.parse(JSON.stringify(object))` has the members of the object. -/
theorem jsonParse_stringifyMembers (members : List (JsString × JsString)) :
    jsonParse numbers (stringifyMembers members) =
      some (.object (members.map fun m => (m.1, .string m.2))) := by
  suffices hvalue : parseValue numbers ((stringifyMembers members).length + 1)
      (stringifyMembers members) =
        some (.object (members.map fun m => (m.1, .string m.2)), []) by
    rw [jsonParse, hvalue]
    rfl
  rw [parseValue, stringifyMembers, skipSpace_cons (by decide)]
  cases members with
  | nil => rfl
  | cons m members =>
      obtain ⟨body, hbody⟩ := members_head m members [125]
      obtain ⟨fuel, hfuel⟩ := Nat.exists_eq_add_of_le (length_le_members m members)
      have hread := parseMembers_stringify numbers m members [] (fuel + 1)
      have hcount : (123 :: (List.intercalate [44] ((m :: members).map memberUnits) ++
          [125])).length = fuel + 1 + members.length + 2 := by
        simp only [List.length_cons, List.length_append, List.length_nil, hfuel]
        omega
      rw [hcount]
      simp only [hbody] at hread ⊢
      simp only [show (123 : UInt16) ≠ 34 by decide, if_false, if_true,
        skipSpace_cons (show isJsonSpace 34 = false by decide), List.head?_cons,
        show ¬ some (34 : UInt16) = some 125 by decide, hread, Option.map_some]

/-! ## Strings as they were typed -/

/-- No unit is a control character. -/
def Printable (s : JsString) : Prop := ∀ u ∈ s, 32 ≤ u.toNat

instance : DecidablePred Printable := fun s => List.decidableBAll _ s

theorem printable_append {s t : JsString} : Printable (s ++ t) ↔ Printable s ∧ Printable t :=
  List.forall_mem_append

/-- A text without quotes and backslashes is a string between quotes if it has no control
character. -/
theorem parseString_typed {s : JsString} (h : ∀ u ∈ s, u ≠ 34 ∧ u ≠ 92) (rest : JsString) :
    parseString (s ++ 34 :: rest) = if Printable s then some (s, rest) else none := by
  induction s with
  | nil => simp [parseString.eq_def (34 :: rest), Printable]
  | cons u s ih =>
      rw [List.forall_mem_cons] at h
      have hcons : Printable (u :: s) ↔ 32 ≤ u.toNat ∧ Printable s := List.forall_mem_cons
      simp only [hcons, List.cons_append]
      by_cases hprintable : 32 ≤ u.toNat
      · rw [parseString_plain h.1.1 h.1.2 hprintable, ih h.2]
        split
        · next hall => rw [if_pos ⟨hprintable, hall⟩, Option.map_some]
        · next hnot => rw [if_neg fun hall => hnot hall.2, Option.map_none]
      · rw [if_neg fun hall => hprintable hall.1, parseString.eq_def]
        simp only [h.1.1, h.1.2, if_false, if_pos (Nat.lt_of_not_le hprintable)]

/-- A member with such a name and value, and a comma or a brace behind it. -/
theorem parseMembers_typed (fuel : Nat) {name value space : JsString}
    (hname : ∀ u ∈ name, (u ≠ 34 ∧ u ≠ 92) ∧ 32 ≤ u.toNat)
    (hvalue : ∀ u ∈ value, u ≠ 34 ∧ u ≠ 92) (hspace : ∀ u ∈ space, isJsonSpace u = true)
    (rest : JsString) :
    let member := 34 :: (name ++ 34 :: 58 :: (space ++ 34 :: (value ++ [34])))
    parseMembers numbers (fuel + 2) (member ++ 125 :: rest) =
        (if Printable value then some ([(name, .string value)], rest) else none) ∧
      parseMembers numbers (fuel + 2) (member ++ 44 :: rest) =
        if Printable value then
          (parseMembers numbers (fuel + 1) rest).map fun p => ((name, .string value) :: p.1, p.2)
        else none := by
  have hread : ∀ rest, parseString (name ++ 34 :: rest) = some (name, rest) := by
    intro rest
    rw [parseString_typed fun u hu => (hname u hu).1]
    exact if_pos fun u hu => (hname u hu).2
  have hvalueRead : ∀ rest, parseValue numbers (fuel + 1) (space ++ 34 :: (value ++ 34 :: rest)) =
      if Printable value then some (.string value, rest) else none := by
    intro rest
    rw [parseValue, skipSpace, List.dropWhile_append_of_pos hspace, ← skipSpace,
      skipSpace_mark (by simp)]
    simp only [if_true, parseString_typed hvalue]
    split <;> rfl
  have hmember := fun rest => parseMembers_front numbers (fuel + 1)
    (skipSpace_mark (by simp) (name ++ 34 :: 58 :: (space ++ 34 :: (value ++ 34 :: rest))))
    (hread _) (skipSpace_mark (by simp) _)
  simp only [List.append_assoc, List.cons_append, List.nil_append]
  rw [hmember, hmember, hvalueRead, hvalueRead]
  by_cases hprintable : Printable value
  · simp [hprintable, skipSpace_mark]
  · simp [hprintable]

end Members

end Js
