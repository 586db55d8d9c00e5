import CodingLearners.Library.JsValue
import CodingLearners.Library.SeparatedText
import CodingLearners.Library.ShellText

/-!
# Flat JSON objects as they are written

An object of strings and numbers in any way to write it: with white space, with
escapes, and with the members in any order. The texts and the values of strings
are UTF-8.
-/

namespace FlatJson

open ShellText

/-! ## Strings -/

/-- The letters of the short escapes. -/
inductive EscapeLetter
  | quote
  | backslash
  | slash
  | b
  | f
  | n
  | r
  | t
  deriving DecidableEq

/-- What stands behind the backslash. -/
def EscapeLetter.text : EscapeLetter → UInt8
  | quote => 34
  | backslash => 92
  | slash => 47
  | b => 98
  | f => 102
  | n => 110
  | r => 114
  | t => 116

/-- What is meant. -/
def EscapeLetter.value : EscapeLetter → UInt8
  | quote => 34
  | backslash => 92
  | slash => 47
  | b => 8
  | f => 12
  | n => 10
  | r => 13
  | t => 9

/-- A byte that stands for itself in a string. -/
structure Raw where
  byte : UInt8
  ok : 32 ≤ byte.toNat ∧ byte ≠ 34 ∧ byte ≠ 92
  deriving DecidableEq

/-- A hexadecimal digit, in either case. -/
structure HexDigit where
  byte : UInt8
  ok : (Js.hexValue byte.toUInt16).isSome = true
  deriving DecidableEq

def HexDigit.value (digit : HexDigit) : Nat := (Js.hexValue digit.byte.toUInt16).get digit.ok

/-- A part of a string: a byte, a short escape, or `\\u` with four digits. -/
inductive Part
  | raw (c : Raw)
  | escape (letter : EscapeLetter)
  | unit (a b c d : HexDigit)
  deriving DecidableEq

def Part.text : Part → Text
  | .raw c => [c.byte]
  | .escape letter => [92, letter.text]
  | .unit a b c d => [92, 117, a.byte, b.byte, c.byte, d.byte]

/-- The code unit of four digits. -/
def codeUnit (a b c d : HexDigit) : UInt16 :=
  UInt16.ofNat (4096 * a.value + 256 * b.value + 16 * c.value + d.value)

/-- UTF-8. A lone surrogate is replaced. -/
def utf8 (codePoint : Nat) : Text :=
  (Js.utf8 (if 0xD800 ≤ codePoint ∧ codePoint ≤ 0xDFFF then 0xFFFD else codePoint)).map UInt8.ofNat

/-- The value of a string. -/
def valueOf : List Part → Text
  | [] => []
  | .raw c :: rest => c.byte :: valueOf rest
  | .escape letter :: rest => letter.value :: valueOf rest
  | .unit a b c d :: .unit a' b' c' d' :: rest =>
      let lead := codeUnit a b c d
      let trail := codeUnit a' b' c' d'
      if Js.isLead lead && Js.isTrail trail then utf8 (Js.surrogatePair lead trail) ++ valueOf rest
      else utf8 lead.toNat ++ valueOf (.unit a' b' c' d' :: rest)
  | .unit a b c d :: rest => utf8 (codeUnit a b c d).toNat ++ valueOf rest

/-- What stands between the quotes. -/
def textOf (parts : List Part) : Text := parts.flatMap Part.text

/-! ## Objects -/

/-- White space. -/
structure Space where
  text : Text
  ok : ∀ c ∈ text, c = 9 ∨ c = 10 ∨ c = 13 ∨ c = 32
  deriving DecidableEq

def Space.empty : Space := ⟨[], by simp⟩

@[simp] theorem Space.empty_text : Space.empty.text = [] := rfl

/-- A number as it is written. -/
structure Numeral where
  text : Text
  ok : Js.isJsonNumber (text.map UInt8.toUInt16) = true
  deriving DecidableEq

/-- A string or a number. -/
inductive Value
  | string (parts : List Part)
  | number (numeral : Numeral)
  deriving DecidableEq

def Value.text : Value → Text
  | .string parts => 34 :: (textOf parts ++ [34])
  | .number numeral => numeral.text

/-- The value of a string, or the text of a number. -/
def Value.content : Value → Text
  | .string parts => valueOf parts
  | .number numeral => numeral.text

/-- A member, with the white space around its name and its value. -/
structure Member where
  beforeName : Space
  name : List Part
  afterName : Space
  beforeValue : Space
  value : Value
  afterValue : Space
  deriving DecidableEq

def Member.text (m : Member) : Text :=
  m.beforeName.text ++ 34 :: (textOf m.name ++ 34 :: (m.afterName.text ++
    58 :: (m.beforeValue.text ++ (m.value.text ++ m.afterValue.text))))

/-- An object with different names; `inner` is the white space of one without
members. -/
structure Object where
  before : Space
  inner : Space
  members : List Member
  after : Space
  names : (members.map fun m => valueOf m.name).Nodup

/-- What stands between the braces. -/
def Object.body (o : Object) : Text :=
  if o.members = [] then o.inner.text else [44].intercalate (o.members.map Member.text)

def Object.text (o : Object) : Text :=
  o.before.text ++ 123 :: (o.body ++ 125 :: o.after.text)

/-- The member of a name is found by it. -/
theorem Object.find_member (o : Object) {m : Member} (hm : m ∈ o.members) {name : Text}
    (hname : valueOf m.name = name) :
    o.members.find? (fun m' => decide (valueOf m'.name = name)) = some m := by
  subst hname
  have hnames := o.names
  generalize o.members = members at hm hnames
  induction members with
  | nil => cases hm
  | cons m' members ih =>
      rw [List.map_cons, List.nodup_cons] at hnames
      rcases List.mem_cons.mp hm with rfl | hm
      · simp
      · have hne : valueOf m'.name ≠ valueOf m.name := fun heq =>
          hnames.1 (heq ▸ List.mem_map_of_mem hm)
        rw [List.find?_cons_of_neg (by simpa using hne)]
        exact ih hm hnames.2

/-! ## The text and the value of a string -/

/-- A text without escapes. -/
def verbatim (text : Text) (h : ∀ c ∈ text, 32 ≤ c.toNat ∧ c ≠ 34 ∧ c ≠ 92) : List Part :=
  text.pmap (fun c hc => .raw ⟨c, hc⟩) h

theorem length_utf8_le (codePoint : Nat) : (utf8 codePoint).length ≤ 4 := by
  unfold utf8 Js.utf8
  split_ifs <;> simp

def Part.isEscape : Part → Bool
  | .raw _ => false
  | _ => true

/-- A value is shorter than its text, by a byte for each escape at least. -/
theorem length_valueOf_add_le (parts : List Part) :
    (valueOf parts).length + parts.countP Part.isEscape ≤ (textOf parts).length := by
  have hcons : ∀ (part : Part) (rest : List Part), (textOf (part :: rest)).length =
      part.text.length + (textOf rest).length := by simp [textOf]
  have hunit : ∀ (a b c d : HexDigit) (rest : List Part),
      (Part.unit a b c d :: rest).countP Part.isEscape = rest.countP Part.isEscape + 1 :=
    fun _ _ _ _ _ => List.countP_cons_of_pos rfl
  fun_induction valueOf parts with
  | case1 => simp
  | case2 c rest ih =>
      rw [hcons, List.countP_cons_of_neg (by simp [Part.isEscape])]
      simp only [List.length_cons, Part.text, List.length_nil]
      omega
  | case3 letter rest ih =>
      rw [hcons, List.countP_cons_of_pos rfl]
      simp only [List.length_cons, Part.text, List.length_nil]
      omega
  | case4 a b c d a' b' c' d' rest lead trail hpair ih =>
      have hutf8 := length_utf8_le (Js.surrogatePair lead trail)
      rw [hcons, hcons, hunit, hunit]
      simp only [List.length_append, Part.text, List.length_cons, List.length_nil]
      omega
  | case5 a b c d a' b' c' d' rest lead trail hpair ih =>
      have hutf8 := length_utf8_le lead.toNat
      rw [hcons, hunit]
      simp only [List.length_append, Part.text, List.length_cons, List.length_nil]
      omega
  | case6 a b c d rest hnext ih =>
      have hutf8 := length_utf8_le (codeUnit a b c d).toNat
      rw [hcons, hunit]
      simp only [List.length_append, Part.text, List.length_cons, List.length_nil]
      omega

/-- No value is longer than its text. -/
theorem length_valueOf_le (parts : List Part) : (valueOf parts).length ≤ (textOf parts).length :=
  le_trans (Nat.le_add_right _ _) (length_valueOf_add_le parts)

/-- A byte that stands for itself stands in the value. -/
theorem raw_mem_valueOf {parts : List Part} {c : Raw} (h : Part.raw c ∈ parts) :
    c.byte ∈ valueOf parts := by
  fun_induction valueOf parts with
  | case1 => cases h
  | case2 c' rest ih =>
      rcases List.mem_cons.mp h with heq | h
      · cases heq
        simp
      · exact List.mem_cons_of_mem _ (ih h)
  | case3 letter rest ih => exact List.mem_cons_of_mem _ (ih (by simpa using h))
  | case4 a b c d a' b' c' d' rest lead trail hpair ih =>
      exact List.mem_append_right _ (ih (by simpa using h))
  | case5 a b c d a' b' c' d' rest lead trail hpair ih =>
      exact List.mem_append_right _ (ih (by simpa using h))
  | case6 a b c d rest hnext ih => exact List.mem_append_right _ (ih (by simpa using h))

/-- Blanks, commas and colons are not escaped by their look. -/
theorem not_mem_escape {part : Part} (hraw : ∀ r, part ≠ .raw r) {c : UInt8}
    (hc : c ∈ ([9, 32, 44, 58] : Text)) : c ∉ part.text := by
  have hdigit : ∀ digit : HexDigit, c ≠ digit.byte := by
    rintro digit rfl
    have hnone : ∀ c ∈ ([9, 32, 44, 58] : Text), Js.hexValue c.toUInt16 = none :=
      forall_mem_of_all (by decide)
    have hok := digit.ok
    rw [hnone _ hc] at hok
    cases hok
  cases part with
  | raw r => exact absurd rfl (hraw r)
  | escape letter =>
      have hletter : ∀ c ∈ ([9, 32, 44, 58] : Text), c ∉ ([92, letter.text] : Text) := by
        cases letter <;> exact forall_mem_of_all (by decide)
      exact hletter c hc
  | unit a b c' d =>
      have hbackslash : ∀ c ∈ ([9, 32, 44, 58] : Text), c ≠ 92 ∧ c ≠ 117 :=
        forall_mem_of_all (by decide)
      simp [Part.text, hdigit, hbackslash c hc]

/-- Blanks, commas and colons of the text are in the value. -/
theorem mem_valueOf {parts : List Part} {c : UInt8} (hc : c ∈ ([9, 32, 44, 58] : Text))
    (h : c ∈ textOf parts) : c ∈ valueOf parts := by
  obtain ⟨part, hmem, hpart⟩ := List.mem_flatMap.mp h
  cases part with
  | raw r =>
      obtain rfl : c = r.byte := by simpa [Part.text] using hpart
      exact raw_mem_valueOf hmem
  | escape letter => exact absurd hpart (not_mem_escape (by simp) hc)
  | unit a b c' d => exact absurd hpart (not_mem_escape (by simp) hc)

/-- A blank at the beginning of the text is one of the value. -/
theorem head_valueOf {parts : List Part} {c : UInt8} (hc : c ∈ ([9, 32, 44, 58] : Text))
    (h : (textOf parts).head? = some c) : (valueOf parts).head? = some c := by
  cases parts with
  | nil => cases h
  | cons part rest =>
      have hhead : (textOf (part :: rest)).head? = part.text.head? := by
        cases part <;> rfl
      rw [hhead] at h
      cases part with
      | raw r => simpa [Part.text, valueOf] using h
      | escape letter => exact absurd (List.mem_of_head? h) (not_mem_escape (by simp) hc)
      | unit a b c' d => exact absurd (List.mem_of_head? h) (not_mem_escape (by simp) hc)

theorem valueOf_append_raw (parts : List Part) (r : Raw) :
    valueOf (parts ++ [Part.raw r]) = valueOf parts ++ [r.byte] := by
  fun_induction valueOf parts with
  | case1 => rfl
  | case2 c rest ih => simp [valueOf, ih]
  | case3 letter rest ih => simp [valueOf, ih]
  | case4 a b c d a' b' c' d' rest lead trail hpair ih =>
      simp [valueOf, ih, lead, trail, hpair]
  | case5 a b c d a' b' c' d' rest lead trail hpair ih =>
      simpa [valueOf, lead, trail, hpair] using ih
  | case6 a b c d rest hnext ih =>
      cases rest with
      | nil => simp [valueOf]
      | cons part rest =>
          cases part with
          | raw c' => simpa [valueOf] using ih
          | escape letter => simpa [valueOf] using ih
          | unit a' b' c' d' => exact (hnext a' b' c' d' rest rfl).elim

/-- A blank at the end of the text is one of the value. -/
theorem last_valueOf {parts : List Part} {c : UInt8} (hc : c ∈ ([9, 32, 44, 58] : Text))
    (h : (textOf parts).getLast? = some c) : (valueOf parts).getLast? = some c := by
  rcases List.eq_nil_or_concat parts with rfl | ⟨rest, part, rfl⟩
  · cases h
  rw [List.concat_eq_append] at h ⊢
  have hlast : (textOf (rest ++ [part])).getLast? = part.text.getLast? := by
    rw [textOf, List.flatMap_append, List.getLast?_append]
    cases part <;> rfl
  rw [hlast] at h
  cases part with
  | raw r =>
      rw [valueOf_append_raw]
      simpa [Part.text] using h
  | escape letter => exact absurd (List.mem_of_getLast? h) (not_mem_escape (by simp) hc)
  | unit a b c' d => exact absurd (List.mem_of_getLast? h) (not_mem_escape (by simp) hc)

/-! ## The bytes of an object -/

theorem Space.not_mem (space : Space) {c : UInt8} (hc : c ≠ 9 ∧ c ≠ 10 ∧ c ≠ 13 ∧ c ≠ 32) :
    c ∉ space.text := by
  intro hmem
  rcases space.ok c hmem with rfl | rfl | rfl | rfl <;> simp at hc

/-- What stands between the quotes is printable. -/
theorem printable_textOf (parts : List Part) : ∀ c ∈ textOf parts, 32 ≤ c.toNat := by
  have hdigit : ∀ digit : HexDigit, 32 ≤ digit.byte.toNat := by
    intro digit
    have hall : ∀ n : Fin 256, (Js.hexValue (UInt8.ofNat n).toUInt16).isSome = true →
        32 ≤ (UInt8.ofNat n).toNat := by decide +kernel
    have hc := hall ⟨digit.byte.toNat, digit.byte.toNat_lt⟩
    rw [UInt8.ofNat_toNat] at hc
    exact hc digit.ok
  intro c hc
  obtain ⟨part, _, hpart⟩ := List.mem_flatMap.mp hc
  cases part with
  | raw r =>
      obtain rfl : c = r.byte := by simpa [Part.text] using hpart
      exact r.ok.1
  | escape letter =>
      have hletter : ∀ c ∈ ([92, letter.text] : Text), 32 ≤ c.toNat := by
        cases letter <;> exact forall_mem_of_all (by decide)
      exact hletter c hpart
  | unit a b c' d =>
      have hunit : ∀ c ∈ ([92, 117, a.byte, b.byte, c'.byte, d.byte] : Text), 32 ≤ c.toNat := by
        simp only [List.forall_mem_cons]
        exact ⟨by decide, by decide, hdigit a, hdigit b, hdigit c', hdigit d, by simp⟩
      exact hunit c hpart

/-- The characters of a number. -/
theorem Numeral.mem (numeral : Numeral) {c : UInt8} (h : c ∈ numeral.text) :
    Js.isNumberUnit c.toUInt16 = true :=
  Js.isNumberUnit_of_isJsonNumber numeral.ok _ (List.mem_map_of_mem h)

theorem Numeral.not_mem (numeral : Numeral) {c : UInt8}
    (hc : Js.isNumberUnit c.toUInt16 = false) : c ∉ numeral.text := by
  intro hmem
  rw [numeral.mem hmem] at hc
  cases hc

/-- A number is no option of `echo`. -/
theorem Numeral.not_option (numeral : Numeral) (rest : Text) :
    isEchoOption (numeral.text ++ rest) = false := by
  have hok := numeral.ok
  cases htext : numeral.text with
  | nil =>
      rw [htext] at hok
      cases hok
  | cons c digits =>
      by_cases hminus : c = 45
      · subst hminus
        cases digits with
        | nil =>
            rw [htext] at hok
            cases hok
        | cons d digits =>
            have hdigit : Js.isDigit d.toUInt16 = true := by
              rw [htext] at hok
              by_cases hzero : d.toUInt16 = 48
              · rw [hzero]
                decide
              · have hnumber : Js.isDigit d.toUInt16 = true ∧
                    Js.isFraction ((digits.map UInt8.toUInt16).dropWhile Js.isDigit) = true := by
                  simpa [Js.isJsonNumber, hzero] using hok
                exact hnumber.1
            have hletter : (d == 110 || d == 101 || d == 69) = false := by
              rw [Bool.eq_false_iff]
              intro hletter
              have hcases : (d = 110 ∨ d = 101) ∨ d = 69 := by simpa using hletter
              rcases hcases with (rfl | rfl) | rfl <;> exact absurd hdigit (by decide)
            simp [isEchoOption, hletter]
      · exact not_option_of_head (by simpa using hminus)

theorem Value.zero_not_mem (value : Value) : 0 ∉ value.text := by
  cases value with
  | string parts =>
      intro hmem
      have hparts : 0 ∉ textOf parts := fun h => absurd (printable_textOf parts 0 h) (by decide)
      simp [Value.text, hparts] at hmem
  | number numeral => exact numeral.not_mem (by decide)

/-- A value is on one line, and it neither begins nor ends with white space. -/
theorem Value.ends (value : Value) : value.text ≠ [] ∧ 10 ∉ value.text ∧
    (∀ c ∈ value.text.head?, c ∉ ([9, 13, 32] : Text)) ∧
    ∀ c ∈ value.text.getLast?, c ∉ ([9, 13, 32] : Text) := by
  cases value with
  | string parts =>
      have hnewline : 10 ∉ textOf parts := fun h =>
        absurd (printable_textOf parts 10 h) (by decide)
      have hlast : (34 :: (textOf parts ++ [34])).getLast? = some 34 := by
        rw [← List.cons_append]
        exact List.getLast?_concat
      simp [Value.text, hnewline, hlast]
  | number numeral =>
      have hspace : ∀ c ∈ numeral.text, c ∉ ([9, 13, 32] : Text) := by
        intro c hc hmem
        have hunits : ∀ c ∈ ([9, 13, 32] : Text), Js.isNumberUnit c.toUInt16 = false :=
          forall_mem_of_all (by decide)
        exact numeral.not_mem (hunits c hmem) hc
      refine ⟨?_, numeral.not_mem (by decide), fun c hc => hspace c (List.mem_of_head? hc),
        fun c hc => hspace c (List.mem_of_getLast? hc)⟩
      intro hnil
      have hok := numeral.ok
      rw [show numeral.text = [] from hnil] at hok
      cases hok

theorem Member.zero_not_mem (m : Member) : 0 ∉ m.text := by
  have hname : 0 ∉ textOf m.name := fun h => absurd (printable_textOf m.name 0 h) (by decide)
  have hspace : ∀ space : Space, 0 ∉ space.text := fun space => space.not_mem (by decide)
  simp [Member.text, hname, hspace, m.value.zero_not_mem]

theorem Object.zero_not_mem (o : Object) : 0 ∉ o.body := by
  by_cases hmembers : o.members = []
  · rw [Object.body, if_pos hmembers]
    exact o.inner.not_mem (by decide)
  · rw [Object.body, if_neg hmembers]
    apply SeparatedText.not_mem_intercalate (by decide)
    intro text htext
    obtain ⟨m, _, rfl⟩ := List.mem_map.mp htext
    exact m.zero_not_mem

theorem Object.zero_not_mem_text (o : Object) : 0 ∉ o.text := by
  have hspace : ∀ space : Space, 0 ∉ space.text := fun space => space.not_mem (by decide)
  simp [Object.text, hspace, o.zero_not_mem]

/-- An object with a letter has a colon. -/
theorem Object.colon_mem (o : Object) (h : 105 ∈ o.text) : 58 ∈ o.text := by
  have hspace : ∀ space : Space, 105 ∉ space.text := fun space => space.not_mem (by decide)
  cases hmembers : o.members with
  | nil =>
      have htext : 105 ∉ o.text := by simp [Object.text, Object.body, hmembers, hspace]
      exact absurd h htext
  | cons m members =>
      have hm : 58 ∈ m.text := by simp [Member.text]
      have hbody : 58 ∈ o.body := by
        rw [Object.body, hmembers, if_neg (List.cons_ne_nil _ _)]
        cases members with
        | nil => simpa using hm
        | cons next members =>
            rw [List.map_cons, List.map_cons, List.intercalate_cons_cons]
            simp [hm]
      simp [Object.text, hbody]

/-- A command substitution keeps an object up to the line feeds behind it. -/
theorem Object.substitution_text (o : Object) : substitution o.text =
    o.before.text ++ 123 :: (o.body ++ 125 :: substitution o.after.text) := by
  have hfront : 0 ∉ o.before.text ++ 123 :: o.body := by
    simp [o.before.not_mem (show (0 : UInt8) ≠ 9 ∧ (0 : UInt8) ≠ 10 ∧ (0 : UInt8) ≠ 13 ∧
      (0 : UInt8) ≠ 32 by decide), o.zero_not_mem]
  have htext : o.text = (o.before.text ++ 123 :: o.body) ++ 125 :: o.after.text := by
    simp [Object.text]
  rw [htext, substitution_append_cons hfront (by decide)]
  simp

end FlatJson
