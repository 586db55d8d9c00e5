import CodingLearners.Library.FlatJson
import Mathlib.Data.Set.List

/-!
# Flat JSON that is printed line by line

A program prints an object with one member on each line, and puts the values there as
they are. A reader finds the members it should if and only if every value was printed as
a spelling of it: quotes in a value cannot shift the lines, since the commas of the object
are those at the ends of the lines.
-/

namespace FlatJson

open ShellText

/-! ## UTF-8 -/

/-- The text is UTF-8. -/
inductive IsUtf8 : Text → Prop
  | nil : IsUtf8 []
  | cons (cp : Nat) (rest : Text) : Js.IsScalar cp → IsUtf8 rest →
      IsUtf8 ((Js.utf8 cp).map UInt8.ofNat ++ rest)

/-- A code point is one byte below 128, or several from 128 on. -/
theorem utf8_bytes {cp : Nat} (h : Js.IsScalar cp) :
    (∃ c : UInt8, c.toNat < 128 ∧ (Js.utf8 cp).map UInt8.ofNat = [c]) ∨
      ∀ c ∈ (Js.utf8 cp).map UInt8.ofNat, 128 ≤ c.toNat := by
  have hbyte : ∀ n < 256, 128 ≤ n → 128 ≤ (UInt8.ofNat n).toNat := by
    intro n hn hle
    rwa [UInt8.toNat_ofNat', Nat.mod_eq_of_lt hn]
  have hlt := Js.utf8_lt h
  by_cases hsmall : cp < 0x80
  · left
    refine ⟨UInt8.ofNat cp, ?_, by rw [Js.utf8, if_pos hsmall]; rfl⟩
    rw [UInt8.toNat_ofNat', Nat.mod_eq_of_lt (by omega)]
    exact hsmall
  · right
    intro c hc
    obtain ⟨n, hn, rfl⟩ := List.mem_map.mp hc
    apply hbyte n (hlt n hn)
    simp only [Js.utf8, if_neg hsmall] at hn
    split_ifs at hn <;> simp only [List.mem_cons, List.not_mem_nil, or_false] at hn <;> omega

theorem IsUtf8.ascii_cons {c : UInt8} (hc : c.toNat < 128) {rest : Text} (h : IsUtf8 rest) :
    IsUtf8 (c :: rest) := by
  have hcp : Js.IsScalar c.toNat := Or.inl (by omega)
  have hbytes : (Js.utf8 c.toNat).map UInt8.ofNat = [c] := by
    rw [Js.utf8, if_pos (by omega), List.map_singleton, UInt8.ofNat_toNat]
  simpa [hbytes] using IsUtf8.cons c.toNat rest hcp h

theorem IsUtf8.append {s t : Text} (hs : IsUtf8 s) (ht : IsUtf8 t) : IsUtf8 (s ++ t) := by
  induction hs with
  | nil => exact ht
  | cons cp rest hcp _ ih =>
      rw [List.append_assoc]
      exact .cons cp _ hcp ih

/-- A text is cut at a character of ASCII. -/
theorem isUtf8_append_cons {s t : Text} {c : UInt8} (hc : c.toNat < 128) :
    IsUtf8 (s ++ c :: t) ↔ IsUtf8 s ∧ IsUtf8 t := by
  constructor
  · intro h
    generalize htext : s ++ c :: t = text at h
    induction h generalizing s with
    | nil => simp at htext
    | cons cp rest hcp hrest ih =>
        rcases List.append_eq_append_iff.mp htext with ⟨u, hs, hu⟩ | ⟨u, hs, hu⟩
        · -- the character belongs to the code point
          cases u with
          | nil =>
              obtain rfl : s = (Js.utf8 cp).map UInt8.ofNat := by simpa using hs.symm
              have hcut : [] ++ c :: t = rest := by simpa using hu
              obtain ⟨-, ht⟩ := ih hcut
              exact ⟨by simpa using IsUtf8.cons cp [] hcp .nil, ht⟩
          | cons c' u =>
              obtain ⟨rfl, rfl⟩ := List.cons.inj hu
              rcases utf8_bytes hcp with ⟨d, -, hd⟩ | hlarge
              · rw [hd] at hs
                obtain ⟨rfl, hs⟩ | ⟨-, hs⟩ := List.append_eq_singleton_iff.mp hs.symm
                · obtain rfl : [] = u := (List.cons.inj hs).2
                  exact ⟨.nil, hrest⟩
                · cases hs
              · have := hlarge c (hs ▸ by simp)
                omega
        · obtain rfl := hs
          obtain ⟨hu, ht⟩ := ih hu.symm
          exact ⟨.cons cp u hcp hu, ht⟩
  · exact fun h => h.1.append (h.2.ascii_cons hc)

theorem isUtf8_cons {c : UInt8} (hc : c.toNat < 128) {t : Text} : IsUtf8 (c :: t) ↔ IsUtf8 t :=
  (isUtf8_append_cons (s := []) hc).trans (and_iff_right .nil)

theorem isUtf8_ascii_append {s t : Text} (hs : ∀ c ∈ s, c.toNat < 128) :
    IsUtf8 (s ++ t) ↔ IsUtf8 t := by
  induction s with
  | nil => rfl
  | cons c s ih =>
      rw [List.forall_mem_cons] at hs
      rw [List.cons_append, isUtf8_cons hs.1, ih hs.2]

theorem isUtf8_of_ascii {s : Text} (hs : ∀ c ∈ s, c.toNat < 128) : IsUtf8 s := by
  simpa using (isUtf8_ascii_append (t := []) hs).mpr .nil

theorem isUtf8_append_ascii {s t : Text} (ht : ∀ c ∈ t, c.toNat < 128) :
    IsUtf8 (s ++ t) ↔ IsUtf8 s := by
  cases t with
  | nil => rw [List.append_nil]
  | cons c t =>
      rw [List.forall_mem_cons] at ht
      rw [isUtf8_append_cons ht.1, and_iff_left (isUtf8_of_ascii ht.2)]

theorem isUtf8_intercalate {texts : List Text} :
    IsUtf8 ([44].intercalate texts) ↔ ∀ text ∈ texts, IsUtf8 text := by
  induction texts with
  | nil => simp [IsUtf8.nil]
  | cons text texts ih =>
      cases texts with
      | nil => simp
      | cons next texts =>
          rw [List.intercalate_cons_cons, List.append_assoc, List.singleton_append,
            isUtf8_append_cons (by decide), ih, List.forall_mem_cons (a := text)]

/-! ## What is read and what is printed -/

/-- What a member says. -/
inductive Content
  | string (value : Text)
  | number (text : Text)
  deriving DecidableEq

def Value.read : Value → Content
  | .string parts => .string (valueOf parts)
  | .number numeral => .number numeral.text

/-- The names of an object and what is under them, in order. -/
def Object.read (o : Object) : List (Text × Content) :=
  o.members.map fun m => (valueOf m.name, m.value.read)

/-- The text is an object with these members, in UTF-8. -/
def Reads (text : Text) (members : List (Text × Content)) : Prop :=
  IsUtf8 text ∧ ∃ o : Object, o.text = text ∧ o.read = members

/-- A member that a program prints: what it shall say, what is printed for that, and
the white space before the name and behind the value. -/
structure Row where
  before : Space
  name : Text
  content : Content
  printed : Text
  after : Space
  plain : ∀ c ∈ name, c.toNat < 128 ∧ 32 ≤ c.toNat ∧ c ≠ 34 ∧ c ≠ 92

/-- The value as it is printed, between quotes if it shall be a string. -/
def Row.valueText (row : Row) : Text :=
  match row.content with
  | .string _ => 34 :: (row.printed ++ [34])
  | .number _ => row.printed

/-- `"name": value` -/
def Row.text (row : Row) : Text :=
  row.before.text ++ 34 :: (row.name ++ 34 :: 58 :: 32 :: (row.valueText ++ row.after.text))

def printedObject (rows : List Row) (after : Space) : Text :=
  123 :: ([44].intercalate (rows.map Row.text) ++ 125 :: after.text)

/-- What is printed is a way to write what it shall say. -/
def Row.Spelled (row : Row) : Prop :=
  match row.content with
  | .string value => ∃ parts, textOf parts = row.printed ∧ valueOf parts = value
  | .number text => ∃ (numeral : Numeral) (before after : Space), numeral.text = text ∧
      before.text ++ (numeral.text ++ after.text) = row.printed

/-! ## The commas of an object -/

/-- After each comma a quote comes before the line ends. -/
def Quoted (text : Text) : Prop :=
  ∀ front rest, text = front ++ 44 :: rest → 34 ∈ firstLine rest

theorem quoted_of_not_mem {text : Text} (h : 44 ∉ text) : Quoted text := by
  rintro front rest rfl
  simp at h

theorem Quoted.append {s t : Text} (hs : Quoted s) (ht : Quoted t) : Quoted (s ++ t) := by
  intro front rest htext
  rcases List.append_eq_append_iff.mp htext with ⟨u, rfl, hu⟩ | ⟨u, rfl, hu⟩
  · exact ht u rest hu
  · cases u with
    | nil => exact ht [] rest hu.symm
    | cons c u =>
        obtain ⟨rfl, rfl⟩ := List.cons.inj hu
        have hquote := hs front u rfl
        rw [List.append_eq, firstLine, List.takeWhile_append]
        split
        · exact List.mem_append_left _ (List.takeWhile_subset _ hquote)
        · exact hquote

/-- No comma of a string ends a line. -/
theorem quoted_string (parts : List Part) : Quoted (34 :: (textOf parts ++ [34])) := by
  intro front rest htext
  have hnewline : 10 ∉ 34 :: (textOf parts ++ [34]) := by
    have hparts : 10 ∉ textOf parts := fun h => absurd (printable_textOf parts 10 h) (by decide)
    simp [hparts]
  have hrest : 10 ∉ rest := fun h => hnewline (htext ▸ by simp [h])
  have hkeep : firstLine rest = rest := by
    rw [firstLine, List.takeWhile_eq_self_iff]
    intro c hc
    simpa using ne_of_mem_of_not_mem hc hrest
  rw [hkeep]
  -- the last character is a quote, and it is behind the comma
  have hlast := congrArg List.getLast? htext
  rw [← List.cons_append, List.getLast?_concat, List.getLast?_append, List.getLast?_cons] at hlast
  cases hrest? : rest.getLast? with
  | none =>
      rw [hrest?] at hlast
      cases hlast
  | some c =>
      rw [hrest?] at hlast
      obtain rfl : 34 = c := by simpa using hlast
      exact List.mem_of_getLast? hrest?

theorem Space.comma_not_mem (space : Space) : 44 ∉ space.text := space.not_mem (by decide)

theorem Member.quoted (m : Member) : Quoted m.text := by
  have hvalue : Quoted m.value.text := by
    cases m.value with
    | string parts => exact quoted_string parts
    | number numeral => exact quoted_of_not_mem (numeral.not_mem (by decide))
  have htext : m.text = m.beforeName.text ++ ((34 :: (textOf m.name ++ [34])) ++
      ((m.afterName.text ++ 58 :: m.beforeValue.text) ++ (m.value.text ++ m.afterValue.text))) := by
    simp [Member.text]
  have hcolon : 44 ∉ m.afterName.text ++ 58 :: m.beforeValue.text := by
    simp [Space.comma_not_mem]
  rw [htext]
  exact (quoted_of_not_mem m.beforeName.comma_not_mem).append ((quoted_string m.name).append
    ((quoted_of_not_mem hcolon).append
      (hvalue.append (quoted_of_not_mem m.afterValue.comma_not_mem))))

/-- Two ways to cut a text at a character: at the same place, or one cut is inside a part
of the other. -/
theorem append_cons_eq_cases {α : Type*} {a : α} {x y s t : List α}
    (h : x ++ a :: s = y ++ a :: t) : (x = y ∧ s = t) ∨
      (∃ u, y = x ++ a :: u ∧ s = u ++ a :: t) ∨ ∃ u, x = y ++ a :: u ∧ t = u ++ a :: s := by
  rcases List.append_eq_append_iff.mp h with ⟨u, rfl, hu⟩ | ⟨u, rfl, hu⟩
  · cases u with
    | nil => exact .inl ⟨(List.append_nil x).symm, (List.cons.inj hu).2⟩
    | cons c u =>
        obtain ⟨rfl, hs⟩ := List.cons.inj hu
        exact .inr (.inl ⟨u, rfl, hs⟩)
  · cases u with
    | nil => exact .inl ⟨List.append_nil y, (List.cons.inj hu).2.symm⟩
    | cons c u =>
        obtain ⟨rfl, ht⟩ := List.cons.inj hu
        exact .inr (.inr ⟨u, rfl, ht⟩)

/-- The first character of a kind is where it is. -/
theorem eq_of_append_first {α : Type*} {a : α} {x y s t : List α} (hx : a ∉ x) (hy : a ∉ y)
    (h : x ++ a :: s = y ++ a :: t) : x = y ∧ s = t := by
  rcases append_cons_eq_cases h with h | ⟨u, rfl, -⟩ | ⟨u, rfl, -⟩
  · exact h
  · simp at hy
  · simp at hx

/-- So is the last one. -/
theorem eq_of_append_last {α : Type*} {a : α} {x y s t : List α} (hs : a ∉ s) (ht : a ∉ t)
    (h : x ++ a :: s = y ++ a :: t) : x = y ∧ s = t := by
  rcases append_cons_eq_cases h with h | ⟨u, -, rfl⟩ | ⟨u, -, rfl⟩
  · exact h
  · simp at hs
  · simp at ht

/-- If the lines end with commas and no comma of an item ends a line, then there are as
many items as lines only if they are the lines. -/
theorem items_eq_lines {items lines : List Text} (hquoted : ∀ item ∈ items, Quoted item)
    (hends : ∀ line ∈ lines.tail, [32, 10] <+: line) (hitems : items ≠ []) (hlines : lines ≠ [])
    (htext : [44].intercalate items = [44].intercalate lines) :
    lines.length ≤ items.length ∧ (items.length = lines.length → items = lines) := by
  induction items generalizing lines with
  | nil => exact absurd rfl hitems
  | cons item items ih =>
      rw [List.forall_mem_cons] at hquoted
      rcases lines with _ | ⟨line, _ | ⟨next, lines⟩⟩
      · exact absurd rfl hlines
      · refine ⟨by simp, fun hlength => ?_⟩
        obtain rfl : items = [] := by simpa using hlength
        simpa using htext
      · rw [List.intercalate_cons_cons, List.append_assoc, List.singleton_append] at htext
        rw [List.tail_cons, List.forall_mem_cons] at hends
        obtain ⟨⟨after, hnext⟩, hends⟩ := hends
        -- the next line begins with the end of this one
        have hrest : ∃ rest, [44].intercalate (next :: lines) = 32 :: 10 :: rest := by
          subst hnext
          cases lines with
          | nil => exact ⟨after, by simp⟩
          | cons line' lines =>
              exact ⟨after ++ 44 :: [44].intercalate (line' :: lines), by
                rw [List.intercalate_cons_cons]; simp⟩
        have hinside : ∀ u, item ≠ line ++ 44 :: 32 :: 10 :: u := by
          intro u hitem
          have hquote := hquoted.1 line (32 :: 10 :: u) hitem
          exact absurd hquote (by simp [firstLine])
        obtain ⟨rest, hrest⟩ := hrest
        cases items with
        | nil =>
            rw [hrest] at htext
            exact absurd (by simpa using htext) (hinside rest)
        | cons item' items =>
            rw [List.intercalate_cons_cons, List.append_assoc, List.singleton_append] at htext
            rcases append_cons_eq_cases htext with ⟨rfl, hrest'⟩ | ⟨u, -, hu⟩ | ⟨u, hitem, hu⟩
            · obtain ⟨hle, heq⟩ := @ih (next :: lines) hquoted.2 hends (by simp) (by simp) hrest'
              simp only [List.length_cons, List.cons.injEq] at hle heq ⊢
              exact ⟨by omega, fun hlength => ⟨trivial, heq (by omega)⟩⟩
            · -- a comma inside the line, so there is an item more
              obtain ⟨hle, -⟩ := @ih (u :: next :: lines) hquoted.2
                (by simpa using ⟨⟨after, hnext⟩, hends⟩) (by simp) (by simp)
                (by rw [hu, List.intercalate_cons_cons]; simp)
              simp only [List.length_cons] at hle ⊢
              exact ⟨by omega, by omega⟩
            · -- the comma that ends the line would be inside the item
              rw [hrest] at hu
              rcases u with _ | ⟨d, _ | ⟨d', u⟩⟩
              · simp at hu
              · simp at hu
              · simp only [List.cons_append, List.cons.injEq] at hu
                obtain ⟨rfl, rfl, -⟩ := hu
                exact absurd hitem (hinside u)

/-! ## A member and a row -/

theorem verbatim_spec (text : Text) (h : ∀ c ∈ text, 32 ≤ c.toNat ∧ c ≠ 34 ∧ c ≠ 92) :
    textOf (verbatim text h) = text ∧ valueOf (verbatim text h) = text := by
  induction text with
  | nil => exact ⟨rfl, rfl⟩
  | cons c text ih =>
      obtain ⟨htext, hvalue⟩ := ih fun c' hc' => h c' (List.mem_cons_of_mem _ hc')
      exact ⟨congrArg (c :: ·) htext, congrArg (c :: ·) hvalue⟩

/-- A name without quotes and escapes is written as it is. -/
theorem eq_of_plain {parts : List Part} {name rest rest' : Text}
    (hplain : ∀ c ∈ name, c ≠ 34 ∧ c ≠ 92) (h : textOf parts ++ 34 :: rest = name ++ 34 :: rest') :
    valueOf parts = name ∧ rest = rest' := by
  have hescape : ∀ u, 92 :: u ≠ name ++ 34 :: rest' := by
    intro u heq
    cases name with
    | nil => cases heq
    | cons c name => exact (hplain c List.mem_cons_self).2 (List.cons.inj heq).1.symm
  induction parts generalizing name with
  | nil =>
      cases name with
      | nil => exact ⟨rfl, (List.cons.inj h).2⟩
      | cons c name => exact absurd (List.cons.inj h).1.symm (hplain c List.mem_cons_self).1
  | cons part parts ih =>
      cases part with
      | raw r =>
          cases name with
          | nil => exact absurd (List.cons.inj h).1 r.ok.2.1
          | cons c name =>
              obtain ⟨rfl, htail⟩ := List.cons.inj h
              rw [List.forall_mem_cons] at hplain
              obtain ⟨hvalue, hrest⟩ := ih hplain.2 htail fun u heq => by
                cases name with
                | nil => cases heq
                | cons c name =>
                    exact (hplain.2 c List.mem_cons_self).2 (List.cons.inj heq).1.symm
              exact ⟨congrArg (r.byte :: ·) hvalue, hrest⟩
      | escape letter => exact absurd h (hescape _)
      | unit a b c d => exact absurd h (hescape _)

theorem Space.quote_not_mem (space : Space) : 34 ∉ space.text := space.not_mem (by decide)

theorem Numeral.ne_nil (numeral : Numeral) : numeral.text ≠ [] :=
  (Value.ends (.number numeral)).1

theorem Numeral.space_not_mem (numeral : Numeral) {c : UInt8}
    (hc : c = 9 ∨ c = 10 ∨ c = 13 ∨ c = 32) : c ∉ numeral.text := by
  apply numeral.not_mem
  rcases hc with rfl | rfl | rfl | rfl <;> decide

/-- White space around a number is cut off in one way only. -/
theorem spaced_number {numeral : Numeral} {before after after' : Space} {printed : Text}
    (h : before.text ++ (numeral.text ++ after.text) = 32 :: (printed ++ after'.text)) :
    ∃ s t : Space, s.text ++ (numeral.text ++ t.text) = printed := by
  obtain ⟨before', hbefore⟩ : ∃ before', before.text = 32 :: before' := by
    cases hb : before.text with
    | nil =>
        obtain ⟨c, digits, hdigits⟩ := List.exists_cons_of_ne_nil numeral.ne_nil
        rw [hb, hdigits] at h
        obtain rfl := (List.cons.inj h).1
        exact absurd (hdigits ▸ List.mem_cons_self) (numeral.space_not_mem (by simp))
    | cons c before' =>
        rw [hb] at h
        obtain rfl := (List.cons.inj h).1
        exact ⟨before', rfl⟩
  rw [hbefore] at h
  have hs : ∀ c ∈ before', c = 9 ∨ c = 10 ∨ c = 13 ∨ c = 32 := fun c hc =>
    before.ok c (hbefore ▸ List.mem_cons_of_mem _ hc)
  have hcut : (before' ++ numeral.text) ++ after.text = printed ++ after'.text := by
    rw [List.append_assoc]
    exact (List.cons.inj h).2
  rcases List.append_eq_append_iff.mp hcut with ⟨u, hprinted, hu⟩ | ⟨u, hnumber, hu⟩
  · refine ⟨⟨before', hs⟩, ⟨u, fun c hc => after.ok c (hu ▸ List.mem_append_left _ hc)⟩, ?_⟩
    rw [hprinted, List.append_assoc]
  · -- what is cut off behind the number has nothing of the number
    have hnil : u = [] := by
      by_contra hne
      have hlast := congrArg List.getLast? hnumber
      rw [List.getLast?_append_of_ne_nil _ numeral.ne_nil,
        List.getLast?_append_of_ne_nil _ hne] at hlast
      have hmem := List.getLast_mem hne
      refine numeral.space_not_mem (after'.ok _ (hu ▸ List.mem_append_left _ hmem)) ?_
      apply List.mem_of_getLast?
      rw [hlast, List.getLast?_eq_some_getLast hne]
    subst hnil
    exact ⟨⟨before', hs⟩, .empty, by simpa using hnumber⟩

/-- What a row is read as is written there. -/
theorem Row.spelled_of_member {row : Row} {m : Member} (htext : m.text = row.text)
    (hread : m.value.read = row.content) : row.Spelled := by
  obtain ⟨-, hname⟩ := eq_of_append_first m.beforeName.quote_not_mem row.before.quote_not_mem
    htext
  obtain ⟨-, hvalue⟩ := eq_of_plain (fun c hc => (row.plain c hc).2.2) hname
  have hcolon : 58 ∉ m.afterName.text := m.afterName.not_mem (by decide)
  obtain ⟨-, hvalue⟩ := eq_of_append_first (y := []) hcolon List.not_mem_nil hvalue
  rw [Row.valueText] at hvalue
  rw [Row.Spelled]
  cases hcontent : row.content with
  | string value =>
      rw [hcontent] at hread hvalue
      cases hm : m.value with
      | number numeral => rw [hm] at hread; cases hread
      | string parts =>
          rw [hm] at hread hvalue
          obtain rfl := Content.string.inj hread
          obtain ⟨-, hparts⟩ := eq_of_append_first (x := m.beforeValue.text) (y := [32])
            (s := textOf parts ++ 34 :: m.afterValue.text)
            (t := row.printed ++ 34 :: row.after.text)
            m.beforeValue.quote_not_mem (by decide) (by simpa [Value.text] using hvalue)
          obtain ⟨hparts, -⟩ := eq_of_append_last m.afterValue.quote_not_mem
            row.after.quote_not_mem hparts
          exact ⟨parts, hparts, rfl⟩
  | number text =>
      rw [hcontent] at hread hvalue
      cases hm : m.value with
      | string parts => rw [hm] at hread; cases hread
      | number numeral =>
          rw [hm] at hread hvalue
          obtain ⟨s, t, hprinted⟩ := spaced_number hvalue
          exact ⟨numeral, s, t, Content.number.inj hread, hprinted⟩

/-- A value between white space makes a member of the row. -/
theorem Row.exists_member {row : Row} {value : Value} {beforeValue afterValue : Space}
    (htext : beforeValue.text ++ (value.text ++ afterValue.text) =
      32 :: (row.valueText ++ row.after.text)) :
    ∃ m : Member, m.text = row.text ∧ valueOf m.name = row.name ∧ m.value = value := by
  obtain ⟨hname, hvalue⟩ := verbatim_spec row.name fun c hc => (row.plain c hc).2
  refine ⟨⟨row.before, verbatim row.name fun c hc => (row.plain c hc).2, .empty,
    beforeValue, value, afterValue⟩, ?_, hvalue, rfl⟩
  rw [Member.text, Row.text, hname, htext]
  rfl

/-- What is written in a row can be read there. -/
theorem Row.Spelled.value {row : Row} (h : row.Spelled) :
    ∃ (value : Value) (beforeValue afterValue : Space), value.read = row.content ∧
      beforeValue.text ++ (value.text ++ afterValue.text) =
        32 :: (row.valueText ++ row.after.text) := by
  rw [Row.Spelled] at h
  rw [Row.valueText]
  cases hcontent : row.content with
  | string value =>
      rw [hcontent] at h
      obtain ⟨parts, hprinted, hparts⟩ := h
      exact ⟨.string parts, ⟨[32], by simp⟩, row.after, congrArg Content.string hparts,
        by simp [Value.text, hprinted]⟩
  | number text =>
      rw [hcontent] at h
      obtain ⟨numeral, s, t, hnumber, hprinted⟩ := h
      have hs : ∀ c ∈ 32 :: s.text, c = 9 ∨ c = 10 ∨ c = 13 ∨ c = 32 := by
        simpa using s.ok
      have ht : ∀ c ∈ t.text ++ row.after.text, c = 9 ∨ c = 10 ∨ c = 13 ∨ c = 32 := by
        intro c hc
        exact (List.mem_append.mp hc).elim (t.ok c) (row.after.ok c)
      exact ⟨.number numeral, ⟨_, hs⟩, ⟨_, ht⟩, congrArg Content.number hnumber,
        by simp [Value.text, ← hprinted]⟩

/-- A row can be read as it should if and only if what is printed is a way to write it. -/
theorem row_iff (row : Row) :
    (∃ m : Member, m.text = row.text ∧ (valueOf m.name, m.value.read) = (row.name, row.content)) ↔
      row.Spelled := by
  constructor
  · rintro ⟨m, htext, hread⟩
    exact Row.spelled_of_member htext (Prod.mk.inj hread).2
  · intro hspelled
    obtain ⟨value, beforeValue, afterValue, hread, htext⟩ := hspelled.value
    obtain ⟨m, hm, hname, rfl⟩ := Row.exists_member htext
    exact ⟨m, hm, by rw [hname, hread]⟩

/-! ## The whole object -/

theorem Space.ascii (space : Space) : ∀ c ∈ space.text, c.toNat < 128 := by
  intro c hc
  rcases space.ok c hc with rfl | rfl | rfl | rfl <;> decide

theorem Row.isUtf8_iff (row : Row) : IsUtf8 row.text ↔ IsUtf8 row.printed := by
  have hvalue : IsUtf8 row.valueText ↔ IsUtf8 row.printed := by
    rw [Row.valueText]
    cases row.content with
    | string value => rw [isUtf8_cons (by decide), isUtf8_append_ascii (by simp)]
    | number text => rfl
  rw [Row.text, isUtf8_ascii_append row.before.ascii, isUtf8_cons (by decide),
    isUtf8_ascii_append fun c hc => (row.plain c hc).1, isUtf8_cons (by decide),
    isUtf8_cons (by decide), isUtf8_cons (by decide), isUtf8_append_ascii row.after.ascii, hvalue]

theorem isUtf8_printedObject (rows : List Row) (after : Space) :
    IsUtf8 (printedObject rows after) ↔ ∀ row ∈ rows, IsUtf8 row.printed := by
  have hafter : ∀ c ∈ 125 :: after.text, c.toNat < 128 := by simpa using after.ascii
  rw [printedObject, isUtf8_cons (by decide), isUtf8_append_ascii hafter, isUtf8_intercalate,
    List.forall_mem_map]
  simp only [Row.isUtf8_iff]

variable {rows : List Row}

/-- The members that are read are those of the lines. -/
theorem members_eq_rows {o : Object} {after : Space} (hne : rows ≠ [])
    (hends : ∀ row ∈ rows.tail, [32, 10] <+: row.before.text)
    (htext : o.text = printedObject rows after) (hlength : o.members.length = rows.length) :
    o.members.map Member.text = rows.map Row.text := by
  have hmembers : o.members ≠ [] := by
    rwa [← List.length_pos_iff, hlength, List.length_pos_iff]
  have hbrace : ∀ space : Space, 123 ∉ space.text ∧ 125 ∉ space.text := fun space =>
    ⟨space.not_mem (by decide), space.not_mem (by decide)⟩
  obtain ⟨-, hbody⟩ := eq_of_append_first (y := []) (hbrace o.before).1 List.not_mem_nil htext
  obtain ⟨hbody, -⟩ := eq_of_append_last (hbrace o.after).2 (hbrace after).2 hbody
  rw [Object.body, if_neg hmembers] at hbody
  refine (items_eq_lines ?_ ?_ (by simpa using hmembers) (by simpa using hne) hbody).2
    (by simpa using hlength)
  · rw [List.forall_mem_map]
    exact fun m _ => m.quoted
  · rw [← List.map_tail, List.forall_mem_map]
    exact fun row hrow => (hends row hrow).trans (List.prefix_append _ _)

/-- An object that is printed line by line says what it shall if and only if every value
is printed in a way to write it, in UTF-8. -/
theorem reads_iff (after : Space) (hne : rows ≠ []) (hnames : (rows.map Row.name).Nodup)
    (hends : ∀ row ∈ rows.tail, [32, 10] <+: row.before.text) :
    Reads (printedObject rows after) (rows.map fun row => (row.name, row.content)) ↔
      ∀ row ∈ rows, row.Spelled ∧ IsUtf8 row.printed := by
  rw [Reads, isUtf8_printedObject, and_comm, forall₂_and]
  refine and_congr_left fun _ => ?_
  -- the members and the rows, with what is read of them
  have hpairs := Set.ext_iff.mp (Set.range_list_map fun m : Member =>
    (m.text, valueOf m.name, m.value.read))
    (rows.map fun row => (row.text, row.name, row.content))
  simp only [Set.mem_range, Set.mem_ofPred_eq, List.forall_mem_map, Prod.mk.injEq] at hpairs
  have hrows : (∀ row ∈ rows, ∃ m : Member, m.text = row.text ∧
      valueOf m.name = row.name ∧ m.value.read = row.content) ↔ ∀ row ∈ rows, row.Spelled := by
    simp only [← row_iff, Prod.mk.injEq]
  rw [← hrows, ← hpairs]
  constructor
  · rintro ⟨o, htext, hread⟩
    have hlength : o.members.length = rows.length := by
      simpa [Object.read] using congrArg List.length hread
    have hmembers := members_eq_rows hne hends htext hlength
    refine ⟨o.members, ?_⟩
    have hzip := congrArg₂ List.zip hmembers hread
    rwa [Object.read, List.zip_map', List.zip_map'] at hzip
  · rintro ⟨members, hmembers⟩
    have htexts := congrArg (List.map Prod.fst) hmembers
    have hreads := congrArg (List.map Prod.snd) hmembers
    simp only [List.map_map, Function.comp_def] at htexts hreads
    have hnodup := congrArg (List.map Prod.fst) hreads
    simp only [List.map_map, Function.comp_def] at hnodup
    refine ⟨⟨.empty, .empty, members, after, hnodup ▸ hnames⟩, ?_, hreads⟩
    have hsome : members ≠ [] := by
      rintro rfl
      exact hne (by simpa using hreads.symm)
    rw [Object.text, Object.body, if_neg hsome, printedObject, htexts]
    rfl

/-! ## Values that are printed as they are -/

/-- The text is a way to write the string, in UTF-8. -/
def Spells (printed value : Text) : Prop :=
  (∃ parts, textOf parts = printed ∧ valueOf parts = value) ∧ IsUtf8 printed

/-- A string that is a way to write itself: UTF-8 without controls, quotes and backslashes. -/
structure Shown (value : Text) : Prop where
  bytes : ∀ c ∈ value, 32 ≤ c.toNat ∧ c ≠ 34 ∧ c ≠ 92
  utf8 : IsUtf8 value

theorem Shown.spells {value : Text} (h : Shown value) : Spells value value :=
  ⟨⟨_, verbatim_spec value h.bytes⟩, h.utf8⟩

/-- What is written without escapes has one meaning. -/
theorem Spells.eq_of_plain {printed value : Text} (hplain : ∀ c ∈ printed, c ≠ 34 ∧ c ≠ 92)
    (h : Spells printed value) : value = printed := by
  obtain ⟨⟨parts, rfl, rfl⟩, -⟩ := h
  exact (@FlatJson.eq_of_plain parts _ [] [] hplain rfl).1

/-- A value that is as long as its text is written without escapes. -/
theorem plain_of_length_le {parts : List Part}
    (h : (textOf parts).length ≤ (valueOf parts).length) :
    ∀ c ∈ textOf parts, c ≠ 34 ∧ c ≠ 92 := by
  have hcount := length_valueOf_add_le parts
  have hraw : ∀ part ∈ parts, part.isEscape = false := by
    simpa using List.countP_eq_zero.mp (show parts.countP Part.isEscape = 0 by omega)
  intro c hc
  obtain ⟨part, hmem, hpart⟩ := List.mem_flatMap.mp hc
  cases part with
  | raw r =>
      obtain rfl : c = r.byte := by simpa [Part.text] using hpart
      exact r.ok.2
  | escape letter => exact absurd (hraw _ hmem) (by simp [Part.isEscape])
  | unit a b c' d => exact absurd (hraw _ hmem) (by simp [Part.isEscape])

/-- What is printed, and is not longer than the value, is a way to write it only if it is
the value, without escapes. -/
theorem spells_iff_of_length_le {printed value : Text} (hlength : printed.length ≤ value.length) :
    Spells printed value ↔ printed = value ∧ Shown value := by
  constructor
  · intro h
    obtain ⟨⟨parts, rfl, rfl⟩, hutf8⟩ := id h
    have hplain := plain_of_length_le hlength
    have heq := h.eq_of_plain hplain
    rw [heq]
    exact ⟨rfl, fun c hc => ⟨printable_textOf parts c hc, hplain c hc⟩, hutf8⟩
  · rintro ⟨rfl, h⟩
    exact h.spells

theorem Numeral.ascii (numeral : Numeral) : ∀ c ∈ numeral.text, c.toNat < 128 := by
  have hall : ∀ n : Fin 256, Js.isNumberUnit (UInt8.ofNat n).toUInt16 = true →
      (UInt8.ofNat n).toNat < 128 := by decide +kernel
  intro c hc
  have hbyte := hall ⟨c.toNat, c.toNat_lt⟩
  rw [UInt8.ofNat_toNat] at hbyte
  exact hbyte (numeral.mem hc)

/-- What is printed is the number, up to white space. -/
def SpellsNumber (printed text : Text) : Prop :=
  (∃ (numeral : Numeral) (before after : Space), numeral.text = text ∧
    before.text ++ (numeral.text ++ after.text) = printed) ∧ IsUtf8 printed

/-- What is not longer than the number is it, or is none. -/
theorem spellsNumber_iff {printed text : Text} (hlength : printed.length ≤ text.length) :
    SpellsNumber printed text ↔
      printed = text ∧ Js.isJsonNumber (text.map UInt8.toUInt16) = true := by
  constructor
  · rintro ⟨⟨numeral, before, after, rfl, rfl⟩, -⟩
    simp only [List.length_append] at hlength
    have hbefore : before.text = [] := List.length_eq_zero_iff.mp (by omega)
    have hafter : after.text = [] := List.length_eq_zero_iff.mp (by omega)
    exact ⟨by simp [hbefore, hafter], numeral.ok⟩
  · rintro ⟨rfl, hnumber⟩
    refine ⟨⟨⟨printed, hnumber⟩, .empty, .empty, rfl, by simp⟩, ?_⟩
    exact isUtf8_of_ascii (Numeral.ascii ⟨printed, hnumber⟩)

end FlatJson
