import Mathlib.Data.List.DropRight

/-!
# What a shell does to texts

A text is the list of its bytes. Commands print a text; a command substitution
keeps what was printed without its zero bytes and without the line feeds at its
end.
-/

namespace ShellText

abbrev Text := List UInt8

/-- A literal of ASCII characters. -/
def ascii (literal : String) : Text := literal.toList.map fun c => c.toNat.toUInt8

/-- A word that `echo` takes for an option. -/
def isEchoOption : Text → Bool
  | 45 :: letters => !letters.isEmpty && letters.all fun c => c == 110 || c == 101 || c == 69
  | _ => false

/-- `echo "$text"` -/
def echo (text : Text) : Text :=
  if isEchoOption text then (if text.contains 110 then [] else [10]) else text ++ [10]

/-- A command substitution, from what the command prints: bytes, or units of a text. -/
def substitution {α : Type*} [DecidableEq α] [OfNat α 0] [OfNat α 10] (printed : List α) :
    List α :=
  (printed.filter fun c => decide (c ≠ 0)).rdropWhile fun c => decide (c = 10)

/-- `head -1` -/
def head1 (printed : Text) : Text :=
  if printed.contains 10 then (printed.takeWhile fun c => decide (c ≠ 10)) ++ [10] else printed

/-- `s/\r$//` -/
def dropCarriageReturn (line : Text) : Text :=
  if line.getLast? = some 13 then line.dropLast else line

/-- `s/^[blanks]*//` and `s/[blanks]*$//` -/
def trim (blanks : Text) (line : Text) : Text :=
  (line.dropWhile fun c => blanks.contains c).rdropWhile fun c => blanks.contains c

/-- `s/^"//` and `s/"$//` -/
def unquote (line : Text) : Text :=
  let line := if line.head? = some 34 then line.tail else line
  if line.getLast? = some 34 then line.dropLast else line

/-- The first line of a text. -/
def firstLine (text : Text) : Text := text.takeWhile fun c => decide (c ≠ 10)

/-- What holds of the bytes of a text, by evaluation. -/
theorem forall_mem_of_all {text : Text} {p : UInt8 → Prop} [DecidablePred p]
    (h : text.all (fun c => decide (p c)) = true) : ∀ c ∈ text, p c := by
  simpa using h

/-- Dropping stops in a part that does not begin with what is dropped. -/
theorem dropWhile_append {α : Type*} {p : α → Bool} {v : List α} (hne : v ≠ [])
    (hhead : ∀ c ∈ v.head?, p c = false) (before after : List α) :
    (before ++ (v ++ after)).dropWhile p = before.dropWhile p ++ (v ++ after) := by
  rw [List.dropWhile_append]
  cases v with
  | nil => exact absurd rfl hne
  | cons c v =>
      have hc : p c = false := hhead c rfl
      cases hbefore : before.dropWhile p with
      | nil => simp [hc]
      | cons => simp

/-- The same from the end. -/
theorem rdropWhile_append {α : Type*} {p : α → Bool} {v : List α} (hne : v ≠ [])
    (hlast : ∀ c ∈ v.getLast?, p c = false) (before after : List α) :
    (before ++ (v ++ after)).rdropWhile p = before ++ (v ++ after.rdropWhile p) := by
  have hreverse : (before ++ (v ++ after)).reverse =
      after.reverse ++ (v.reverse ++ before.reverse) := by simp
  rw [List.rdropWhile, hreverse, dropWhile_append (by simpa using hne) (by simpa using hlast)]
  simp [List.rdropWhile]

variable {text : Text}

theorem substitution_append_newline (text : Text) :
    substitution (text ++ [10]) = substitution text := by
  have hnewline : [(10 : UInt8)].filter (fun c => decide (c ≠ 0)) = [10] := rfl
  rw [substitution, List.filter_append, hnewline, List.rdropWhile_concat_pos _ _ _ (by simp)]
  rfl

/-- A text that ends neither with a line feed nor with a zero byte only loses the
zero bytes. -/
theorem substitution_eq_filter (hlast : ∀ c ∈ text.getLast?, c ≠ 0 ∧ c ≠ 10) :
    substitution text = text.filter fun c => decide (c ≠ 0) := by
  cases hlast? : text.getLast? with
  | none =>
      rw [List.getLast?_eq_none_iff.mp hlast?]
      rfl
  | some c =>
      obtain ⟨front, rfl⟩ := List.getLast?_eq_some_iff.mp hlast?
      obtain ⟨hzero, hnewline⟩ := hlast c hlast?
      rw [substitution, List.filter_append, List.filter_cons_of_pos (by simpa using hzero),
        List.filter_nil, List.rdropWhile_concat_neg _ _ _ (by simpa using hnewline)]

/-- A text without zero bytes that does not end with a line feed is kept. -/
theorem substitution_eq_self (hzero : 0 ∉ text) (hlast : ∀ c ∈ text.getLast?, c ≠ 10) :
    substitution text = text := by
  rw [substitution_eq_filter, List.filter_eq_self]
  · intro c hc
    simpa using ne_of_mem_of_not_mem hc hzero
  · intro c hc
    exact ⟨ne_of_mem_of_not_mem (List.mem_of_getLast? hc) hzero, hlast c hc⟩

/-- Only what stands behind a character that is kept can be lost. -/
theorem substitution_append_cons {front rest : Text} {c : UInt8} (hfront : 0 ∉ front)
    (hc : c ≠ 0 ∧ c ≠ 10) :
    substitution (front ++ c :: rest) = front ++ c :: substitution rest := by
  have hkept : front.filter (fun c => decide (c ≠ 0)) = front := by
    rw [List.filter_eq_self]
    intro c' hc'
    simpa using ne_of_mem_of_not_mem hc' hfront
  rw [substitution, List.filter_append, hkept, List.filter_cons_of_pos (by simpa using hc.1)]
  exact rdropWhile_append (List.cons_ne_nil c []) (by simpa using hc.2) front _

theorem not_mem_substitution {printed : Text} {c : UInt8} (h : c ∉ printed) :
    c ∉ substitution printed := by
  intro hmem
  exact h (List.mem_of_mem_filter ((List.rdropWhile_prefix _ _).subset hmem))

/-- What does not end with a line feed is found in what is kept as it is in the text. -/
theorem infix_substitution_iff {word : Text} (hword : word ≠ [])
    (hlast : ∀ c ∈ word.getLast?, c ≠ 10) (hzero : 0 ∉ text) :
    word <:+: substitution text ↔ word <:+: text := by
  have hkept : text.filter (fun c => decide (c ≠ 0)) = text := by
    rw [List.filter_eq_self]
    intro c hc
    simpa using ne_of_mem_of_not_mem hc hzero
  rw [substitution, hkept]
  constructor
  · exact fun h => h.trans (List.rdropWhile_prefix _ _).isInfix
  · rintro ⟨front, rest, rfl⟩
    rw [List.append_assoc, rdropWhile_append hword (by simpa using hlast)]
    exact ⟨front, _, by rw [List.append_assoc]⟩

/-! ## Lines -/

theorem mem_firstLine {c : UInt8} (h : c ∈ firstLine text) : c ∈ text ∧ c ≠ 10 :=
  ⟨(List.takeWhile_prefix _).subset h, by simpa using List.mem_takeWhile_imp h⟩

theorem firstLine_append (hnewline : 10 ∉ text) (rest : Text) :
    firstLine (text ++ rest) = text ++ firstLine rest := by
  rw [firstLine, List.takeWhile_append_of_pos, ← firstLine]
  intro c hc
  simpa using ne_of_mem_of_not_mem hc hnewline

theorem firstLine_append_of_mem (hnewline : 10 ∈ text) (rest : Text) :
    firstLine (text ++ rest) = firstLine text := by
  obtain ⟨line, lines, rfl, hline⟩ := List.eq_append_cons_of_mem hnewline
  rw [List.append_assoc, firstLine_append hline, firstLine_append hline]
  rfl

/-- `` `echo "$text" | head -1` `` -/
theorem substitution_head1_echo (hoption : isEchoOption text = false) (hzero : 0 ∉ text) :
    substitution (head1 (echo text)) = firstLine text := by
  have hhead : head1 (text ++ [10]) = firstLine text ++ [10] := by
    have hcontains : (text ++ [10]).contains 10 = true := by simp
    rw [head1, if_pos hcontains]
    congr 1
    by_cases hnewline : 10 ∈ text
    · exact firstLine_append_of_mem hnewline [10]
    · have hline := firstLine_append hnewline []
      rw [List.append_nil] at hline
      rw [hline]
      exact firstLine_append hnewline [10]
  rw [echo, hoption, if_neg Bool.false_ne_true, hhead, substitution_append_newline]
  apply substitution_eq_self
  · exact fun hmem => hzero (mem_firstLine hmem).1
  · exact fun c hc => (mem_firstLine (List.mem_of_getLast? hc)).2

theorem not_option_of_head (h : text.head? ≠ some 45) : isEchoOption text = false := by
  cases text with
  | nil => rfl
  | cons c rest =>
      unfold isEchoOption
      split
      · next heq =>
        obtain ⟨rfl, rfl⟩ := List.cons.inj heq
        exact absurd rfl h
      · rfl

theorem mem_dropCarriageReturn {c : UInt8} (h : c ∈ dropCarriageReturn text) : c ∈ text := by
  unfold dropCarriageReturn at h
  by_cases hlast : text.getLast? = some 13
  · rw [if_pos hlast] at h
    exact List.dropLast_subset _ h
  · rwa [if_neg hlast] at h

/-- Only a carriage return at the very end is dropped. -/
theorem dropCarriageReturn_append (hlast : ∀ c ∈ text.getLast?, c ≠ 13) (rest : Text) :
    dropCarriageReturn (text ++ rest) = text ++ dropCarriageReturn rest := by
  cases rest with
  | nil =>
      have hreturn : text.getLast? ≠ some 13 := fun h => hlast 13 h rfl
      simp [dropCarriageReturn, hreturn]
  | cons c rest =>
      have hend : (text ++ c :: rest).getLast? = (c :: rest).getLast? := by
        rw [List.getLast?_append, List.getLast?_cons]
        rfl
      rw [dropCarriageReturn, dropCarriageReturn, hend]
      by_cases hreturn : (c :: rest).getLast? = some 13
      · rw [if_pos hreturn, if_pos hreturn, List.dropLast_append_of_ne_nil (by simp)]
      · rw [if_neg hreturn, if_neg hreturn]

/-! ## Blanks -/

section Blanks

variable {blanks : Text}

theorem mem_trim {c : UInt8} (h : c ∈ trim blanks text) : c ∈ text :=
  (List.dropWhile_suffix _).subset ((List.rdropWhile_prefix _ _).subset h)

/-- Trimming stops at what is no blank. -/
theorem trim_append {v : Text} (hne : v ≠ []) (hhead : ∀ c ∈ v.head?, c ∉ blanks)
    (hlast : ∀ c ∈ v.getLast?, c ∉ blanks) (before after : Text) :
    trim blanks (before ++ (v ++ after)) =
      (before.dropWhile fun c => blanks.contains c) ++
        (v ++ (after.rdropWhile fun c => blanks.contains c)) := by
  rw [trim, dropWhile_append hne (by simpa using hhead)]
  exact rdropWhile_append hne (by simpa using hlast) _ after

/-- A trimmed text does not begin with a blank. -/
theorem head_trim {c : UInt8} (h : (trim blanks text).head? = some c) : c ∉ blanks := by
  have hfirst := List.head?_dropWhile_not (fun c => blanks.contains c) text
  rw [trim] at h
  generalize text.dropWhile (fun c => blanks.contains c) = front at h hfirst
  have hhead : front.head? = some c := by
    obtain ⟨rest, hrest⟩ := List.rdropWhile_prefix (fun c => blanks.contains c) front
    rw [← hrest, List.head?_append, h]
    rfl
  rw [hhead] at hfirst
  simpa using hfirst

/-- Nor does it end with one. -/
theorem last_trim {c : UInt8} (h : (trim blanks text).getLast? = some c) : c ∉ blanks := by
  rw [trim] at h
  have hne := List.ne_nil_of_mem (List.mem_of_getLast? h)
  have hlast := List.rdropWhile_last_not _ _ hne
  rw [List.getLast?_eq_some_getLast hne, Option.some.injEq] at h
  rw [h] at hlast
  simpa using hlast

/-- Trimming a text of blanks alone leaves nothing. -/
theorem trim_eq_nil (h : trim blanks text = []) : ∀ c ∈ text, c ∈ blanks := by
  rw [trim, List.rdropWhile_eq_nil_iff] at h
  have hfirst := List.head?_dropWhile_not (fun c => blanks.contains c) text
  have hnil : text.dropWhile (fun c => blanks.contains c) = [] := by
    cases hdrop : text.dropWhile fun c => blanks.contains c with
    | nil => rfl
    | cons c rest =>
        rw [hdrop] at h hfirst
        have hc : c ∈ blanks := by simpa using h c (List.mem_cons_self ..)
        exact absurd hc (by simpa using hfirst)
  simpa using hnil

/-- A part between two others is all there is after trimming if and only if the
others are blank. -/
theorem trim_append_eq_iff {v : Text} (hne : v ≠ []) (hhead : ∀ c ∈ v.head?, c ∉ blanks)
    (hlast : ∀ c ∈ v.getLast?, c ∉ blanks) (before after : Text) :
    trim blanks (before ++ (v ++ after)) = v ↔
      (∀ c ∈ before, c ∈ blanks) ∧ ∀ c ∈ after, c ∈ blanks := by
  rw [trim_append hne hhead hlast]
  constructor
  · intro h
    have hlength := congrArg List.length h
    simp only [List.length_append] at hlength
    have hbefore : before.dropWhile (fun c => blanks.contains c) = [] :=
      List.length_eq_zero_iff.mp (by omega)
    have hafter : after.rdropWhile (fun c => blanks.contains c) = [] :=
      List.length_eq_zero_iff.mp (by omega)
    exact ⟨by simpa using hbefore, by simpa using hafter⟩
  · rintro ⟨hbefore, hafter⟩
    have hfront : before.dropWhile (fun c => blanks.contains c) = [] := by simpa using hbefore
    have hback : after.rdropWhile (fun c => blanks.contains c) = [] := by simpa using hafter
    rw [hfront, hback, List.nil_append, List.append_nil]

/-- What is left of a text is blank if and only if the text is. -/
theorem blank_dropWhile {p q : UInt8 → Bool} (hpq : ∀ c, p c = true → q c = true) (text : Text) :
    (∀ c ∈ text.dropWhile p, q c = true) ↔ ∀ c ∈ text, q c = true := by
  constructor
  · intro h c hc
    rw [← List.takeWhile_append_dropWhile (p := p) (l := text)] at hc
    rcases List.mem_append.mp hc with hc | hc
    · exact hpq c (List.mem_takeWhile_imp hc)
    · exact h c hc
  · exact fun h c hc => h c ((List.dropWhile_suffix _).subset hc)

theorem blank_rdropWhile {p q : UInt8 → Bool} (hpq : ∀ c, p c = true → q c = true) (text : Text) :
    (∀ c ∈ text.rdropWhile p, q c = true) ↔ ∀ c ∈ text, q c = true := by
  have hreverse := blank_dropWhile hpq text.reverse
  simpa [List.rdropWhile] using hreverse

end Blanks

/-! ## Quotes -/

theorem mem_unquote {c : UInt8} (h : c ∈ unquote text) : c ∈ text := by
  have hlast : ∀ line : Text,
      c ∈ (if line.getLast? = some 34 then line.dropLast else line) → c ∈ line := by
    intro line hline
    split_ifs at hline with hquote
    · exact List.dropLast_subset _ hline
    · exact hline
  have hline := hlast _ h
  split_ifs at hline with hquote
  · exact List.mem_of_mem_tail hline
  · exact hline

theorem unquote_of_not_mem (h : 34 ∉ text) : unquote text = text := by
  have hhead : text.head? ≠ some 34 := fun hquote => h (List.mem_of_head? hquote)
  have hlast : text.getLast? ≠ some 34 := fun hquote => h (List.mem_of_getLast? hquote)
  rw [unquote, if_neg hhead, if_neg hlast]

/-- Quotes are only dropped at the ends. -/
theorem unquote_quoted {before after : Text} (hbefore : 34 ∉ before) (hafter : 34 ∉ after)
    (text : Text) : unquote (before ++ (34 :: (text ++ [34]) ++ after)) =
      (if before = [] then [] else before ++ [34]) ++
        (text ++ if after = [] then [] else 34 :: after) := by
  have hlast : ∀ front : Text, (if (front ++ 34 :: after).getLast? = some 34 then
      (front ++ 34 :: after).dropLast else front ++ 34 :: after) =
        front ++ if after = [] then [] else 34 :: after := by
    intro front
    rcases List.eq_nil_or_concat after with rfl | ⟨rest, c, rfl⟩
    · simp
    · have hc : c ≠ 34 := by
        rintro rfl
        simp at hafter
      rw [List.concat_eq_append, if_neg, if_neg]
      · simp
      · rw [List.append_cons, ← List.append_assoc, List.getLast?_concat]
        simpa using hc
  cases before with
  | nil =>
      have hline : (34 :: (text ++ [34]) ++ after : Text).tail = text ++ 34 :: after := by simp
      rw [List.nil_append, unquote, if_pos rfl, hline]
      exact hlast text
  | cons c before =>
      have hc : (c :: before ++ (34 :: (text ++ [34]) ++ after)).head? ≠ some 34 := by
        rintro hquote
        obtain rfl : c = 34 := by simpa using hquote
        simp at hbefore
      have hline : c :: before ++ (34 :: (text ++ [34]) ++ after) =
          (c :: before ++ 34 :: text) ++ 34 :: after := by simp
      rw [unquote, if_neg hc, hline]
      refine (hlast _).trans ?_
      simp

end ShellText
