import CodingLearners.ProxyScripts.V2rayUrl
import Mathlib.Data.List.Find

/-!
# The members that `convert_v2ray_url_to_config.sh` reads

Which members of a flat JSON object the loop of the script reads right. The
script knows nothing of quoting: it looks at the pieces between commas, takes
the first one that is signed with a name, and removes blanks and quotes by their
place on a line.
-/

namespace CodingLearners.ProxyScripts

open ShellText ShellPattern ShellPattern.Item FlatJson

/-! ## What is to be read -/

/-- The variables hold the values of the members of their names. -/
def Holds (vars : V2rayVars) (o : Object) : Prop :=
  ∀ m ∈ o.members, ∀ field : Field, valueOf m.name = field.sign → vars field = m.value.content

/-- A member up to its first comma. -/
def ownPiece (m : Member) : Text := cutLongestSuffix [lit 44, many] m.text

/-- The blanks that are removed around a value that is not quoted. -/
def Field.blanks (field : Field) : Text := if field = .host then [32, 9] else [32]

/-- The first line has only blanks, and possibly a carriage return at its end. -/
def BlankLine (blanks text : Text) : Prop := ∀ c ∈ dropCarriageReturn (firstLine text), c ∈ blanks

/-- How a value has to be written: on the line of its colon, with blanks around
it, and a string with neither commas nor escapes. If the line ends before the
value, it has to be the value. -/
def Plain (field : Field) (m : Member) : Prop :=
  if 10 ∈ m.beforeValue.text then
    field.kept (trim [32] (dropCarriageReturn (firstLine m.beforeValue.text))) = m.value.content
  else
    match m.value with
    | .string parts =>
        (∀ c ∈ m.beforeValue.text, c = 32) ∧ BlankLine [32] m.afterValue.text ∧
        44 ∉ textOf parts ∧ textOf parts = valueOf parts ∧
        (field = .host → trim [32, 9] (valueOf parts) = valueOf parts)
    | .number _ =>
        (∀ c ∈ m.beforeValue.text, c ∈ field.blanks) ∧ BlankLine field.blanks m.afterValue.text

/-- Why the variable of a member holds its value: the first piece that is signed
with the name is the member, written plainly; or it is another one that happens
to have the value; or there is none, and nothing is the value. -/
inductive InPlace (o : Object) (field : Field) (m : Member) : Prop
  | own (hfirst : signedPiece o.body field = some (ownPiece m)) (hplain : Plain field m)
  | other (tinf : Text) (hfirst : signedPiece o.body field = some tinf) (hne : tinf ≠ ownPiece m)
      (hsame : field.kept (tval tinf) = m.value.content)
  | nothing (hnone : signedPiece o.body field = none) (hempty : m.value.content = [])

/-! ## A value behind its colon -/

/-- What is read behind the first colon. -/
theorem tval_eq {front rest : Text} (hfront : 58 ∉ front) (hoption : isEchoOption rest = false)
    (hzero : 0 ∉ rest) :
    tval (front ++ 58 :: rest) = unquote (trim [32] (dropCarriageReturn (firstLine rest))) := by
  rw [tval, cutShortestPrefix_char hfront, substitution_head1_echo hoption hzero]

/-- A name that the script looks for is written without commas and colons. -/
theorem not_mem_name {m : Member} {field : Field} (hname : valueOf m.name = field.sign) {c : UInt8}
    (hc : c ∈ ([44, 58] : Text)) : c ∉ textOf m.name := by
  intro hmem
  have hvalue : c ∈ valueOf m.name := by
    apply mem_valueOf _ hmem
    simp only [List.mem_cons, List.not_mem_nil, or_false] at hc ⊢
    exact .inr (.inr hc)
  rw [hname] at hvalue
  have hsign : ∀ c ∈ ([44, 58] : Text), c ∉ field.sign := by
    cases field <;> exact forall_mem_of_all (by decide)
  exact hsign c hc hvalue

/-- The piece of a member has its name, its colon and its value up to a comma. -/
theorem ownPiece_eq {m : Member} {field : Field} (hname : valueOf m.name = field.sign) :
    ∃ front, 58 ∉ front ∧ 44 ∉ front ∧ ownPiece m = front ++ 58 :: (m.beforeValue.text ++
      cutLongestSuffix [lit 44, many] (m.value.text ++ m.afterValue.text)) := by
  have hspace : ∀ (space : Space), 44 ∉ space.text ∧ 58 ∉ space.text := fun space =>
    ⟨space.not_mem (by decide), space.not_mem (by decide)⟩
  have hcomma := not_mem_name hname (show (44 : UInt8) ∈ ([44, 58] : Text) by simp)
  have hcolon := not_mem_name hname (show (58 : UInt8) ∈ ([44, 58] : Text) by simp)
  refine ⟨m.beforeName.text ++ 34 :: (textOf m.name ++ 34 :: m.afterName.text), ?_, ?_, ?_⟩
  · simp [hspace, hcolon]
  · simp [hspace, hcomma]
  · have htext : m.text = (m.beforeName.text ++ 34 :: (textOf m.name ++ 34 :: (m.afterName.text ++
        58 :: m.beforeValue.text))) ++ (m.value.text ++ m.afterValue.text) := by
      simp [Member.text]
    rw [ownPiece, htext, cutLongestSuffix_char_append]
    · simp
    · simp [hspace, hcomma]

/-- What is read of a member, from its own piece. -/
theorem tval_ownPiece {m : Member} {field : Field} (hname : valueOf m.name = field.sign) :
    tval (ownPiece m) = unquote (trim [32] (dropCarriageReturn (firstLine (m.beforeValue.text ++
      cutLongestSuffix [lit 44, many] (m.value.text ++ m.afterValue.text))))) := by
  obtain ⟨front, hcolon, _, hpiece⟩ := ownPiece_eq hname
  have hspace : ∀ (space : Space), 0 ∉ space.text ∧ 44 ∉ space.text ∧ 45 ∉ space.text :=
    fun space => ⟨space.not_mem (by decide), space.not_mem (by decide), space.not_mem (by decide)⟩
  rw [hpiece]
  apply tval_eq hcolon
  · cases hbefore : m.beforeValue.text with
    | cons c before =>
        apply not_option_of_head
        rintro hminus
        obtain rfl : c = 45 := by simpa using hminus
        exact (hspace m.beforeValue).2.2 (by simp [hbefore])
    | nil =>
        cases hvalue : m.value with
        | string parts =>
            have hquote : 44 ∉ ([34] : Text) := by decide
            have hcut := cutLongestSuffix_char_append hquote
              (textOf parts ++ [34] ++ m.afterValue.text)
            rw [List.singleton_append] at hcut
            rw [Value.text, List.nil_append, List.cons_append, hcut]
            exact not_option_of_head (by simp)
        | number numeral =>
            have hcomma : 44 ∉ numeral.text ++ m.afterValue.text := by
              simp [numeral.not_mem (show Js.isNumberUnit (44 : UInt8).toUInt16 = false by decide),
                (hspace m.afterValue).2.1]
            rw [Value.text, (cutSuffix_of_not_mem hcomma).2]
            exact numeral.not_option m.afterValue.text
  · intro hmem
    rcases List.mem_append.mp hmem with hmem | hmem
    · exact (hspace m.beforeValue).1 hmem
    · have hrest := cutLongestSuffix_prefix.subset hmem
      simp [m.value.zero_not_mem, hspace] at hrest

/-- The line of a value. -/
theorem line_value {before : Text} (hbefore : 10 ∉ before) (value : Value) (after : Text) :
    dropCarriageReturn (firstLine (before ++ (value.text ++ after))) =
      before ++ (value.text ++ dropCarriageReturn (firstLine after)) := by
  obtain ⟨hne, hnewline, _, hlast⟩ := value.ends
  have hline : 10 ∉ before ++ value.text := by simp [hbefore, hnewline]
  have hreturn : ∀ c ∈ (before ++ value.text).getLast?, c ≠ 13 := by
    intro c hc
    rw [List.getLast?_append_of_ne_nil _ hne] at hc
    rintro rfl
    exact hlast 13 hc (by decide)
  rw [← List.append_assoc, firstLine_append hline, dropCarriageReturn_append hreturn,
    List.append_assoc]

/-- No value begins or ends with a blank. -/
theorem value_ends (value : Value) (blanks : Text) (hblanks : ∀ c ∈ blanks, c ∈ ([32, 9] : Text)) :
    (∀ c ∈ value.text.head?, c ∉ blanks) ∧ ∀ c ∈ value.text.getLast?, c ∉ blanks := by
  obtain ⟨_, _, hhead, hlast⟩ := value.ends
  have hspace : ∀ c ∈ ([32, 9] : Text), c ∈ ([9, 13, 32] : Text) :=
    forall_mem_of_all (by decide)
  exact ⟨fun c hc hmem => hhead c hc (hspace c (hblanks c hmem)),
    fun c hc hmem => hlast c hc (hspace c (hblanks c hmem))⟩

/-! ## Strings -/

/-- A string trimmed with what stands around it is its value only if nothing
stands there. -/
theorem trim_string {before after : Text} (hbefore : before = [] ∨ 34 ∈ before)
    (hafter : after = [] ∨ 34 ∈ after) {parts : List Part}
    (h : trim [32, 9] (before ++ (textOf parts ++ after)) = valueOf parts) :
    before = [] ∧ after = [] ∧ textOf parts = valueOf parts := by
  have hlength := length_valueOf_le parts
  have hside : ∀ side : Text, side = [] ∨ 34 ∈ side → (∀ c ∈ side, c ∈ ([32, 9] : Text)) →
      side = [] := by
    intro side hquote hblank
    rcases hquote with hnil | hquote
    · exact hnil
    · exact absurd (hblank 34 hquote) (by decide)
  have hescape : ∀ c ∈ ([32, 9] : Text), c ∈ ([9, 32, 44, 58] : Text) :=
    forall_mem_of_all (by decide)
  -- a blank at an end of the text is one of the value, which is trimmed
  have hhead : ∀ c ∈ (textOf parts).head?, c ∉ ([32, 9] : Text) := by
    intro c hc hblank
    have hvalue := head_valueOf (hescape c hblank) hc
    rw [← h] at hvalue
    exact head_trim hvalue hblank
  have hlast : ∀ c ∈ (textOf parts).getLast?, c ∉ ([32, 9] : Text) := by
    intro c hc hblank
    have hvalue := last_valueOf (hescape c hblank) hc
    rw [← h] at hvalue
    exact last_trim hvalue hblank
  by_cases htext : textOf parts = []
  · rw [htext, List.length_nil, Nat.le_zero, List.length_eq_zero_iff] at hlength
    rw [htext, hlength, List.nil_append] at h
    have hblank := trim_eq_nil h
    rw [List.forall_mem_append] at hblank
    exact ⟨hside _ hbefore hblank.1, hside _ hafter hblank.2, htext.trans hlength.symm⟩
  · have hsum := congrArg List.length h
    rw [trim_append htext hhead hlast] at hsum
    simp only [List.length_append] at hsum
    have hfront : before.dropWhile (fun c => ([32, 9] : Text).contains c) = [] :=
      List.length_eq_zero_iff.mp (by omega)
    have hback : after.rdropWhile (fun c => ([32, 9] : Text).contains c) = [] :=
      List.length_eq_zero_iff.mp (by omega)
    obtain rfl := hside _ hbefore (by simpa using hfront)
    obtain rfl := hside _ hafter (by simpa using hback)
    rw [(trim_append_eq_iff htext hhead hlast [] []).mpr (by simp)] at h
    exact ⟨rfl, rfl, h⟩

/-- What is kept of a string with what stands around it is its value if and only
if nothing stands there and it is written without escapes. -/
theorem kept_string (field : Field) {before after : Text} (hbefore : before = [] ∨ 34 ∈ before)
    (hafter : after = [] ∨ 34 ∈ after) (parts : List Part) :
    field.kept (before ++ (textOf parts ++ after)) = valueOf parts ↔
      before = [] ∧ after = [] ∧ textOf parts = valueOf parts ∧
        (field = .host → trim [32, 9] (valueOf parts) = valueOf parts) := by
  unfold Field.kept
  constructor
  · intro h
    by_cases hhost : field = .host
    · rw [if_pos hhost] at h
      obtain ⟨rfl, rfl, htext⟩ := trim_string hbefore hafter h
      refine ⟨rfl, rfl, htext, fun _ => ?_⟩
      rw [htext] at h
      simpa using h
    · rw [if_neg hhost] at h
      have hlength := length_valueOf_le parts
      have hsum := congrArg List.length h
      simp only [List.length_append] at hsum
      obtain rfl : before = [] := List.length_eq_zero_iff.mp (by omega)
      obtain rfl : after = [] := List.length_eq_zero_iff.mp (by omega)
      exact ⟨rfl, rfl, by simpa using h, fun heq => absurd heq hhost⟩
  · rintro ⟨rfl, rfl, htext, hhost⟩
    rw [List.nil_append, List.append_nil, htext]
    by_cases heq : field = .host
    · rw [if_pos heq, hhost heq]
    · rw [if_neg heq]

/-- A string without a comma is read right if and only if it is written plainly. -/
theorem read_string (field : Field) {before : Text} (hspace : 34 ∉ before) (hbefore : 10 ∉ before)
    (parts : List Part) {after : Text} (hafter : 34 ∉ after) :
    field.kept (unquote (trim [32] (dropCarriageReturn (firstLine (before ++
      ((Value.string parts).text ++ after)))))) = valueOf parts ↔
      (∀ c ∈ before, c = 32) ∧ BlankLine [32] after ∧ textOf parts = valueOf parts ∧
        (field = .host → trim [32, 9] (valueOf parts) = valueOf parts) := by
  have hline : 34 ∉ dropCarriageReturn (firstLine after) :=
    fun hmem => hafter (mem_firstLine (mem_dropCarriageReturn hmem)).1
  obtain ⟨hhead, hlast⟩ := value_ends (.string parts) [32]
    (forall_mem_of_all (by decide))
  rw [line_value hbefore, trim_append (Value.ends _).1 hhead hlast]
  have hfront : before.dropWhile (fun c => ([32] : Text).contains c) = [] ↔
      ∀ c ∈ before, c = 32 := by simp
  have hback : (dropCarriageReturn (firstLine after)).rdropWhile
      (fun c => ([32] : Text).contains c) = [] ↔ BlankLine [32] after := by simp [BlankLine]
  have hfront' : 34 ∉ before.dropWhile fun c => ([32] : Text).contains c :=
    fun hmem => hspace ((List.dropWhile_suffix _).subset hmem)
  have hback' : 34 ∉ (dropCarriageReturn (firstLine after)).rdropWhile
      fun c => ([32] : Text).contains c :=
    fun hmem => hline ((List.rdropWhile_prefix _ _).subset hmem)
  rw [← hfront, ← hback]
  generalize before.dropWhile (fun c => ([32] : Text).contains c) = front at hfront' ⊢
  generalize (dropCarriageReturn (firstLine after)).rdropWhile
    (fun c => ([32] : Text).contains c) = back at hback' ⊢
  have hquoted := unquote_quoted hfront' hback' (textOf parts)
  have hsides : ∀ (side quoted : Text), 34 ∈ quoted →
      ((if side = [] then [] else quoted) = [] ∨ 34 ∈ if side = [] then [] else quoted) ∧
      ((if side = [] then [] else quoted) = [] ↔ side = []) := by
    intro side quoted hquote
    by_cases hnil : side = []
    · simp [hnil]
    · rw [if_neg hnil]
      exact ⟨.inr hquote, fun h => absurd hquote (by simp [h]), fun h => absurd h hnil⟩
  have hleft := hsides front (front ++ [34]) (by simp)
  have hright := hsides back (34 :: back) (by simp)
  rw [Value.text, hquoted, kept_string field hleft.1 hright.1, hleft.2, hright.2]

/-! ## Numbers -/

/-- A number is read right if and only if it is written plainly. -/
theorem read_number (field : Field) {before : Text} (hspace : 34 ∉ before) (hbefore : 10 ∉ before)
    (numeral : Numeral) {after : Text} (hafter : 34 ∉ after) :
    field.kept (unquote (trim [32] (dropCarriageReturn (firstLine (before ++
      ((Value.number numeral).text ++ after)))))) = numeral.text ↔
      (∀ c ∈ before, c ∈ field.blanks) ∧ BlankLine field.blanks after := by
  obtain ⟨hhead, hlast⟩ := value_ends (.number numeral) [32]
    (forall_mem_of_all (by decide))
  obtain ⟨hhead', hlast'⟩ := value_ends (.number numeral) [32, 9]
    (forall_mem_of_all (by decide))
  have hne := (Value.number numeral).ends.1
  have hquote : 34 ∉ (Value.number numeral).text := numeral.not_mem (by decide)
  have hline : 34 ∉ dropCarriageReturn (firstLine after) :=
    fun hmem => hafter (mem_firstLine (mem_dropCarriageReturn hmem)).1
  rw [line_value hbefore, unquote_of_not_mem, BlankLine]
  · unfold Field.kept Field.blanks
    by_cases hhost : field = .host
    · have hblanks : ∀ c, ([32] : Text).contains c = true → ([32, 9] : Text).contains c = true := by
        simp
      have hfront := blank_dropWhile hblanks before
      have hback := blank_rdropWhile hblanks (dropCarriageReturn (firstLine after))
      simp only [List.contains_iff_mem] at hfront hback
      rw [if_pos hhost, if_pos hhost, trim_append hne hhead hlast, ← hfront, ← hback]
      exact trim_append_eq_iff hne hhead' hlast' _ _
    · rw [if_neg hhost, if_neg hhost]
      exact trim_append_eq_iff hne hhead hlast _ _
  · intro hmem
    have hmem := mem_trim hmem
    simp [hspace, hquote, hline] at hmem

/-! ## Members -/

/-- What is kept of a text is in it. -/
theorem mem_kept {field : Field} {text : Text} {c : UInt8} (h : c ∈ field.kept text) :
    c ∈ text := by
  unfold Field.kept at h
  split_ifs at h with hhost
  · exact mem_trim h
  · exact h

/-- The own piece of a member is read right if and only if the member is written
plainly. -/
theorem read_iff {m : Member} {field : Field} (hname : valueOf m.name = field.sign) :
    field.kept (tval (ownPiece m)) = m.value.content ↔ Plain field m := by
  have hspace : ∀ (space : Space), 34 ∉ space.text ∧ 44 ∉ space.text := fun space =>
    ⟨space.not_mem (by decide), space.not_mem (by decide)⟩
  rw [tval_ownPiece hname, Plain]
  by_cases hbefore : 10 ∈ m.beforeValue.text
  · rw [if_pos hbefore, firstLine_append_of_mem hbefore, unquote_of_not_mem]
    intro hmem
    exact (hspace m.beforeValue).1 (mem_firstLine (mem_dropCarriageReturn (mem_trim hmem))).1
  rw [if_neg hbefore]
  have hafter := hspace m.afterValue
  cases hvalue : m.value with
  | string parts =>
      by_cases hcomma : 44 ∈ textOf parts
      · constructor
        · intro h
          -- the value has the comma at which the piece is cut off
          have hmem : 44 ∈ valueOf parts := mem_valueOf (by decide) hcomma
          rw [show valueOf parts = (Value.string parts).content from rfl, ← h] at hmem
          have hline := (mem_firstLine (mem_dropCarriageReturn (mem_trim (mem_unquote
            (mem_kept hmem))))).1
          rcases List.mem_append.mp hline with hline | hline
          · exact absurd hline (hspace m.beforeValue).2
          · exact absurd hline not_mem_cutLongestSuffix_char
        · exact fun h => absurd hcomma h.2.2.1
      · have hnone : 44 ∉ (Value.string parts).text ++ m.afterValue.text := by
          simp [Value.text, hcomma, hafter]
        rw [(cutSuffix_of_not_mem hnone).2]
        refine (read_string field (hspace m.beforeValue).1 hbefore parts hafter.1).trans ?_
        simp only [hcomma, not_false_eq_true, true_and]
  | number numeral =>
      have hnumber : 44 ∉ numeral.text := numeral.not_mem (by decide)
      have hnone : 44 ∉ (Value.number numeral).text ++ m.afterValue.text := by
        simp [Value.text, hnumber, hafter]
      rw [(cutSuffix_of_not_mem hnone).2]
      exact read_number field (hspace m.beforeValue).1 hbefore numeral hafter.1

/-- A variable holds the value of a member if and only if the member is in place. -/
theorem found_iff {o : Object} {m : Member} {field : Field} (hname : valueOf m.name = field.sign) :
    found o.body field = m.value.content ↔ InPlace o field m := by
  have hread := read_iff hname
  cases hfirst : signedPiece o.body field with
  | none =>
      rw [found, hfirst]
      constructor
      · exact fun h => .nothing hfirst h.symm
      · rintro (⟨hother, _⟩ | ⟨_, hother, _, _⟩ | ⟨_, hempty⟩)
        · cases hfirst.symm.trans hother
        · cases hfirst.symm.trans hother
        · exact hempty.symm
  | some tinf =>
      rw [found, hfirst]
      by_cases hown : tinf = ownPiece m
      · subst hown
        refine hread.trans ⟨fun h => .own hfirst h, ?_⟩
        rintro (⟨_, hplain⟩ | ⟨_, hother, hne, _⟩ | ⟨hnone, _⟩)
        · exact hplain
        · exact absurd (Option.some.inj (hother.symm.trans hfirst)) hne
        · cases hfirst.symm.trans hnone
      · constructor
        · exact fun h => .other tinf hfirst hown h
        · rintro (⟨hother, _⟩ | ⟨_, hother, _, hsame⟩ | ⟨hnone, _⟩)
          · exact absurd (Option.some.inj (hfirst.symm.trans hother)) hown
          · obtain rfl := Option.some.inj (hfirst.symm.trans hother)
            exact hsame
          · cases hfirst.symm.trans hnone

/-! ## Objects -/

/-- The loop on the text of an object. -/
theorem fieldLoop_text (o : Object) : fieldLoop (substitution o.text) = some (found o.body) := by
  have hafter : 125 ∉ substitution o.after.text :=
    not_mem_substitution (o.after.not_mem (by decide))
  have hbefore : 123 ∉ o.before.text := o.before.not_mem (by decide)
  have htext : substitution o.text =
      (o.before.text ++ 123 :: o.body) ++ 125 :: substitution o.after.text := by
    simp [o.substitution_text]
  rw [fieldLoop_eq, htext, cutShortestSuffix_char hafter, cutShortestPrefix_char hbefore]

/-- The address of an object, in any way to write base64. -/
def v2rayUrl (o : Object) (urlSafe padded : Bool) : Text :=
  ascii "vmess://" ++ (Encoded.mk o.text urlSafe padded).text

/-- The script on the address of an object: it goes on if it finds `id` there. -/
theorem convertV2ray_url {tools : Tools} (htools : tools.Standard) (o : Object)
    (urlSafe padded : Bool) :
    convertV2ray tools (v2rayUrl o urlSafe padded) =
      if ascii "id" <:+: o.text then .converted (found o.body) else .refused := by
  have hcut : cutShortestPrefix [many, lit 47, lit 47] (v2rayUrl o urlSafe padded) =
      (Encoded.mk o.text urlSafe padded).text := by
    have hscheme : v2rayUrl o urlSafe padded = ascii "vmess:" ++
        47 :: 47 :: (Encoded.mk o.text urlSafe padded).text := rfl
    rw [hscheme]
    exact cutShortestPrefix_double (by decide)
  have hfind : ascii "id" <:+: substitution o.text ↔ ascii "id" <:+: o.text :=
    infix_substitution_iff (by decide) (by simp [ascii]) o.zero_not_mem_text
  rw [convertV2ray]
  simp only [hcut]
  by_cases hid : ascii "id" <:+: o.text
  · have hdecoded := (Encoded.mk o.text urlSafe padded).decoded_text
      (o.colon_mem (hid.subset (show (105 : UInt8) ∈ ascii "id" by decide))) htools
    rw [if_pos hid, hdecoded, if_pos (hfind.mpr hid), fieldLoop_text]
  · -- without a colon the text might be taken for an option, and nothing is decoded
    have hdecoded := (decoded_iff _ _).mpr
      ((Encoded.encodes_iff ⟨o.text, urlSafe, padded⟩ _).mpr rfl) tools htools
    rw [if_neg hid, hdecoded, if_neg]
    split_ifs
    · decide
    · exact fun h => hid (hfind.mp h)

/-- The script stops on every address. -/
theorem convertV2ray_ne_endless (tools : Tools) (url : Text) :
    convertV2ray tools url ≠ .endless := by
  rw [convertV2ray]
  simp only [fieldLoop_eq]
  split_ifs <;> simp

/-- The script converts the address of an object, and then its variables hold the values. -/
def Converts (o : Object) (urlSafe padded : Bool) (tools : Tools) : Prop :=
  ∃ vars, convertV2ray tools (v2rayUrl o urlSafe padded) = .converted vars ∧ Holds vars o

/-- The script reads everything right if and only if it finds `id` in the text and reads
each member right. -/
theorem converts_iff {o : Object} {ReadRight : Field → Member → Prop}
    (hread : ∀ m ∈ o.members, ∀ field : Field, valueOf m.name = field.sign →
      (found o.body field = m.value.content ↔ ReadRight field m)) (urlSafe padded : Bool) :
    (∀ tools : Tools, tools.Standard → Converts o urlSafe padded tools) ↔
      ascii "id" <:+: o.text ∧
        ∀ m ∈ o.members, ∀ field : Field, valueOf m.name = field.sign → ReadRight field m := by
  have hfound : Holds (found o.body) o ↔
      ∀ m ∈ o.members, ∀ field : Field, valueOf m.name = field.sign → ReadRight field m := by
    exact forall₄_congr hread
  constructor
  · intro h
    obtain ⟨vars, hvars, hholds⟩ := h _ (adversary_standard [])
    rw [convertV2ray_url (adversary_standard [])] at hvars
    split_ifs at hvars with hid
    obtain rfl := V2rayOutcome.converted.inj hvars
    exact ⟨hid, hfound.mp hholds⟩
  · rintro ⟨hid, hright⟩ tools htools
    refine ⟨found o.body, ?_, hfound.mpr hright⟩
    rw [convertV2ray_url htools, if_pos hid]

/-- The script stops on every address. On that of a flat object, in any way to write
base64, its variables hold the values of the members of their names if and only if `id` is
in the text and these members are in place. -/
theorem v2ray_values_iff (o : Object) (urlSafe padded : Bool) :
    (∀ tools url, convertV2ray tools url ≠ .endless) ∧
    ((∀ tools : Tools, tools.Standard → Converts o urlSafe padded tools) ↔
      ascii "id" <:+: o.text ∧
        ∀ m ∈ o.members, ∀ field : Field, valueOf m.name = field.sign → InPlace o field m) :=
  ⟨convertV2ray_ne_endless, converts_iff (fun _ _ _ hname => found_iff hname) urlSafe padded⟩

/-- A member without white space, of a name and a string without escapes. -/
def plainMember (name value : Text)
    (hname : ∀ c ∈ name, 32 ≤ c.toNat ∧ c ≠ 34 ∧ c ≠ 92)
    (hvalue : ∀ c ∈ value, 32 ≤ c.toNat ∧ c ≠ 34 ∧ c ≠ 92) : Member where
  beforeName := .empty
  name := verbatim name hname
  afterName := .empty
  beforeValue := .empty
  value := .string (verbatim value hvalue)
  afterValue := .empty

/-- `/a,b`, whose second half the loop takes for another member. -/
def commaPath : Member :=
  plainMember (ascii "path") (ascii "/a,b") (forall_mem_of_all (by decide))
    (forall_mem_of_all (by decide))

/-- An object with an id, and with `/a,b` for its path. -/
def commaObject : Object where
  before := .empty
  inner := .empty
  members := [plainMember (ascii "id") (ascii "x") (forall_mem_of_all (by decide))
    (forall_mem_of_all (by decide)), commaPath]
  after := .empty
  names := by decide

/-- The path is cut off at its comma. -/
theorem comma_value_cut : ¬ ∃ tools : Tools, tools.Standard ∧
    ∃ vars, convertV2ray tools (v2rayUrl commaObject true false) = .converted vars ∧
      Holds vars commaObject := by
  rintro ⟨tools, htools, vars, hvars, hholds⟩
  rw [convertV2ray_url htools] at hvars
  split_ifs at hvars
  obtain rfl := V2rayOutcome.converted.inj hvars
  have hpath := hholds commaPath (by simp [commaObject]) .path (by decide)
  exact absurd hpath (by decide +kernel)

/-! ## Objects without separators in their strings -/

/-- No string has a separator, and the names are written without escapes. -/
structure Tame (o : Object) : Prop where
  names : ∀ m ∈ o.members, ∀ c ∈ ([34, 44, 58, 123] : Text), c ∉ textOf m.name
  verbatim : ∀ m ∈ o.members, textOf m.name = valueOf m.name
  values : ∀ m ∈ o.members, 44 ∉ m.value.text ∧ 58 ∉ m.value.text

section Tame

variable {o : Object} (h : Tame o) {m : Member} (hm : m ∈ o.members)

include h hm

theorem Tame.comma : 44 ∉ m.text := by
  have hspace : ∀ (space : Space), 44 ∉ space.text := fun space => space.not_mem (by decide)
  have hname := h.names m hm 44 (by decide)
  simp [Member.text, hspace, hname, (h.values m hm).1]

theorem Tame.ownPiece : ownPiece m = m.text := (cutSuffix_of_not_mem (h.comma hm)).2

/-- A member is signed with its name. -/
theorem Tame.tsign : tsign m.text = valueOf m.name := by
  have hspace : ∀ (space : Space), 34 ∉ space.text ∧ 58 ∉ space.text ∧ 123 ∉ space.text :=
    fun space => ⟨space.not_mem (by decide), space.not_mem (by decide), space.not_mem (by decide)⟩
  have hname := h.names m hm
  have hrest : 58 ∉ m.beforeValue.text ++ (m.value.text ++ m.afterValue.text) := by
    simp [hspace, (h.values m hm).2]
  have htext : m.text = (m.beforeName.text ++ 34 :: (textOf m.name ++ 34 :: m.afterName.text)) ++
      58 :: (m.beforeValue.text ++ (m.value.text ++ m.afterValue.text)) := by
    simp [Member.text]
  have hbrace : 123 ∉ m.beforeName.text ++ 34 :: (textOf m.name ++ 34 :: m.afterName.text) := by
    simp [hspace, hname 123 (by decide)]
  rw [ProxyScripts.tsign, htext, cutShortestSuffix_char hrest]
  simp only [(cutPrefix_of_not_mem hbrace).1]
  rw [cutShortestPrefix_char (hspace m.beforeName).1, cutShortestSuffix_char (hspace m.afterName).1,
    h.verbatim m hm]

/-- The first piece that is signed with a name is the member of that name. -/
theorem Tame.signedPiece {field : Field} (hname : valueOf m.name = field.sign) :
    signedPiece o.body field = some m.text := by
  have hne : o.members ≠ [] := List.ne_nil_of_mem hm
  have hcomma : ∀ text ∈ o.members.map Member.text, 44 ∉ text := by
    intro text htext
    obtain ⟨m', hm', rfl⟩ := List.mem_map.mp htext
    exact h.comma hm'
  rw [ProxyScripts.signedPiece, Object.body, if_neg hne,
    List.splitOn_intercalate _ hcomma (by simpa using hne), List.find?_map]
  have hsigned : o.members.find? ((fun tinf => decide (ProxyScripts.tsign tinf = field.sign)) ∘
      Member.text) = o.members.find? fun m' => decide (valueOf m'.name = field.sign) := by
    apply List.find?_congr
    intro m' hm'
    simp [h.tsign hm']
  rw [hsigned, o.find_member hm hname]
  rfl

end Tame

/-- Of such an object everything is read right if and only if `id` is in the text and the
members are written plainly. -/
theorem Tame.values_iff {o : Object} (h : Tame o) (urlSafe padded : Bool) :
    (∀ tools : Tools, tools.Standard → Converts o urlSafe padded tools) ↔
      ascii "id" <:+: o.text ∧
        ∀ m ∈ o.members, ∀ field : Field, valueOf m.name = field.sign → Plain field m := by
  apply converts_iff
  intro m hm field hname
  rw [found, h.signedPiece hm hname, ← read_iff hname, h.ownPiece hm]
  rfl

end CodingLearners.ProxyScripts
