import CodingLearners.Library.UriComponent

/-!
# `JSON.stringify` of a string

Between its quotes the text has one escape for each symbol of the string. A quote
stands in it behind a backslash only.
-/

namespace Js

/-! ## Symbols -/

/-- A character, or a surrogate without its other half. -/
inductive Symbol
  | scalar (c : Char)
  | lone (u : UInt16) (surrogate : isLead u = true ∨ isTrail u = true)

/-- `StringToCodePoints` -/
def symbols : JsString → List Symbol
  | [] => []
  | u :: rest =>
      if hlead : isLead u = true then
        match rest with
        | [] => [.lone u (.inl hlead)]
        | v :: rest =>
            if isTrail v then .scalar (Char.ofNat (surrogatePair u v)) :: symbols rest
            else .lone u (.inl hlead) :: symbols (v :: rest)
      else if htrail : isTrail u = true then .lone u (.inr htrail) :: symbols rest
      else .scalar (Char.ofNat u.toNat) :: symbols rest

/-- The code units of a symbol. -/
def Symbol.units : Symbol → JsString
  | .scalar c => utf16 c.toNat
  | .lone u _ => [u]

theorem toNat_ofNat_of_isScalar {cp : Nat} (h : IsScalar cp) : (Char.ofNat cp).toNat = cp := by
  have hvalid : cp.isValidChar := by
    cases h with
    | inl h => exact .inl h
    | inr h => exact .inr ⟨by omega, h.2⟩
  rw [Char.ofNat, dif_pos hvalid]
  rfl

theorem isScalar_char (c : Char) : IsScalar c.toNat := by
  cases c.valid with
  | inl h => exact .inl h
  | inr h => exact .inr ⟨Nat.succ_le_of_lt h.1, h.2⟩

/-- A unit that is no surrogate stands for its own character only. -/
theorem mem_units_iff {u : UInt16} {x : Symbol} (hlead : isLead u = false)
    (htrail : isTrail u = false) : u ∈ x.units ↔ x = .scalar (Char.ofNat u.toNat) := by
  have hu := isScalar_toNat htrail hlead
  have hlt := u.toNat_lt
  simp only [isLead, isTrail, decide_eq_false_iff_not] at hlead htrail
  cases x with
  | lone v surrogate =>
      simp only [isLead, isTrail, decide_eq_true_eq] at surrogate
      have hne : u ≠ v := by
        rintro rfl
        omega
      simp [Symbol.units, hne]
  | scalar c =>
      have hchar : Symbol.scalar c = .scalar (Char.ofNat u.toNat) ↔ u.toNat = c.toNat := by
        rw [Symbol.scalar.injEq, ← Char.toNat_inj, toNat_ofNat_of_isScalar hu, eq_comm]
      have hc : c.toNat < 0x110000 := by
        cases isScalar_char c with
        | inl h => omega
        | inr h => exact h.2
      rw [hchar, Symbol.units, utf16]
      split
      · rw [List.mem_singleton, ← UInt16.toNat_inj, UInt16.toNat_ofNat', Nat.mod_eq_of_lt ‹_›]
      · simp only [List.mem_cons, List.not_mem_nil, or_false, ← UInt16.toNat_inj,
          UInt16.toNat_ofNat']
        omega

/-- The symbols make up the string. -/
theorem flatMap_symbols (s : JsString) : (symbols s).flatMap Symbol.units = s := by
  fun_induction symbols s with
  | case1 => rfl
  | case2 u hlead => rfl
  | case3 u hlead v rest htrail ih =>
      simp [Symbol.units, toNat_ofNat_of_isScalar (isScalar_surrogatePair hlead htrail),
        utf16_surrogatePair hlead htrail, ih]
  | case4 u hlead v rest htrail ih => simp [Symbol.units, ih]
  | case5 u rest hlead htrail ih => simp [Symbol.units, ih]
  | case6 u rest hlead htrail ih =>
      have hscalar := isScalar_toNat (by simpa using htrail) (by simpa using hlead)
      simp [Symbol.units, toNat_ofNat_of_isScalar hscalar, utf16_toNat, ih]

/-! ## Escapes -/

/-- `UnicodeEscape` -/
def unicodeEscape (u : UInt16) : List Char :=
  let n := u.toNat
  '\\' :: 'u' :: [n / 4096, n / 256 % 16, n / 16 % 16, n % 16].map Nat.digitChar

/-- The single character escapes. -/
def shortEscape (c : Char) : Option Char :=
  if c.toNat = 8 then some 'b'
  else if c.toNat = 9 then some 't'
  else if c.toNat = 10 then some 'n'
  else if c.toNat = 12 then some 'f'
  else if c.toNat = 13 then some 'r'
  else if c = '"' then some '"'
  else if c = '\\' then some '\\'
  else none

/-- What `QuoteJSONString` writes for a symbol. -/
def Symbol.quote : Symbol → List Char
  | .scalar c =>
      match shortEscape c with
      | some d => ['\\', d]
      | none => if c.toNat < 32 then unicodeEscape c.toNat.toUInt16 else [c]
  | .lone u _ => unicodeEscape u

/-- `JSON.stringify` of a string without its quotes. -/
def quoted (s : JsString) : List Char := (symbols s).flatMap Symbol.quote

/-- `JSON.stringify` of a string. -/
def stringify (s : JsString) : List Char := '"' :: (quoted s ++ ['"'])

/-- The three kinds of escapes. -/
inductive Quote : Symbol → List Char → Prop
  | plain {c : Char} (printable : 32 ≤ c.toNat) (noMark : c ≠ '"') (noBackslash : c ≠ '\\') :
      Quote (.scalar c) [c]
  | mark : Quote (.scalar '"') ['\\', '"']
  | escape {x : Symbol} {rest : List Char} (special : ∀ c, x = .scalar c → c.toNat < 32 ∨ c = '\\')
      (ascii : ∀ d ∈ rest, d.isAlphanum = true ∨ d = '\\') : Quote x ('\\' :: rest)

theorem isAlphanum_digitChar {n : Nat} (h : n < 16) : (Nat.digitChar n).isAlphanum = true := by
  revert n
  decide

theorem quote_unicode {x : Symbol} (u : UInt16)
    (special : ∀ c, x = .scalar c → c.toNat < 32 ∨ c = '\\') : Quote x (unicodeEscape u) := by
  apply Quote.escape special
  have := u.toNat_lt
  simp only [List.map_cons, List.map_nil, List.forall_mem_cons]
  refine ⟨.inl rfl, ?_, ?_, ?_, ?_, by simp⟩
  all_goals
    left
    apply isAlphanum_digitChar
    omega

theorem shortEscape_eq_none {c : Char} (h : shortEscape c = none) : c ≠ '"' ∧ c ≠ '\\' := by
  simp only [shortEscape] at h
  split_ifs at h with _ _ _ _ _ hmark hback
  exact ⟨hmark, hback⟩

theorem shortEscape_eq_some {c d : Char} (h : shortEscape c = some d) :
    c = '"' ∧ d = '"' ∨ (c.toNat < 32 ∨ c = '\\') ∧ (d.isAlphanum = true ∨ d = '\\') := by
  simp only [shortEscape] at h
  split_ifs at h <;> obtain rfl := Option.some.inj h <;> simp_all

theorem quote_spec (x : Symbol) : Quote x x.quote := by
  cases x with
  | lone u surrogate => exact quote_unicode u (by simp)
  | scalar c =>
      rw [Symbol.quote]
      cases hshort : shortEscape c with
      | some d =>
          cases shortEscape_eq_some hshort with
          | inl h =>
              obtain ⟨rfl, rfl⟩ := h
              exact .mark
          | inr h => exact .escape (by rintro _ ⟨⟩; exact h.1) (by simpa using h.2)
      | none =>
          obtain ⟨hmark, hback⟩ := shortEscape_eq_none hshort
          dsimp only
          split
          · next hcontrol => exact quote_unicode _ (by rintro _ ⟨⟩; exact .inl hcontrol)
          · next hcontrol => exact .plain (Nat.le_of_not_lt hcontrol) hmark hback

/-! ## Two characters in a row -/

section Pairs

variable {α β : Type*} {a b : α}

theorem pair_infix_append_iff {s t : List α} :
    [a, b] <:+: s ++ t ↔
      [a, b] <:+: s ∨ [a, b] <:+: t ∨ s.getLast? = some a ∧ t.head? = some b := by
  induction s with
  | nil => simp
  | cons c s ih =>
      rw [List.cons_append, List.infix_cons_iff, List.infix_cons_iff, ih]
      cases s with
      | nil =>
          cases t with
          | nil => simp
          | cons d t =>
              simp only [List.nil_append, List.cons_prefix_cons, List.nil_prefix, and_true,
                List.getLast?_singleton, List.head?_cons, Option.some.injEq, List.prefix_nil,
                List.infix_nil, reduceCtorEq, @eq_comm _ c a, @eq_comm _ d b]
              tauto
      | cons d s => simp; tauto

/-- Where blocks are kept or given up at their first symbol, whole blocks are taken. -/
theorem takeWhile_flatMap {f : β → List α} {kept : β → Bool} {p : α → Bool} {items : List β}
    (hkept : ∀ x, kept x = true → ∀ c ∈ f x, p c = true)
    (hother : ∀ x, kept x = false → ∃ c rest, f x = c :: rest ∧ p c = false) :
    (items.flatMap f).takeWhile p = (items.takeWhile kept).flatMap f := by
  induction items with
  | nil => rfl
  | cons x items ih =>
      rw [List.flatMap_cons, List.takeWhile_cons]
      cases hx : kept x with
      | true => rw [List.takeWhile_append_of_pos (hkept x hx), ih, if_pos rfl, List.flatMap_cons]
      | false =>
          obtain ⟨c, rest, hblock, hc⟩ := hother x hx
          simp [hblock, hc]

theorem head?_flatMap_ne {f : β → List α} {items : List β}
    (hfirst : ∀ x, (f x).head? ≠ some b) : (items.flatMap f).head? ≠ some b := by
  induction items with
  | nil => simp
  | cons x items ih =>
      rw [List.flatMap_cons]
      cases hblock : f x with
      | nil => exact ih
      | cons c rest => simpa [hblock] using hfirst x

theorem pair_not_infix_flatMap {f : β → List α} (hinside : ∀ x, ¬ [a, b] <:+: f x)
    (hfirst : ∀ x, (f x).head? ≠ some b) (items : List β) : ¬ [a, b] <:+: items.flatMap f := by
  induction items with
  | nil => simp
  | cons x items ih =>
      rw [List.flatMap_cons, pair_infix_append_iff]
      rintro (h | h | h)
      · exact hinside x h
      · exact ih h
      · exact head?_flatMap_ne hfirst h.2

/-- Two characters in a row that blocks have at their ends only are two blocks. -/
theorem pair_infix_flatMap_iff {f : β → List α} {y z : β} (hne : ∀ x, f x ≠ [])
    (hinside : ∀ x, ¬ [a, b] <:+: f x) (hlast : ∀ x, (f x).getLast? = some a ↔ x = y)
    (hfirst : ∀ x, (f x).head? = some b ↔ x = z) (items : List β) :
    [a, b] <:+: items.flatMap f ↔ [y, z] <:+: items := by
  induction items with
  | nil => simp
  | cons x items ih =>
      have hhead : (items.flatMap f).head? = some b ↔ [z] <+: items := by
        cases items with
        | nil => simp
        | cons w items =>
            rw [List.flatMap_cons, List.head?_append_of_ne_nil _ (hne w), hfirst w]
            simp [eq_comm]
      rw [List.flatMap_cons, pair_infix_append_iff, List.infix_cons_iff, ih, hlast, hhead,
        List.cons_prefix_cons]
      simp only [hinside x, false_or, @eq_comm _ x y]
      exact or_comm

end Pairs

section Units

variable {u : UInt16} {x : Symbol}

theorem units_scalar (hlead : isLead u = false) (htrail : isTrail u = false) :
    (Symbol.scalar (Char.ofNat u.toNat)).units = [u] := by
  rw [Symbol.units, toNat_ofNat_of_isScalar (isScalar_toNat htrail hlead), utf16_toNat]

theorem head?_units_eq_iff (hlead : isLead u = false) (htrail : isTrail u = false) :
    x.units.head? = some u ↔ x = .scalar (Char.ofNat u.toNat) := by
  constructor
  · intro h
    exact (mem_units_iff hlead htrail).mp (List.mem_of_head? h)
  · rintro rfl
    rw [units_scalar hlead htrail, List.head?_singleton]

theorem getLast?_units_eq_iff (hlead : isLead u = false) (htrail : isTrail u = false) :
    x.units.getLast? = some u ↔ x = .scalar (Char.ofNat u.toNat) := by
  constructor
  · intro h
    exact (mem_units_iff hlead htrail).mp (List.mem_of_getLast? h)
  · rintro rfl
    rw [units_scalar hlead htrail, List.getLast?_singleton]

theorem pair_not_infix_units (hlead : isLead u = false) (htrail : isTrail u = false)
    (v : UInt16) : ¬ [u, v] <:+: x.units := by
  intro h
  have hx := (mem_units_iff hlead htrail).mp (h.subset List.mem_cons_self)
  rw [hx, units_scalar hlead htrail] at h
  exact absurd h.length_le (by simp)

theorem units_ne_nil (x : Symbol) : x.units ≠ [] := by
  cases x with
  | lone v surrogate => simp [Symbol.units]
  | scalar c =>
      rw [Symbol.units, utf16]
      split <;> simp

end Units

section Quotes

variable {x : Symbol} {q : List Char} {c : Char}

theorem Quote.head?_ne_mark (h : Quote x q) : q.head? ≠ some '"' := by
  cases h with
  | plain printable noMark noBackslash => simpa using noMark
  | mark => simp
  | escape special ascii => simp

theorem Quote.pair_mark_absent (h : Quote x q) (hc : c ≠ '\\') : ¬ [c, '"'] <:+: q := by
  intro hpair
  cases h with
  | plain printable noMark noBackslash => exact absurd hpair.length_le (by simp)
  | mark => simp [List.infix_cons_iff, hc] at hpair
  | escape special ascii =>
      have hmark : '"' ∈ _ := hpair.subset (List.mem_cons_of_mem c List.mem_cons_self)
      cases hmark with
      | tail _ hrest => exact absurd (ascii '"' hrest) (by decide)

theorem Quote.mark_pair_absent (h : Quote x q) : ¬ ['"', c] <:+: q := by
  intro hpair
  cases h with
  | plain printable noMark noBackslash => exact absurd hpair.length_le (by simp)
  | mark => simp [List.infix_cons_iff] at hpair
  | escape special ascii =>
      have hmark : '"' ∈ _ := hpair.subset List.mem_cons_self
      cases hmark with
      | tail _ hrest => exact absurd (ascii '"' hrest) (by decide)

theorem Quote.getLast?_eq_mark_iff (h : Quote x q) :
    q.getLast? = some '"' ↔ x = .scalar '"' := by
  cases h with
  | plain printable noMark noBackslash => simp
  | mark => simp
  | @escape x rest special ascii =>
      constructor
      · intro hlast
        cases List.mem_of_getLast? hlast with
        | tail _ hrest => exact absurd (ascii '"' hrest) (by decide)
      · intro hx
        exact absurd (special '"' hx) (by decide)

/-- A character that is neither a quote nor a backslash, nor a control character. -/
structure IsPlain (c : Char) : Prop where
  printable : 32 ≤ c.toNat
  noMark : c ≠ '"'
  noBackslash : c ≠ '\\'

theorem Quote.head?_eq_iff (h : Quote x q) (hc : IsPlain c) :
    q.head? = some c ↔ x = .scalar c := by
  cases h with
  | plain printable noMark noBackslash => simp
  | mark => simp [hc.noMark.symm, hc.noBackslash.symm]
  | @escape x rest special ascii =>
      constructor
      · intro hfirst
        exact absurd (Option.some.inj hfirst).symm hc.noBackslash
      · intro hx
        cases special c hx with
        | inl hcontrol => exact absurd hc.printable (Nat.not_le_of_lt hcontrol)
        | inr hback => exact absurd hback hc.noBackslash

theorem Quote.ne_nil (h : Quote x q) : q ≠ [] := by
  cases h <;> simp

end Quotes

/-- In the text a quote stands behind a backslash. -/
theorem pair_not_infix_quoted {c : Char} (hc : c ≠ '\\') (s : JsString) :
    ¬ [c, '"'] <:+: quoted s := by
  apply pair_not_infix_flatMap
  · exact fun x => (quote_spec x).pair_mark_absent hc
  · exact fun x => (quote_spec x).head?_ne_mark

/-- What stands behind a quote in the text stands behind it in the string. -/
theorem mark_infix_iff {u : UInt16} (hlead : isLead u = false) (htrail : isTrail u = false)
    (hplain : IsPlain (Char.ofNat u.toNat)) (items : List Symbol) :
    ['"', Char.ofNat u.toNat] <:+: items.flatMap Symbol.quote ↔
      [34, u] <:+: items.flatMap Symbol.units := by
  have hmark : Char.ofNat (34 : UInt16).toNat = '"' := rfl
  have hquotes := pair_infix_flatMap_iff (fun x => (quote_spec x).ne_nil)
    (fun x => (quote_spec x).mark_pair_absent) (fun x => (quote_spec x).getLast?_eq_mark_iff)
    (fun x => (quote_spec x).head?_eq_iff hplain) items
  have hunits := pair_infix_flatMap_iff units_ne_nil
    (fun x => pair_not_infix_units (u := 34) rfl rfl u)
    (fun x => getLast?_units_eq_iff rfl rfl) (fun x => head?_units_eq_iff hlead htrail) items
  rw [hquotes, hunits, hmark]

end Js
