import CodingLearners.StripAnnotation.LineMachine

/-!
# The lines of a Python source

What the handler guesses from the characters in front of a delimiter, read off
the source as Python reads it: comments, one-line and triple-quoted strings,
brackets and escaped line ends. A triple-quoted literal is a value unless it is
first on a line on which a statement begins.

## Implementation notes

A one-line string that is not closed ends with its line, unless the line end is
escaped.
-/

namespace CodingLearners.StripAnnotation

open Js

/-- What a unit of a line belongs to, comments apart. -/
inductive Region
  | code
  | text (q : Delimiter)
  | literal (q : Delimiter) (value : Bool)
  deriving DecidableEq, Repr

/-- What is known of a source at the beginning of a line. -/
structure Lexer where
  region : Region
  /-- The number of open brackets. -/
  depth : Nat
  /-- The line before ends in a backslash. -/
  continued : Bool
  /-- A value has been closed on a line before. -/
  closedValue : Bool
  deriving DecidableEq, Repr

def sourceStart : Lexer := ⟨.code, 0, false, false⟩

/-- What is known within a line: `skip` counts the units to come that belong to
the delimiter or the escape that has been read. -/
structure Scan extends Lexer where
  before : JsString
  skip : Nat
  inComment : Bool
  /-- The line ends in a backslash. -/
  escaped : Bool
  /-- There is code on the line. -/
  hasCode : Bool
  /-- A part of a value is on the line. -/
  hasValue : Bool
  deriving DecidableEq, Repr

/-- The quote that a unit is. -/
def quoteOf (u : UInt16) : Option Delimiter :=
  if u = 39 then some .single else if u = 34 then some .double else none

/-- The prefixes of a literal. -/
def literalPrefixes : List JsString :=
  ["", "r", "R", "u", "U", "b", "B", "f", "F", "br", "bR", "Br", "BR", "rb", "rB", "Rb", "RB",
    "ur", "uR", "Ur", "UR", "fr", "fR", "Fr", "FR", "rf", "rF", "Rf", "RF"].map units

/-- Nothing is on the line before the literal. -/
def aloneOnLine (before : JsString) : Bool := literalPrefixes.contains (trim before)

/-- The literal that is opened here is part of an expression. -/
def Scan.opensValue (s : Scan) : Bool :=
  decide (0 < s.depth) || s.continued || !aloneOnLine s.before

def Scan.openLiteral (s : Scan) (q : Delimiter) : Scan :=
  { s with
    region := .literal q s.opensValue
    skip := 2
    hasCode := s.hasCode && s.opensValue
    hasValue := s.hasValue || s.opensValue }

def Scan.closeLiteral (s : Scan) (value : Bool) : Scan :=
  { s with region := .code, skip := 2, closedValue := s.closedValue || value }

/-- The number of open brackets behind a unit. -/
def bracket (depth : Nat) (u : UInt16) : Nat :=
  if (units "([\x7b").contains u then depth + 1
  else if (units ")]\x7d").contains u then depth - 1
  else depth

/-- A unit of code, with the line from it on. -/
def Scan.codeUnit (s : Scan) (u : UInt16) (line : JsString) : Scan :=
  match quoteOf u with
  | some q =>
      if quotes q <+: line then s.openLiteral q else { s with region := .text q, hasCode := true }
  | none =>
      if u = 35 then { s with inComment := true }
      else if isSpace u then s
      else if u = 92 ∧ line.length = 1 then { s with escaped := true }
      else { s with depth := bracket s.depth u, hasCode := true }

/-- A unit in its region, with the line from it on. -/
def Scan.unit (s : Scan) (u : UInt16) (line : JsString) : Scan :=
  match s.region with
  | .code => if s.inComment then s else s.codeUnit u line
  | .text q =>
      if u = 92 then { s with skip := 1, hasCode := true }
      else if quoteOf u = some q then { s with region := .code, hasCode := true }
      else { s with hasCode := true }
  | .literal q value =>
      if u = 92 then { s with skip := 1 }
      else if quotes q <+: line then s.closeLiteral value
      else s

def Scan.read (s : Scan) (us : JsString) : Scan := { s with before := s.before ++ us }

def Scan.next (s : Scan) (u : UInt16) (line : JsString) : Scan :=
  match s.skip with
  | n + 1 => { s with skip := n }.read [u]
  | 0 => (s.unit u line).read [u]

def Scan.line (s : Scan) : JsString → Scan
  | [] => s
  | u :: rest => (s.next u (u :: rest)).line rest

def Region.isValue : Region → Bool
  | .literal _ value => value
  | _ => false

def Lexer.start (L : Lexer) : Scan where
  toLexer := L
  before := []
  skip := 0
  inComment := false
  escaped := false
  hasCode := false
  hasValue := L.region.isValue

/-- A line, read to its end. -/
def Lexer.scan (L : Lexer) (line : JsString) : Scan := L.start.line line

/-- The region behind the end of a line. -/
def Scan.endRegion (s : Scan) : Region :=
  match s.region with
  | .text q => if s.skip = 1 then .text q else .code
  | r => r

def Lexer.next (L : Lexer) (line : JsString) : Lexer :=
  { (L.scan line).toLexer with
    region := (L.scan line).endRegion
    continued := (L.scan line).escaped }

/-! ## Lines of which the region is known -/

section Read

variable (s : Scan) (us vs : JsString)

@[simp] theorem Scan.read_region : (s.read us).region = s.region := rfl

@[simp] theorem Scan.read_skip : (s.read us).skip = s.skip := rfl

@[simp] theorem Scan.read_hasCode : (s.read us).hasCode = s.hasCode := rfl

@[simp] theorem Scan.read_hasValue : (s.read us).hasValue = s.hasValue := rfl

@[simp] theorem Scan.read_nil : s.read [] = s := by simp [Scan.read]

theorem Scan.read_read : (s.read us).read vs = s.read (us ++ vs) := by simp [Scan.read]

end Read

theorem quoteOf_isSpace {u : UInt16} (h : isSpace u = true) : quoteOf u = none := by
  have hsingle : u ≠ 39 := by
    rintro rfl
    exact absurd h (by decide)
  have hdouble : u ≠ 34 := by
    rintro rfl
    exact absurd h (by decide)
  simp [quoteOf, hsingle, hdouble]

/-- The next unit is one of code. -/
structure Scan.InCode (s : Scan) : Prop where
  region : s.region = .code
  skip : s.skip = 0
  inComment : s.inComment = false

theorem Scan.next_code {s : Scan} (hs : s.InCode) (u : UInt16) (line : JsString) :
    s.next u line = (s.codeUnit u line).read [u] := by
  simp [Scan.next, hs.skip, Scan.unit, hs.region, hs.inComment]

theorem Scan.next_space {s : Scan} (hs : s.InCode)
    {u : UInt16} (h : isSpace u = true) (line : JsString) : s.next u line = s.read [u] := by
  have hsharp : u ≠ 35 := by
    rintro rfl
    exact absurd h (by decide)
  simp [Scan.next_code hs, Scan.codeUnit, quoteOf_isSpace h, hsharp, h]

/-- Blanks in code are read over. -/
theorem Scan.line_blank {s : Scan} (hs : s.InCode)
    {first : JsString} (hfirst : blank first = true) (rest : JsString) :
    s.line (first ++ rest) = (s.read first).line rest := by
  induction first generalizing s with
  | nil => simp
  | cons u first ih =>
      rw [blank_eq_all, List.all_cons, Bool.and_eq_true, ← blank_eq_all] at hfirst
      have hread : (s.read [u]).InCode := ⟨hs.region, hs.skip, hs.inComment⟩
      rw [List.cons_append, Scan.line, Scan.next_space hs hfirst.1, ih hread hfirst.2,
        Scan.read_read]
      rfl

/-- Behind a `#` the line is a comment to its end. -/
theorem Scan.line_comment {s : Scan} (hcode : s.region = .code) (hskip : s.skip = 0)
    (hcomment : s.inComment = true) (rest : JsString) : s.line rest = s.read rest := by
  induction rest generalizing s with
  | nil => simp [Scan.line]
  | cons u rest ih =>
      have hnext : s.next u (u :: rest) = s.read [u] := by
        simp [Scan.next, hskip, Scan.unit, hcode, hcomment]
      rw [Scan.line, hnext, ih (s := s.read [u]) hcode hskip hcomment, Scan.read_read]
      rfl

theorem Lexer.start_inCode {L : Lexer} (h : L.region = .code) : L.start.InCode := ⟨h, rfl, rfl⟩

/-- Text without quotes and comments is read as code. -/
theorem Scan.line_plain {s : Scan} (hs : s.InCode) {first : JsString}
    (hfirst : ∀ u ∈ first, quoteOf u = none ∧ u ≠ 35) (rest : JsString) :
    ∃ s' : Scan, s'.InCode ∧ s'.before = s.before ++ first ∧
      s.line (first ++ rest) = s'.line rest := by
  induction first generalizing s with
  | nil => exact ⟨s, hs, (List.append_nil _).symm, rfl⟩
  | cons u first ih =>
      rw [List.forall_mem_cons] at hfirst
      have hnext : (s.next u (u :: (first ++ rest))).InCode ∧
          (s.next u (u :: (first ++ rest))).before = s.before ++ [u] := by
        rw [Scan.next_code hs]
        simp only [Scan.codeUnit, hfirst.1.1, if_neg hfirst.1.2]
        split_ifs <;> exact ⟨⟨hs.region, hs.skip, hs.inComment⟩, rfl⟩
      obtain ⟨s', hs', hbefore, hline⟩ := ih hnext.1 hfirst.2
      refine ⟨s', hs', ?_, hline⟩
      rw [hbefore, hnext.2, List.append_assoc]
      rfl

/-- A blank line of code. -/
theorem Lexer.scan_blank {L : Lexer} (hcode : L.region = .code) {line : JsString}
    (hline : blank line = true) : L.scan line = L.start.read line := by
  have h := Scan.line_blank (Lexer.start_inCode hcode) hline []
  rw [List.append_nil] at h
  exact h

/-- A comment line of code. -/
theorem Lexer.scan_annot {L : Lexer} (hcode : L.region = .code) {line : JsString}
    (hline : isAnnot line = true) :
    (L.scan line).hasCode = false ∧ (L.scan line).hasValue = false := by
  cases hfind : indexOf (units "#") line with
  | none => simp [isAnnot, hfind] at hline
  | some i =>
      have hblank : blank (line.take i) = true := by simpa [isAnnot, hfind] using hline
      have hline : line = line.take i ++ 35 :: line.drop (i + 1) := indexOf_split hfind
      generalize line.drop (i + 1) = rest at hline
      have hread : (L.start.read (line.take i)).InCode := ⟨hcode, rfl, rfl⟩
      have hnext : (L.start.read (line.take i)).next 35 (35 :: rest) =
          { L.start with inComment := true }.read (line.take i ++ [35]) := by
        have hquote : quoteOf 35 = none := by decide
        rw [Scan.next_code hread]
        simp [Scan.codeUnit, hquote, Scan.read]
      have hscan : L.scan line =
          { L.start with inComment := true }.read (line.take i ++ [35] ++ rest) := by
        calc L.scan line = L.start.line (line.take i ++ 35 :: rest) := by rw [← hline, Lexer.scan]
          _ = (L.start.read (line.take i)).line (35 :: rest) :=
            Scan.line_blank (Lexer.start_inCode hcode) hblank _
          _ = _ := by
            rw [Scan.line, hnext, Scan.line_comment hcode rfl rfl, Scan.read_read]
      rw [hscan]
      simp [Lexer.start, hcode, Region.isValue]

/-! ## Lines without a delimiter -/

def Region.isLiteral : Region → Bool
  | .literal _ _ => true
  | _ => false

/-- Outside of literals, a unit at which none is opened. -/
theorem Scan.next_free {s : Scan} (hregion : s.region.isLiteral = false) {u : UInt16}
    {line : JsString} (hfree : ∀ q, ¬ quotes q <+: line) :
    (s.next u line).region.isLiteral = false ∧ (s.next u line).hasValue = s.hasValue := by
  rw [Scan.next]
  cases s.skip with
  | succ n => exact ⟨hregion, rfl⟩
  | zero =>
      cases hr : s.region with
      | literal q value => simp [hr, Region.isLiteral] at hregion
      | text q =>
          simp only [Scan.unit, hr]
          split_ifs <;> simp [hr, Region.isLiteral]
      | code =>
          simp only [Scan.unit, hr, Scan.codeUnit]
          cases s.inComment with
          | true => simp [hr, Region.isLiteral]
          | false =>
              cases quoteOf u with
              | some q => simp [hfree q, Region.isLiteral]
              | none =>
                  simp only [Bool.false_eq_true, if_false]
                  split_ifs <;> simp [hr, Region.isLiteral]

/-- Without a delimiter no literal is opened. -/
theorem Scan.line_free {s : Scan} (hregion : s.region.isLiteral = false) {line : JsString}
    (hfree : ∀ q, ¬ quotes q <:+: line) :
    (s.line line).region.isLiteral = false ∧ (s.line line).hasValue = s.hasValue := by
  induction line generalizing s with
  | nil => exact ⟨hregion, rfl⟩
  | cons u rest ih =>
      have hhead : ∀ q, ¬ quotes q <+: u :: rest := fun q h => hfree q h.isInfix
      obtain ⟨hnext, hvalue⟩ := Scan.next_free (u := u) hregion hhead
      rw [Scan.line, ← hvalue]
      exact ih hnext fun q h => hfree q (h.trans (List.suffix_cons u rest).isInfix)

/-- Without its delimiter a literal is not closed. -/
theorem Scan.line_literal {s : Scan} {q : Delimiter} {value : Bool}
    (hregion : s.region = .literal q value) {line : JsString} (hfree : ¬ quotes q <:+: line) :
    (s.line line).region = .literal q value ∧ (s.line line).hasCode = s.hasCode ∧
      (s.line line).hasValue = s.hasValue := by
  induction line generalizing s with
  | nil => exact ⟨hregion, rfl, rfl⟩
  | cons u rest ih =>
      have hclosed : ¬ quotes q <+: u :: rest := fun h => hfree h.isInfix
      have hnext : (s.next u (u :: rest)).region = .literal q value ∧
          (s.next u (u :: rest)).hasCode = s.hasCode ∧
          (s.next u (u :: rest)).hasValue = s.hasValue := by
        rw [Scan.next]
        cases s.skip with
        | succ n => exact ⟨hregion, rfl, rfl⟩
        | zero =>
            simp only [Scan.unit, hregion, if_neg hclosed]
            split_ifs <;> simp [hregion]
      rw [Scan.line, ← hnext.2.1, ← hnext.2.2]
      exact ih hnext.1 fun h => hfree (h.trans (List.suffix_cons u rest).isInfix)

theorem quotes_cons (q : Delimiter) : ∃ u us, quotes q = u :: us ∧ quoteOf u = some q := by
  cases q
  · exact ⟨39, [39, 39], rfl, by decide⟩
  · exact ⟨34, [34, 34], rfl, by decide⟩

/-- A delimiter in code opens a literal, which is open at the end of a line on
which the delimiter does not occur again. -/
theorem Scan.line_opens {s : Scan} (hs : s.InCode) {q : Delimiter} {line : JsString}
    (hquotes : quotes q <+: line) (hlast : ∀ k, 0 < k → ¬ quotes q <+: line.drop k) :
    (s.line line).region = .literal q s.opensValue ∧
      (s.line line).hasCode = (s.hasCode && s.opensValue) ∧
      (s.line line).hasValue = (s.hasValue || s.opensValue) := by
  obtain ⟨u, us, hq, hquote⟩ := quotes_cons q
  obtain ⟨rest, rfl⟩ := hquotes
  have hnext : s.next u (u :: (us ++ rest)) = (s.openLiteral q).read [u] := by
    have hprefix : quotes q <+: u :: (us ++ rest) := ⟨rest, by rw [hq]; rfl⟩
    simp only [Scan.next_code hs, Scan.codeUnit, hquote, if_pos hprefix]
  have hfree : ¬ quotes q <:+: us ++ rest := by
    rintro ⟨first, last, heq⟩
    refine hlast (first.length + 1) (Nat.succ_pos _) ⟨last, ?_⟩
    have hdrop : (quotes q ++ rest).drop (first.length + 1) = (us ++ rest).drop first.length := by
      rw [hq]
      rfl
    rw [hdrop, ← heq, List.append_assoc, List.drop_left]
  have hliteral := Scan.line_literal (s := (s.openLiteral q).read [u]) rfl hfree
  rw [hq, List.cons_append, Scan.line, hnext]
  exact hliteral

end CodingLearners.StripAnnotation
