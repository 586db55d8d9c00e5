import Mathlib.Data.Nat.Digits.Lemmas
import CodingLearners.Library.BigEndian

/-!
# The canonical text of S-expressions

An S-expression is a list of tokens: parentheses and byte strings. In its
canonical text every byte string is written after its length and a colon, so the
text is read back one byte at a time. Templates are expressions with holes for
numbers.
-/

namespace CanonicalText

inductive Token
  | opened
  | closed
  | data (bytes : List UInt8)
  deriving DecidableEq, Repr

/-! ## Writing -/

/-- A number in decimal digits. -/
def decimal (n : Nat) : List UInt8 :=
  if n = 0 then [48] else (Nat.digits 10 n).reverse.map fun digit => UInt8.ofNat (48 + digit)

def tokenText : Token → List UInt8
  | .opened => [40]
  | .closed => [41]
  | .data bytes => decimal bytes.length ++ 58 :: bytes

def text (tokens : List Token) : List UInt8 := tokens.flatMap tokenText

theorem text_append (tokens tokens' : List Token) :
    text (tokens ++ tokens') = text tokens ++ text tokens' :=
  List.flatMap_append

/-- A byte string takes at most twice its length and two more bytes. -/
theorem length_tokenText_data_le (bytes : List UInt8) :
    (tokenText (.data bytes)).length ≤ 2 * bytes.length + 2 := by
  have hdecimal : (decimal bytes.length).length ≤ bytes.length + 1 := by
    rw [decimal]
    split
    · simp
    · next hne =>
      rw [List.length_map, List.length_reverse, Nat.length_digits 10 _ (by omega) hne]
      exact Nat.add_le_add_right (Nat.log_le_self 10 _) 1
  simp only [tokenText, List.length_append, List.length_cons]
  omega

/-! ## Reading -/

/-- Where the reader is: between tokens, in a length, or in a byte string of which
`left` bytes are missing. -/
inductive Reading
  | between (done : List Token)
  | length (done : List Token) (n : Nat)
  | octets (done : List Token) (got : List UInt8) (left : Nat)
  | invalid

def isDigit (byte : UInt8) : Bool := decide (48 ≤ byte.toNat ∧ byte.toNat ≤ 57)

/-- One byte; a zero byte after a token ends the text. A length does not begin with
zero, so that there is no empty byte string. -/
def readByte : Reading → UInt8 → Reading
  | .between done, byte =>
      if byte = 40 then .between (done ++ [.opened])
      else if byte = 41 then .between (done ++ [.closed])
      else if byte = 0 then .between done
      else if isDigit byte ∧ byte ≠ 48 then .length done (byte.toNat - 48)
      else .invalid
  | .length done n, byte =>
      if isDigit byte then .length done (10 * n + (byte.toNat - 48))
      else if byte = 58 then .octets done [] n
      else .invalid
  | .octets done got left, byte =>
      if left ≤ 1 then .between (done ++ [.data (got ++ [byte])])
      else .octets done (got ++ [byte]) (left - 1)
  | .invalid, _ => .invalid

def readText (bytes : List UInt8) : Option (List Token) :=
  match bytes.foldl readByte (.between []) with
  | .between done => some done
  | _ => none

/-! ## Reading what was written -/

variable {done : List Token}

theorem toNat_digit {digit : Nat} (h : digit < 10) :
    (UInt8.ofNat (48 + digit)).toNat = 48 + digit := by
  apply UInt8.toNat_ofNat_of_lt
  change 48 + digit < 256
  omega

theorem isDigit_digit {digit : Nat} (h : digit < 10) :
    isDigit (UInt8.ofNat (48 + digit)) = true := by
  rw [isDigit, toNat_digit h, decide_eq_true_eq]
  omega

theorem foldl_digits (digits : List Nat) (h : ∀ digit ∈ digits, digit < 10) (n : Nat) :
    (digits.map fun digit => UInt8.ofNat (48 + digit)).foldl readByte (.length done n) =
      .length done (digits.foldl (fun n digit => 10 * n + digit) n) := by
  induction digits generalizing n with
  | nil => rfl
  | cons digit digits ih =>
      have hdigit := h digit (List.mem_cons_self ..)
      rw [List.map_cons, List.foldl_cons, readByte, if_pos (isDigit_digit hdigit),
        toNat_digit hdigit, Nat.add_sub_cancel_left]
      exact ih (fun digit hmem => h digit (List.mem_cons_of_mem _ hmem)) _

theorem readByte_between_digit {digit : Nat} (h : digit < 10) (hzero : digit ≠ 0) :
    readByte (.between done) (UInt8.ofNat (48 + digit)) = .length done digit := by
  have hne : ∀ byte : UInt8, byte.toNat < 48 + digit → UInt8.ofNat (48 + digit) ≠ byte := by
    intro byte hbyte heq
    rw [← heq, toNat_digit h] at hbyte
    omega
  have hnat : ∀ byte : UInt8, byte.toNat < 49 → byte.toNat < 48 + digit := by
    intro byte hbyte
    omega
  rw [readByte, if_neg (hne 40 (hnat 40 (by decide))), if_neg (hne 41 (hnat 41 (by decide))),
    if_neg (hne 0 (hnat 0 (by decide))),
    if_pos ⟨isDigit_digit h, hne 48 (hnat 48 (by decide))⟩, toNat_digit h,
    Nat.add_sub_cancel_left]

theorem foldl_decimal {n : Nat} (hzero : n ≠ 0) :
    (decimal n).foldl readByte (.between done) = .length done n := by
  rw [decimal, if_neg hzero]
  have hlt : ∀ digit ∈ (Nat.digits 10 n).reverse, digit < 10 := by
    intro digit hmem
    exact Nat.digits_lt_base (by omega) (List.mem_reverse.mp hmem)
  have hvalue : (Nat.digits 10 n).reverse.foldl (fun n digit => 10 * n + digit) 0 = n := by
    calc
      (Nat.digits 10 n).reverse.foldl (fun n digit => 10 * n + digit) 0
          = Nat.ofDigits 10 (Nat.digits 10 n) := by
        rw [List.foldl_reverse, Nat.ofDigits_eq_foldr]
        congr 1
        funext digit n
        exact Nat.add_comm _ _
      _ = n := Nat.ofDigits_digits 10 n
  have hlead := Nat.getLast_digit_ne_zero 10 hzero
  cases hdigits : (Nat.digits 10 n).reverse with
  | nil =>
      rw [List.reverse_eq_nil_iff, Nat.digits_eq_nil_iff_eq_zero] at hdigits
      exact absurd hdigits hzero
  | cons digit digits =>
      have hfirst : digit ≠ 0 := by
        rw [← List.head_reverse (by simp [hdigits])] at hlead
        simpa [hdigits] using hlead
      rw [hdigits] at hlt hvalue
      rw [List.map_cons, List.foldl_cons,
        readByte_between_digit (hlt digit (List.mem_cons_self ..)) hfirst,
        foldl_digits digits fun digit hmem => hlt digit (List.mem_cons_of_mem _ hmem)]
      rw [List.foldl_cons, Nat.mul_zero, Nat.zero_add] at hvalue
      rw [hvalue]

theorem foldl_octets (bytes got : List UInt8) (hne : bytes ≠ []) :
    bytes.foldl readByte (.octets done got bytes.length) =
      .between (done ++ [.data (got ++ bytes)]) := by
  induction bytes generalizing got with
  | nil => exact absurd rfl hne
  | cons byte bytes ih =>
      cases bytes with
      | nil => rfl
      | cons next bytes =>
          rw [List.foldl_cons, readByte, if_neg (by simp), List.length_cons,
            Nat.add_sub_cancel, ih _ (by simp), List.append_assoc, List.singleton_append]

theorem foldl_tokenText {token : Token} (hne : token ≠ .data []) :
    (tokenText token).foldl readByte (.between done) = .between (done ++ [token]) := by
  cases token with
  | opened => rfl
  | closed => rfl
  | data bytes =>
      have hbytes : bytes ≠ [] := fun h => hne (h ▸ rfl)
      rw [tokenText, List.foldl_append, foldl_decimal (by rwa [ne_eq, List.length_eq_zero_iff]),
        List.foldl_cons, readByte, if_neg (by decide), if_pos rfl, foldl_octets bytes [] hbytes,
        List.nil_append]

theorem foldl_invalid (bytes : List UInt8) : bytes.foldl readByte .invalid = .invalid := by
  induction bytes with
  | nil => rfl
  | cons byte bytes ih => exact ih

theorem foldl_text (tokens : List Token) :
    (text tokens).foldl readByte (.between done) =
      if .data [] ∈ tokens then .invalid else .between (done ++ tokens) := by
  induction tokens generalizing done with
  | nil => simp [text]
  | cons token tokens ih =>
      rw [text, List.flatMap_cons, List.foldl_append, ← text]
      by_cases htoken : token = .data []
      · have hinvalid : (tokenText token).foldl readByte (.between done) = .invalid := by
          rw [htoken]
          rfl
        rw [hinvalid, foldl_invalid, if_pos (by simp [htoken])]
      · rw [foldl_tokenText htoken, ih, List.append_assoc, List.singleton_append]
        simp [Ne.symm htoken]

/-- The text with its final zero byte is read back, unless it has an empty byte string. -/
theorem readText_text (tokens : List Token) :
    readText (text tokens ++ [0]) = if .data [] ∈ tokens then none else some tokens := by
  rw [readText, List.foldl_append, foldl_text]
  by_cases hempty : .data [] ∈ tokens
  · rw [if_pos hempty, if_pos hempty]
    rfl
  · rw [if_neg hempty, if_neg hempty]
    rfl

/-! ## Templates -/

/-- Write numbers into the holes of a template. -/
def build : List (Option Token) → List Nat → List Token
  | some token :: template, numbers => token :: build template numbers
  | none :: template, number :: numbers =>
      .data (BigEndian.print number) :: build template numbers
  | _, _ => []

/-- What a built expression consists of. -/
theorem mem_build_iff {token : Token} (template : List (Option Token)) (values : List Nat)
    (h : template.count none = values.length) :
    token ∈ build template values ↔
      some token ∈ template ∨ ∃ value ∈ values, token = .data (BigEndian.print value) := by
  induction template generalizing values with
  | nil =>
      rw [List.count_nil, eq_comm, List.length_eq_zero_iff] at h
      simp [build, h]
  | cons slot template ih =>
      cases slot with
      | some other =>
          rw [List.count_cons_of_ne (by simp)] at h
          simp [build, ih values h, or_assoc]
      | none =>
          rw [List.count_cons_self] at h
          cases values with
          | nil => simp at h
          | cons value values =>
              rw [List.length_cons, Nat.add_right_cancel_iff] at h
              simp only [build, List.mem_cons, ih values h, exists_eq_or_imp, reduceCtorEq,
                false_or]
              exact or_left_comm

/-- The numbers in the holes of an expression of a template. -/
def numbers : List (Option Token) → List Token → Option (List Nat)
  | [], [] => some []
  | some token :: template, token' :: tokens =>
      if token = token' then numbers template tokens else none
  | none :: template, .data bytes :: tokens =>
      (numbers template tokens).map (BigEndian.value bytes :: ·)
  | _, _ => none

theorem numbers_build (template : List (Option Token)) (values : List Nat)
    (h : template.count none = values.length) :
    numbers template (build template values) = some values := by
  induction template generalizing values with
  | nil =>
      rw [List.count_nil, eq_comm, List.length_eq_zero_iff] at h
      rw [h]
      rfl
  | cons slot template ih =>
      cases slot with
      | some token =>
          rw [List.count_cons_of_ne (by simp)] at h
          rw [build, numbers, if_pos rfl, ih values h]
      | none =>
          rw [List.count_cons_self] at h
          cases values with
          | nil => simp at h
          | cons value values =>
              rw [List.length_cons, Nat.add_right_cancel_iff] at h
              rw [build, numbers, ih values h, BigEndian.value_print, Option.map_some]

end CanonicalText
