import CodingLearners.Library.JsString

/-!
# `encodeURIComponent` and `decodeURIComponent`

Both go through code points: a string without lone surrogates is a sequence of
Unicode scalar values, and each of them is escaped as its UTF-8 octets. `none`
is the `URIError`.
-/

namespace Js

/-! ## Code points -/

def isLead (u : UInt16) : Bool := decide (0xD800 ≤ u.toNat ∧ u.toNat ≤ 0xDBFF)

def isTrail (u : UInt16) : Bool := decide (0xDC00 ≤ u.toNat ∧ u.toNat ≤ 0xDFFF)

def surrogatePair (lead trail : UInt16) : Nat :=
  (lead.toNat - 0xD800) * 0x400 + (trail.toNat - 0xDC00) + 0x10000

/-- The code points of a string, unless it has a lone surrogate. -/
def codePoints : JsString → Option (List Nat)
  | [] => some []
  | u :: rest =>
      if isTrail u then none
      else if isLead u then
        match rest with
        | [] => none
        | v :: rest =>
            if isTrail v then (codePoints rest).map (surrogatePair u v :: ·) else none
      else (codePoints rest).map (u.toNat :: ·)

theorem codePoints_pair {u v : UInt16} (hu : isLead u = true) (hv : isTrail v = true)
    (rest : JsString) :
    codePoints (u :: v :: rest) = (codePoints rest).map (surrogatePair u v :: ·) := by
  have htrail : isTrail u = false := by
    simp only [isLead, isTrail, decide_eq_true_eq, decide_eq_false_iff_not] at hu ⊢
    omega
  simp [codePoints, htrail, hu, hv]

theorem codePoints_unit {u : UInt16} (htrail : isTrail u = false) (hlead : isLead u = false)
    (rest : JsString) : codePoints (u :: rest) = (codePoints rest).map (u.toNat :: ·) := by
  cases rest <;> simp [codePoints, htrail, hlead]

/-- The string has no lone surrogate. -/
def isWellFormed (s : JsString) : Bool := (codePoints s).isSome

/-- A Unicode scalar value. -/
def IsScalar (cp : Nat) : Prop := cp < 0xD800 ∨ 0xE000 ≤ cp ∧ cp < 0x110000

instance (cp : Nat) : Decidable (IsScalar cp) := inferInstanceAs (Decidable (_ ∨ _))

/-- The one or two code units of a code point. -/
def utf16 (cp : Nat) : JsString :=
  if cp < 0x10000 then [UInt16.ofNat cp]
  else [UInt16.ofNat (0xD800 + (cp - 0x10000) / 0x400),
    UInt16.ofNat (0xDC00 + (cp - 0x10000) % 0x400)]

theorem isScalar_surrogatePair {u v : UInt16} (hu : isLead u = true) (hv : isTrail v = true) :
    IsScalar (surrogatePair u v) := by
  simp only [isLead, isTrail, decide_eq_true_eq] at hu hv
  right
  simp only [surrogatePair]
  omega

theorem utf16_surrogatePair {u v : UInt16} (hu : isLead u = true) (hv : isTrail v = true) :
    utf16 (surrogatePair u v) = [u, v] := by
  simp only [isLead, isTrail, decide_eq_true_eq] at hu hv
  have hhigh : 0xD800 + (surrogatePair u v - 0x10000) / 0x400 = u.toNat := by
    simp only [surrogatePair]
    omega
  have hlow : 0xDC00 + (surrogatePair u v - 0x10000) % 0x400 = v.toNat := by
    simp only [surrogatePair]
    omega
  have hbig : ¬ surrogatePair u v < 0x10000 := by
    simp only [surrogatePair]
    omega
  rw [utf16, if_neg hbig, hhigh, hlow, UInt16.ofNat_toNat, UInt16.ofNat_toNat]

theorem utf16_toNat (u : UInt16) : utf16 u.toNat = [u] := by
  have := u.toNat_lt
  rw [utf16, if_pos (by omega), UInt16.ofNat_toNat]

theorem isScalar_toNat {u : UInt16} (htrail : isTrail u = false) (hlead : isLead u = false) :
    IsScalar u.toNat := by
  have := u.toNat_lt
  simp only [isLead, isTrail, decide_eq_false_iff_not] at hlead htrail
  simp only [IsScalar]
  omega

theorem codePoints_spec {s : JsString} {cps : List Nat} (h : codePoints s = some cps) :
    (∀ cp ∈ cps, IsScalar cp) ∧ cps.flatMap utf16 = s := by
  fun_induction codePoints s generalizing cps with
  | case1 => simp_all
  | case2 => simp at h
  | case3 => simp at h
  | case4 u htrail hlead v rest hv ih =>
      obtain ⟨tail, htail, rfl⟩ := Option.map_eq_some_iff.mp h
      obtain ⟨hscalar, hunits⟩ := ih htail
      refine ⟨?_, by simp [utf16_surrogatePair hlead hv, hunits]⟩
      simpa only [List.forall_mem_cons] using ⟨isScalar_surrogatePair hlead hv, hscalar⟩
  | case5 => simp at h
  | case6 u rest htrail hlead ih =>
      obtain ⟨tail, htail, rfl⟩ := Option.map_eq_some_iff.mp h
      obtain ⟨hscalar, hunits⟩ := ih htail
      refine ⟨?_, by simp [utf16_toNat, hunits]⟩
      simpa only [List.forall_mem_cons] using
        ⟨isScalar_toNat (by simpa using htrail) (by simpa using hlead), hscalar⟩

/-- A string without any surrogate is well formed. -/
theorem isWellFormed_of_forall {s : JsString} (h : ∀ u ∈ s, u.toNat < 0xD800 ∨ 0xE000 ≤ u.toNat) :
    isWellFormed s = true := by
  induction s with
  | nil => rfl
  | cons u rest ih =>
      rw [List.forall_mem_cons] at h
      have htrail : isTrail u = false := by
        simp only [isTrail, decide_eq_false_iff_not]
        omega
      have hlead : isLead u = false := by
        simp only [isLead, decide_eq_false_iff_not]
        omega
      simpa [isWellFormed, codePoints_unit htrail hlead] using ih h.2

/-! ## Escapes -/

/-- The UTF-8 octets of a code point. -/
def utf8 (cp : Nat) : List Nat :=
  if cp < 0x80 then [cp]
  else if cp < 0x800 then [0xC0 + cp / 0x40, 0x80 + cp % 0x40]
  else if cp < 0x10000 then [0xE0 + cp / 0x1000, 0x80 + cp / 0x40 % 0x40, 0x80 + cp % 0x40]
  else [0xF0 + cp / 0x40000, 0x80 + cp / 0x1000 % 0x40, 0x80 + cp / 0x40 % 0x40,
    0x80 + cp % 0x40]

/-- The characters that `encodeURIComponent` leaves alone. -/
def unreserved (cp : Nat) : Bool :=
  decide (48 ≤ cp ∧ cp ≤ 57 ∨ 65 ≤ cp ∧ cp ≤ 90 ∨ 97 ≤ cp ∧ cp ≤ 122) ||
    (("-_.!~*'()").toList.map Char.toNat).contains cp

/-- The unit of `%`. -/
def percent : UInt16 := 37

def hexDigit (n : Nat) : UInt16 := UInt16.ofNat (if n < 10 then 48 + n else 55 + n)

def hexValue (u : UInt16) : Option Nat :=
  if 48 ≤ u.toNat ∧ u.toNat ≤ 57 then some (u.toNat - 48)
  else if 65 ≤ u.toNat ∧ u.toNat ≤ 70 then some (u.toNat - 55)
  else if 97 ≤ u.toNat ∧ u.toNat ≤ 102 then some (u.toNat - 87)
  else none

def escapeOctet (octet : Nat) : JsString := [percent, hexDigit (octet / 16), hexDigit (octet % 16)]

def encodeCodePoint (cp : Nat) : JsString :=
  if unreserved cp then [UInt16.ofNat cp] else (utf8 cp).flatMap escapeOctet

def encodeURIComponent (s : JsString) : Option JsString :=
  (codePoints s).map fun cps => cps.flatMap encodeCodePoint

/-- What `decodeURIComponent` reads: a unit as it stands, or an escaped octet. -/
inductive Token
  | unit (u : UInt16)
  | octet (value : Nat)

/-- The escapes of a string; each `%` has to be followed by two hex digits. -/
def unescape : JsString → Option (List Token)
  | [] => some []
  | u :: rest =>
      if u = percent then
        match rest with
        | high :: low :: rest =>
            match hexValue high, hexValue low with
            | some a, some b => (unescape rest).map (.octet (16 * a + b) :: ·)
            | _, _ => none
        | _ => none
      else (unescape rest).map (.unit u :: ·)

def isContinuation (octet : Nat) : Bool := decide (0x80 ≤ octet ∧ octet < 0xC0)

/-- The octets of one code point have to be well-formed UTF-8. -/
def assemble : List Token → Option JsString
  | [] => some []
  | .unit u :: rest => (assemble rest).map (u :: ·)
  | .octet a :: rest =>
      if a < 0x80 then (assemble rest).map (UInt16.ofNat a :: ·)
      else if 0xC0 ≤ a ∧ a < 0xE0 then
        match rest with
        | .octet b :: rest =>
            let cp := (a - 0xC0) * 0x40 + (b - 0x80)
            if isContinuation b ∧ 0x80 ≤ cp then (assemble rest).map (utf16 cp ++ ·) else none
        | _ => none
      else if 0xE0 ≤ a ∧ a < 0xF0 then
        match rest with
        | .octet b :: .octet c :: rest =>
            let cp := (a - 0xE0) * 0x1000 + (b - 0x80) * 0x40 + (c - 0x80)
            if isContinuation b ∧ isContinuation c ∧ 0x800 ≤ cp ∧ IsScalar cp then
              (assemble rest).map (utf16 cp ++ ·)
            else none
        | _ => none
      else if 0xF0 ≤ a ∧ a < 0xF8 then
        match rest with
        | .octet b :: .octet c :: .octet d :: rest =>
            let cp := (a - 0xF0) * 0x40000 + (b - 0x80) * 0x1000 + (c - 0x80) * 0x40 + (d - 0x80)
            if isContinuation b ∧ isContinuation c ∧ isContinuation d ∧ 0x10000 ≤ cp ∧
                IsScalar cp then
              (assemble rest).map (utf16 cp ++ ·)
            else none
        | _ => none
      else none

def decodeURIComponent (s : JsString) : Option JsString := (unescape s).bind assemble

/-! ## The round trip -/

theorem unescape_unit {u : UInt16} (h : u ≠ percent) (rest : JsString) :
    unescape (u :: rest) = (unescape rest).map (.unit u :: ·) := by
  rw [unescape.eq_def]
  simp only [h, if_false]

theorem assemble_ascii {octet : Nat} (h : octet < 0x80) (rest : List Token) :
    assemble (.octet octet :: rest) = (assemble rest).map (UInt16.ofNat octet :: ·) := by
  rw [assemble.eq_def]
  simp only [h, if_true]

theorem hexValue_hexDigit {n : Nat} (h : n < 16) : hexValue (hexDigit n) = some n := by
  revert n
  decide

theorem unescape_escapeOctet {octet : Nat} (h : octet < 256) (rest : JsString) :
    unescape (escapeOctet octet ++ rest) = (unescape rest).map (.octet octet :: ·) := by
  have hsplit : 16 * (octet / 16) + octet % 16 = octet := Nat.div_add_mod octet 16
  simp [escapeOctet, unescape, hexValue_hexDigit (show octet / 16 < 16 by omega),
    hexValue_hexDigit (show octet % 16 < 16 by omega), hsplit]

theorem unescape_octets {octets : List Nat} (h : ∀ octet ∈ octets, octet < 256) (rest : JsString) :
    unescape (octets.flatMap escapeOctet ++ rest) =
      (unescape rest).map (octets.map Token.octet ++ ·) := by
  induction octets with
  | nil => simp
  | cons octet octets ih =>
      rw [List.forall_mem_cons] at h
      rw [List.flatMap_cons, List.append_assoc, unescape_escapeOctet h.1, ih h.2, Option.map_map]
      rfl

theorem utf8_lt {cp : Nat} (h : IsScalar cp) : ∀ octet ∈ utf8 cp, octet < 256 := by
  simp only [IsScalar] at h
  rw [utf8]
  split
  · simp
    omega
  · split
    · simp
      omega
    · split <;> · simp; omega

theorem unreserved_lt {cp : Nat} (h : unreserved cp = true) : cp < 0x80 ∧ cp ≠ 37 := by
  simp only [unreserved, Bool.or_eq_true, decide_eq_true_eq, List.contains_iff_mem] at h
  cases h with
  | inl h => omega
  | inr h =>
      revert h
      revert cp
      decide

/-- The tokens that the escape of a code point is read as. -/
def tokensOf (cp : Nat) : List Token :=
  if unreserved cp then [.unit (UInt16.ofNat cp)] else (utf8 cp).map .octet

theorem unescape_encodeCodePoint {cp : Nat} (h : IsScalar cp) (rest : JsString) :
    unescape (encodeCodePoint cp ++ rest) = (unescape rest).map (tokensOf cp ++ ·) := by
  rw [encodeCodePoint, tokensOf]
  split
  · rename_i hfree
    obtain ⟨hlt, hne⟩ := unreserved_lt hfree
    have hunit : UInt16.ofNat cp ≠ percent := by
      intro heq
      have := congrArg UInt16.toNat heq
      rw [UInt16.toNat_ofNat', Nat.mod_eq_of_lt (by omega)] at this
      exact hne this
    exact unescape_unit hunit rest
  · exact unescape_octets (utf8_lt h) rest

theorem assemble_tokensOf {cp : Nat} (h : IsScalar cp) (rest : List Token) :
    assemble (tokensOf cp ++ rest) = (assemble rest).map (utf16 cp ++ ·) := by
  rw [tokensOf]
  split
  · rename_i hfree
    have hlt := (unreserved_lt hfree).1
    simp [assemble, utf16, show cp < 0x10000 by omega]
  · rw [utf8]
    simp only [IsScalar] at h
    split
    · rename_i hascii
      simp [assemble_ascii hascii, utf16, show cp < 0x10000 by omega]
    · split
      · have hcp : (0xC0 + cp / 0x40 - 0xC0) * 0x40 + (0x80 + cp % 0x40 - 0x80) = cp := by omega
        simp only [assemble, List.map_cons, List.map_nil, List.cons_append, List.nil_append,
          hcp, isContinuation]
        rw [if_neg (by omega), if_pos (by omega), if_pos (by simp; omega)]
      · split
        · have hcp : (0xE0 + cp / 0x1000 - 0xE0) * 0x1000 +
              (0x80 + cp / 0x40 % 0x40 - 0x80) * 0x40 + (0x80 + cp % 0x40 - 0x80) = cp := by omega
          simp only [assemble, List.map_cons, List.map_nil, List.cons_append, List.nil_append,
            hcp, isContinuation, IsScalar]
          rw [if_neg (by omega), if_neg (by omega), if_pos (by omega), if_pos (by simp; omega)]
        · have hcp : (0xF0 + cp / 0x40000 - 0xF0) * 0x40000 +
              (0x80 + cp / 0x1000 % 0x40 - 0x80) * 0x1000 +
              (0x80 + cp / 0x40 % 0x40 - 0x80) * 0x40 + (0x80 + cp % 0x40 - 0x80) = cp := by omega
          simp only [assemble, List.map_cons, List.map_nil, List.cons_append, List.nil_append,
            hcp, isContinuation, IsScalar]
          rw [if_neg (by omega), if_neg (by omega), if_neg (by omega), if_pos (by omega),
            if_pos (by simp; omega)]

theorem decode_flatMap_encode {cps : List Nat} (h : ∀ cp ∈ cps, IsScalar cp) :
    decodeURIComponent (cps.flatMap encodeCodePoint) = some (cps.flatMap utf16) := by
  have htokens : unescape (cps.flatMap encodeCodePoint) = some (cps.flatMap tokensOf) := by
    induction cps with
    | nil => rfl
    | cons cp rest ih =>
        rw [List.forall_mem_cons] at h
        rw [List.flatMap_cons, unescape_encodeCodePoint h.1, ih h.2]
        rfl
  rw [decodeURIComponent, htokens, Option.bind_some]
  clear htokens
  induction cps with
  | nil => rfl
  | cons cp rest ih =>
      rw [List.forall_mem_cons] at h
      rw [List.flatMap_cons, assemble_tokensOf h.1, ih h.2]
      rfl

/-- `decodeURIComponent` inverts `encodeURIComponent`. -/
theorem decode_encode {s encoded : JsString} (h : encodeURIComponent s = some encoded) :
    decodeURIComponent encoded = some s := by
  obtain ⟨cps, hcps, rfl⟩ := Option.map_eq_some_iff.mp h
  obtain ⟨hscalar, hunits⟩ := codePoints_spec hcps
  rw [decode_flatMap_encode hscalar, hunits]

theorem encode_isSome {s : JsString} (h : isWellFormed s = true) :
    ∃ encoded, encodeURIComponent s = some encoded := by
  obtain ⟨cps, hcps⟩ := Option.isSome_iff_exists.mp h
  exact ⟨_, by rw [encodeURIComponent, hcps, Option.map_some]⟩

theorem isWellFormed_of_encode {s encoded : JsString} (h : encodeURIComponent s = some encoded) :
    isWellFormed s = true := by
  obtain ⟨cps, hcps, -⟩ := Option.map_eq_some_iff.mp h
  exact Option.isSome_iff_exists.mpr ⟨cps, hcps⟩

/-- The result of `encodeURIComponent` is ASCII. -/
theorem encode_ascii {s encoded : JsString} (h : encodeURIComponent s = some encoded) :
    ∀ u ∈ encoded, u.toNat < 128 := by
  obtain ⟨cps, hcps, rfl⟩ := Option.map_eq_some_iff.mp h
  intro u hu
  obtain ⟨cp, hcp, hu⟩ := List.mem_flatMap.mp hu
  unfold encodeCodePoint at hu
  split at hu
  · rename_i hfree
    obtain rfl := List.mem_singleton.mp hu
    have := (unreserved_lt hfree).1
    rw [UInt16.toNat_ofNat', Nat.mod_eq_of_lt (by omega)]
    exact this
  · obtain ⟨octet, hoctet, hu⟩ := List.mem_flatMap.mp hu
    have hdigit : ∀ n < 16, (hexDigit n).toNat < 128 := by decide
    have hlt := utf8_lt ((codePoints_spec hcps).1 cp hcp) octet hoctet
    simp only [escapeOctet, List.mem_cons, List.not_mem_nil, or_false] at hu
    rcases hu with rfl | rfl | rfl
    · decide
    · exact hdigit _ (by omega)
    · exact hdigit _ (by omega)

end Js
