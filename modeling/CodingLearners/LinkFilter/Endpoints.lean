import CodingLearners.Library.Decimal
import CodingLearners.LinkFilter.FilterDeduplicate

/-!
# Addresses and endpoints

What `regexip` and `regexipport` accept, as numbers: four octets of one to three
digits, and a port. The digits of the port are counted, not compared with 65535.
-/

namespace CodingLearners.LinkFilter

open Js RegularExpression

/-! ## The parts of the patterns -/

section Parts

variable {r : RegularExpression UInt16} {s : JsString}

theorem opt_rmatch_iff : (opt r).rmatch s = true ↔ s = [] ∨ r.rmatch s = true := by
  rw [opt, add_rmatch_iff, one_rmatch_iff]

theorem lit_rmatch_iff {c : Char} : (lit c).rmatch s = true ↔ s = [c.toNat.toUInt16] :=
  char_rmatch_iff _ _

theorem sum_char_rmatch_iff (units : List UInt16) :
    (units.map char).sum.rmatch s = true ↔ ∃ u ∈ units, s = [u] := by
  induction units with
  | nil => simp [zero_rmatch]
  | cons u units ih =>
      rw [List.map_cons, List.sum_cons, add_rmatch_iff, char_rmatch_iff, ih,
        List.exists_mem_cons_iff]

theorem range_rmatch_iff {first last : Char} (hlast : last.toNat < 65536) :
    (range first last).rmatch s = true ↔
      ∃ u : UInt16, s = [u] ∧ first.toNat ≤ u.toNat ∧ u.toNat ≤ last.toNat := by
  have hsum : range first last =
      (((List.range' first.toNat (last.toNat + 1 - first.toNat)).map UInt16.ofNat).map
        char).sum := by
    rw [range, List.map_map]
    rfl
  rw [hsum, sum_char_rmatch_iff]
  simp only [List.mem_map, List.mem_range'_1]
  constructor
  · rintro ⟨u, ⟨n, hn, rfl⟩, rfl⟩
    refine ⟨_, rfl, ?_⟩
    rw [UInt16.toNat_ofNat_of_lt' (by simp only [UInt16.size]; omega)]
    omega
  · rintro ⟨u, rfl, hfirst, hle⟩
    exact ⟨u, ⟨u.toNat, by omega, UInt16.ofNat_toNat⟩, rfl⟩

theorem digit_rmatch_iff : (range '0' '9').rmatch s = true ↔ ∃ u, s = [u] ∧ isDigit u = true := by
  rw [range_rmatch_iff (by decide)]
  simp [isDigit]

/-- So many digits at most. -/
theorem opt_digit_pow_rmatch_iff (n : Nat) :
    (opt (range '0' '9') ^ n).rmatch s = true ↔ AllDigits s ∧ s.length ≤ n := by
  induction n generalizing s with
  | zero =>
      change (1 : RegularExpression UInt16).rmatch s = true ↔ _
      rw [one_rmatch_iff, Nat.le_zero, List.length_eq_zero_iff]
      constructor
      · rintro rfl
        exact ⟨by simp [AllDigits], rfl⟩
      · exact And.right
  | succ n ih =>
      change (opt (range '0' '9') ^ n * opt (range '0' '9')).rmatch s = true ↔ _
      rw [mul_rmatch_iff]
      constructor
      · rintro ⟨t, u, rfl, ht, hu⟩
        obtain ⟨hdigits, hlength⟩ := ih.mp ht
        rw [List.length_append]
        rcases opt_rmatch_iff.mp hu with rfl | hu
        · exact ⟨by simpa using hdigits, by simp; omega⟩
        · obtain ⟨d, rfl, hd⟩ := digit_rmatch_iff.mp hu
          refine ⟨?_, by simpa using hlength⟩
          intro v hv
          rcases List.mem_append.mp hv with hv | hv
          · exact hdigits v hv
          · exact List.mem_singleton.mp hv ▸ hd
      · rintro ⟨hdigits, hlength⟩
        rcases s.eq_nil_or_concat with rfl | ⟨t, d, rfl⟩
        · exact ⟨[], [], rfl, ih.mpr ⟨hdigits, Nat.zero_le n⟩, opt_rmatch_iff.mpr (Or.inl rfl)⟩
        · rw [List.concat_eq_append, List.length_append] at hlength
          have ht : AllDigits t := fun v hv => hdigits v (by simp [hv])
          refine ⟨t, [d], List.concat_eq_append, ih.mpr ⟨ht, by simpa using hlength⟩, ?_⟩
          exact opt_rmatch_iff.mpr (Or.inr (digit_rmatch_iff.mpr ⟨d, rfl, hdigits d (by simp)⟩))

end Parts

/-! ## Octets and addresses -/

/-- A decimal number of one to three digits that is at most 255. -/
structure IsOctet (s : JsString) : Prop where
  digits : AllDigits s
  nonempty : s ≠ []
  short : s.length ≤ 3
  value : decimalValue s ≤ 255

theorem isOctet_one {x : UInt16} : IsOctet [x] ↔ isDigit x = true := by
  refine ⟨fun h => h.digits x (by simp), fun hx => ?_⟩
  have hx' := digit_bounds hx
  exact ⟨by simpa [AllDigits] using hx, by simp, by simp, by simp [decimalValue]; omega⟩

theorem isOctet_two {x y : UInt16} : IsOctet [x, y] ↔ isDigit x = true ∧ isDigit y = true := by
  refine ⟨fun h => ⟨h.digits x (by simp), h.digits y (by simp)⟩, fun ⟨hx, hy⟩ => ?_⟩
  have hx' := digit_bounds hx
  have hy' := digit_bounds hy
  exact ⟨by simpa [AllDigits] using ⟨hx, hy⟩, by simp, by simp, by simp [decimalValue]; omega⟩

theorem isOctet_three {x y z : UInt16} : IsOctet [x, y, z] ↔
    isDigit x = true ∧ isDigit y = true ∧ isDigit z = true ∧
      100 * (x.toNat - 48) + 10 * (y.toNat - 48) + (z.toNat - 48) ≤ 255 := by
  constructor
  · intro h
    have hvalue := h.value
    simp only [decimalValue, List.foldl_cons, List.foldl_nil] at hvalue
    exact ⟨h.digits x (by simp), h.digits y (by simp), h.digits z (by simp), by omega⟩
  · rintro ⟨hx, hy, hz, hvalue⟩
    refine ⟨by simpa [AllDigits] using ⟨hx, hy, hz⟩, by simp, by simp, ?_⟩
    simp only [decimalValue, List.foldl_cons, List.foldl_nil]
    omega

theorem octet_high_rmatch_iff {s : JsString} :
    (lit '2' * lit '5' * range '0' '5').rmatch s = true ↔
      ∃ z : UInt16, s = [50, 53, z] ∧ 48 ≤ z.toNat ∧ z.toNat ≤ 53 := by
  simp only [mul_rmatch_iff, lit_rmatch_iff, range_rmatch_iff (show '5'.toNat < 65536 by decide)]
  constructor
  · rintro ⟨t, u, rfl, ⟨t₁, t₂, rfl, rfl, rfl⟩, z, rfl, hz⟩
    exact ⟨z, rfl, hz⟩
  · rintro ⟨z, rfl, hz⟩
    exact ⟨[50, 53], [z], rfl, ⟨[50], [53], rfl, rfl, rfl⟩, z, rfl, hz⟩

theorem octet_middle_rmatch_iff {s : JsString} :
    (lit '2' * range '0' '4' * range '0' '9').rmatch s = true ↔
      ∃ y z : UInt16, s = [50, y, z] ∧ (48 ≤ y.toNat ∧ y.toNat ≤ 52) ∧ isDigit z = true := by
  simp only [mul_rmatch_iff, lit_rmatch_iff, digit_rmatch_iff,
    range_rmatch_iff (show '4'.toNat < 65536 by decide)]
  constructor
  · rintro ⟨t, u, rfl, ⟨t₁, t₂, rfl, rfl, y, rfl, hy⟩, z, rfl, hz⟩
    exact ⟨y, z, rfl, hy, hz⟩
  · rintro ⟨y, z, rfl, hy, hz⟩
    exact ⟨[50, y], [z], rfl, ⟨[50], [y], rfl, rfl, y, rfl, hy⟩, z, rfl, hz⟩

theorem octet_low_rmatch_iff {s : JsString} :
    (opt (range '0' '1') * range '0' '9' * opt (range '0' '9')).rmatch s = true ↔
      ∃ before y after, s = before ++ y :: after ∧ isDigit y = true ∧
        (before = [] ∨ ∃ x : UInt16, before = [x] ∧ 48 ≤ x.toNat ∧ x.toNat ≤ 49) ∧
        (after = [] ∨ ∃ z, after = [z] ∧ isDigit z = true) := by
  simp only [mul_rmatch_iff, opt_rmatch_iff, digit_rmatch_iff,
    range_rmatch_iff (show '1'.toNat < 65536 by decide)]
  constructor
  · rintro ⟨t, after, rfl, ⟨before, u, rfl, hbefore, y, rfl, hy⟩, hafter⟩
    exact ⟨before, y, after, by simp, hy, hbefore, hafter⟩
  · rintro ⟨before, y, after, rfl, hy, hbefore, hafter⟩
    exact ⟨before ++ [y], after, by simp, ⟨before, [y], rfl, hbefore, y, rfl, hy⟩, hafter⟩

/-- The alternatives of the pattern are the numbers up to 255. -/
theorem octet_rmatch_iff {s : JsString} : octet.rmatch s = true ↔ IsOctet s := by
  rw [octet, add_rmatch_iff, add_rmatch_iff, octet_high_rmatch_iff, octet_middle_rmatch_iff,
    octet_low_rmatch_iff]
  have htwo : (50 : UInt16).toNat = 50 := rfl
  have hfive : (53 : UInt16).toNat = 53 := rfl
  constructor
  · rintro ((⟨z, rfl, hz⟩ | ⟨y, z, rfl, hy, hz⟩) | ⟨before, y, after, rfl, hy, hbefore, hafter⟩)
    · rw [isOctet_three]
      simp only [isDigit, decide_eq_true_eq]
      omega
    · have hz' := digit_bounds hz
      rw [isOctet_three]
      simp only [isDigit, decide_eq_true_eq]
      omega
    · have hy' := digit_bounds hy
      rcases hbefore with rfl | ⟨x, rfl, hx⟩
      · rcases hafter with rfl | ⟨z, rfl, hz⟩
        · exact isOctet_one.mpr hy
        · exact isOctet_two.mpr ⟨hy, hz⟩
      · have hx' : isDigit x = true := by
          simp only [isDigit, decide_eq_true_eq]
          omega
        rcases hafter with rfl | ⟨z, rfl, hz⟩
        · exact isOctet_two.mpr ⟨hx', hy⟩
        · have hz' := digit_bounds hz
          exact isOctet_three.mpr ⟨hx', hy, hz, by omega⟩
  · intro h
    obtain ⟨hdigits, hne, hshort, hvalue⟩ := id h
    rcases s with _ | ⟨x, _ | ⟨y, _ | ⟨z, _ | ⟨w, rest⟩⟩⟩⟩
    · exact absurd rfl hne
    · exact Or.inr ⟨[], x, [], rfl, isOctet_one.mp h, Or.inl rfl, Or.inl rfl⟩
    · obtain ⟨hx, hy⟩ := isOctet_two.mp h
      exact Or.inr ⟨[], x, [y], rfl, hx, Or.inl rfl, Or.inr ⟨y, rfl, hy⟩⟩
    · obtain ⟨hx, hy, hz, hsum⟩ := isOctet_three.mp h
      have hx' := digit_bounds hx
      have hy' := digit_bounds hy
      have hz' := digit_bounds hz
      by_cases hlow : x.toNat ≤ 49
      · exact Or.inr ⟨[x], y, [z], rfl, hy, Or.inr ⟨x, rfl, hx'.1, hlow⟩, Or.inr ⟨z, rfl, hz⟩⟩
      · have hx2 : x = 50 := UInt16.toNat_inj.mp (by omega)
        subst hx2
        by_cases hmiddle : y.toNat ≤ 52
        · exact Or.inl (Or.inr ⟨y, z, rfl, ⟨hy'.1, hmiddle⟩, hz⟩)
        · have hy5 : y = 53 := UInt16.toNat_inj.mp (by omega)
          subst hy5
          exact Or.inl (Or.inl ⟨z, rfl, hz'.1, by omega⟩)
    · simp only [List.length_cons] at hshort
      omega

/-- `a.b.c.d` -/
def dotted (a b c d : JsString) : JsString := a ++ 46 :: (b ++ 46 :: (c ++ 46 :: d))

/-- Four octets with dots between them. -/
def IsAddress (s : JsString) : Prop :=
  ∃ a b c d, s = dotted a b c d ∧ IsOctet a ∧ IsOctet b ∧ IsOctet c ∧ IsOctet d

theorem dotted_octets_rmatch_iff {s : JsString} :
    ((octet * lit '.') ^ 3 * octet).rmatch s = true ↔ IsAddress s := by
  change (((1 * (octet * lit '.')) * (octet * lit '.')) * (octet * lit '.') * octet).rmatch s =
    true ↔ _
  simp only [mul_rmatch_iff, one_rmatch_iff, lit_rmatch_iff, octet_rmatch_iff]
  constructor
  · rintro ⟨-, d, rfl, ⟨-, -, rfl, ⟨-, -, rfl, ⟨-, -, rfl, rfl, a, -, rfl, ha, rfl⟩,
      b, -, rfl, hb, rfl⟩, c, -, rfl, hc, rfl⟩, hd⟩
    exact ⟨a, b, c, d, by simp [dotted], ha, hb, hc, hd⟩
  · rintro ⟨a, b, c, d, rfl, ha, hb, hc, hd⟩
    exact ⟨a ++ [46] ++ (b ++ [46]) ++ (c ++ [46]), d, by simp [dotted],
      ⟨a ++ [46] ++ (b ++ [46]), c ++ [46], rfl,
        ⟨a ++ [46], b ++ [46], rfl, ⟨[], a ++ [46], rfl, rfl, a, [46], rfl, ha, rfl⟩,
          b, [46], rfl, hb, rfl⟩,
        c, [46], rfl, hc, rfl⟩, hd⟩

theorem regexip_rmatch_iff {s : JsString} : regexip.rmatch s = true ↔ IsAddress s :=
  dotted_octets_rmatch_iff

theorem portDigits_rmatch_iff {s : JsString} :
    (range '1' '9' * opt (range '0' '9') ^ 4).rmatch s = true ↔
      IsNumeral s ∧ decimalValue s < 100000 := by
  rw [mul_rmatch_iff]
  simp only [range_rmatch_iff (show '9'.toNat < 65536 by decide), opt_digit_pow_rmatch_iff]
  constructor
  · rintro ⟨t, rest, rfl, ⟨u, rfl, hlow, hhigh⟩, hrest, hlength⟩
    have hnumeral : IsNumeral (u :: rest) := by
      refine ⟨?_, by simp, ?_⟩
      · intro v hv
        rcases List.mem_cons.mp hv with rfl | hv
        · exact decide_eq_true ⟨Nat.le_of_succ_le hlow, hhigh⟩
        · exact hrest v hv
      · intro hzero
        rw [Option.some.inj hzero] at hlow
        exact absurd hlow (by decide)
    have hfive : (u :: rest).length ≤ 5 := Nat.succ_le_succ hlength
    exact ⟨hnumeral, hnumeral.length_le_iff.mp hfive⟩
  · rintro ⟨hnumeral, hlt⟩
    have hlength := hnumeral.length_le_iff.mpr (show decimalValue s < 10 ^ 5 from hlt)
    cases s with
    | nil => exact absurd rfl hnumeral.nonempty
    | cons u rest =>
        have hu := digit_bounds (hnumeral.digits u List.mem_cons_self)
        have hne : u.toNat ≠ 48 := by
          intro hzero
          exact hnumeral.noLeadingZero (congrArg some (UInt16.toNat_inj.mp hzero))
        refine ⟨[u], rest, rfl, ⟨u, rfl, ?_, hu.2⟩, ?_, Nat.le_of_succ_le_succ hlength⟩
        · change 49 ≤ u.toNat
          omega
        · exact fun v hv => hnumeral.digits v (List.mem_cons_of_mem u hv)

/-- What `regexipport` accepts: an address, and a port of at most five digits. -/
theorem regexipport_rmatch_iff {s : JsString} : regexipport.rmatch s = true ↔
    ∃ address port, s = address ++ 58 :: port ∧ IsAddress address ∧ IsNumeral port ∧
      decimalValue port < 100000 := by
  rw [regexipport, mul_rmatch_iff]
  simp only [portDigits_rmatch_iff]
  constructor
  · rintro ⟨t, port, rfl, ht, hport⟩
    obtain ⟨address, colon, rfl, haddress, hcolon⟩ := (mul_rmatch_iff _ _ _).mp ht
    obtain rfl := lit_rmatch_iff.mp hcolon
    exact ⟨address, port, by simp, dotted_octets_rmatch_iff.mp haddress, hport⟩
  · rintro ⟨address, port, rfl, haddress, hport⟩
    refine ⟨address ++ [58], port, by simp, ?_, hport⟩
    exact (mul_rmatch_iff _ _ _).mpr
      ⟨address, [58], rfl, dotted_octets_rmatch_iff.mpr haddress, lit_rmatch_iff.mpr rfl⟩

/-- An address consists of digits and dots. -/
theorem IsAddress.digit_or_dot {s : JsString} (h : IsAddress s) :
    ∀ u ∈ s, isDigit u = true ∨ u = 46 := by
  obtain ⟨a, b, c, d, rfl, ha, hb, hc, hd⟩ := h
  intro u hu
  simp only [dotted, List.mem_append, List.mem_cons] at hu
  rcases hu with hu | hu | hu | hu | hu | hu | hu
  · exact Or.inl (ha.digits u hu)
  · exact Or.inr hu
  · exact Or.inl (hb.digits u hu)
  · exact Or.inr hu
  · exact Or.inl (hc.digits u hu)
  · exact Or.inr hu
  · exact Or.inl (hd.digits u hu)

theorem IsAddress.colon_notMem {s : JsString} (h : IsAddress s) : 58 ∉ s := by
  intro hmem
  rcases h.digit_or_dot 58 hmem with hdigit | hdot
  · exact absurd hdigit (by decide)
  · exact absurd hdot (by decide)

theorem colon_notMem_digits {s : JsString} (h : AllDigits s) : 58 ∉ s :=
  fun hmem => absurd (h 58 hmem) (by decide)

/-- There is one colon, which ends the address. -/
theorem endpoint_inj {address address' port port' : JsString} (haddress : IsAddress address)
    (hport : AllDigits port) :
    address ++ 58 :: port = address' ++ 58 :: port' ↔ address = address' ∧ port = port' := by
  rw [List.append_cons_inj_of_notMem haddress.colon_notMem (colon_notMem_digits hport)]
  simp

/-! ## Ports -/

/-- `a.b.c.d:p` with four octets and a port. -/
def IsEndpoint (s : JsString) : Prop :=
  ∃ address port, s = address ++ 58 :: port ∧ IsAddress address ∧ IsNumeral port ∧
    1 ≤ decimalValue port ∧ decimalValue port ≤ 65535

/-- `regexipport` is right about a text exactly if that is not an address with a
port of five digits that is too large. -/
theorem regexipport_exact_iff (s : JsString) :
    (regexipport.rmatch s = true ↔ IsEndpoint s) ↔
      ¬ ∃ address port, s = address ++ 58 :: port ∧ IsAddress address ∧ IsNumeral port ∧
        65536 ≤ decimalValue port ∧ decimalValue port ≤ 99999 := by
  rw [regexipport_rmatch_iff]
  constructor
  · rintro hiff ⟨address, port, rfl, haddress, hport, hlow, hhigh⟩
    obtain ⟨address', port', heq, -, -, -, hle⟩ :=
      hiff.mp ⟨address, port, rfl, haddress, hport, by omega⟩
    obtain ⟨-, rfl⟩ := (endpoint_inj haddress hport.digits).mp heq
    omega
  · intro hnot
    constructor
    · rintro ⟨address, port, rfl, haddress, hport, hlt⟩
      refine ⟨address, port, rfl, haddress, hport, hport.decimalValue_pos, ?_⟩
      by_contra hlarge
      exact hnot ⟨address, port, rfl, haddress, hport, by omega, by omega⟩
    · rintro ⟨address, port, rfl, haddress, hport, -, hle⟩
      exact ⟨address, port, rfl, haddress, hport, by omega⟩

theorem isAddress_example : IsAddress (units "1.2.3.4") :=
  ⟨units "1", units "2", units "3", units "4", by decide, isOctet_one.mpr (by decide),
    isOctet_one.mpr (by decide), isOctet_one.mpr (by decide), isOctet_one.mpr (by decide)⟩

/-- The pattern accepts the port 65536. -/
theorem regexipport_too_large :
    regexipport.rmatch (units "1.2.3.4:65536") = true ∧ ¬ IsEndpoint (units "1.2.3.4:65536") := by
  have hport : IsNumeral (units "65536") := ⟨by decide, by decide, by decide⟩
  refine ⟨regexipport_rmatch_iff.mpr
    ⟨units "1.2.3.4", units "65536", by decide, isAddress_example, hport, by decide⟩, ?_⟩
  rintro ⟨address, port, heq, -, -, -, hle⟩
  have hsplit : units "1.2.3.4" ++ 58 :: units "65536" = address ++ 58 :: port := heq
  obtain ⟨-, rfl⟩ := (endpoint_inj isAddress_example hport.digits).mp hsplit
  exact absurd hle (by decide)

end CodingLearners.LinkFilter
