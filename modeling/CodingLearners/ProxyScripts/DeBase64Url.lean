import CodingLearners.Library.Base64
import CodingLearners.Library.ShellText

/-!
# `de_base64_url.sh`

The script makes a text standard base64 and lets `openssl` decode it. It is
called with an unquoted expansion, which the shell splits into words and expands
to file names.

## Implementation notes

A text is a list of bytes, as in the C locale. What the shell makes of an
unquoted text, and what `openssl` prints, is given by `Tools`; only what is
standard is known of it.
-/

namespace CodingLearners.ProxyScripts

open ShellText

/-- What is done outside the scripts. -/
structure Tools where
  /-- The first argument that an unquoted expansion of a text gives to a script. -/
  argument : Text → Text
  /-- What `echo $strcoded | openssl base64 -d` prints. -/
  openssl : Text → Text

/-- A character that the shell leaves alone: one of base64 in either alphabet. -/
def isPlain (c : UInt8) : Bool :=
  decide (65 ≤ c.toNat ∧ c.toNat ≤ 90) || decide (97 ≤ c.toNat ∧ c.toNat ≤ 122) ||
    decide (48 ≤ c.toNat ∧ c.toNat ≤ 57) || c == 43 || c == 47 || c == 45 || c == 95 || c == 61

/-- Plain words are arguments as they are, and `openssl` decodes standard base64. -/
structure Tools.Standard (tools : Tools) : Prop where
  argument : ∀ text, text.all isPlain = true → tools.argument text = text
  openssl : ∀ data, tools.openssl (Base64.encode data) = data

/-- The two `sed`: a `+` for each `-`, and a slash for each `_`. -/
def standardChar (c : UInt8) : UInt8 := if c = 45 then 43 else if c = 95 then 47 else c

/-- The loop: it adds a `=` and counts `remind` up modulo 4 until it is 0. -/
def pad (strcoded : Text) : Text :=
  let lencoded := strcoded.length
  let remind := lencoded % 4
  strcoded ++ List.replicate ((4 - remind) % 4) 61

/-- What the script prints for its first argument. -/
def deBase64Url (tools : Tools) (arg : Text) : Text :=
  if arg = [] then []
  else
    let strcoded := substitution ((echo arg).map standardChar)
    tools.openssl (pad strcoded)

/-- `` `$callpath/de_base64_url.sh $text` `` -/
def decoded (tools : Tools) (text : Text) : Text :=
  substitution (deBase64Url tools (tools.argument text))

/-! ## What is decoded -/

/-- What is left of a text in `` `echo "$1" | sed …` ``. -/
def strcoded (text : Text) : Text := if isEchoOption text then [] else text.map standardChar

/-- A plain text that is base64 for the script, with what is kept of the bytes. -/
def Encodes (text value : Text) : Prop :=
  text.all isPlain = true ∧
    ∃ data, pad (strcoded text) = Base64.encode data ∧ substitution data = value

theorem isPlain_standardChar {c : UInt8} (h : isPlain c = true) :
    standardChar c ≠ 0 ∧ standardChar c ≠ 10 := by
  have hall : ∀ n : Fin 256, isPlain (UInt8.ofNat n) = true →
      standardChar (UInt8.ofNat n) ≠ 0 ∧ standardChar (UInt8.ofNat n) ≠ 10 := by decide +kernel
  have hc := hall ⟨c.toNat, c.toNat_lt⟩
  rw [UInt8.ofNat_toNat] at hc
  exact hc h

/-- On a plain text the script lets `openssl` decode the text as standard base64. -/
theorem decoded_plain {tools : Tools} (htools : tools.Standard) {text : Text}
    (hplain : text.all isPlain = true) :
    decoded tools text = substitution (tools.openssl (pad (strcoded text))) := by
  rw [decoded, htools.argument text hplain, deBase64Url]
  by_cases hnil : text = []
  · subst hnil
    have hempty : tools.openssl [] = [] := htools.openssl []
    simp [pad, strcoded, isEchoOption, hempty]
  rw [if_neg hnil]
  have hstrcoded : substitution ((echo text).map standardChar) = strcoded text := by
    unfold echo strcoded
    cases hoption : isEchoOption text with
    | true => cases hn : text.contains 110 <;> rfl
    | false =>
        have hnewline : [(10 : UInt8)].map standardChar = [10] := rfl
        simp only [Bool.false_eq_true, if_false]
        rw [List.map_append, hnewline, substitution_append_newline]
        have hchars : ∀ c ∈ text.map standardChar, c ≠ 0 ∧ c ≠ 10 := by
          intro c hc
          obtain ⟨c', hc', rfl⟩ := List.mem_map.mp hc
          exact isPlain_standardChar (List.all_eq_true.mp hplain c' hc')
        apply substitution_eq_self
        · intro hzero
          exact (hchars 0 hzero).1 rfl
        · intro c hc
          exact (hchars c (List.mem_of_getLast? hc)).2
  simp only [hstrcoded]

/-- Tools that do as they like with a text that is not plain, and with what is
not standard base64. -/
noncomputable def adversary (other : Text) : Tools where
  argument text := if text.all isPlain = true then text else Base64.encode other
  openssl text :=
    open Classical in if ∃ data, text = Base64.encode data then Base64.decode text else other

theorem adversary_standard (other : Text) : (adversary other).Standard where
  argument _ h := if_pos h
  openssl data := (if_pos ⟨data, rfl⟩).trans (Base64.decode_encode data)

/-- What the adversary makes of a text that encodes nothing. -/
theorem decoded_adversary {other text : Text} (hplain : (Base64.encode other).all isPlain = true)
    (hother : pad (strcoded (Base64.encode other)) = Base64.encode other)
    (h : text.all isPlain = true → ¬ ∃ data, pad (strcoded text) = Base64.encode data) :
    decoded (adversary other) text = substitution other := by
  have hstandard := adversary_standard other
  by_cases htext : text.all isPlain = true
  · rw [decoded_plain hstandard htext]
    exact congrArg substitution (if_neg (h htext))
  · have hargument : (adversary other).argument text = Base64.encode other := if_neg htext
    rw [decoded, hargument, ← hstandard.argument _ hplain]
    refine (decoded_plain hstandard hplain).trans ?_
    rw [hother, hstandard.openssl]

/-- The script decodes a text to a value, whatever the tools do elsewhere, if
and only if the text encodes it. -/
theorem decoded_iff (text value : Text) :
    (∀ tools : Tools, tools.Standard → decoded tools text = value) ↔ Encodes text value := by
  constructor
  · intro h
    have hencodes : text.all isPlain = true ∧
        ∃ data, pad (strcoded text) = Base64.encode data := by
      by_contra hnot
      rw [not_and] at hnot
      have hempty := h _ (adversary_standard [])
      have hletter := h _ (adversary_standard [97])
      rw [decoded_adversary (by decide) (by decide) hnot] at hempty hletter
      rw [← hempty] at hletter
      exact absurd hletter (by decide)
    obtain ⟨hplain, data, hdata⟩ := hencodes
    have hvalue := h _ (adversary_standard [])
    rw [decoded_plain (adversary_standard []) hplain, hdata,
      (adversary_standard []).openssl] at hvalue
    exact ⟨hplain, data, hdata, hvalue⟩
  · rintro ⟨hplain, data, hdata, hvalue⟩ tools htools
    rw [decoded_plain htools hplain, hdata, htools.openssl, hvalue]

/-! ## Ways to write base64 -/

/-- Bytes in base64: the alphabet, and whether there is a padding. -/
structure Encoded where
  data : Text
  urlSafe : Bool
  padded : Bool
  deriving DecidableEq

/-- How the bytes are written. -/
def Encoded.text (e : Encoded) : Text :=
  (Base64.digits e.data).map (if e.urlSafe then Base64.urlChar else Base64.char) ++
    if e.padded then List.replicate (Base64.padding e.data) 61 else []

/-- What `sed` and the shell do to the digits. -/
theorem char_facts {d : Nat} (h : d < 64) (urlSafe : Bool) :
    isPlain ((if urlSafe then Base64.urlChar else Base64.char) d) = true ∧
    standardChar ((if urlSafe then Base64.urlChar else Base64.char) d) = Base64.char d := by
  have hall : ∀ (urlSafe : Bool) (d : Fin 64),
      isPlain ((if urlSafe then Base64.urlChar else Base64.char) d) = true ∧
      standardChar ((if urlSafe then Base64.urlChar else Base64.char) d) = Base64.char d := by
    decide +kernel
  exact hall urlSafe ⟨d, h⟩

variable (e : Encoded)

theorem Encoded.plain : e.text.all isPlain = true := by
  rw [List.all_eq_true]
  intro c hc
  rcases List.mem_append.mp hc with hc | hc
  · obtain ⟨d, hd, rfl⟩ := List.mem_map.mp hc
    exact (char_facts (Base64.digits_lt d hd) e.urlSafe).1
  · cases hpadded : e.padded with
    | false => simp [hpadded] at hc
    | true =>
        rw [hpadded, if_pos rfl] at hc
        rw [(List.mem_replicate.mp hc).2]
        decide

/-- The loop makes up for a missing padding. -/
theorem Encoded.pad_text : pad (e.text.map standardChar) = Base64.encode e.data := by
  have hdigits : ((Base64.digits e.data).map
      (if e.urlSafe then Base64.urlChar else Base64.char)).map standardChar =
      (Base64.digits e.data).map Base64.char := by
    rw [List.map_map]
    apply List.map_congr_left
    intro d hd
    exact (char_facts (Base64.digits_lt d hd) e.urlSafe).2
  have hlength := Base64.length_digits e.data
  have hpadding := Base64.padding_lt e.data
  have hequal : standardChar 61 = 61 := rfl
  rw [Encoded.text, List.map_append, hdigits]
  cases e.padded with
  | false =>
      have hmissing : (4 - (Base64.digits e.data).length % 4) % 4 = Base64.padding e.data := by
        omega
      simp [pad, Base64.encode, hmissing]
  | true =>
      have hmissing :
          (4 - ((Base64.digits e.data).length + Base64.padding e.data) % 4) % 4 = 0 := by omega
      simp [pad, Base64.encode, hequal, hmissing]

/-- What the script decodes a base64 text to. -/
theorem Encoded.encodes_iff (value : Text) :
    Encodes e.text value ↔
      (if isEchoOption e.text then [] else substitution e.data) = value := by
  have hpad : pad [] = Base64.encode [] := rfl
  rw [Encodes, strcoded]
  cases hoption : isEchoOption e.text with
  | true =>
      constructor
      · rintro ⟨_, data, hdata, rfl⟩
        rw [if_pos rfl, hpad] at hdata
        rw [← Base64.encode_injective hdata]
        rfl
      · intro h
        exact ⟨e.plain, [], hpad, h⟩
  | false =>
      simp only [Bool.false_eq_true, if_false]
      rw [e.pad_text]
      constructor
      · rintro ⟨_, data, hdata, hvalue⟩
        rwa [Base64.encode_injective hdata]
      · intro h
        exact ⟨e.plain, e.data, rfl, h⟩

/-- The characters that `echo` takes for options stand for four digits. -/
theorem option_digits {d : Nat} (h : d < 64) (urlSafe : Bool)
    (hc : (if urlSafe then Base64.urlChar else Base64.char) d ∈ ([45, 110, 101, 69] : Text)) :
    d = 62 ∨ d = 39 ∨ d = 30 ∨ d = 4 := by
  have hall : ∀ (urlSafe : Bool) (d : Fin 64),
      (if urlSafe then Base64.urlChar else Base64.char) d ∈ ([45, 110, 101, 69] : Text) →
      d.val = 62 ∨ d.val = 39 ∨ d.val = 30 ∨ d.val = 4 := by
    decide +kernel
  exact hall urlSafe ⟨d, h⟩ hc

/-- Bytes with a colon are not written with these digits alone. -/
theorem colon_of_digits {data : Text}
    (h : ∀ d ∈ Base64.digits data, d = 62 ∨ d = 39 ∨ d = 30 ∨ d = 4) : 58 ∉ data := by
  have hcolon : ∀ c : UInt8, 58 = c → c.toNat = 58 := by
    rintro c rfl
    rfl
  induction data using Base64.digits_induction with
  | nil => simp
  | one a =>
      simp only [Base64.digits, List.forall_mem_cons] at h
      intro hmem
      have ha := hcolon a (by simpa using hmem)
      omega
  | two a b =>
      simp only [Base64.digits, List.forall_mem_cons] at h
      intro hmem
      simp only [List.mem_cons, List.not_mem_nil, or_false] at hmem
      rcases hmem with hmem | hmem
      · have ha := hcolon a hmem
        omega
      · have hb := hcolon b hmem
        omega
  | more a b c rest ih =>
      simp only [Base64.digits, List.cons_append, List.nil_append, List.forall_mem_cons] at h
      intro hmem
      simp only [List.mem_cons] at hmem
      rcases hmem with hmem | hmem | hmem | hmem
      · have ha := hcolon a hmem
        omega
      · have hb := hcolon b hmem
        omega
      · have hc := hcolon c hmem
        omega
      · exact ih h.2.2.2.2 hmem

/-- No text with a colon is written so that `echo` takes it for an option. -/
theorem Encoded.not_option (hcolon : 58 ∈ e.data) : isEchoOption e.text = false := by
  rw [Bool.eq_false_iff]
  intro hoption
  have hletters : ∀ c ∈ e.text, c ∈ ([45, 110, 101, 69] : Text) := by
    unfold isEchoOption at hoption
    split at hoption
    · next letters heq =>
      rw [heq]
      intro c hc
      rcases List.mem_cons.mp hc with rfl | hc
      · simp
      · have hall := (Bool.and_eq_true_iff.mp hoption).2
        have hletter : (c = 110 ∨ c = 101) ∨ c = 69 := by
          simpa using List.all_eq_true.mp hall c hc
        rcases hletter with (rfl | rfl) | rfl <;> simp
    · cases hoption
  refine colon_of_digits (fun d hd => ?_) hcolon
  apply option_digits (Base64.digits_lt d hd) e.urlSafe
  apply hletters
  exact List.mem_append_left _ (List.mem_map_of_mem hd)

/-- Texts with a colon are decoded as they should be. -/
theorem Encoded.decoded_text (hcolon : 58 ∈ e.data) {tools : Tools} (htools : tools.Standard) :
    decoded tools e.text = substitution e.data := by
  refine (decoded_iff _ _).mpr ((e.encodes_iff _).mpr ?_) tools htools
  rw [e.not_option hcolon, if_neg Bool.false_ne_true]

end CodingLearners.ProxyScripts
