import CodingLearners.LinkFilter.Deduplication
import CodingLearners.LinkFilter.Endpoints

/-!
# Keys and servers

A link with its address as text has the text `address:port` as its key, a `vmess`
link the address and the port without anything between them. So the two kinds
never share a key, and digits can move between an address and a port.
-/

namespace CodingLearners.LinkFilter

open Js

/-- The two ways in which a link carries its address. -/
inductive LinkKind
  | url
  | vmess
  deriving DecidableEq

/-- The address and the port of a link as they are written. -/
structure Endpoint where
  kind : LinkKind
  address : JsString
  port : JsString
  deriving DecidableEq

/-- The texts of `add` and `port`, if `+` concatenates them. -/
def vmessTexts (host : Host) (link : JsString) : Option (JsString × JsString) := do
  let dejson ← jsonParse host.numbers (← decode (link.drop 8))
  match ← toSummand host.numbers (← property dejson (units "add")) with
  | .text address =>
      return (address, ← operandText host.numbers (← property dejson (units "port")))
  | .number _ => none

/-- The second pass finds this IPv4 address and this port in the link, both
written in digits. -/
def HasEndpoint (host : Host) (link : JsString) (e : Endpoint) : Prop :=
  IsAddress e.address ∧
    match e.kind with
    | .url =>
        isUrlLink link = true ∧ linkMatch link = some (e.address ++ 58 :: e.port) ∧
          IsNumeral e.port ∧ decimalValue e.port < 100000
    | .vmess =>
        startsWith link vmess = true ∧ AllDigits e.port ∧ e.port ≠ [] ∧
          vmessTexts host link = some (e.address, e.port)

namespace Endpoint

/-- The server: the four numbers of the address, and the port. -/
def server (e : Endpoint) : List Nat × Nat :=
  ((e.address.splitOn 46).map decimalValue, decimalValue e.port)

/-- The text of the key. -/
def key (e : Endpoint) : JsString :=
  match e.kind with
  | .url => e.address ++ 58 :: e.port
  | .vmess => e.address ++ e.port

/-- The second one has `digits` at the end of its address and the first one has
them at the front of its port, or the other way round. -/
def Shifted (digits : JsString) (e₁ e₂ : Endpoint) : Prop :=
  e₂.address = e₁.address ++ digits ∧ e₁.port = digits ++ e₂.port ∨
    e₁.address = e₂.address ++ digits ∧ e₂.port = digits ++ e₁.port

/-- The same address and port, up to zeros that have moved from one to the other. -/
def SpelledAlike (e₁ e₂ : Endpoint) : Prop :=
  e₁.kind = e₂.kind ∧ ∃ zeros : JsString, (∀ u ∈ zeros, u = 48) ∧ Shifted zeros e₁ e₂

/-- The two have the same server and are written alike, or have two servers and no
digits that could stand in the address of the one and in the port of the other. -/
def ToldApart (e₁ e₂ : Endpoint) : Prop :=
  if e₁.server = e₂.server then SpelledAlike e₁ e₂
  else ¬ (e₁.kind = .vmess ∧ e₂.kind = .vmess ∧ ∃ digits ≠ [], Shifted digits e₁ e₂)

/-- What an endpoint of a link always is. -/
structure Valid (e : Endpoint) : Prop where
  address : IsAddress e.address
  digits : AllDigits e.port
  nonempty : e.port ≠ []
  numeral : e.kind = .url → IsNumeral e.port

end Endpoint

variable {host : Host} {link : JsString} {e e₁ e₂ : Endpoint}

theorem HasEndpoint.valid (h : HasEndpoint host link e) : e.Valid := by
  obtain ⟨haddress, hkind⟩ := h
  cases hk : e.kind with
  | url =>
      simp only [hk] at hkind
      obtain ⟨-, -, hport, -⟩ := hkind
      exact ⟨haddress, hport.digits, hport.nonempty, fun _ => hport⟩
  | vmess =>
      simp only [hk] at hkind
      obtain ⟨-, hdigits, hnonempty, -⟩ := hkind
      exact ⟨haddress, hdigits, hnonempty, fun hurl => by simp [hk] at hurl⟩

/-- A text and a value with a text are concatenated. -/
theorem plus_text {numbers : Numbers} {left right : Option (JsonValue numbers.Double)}
    {s t : JsString} (hleft : toSummand numbers left = some (.text s))
    (hright : operandText numbers right = some t) :
    plus numbers left right = some (.text (s ++ t)) := by
  have hs : operandText numbers left = some s := by
    cases left with
    | none => simp [toSummand] at hleft
    | some value => cases value <;> simp_all [toSummand, operandText]
  have hsummand : ∃ k, toSummand numbers right = some k := by
    cases right with
    | none => exact ⟨_, rfl⟩
    | some value => cases value <;> simp_all [toSummand, operandText]
  obtain ⟨k, hk⟩ := hsummand
  simp only [plus, hleft, hk, hs, hright]
  cases k <;> rfl

/-- The two texts are what the key of a `vmess` link is made of. -/
theorem linkKey_of_vmessTexts {address port : JsString} (hstart : startsWith link vmess = true)
    (h : vmessTexts host link = some (address, port)) :
    linkKey host link = some (some (.text (address ++ port))) := by
  simp only [vmessTexts, bind, Option.bind_eq_some_iff] at h
  obtain ⟨text, htext, dejson, hjson, add, hadd, summand, hsummand, h⟩ := h
  cases summand with
  | number d => contradiction
  | text s =>
      simp only [Option.bind_eq_some_iff] at h
      obtain ⟨value, hvalue, t, ht, heq⟩ := h
      obtain ⟨rfl, rfl⟩ := Prod.mk.inj (Option.some.inj heq)
      simp [linkKey, isUrlLink_of_vmess hstart, htext, hjson, hadd, hvalue, plus_text hsummand ht]

/-- The second pass looks the link up under the text of its endpoint. -/
theorem HasEndpoint.seenKey_eq (h : HasEndpoint host link e) :
    seenKey host link = some (.text e.key) := by
  obtain ⟨haddress, hkind⟩ := h
  rw [seenKey, Endpoint.key]
  cases hk : e.kind with
  | url =>
      simp only [hk, linkKey] at hkind ⊢
      obtain ⟨hurl, hmatch, hport, hlt⟩ := hkind
      have haccepts : regexipport.rmatch (e.address ++ 58 :: e.port) = true :=
        regexipport_rmatch_iff.mpr ⟨e.address, e.port, rfl, haddress, hport, hlt⟩
      simp only [hurl, hmatch, if_true, Option.bind_some, if_pos haccepts, Option.join_some]
  | vmess =>
      simp only [hk] at hkind ⊢
      obtain ⟨hstart, -, -, htexts⟩ := hkind
      rw [linkKey_of_vmessTexts hstart htexts]
      rfl

/-! ## Digits that move -/

theorem splitOn_dotted {a b c d : JsString} (ha : AllDigits a) (hb : AllDigits b)
    (hc : AllDigits c) (hd : AllDigits d) : (dotted a b c d).splitOn 46 = [a, b, c, d] := by
  have hnot : ∀ {s : JsString}, AllDigits s → 46 ∉ s := fun h hmem =>
    absurd (h 46 hmem) (by decide)
  rw [dotted, List.splitOn_append_cons_self_of_not_mem (hnot ha),
    List.splitOn_append_cons_self_of_not_mem (hnot hb),
    List.splitOn_append_cons_self_of_not_mem (hnot hc), List.splitOn_eq_singleton (hnot hd)]

/-- Digits behind an address that leave its numbers as they are are zeros. -/
theorem zeros_of_numbers_eq {address digits : JsString} (haddress : IsAddress address)
    (hdigits : AllDigits digits)
    (hsame : ((address ++ digits).splitOn 46).map decimalValue =
      (address.splitOn 46).map decimalValue) : ∀ u ∈ digits, u = 48 := by
  obtain ⟨a, b, c, d, rfl, ha, hb, hc, hd⟩ := haddress
  have hlast : AllDigits (d ++ digits) := by
    intro u hu
    rcases List.mem_append.mp hu with hu | hu
    · exact hd.digits u hu
    · exact hdigits u hu
  have happend : dotted a b c d ++ digits = dotted a b c (d ++ digits) := by simp [dotted]
  rw [happend, splitOn_dotted ha.digits hb.digits hc.digits hlast,
    splitOn_dotted ha.digits hb.digits hc.digits hd.digits] at hsame
  have hvalue : decimalValue (d ++ digits) = decimalValue d := by simpa using hsame
  rw [decimalValue_append] at hvalue
  apply (decimalValue_eq_zero_iff hdigits).mp
  have hgrow : decimalValue d * 1 ≤ decimalValue d * 10 ^ digits.length :=
    Nat.mul_le_mul_left _ (Nat.one_le_pow _ _ (by decide))
  omega

namespace Endpoint

theorem shifted_nil_iff : Shifted [] e₁ e₂ ↔ e₁.address = e₂.address ∧ e₁.port = e₂.port := by
  simp [Shifted, eq_comm]

/-- The key of a `vmess` link has no colon. -/
theorem colon_notMem_key (h : e.Valid) (hkind : e.kind = .vmess) : 58 ∉ e.key := by
  simp only [key, hkind, List.mem_append, not_or]
  exact ⟨h.address.colon_notMem, colon_notMem_digits h.digits⟩

theorem key_ne_of_kind (h₁ : e₁.Valid) (h₂ : e₂.Valid) (hkind : e₁.kind ≠ e₂.kind) :
    e₁.key ≠ e₂.key := by
  intro heq
  cases hk₁ : e₁.kind with
  | url =>
      cases hk₂ : e₂.kind with
      | url => exact hkind (hk₁.trans hk₂.symm)
      | vmess =>
          apply colon_notMem_key h₂ hk₂
          rw [← heq]
          simp [key, hk₁]
  | vmess =>
      cases hk₂ : e₂.kind with
      | vmess => exact hkind (hk₁.trans hk₂.symm)
      | url =>
          apply colon_notMem_key h₁ hk₁
          rw [heq]
          simp [key, hk₂]

theorem key_eq_iff_url (h₁ : e₁.Valid) (hk₁ : e₁.kind = .url) (hk₂ : e₂.kind = .url) :
    e₁.key = e₂.key ↔ Shifted [] e₁ e₂ := by
  rw [shifted_nil_iff, key, key, hk₁, hk₂]
  exact endpoint_inj h₁.address h₁.digits

theorem key_eq_iff_vmess (hk₁ : e₁.kind = .vmess) (hk₂ : e₂.kind = .vmess) :
    e₁.key = e₂.key ↔ ∃ digits, Shifted digits e₁ e₂ := by
  simp only [key, hk₁, hk₂, List.append_eq_append_iff, Shifted, exists_or]

/-- Digits that leave the server as it is are zeros. -/
theorem zeros_of_server_eq (h₁ : e₁.Valid) (h₂ : e₂.Valid) (hserver : e₁.server = e₂.server)
    {digits : JsString} (hshifted : Shifted digits e₁ e₂) : ∀ u ∈ digits, u = 48 := by
  have hnumbers := congrArg Prod.fst hserver
  simp only [server] at hnumbers
  rcases hshifted with ⟨haddress, hport⟩ | ⟨haddress, hport⟩
  · rw [haddress] at hnumbers
    apply zeros_of_numbers_eq h₁.address _ hnumbers.symm
    intro u hu
    exact h₁.digits u (by simp [hport, hu])
  · rw [haddress] at hnumbers
    apply zeros_of_numbers_eq h₂.address _ hnumbers
    intro u hu
    exact h₂.digits u (by simp [hport, hu])

/-- A port without leading zero cannot give any zeros away. -/
theorem nil_of_shifted (h₁ : e₁.Valid) (h₂ : e₂.Valid) (hk₁ : e₁.kind = .url)
    (hk₂ : e₂.kind = .url) {zeros : JsString} (hzeros : ∀ u ∈ zeros, u = 48)
    (hshifted : Shifted zeros e₁ e₂) : zeros = [] := by
  cases zeros with
  | nil => rfl
  | cons u rest =>
      obtain rfl := hzeros u List.mem_cons_self
      rcases hshifted with ⟨-, hport⟩ | ⟨-, hport⟩
      · exact absurd (by rw [hport]; rfl) (h₁.numeral hk₁).noLeadingZero
      · exact absurd (by rw [hport]; rfl) (h₂.numeral hk₂).noLeadingZero

theorem server_eq_of_shifted_nil (h : Shifted [] e₁ e₂) : e₁.server = e₂.server := by
  obtain ⟨haddress, hport⟩ := shifted_nil_iff.mp h
  rw [server, server, haddress, hport]

theorem faithful_iff_url (h₁ : e₁.Valid) (h₂ : e₂.Valid) (hk₁ : e₁.kind = .url)
    (hk₂ : e₂.kind = .url) : (e₁.key = e₂.key ↔ e₁.server = e₂.server) ↔ ToldApart e₁ e₂ := by
  rw [key_eq_iff_url h₁ hk₁ hk₂, ToldApart]
  by_cases hserver : e₁.server = e₂.server
  · rw [if_pos hserver, iff_true_right hserver, SpelledAlike]
    constructor
    · intro hshifted
      exact ⟨hk₁.trans hk₂.symm, [], by simp, hshifted⟩
    · rintro ⟨-, zeros, hzeros, hshifted⟩
      obtain rfl := nil_of_shifted h₁ h₂ hk₁ hk₂ hzeros hshifted
      exact hshifted
  · rw [if_neg hserver, iff_false_right hserver]
    constructor
    · intro _ h
      rw [hk₁] at h
      exact absurd h.1 (by simp)
    · intro _ hshifted
      exact hserver (server_eq_of_shifted_nil hshifted)

theorem faithful_iff_vmess (h₁ : e₁.Valid) (h₂ : e₂.Valid) (hk₁ : e₁.kind = .vmess)
    (hk₂ : e₂.kind = .vmess) : (e₁.key = e₂.key ↔ e₁.server = e₂.server) ↔ ToldApart e₁ e₂ := by
  rw [key_eq_iff_vmess hk₁ hk₂, ToldApart]
  by_cases hserver : e₁.server = e₂.server
  · rw [if_pos hserver, iff_true_right hserver, SpelledAlike]
    constructor
    · rintro ⟨digits, hshifted⟩
      exact ⟨hk₁.trans hk₂.symm, digits, zeros_of_server_eq h₁ h₂ hserver hshifted, hshifted⟩
    · rintro ⟨-, zeros, -, hshifted⟩
      exact ⟨zeros, hshifted⟩
  · rw [if_neg hserver, iff_false_right hserver]
    apply not_congr
    constructor
    · rintro ⟨digits, hshifted⟩
      refine ⟨hk₁, hk₂, digits, ?_, hshifted⟩
      rintro rfl
      exact hserver (server_eq_of_shifted_nil hshifted)
    · rintro ⟨-, -, digits, -, hshifted⟩
      exact ⟨digits, hshifted⟩

/-- Endpoints of two kinds have two keys, so they are told apart unless they are the same. -/
theorem faithful_iff_of_kind (h₁ : e₁.Valid) (h₂ : e₂.Valid) (hkind : e₁.kind ≠ e₂.kind) :
    (e₁.key = e₂.key ↔ e₁.server = e₂.server) ↔ ToldApart e₁ e₂ := by
  rw [iff_false_left (key_ne_of_kind h₁ h₂ hkind), ToldApart]
  by_cases hserver : e₁.server = e₂.server
  · rw [if_pos hserver]
    exact ⟨fun h => absurd hserver h, fun h => absurd h.1 hkind⟩
  · rw [if_neg hserver]
    exact ⟨fun _ h => hkind (h.1.trans h.2.1.symm), fun _ => hserver⟩

/-- The text of the key is as good as the server exactly for endpoints that are told apart. -/
theorem key_eq_iff_server_eq (h₁ : e₁.Valid) (h₂ : e₂.Valid) :
    (e₁.key = e₂.key ↔ e₁.server = e₂.server) ↔ ToldApart e₁ e₂ := by
  cases hk₁ : e₁.kind with
  | url =>
      cases hk₂ : e₂.kind with
      | url => exact faithful_iff_url h₁ h₂ hk₁ hk₂
      | vmess => exact faithful_iff_of_kind h₁ h₂ (by simp [hk₁, hk₂])
  | vmess =>
      cases hk₂ : e₂.kind with
      | url => exact faithful_iff_of_kind h₁ h₂ (by simp [hk₁, hk₂])
      | vmess => exact faithful_iff_vmess h₁ h₂ hk₁ hk₂

end Endpoint

/-- Two links have the same key exactly if they have the same server, if and only
if they are told apart. -/
theorem key_faithful_iff {link₁ link₂ : JsString} (h₁ : HasEndpoint host link₁ e₁)
    (h₂ : HasEndpoint host link₂ e₂) :
    (seenKey host link₁ = seenKey host link₂ ↔ e₁.server = e₂.server) ↔
      e₁.ToldApart e₂ := by
  rw [h₁.seenKey_eq, h₂.seenKey_eq, ← Endpoint.key_eq_iff_server_eq h₁.valid h₂.valid]
  simp

/-! ## Small links -/

def vlessLink : JsString := units "vless://x@1.2.3.4:443?#US_"

/-- The object has `add` `1.2.3.4` and `port` 443. -/
def vmessLink : JsString :=
  units "vmess://eyJhZGQiOiIxLjIuMy40IiwicHMiOiJVU18iLCJuZXQiOiIiLCJwb3J0Ijo0NDN9"

/-- The object has `add` `1.2.3.4` and `port` 43. -/
def vmessLink43 : JsString :=
  units "vmess://eyJhZGQiOiIxLjIuMy40IiwicHMiOiJVU18iLCJuZXQiOiIiLCJwb3J0Ijo0M30="

/-- The object has `add` `1.2.3.44` and `port` 3. -/
def vmessLink3 : JsString :=
  units "vmess://eyJhZGQiOiIxLjIuMy40NCIsInBzIjoiVVNfIiwibmV0IjoiIiwicG9ydCI6M30="

theorem isAddress_44 : IsAddress (units "1.2.3.44") :=
  ⟨units "1", units "2", units "3", units "44", by decide, isOctet_one.mpr (by decide),
    isOctet_one.mpr (by decide), isOctet_one.mpr (by decide),
    isOctet_two.mpr ⟨by decide, by decide⟩⟩

theorem vlessLink_endpoint :
    HasEndpoint smallHost vlessLink ⟨.url, units "1.2.3.4", units "443"⟩ :=
  ⟨isAddress_example, by decide, by decide +kernel, ⟨by decide, by decide, by decide⟩, by decide⟩

theorem vmessLink_endpoint :
    HasEndpoint smallHost vmessLink ⟨.vmess, units "1.2.3.4", units "443"⟩ :=
  ⟨isAddress_example, by decide, by decide, by decide, by decide +kernel⟩

theorem vmessLink3_endpoint :
    HasEndpoint smallHost vmessLink3 ⟨.vmess, units "1.2.3.44", units "3"⟩ :=
  ⟨isAddress_44, by decide, by decide, by decide, by decide +kernel⟩

theorem vmessLink43_endpoint :
    HasEndpoint smallHost vmessLink43 ⟨.vmess, units "1.2.3.4", units "43"⟩ :=
  ⟨isAddress_example, by decide, by decide, by decide, by decide +kernel⟩

/-- A `vless` and a `vmess` link with different ports have different keys. -/
theorem key_faithful_twoPorts :
    seenKey smallHost vlessLink = seenKey smallHost vmessLink43 ↔
      Endpoint.server ⟨.url, units "1.2.3.4", units "443"⟩ =
        Endpoint.server ⟨.vmess, units "1.2.3.4", units "43"⟩ :=
  (key_faithful_iff vlessLink_endpoint vmessLink43_endpoint).mpr (by
    rw [Endpoint.ToldApart, if_neg (by decide +kernel)]
    simp)

/-- The same server is listed twice, as a `vless` and as a `vmess` link; and without
the box for the port, of two servers with keys of the same digits one is listed. -/
theorem servers_confused :
    (filterAndDeduplicateLinks smallHost (.uswsfilter true false true)
        (vlessLink ++ 10 :: vmessLink) = some (vlessLink ++ 10 :: vmessLink) ∧
      HasEndpoint smallHost vlessLink ⟨.url, units "1.2.3.4", units "443"⟩ ∧
      HasEndpoint smallHost vmessLink ⟨.vmess, units "1.2.3.4", units "443"⟩ ∧
      seenKey smallHost vlessLink ≠ seenKey smallHost vmessLink) ∧
    filterAndDeduplicateLinks smallHost (.uswsfilter true false false)
        (vmessLink43 ++ 10 :: vmessLink3) = some vmessLink43 ∧
      HasEndpoint smallHost vmessLink43 ⟨.vmess, units "1.2.3.4", units "43"⟩ ∧
      HasEndpoint smallHost vmessLink3 ⟨.vmess, units "1.2.3.44", units "3"⟩ ∧
      seenKey smallHost vmessLink43 = seenKey smallHost vmessLink3 := by
  have hdifferent : seenKey smallHost vlessLink ≠ seenKey smallHost vmessLink := by
    rw [vlessLink_endpoint.seenKey_eq, vmessLink_endpoint.seenKey_eq]
    decide
  have hequal : seenKey smallHost vmessLink43 = seenKey smallHost vmessLink3 := by
    rw [vmessLink43_endpoint.seenKey_eq, vmessLink3_endpoint.seenKey_eq]
    rfl
  exact ⟨⟨by decide +kernel, vlessLink_endpoint, vmessLink_endpoint, hdifferent⟩,
    by decide +kernel, vmessLink43_endpoint, vmessLink3_endpoint, hequal⟩

end CodingLearners.LinkFilter
