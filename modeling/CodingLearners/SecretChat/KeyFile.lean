import CodingLearners.Library.JsonText
import CodingLearners.SecretChat.Session

/-!
# The file that carries a public key

`create_current_public_key_accountinf` of `mqttclienta.js` writes it and the
`onload` of `fimportpeerkey` in `fileio.js` reads it: base64 of JSON. What forge
calls base64 takes octets, so an alias with other characters does not survive.

## Implementation notes

The two prompts are parameters; `none` is a prompt that was cancelled. The file
holds characters of the alphabet only, so its encoding is left out. A member of
the file that is there and no string is not modelled.
-/

namespace CodingLearners.SecretChat

open Js

variable {forge : Forge} (numbers : Numbers)

/-! ## Writing and reading -/

/-- The alias that goes into the file. -/
def accountAliasn (mqttAccountRandrom : JsString) (result : Option JsString) : JsString :=
  if numbers.ofText mqttAccountRandrom ≠ numbers.nan then
    match result with
    | some result =>
        if result ≠ [] then result ++ 45 :: mqttAccountRandrom else mqttAccountRandrom
    | none => mqttAccountRandrom
  else mqttAccountRandrom

/-- `JSON.stringify(accountss)` -/
def accountJson (publickey aliasn : JsString) : JsString :=
  stringifyMembers [(units "publickey", publickey), (units "aliasn", aliasn)]

/-- The name and the text of the saved file, if the user gives a name. -/
def fsavepublicinfo (publicaccount : JsString) (result : Option JsString) :
    Option (JsString × JsString) :=
  match result with
  | some result => if result ≠ [] then some (result, publicaccount) else none
  | none => none

def createCurrentPublicKeyAccountinf (page : Page forge) (result saveAs : Option JsString) :
    Option (JsString × JsString) :=
  match page.window.curretrsakey with
  | some key =>
      if key.publickey ≠ [] then
        let aliasn := accountAliasn numbers page.mqttAccountRandrom result
        fsavepublicinfo (encode64 (accountJson key.publickey aliasn)) saveAs
      else none
  | none => none

/-- A property as far as it is a string; a missing one is empty. -/
def peerField (peerj : JsonValue numbers.Double) (name : JsString) : Option JsString :=
  match property peerj name with
  | some none => some []
  | some (some (.string s)) => some s
  | _ => none

/-- `JSON.parse(forge.util.decode64(this.result))` -/
def readPeerFile (text : JsString) : Option PeerFile := do
  let peerj ← jsonParse numbers (decode64 text)
  let publickey ← peerField numbers peerj (units "publickey")
  let aliasn ← peerField numbers peerj (units "aliasn")
  return ⟨publickey, aliasn⟩

/-- The import of a file with this text. -/
def importFile (w : Window forge) (text : JsString) : Window forge :=
  fimportpeerkey w (readPeerFile numbers text)

/-! ## Octets -/

/-- Every character of the string is an octet, apart from lone surrogates. -/
def LatinText (s : JsString) : Prop := ∀ c, Symbol.scalar c ∈ symbols s → c.toNat < 256

theorem isBinary_of_all {s : JsString} (h : s.all (fun u => decide (u.toNat < 256)) = true) :
    IsBinary s := fun u hu => of_decide_eq_true (List.all_eq_true.mp h u hu)

theorem isBinary_append {s t : JsString} : IsBinary (s ++ t) ↔ IsBinary s ∧ IsBinary t := by
  simp [IsBinary, or_imp, forall_and]

theorem latinText_of_isBinary {s : JsString} (h : IsBinary s) : LatinText s := by
  intro c hc
  have hunits : ∀ u ∈ utf16 c.toNat, u.toNat < 256 := by
    intro u hu
    apply h
    rw [← flatMap_symbols s]
    exact List.mem_flatMap.mpr ⟨_, hc, hu⟩
  by_contra hlarge
  have hc := isScalar_char c
  rw [utf16] at hunits
  split at hunits
  · next hsmall =>
    have := hunits _ List.mem_cons_self
    rw [UInt16.toNat_ofNat', Nat.mod_eq_of_lt hsmall] at this
    exact hlarge this
  · next hsmall =>
    have := hunits _ List.mem_cons_self
    have hrange : c.toNat < 0x110000 := by
      cases hc with
      | inl h => omega
      | inr h => exact h.2
    rw [UInt16.toNat_ofNat', Nat.mod_eq_of_lt (by omega)] at this
    omega

theorem isBinary_textUnits {text : List Char} (h : ∀ c ∈ text, c.toNat < 256) :
    IsBinary (textUnits text) := by
  intro u hu
  obtain ⟨c, hc, hu⟩ := List.mem_flatMap.mp hu
  have hlt := h c hc
  rw [utf16_of_lt (by omega), List.mem_singleton] at hu
  rw [hu, UInt16.toNat_ofNat', Nat.mod_eq_of_lt (by omega)]
  exact hlt

theorem toNat_lt_of_isAlphanum {c : Char} (h : c.isAlphanum = true) : c.toNat < 256 := by
  delta Char.isAlphanum Char.isAlpha Char.isUpper Char.isLower Char.isDigit at h
  simp only [Bool.or_eq_true, Bool.and_eq_true, decide_eq_true_eq, ge_iff_le,
    UInt32.le_iff_toNat_le] at h
  change c.val.toNat < 256
  have hupper : 'Z'.val.toNat = 90 := rfl
  have hlower : 'z'.val.toNat = 122 := rfl
  have hdigit : '9'.val.toNat = 57 := rfl
  omega

/-- The escape of an octet, or of a lone surrogate, has octets only. -/
theorem toNat_lt_of_mem_quote {x : Symbol} {q : List Char} (hquote : Quote x q)
    (hx : ∀ c, x = .scalar c → c.toNat < 256) : ∀ d ∈ q, d.toNat < 256 := by
  cases hquote with
  | plain printable noMark noBackslash => simpa using hx _ rfl
  | mark => simp
  | escape special ascii =>
      intro d hd
      cases hd with
      | head => decide
      | tail _ hrest =>
          rcases ascii d hrest with halpha | rfl
          · exact toNat_lt_of_isAlphanum halpha
          · decide

theorem isBinary_stringify {s : JsString} (h : LatinText s) :
    IsBinary (textUnits (stringify s)) := by
  apply isBinary_textUnits
  intro d hd
  simp only [stringify, quoted, List.mem_cons, List.mem_append, List.mem_flatMap,
    List.not_mem_nil, or_false] at hd
  rcases hd with rfl | ⟨x, hx, hd⟩ | rfl
  · decide
  · exact toNat_lt_of_mem_quote (quote_spec x) (fun c hc => h c (hc ▸ hx)) d hd
  · decide

theorem isBinary_encodeGroup (r : UInt16) (a n : Option UInt16) :
    IsBinary (encodeGroup r a n) := by
  have halphabet : IsBinary alphabet := isBinary_of_all rfl
  have hchar : ∀ i, IsBinary (charAt alphabet i) := fun i u hu =>
    halphabet u (List.mem_of_getElem? (Option.mem_toList.mp hu))
  simp only [encodeGroup, isBinary_append]
  refine ⟨⟨hchar _, hchar _⟩, ?_⟩
  split
  · exact isBinary_of_all rfl
  · rw [isBinary_append]
    refine ⟨hchar _, ?_⟩
    split
    · exact isBinary_of_all rfl
    · exact hchar _

/-- Base64 is a text of octets itself. -/
theorem isBinary_encode64 (s : JsString) : IsBinary (encode64 s) := by
  fun_induction encode64 s with
  | case1 => exact isBinary_of_all rfl
  | case2 r => exact isBinary_encodeGroup r none none
  | case3 r a => exact isBinary_encodeGroup r (some a) none
  | case4 r a n rest ih => exact isBinary_append.mpr ⟨isBinary_encodeGroup r (some a) (some n), ih⟩

theorem isBinary_accountJson {publickey aliasn : JsString} (hkey : LatinText publickey)
    (halias : LatinText aliasn) : IsBinary (accountJson publickey aliasn) := by
  have hmember : ∀ name value, LatinText name → LatinText value →
      IsBinary (memberUnits (name, value)) := by
    intro name value hname hvalue
    rw [memberUnits, isBinary_append]
    refine ⟨isBinary_stringify hname, ?_⟩
    intro u hu
    cases hu with
    | head => decide
    | tail _ hu => exact isBinary_stringify hvalue u hu
  have hnames : LatinText (units "publickey") ∧ LatinText (units "aliasn") :=
    ⟨latinText_of_isBinary (isBinary_of_all rfl), latinText_of_isBinary (isBinary_of_all rfl)⟩
  have hfirst := hmember _ _ hnames.1 hkey
  have hsecond := hmember _ _ hnames.2 halias
  intro u hu
  simp only [accountJson, stringifyMembers, List.map_cons, List.map_nil,
    List.intercalate_cons_cons, List.intercalate_singleton, List.mem_cons, List.mem_append,
    List.not_mem_nil, or_false] at hu
  rcases hu with rfl | ((hu | rfl) | hu) | rfl
  · decide
  · exact hfirst u hu
  · decide
  · exact hsecond u hu
  · decide

theorem tableValue_lt {u : UInt16} (h : isBase64 u = true) : tableValue u < 128 := by
  have hall : alphabet.all fun u => decide (tableValue u < 128) := by decide
  exact of_decide_eq_true (List.all_eq_true.mp hall u (List.contains_iff_mem.mp h))

theorem decodeGroup_lt {t : Nat} {r a n : Option Nat} (ht : t < 128) (hr : ∀ v ∈ r, v < 128)
    (ha : ∀ v ∈ a, v < 128) (hn : ∀ v ∈ n, v < 128) :
    ∀ u ∈ decodeGroup t r a n, u.toNat < 512 := by
  have hbits : ∀ o : Option Nat, (∀ v ∈ o, v < 128) → o.getD 0 < 128 := by
    intro o ho
    cases o with
    | none => simp
    | some v => exact ho v rfl
  have hunit : ∀ {x y : Nat}, x < 512 → y < 512 → (UInt16.ofNat (x ||| y)).toNat < 512 := by
    intro x y hx hy
    have := Nat.or_lt_two_pow (n := 9) hx hy
    rw [UInt16.toNat_ofNat', Nat.mod_eq_of_lt (by omega)]
    exact this
  have hbr := hbits r hr
  have hba := hbits a ha
  have hbn := hbits n hn
  have h15 : 15 &&& r.getD 0 ≤ 15 := Nat.and_le_left
  have h3 : 3 &&& a.getD 0 ≤ 3 := Nat.and_le_left
  have hfirst := hunit (x := t <<< 2) (y := r.getD 0 >>> 4) (by rw [Nat.shiftLeft_eq]; omega)
    (by rw [Nat.shiftRight_eq_div_pow]; omega)
  have hsecond := hunit (x := (15 &&& r.getD 0) <<< 4) (y := a.getD 0 >>> 2)
    (by rw [Nat.shiftLeft_eq]; omega) (by rw [Nat.shiftRight_eq_div_pow]; omega)
  have hthird := hunit (x := (3 &&& a.getD 0) <<< 6) (y := n.getD 0)
    (by rw [Nat.shiftLeft_eq]; omega) (by omega)
  intro u hu
  simp only [decodeGroup, List.mem_append, List.mem_singleton] at hu
  rcases hu with rfl | hu
  · exact hfirst
  · split at hu
    · cases hu
    · rcases List.mem_append.mp hu with hu | hu
      · exact List.mem_singleton.mp hu ▸ hsecond
      · split at hu
        · cases hu
        · exact List.mem_singleton.mp hu ▸ hthird

/-- What is read from base64 has small characters only. -/
theorem decode64_lt (s : JsString) : ∀ u ∈ decode64 s, u.toNat < 512 := by
  have hvalues : ∀ v ∈ (s.filter isBase64).map tableValue, v < 128 := by
    intro v hv
    obtain ⟨u, hu, rfl⟩ := List.mem_map.mp hv
    exact tableValue_lt (List.mem_filter.mp hu).2
  have hnone : ∀ v ∈ (none : Option Nat), v < 128 := by simp
  rw [decode64]
  generalize (s.filter isBase64).map tableValue = values at hvalues
  fun_induction decodeGroups values with
  | case1 => simp
  | case2 t => exact decodeGroup_lt (hvalues t (by simp)) hnone hnone hnone
  | case3 t r => exact decodeGroup_lt (hvalues t (by simp)) (by simpa using hvalues r) hnone hnone
  | case4 t r a =>
      exact decodeGroup_lt (hvalues t (by simp)) (by simpa using hvalues r)
        (by simpa using hvalues a) hnone
  | case5 t r a n rest ih =>
      simp only [List.forall_mem_cons] at hvalues
      obtain ⟨ht, hr, ha, hn, hrest⟩ := hvalues
      intro u hu
      rcases List.mem_append.mp hu with hu | hu
      · exact decodeGroup_lt ht (by simpa using hr) (by simpa using ha) (by simpa using hn) u hu
      · exact ih hrest u hu

/-! ## The way back -/

/-- A file of octets is read back as it was written. -/
theorem readPeerFile_encode64 {publickey aliasn : JsString} (hkey : LatinText publickey)
    (halias : LatinText aliasn) :
    readPeerFile numbers (encode64 (accountJson publickey aliasn)) =
      some ⟨publickey, aliasn⟩ := by
  have hnames : units "publickey" ≠ units "aliasn" := by decide
  rw [readPeerFile, decode64_encode64 (isBinary_accountJson hkey halias), accountJson,
    jsonParse_stringifyMembers]
  simp [peerField, property, ownMember, hnames, hnames.symm]

variable {page : Page forge} {key : RsaKey forge} {number : Nat} {result saveAs : Option JsString}
  {file : JsString × JsString}

theorem createCurrentPublicKeyAccountinf_text (hkey : page.window.curretrsakey = some key)
    (hfile : createCurrentPublicKeyAccountinf numbers page result saveAs = some file) :
    key.publickey ≠ [] ∧ file.2 = encode64
      (accountJson key.publickey (accountAliasn numbers page.mqttAccountRandrom result)) := by
  simp only [createCurrentPublicKeyAccountinf, hkey, fsavepublicinfo] at hfile
  split at hfile
  · next hpub =>
    split at hfile
    · split at hfile
      · exact ⟨hpub, by rw [← Option.some.inj hfile]⟩
      · contradiction
    · contradiction
  · contradiction

/-- A character from U+0200 on is written as it is. -/
theorem large_mem_accountJson {publickey aliasn : JsString} {c : Char}
    (hc : Symbol.scalar c ∈ symbols aliasn) (hlarge : 512 ≤ c.toNat) :
    ∃ u ∈ accountJson publickey aliasn, 512 ≤ u.toNat := by
  have hplain : shortEscape c = none := by
    have hmark : c ≠ '"' := by
      rintro rfl
      exact absurd hlarge (by decide)
    have hback : c ≠ '\\' := by
      rintro rfl
      exact absurd hlarge (by decide)
    simp only [shortEscape, hmark, hback, if_false]
    split_ifs <;> first | rfl | omega
  have hquote : (Symbol.scalar c).quote = [c] := by
    rw [Symbol.quote, hplain]
    exact if_neg (by omega)
  have hunit : ∃ u ∈ utf16 c.toNat, 512 ≤ u.toNat := by
    have hrange : c.toNat < 0x110000 := by
      cases isScalar_char c with
      | inl h => omega
      | inr h => exact h.2
    rw [utf16]
    split
    · next hsmall =>
      refine ⟨_, List.mem_singleton_self _, ?_⟩
      rwa [UInt16.toNat_ofNat', Nat.mod_eq_of_lt hsmall]
    · next hsmall =>
      refine ⟨_, List.mem_cons_self, ?_⟩
      rw [UInt16.toNat_ofNat', Nat.mod_eq_of_lt (by omega)]
      omega
  obtain ⟨u, hu, hularge⟩ := hunit
  have hmem : u ∈ textUnits (stringify aliasn) := by
    refine List.mem_flatMap.mpr ⟨c, ?_, hu⟩
    have hquoted : c ∈ quoted aliasn := List.mem_flatMap.mpr ⟨_, hc, by simp [hquote]⟩
    simp [stringify, hquoted]
  refine ⟨u, ?_, hularge⟩
  simp [accountJson, stringifyMembers, memberUnits, List.intercalate_cons_cons, hmem]

/-- What the page saves for its key is read back as that key, with the alias of the prompt. -/
theorem readPeerFile_exported
    (hlatin : LatinText (accountAliasn numbers page.mqttAccountRandrom result))
    {seed : forge.Seed} (hkey : page.window.curretrsakey = some (getrsakey forge seed))
    (hfile : createCurrentPublicKeyAccountinf numbers page result saveAs = some file) :
    readPeerFile numbers file.2 =
      some ⟨(getrsakey forge seed).publickey,
        accountAliasn numbers page.mqttAccountRandrom result⟩ := by
  rw [(createCurrentPublicKeyAccountinf_text numbers hkey hfile).2]
  exact readPeerFile_encode64 numbers (latinText_of_isBinary (isBinary_encode64 _)) hlatin

/-- The saved file gives back key and alias if the alias has no character above
U+00FF, and no longer holds the JSON text if it has one from U+0200 on. -/
theorem exported_file (forge : Forge) (numbers : Numbers) (page : Page forge) (seed : forge.Seed)
    (hkey : page.window.curretrsakey = some (getrsakey forge seed))
    (result saveAs : Option JsString) (file : JsString × JsString)
    (hfile : createCurrentPublicKeyAccountinf numbers page result saveAs = some file) :
    let aliasn := accountAliasn numbers page.mqttAccountRandrom result
    (LatinText aliasn →
      readPeerFile numbers file.2 = some ⟨(getrsakey forge seed).publickey, aliasn⟩) ∧
    ((∃ c, Symbol.scalar c ∈ symbols aliasn ∧ 512 ≤ c.toNat) →
      decode64 file.2 ≠ accountJson (getrsakey forge seed).publickey aliasn) := by
  intro aliasn
  refine ⟨fun hlatin => readPeerFile_exported numbers hlatin hkey hfile, ?_⟩
  rintro ⟨c, hc, hlarge⟩ heq
  obtain ⟨u, hu, hularge⟩ : ∃ u ∈ accountJson (getrsakey forge seed).publickey aliasn,
      512 ≤ u.toNat := large_mem_accountJson hc hlarge
  rw [← heq] at hu
  exact absurd (decode64_lt _ u hu) (Nat.not_lt.mpr hularge)

/-- Texts of digits are numbers, as far as `isNaN` is concerned. -/
def accountNumbers : Numbers where
  Double := Option JsString
  decidableEq := inferInstance
  nan := none
  ofText s := if s.all isDigit then some s else none
  toText d := d.getD (units "NaN")
  add _ _ := none

/-- A page with account number 7 that has created a key. -/
def keyPage : Page paddingForge :=
  { (pageOnload 7 : Page paddingForge) with
    window := creatensskey (onload paddingForge) ([1] : List UInt8) }

/-- The alias `usr-7` survives, and `\u7528-7` does not. -/
theorem exported_file_twoAliases :
    (∃ file, createCurrentPublicKeyAccountinf accountNumbers keyPage (some (units "usr"))
        (some (units "f")) = some file ∧
      (readPeerFile accountNumbers file.2).map PeerFile.aliasn = some (units "usr-7")) ∧
    ∃ file, createCurrentPublicKeyAccountinf accountNumbers keyPage (some [0x7528])
        (some (units "f")) = some file ∧
      decode64 file.2 ≠ accountJson (getrsakey paddingForge [1]).publickey [0x7528, 45, 55] := by
  have hkey : keyPage.window.curretrsakey = some (getrsakey paddingForge [1]) := rfl
  constructor
  · obtain ⟨file, hfile⟩ := Option.isSome_iff_exists.mp (show (createCurrentPublicKeyAccountinf
      accountNumbers keyPage (some (units "usr")) (some (units "f"))).isSome = true by
        decide +kernel)
    have halias : accountAliasn accountNumbers keyPage.mqttAccountRandrom (some (units "usr")) =
        units "usr-7" := by decide
    refine ⟨file, hfile, ?_⟩
    rw [(exported_file paddingForge accountNumbers keyPage [1] hkey _ _ file hfile).1
      (latinText_of_isBinary (isBinary_of_all (by decide))), Option.map_some, halias]
  · obtain ⟨file, hfile⟩ := Option.isSome_iff_exists.mp (show (createCurrentPublicKeyAccountinf
      accountNumbers keyPage (some [0x7528]) (some (units "f"))).isSome = true by decide +kernel)
    have halias : accountAliasn accountNumbers keyPage.mqttAccountRandrom (some [0x7528]) =
        [0x7528, 45, 55] := by decide
    refine ⟨file, hfile, ?_⟩
    have h := (exported_file paddingForge accountNumbers keyPage [1] hkey _ _ file hfile).2
    rw [halias] at h
    exact h ⟨Char.ofNat 0x7528, by simp [symbols, isLead, isTrail], by decide⟩

end CodingLearners.SecretChat
