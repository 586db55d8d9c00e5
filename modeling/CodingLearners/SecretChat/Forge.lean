import CodingLearners.Library.JsString
import Mathlib.Algebra.Ring.Nat

/-!
# What the chat uses of forge

`encode64` and `decode64` are those of `forge.min.js`. Its RSA, PEM and MD5 are
the parameter `Forge`, and `Forge.Faithful` is what their documentation says.

## Implementation notes

forge keeps octets in the code units of a string. A unit that is read past the
end of the string is `none`: `NaN` for `charCodeAt`, `undefined` for the table.
-/

namespace CodingLearners.SecretChat

open Js

/-- Every unit is an octet. -/
def IsBinary (s : JsString) : Prop := ∀ u ∈ s, u.toNat < 256

instance (s : JsString) : Decidable (IsBinary s) := inferInstanceAs (Decidable (∀ u ∈ s, _))

/-! ## Base64 -/

def alphabet : JsString :=
  units "ABCDEFGHIJKLMNOPQRSTUVWXYZabcdefghijklmnopqrstuvwxyz0123456789+/="

def charAt (s : JsString) (i : Nat) : JsString := s[i]?.toList

/-- One turn of the loop of `encode64`. -/
def encodeGroup (r : UInt16) (a n : Option UInt16) : JsString :=
  let bits := fun (u : Option UInt16) => (u.map UInt16.toNat).getD 0
  charAt alphabet (r.toNat >>> 2) ++ charAt alphabet ((3 &&& r.toNat) <<< 4 ||| bits a >>> 4) ++
    if a.isNone then units "=="
    else charAt alphabet ((15 &&& bits a) <<< 2 ||| bits n >>> 6) ++
      if n.isNone then units "=" else charAt alphabet (63 &&& bits n)

def encode64 : JsString → JsString
  | [] => []
  | [r] => encodeGroup r none none
  | [r, a] => encodeGroup r (some a) none
  | r :: a :: n :: rest => encodeGroup r (some a) (some n) ++ encode64 rest

/-- The units that `/[^A-Za-z0-9\+\/\=]/g` leaves. -/
def isBase64 (u : UInt16) : Bool := alphabet.contains u

/-- The table of `decode64`, at these units. -/
def tableValue (u : UInt16) : Nat :=
  if 97 ≤ u.toNat then u.toNat - 71
  else if 65 ≤ u.toNat then u.toNat - 65
  else if u.toNat = 61 then 64
  else if 48 ≤ u.toNat then u.toNat + 4
  else if u.toNat = 47 then 63
  else 62

/-- One turn of the loop of `decode64`. -/
def decodeGroup (t : Nat) (r a n : Option Nat) : JsString :=
  let bits := fun (v : Option Nat) => v.getD 0
  [UInt16.ofNat (t <<< 2 ||| bits r >>> 4)] ++
    if a = some 64 then []
    else [UInt16.ofNat ((15 &&& bits r) <<< 4 ||| bits a >>> 2)] ++
      if n = some 64 then [] else [UInt16.ofNat ((3 &&& bits a) <<< 6 ||| bits n)]

def decodeGroups : List Nat → JsString
  | [] => []
  | [t] => decodeGroup t none none none
  | [t, r] => decodeGroup t (some r) none none
  | [t, r, a] => decodeGroup t (some r) (some a) none
  | t :: r :: a :: n :: rest => decodeGroup t (some r) (some a) (some n) ++ decodeGroups rest

def decode64 (s : JsString) : JsString := decodeGroups ((s.filter isBase64).map tableValue)

/-- A sextet's character, which the table reads back. -/
theorem charAt_alphabet {i : Nat} (h : i < 64) :
    ∃ u, charAt alphabet i = [u] ∧ isBase64 u = true ∧ tableValue u = i := by
  have hall : ∀ i < 64, (charAt alphabet i = [alphabet.getD i 0]) ∧
      isBase64 (alphabet.getD i 0) = true ∧ tableValue (alphabet.getD i 0) = i := by
    decide +kernel
  exact ⟨_, hall i h⟩

theorem and_low (k x : Nat) : (2 ^ k - 1) &&& x = x % 2 ^ k := by
  rw [Nat.and_comm, Nat.and_two_pow_sub_one_eq_mod]

theorem shift_or {k x y : Nat} (h : y < 2 ^ k) : x <<< k ||| y = x * 2 ^ k + y := by
  rw [← Nat.shiftLeft_add_eq_or_of_lt h, Nat.shiftLeft_eq]

/-- The sextets of three octets give the octets back. -/
theorem decodeGroup_sextets (r : Nat) {a n : Nat} (ha : a < 256) (hn : n < 256) :
    (r >>> 2 <<< 2 ||| ((3 &&& r) <<< 4 ||| a >>> 4) >>> 4) = r ∧
    ((15 &&& ((3 &&& r) <<< 4 ||| a >>> 4)) <<< 4 ||| ((15 &&& a) <<< 2 ||| n >>> 6) >>> 2) = a ∧
    ((3 &&& ((15 &&& a) <<< 2 ||| n >>> 6)) <<< 6 ||| (63 &&& n)) = n := by
  have h3 : ∀ x, 3 &&& x = x % 4 := and_low 2
  have h15 : ∀ x, 15 &&& x = x % 16 := and_low 4
  have h63 : ∀ x, 63 &&& x = x % 64 := and_low 6
  simp only [h3, h15, h63, Nat.shiftRight_eq_div_pow]
  rw [shift_or (k := 4) (x := r % 4) (by omega), shift_or (k := 2) (x := a % 16) (by omega),
    shift_or (by omega), shift_or (by omega), shift_or (by omega)]
  omega

/-- The sextets of octets are below 64. -/
theorem sextets_lt {r a n : Nat} (hr : r < 256) (ha : a < 256) (hn : n < 256) :
    r >>> 2 < 64 ∧ ((3 &&& r) <<< 4 ||| a >>> 4) < 64 ∧
      ((15 &&& a) <<< 2 ||| n >>> 6) < 64 ∧ (63 &&& n) < 64 := by
  have h3 : ∀ x, 3 &&& x = x % 4 := and_low 2
  have h15 : ∀ x, 15 &&& x = x % 16 := and_low 4
  have h63 : ∀ x, 63 &&& x = x % 64 := and_low 6
  simp only [h3, h15, h63, Nat.shiftRight_eq_div_pow]
  rw [shift_or (by omega), shift_or (by omega)]
  omega

theorem decode64_group (r a n : UInt16) (hr : r.toNat < 256) (ha : a.toNat < 256)
    (hn : n.toNat < 256) (rest : JsString) :
    decode64 (encodeGroup r (some a) (some n) ++ rest) = r :: a :: n :: decode64 rest := by
  obtain ⟨h1, h2, h3, h4⟩ := sextets_lt hr ha hn
  obtain ⟨u1, hu1, hb1, hv1⟩ := charAt_alphabet h1
  obtain ⟨u2, hu2, hb2, hv2⟩ := charAt_alphabet h2
  obtain ⟨u3, hu3, hb3, hv3⟩ := charAt_alphabet h3
  obtain ⟨u4, hu4, hb4, hv4⟩ := charAt_alphabet h4
  obtain ⟨ho1, ho2, ho3⟩ := decodeGroup_sextets r.toNat ha hn
  have hne3 : ¬ tableValue u3 = 64 := by omega
  have hne4 : ¬ tableValue u4 = 64 := by omega
  simp only [encodeGroup, Option.map_some, Option.getD_some, Option.isNone_some, hu1, hu2, hu3,
    hu4, decode64, Bool.false_eq_true, if_false, List.cons_append, List.nil_append,
    List.filter_cons, hb1, hb2, hb3, hb4, if_true, List.map_cons, decodeGroups, decodeGroup,
    Option.some.injEq, hne3, hne4]
  simp only [hv1, hv2, hv3, hv4, ho1, ho2, ho3, UInt16.ofNat_toNat]

theorem decode64_pair (r a : UInt16) (hr : r.toNat < 256) (ha : a.toNat < 256) :
    decode64 (encodeGroup r (some a) none) = [r, a] := by
  obtain ⟨h1, h2, h3, -⟩ := sextets_lt hr ha (show 0 < 256 by omega)
  obtain ⟨u1, hu1, hb1, hv1⟩ := charAt_alphabet h1
  obtain ⟨u2, hu2, hb2, hv2⟩ := charAt_alphabet h2
  obtain ⟨u3, hu3, hb3, hv3⟩ := charAt_alphabet h3
  obtain ⟨ho1, ho2, -⟩ := decodeGroup_sextets r.toNat ha (show 0 < 256 by omega)
  have hne3 : ¬ tableValue u3 = 64 := by omega
  have hpad : isBase64 61 = true ∧ tableValue 61 = 64 := by decide
  simp only [encodeGroup, Option.map_some, Option.getD_some, Option.isNone_some, hu1, hu2, hu3,
    Option.map_none, Option.getD_none, Option.isNone_none, decode64, Bool.false_eq_true, if_false,
    List.cons_append, List.nil_append, List.filter_cons, hb1, hb2, hb3, if_true, List.map_cons,
    show units "=" = [61] from rfl, hpad, List.filter_nil, List.map_nil, decodeGroups, decodeGroup,
    Option.some.injEq, hne3]
  simp only [hv1, hv2, hv3, ho1, ho2, UInt16.ofNat_toNat]

theorem decode64_single (r : UInt16) (hr : r.toNat < 256) :
    decode64 (encodeGroup r none none) = [r] := by
  obtain ⟨h1, h2, -, -⟩ := sextets_lt hr (show 0 < 256 by omega) (show 0 < 256 by omega)
  obtain ⟨u1, hu1, hb1, hv1⟩ := charAt_alphabet h1
  obtain ⟨u2, hu2, hb2, hv2⟩ := charAt_alphabet h2
  obtain ⟨ho1, -, -⟩ := decodeGroup_sextets r.toNat (show 0 < 256 by omega) (show 0 < 256 by omega)
  have hpad : isBase64 61 = true ∧ tableValue 61 = 64 := by decide
  simp only [encodeGroup, hu1, hu2, Option.map_none, Option.getD_none, Option.isNone_none,
    decode64, List.cons_append, List.nil_append, List.filter_cons, hb1, hb2, if_true,
    List.map_cons, show units "==" = [61, 61] from rfl, hpad, List.filter_nil, List.map_nil,
    decodeGroups, decodeGroup]
  simp only [hv1, hv2, Option.getD_some, ho1, UInt16.ofNat_toNat]

/-- `decode64` inverts `encode64` on octets. -/
theorem decode64_encode64 {s : JsString} (h : IsBinary s) : decode64 (encode64 s) = s := by
  fun_induction encode64 s with
  | case1 => rfl
  | case2 r => exact decode64_single r (h r (by simp))
  | case3 r a => exact decode64_pair r a (h r (by simp)) (h a (by simp))
  | case4 r a n rest ih =>
      rw [decode64_group r a n (h r (by simp)) (h a (by simp)) (h n (by simp)),
        ih fun u hu => h u (by simp [hu])]

/-! ## RSA, PEM and MD5 -/

/-- The functions of forge that are not embedded. A `Seed` is the randomness of
one call; `Matching` holds for the two halves of one 2048-bit key pair. -/
structure Forge where
  PublicKey : Type
  PrivateKey : Type
  Seed : Type
  Matching : PublicKey → PrivateKey → Prop
  generateKeyPair : Seed → PublicKey × PrivateKey
  publicKeyToPem : PublicKey → JsString
  privateKeyToPem : PrivateKey → JsString
  publicKeyFromPem : JsString → Option PublicKey
  privateKeyFromPem : JsString → Option PrivateKey
  /-- `publicKey.encrypt(m, "RSA-OAEP")`, which may throw -/
  encrypt : PublicKey → Seed → JsString → Option JsString
  /-- `privateKey.decrypt(c, "RSA-OAEP")`, which may throw -/
  decrypt : PrivateKey → JsString → Option JsString
  md5Hex : JsString → JsString

/-- What is documented of these functions. -/
structure Forge.Faithful (forge : Forge) : Prop where
  /-- RSA-OAEP takes up to 214 octets to 256 octets, and decryption takes them back. -/
  decrypt_encrypt : ∀ {pk sk}, forge.Matching pk sk → ∀ seed m, m.length ≤ 214 → IsBinary m →
    ∃ c, forge.encrypt pk seed m = some c ∧ c.length = 256 ∧ IsBinary c ∧
      forge.decrypt sk c = some m
  matching_generate : ∀ seed,
    forge.Matching (forge.generateKeyPair seed).1 (forge.generateKeyPair seed).2
  publicKeyFromPem_toPem : ∀ pk, forge.publicKeyFromPem (forge.publicKeyToPem pk) = some pk
  privateKeyFromPem_toPem : ∀ sk, forge.privateKeyFromPem (forge.privateKeyToPem sk) = some sk
  publicKeyToPem_binary : ∀ pk, IsBinary (forge.publicKeyToPem pk)
  privateKeyToPem_binary : ∀ sk, IsBinary (forge.privateKeyToPem sk)
  length_md5Hex : ∀ s, (forge.md5Hex s).length = 32

/-- Two strings that hold the two halves of one key pair. -/
def Forge.KeyPair (forge : Forge) (publickey privatekey : JsString) : Prop :=
  ∃ pk sk, forge.publicKeyFromPem (decode64 publickey) = some pk ∧
    forge.privateKeyFromPem (decode64 privatekey) = some sk ∧ forge.Matching pk sk

/-- An instance to compute with: a key is a list of octets, a block is padded
and carries its length in front, and a digest is the padded text. -/
def paddingForge : Forge where
  PublicKey := List UInt8
  PrivateKey := List UInt8
  Seed := List UInt8
  Matching pk sk := pk = sk
  generateKeyPair seed := (seed, seed)
  publicKeyToPem pk := pk.map UInt8.toUInt16
  privateKeyToPem sk := sk.map UInt8.toUInt16
  publicKeyFromPem s := some (s.map UInt16.toUInt8)
  privateKeyFromPem s := some (s.map UInt16.toUInt8)
  encrypt _ _ m :=
    if m.length ≤ 214 then
      some (UInt16.ofNat m.length :: (m ++ List.replicate (255 - m.length) 0))
    else none
  decrypt _
    | [] => none
    | n :: padded => if padded.length = 255 then some (padded.take n.toNat) else none
  md5Hex s := (s ++ List.replicate 32 48).take 32

/-! ## Keys as PEM -/

/-- What stands around the modulus in the DER form of a 2048-bit RSA public key whose
modulus has its top bit set and whose exponent is 65537. -/
def derFront : List Nat :=
  [0x30, 0x82, 0x01, 0x22, 0x30, 0x0d, 0x06, 0x09, 0x2a, 0x86, 0x48, 0x86, 0xf7, 0x0d, 0x01, 0x01,
    0x01, 0x05, 0x00, 0x03, 0x82, 0x01, 0x0f, 0x00, 0x30, 0x82, 0x01, 0x0a, 0x02, 0x82, 0x01, 0x01,
    0x00]

def derBack : List Nat := [0x02, 0x03, 0x01, 0x00, 0x01]

def pemHeader : JsString := units "-----BEGIN PUBLIC KEY-----\r\n"

def pemFooter : JsString := units "\r\n-----END PUBLIC KEY-----\r\n"

/-- The PEM of a key, its base64 in lines of 64 characters. -/
def publicKeyPem (modulus : List UInt8) : JsString :=
  let der := derFront ++ modulus.map UInt8.toNat ++ derBack
  pemHeader ++ List.intercalate (units "\r\n") ((encode64 (der.map UInt16.ofNat)).toChunks 64) ++
    pemFooter

/-- The key of which a text is the PEM. -/
def parsePublicKeyPem (s : JsString) : Option (List UInt8) :=
  let body := (s.drop pemHeader.length).take
    (s.length - pemHeader.length - pemFooter.length)
  let modulus := (((decode64 body).drop derFront.length).take 256).map UInt16.toUInt8
  if modulus.length = 256 ∧ 128 ≤ (modulus.headD 0).toNat ∧ s = publicKeyPem modulus then
    some modulus
  else none

/-- The 32 hexadecimal digits of a number. -/
def hexDigest (number : Nat) : JsString :=
  ((Nat.toDigits 16 (16 ^ 32 + number % 16 ^ 32)).drop 1).map fun c => c.toNat.toUInt16

/-- An instance whose public keys are read from real PEM texts: a key is its modulus,
and a block becomes 256 octets that hide nothing. -/
def pemForge : Forge where
  PublicKey := List UInt8
  PrivateKey := List UInt8
  Seed := List UInt8
  Matching pk sk := pk = sk
  generateKeyPair seed := (seed, seed)
  publicKeyToPem := publicKeyPem
  privateKeyToPem := publicKeyPem
  publicKeyFromPem := parsePublicKeyPem
  privateKeyFromPem := parsePublicKeyPem
  encrypt _ _ m :=
    if m.length ≤ 214 then
      some (0 :: UInt16.ofNat m.length :: (m ++ List.replicate (254 - m.length) 0))
    else none
  decrypt _
    | 0 :: n :: padded => if padded.length = 254 then some (padded.take n.toNat) else none
    | _ => none
  md5Hex s := hexDigest (s.foldl (fun digest u => digest * 257 + u.toNat) 0)

theorem map_toUInt8_toUInt16 (octets : List UInt8) :
    (octets.map UInt8.toUInt16).map UInt16.toUInt8 = octets := by
  induction octets with
  | nil => rfl
  | cons octet rest ih => simp [ih]

theorem isBinary_toUInt16 (octets : List UInt8) : IsBinary (octets.map UInt8.toUInt16) := by
  intro u hu
  obtain ⟨octet, -, rfl⟩ := List.mem_map.mp hu
  exact octet.toNat_lt

theorem paddingForge_faithful : paddingForge.Faithful where
  decrypt_encrypt := by
    intro pk sk _ seed m hlen hbin
    have hpad : 255 - m.length + m.length = 255 := by omega
    refine ⟨UInt16.ofNat m.length :: (m ++ List.replicate (255 - m.length) 0), by
      simp [paddingForge, hlen], by simp; omega, ?_, ?_⟩
    · intro u hu
      simp only [List.mem_cons, List.mem_append, List.mem_replicate] at hu
      rcases hu with rfl | hu | ⟨-, rfl⟩
      · rw [UInt16.toNat_ofNat', Nat.mod_eq_of_lt (by omega)]
        omega
      · exact hbin u hu
      · decide
    · have hn : (UInt16.ofNat m.length).toNat = m.length := by
        rw [UInt16.toNat_ofNat', Nat.mod_eq_of_lt (by omega)]
      simp only [paddingForge, List.length_append, List.length_replicate, Nat.add_comm m.length,
        hpad, if_true, hn, List.take_left]
  matching_generate := fun _ => rfl
  publicKeyFromPem_toPem := fun pk => congrArg some (map_toUInt8_toUInt16 pk)
  privateKeyFromPem_toPem := fun sk => congrArg some (map_toUInt8_toUInt16 sk)
  publicKeyToPem_binary := isBinary_toUInt16
  privateKeyToPem_binary := isBinary_toUInt16
  length_md5Hex := fun s => by
    simp only [paddingForge, List.length_take, List.length_append, List.length_replicate]
    omega

end CodingLearners.SecretChat
