import CodingLearners.GcryptFile.Gcry
import CodingLearners.Library.CanonicalText

/-!
# Raw RSA

What libgcrypt documents about numbers, S-expressions and raw RSA, and what makes
a key file belong to a public key file. An implementation on canonical texts, with
the digest and the cipher of the key file left open, has all of it.
-/

namespace CodingLearners.GcryptFile

open CanonicalText

/-! ## The documentation -/

/-- The length of an element of an S-expression is kept in 16 bits, and so is that of
a list that is copied: the numbers of at most this many bytes fit every expression below. -/
def numberLimit : Nat := 65493

/-- Which S-expressions are RSA keys with which numbers, and which are ciphertexts. The
text of a regular one is read back: no element is empty or above the limit. -/
structure RsaView (gcry : Gcrypt) where
  Regular : gcry.Sexp → Prop
  IsPublicKey : gcry.Sexp → Nat → Nat → Prop
  IsPrivateKey : gcry.Sexp → Nat → Nat → Prop
  IsCiphertext : gcry.Sexp → Nat → Prop

/-- What libgcrypt does, as it is documented and as far as its limits go. -/
structure Documented (gcry : Gcrypt) (view : RsaView gcry) : Prop where
  mpiScan_usg : ∀ bytes, bytes.length < 2 ^ 31 →
    gcry.mpiScan bytes = some (BigEndian.value bytes, bytes.length)
  mpiPrintSize_usg : ∀ n, (BigEndian.print n).length ≤ numberLimit →
    gcry.mpiPrintSize n = (BigEndian.print n).length
  mpiPrint_usg : ∀ n len, (BigEndian.print n).length ≤ numberLimit →
    (BigEndian.print n).length ≤ len → gcry.mpiPrint n len = some (BigEndian.print n)
  /-- One more byte is needed than printed, for a final zero byte. -/
  sprint_size : ∀ s size, gcry.sexpSprintSize s = some size →
    (gcry.sexpSprint s size).1 + 1 = size ∧ (gcry.sexpSprint s size).2.length = size
  sprint_read : ∀ s size, view.Regular s → gcry.sexpSprintSize s = some size →
    gcry.sexpNew (gcry.sexpSprint s size).2 = some s
  /-- A number that fits is raised to the power of the public exponent. -/
  pkEncrypt_raw : ∀ {key n e}, view.IsPublicKey key n e → ∀ m,
    (BigEndian.print m).length ≤ numberLimit → ∃ data size ciph,
      gcry.sexpBuild "(data (flags raw) (value %m))" m = some data ∧
      gcry.sexpSprintSize data = some size ∧
      gcry.pkEncrypt data key = .ok ciph ∧ view.IsCiphertext ciph (m ^ e % n)
  /-- Whatever is encrypted, the power is taken modulo `n`. -/
  pkEncrypt_lt : ∀ {key n e data ciph}, view.IsPublicKey key n e →
    gcry.pkEncrypt data key = .ok ciph → ∃ c < n, view.IsCiphertext ciph c
  publicKey_size : ∀ {key n e}, view.IsPublicKey key n e →
    (BigEndian.print n).length ≤ numberLimit
  ciphertext_size : ∀ {ciph c}, view.IsCiphertext ciph c →
    (BigEndian.print c).length ≤ numberLimit →
    ∃ size < 2 ^ 31, gcry.sexpSprintSize ciph = some size
  ciphertext_regular : ∀ {ciph c}, view.IsCiphertext ciph c →
    (BigEndian.print c).length ≤ numberLimit → c ≠ 0 → view.Regular ciph
  /-- The number 0 has no bytes, and the length of an element may not begin with zero. -/
  ciphertext_zero : ∀ {ciph size}, view.IsCiphertext ciph 0 →
    gcry.sexpSprintSize ciph = some size → gcry.sexpNew (gcry.sexpSprint ciph size).2 = none
  pkDecrypt_raw : ∀ {key n d ciph c}, view.IsPrivateKey key n d → view.IsCiphertext ciph c →
    0 < c → c < n →
    ∃ plain, gcry.pkDecrypt ciph key = some plain ∧ gcry.sexpNthMpi plain 0 = some (c ^ d % n)

/-- A public key file and a key file with its password. -/
structure Keys where
  pubkeyFile : Bytes
  keyFile : Bytes
  passwd : Bytes
  n : Nat
  e : Nat
  d : Nat

/-- The password opens the key file, which holds the private key of the public one. -/
structure Keys.Matching (keys : Keys) (gcry : Gcrypt) (view : RsaView gcry) : Prop where
  pubkeyFile_size : keys.pubkeyFile.length < 2 ^ 31
  keyFile_size : keys.keyFile.length < 2 ^ 31
  pubkey : ∃ key, gcry.sexpNew keys.pubkeyFile = some key ∧ view.IsPublicKey key keys.n keys.e
  passwd_length : keys.passwd.length ≠ 0
  privkey : ∃ opened keyed aesHd text keypair pubk privk, gcry.cipherOpen = some opened ∧
    gcry.cipherSetkey opened (gcry.sha256 keys.passwd) = some keyed ∧
    gcry.cipherSetiv keyed ((gcry.sha256 keys.passwd).take 16) = some aesHd ∧
    gcry.cipherDecrypt aesHd keys.keyFile = some text ∧ gcry.sexpNew text = some keypair ∧
    gcry.sexpFindToken keypair "public-key" = some pubk ∧
    gcry.sexpFindToken keypair "private-key" = some privk ∧ view.IsPrivateKey privk keys.n keys.d
  modulus_pos : 0 < keys.n
  inverse : ∀ m < keys.n, (m ^ keys.e) ^ keys.d % keys.n = m

/-! ## An implementation -/

def ascii (literal : String) : Bytes := literal.toList.map fun c => UInt8.ofNat c.toNat

def atom (literal : String) : Option Token := some (.data (ascii literal))

/-- A list `(name number)`. -/
def numberFormat (name : String) : List (Option Token) :=
  [some .opened, atom name, none, some .closed]

def dataFormat : List (Option Token) :=
  [some .opened, atom "data", some .opened, atom "flags", atom "raw", some .closed] ++
    numberFormat "value" ++ [some .closed]

/-- A list `(name (rsa (number ...)...))`. -/
def rsaFormat (name : String) (numbers : List String) : List (Option Token) :=
  [some .opened, atom name, some .opened, atom "rsa"] ++ numbers.flatMap numberFormat ++
    [some .closed, some .closed]

def ciphertextFormat : List (Option Token) := rsaFormat "enc-val" ["a"]

def publicKeyFormat : List (Option Token) := rsaFormat "public-key" ["n", "e"]

def privateKeyFormat : List (Option Token) :=
  rsaFormat "private-key" ["n", "e", "d", "p", "q", "u"]

def keypairFormat : List (Option Token) :=
  [some .opened, atom "key-data"] ++ publicKeyFormat ++ privateKeyFormat ++ [some .closed]

/-- A list up to the parenthesis that closes it, `depth` parentheses being open. -/
def closedAt : Nat → List Token → List Token
  | depth, .opened :: tokens => .opened :: closedAt (depth + 1) tokens
  | depth, .closed :: tokens => .closed :: if depth ≤ 1 then [] else closedAt (depth - 1) tokens
  | depth, token :: tokens => token :: closedAt depth tokens
  | _, [] => []

/-- The first list that starts with a name. -/
def findToken (name : String) : List Token → Option (List Token)
  | token :: tokens =>
      if token = .opened ∧ tokens.head? = atom name then some (closedAt 0 (token :: tokens))
      else findToken name tokens
  | [] => none

/-- The byte strings of an expression, as numbers. -/
def nthMpi (tokens : List Token) (k : Nat) : Option Nat :=
  (tokens.filterMap fun
    | .data bytes => some (BigEndian.value bytes)
    | _ => none)[k]?

/-- A number above the limit is taken to end the process. -/
def rsaEncrypt (data key : List Token) : Except Failure (List Token) :=
  match numbers dataFormat data, numbers publicKeyFormat key with
  | some [m], some [n, e] =>
      if (BigEndian.print m).length ≤ numberLimit then
        .ok (build ciphertextFormat [m ^ e % n])
      else .error .abort
  | _, _ => .error .error

def rsaDecrypt (ciph key : List Token) : Option (List Token) :=
  match numbers ciphertextFormat ciph, numbers privateKeyFormat key with
  | some [c], some [n, _, d, _, _, _] => some [.data (BigEndian.print (c ^ d % n))]
  | _, _ => none

/-- A cipher handle is a key and an initialization vector. -/
def rawRsa (sha256 : Bytes → Bytes) (aesCfbDecrypt : Bytes → Bytes → Bytes → Option Bytes) :
    Gcrypt where
  Sexp := List Token
  Cipher := Bytes × Bytes
  sexpNew := readText
  sexpBuild format m :=
    if format = "(data (flags raw) (value %m))" then some (build dataFormat [m]) else none
  sexpSprintSize s := some ((text s).length + 1)
  sexpSprint s len := if len ≤ (text s).length then (0, []) else ((text s).length, text s ++ [0])
  sexpFindToken s name := findToken name s
  sexpNthMpi := nthMpi
  mpiScan bytes := some (BigEndian.value bytes, bytes.length)
  mpiPrintSize n := (BigEndian.print n).length
  mpiPrint n len := if (BigEndian.print n).length ≤ len then some (BigEndian.print n) else none
  pkEncrypt := rsaEncrypt
  pkDecrypt := rsaDecrypt
  cipherOpen := some ([], [])
  cipherSetkey handle key := some (key, handle.2)
  cipherSetiv handle iv := some (handle.1, iv)
  cipherDecrypt handle bytes := aesCfbDecrypt handle.1 handle.2 bytes
  sha256 := sha256

variable (sha256 : Bytes → Bytes) (aesCfbDecrypt : Bytes → Bytes → Bytes → Option Bytes)

def rawRsaView : RsaView (rawRsa sha256 aesCfbDecrypt) where
  Regular := fun tokens : List Token => .data [] ∉ tokens
  IsPublicKey key n e := numbers publicKeyFormat key = some [n, e] ∧ 0 < n ∧
    (BigEndian.print n).length ≤ numberLimit
  IsPrivateKey key n d := ∃ e p q u, numbers privateKeyFormat key = some [n, e, d, p, q, u]
  IsCiphertext ciph c := ciph = build ciphertextFormat [c]

theorem sexpSprint_rawRsa (tokens : List Token) {size : Nat}
    (hsize : (rawRsa sha256 aesCfbDecrypt).sexpSprintSize tokens = some size) :
    size = (text tokens).length + 1 ∧
      (rawRsa sha256 aesCfbDecrypt).sexpSprint tokens size =
        ((text tokens).length, text tokens ++ [0]) := by
  obtain rfl := Option.some.inj hsize
  exact ⟨rfl, if_neg (by omega)⟩

theorem emptyData_mem_ciphertext (c : Nat) :
    .data [] ∈ build ciphertextFormat [c] ↔ c = 0 := by
  have hformat : some (.data []) ∉ ciphertextFormat := by decide +kernel
  have hcount : ciphertextFormat.count none = 1 := by decide +kernel
  rw [mem_build_iff ciphertextFormat [c] hcount, or_iff_right hformat]
  simp [eq_comm (a := []), BigEndian.print_eq_nil_iff]

theorem length_text_ciphertext {c : Nat} (h : (BigEndian.print c).length ≤ numberLimit) :
    (text (build ciphertextFormat [c])).length + 1 < 2 ^ 31 := by
  have hsplit : build ciphertextFormat [c] = [.opened, .data (ascii "enc-val"), .opened,
      .data (ascii "rsa"), .opened, .data (ascii "a")] ++
        ([.data (BigEndian.print c)] ++ [.closed, .closed, .closed]) := rfl
  have hfront : (text [.opened, .data (ascii "enc-val"), .opened, .data (ascii "rsa"), .opened,
      .data (ascii "a")]).length < 100 := by decide +kernel
  have hnumber := length_tokenText_data_le (BigEndian.print c)
  rw [numberLimit] at h
  rw [hsplit, text_append, text_append, List.length_append, List.length_append]
  have hback : (text [.closed, .closed, .closed]).length = 3 := rfl
  have hone : text [.data (BigEndian.print c)] = tokenText (.data (BigEndian.print c)) :=
    List.append_nil _
  rw [hone]
  omega

theorem rawRsa_documented :
    Documented (rawRsa sha256 aesCfbDecrypt) (rawRsaView sha256 aesCfbDecrypt) where
  mpiScan_usg _ _ := rfl
  mpiPrintSize_usg _ _ := rfl
  mpiPrint_usg _ _ _ h := if_pos h
  sprint_size s size hsize := by
    obtain ⟨rfl, hsprint⟩ := sexpSprint_rawRsa sha256 aesCfbDecrypt s hsize
    rw [hsprint]
    exact ⟨rfl, List.length_append⟩
  sprint_read s size hregular hsize := by
    obtain ⟨-, hsprint⟩ := sexpSprint_rawRsa sha256 aesCfbDecrypt s hsize
    rw [hsprint]
    exact (readText_text s).trans (if_neg hregular)
  pkEncrypt_raw := by
    intro key n e hkey m hm
    have hcount : dataFormat.count none = 1 := by decide +kernel
    have hdata := numbers_build dataFormat [m] hcount
    obtain ⟨hkey, -, -⟩ := hkey
    refine ⟨build dataFormat [m], _, build ciphertextFormat [m ^ e % n], ?_, rfl, ?_, rfl⟩
    · simp [rawRsa]
    · simp only [rawRsa, rsaEncrypt, hdata, hkey, if_pos hm]
  pkEncrypt_lt := by
    intro key n e data ciph hkey hciph
    obtain ⟨hkey, hn, -⟩ := hkey
    simp only [rawRsa, rsaEncrypt, hkey] at hciph
    split at hciph
    · next m n' e' _ hnumbers =>
      obtain ⟨rfl, -⟩ : n = n' ∧ [e] = [e'] := List.cons.inj (Option.some.inj hnumbers)
      split at hciph
      · exact ⟨_, Nat.mod_lt _ hn, (Except.ok.inj hciph).symm⟩
      · cases hciph
    · cases hciph
  publicKey_size h := h.2.2
  ciphertext_size := by
    intro ciph c hciph hc
    change ciph = build ciphertextFormat [c] at hciph
    exact ⟨_, hciph ▸ length_text_ciphertext hc, rfl⟩
  ciphertext_regular := by
    intro ciph c hciph _ hc
    change ciph = build ciphertextFormat [c] at hciph
    rw [hciph]
    exact mt (emptyData_mem_ciphertext c).mp hc
  ciphertext_zero := by
    intro ciph size hciph hsize
    change ciph = build ciphertextFormat [0] at hciph
    obtain ⟨-, hsprint⟩ := sexpSprint_rawRsa sha256 aesCfbDecrypt ciph hsize
    rw [hsprint, hciph]
    exact (readText_text _).trans (if_pos ((emptyData_mem_ciphertext 0).mpr rfl))
  pkDecrypt_raw := by
    intro key n d ciph c hkey hciph _ _
    obtain ⟨e, p, q, u, hkey⟩ := hkey
    change ciph = build ciphertextFormat [c] at hciph
    have hcount : ciphertextFormat.count none = 1 := by decide +kernel
    have hnumbers := numbers_build ciphertextFormat [c] hcount
    refine ⟨[.data (BigEndian.print (c ^ d % n))], ?_, ?_⟩
    · simp only [rawRsa, rsaDecrypt, hciph, hnumbers, hkey]
    · simp [rawRsa, nthMpi]

/-! ## A small key -/

/-- The SHA-256 digest of the password `k`. -/
def smallDigest : Bytes :=
  [130, 84, 195, 41, 169, 40, 80, 246, 213, 57, 221, 55, 111, 72, 22, 238, 39, 100, 81, 125, 165,
  224, 35, 85, 20, 175, 67, 49, 100, 72, 13, 122]

/-- The key file of `n = 33` with `e = 3` and `d = 7`, encrypted with the password `k`. -/
def smallKeys : Keys where
  pubkeyFile := text (build publicKeyFormat [33, 3]) ++ [0]
  keyFile :=
    [17, 215, 53, 118, 232, 83, 95, 75, 134, 193, 100, 54, 114, 223, 199, 171, 123, 204, 11, 5,
    150, 93, 46, 197, 159, 164, 55, 119, 103, 180, 102, 3, 79, 114, 237, 55, 204, 77, 255, 126,
    140, 100, 158, 243, 203, 138, 96, 242, 88, 154, 142, 126, 254, 43, 78, 139, 249, 2, 135, 225,
    88, 154, 57, 119, 125, 204, 92, 140, 156, 150, 161, 105, 37, 28, 13, 56, 214, 84, 13, 244,
    209, 19, 134, 124, 28, 208, 114, 15, 50, 16, 137, 217, 224, 42, 228, 202, 116, 62, 147, 14,
    115, 164, 74, 233, 144, 84, 58, 93, 15, 184, 118, 16, 131, 24, 250, 236, 37, 132, 75, 50, 41,
    93]
  passwd := [107]
  n := 33
  e := 3
  d := 7

def smallKeypair : List Token := build keypairFormat [33, 3, 33, 3, 7, 3, 11, 4]

/-- The digest and the cipher, as far as the key file needs them. -/
def smallRsa : Gcrypt :=
  rawRsa (fun _ => smallDigest) fun key iv bytes =>
    if key = smallDigest ∧ iv = smallDigest.take 16 ∧ bytes = smallKeys.keyFile then
      some (text smallKeypair ++ [0])
    else none

def smallRsaView : RsaView smallRsa := rawRsaView _ _

theorem smallRsa_documented : Documented smallRsa smallRsaView := rawRsa_documented _ _

theorem findToken_smallKeypair_publicKey :
    findToken "public-key" smallKeypair = some (build publicKeyFormat [33, 3]) := by
  decide +kernel

theorem findToken_smallKeypair_privateKey :
    findToken "private-key" smallKeypair =
      some (build privateKeyFormat [33, 3, 7, 3, 11, 4]) := by
  decide +kernel

theorem smallRsa_sexpNew {tokens : List Token} (h : .data [] ∉ tokens) :
    smallRsa.sexpNew (text tokens ++ [0]) = some tokens :=
  (readText_text tokens).trans (if_neg h)

theorem smallRsa_cipherDecrypt :
    smallRsa.cipherDecrypt (smallDigest, smallDigest.take 16) smallKeys.keyFile =
      some (text smallKeypair ++ [0]) := by
  simp only [smallRsa, rawRsa, and_self, if_true]

theorem smallKeys_matching : smallKeys.Matching smallRsa smallRsaView where
  pubkeyFile_size := by decide +kernel
  keyFile_size := by decide +kernel
  pubkey := by
    refine ⟨build publicKeyFormat [33, 3], smallRsa_sexpNew (by decide +kernel), ?_, by decide,
      by decide +kernel⟩
    exact numbers_build publicKeyFormat [33, 3] (by decide +kernel)
  passwd_length := by decide
  privkey := by
    refine ⟨([], []), (smallDigest, []), (smallDigest, smallDigest.take 16),
      text smallKeypair ++ [0], smallKeypair, build publicKeyFormat [33, 3],
      build privateKeyFormat [33, 3, 7, 3, 11, 4], rfl, rfl, rfl, smallRsa_cipherDecrypt,
      smallRsa_sexpNew (by decide +kernel), findToken_smallKeypair_publicKey,
      findToken_smallKeypair_privateKey, 3, 3, 11, 4, ?_⟩
    exact numbers_build privateKeyFormat [33, 3, 7, 3, 11, 4] (by decide +kernel)
  modulus_pos := by decide
  inverse := by decide +kernel

end CodingLearners.GcryptFile
