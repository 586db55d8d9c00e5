import CodingLearners.GcryptFile.RoundTrip

/-!
# `keygen.cc`

`keygen` draws a key pair, writes the public key as it is and the key pair under a
password, and has the password typed again. What it leaves is what `encrypt` and
`decrypt` need, whether or not the password is typed again.

## Implementation notes

The key pair that `gcry_pk_genkey` draws and the answers of `getpass` are inputs, and
`gcrypt_init` succeeds. The paths can be written. libgcrypt takes a null pointer for an
empty S-expression.
-/

namespace CodingLearners.GcryptFile

open CanonicalText

/-- What `keygen` calls of libgcrypt besides. -/
structure KeyLibrary (gcry : Gcrypt) where
  nullSexp : gcry.Sexp
  /-- `gcry_sexp_build(&s, NULL, format)` -/
  sexpBuildPlain : String → Option gcry.Sexp
  /-- `gcry_cipher_encrypt(hd, buf, len, NULL, 0)`, in place. -/
  cipherEncrypt : gcry.Cipher → Bytes → Option Bytes

variable (gcry : Gcrypt)

variable {gcry}

/-- The parameters of the key are well formed, and the cipher is AES in CFB mode: any
password makes a key, the text has the length it had, and decryption undoes encryption. -/
structure KeyLibrary.Documented (lib : KeyLibrary gcry) : Prop where
  parms : ∃ parms, lib.sexpBuildPlain "(genkey (rsa (nbits 4:8192)))" = some parms
  cipher : ∀ passwd, ∃ opened keyed aesHd, gcry.cipherOpen = some opened ∧
    gcry.cipherSetkey opened (gcry.sha256 passwd) = some keyed ∧
    gcry.cipherSetiv keyed ((gcry.sha256 passwd).take 16) = some aesHd ∧
    ∀ bytes, ∃ locked, lib.cipherEncrypt aesHd bytes = some locked ∧
      locked.length = bytes.length ∧ gcry.cipherDecrypt aesHd locked = some bytes

/-! ## What a run leaves -/

variable {view : RsaView gcry} {lib : KeyLibrary gcry} {keypair : gcry.Sexp} {n e d : Nat}
  {typed : Nat → Bytes} {paths : Paths} {w : World}

end CodingLearners.GcryptFile
