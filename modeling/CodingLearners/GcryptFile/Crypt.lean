import CodingLearners.GcryptFile.Gcry

/-!
# `encrypt.cc` and `decrypt.cc`

The two main programs: `encrypt` turns a file into one number, encrypts that and
writes the S-expression of the result; `decrypt` reads the S-expression back and
writes the bytes of the decrypted number.
-/

namespace CodingLearners.GcryptFile

variable (gcry : Gcrypt)

/-- What `gcry_pk_encrypt` gives, if the program goes on after it. -/
def encryptedOrExit (encrypted : Except Failure gcry.Sexp) : Program gcry.Sexp :=
  match encrypted with
  | .ok ciph => return ciph
  | .error .error => xerr "gcrypt: encryption failed"
  | .error .abort => exit 134

/-- `main` of `encrypt.cc`, from `gcry_sexp_build` on. -/
def encryptMpi (outputfile : String) (rsaPbkey : gcry.Sexp) (msg : Nat) : Program Nat := do
  let some data := gcry.sexpBuild "(data (flags raw) (value %m))" msg
    -- a null pointer has the text `()`
    | do printf "data cnn size:3\n"
         xerr "failed to create a sexp from the message"
  let dataSize ← sprintSize gcry data
  printf ("data cnn size:" ++ toString (toInt dataSize) ++ "\n")
  let ciph ← encryptedOrExit gcry (gcry.pkEncrypt data rsaPbkey)
  let cryDataSz := toInt (← sprintSize gcry ciph)
  if cryDataSz = 0 then
    xerr "gcrypt: encryption get canno size failed.\n"
  let sprinted := gcry.sexpSprint ciph (toSizeT cryDataSz)
  let sizeCnnonDt := toInt sprinted.1
  if sizeCnnonDt ≠ cryDataSz ∧ sizeCnnonDt + 1 ≠ cryDataSz then
    fail ("failed to stringify mpi, " ++ toString cryDataSz ++ ", " ++
      toString sizeCnnonDt ++ "\n")
  let _ ← writeTofile outputfile sprinted.2 cryDataSz
  if cryDataSz ≠ (← getFilesize outputfile) then
    printf "out secret file failed\n"
  printf "encrypt ok\n"
  return 0

/-- `main` of `encrypt.cc` -/
def encryptMain (argv : List String) : Program Nat := do
  let some finf ← parseCmdlineArg argv
    | fail "Using: ./encrypt -k <publickeyfile> <inputfile> <outputfile>\n"
  let keylen ← getFilesize finf.keyfile
  let (keyRead, keybuf) ← readFromfile finf.keyfile keylen
  if keylen ≠ keyRead then
    fail "read from key file failed.\n"
  let some rsaPbkey := gcry.sexpNew keybuf
    | xerr "gcrypt: public key create failed.\n"
  let inDataSize ← getFilesize finf.inputfile
  let (inDataRead, inData) ← readFromfile finf.inputfile inDataSize
  if inDataSize ≠ inDataRead then
    printf "read data from crypt file failed.\n"
    -- `malloc` gives no buffer of a negative size, which `memset` then writes to
    exit (if inDataSize < 0 then 139 else 1)
  let some (msg, scannedSize) := gcry.mpiScan inData
    | do printf "scanned:0\n"
         xerr "failed to create a mpi from the message"
  printf ("scanned:" ++ toString scannedSize ++ "\n")
  encryptMpi gcry finf.outputfile rsaPbkey msg

/-- `main` of `decrypt.cc`, from `gcry_sexp_new` of the ciphertext on. -/
def decryptSexp (outputfile : String) (privk : gcry.Sexp) (inData : Bytes) : Program Nat := do
  let some ciph := gcry.sexpNew inData
    | xerr "gcrypt: failed to parse crypt data cannon format\n"
  let some plain := gcry.pkDecrypt ciph privk
    | xerr "gcrypt: decryption failed"
  let some outMsg := gcry.sexpNthMpi plain 0
    | xerr "gcrypt: decrypt text fmt usg parse failed\n"
  -- the low half of the `size_t` that is written through the pointer to an `int`
  let outSize := toInt (gcry.mpiPrintSize outMsg)
  printf ("out size:" ++ toString outSize ++ "\n")
  let some outBuf := gcry.mpiPrint outMsg (toSizeT outSize)
    | xerr "failed to stringify mpi"
  let _ ← writeTofile outputfile outBuf outSize
  if outSize ≠ (← getFilesize outputfile) then
    printf "write decrypted file failed.\n"
  printf "decrypt ok\n"
  return 0

/-- `main` of `decrypt.cc`, with the password that is typed. -/
def decryptMain (typed : Bytes) (argv : List String) : Program Nat := do
  let some finf ← parseCmdlineArg argv
    | fail "Using: ./decrypt -k <keyfile> <inputfile> <outputfile>\n"
  let keylen ← getFilesize finf.keyfile
  let (keyRead, keybuf) ← readFromfile finf.keyfile keylen
  if keylen ≠ keyRead then
    fail "read from key file failed.\n"
  let some passwd := getPassStr typed
    | fail "init aes crypt failed.\n"
  let some aesHd ← initCryptAes gcry passwd
    | fail "init aes crypt failed.\n"
  let some keybuf := gcry.cipherDecrypt aesHd keybuf
    | xerr "gcrypt: failed to decrypt key pair"
  let some rsaKeypair := gcry.sexpNew keybuf
    | xerr "gcrypt: failed to parse cannon format\n"
  let some _ := gcry.sexpFindToken rsaKeypair "public-key"
    | xerr "gcrypt: failed to parse key\n"
  let some privk := gcry.sexpFindToken rsaKeypair "private-key"
    | xerr "gcrypt: failed to parse key\n"
  let inDataSize ← getFilesize finf.inputfile
  let (inDataRead, inData) ← readFromfile finf.inputfile inDataSize
  if inDataSize ≠ inDataRead then
    fail "read data from crypt file failed.\n"
  decryptSexp gcry finf.outputfile privk inData

end CodingLearners.GcryptFile
