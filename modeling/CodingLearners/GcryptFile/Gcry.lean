import Mathlib.Algebra.Ring.Int.Defs
import Mathlib.Algebra.Ring.Nat
import Mathlib.Tactic.Common

/-!
# `gcry.cc`

A run of one of the programs changes the files and prints; `exit` ends it where
it stands, with all that was done before. The helpers of `gcry.cc` are programs
of this kind, and libgcrypt is a parameter.

## Implementation notes

The disk takes every byte that is written, and every buffer is allocated. Paths
fit the 1024 characters of `crypt_fileinfo`.
-/

namespace CodingLearners.GcryptFile

abbrev Bytes := List UInt8

/-- The files by their path, and the texts printed so far. -/
structure World where
  files : String → Option Bytes
  printed : List String

/-- A program ends with a result or with the status of `exit`. -/
abbrev Program := ExceptT Nat (StateM World)

/-- The outcome of a program and the world it leaves. -/
def Program.exec {α : Type} (p : Program α) (w : World) : Except Nat α × World := p.run.run w

/-! ## Statements -/

def printf (text : String) : Program Unit :=
  modify fun w => { w with printed := w.printed ++ [text] }

def exit {α : Type} (status : Nat) : Program α := throw status

/-- Print a text and give up; also `xerr(msg)`, which ends the line. -/
def fail {α : Type} (text : String) : Program α := do
  printf text
  exit 1

def xerr {α : Type} (msg : String) : Program α := fail (msg ++ "\n")

/-- `fopen(filenm, "rb")` and what can be read from it. The use of a null `FILE*`
ends the process with `SIGSEGV`. -/
def fopen (filenm : String) : Program Bytes := do
  match (← get).files filenm with
  | some bytes => return bytes
  | none => exit 139

/-- The conversions to `int` and to `size_t`. -/
def toInt (n : Int) : Int := n.bmod (2 ^ 32)

def toSizeT (n : Int) : Nat := (n % 2 ^ 64).toNat

/-! ## `gcry.cc` -/

/-- `write_tofile(filenm, buf, len)` -/
def writeTofile (filenm : String) (buf : Bytes) (len : Int) : Program Int := do
  modify fun w =>
    { w with files := Function.update w.files filenm (some (buf.take len.toNat)) }
  -- `fwrite` of an item of no bytes returns 0
  let n := if len = 0 then 0 else 1
  return if n = 1 then len else 0

/-- `get_filesize(filenm)` -/
def getFilesize (filenm : String) : Program Int := do
  let bytes ← fopen filenm
  return toInt bytes.length

/-- `read_fromfile(filenm, buf, buf_size)`, with what is read into the buffer. -/
def readFromfile (filenm : String) (bufSize : Int) : Program (Int × Bytes) := do
  let fsize ← getFilesize filenm
  if fsize ≤ 0 ∨ fsize > bufSize then
    return (0, [])
  let bytes ← fopen filenm
  if bytes.length < fsize.toNat then
    return (0, bytes)
  return (fsize, bytes.take fsize.toNat)

/-- `struct crypt_fileinfo` -/
structure CryptFileinfo where
  keyfile : String
  inputfile : String
  outputfile : String

/-- `parse_cmdline_arg(inf, argc, argv)`, with nothing for a result other than 0. -/
def parseCmdlineArg (argv : List String) : Program (Option CryptFileinfo) := do
  match argv with
  | _ :: option :: keyfile :: inputfile :: outputfile :: _ =>
      if option ≠ "-k" then
        return none
      let files := (← get).files
      if files keyfile = none ∨ files inputfile = none then
        printf "file isn't found.\n"
        return none
      if files outputfile ≠ none then
        printf "err: outfile exist.\n"
        return none
      return some ⟨keyfile, inputfile, outputfile⟩
  | _ => return none

/-! ## libgcrypt -/

/-- How a function of libgcrypt ends without a result: with an error code, or in
`BUG ()`, which aborts the process. -/
inductive Failure
  | error
  | abort

/-- The functions of libgcrypt that the programs call. An `mpi` is a number; no
result is an error code other than 0 or a null pointer. -/
structure Gcrypt where
  Sexp : Type
  Cipher : Type
  /-- `gcry_sexp_new(&s, buf, len, 0)` -/
  sexpNew : Bytes → Option Sexp
  /-- `gcry_sexp_build(&s, NULL, format, mpi)` -/
  sexpBuild : String → Nat → Option Sexp
  /-- `gcry_sexp_sprint(s, GCRYSEXP_FMT_CANON, 0, 0)`; `none` is the `BUG ()` of an
  expression that is no sequence of tokens. -/
  sexpSprintSize : Sexp → Option Nat
  /-- `gcry_sexp_sprint(s, GCRYSEXP_FMT_CANON, buf, len)`, with what the buffer then
  holds. -/
  sexpSprint : Sexp → Nat → Nat × Bytes
  sexpFindToken : Sexp → String → Option Sexp
  sexpNthMpi : Sexp → Nat → Option Nat
  /-- `gcry_mpi_scan(&mpi, GCRYMPI_FMT_USG, buf, len, &nscanned)`, the number and how
  many bytes were scanned. -/
  mpiScan : Bytes → Option (Nat × Nat)
  /-- `gcry_mpi_print(GCRYMPI_FMT_USG, 0, 0, &nwritten, mpi)` -/
  mpiPrintSize : Nat → Nat
  /-- `gcry_mpi_print(GCRYMPI_FMT_USG, buf, len, NULL, mpi)` -/
  mpiPrint : Nat → Nat → Option Bytes
  pkEncrypt : Sexp → Sexp → Except Failure Sexp
  pkDecrypt : Sexp → Sexp → Option Sexp
  /-- `gcry_cipher_open(&hd, GCRY_CIPHER_AES256, GCRY_CIPHER_MODE_CFB, 0)` -/
  cipherOpen : Option Cipher
  cipherSetkey : Cipher → Bytes → Option Cipher
  cipherSetiv : Cipher → Bytes → Option Cipher
  /-- `gcry_cipher_decrypt(hd, buf, len, NULL, 0)`, in place. -/
  cipherDecrypt : Cipher → Bytes → Option Bytes
  /-- `gcry_md_hash_buffer` with the algorithm `SHA256`. -/
  sha256 : Bytes → Bytes

variable (gcry : Gcrypt)

/-- The size of the canonical text, if the process survives. -/
def sprintSize (s : gcry.Sexp) : Program Nat :=
  match gcry.sexpSprintSize s with
  | some size => return size
  | none => exit 134

/-- `init_crypt_aes(aes_hd, passwd)`, with nothing for a result other than 0. -/
def initCryptAes (passwd : Bytes) : Program (Option gcry.Cipher) := do
  if passwd.length = 0 then
    printf "getpass: not a valid password"
    return none
  let some aesHd := gcry.cipherOpen
    | do printf "gcrypt: failed to create aes handle"
         return none
  let passwdHash := gcry.sha256 passwd
  let some aesHd := gcry.cipherSetkey aesHd passwdHash
    | do printf "gcrypt: could not set cipher key\n"
         return none
  let some aesHd := gcry.cipherSetiv aesHd (passwdHash.take 16)
    | do printf "gcrypt: could not set cipher initialization vector\n"
         return none
  return some aesHd

/-- `get_pass_str()`, with what `getpass` returns. -/
def getPassStr (typed : Bytes) : Option Bytes := if typed.length = 0 then none else some typed

/-! ## Running a program -/

section Exec

variable {α β : Type} {p : Program α} {f : α → Program β} {w w' : World} {filenm : String}

theorem exec_bind : (p >>= f).exec w =
    match p.exec w with
    | (.ok a, w') => (f a).exec w'
    | (.error status, w') => (.error status, w') := by
  change StateT.run (ExceptT.bindCont f (p.exec w).1) (p.exec w).2 = _
  rcases p.exec w with ⟨_ | _, _⟩
  · rfl
  · rfl

theorem exec_bind_ok {a : α} (h : p.exec w = (.ok a, w')) :
    (p >>= f).exec w = (f a).exec w' := by
  rw [exec_bind, h]

theorem exec_bind_error {status : Nat} (h : p.exec w = (.error status, w')) :
    (p >>= f).exec w = (.error status, w') := by
  rw [exec_bind, h]

theorem exec_pure (a : α) : Program.exec (pure a : Program α) w = (.ok a, w) := rfl

theorem exec_printf (text : String) :
    (printf text).exec w = (.ok (), { w with printed := w.printed ++ [text] }) := rfl

theorem exec_exit (status : Nat) : (exit status : Program α).exec w = (.error status, w) := rfl

theorem exec_writeTofile (buf : Bytes) {len : Int} (h : buf.length = len) :
    (writeTofile filenm buf len).exec w =
      (.ok len, { w with files := Function.update w.files filenm (some buf) }) := by
  subst h
  have htake : buf.take (buf.length : Int).toNat = buf := List.take_of_length_le (by omega)
  have hwrite : (modify fun w => { w with
      files := Function.update w.files filenm (some (buf.take (buf.length : Int).toNat)) } :
        Program Unit).exec w =
      (.ok (), { w with files := Function.update w.files filenm (some buf) }) := by
    rw [htake]
    rfl
  rw [writeTofile, exec_bind_ok hwrite]
  by_cases hempty : (buf.length : Int) = 0
  · rw [if_pos hempty, hempty]
    rfl
  · rw [if_neg hempty]
    rfl

theorem exec_fopen {bytes : Bytes} (h : w.files filenm = some bytes) :
    (fopen filenm).exec w = (.ok bytes, w) := by
  change StateT.run (ExceptT.run (match w.files filenm with
    | some bytes => (pure bytes : Program Bytes)
    | none => exit 139)) w = _
  rw [h]
  rfl

theorem exec_getFilesize {bytes : Bytes} (h : w.files filenm = some bytes) :
    (getFilesize filenm).exec w = (.ok (toInt bytes.length), w) := by
  rw [getFilesize, exec_bind_ok (exec_fopen h), exec_pure]

theorem toInt_of_lt {n : Nat} (h : n < 2 ^ 31) : toInt n = n := by
  rw [toInt, Int.bmod_def]
  split <;> omega

theorem toSizeT_of_lt {n : Nat} (h : n < 2 ^ 31) : toSizeT n = n := by
  rw [toSizeT]
  omega

theorem toInt_neg_iff (n : Nat) : toInt n < 0 ↔ 2 ^ 31 ≤ n % 2 ^ 32 := by
  rw [toInt, Int.bmod_def]
  split <;> omega

theorem toInt_le (n : Nat) : toInt n ≤ n := by
  rw [toInt, Int.bmod_def]
  split <;> omega

/-- A file whose size stays negative as an `int` is not read. -/
theorem exec_readFromfile_neg {bytes : Bytes} (h : w.files filenm = some bytes)
    (hneg : toInt bytes.length < 0) (bufSize : Int) :
    (readFromfile filenm bufSize).exec w = (.ok (0, []), w) := by
  rw [readFromfile, exec_bind_ok (exec_getFilesize h), if_pos (Or.inl (by omega)), exec_pure]

/-- The part of a file that is read: its size is an `int`. -/
def dataRead (bytes : Bytes) : Bytes := bytes.take (toInt bytes.length).toNat

theorem dataRead_of_lt {bytes : Bytes} (h : bytes.length < 2 ^ 31) : dataRead bytes = bytes := by
  rw [dataRead, toInt_of_lt h, List.take_of_length_le (by omega)]

theorem length_dataRead_lt (bytes : Bytes) : (dataRead bytes).length < 2 ^ 31 := by
  have hlt : toInt bytes.length < 2 ^ 31 := by
    rw [toInt, Int.bmod_def]
    split <;> omega
  rw [dataRead, List.length_take]
  omega

/-- Any file with another size is read up to it. -/
theorem exec_readFromfile {bytes : Bytes} (h : w.files filenm = some bytes)
    (hsize : 0 ≤ toInt bytes.length) :
    (readFromfile filenm (toInt bytes.length)).exec w =
      (.ok (toInt bytes.length, dataRead bytes), w) := by
  have hle := toInt_le bytes.length
  rw [readFromfile, exec_bind_ok (exec_getFilesize h)]
  by_cases hzero : toInt bytes.length = 0
  · rw [if_pos (Or.inl (by omega)), exec_pure, dataRead, hzero]
    rfl
  · rw [if_neg (by omega), exec_bind_ok (exec_fopen h), if_neg (by omega), exec_pure, dataRead]

/-- Two files that exist and a third one that does not. -/
theorem exec_parseCmdlineArg {program keyfile inputfile outputfile : String}
    {key input : Bytes} (hkey : w.files keyfile = some key)
    (hinput : w.files inputfile = some input) (houtput : w.files outputfile = none) :
    (parseCmdlineArg [program, "-k", keyfile, inputfile, outputfile]).exec w =
      (.ok (some ⟨keyfile, inputfile, outputfile⟩), w) := by
  rw [parseCmdlineArg, if_neg (by simp), exec_bind_ok (a := w) (by rfl)]
  rw [if_neg (by simp [hkey, hinput]), if_neg (by simp [houtput])]
  rfl

end Exec

end CodingLearners.GcryptFile
