import CodingLearners.GcryptFile.Crypt
import CodingLearners.GcryptFile.RawRsa

/-!
# What comes back from `decrypt`

Reading a file as a number forgets its leading zero bytes, the unpadded
exponentiation keeps a number only modulo `n`, and a size is an `int`. The file
comes back exactly when none of the three takes anything away.
-/

namespace CodingLearners.GcryptFile

/-- The paths of the two commands. -/
structure Paths where
  pubkey : String
  key : String
  input : String
  output : String
  plain : String

/-- The files that the two commands find. -/
structure Paths.Ready (paths : Paths) (keys : Keys) (content : Bytes) (w : World) : Prop where
  pubkey : w.files paths.pubkey = some keys.pubkeyFile
  key : w.files paths.key = some keys.keyFile
  input : w.files paths.input = some content
  output : w.files paths.output = none
  plain : w.files paths.plain = none
  plain_ne : paths.plain ≠ paths.output

def runEncrypt (gcry : Gcrypt) (paths : Paths) (w : World) : Except Nat Nat × World :=
  (encryptMain gcry ["./encrypt", "-k", paths.pubkey, paths.input, paths.output]).exec w

def runDecrypt (gcry : Gcrypt) (typed : Bytes) (paths : Paths) (w : World) :
    Except Nat Nat × World :=
  (decryptMain gcry typed ["./decrypt", "-k", paths.key, paths.output, paths.plain]).exec w

/-- Either `encrypt` reports failure and leaves no output file, or `decrypt` after it
writes the content again. -/
def Preserved (gcry : Gcrypt) (typed : Bytes) (paths : Paths) (content : Bytes) (w : World) :
    Prop :=
  ((∃ status, (runEncrypt gcry paths w).1 = .error status ∧ status ≠ 0) ∧
    (runEncrypt gcry paths w).2.files paths.output = none) ∨
  (runDecrypt gcry typed paths (runEncrypt gcry paths w).2).2.files paths.plain = some content

variable {gcry : Gcrypt} {view : RsaView gcry} {keys : Keys} {paths : Paths} {content : Bytes}
  {w : World}

/-- The number is too large for an S-expression, and libgcrypt does not encrypt it. -/
def Refused (gcry : Gcrypt) (key : gcry.Sexp) (m : Nat) : Prop :=
  numberLimit < (BigEndian.print m).length ∧
    ∀ data, gcry.sexpBuild "(data (flags raw) (value %m))" m = some data →
      gcry.sexpSprintSize data ≠ none → ∀ ciph, gcry.pkEncrypt data key ≠ .ok ciph

/-! ## `encrypt` -/

theorem exec_sprintSize {s : gcry.Sexp} {size : Nat} (h : gcry.sexpSprintSize s = some size) :
    (sprintSize gcry s).exec w = (.ok size, w) := by
  rw [sprintSize, h, exec_pure]

/-- `encrypt` gives up on a file with a negative size. -/
theorem runEncrypt_neg (hkeys : keys.Matching gcry view) (hready : paths.Ready keys content w)
    (hneg : toInt content.length < 0) :
    ∃ printed, runEncrypt gcry paths w = (.error 139, { w with printed := printed }) := by
  obtain ⟨pbkey, hpbkey, -⟩ := hkeys.pubkey
  have hkeylen := toInt_of_lt hkeys.pubkeyFile_size
  rw [runEncrypt, encryptMain]
  rw [exec_bind_ok (exec_parseCmdlineArg hready.pubkey hready.input hready.output)]
  simp only
  rw [exec_bind_ok (exec_getFilesize hready.pubkey)]
  rw [exec_bind_ok (exec_readFromfile hready.pubkey (by omega))]
  simp only [ne_eq, not_true_eq_false, if_false, dataRead_of_lt hkeys.pubkeyFile_size, hpbkey]
  rw [exec_bind_ok (exec_getFilesize hready.input)]
  rw [exec_bind_ok (exec_readFromfile_neg hready.input hneg _)]
  simp only
  rw [if_pos (by omega), exec_bind_ok (exec_printf _), if_pos hneg,
    exec_bind_error (exec_exit 139)]
  exact ⟨_, rfl⟩

/-- Of any other file it encrypts the number. -/
theorem runEncrypt_read (hdoc : Documented gcry view) (hkeys : keys.Matching gcry view)
    (hready : paths.Ready keys content w) (hread : 0 ≤ toInt content.length) {pbkey : gcry.Sexp}
    (hpbkey : gcry.sexpNew keys.pubkeyFile = some pbkey) :
    ∃ printed, runEncrypt gcry paths w =
      (encryptMpi gcry paths.output pbkey (BigEndian.value (dataRead content))).exec
        { w with printed := printed } := by
  have hkeylen := toInt_of_lt hkeys.pubkeyFile_size
  rw [runEncrypt, encryptMain]
  rw [exec_bind_ok (exec_parseCmdlineArg hready.pubkey hready.input hready.output)]
  simp only
  rw [exec_bind_ok (exec_getFilesize hready.pubkey)]
  rw [exec_bind_ok (exec_readFromfile hready.pubkey (by omega))]
  simp only [ne_eq, not_true_eq_false, if_false, dataRead_of_lt hkeys.pubkeyFile_size, hpbkey]
  rw [exec_bind_ok (exec_getFilesize hready.input)]
  rw [exec_bind_ok (exec_readFromfile hready.input hread)]
  simp only [not_true_eq_false, if_false, hdoc.mpiScan_usg _ (length_dataRead_lt content)]
  rw [exec_bind_ok (exec_printf _)]
  exact ⟨_, rfl⟩

/-- What libgcrypt refuses leaves no file. -/
theorem exec_encryptMpi_refused {key : gcry.Sexp} {m : Nat} (h : Refused gcry key m)
    (outputfile : String) (w : World) : ∃ status printed, status ≠ 0 ∧
      (encryptMpi gcry outputfile key m).exec w =
        (.error status, { w with printed := printed }) := by
  rw [encryptMpi]
  cases hdata : gcry.sexpBuild "(data (flags raw) (value %m))" m with
  | none =>
      simp only
      rw [exec_bind_ok (exec_printf _)]
      exact ⟨1, _, by decide, rfl⟩
  | some data =>
      simp only
      cases hsize : gcry.sexpSprintSize data with
      | none =>
          have hexit : (sprintSize gcry data).exec w = (.error 134, w) := by
            rw [sprintSize, hsize, exec_exit]
          rw [exec_bind_error hexit]
          exact ⟨134, _, by decide, rfl⟩
      | some size =>
          rw [exec_bind_ok (exec_sprintSize hsize), exec_bind_ok (exec_printf _)]
          have hnone := h.2 data hdata (by simp [hsize])
          cases hciph : gcry.pkEncrypt data key with
          | ok ciph => exact absurd hciph (hnone ciph)
          | error failure =>
              cases failure with
              | error => exact ⟨1, _, by decide, rfl⟩
              | abort => exact ⟨134, _, by decide, rfl⟩

/-- What it encrypts becomes a file. -/
theorem exec_encryptMpi_ok (hdoc : Documented gcry view) {key data ciph : gcry.Sexp} {m size : Nat}
    {ciphSize : Nat} (hdata : gcry.sexpBuild "(data (flags raw) (value %m))" m = some data)
    (hsize : gcry.sexpSprintSize data = some size) (hciph : gcry.pkEncrypt data key = .ok ciph)
    (hciphSize : gcry.sexpSprintSize ciph = some ciphSize) (hlt : ciphSize < 2 ^ 31)
    (outputfile : String) (w : World) : ∃ printed,
      (encryptMpi gcry outputfile key m).exec w = (.ok 0,
        { files := Function.update w.files outputfile (some (gcry.sexpSprint ciph ciphSize).2),
          printed := printed }) := by
  obtain ⟨hextra, hbuffer⟩ := hdoc.sprint_size ciph ciphSize hciphSize
  rw [encryptMpi]
  simp only [hdata, hciph, encryptedOrExit]
  rw [exec_bind_ok (exec_sprintSize hsize), exec_bind_ok (exec_printf _),
    exec_bind_ok (exec_pure ciph), exec_bind_ok (exec_sprintSize hciphSize)]
  rw [toInt_of_lt hlt, toSizeT_of_lt hlt, toInt_of_lt (by omega)]
  rw [if_neg (by omega), if_neg (by omega)]
  rw [exec_bind_ok (exec_writeTofile _ (by rw [hbuffer]))]
  rw [exec_bind_ok (exec_getFilesize (Function.update_self _ _ _))]
  rw [hbuffer, toInt_of_lt hlt, if_neg (by simp), exec_bind_ok (exec_printf _), exec_pure]
  exact ⟨_, rfl⟩

/-- A number below `n` has as many bytes at most. -/
theorem fits_of_lt (hdoc : Documented gcry view) {key : gcry.Sexp} {n e c : Nat}
    (hpublic : view.IsPublicKey key n e) (hc : c < n) :
    (BigEndian.print c).length ≤ numberLimit :=
  calc
    (BigEndian.print c).length ≤ (BigEndian.print n).length :=
      BigEndian.length_print_le (by rw [BigEndian.value_print]; omega)
    _ ≤ numberLimit := hdoc.publicKey_size hpublic

/-- `encrypt` fails on a number that is refused, and writes the ciphertext of any other
one: the number to the power `e`, if it is not too large. -/
theorem runEncrypt_cases (hdoc : Documented gcry view) (hkeys : keys.Matching gcry view)
    (hready : paths.Ready keys content w) (hread : 0 ≤ toInt content.length) {pbkey : gcry.Sexp}
    (hpbkey : gcry.sexpNew keys.pubkeyFile = some pbkey)
    (hpublic : view.IsPublicKey pbkey keys.n keys.e) :
    let m := BigEndian.value (dataRead content)
    (Refused gcry pbkey m ∧ ∃ status printed, status ≠ 0 ∧
      runEncrypt gcry paths w = (.error status, { w with printed := printed })) ∨
    (¬ Refused gcry pbkey m ∧ ∃ ciph c size printed, c < keys.n ∧ view.IsCiphertext ciph c ∧
      ((BigEndian.print m).length ≤ numberLimit → c = m ^ keys.e % keys.n) ∧
      gcry.sexpSprintSize ciph = some size ∧
      runEncrypt gcry paths w = (.ok 0,
        { files := Function.update w.files paths.output (some (gcry.sexpSprint ciph size).2),
          printed := printed })) := by
  intro m
  obtain ⟨printed, hrun⟩ := runEncrypt_read hdoc hkeys hready hread hpbkey
  rw [hrun]
  by_cases hrefused : Refused gcry pbkey m
  · obtain ⟨status, printed, hstatus, hexec⟩ :=
      exec_encryptMpi_refused hrefused paths.output { w with printed := printed }
    exact Or.inl ⟨hrefused, status, printed, hstatus, hexec⟩
  · obtain ⟨data, size, ciph, c, hdata, hsize, hciph, hc, hlt, hpower⟩ :
        ∃ data size ciph c, gcry.sexpBuild "(data (flags raw) (value %m))" m = some data ∧
          gcry.sexpSprintSize data = some size ∧ gcry.pkEncrypt data pbkey = .ok ciph ∧
          view.IsCiphertext ciph c ∧ c < keys.n ∧
          ((BigEndian.print m).length ≤ numberLimit → c = m ^ keys.e % keys.n) := by
      by_cases hfits : (BigEndian.print m).length ≤ numberLimit
      · obtain ⟨data, size, ciph, hdata, hsize, hciph, hc⟩ := hdoc.pkEncrypt_raw hpublic m hfits
        exact ⟨data, size, ciph, _, hdata, hsize, hciph, hc, Nat.mod_lt _ hkeys.modulus_pos,
          fun _ => rfl⟩
      · simp only [Refused, not_and, not_forall, not_not] at hrefused
        obtain ⟨data, hdata, hsome, ciph, hciph⟩ := hrefused (Nat.lt_of_not_le hfits)
        obtain ⟨size, hsize⟩ := Option.ne_none_iff_exists'.mp hsome
        obtain ⟨c, hlt, hc⟩ := hdoc.pkEncrypt_lt hpublic hciph
        exact ⟨data, size, ciph, c, hdata, hsize, hciph, hc, hlt, fun h => absurd h hfits⟩
    obtain ⟨ciphSize, hsmall, hciphSize⟩ := hdoc.ciphertext_size hc (fits_of_lt hdoc hpublic hlt)
    obtain ⟨printed, hexec⟩ := exec_encryptMpi_ok hdoc hdata hsize hciph hciphSize hsmall
      paths.output { w with printed := printed }
    exact Or.inr ⟨hrefused, ciph, c, ciphSize, printed, hlt, hc, hpower, hciphSize, hexec⟩

/-! ## `decrypt` -/

/-- `decrypt` goes on to the ciphertext. -/
theorem runDecrypt_read (hkeys : keys.Matching gcry view)
    (hkey : w.files paths.key = some keys.keyFile) {bytes : Bytes}
    (houtput : w.files paths.output = some bytes) (hsize : bytes.length < 2 ^ 31)
    (hplain : w.files paths.plain = none) :
    ∃ privk, view.IsPrivateKey privk keys.n keys.d ∧
      runDecrypt gcry keys.passwd paths w =
        (decryptSexp gcry paths.plain privk bytes).exec w := by
  obtain ⟨opened, keyed, aesHd, text, keypair, pubk, privk, hopened, hkeyed, haesHd, htext,
    hkeypair, hpubk, hprivk, hprivate⟩ := hkeys.privkey
  have hkeylen := toInt_of_lt hkeys.keyFile_size
  have hdatalen := toInt_of_lt hsize
  have hpass : getPassStr keys.passwd = some keys.passwd := if_neg hkeys.passwd_length
  have haes : (initCryptAes gcry keys.passwd).exec w = (.ok (some aesHd), w) := by
    rw [initCryptAes, if_neg hkeys.passwd_length]
    simp only [hopened, hkeyed, haesHd, exec_pure]
  refine ⟨privk, hprivate, ?_⟩
  rw [runDecrypt, decryptMain]
  rw [exec_bind_ok (exec_parseCmdlineArg hkey houtput hplain)]
  simp only
  rw [exec_bind_ok (exec_getFilesize hkey), exec_bind_ok (exec_readFromfile hkey (by omega))]
  simp only [ne_eq, not_true_eq_false, if_false, dataRead_of_lt hkeys.keyFile_size, hpass]
  rw [exec_bind_ok haes]
  simp only [htext, hkeypair, hpubk, hprivk]
  rw [exec_bind_ok (exec_getFilesize houtput),
    exec_bind_ok (exec_readFromfile houtput (by omega))]
  simp only [not_true_eq_false, if_false, dataRead_of_lt hsize]

/-- The ciphertext of 0 is not read. -/
theorem exec_decryptSexp_zero (hdoc : Documented gcry view) {ciph privk : gcry.Sexp} {size : Nat}
    (hc : view.IsCiphertext ciph 0) (hsize : gcry.sexpSprintSize ciph = some size)
    (outputfile : String) (w : World) : ∃ printed,
      (decryptSexp gcry outputfile privk (gcry.sexpSprint ciph size).2).exec w =
        (.error 1, { w with printed := printed }) := by
  rw [decryptSexp, hdoc.ciphertext_zero hc hsize]
  exact ⟨_, rfl⟩

/-- Of any other ciphertext `decrypt` writes the bytes of the decrypted number. -/
theorem exec_decryptSexp_ok (hdoc : Documented gcry view) {ciph privk : gcry.Sexp} {n d c : Nat}
    {size : Nat} (hprivate : view.IsPrivateKey privk n d) (hc : view.IsCiphertext ciph c)
    (hlt : c < n) (hne : c ≠ 0) (hfits : (BigEndian.print c).length ≤ numberLimit)
    (hsize : gcry.sexpSprintSize ciph = some size)
    (hplain : (BigEndian.print (c ^ d % n)).length ≤ numberLimit) (outputfile : String)
    (w : World) :
    ∃ printed, (decryptSexp gcry outputfile privk (gcry.sexpSprint ciph size).2).exec w = (.ok 0,
      { files := Function.update w.files outputfile (some (BigEndian.print (c ^ d % n))),
        printed := printed }) := by
  obtain ⟨plain, hdecrypt, hmpi⟩ := hdoc.pkDecrypt_raw hprivate hc (Nat.pos_of_ne_zero hne) hlt
  have hsmall : (BigEndian.print (c ^ d % n)).length < 2 ^ 31 := by
    rw [numberLimit] at hplain
    omega
  have hread := hdoc.sprint_read ciph size (hdoc.ciphertext_regular hc hfits hne) hsize
  rw [decryptSexp]
  simp only [hread, hdecrypt, hmpi, hdoc.mpiPrintSize_usg _ hplain, toInt_of_lt hsmall,
    toSizeT_of_lt hsmall, hdoc.mpiPrint_usg _ _ hplain (Nat.le_refl _)]
  rw [exec_bind_ok (exec_printf _), exec_bind_ok (exec_writeTofile _ rfl)]
  rw [exec_bind_ok (exec_getFilesize (Function.update_self _ _ _))]
  rw [toInt_of_lt hsmall, if_neg (by simp), exec_bind_ok (exec_printf _), exec_pure]
  exact ⟨_, rfl⟩

/-! ## Both commands -/

/-- What comes back of a number that was encrypted. -/
theorem Keys.Matching.decrypted (hkeys : keys.Matching gcry view) (m : Nat) :
    (m ^ keys.e % keys.n) ^ keys.d % keys.n = m % keys.n := by
  calc
    (m ^ keys.e % keys.n) ^ keys.d % keys.n
        = ((m % keys.n) ^ keys.e) ^ keys.d % keys.n := by
      rw [← Nat.pow_mod, Nat.pow_mod (m ^ keys.e), Nat.pow_mod m, ← Nat.pow_mod]
    _ = m % keys.n := hkeys.inverse _ (Nat.mod_lt _ hkeys.modulus_pos)

/-- The multiples of `n` are the numbers whose ciphertext is 0. -/
theorem Keys.Matching.encrypted_eq_zero_iff (hkeys : keys.Matching gcry view) (m : Nat) :
    m ^ keys.e % keys.n = 0 ↔ m % keys.n = 0 := by
  have hzero := hkeys.decrypted 0
  have hm := hkeys.decrypted m
  constructor
  · intro hc
    rw [hc] at hm
    by_cases hd : keys.d = 0
    · rw [hd, pow_zero, Nat.zero_mod] at hzero
      rw [← hm, hd, pow_zero, hzero]
    · rw [← hm, zero_pow hd, Nat.zero_mod]
  · intro hmod
    rw [Nat.pow_mod, hmod]
    by_cases he : keys.e = 0
    · rw [he, pow_zero, ← Nat.pow_mod, one_pow, Nat.zero_mod] at hzero
      rw [he, pow_zero, hzero]
    · rw [zero_pow he, Nat.zero_mod]

/-- Both commands of a file whose number is encrypted to `c`: nothing comes back of 0,
and else the decrypted number. -/
theorem runDecrypt_runEncrypt (hdoc : Documented gcry view) (hkeys : keys.Matching gcry view)
    (hready : paths.Ready keys content w) {pbkey : gcry.Sexp}
    (hpublic : view.IsPublicKey pbkey keys.n keys.e) {ciph : gcry.Sexp} {c size : Nat}
    {printed : List String} (hlt : c < keys.n) (hc : view.IsCiphertext ciph c)
    (hsize : gcry.sexpSprintSize ciph = some size) :
    (runDecrypt gcry keys.passwd paths
      { files := Function.update w.files paths.output (some (gcry.sexpSprint ciph size).2),
        printed := printed }).2.files paths.plain =
      if c = 0 then none else some (BigEndian.print (c ^ keys.d % keys.n)) := by
  have hfits := fits_of_lt hdoc hpublic hlt
  have hkey : paths.key ≠ paths.output := by
    intro h
    have hsome := hready.key
    rw [h, hready.output] at hsome
    cases hsome
  have hprinted : (BigEndian.print (c ^ keys.d % keys.n)).length ≤ numberLimit :=
    fits_of_lt hdoc hpublic (Nat.mod_lt (c ^ keys.d) hkeys.modulus_pos)
  obtain ⟨size', hsize', hsome⟩ := hdoc.ciphertext_size hc hfits
  obtain rfl := Option.some.inj (hsize.symm.trans hsome)
  have hplain := (Function.update_of_ne hready.plain_ne
    (some (gcry.sexpSprint ciph size).2) w.files).trans hready.plain
  obtain ⟨privk, hprivate, hrun⟩ := @runDecrypt_read gcry view keys paths
    ⟨Function.update w.files paths.output (some (gcry.sexpSprint ciph size).2), printed⟩ hkeys
    ((Function.update_of_ne hkey _ _).trans hready.key) _ (Function.update_self _ _ _)
    (by rw [(hdoc.sprint_size ciph size hsize).2]; exact hsize') hplain
  rw [hrun]
  by_cases hne : c = 0
  · obtain ⟨printed, hexec⟩ := exec_decryptSexp_zero hdoc (hne ▸ hc) hsize paths.plain _
    rw [hexec, if_pos hne]
    exact hplain
  · obtain ⟨printed, hexec⟩ :=
      exec_decryptSexp_ok hdoc hprivate hc hlt hne hfits hsize hprinted paths.plain _
    rw [hexec, if_neg hne]
    exact Function.update_self _ _ _

/-- Which files come back, of those that are encrypted. -/
theorem decrypted_eq_iff (hdoc : Documented gcry view) (hkeys : keys.Matching gcry view)
    {pbkey : gcry.Sexp} (hpublic : view.IsPublicKey pbkey keys.n keys.e) {c : Nat}
    (hpower : let m := BigEndian.value (dataRead content)
      (BigEndian.print m).length ≤ numberLimit → c = m ^ keys.e % keys.n) :
    (if c = 0 then none else some (BigEndian.print (c ^ keys.d % keys.n))) = some content ↔
      content ≠ [] ∧ content.length < 2 ^ 31 ∧ content.head? ≠ some 0 ∧
        BigEndian.value content < keys.n := by
  constructor
  · intro h
    by_cases hne : c = 0
    · rw [if_pos hne] at h
      cases h
    · rw [if_neg hne, Option.some.injEq] at h
      have hlt : c ^ keys.d % keys.n < keys.n := Nat.mod_lt _ hkeys.modulus_pos
      have hfits := fits_of_lt hdoc hpublic hlt
      rw [h, numberLimit] at hfits
      have hwhole : dataRead content = content := dataRead_of_lt (by omega)
      refine ⟨?_, by omega, h ▸ BigEndian.head_print_ne _, ?_⟩
      · rintro rfl
        apply hne
        rw [hpower (Nat.zero_le _)]
        exact (hkeys.encrypted_eq_zero_iff _).mpr (Nat.zero_mod _)
      · rw [← h, BigEndian.value_print]
        exact hlt
  · rintro ⟨hne, hsize, hhead, hlt⟩
    rw [dataRead_of_lt hsize] at hpower
    have hprint := BigEndian.print_value hhead
    have hc := hpower (fits_of_lt hdoc hpublic hlt)
    have hmod := Nat.mod_eq_of_lt hlt
    have hvalue : BigEndian.value content ≠ 0 := by
      intro hzero
      rw [BigEndian.print_eq_nil_iff.mpr hzero] at hprint
      exact hne hprint.symm
    have hcne : c ≠ 0 := by
      rw [hc, Ne, hkeys.encrypted_eq_zero_iff, hmod]
      exact hvalue
    rw [if_neg hcne, hc, hkeys.decrypted, hmod, hprint]

theorem preserved_iff_of_read (hdoc : Documented gcry view) (hkeys : keys.Matching gcry view)
    (hready : paths.Ready keys content w) (hread : 0 ≤ toInt content.length) {pbkey : gcry.Sexp}
    (hpbkey : gcry.sexpNew keys.pubkeyFile = some pbkey)
    (hpublic : view.IsPublicKey pbkey keys.n keys.e) :
    Preserved gcry keys.passwd paths content w ↔
      Refused gcry pbkey (BigEndian.value (dataRead content)) ∨
        (content ≠ [] ∧ content.length < 2 ^ 31 ∧ content.head? ≠ some 0 ∧
          BigEndian.value content < keys.n) := by
  obtain ⟨hrefused, status, printed, hstatus, hrun⟩ |
      ⟨hencrypted, ciph, c, size, printed, hlt, hc, hpower, hsize, hrun⟩ :=
    runEncrypt_cases hdoc hkeys hready hread hpbkey hpublic
  · apply iff_of_true _ (Or.inl hrefused)
    left
    rw [hrun]
    exact ⟨⟨status, rfl, hstatus⟩, hready.output⟩
  · rw [or_iff_right hencrypted, Preserved, hrun]
    simp only [reduceCtorEq, false_and, exists_false, false_or]
    rw [runDecrypt_runEncrypt hdoc hkeys hready hpublic hlt hc hsize]
    exact decrypted_eq_iff hdoc hkeys hpublic hpower

theorem preserved_iff_of_key (hdoc : Documented gcry view) (hkeys : keys.Matching gcry view)
    (hready : paths.Ready keys content w) {pbkey : gcry.Sexp}
    (hpbkey : gcry.sexpNew keys.pubkeyFile = some pbkey)
    (hpublic : view.IsPublicKey pbkey keys.n keys.e) :
    Preserved gcry keys.passwd paths content w ↔
    2 ^ 31 ≤ content.length % 2 ^ 32 ∨
      Refused gcry pbkey (BigEndian.value (dataRead content)) ∨
      (content ≠ [] ∧ content.length < 2 ^ 31 ∧ content.head? ≠ some 0 ∧
        BigEndian.value content < keys.n) := by
  by_cases hneg : toInt content.length < 0
  · apply iff_of_true _ (Or.inl ((toInt_neg_iff _).mp hneg))
    left
    obtain ⟨printed, hrun⟩ := runEncrypt_neg hkeys hready hneg
    rw [hrun]
    exact ⟨⟨139, rfl, by decide⟩, hready.output⟩
  · rw [preserved_iff_of_read hdoc hkeys hready (by omega) hpbkey hpublic,
      or_iff_right (mt (toInt_neg_iff _).mpr hneg)]

/-- The file is preserved if and only if its size is not read at all, or its number is
too large for libgcrypt, which stops; or it is not empty, smaller than 2 GiB, does not
start with a zero byte and is a number below `n`. -/
theorem preserved_iff (hdoc : Documented gcry view) (hkeys : keys.Matching gcry view)
    (hready : paths.Ready keys content w) :
    Preserved gcry keys.passwd paths content w ↔
    2 ^ 31 ≤ content.length % 2 ^ 32 ∨
      (∃ key, gcry.sexpNew keys.pubkeyFile = some key ∧
        Refused gcry key (BigEndian.value (dataRead content))) ∨
      (content ≠ [] ∧ content.length < 2 ^ 31 ∧ content.head? ≠ some 0 ∧
        BigEndian.value content < keys.n) := by
  obtain ⟨pbkey, hpbkey, hpublic⟩ := hkeys.pubkey
  rw [preserved_iff_of_key hdoc hkeys hready hpbkey hpublic]
  simp only [hpbkey, Option.some.injEq, exists_eq_left']

/-! ## Small files -/

def smallPaths : Paths := ⟨"pubkey.sp", "keypair.sp", "file", "file.enc", "file.dec"⟩

def smallWorld (content : Bytes) : World where
  files path :=
    if path = "pubkey.sp" then some smallKeys.pubkeyFile
    else if path = "keypair.sp" then some smallKeys.keyFile
    else if path = "file" then some content
    else none
  printed := []

theorem smallPaths_ready (content : Bytes) :
    smallPaths.Ready smallKeys content (smallWorld content) where
  pubkey := by simp [smallPaths, smallWorld]
  key := by simp [smallPaths, smallWorld]
  input := by simp [smallPaths, smallWorld]
  output := by simp [smallPaths, smallWorld]
  plain := by simp [smallPaths, smallWorld]
  plain_ne := by decide

/-- The file of the byte 2 comes back. -/
theorem preserved_two : Preserved smallRsa smallKeys.passwd smallPaths [2] (smallWorld [2]) :=
  (preserved_iff smallRsa_documented smallKeys_matching (smallPaths_ready [2])).mpr
    (Or.inr (Or.inr ⟨by decide, by decide, by decide, by decide⟩))

/-- The empty file, a file with a zero byte in front, and a number from 33 on. -/
def lostFiles : List Bytes := [[], [0, 2], [35]]

theorem lostFiles_lost : ∀ content ∈ lostFiles,
    ¬ Preserved smallRsa smallKeys.passwd smallPaths content (smallWorld content) := by
  intro content hcontent
  obtain ⟨pbkey, hpbkey, hpublic⟩ := smallKeys_matching.pubkey
  have hread : 0 ≤ toInt content.length := by
    revert content
    decide
  rw [preserved_iff_of_read smallRsa_documented smallKeys_matching (smallPaths_ready content)
    hread hpbkey hpublic]
  rintro (hrefused | hback)
  · have hfits : ∀ content ∈ lostFiles,
        (BigEndian.print (BigEndian.value (dataRead content))).length ≤ numberLimit := by
      decide +kernel
    exact absurd hrefused.1 (Nat.not_lt.mpr (hfits content hcontent))
  · revert content
    decide +kernel

/-- None of the three comes back. -/
theorem zero_byte_lost :
    ¬ Preserved smallRsa smallKeys.passwd smallPaths [] (smallWorld []) ∧
      ¬ Preserved smallRsa smallKeys.passwd smallPaths [0, 2] (smallWorld [0, 2]) ∧
      ¬ Preserved smallRsa smallKeys.passwd smallPaths [35] (smallWorld [35]) :=
  ⟨lostFiles_lost [] (by decide), lostFiles_lost [0, 2] (by decide),
    lostFiles_lost [35] (by decide)⟩

end CodingLearners.GcryptFile
