import CodingLearners.Library.CutLoop
import CodingLearners.Library.UriComponent
import CodingLearners.SecretChat.Forge

/-!
# `secretio.js`

Keys, encryption and decryption of the chat. A thrown exception is `none`. The
`i`-th RSA encryption of a call of `encrymsg` uses the seed `rng i`.
-/

namespace CodingLearners.SecretChat

open Js CutLoop

def RSABITS : Nat := 2048

/-- The octets of a block of ciphertext. -/
def rsacrylen : Nat := RSABITS / 8

def rsa2klen : Nat := 214

def rsa4klen : Nat := 382

/-- The local of `encrymsg`: the octets of a block of plaintext. -/
def rsamlen : Nat :=
  if RSABITS = 4096 then rsa4klen else if RSABITS = 2048 then rsa2klen else 126

variable (forge : Forge)

def getmd5key (publickey : JsString) : JsString := forge.md5Hex publickey

/-- `window.curretrsakey`. -/
structure RsaKey where
  publickey : JsString
  privatekey : JsString
  publickeymd : JsString
  publickeymd_eq : publickeymd = getmd5key forge publickey

def getrsakey (seed : forge.Seed) : RsaKey forge :=
  let keypair := forge.generateKeyPair seed
  let publickey := encode64 (forge.publicKeyToPem keypair.1)
  { publickey := publickey
    privatekey := encode64 (forge.privateKeyToPem keypair.2)
    publickeymd := getmd5key forge publickey
    publickeymd_eq := rfl }

/-- The body of the loop of `encrymsg`, which counts the encryptions. -/
def encryptBlock (thpublickey : forge.PublicKey) (rng : Nat → forge.Seed) (acc : Nat × JsString)
    (block : JsString) : Option (Nat × JsString) :=
  (forge.encrypt thpublickey (rng acc.1) block).map fun c => (acc.1 + 1, acc.2 ++ c)

/-- The branches of `encrymsg` on the length of the encoded message. -/
def encryptText (thpublickey : forge.PublicKey) (rng : Nat → forge.Seed) (bsmsg : JsString) :
    Option JsString :=
  if bsmsg.length > rsamlen then
    (cutLoop rsamlen (encryptBlock forge thpublickey rng) bsmsg.length bsmsg (0, [])).map Prod.snd
  else forge.encrypt thpublickey (rng 0) bsmsg

def encrymsg (rng : Nat → forge.Seed) (publickey msg : JsString) : Option JsString :=
  (encodeURIComponent msg).bind fun bsmsg =>
    (forge.publicKeyFromPem (decode64 publickey)).bind fun thpublickey =>
      (encryptText forge thpublickey rng bsmsg).map encode64

/-- The body of the loop of `decrymsg`. -/
def decryptBlock (thprivatekey : forge.PrivateKey) (decrypted block : JsString) :
    Option JsString :=
  (forge.decrypt thprivatekey block).map (decrypted ++ ·)

/-- The branches of `decrymsg` on the length of the ciphertext. -/
def decryptText (thprivatekey : forge.PrivateKey) (crmsg : JsString) : Option JsString :=
  if crmsg.length > rsacrylen then
    cutLoop rsacrylen (decryptBlock forge thprivatekey) crmsg.length crmsg []
  else forge.decrypt thprivatekey crmsg

def decrymsg (privatekey msg : JsString) : Option JsString :=
  (forge.privateKeyFromPem (decode64 privatekey)).bind fun thprivatekey =>
    (decryptText forge thprivatekey (decode64 msg)).bind decodeURIComponent

variable {forge}

/-- Decryption goes through the blocks of the ciphertext one by one. -/
theorem decryptText_eq (thprivatekey : forge.PrivateKey) (crmsg : JsString) :
    decryptText forge thprivatekey crmsg =
      ((blocks rsacrylen crmsg).mapM (forge.decrypt thprivatekey)).map List.flatten := by
  rw [decryptText]
  split
  · rw [cutLoop_eq_foldlM (by decide) _ (Nat.le_refl _)]
    exact foldlM_append (forge.decrypt thprivatekey) (blocks rsacrylen crmsg) []
  · rename_i hle
    rw [blocks_of_le (by omega)]
    cases hdec : forge.decrypt thprivatekey crmsg <;> simp [hdec]

/-- `encrypt` throws for no block of the encoded message. -/
def TakesBlocks (forge : Forge) (pk : forge.PublicKey) (rng : Nat → forge.Seed) (msg : JsString) :
    Prop :=
  ∀ bsmsg, encodeURIComponent msg = some bsmsg → ∀ i block,
    (blocks rsamlen bsmsg)[i]? = some block → forge.encrypt pk (rng i) block ≠ none

/-- Encryption goes through the blocks of the encoded message one by one. -/
theorem encryptText_eq (thpublickey : forge.PublicKey) (rng : Nat → forge.Seed)
    (bsmsg : JsString) :
    encryptText forge thpublickey rng bsmsg =
      ((blocks rsamlen bsmsg).foldlM (encryptBlock forge thpublickey rng) (0, [])).map
        Prod.snd := by
  rw [encryptText]
  split
  · rw [cutLoop_eq_foldlM (by decide) _ (Nat.le_refl _)]
  · rename_i hle
    rw [blocks_of_le (by omega)]
    cases henc : forge.encrypt thpublickey (rng 0) bsmsg <;> simp [encryptBlock, henc]

theorem foldlM_encryptBlock_isSome (pk : forge.PublicKey) (rng : Nat → forge.Seed)
    (bs : List JsString) (n : Nat) (out : JsString) :
    (bs.foldlM (encryptBlock forge pk rng) (n, out)).isSome = true ↔
      ∀ i block, bs[i]? = some block → forge.encrypt pk (rng (n + i)) block ≠ none := by
  induction bs generalizing n out with
  | nil => simp
  | cons block rest ih =>
      rw [List.foldlM_cons, encryptBlock]
      cases henc : forge.encrypt pk (rng n) block with
      | none => simpa using ⟨0, block, rfl, henc⟩
      | some c =>
          simp only [Option.map_some, Option.bind_eq_bind, Option.bind_some, ih]
          constructor
          · intro hrest i
            cases i with
            | zero => simp [henc]
            | succ i => simpa [Nat.add_right_comm, Nat.add_assoc] using hrest i
          · intro hall i
            simpa [Nat.add_right_comm, Nat.add_assoc] using hall (i + 1)

/-- `encrymsg` returns exactly for a text without lone surrogates and the PEM of a
key that takes its blocks. -/
theorem encrymsg_isSome_iff (rng : Nat → forge.Seed) (publickey msg : JsString) :
    (encrymsg forge rng publickey msg).isSome = true ↔
      isWellFormed msg = true ∧ ∃ pk, forge.publicKeyFromPem (decode64 publickey) = some pk ∧
        TakesBlocks forge pk rng msg := by
  cases hmsg : encodeURIComponent msg with
  | none =>
      have hill : isWellFormed msg ≠ true := by
        intro h
        obtain ⟨bsmsg, hencode⟩ := encode_isSome h
        rw [hmsg] at hencode
        contradiction
      simp [encrymsg, hmsg, hill]
  | some bsmsg =>
      rw [encrymsg, hmsg, Option.bind_some, isWellFormed_of_encode hmsg]
      cases hpk : forge.publicKeyFromPem (decode64 publickey) with
      | none => simp
      | some pk =>
          have hfold := foldlM_encryptBlock_isSome pk rng (blocks rsamlen bsmsg) 0 []
          simp only [Nat.zero_add] at hfold
          simpa [encryptText_eq, TakesBlocks, hmsg] using hfold

/-- Encrypting blocks of at most 214 octets, each with its own seed, gives as
many full blocks of ciphertext, which decrypt to them. -/
theorem foldlM_encryptBlock (hforge : forge.Faithful) {pk : forge.PublicKey}
    {sk : forge.PrivateKey} (hpair : forge.Matching pk sk) (rng : Nat → forge.Seed)
    (bs : List JsString) (hlen : ∀ block ∈ bs, block.length ≤ 214)
    (hbin : ∀ block ∈ bs, IsBinary block) (n : Nat) (out : JsString) :
    ∃ cs : List JsString, bs.foldlM (encryptBlock forge pk rng) (n, out) =
        some (n + bs.length, out ++ cs.flatten) ∧
      cs.length = bs.length ∧ (∀ c ∈ cs, c.length = rsacrylen) ∧ IsBinary cs.flatten ∧
      cs.mapM (forge.decrypt sk) = some bs := by
  induction bs generalizing n out with
  | nil => exact ⟨[], by simp [IsBinary]⟩
  | cons block rest ih =>
      rw [List.forall_mem_cons] at hlen hbin
      obtain ⟨c, henc, hc, hcbin, hdec⟩ :=
        hforge.decrypt_encrypt hpair (rng n) block hlen.1 hbin.1
      obtain ⟨cs, hfold, hcount, hfull, hcsbin, hmap⟩ := ih hlen.2 hbin.2 (n + 1) (out ++ c)
      refine ⟨c :: cs, ?_, by simp [hcount], ?_, ?_, ?_⟩
      · simp only [List.foldlM_cons, encryptBlock, henc, Option.map_some, Option.bind_eq_bind,
          Option.bind_some, List.flatten_cons, List.length_cons]
        rw [hfold, List.append_assoc, Nat.add_right_comm, Nat.add_assoc]
      · simpa only [List.forall_mem_cons] using ⟨hc, hfull⟩
      · intro u hu
        rw [List.flatten_cons, List.mem_append] at hu
        exact hu.elim (hcbin u) (hcsbin u)
      · simp [List.mapM_cons, hdec, hmap]

/-- What `encrymsg` returns: the base64 of full blocks of ciphertext, at least
one, that decrypt to the encoded message. -/
theorem encrymsg_spec (hforge : forge.Faithful) {publickey : JsString} {pk : forge.PublicKey}
    {sk : forge.PrivateKey} (hpk : forge.publicKeyFromPem (decode64 publickey) = some pk)
    (hpair : forge.Matching pk sk) (rng : Nat → forge.Seed) {msg bsmsg : JsString}
    (hmsg : encodeURIComponent msg = some bsmsg) :
    ∃ cs parts : List JsString,
      encrymsg forge rng publickey msg = some (encode64 cs.flatten) ∧ cs ≠ [] ∧
      (∀ c ∈ cs, c.length = rsacrylen) ∧ IsBinary cs.flatten ∧
      cs.mapM (forge.decrypt sk) = some parts ∧ parts.flatten = bsmsg := by
  have hsize : 0 < rsamlen := by decide
  have hbin : IsBinary bsmsg := fun u hu => Nat.lt_trans (encode_ascii hmsg u hu) (by omega)
  have hblock : ∀ block ∈ blocks rsamlen bsmsg, IsBinary block := by
    intro block hblock u hu
    apply hbin u
    rw [← blocks_flatten hsize bsmsg]
    exact List.mem_flatten.mpr ⟨block, hblock, hu⟩
  obtain ⟨cs, hfold, hcount, hfull, hcsbin, hmap⟩ := foldlM_encryptBlock hforge hpair rng
    (blocks rsamlen bsmsg) (length_le_of_mem_blocks hsize bsmsg) hblock 0 []
  refine ⟨cs, blocks rsamlen bsmsg, ?_, ?_, hfull, hcsbin, hmap, blocks_flatten hsize bsmsg⟩
  · rw [encrymsg, hmsg, Option.bind_some, hpk, Option.bind_some, encryptText_eq, hfold]
    rfl
  · rintro rfl
    have hnone : blocks rsamlen bsmsg = [] := List.length_eq_zero_iff.mp hcount.symm
    by_cases h : rsamlen < bsmsg.length
    · rw [blocks_of_lt hsize h] at hnone
      exact List.cons_ne_nil _ _ hnone
    · rw [blocks_of_le (by omega)] at hnone
      exact List.cons_ne_nil _ _ hnone

/-- The public key of a pair takes the blocks of every message. -/
theorem takesBlocks_of_matching (hforge : forge.Faithful) {pk : forge.PublicKey}
    {sk : forge.PrivateKey} (hpair : forge.Matching pk sk) (rng : Nat → forge.Seed)
    (msg : JsString) : TakesBlocks forge pk rng msg := by
  intro bsmsg hmsg i block hblock
  have hmem := List.mem_of_getElem? hblock
  have hbin : IsBinary block := by
    intro u hu
    have hin : u ∈ bsmsg := by
      rw [← blocks_flatten (show 0 < rsamlen by decide) bsmsg]
      exact List.mem_flatten.mpr ⟨block, hmem, hu⟩
    exact Nat.lt_trans (encode_ascii hmsg u hin) (by omega)
  obtain ⟨c, henc, -⟩ := hforge.decrypt_encrypt hpair (rng i) block
    (length_le_of_mem_blocks (by decide) bsmsg block hmem) hbin
  simp [henc]

theorem pemForge_takesBlocks (pk : List UInt8) (rng : Nat → List UInt8) (msg : JsString) :
    TakesBlocks pemForge pk rng msg := by
  intro bsmsg _ i block hblock
  have hlen : block.length ≤ 214 :=
    length_le_of_mem_blocks (by decide) bsmsg block (List.mem_of_getElem? hblock)
  simp [pemForge, hlen]

/-- Decryption with the private key gives back the message. -/
theorem decrypted_of_keyPair (hforge : forge.Faithful) {publickey privatekey : JsString}
    (hpair : forge.KeyPair publickey privatekey) (rng : Nat → forge.Seed) {msg : JsString}
    (hmsg : isWellFormed msg = true) :
    ∃ encrypted, encrymsg forge rng publickey msg = some encrypted ∧
      decrymsg forge privatekey encrypted = some msg := by
  obtain ⟨pk, sk, hpk, hsk, hmatch⟩ := hpair
  obtain ⟨bsmsg, hencode⟩ := encode_isSome hmsg
  obtain ⟨cs, parts, henc, hne, hfull, hbin, hdec, hparts⟩ :=
    encrymsg_spec hforge hpk hmatch rng hencode
  refine ⟨_, henc, ?_⟩
  rw [decrymsg, hsk, Option.bind_some, decode64_encode64 hbin, decryptText_eq,
    blocks_flatten_full (by decide) hne hfull, hdec, Option.map_some, Option.bind_some, hparts]
  exact decode_encode hencode

/-- The keys that `getrsakey` makes are the two halves of one pair. -/
theorem keyPair_getrsakey (hforge : forge.Faithful) (seed : forge.Seed) :
    forge.KeyPair (getrsakey forge seed).publickey (getrsakey forge seed).privatekey := by
  refine ⟨_, _, ?_, ?_, hforge.matching_generate seed⟩
  · rw [getrsakey, decode64_encode64 (hforge.publicKeyToPem_binary _)]
    exact hforge.publicKeyFromPem_toPem _
  · rw [getrsakey, decode64_encode64 (hforge.privateKeyToPem_binary _)]
    exact hforge.privateKeyFromPem_toPem _

/-- `decrymsg(privatekey, encrymsg(publickey, msg))` is `msg`. -/
theorem decrymsg_encrymsg (forge : Forge) (hforge : forge.Faithful)
    (publickey privatekey : JsString) (hpair : forge.KeyPair publickey privatekey)
    (rng : Nat → forge.Seed) (msg : JsString) (hmsg : isWellFormed msg = true) :
    (encrymsg forge rng publickey msg).bind (decrymsg forge privatekey) = some msg := by
  obtain ⟨encrypted, henc, hdec⟩ := decrypted_of_keyPair hforge hpair rng hmsg
  rw [henc, Option.bind_some, hdec]

/-- A message whose escapes fill two blocks. -/
theorem decrymsg_encrymsg_twoBlocks :
    let key := getrsakey paddingForge [1, 2, 3]
    (encrymsg paddingForge (fun _ => []) key.publickey (List.replicate 30 0xE101)).bind
      (decrymsg paddingForge key.privatekey) = some (List.replicate 30 0xE101) :=
  decrymsg_encrymsg paddingForge paddingForge_faithful _ _
    (keyPair_getrsakey paddingForge_faithful [1, 2, 3]) (fun _ => []) _ (by decide)

end CodingLearners.SecretChat
