import CodingLearners.SecretChat.SecretIo

/-!
# Keys that do not match

RSA-OAEP detects a private key of another pair. So does `decrymsg`: it decrypts
what `encrymsg` returned with the matching key only.
-/

namespace CodingLearners.SecretChat

open Js CutLoop

variable {forge : Forge}

/-- A ciphertext is not decrypted with the private key of another pair. -/
def Forge.Exclusive (forge : Forge) : Prop :=
  ∀ {pk sk}, ¬ forge.Matching pk sk → ∀ {seed m c}, forge.encrypt pk seed m = some c →
    forge.decrypt sk c = none

/-- A block of ciphertext is the encryption of a short block of octets. -/
def BlockFor (pk : forge.PublicKey) (c : JsString) : Prop :=
  ∃ seed block, block.length ≤ 214 ∧ IsBinary block ∧ forge.encrypt pk seed block = some c

theorem foldlM_encryptBlock_blockFor {pk : forge.PublicKey} {rng : Nat → forge.Seed}
    {bs : List JsString} (hlen : ∀ block ∈ bs, block.length ≤ 214)
    (hbin : ∀ block ∈ bs, IsBinary block) {acc acc' : Nat × JsString}
    (h : bs.foldlM (encryptBlock forge pk rng) acc = some acc') :
    ∃ cs : List JsString, acc'.2 = acc.2 ++ cs.flatten ∧ cs.length = bs.length ∧
      ∀ c ∈ cs, BlockFor pk c := by
  induction bs generalizing acc with
  | nil =>
      obtain rfl := Option.some.inj h
      exact ⟨[], by simp⟩
  | cons block rest ih =>
      rw [List.forall_mem_cons] at hlen hbin
      simp only [List.foldlM_cons, encryptBlock, Option.bind_eq_bind, Option.bind_eq_some_iff,
        Option.map_eq_some_iff] at h
      obtain ⟨_, ⟨c, hc, rfl⟩, hrest⟩ := h
      obtain ⟨cs, hout, hcount, hblocks⟩ := ih hlen.2 hbin.2 hrest
      refine ⟨c :: cs, by simp [hout], by simp [hcount], ?_⟩
      rw [List.forall_mem_cons]
      exact ⟨⟨_, block, hlen.1, hbin.1, hc⟩, hblocks⟩

/-- What `encrymsg` returns is base64 of encryptions of short blocks, at least one. -/
theorem encrymsg_blockFor {rng : Nat → forge.Seed} {publickey msg encrypted : JsString}
    {pk : forge.PublicKey} (hpk : forge.publicKeyFromPem (decode64 publickey) = some pk)
    (henc : encrymsg forge rng publickey msg = some encrypted) :
    ∃ cs : List JsString, encrypted = encode64 cs.flatten ∧ cs ≠ [] ∧ ∀ c ∈ cs, BlockFor pk c := by
  have hsize : 0 < rsamlen := by decide
  simp only [encrymsg, hpk, Option.bind_some, Option.bind_eq_some_iff, Option.map_eq_some_iff]
    at henc
  obtain ⟨bsmsg, hencode, out, hout, rfl⟩ := henc
  have hbin : IsBinary bsmsg := fun u hu => Nat.lt_trans (encode_ascii hencode u hu) (by omega)
  rw [encryptText] at hout
  split at hout
  · next hlong =>
    rw [cutLoop_eq_foldlM hsize _ (Nat.le_refl _), Option.map_eq_some_iff] at hout
    obtain ⟨acc, hfold, rfl⟩ := hout
    have hblock : ∀ block ∈ blocks rsamlen bsmsg, IsBinary block := by
      intro block hblock u hu
      apply hbin u
      rw [← blocks_flatten hsize bsmsg]
      exact List.mem_flatten.mpr ⟨block, hblock, hu⟩
    obtain ⟨cs, hcs, hcount, hfor⟩ := foldlM_encryptBlock_blockFor
      (length_le_of_mem_blocks hsize bsmsg) hblock hfold
    refine ⟨cs, by rw [hcs]; rfl, ?_, hfor⟩
    rintro rfl
    rw [blocks_of_lt hsize hlong] at hcount
    simp at hcount
  · next hshort =>
    refine ⟨[out], by simp, by simp, ?_⟩
    rw [List.forall_mem_singleton]
    exact ⟨_, bsmsg, by rw [← show rsamlen = 214 from rfl]; omega, hbin, hout⟩

theorem BlockFor.octets (hforge : forge.Faithful) {pk : forge.PublicKey} {sk : forge.PrivateKey}
    (hpair : forge.Matching pk sk) {c : JsString} (h : BlockFor pk c) :
    c.length = rsacrylen ∧ IsBinary c := by
  obtain ⟨seed, block, hlen, hbin, hc⟩ := h
  obtain ⟨c', hc', hfull, hcbin, -⟩ := hforge.decrypt_encrypt hpair seed block hlen hbin
  obtain rfl := Option.some.inj (hc.symm.trans hc')
  exact ⟨hfull, hcbin⟩

theorem publicKeyFromPem_getrsakey (hforge : forge.Faithful) (seed : forge.Seed) :
    forge.publicKeyFromPem (decode64 (getrsakey forge seed).publickey) =
      some (forge.generateKeyPair seed).1 := by
  rw [getrsakey, decode64_encode64 (hforge.publicKeyToPem_binary _)]
  exact hforge.publicKeyFromPem_toPem _

theorem privateKeyFromPem_getrsakey (hforge : forge.Faithful) (seed : forge.Seed) :
    forge.privateKeyFromPem (decode64 (getrsakey forge seed).privatekey) =
      some (forge.generateKeyPair seed).2 := by
  rw [getrsakey, decode64_encode64 (hforge.privateKeyToPem_binary _)]
  exact hforge.privateKeyFromPem_toPem _

theorem keyPair_getrsakey_iff (hforge : forge.Faithful) (seed seed' : forge.Seed) :
    forge.KeyPair (getrsakey forge seed).publickey (getrsakey forge seed').privatekey ↔
      forge.Matching (forge.generateKeyPair seed).1 (forge.generateKeyPair seed').2 := by
  simp [Forge.KeyPair, publicKeyFromPem_getrsakey hforge, privateKeyFromPem_getrsakey hforge]

/-- The private key of another pair decrypts nothing. -/
theorem decrymsg_otherKey (hforge : forge.Faithful) (hexclusive : forge.Exclusive)
    {seed seed' : forge.Seed}
    (hother : ¬ forge.KeyPair (getrsakey forge seed).publickey (getrsakey forge seed').privatekey)
    {rng : Nat → forge.Seed} {msg encrypted : JsString}
    (henc : encrymsg forge rng (getrsakey forge seed).publickey msg = some encrypted) :
    decrymsg forge (getrsakey forge seed').privatekey encrypted = none := by
  rw [keyPair_getrsakey_iff hforge] at hother
  obtain ⟨cs, rfl, hne, hfor⟩ := encrymsg_blockFor (publicKeyFromPem_getrsakey hforge seed) henc
  have hoctets := fun c hc => (hfor c hc).octets hforge (hforge.matching_generate seed)
  have hbin : IsBinary cs.flatten := by
    intro u hu
    obtain ⟨c, hc, hu⟩ := List.mem_flatten.mp hu
    exact (hoctets c hc).2 u hu
  rw [decrymsg, privateKeyFromPem_getrsakey hforge, Option.bind_some, decode64_encode64 hbin,
    decryptText_eq, blocks_flatten_full (by decide) hne fun c hc => (hoctets c hc).1]
  cases cs with
  | nil => exact absurd rfl hne
  | cons c rest =>
      obtain ⟨_, _, _, _, hc⟩ := hfor c List.mem_cons_self
      simp [List.mapM_cons, hexclusive hother hc]

/-! ## An instance -/

/-- Keys are numbers, and a block of ciphertext begins with its length and its key. -/
def labelForge : Forge where
  PublicKey := UInt8
  PrivateKey := UInt8
  Seed := UInt8
  Matching pk sk := pk = sk
  generateKeyPair seed := (seed, seed)
  publicKeyToPem pk := [pk.toUInt16]
  privateKeyToPem sk := [sk.toUInt16]
  publicKeyFromPem s := s.head?.map UInt16.toUInt8
  privateKeyFromPem s := s.head?.map UInt16.toUInt8
  encrypt pk _ m :=
    if m.length ≤ 214 then
      some (UInt16.ofNat m.length :: pk.toUInt16 :: (m ++ List.replicate (254 - m.length) 0))
    else none
  decrypt sk
    | n :: label :: padded =>
        if padded.length = 254 ∧ label = sk.toUInt16 then some (padded.take n.toNat) else none
    | _ => none
  md5Hex s := (s ++ List.replicate 32 48).take 32

theorem labelForge_exclusive : labelForge.Exclusive := by
  intro pk sk hother seed m c hc
  have hlabel : pk.toUInt16 ≠ sk.toUInt16 := fun heq => hother (UInt8.toUInt16_inj.mp heq)
  simp only [labelForge] at hc
  split at hc
  · obtain rfl := Option.some.inj hc
    simp [labelForge, hlabel]
  · contradiction

theorem labelForge_faithful : labelForge.Faithful where
  decrypt_encrypt := by
    rintro pk sk (rfl : pk = sk) seed m hlen hbin
    have hpad : m.length + (254 - m.length) = 254 := by omega
    have hn : (UInt16.ofNat m.length).toNat = m.length := by
      rw [UInt16.toNat_ofNat', Nat.mod_eq_of_lt (by omega)]
    refine ⟨_, if_pos hlen, by simp [hpad], ?_, by simp [labelForge, hpad, hn]⟩
    intro u hu
    simp only [List.mem_cons, List.mem_append, List.mem_replicate] at hu
    rcases hu with rfl | rfl | hu | ⟨-, rfl⟩
    · rw [hn]
      omega
    · exact pk.toNat_lt
    · exact hbin u hu
    · decide
  matching_generate := fun _ => rfl
  publicKeyFromPem_toPem := fun pk => congrArg some (UInt8.toUInt8_toUInt16 pk)
  privateKeyFromPem_toPem := fun sk => congrArg some (UInt8.toUInt8_toUInt16 sk)
  publicKeyToPem_binary := fun pk u hu => by
    rw [List.mem_singleton.mp hu]
    exact pk.toNat_lt
  privateKeyToPem_binary := fun sk u hu => by
    rw [List.mem_singleton.mp hu]
    exact sk.toNat_lt
  length_md5Hex := fun s => by
    simp only [labelForge, List.length_take, List.length_append, List.length_replicate]
    omega

end CodingLearners.SecretChat
