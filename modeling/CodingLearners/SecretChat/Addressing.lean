import CodingLearners.SecretChat.MqttClient

/-!
# Which peer a message is sent to

The option the user selects was created for one peer; the send looks a peer up
by the text of the option. A run of imports keeps options and peers in step,
so that both peers are known, and the send is right when they have one key.
-/

namespace CodingLearners.SecretChat

open Js

variable {forge : Forge}

/-- The `i`-th option was created for the `i`-th peer. -/
def InStep (w : Window forge) : Prop :=
  w.selectthispeerns = w.peerinfos.map peerOption

/-- Peers are imported only when the page has a key. -/
def HasKey (w : Window forge) : Prop := w.peerinfos ≠ [] → w.curretrsakey ≠ none

theorem keyStep_inStep {w : Window forge} (h : InStep w) (act : KeyAct forge) :
    InStep (keyStep w act) := by
  cases act with
  | creatensskey seed => exact h
  | fimportpeerkey peerj =>
      simp only [keyStep, fimportpeerkey]
      split
      · split
        · simp only [InStep, peerAddtoSelectItems, List.map_append, List.map_cons, List.map_nil]
          rw [h]
        · exact h
      · exact h

theorem keyStep_hasKey {w : Window forge} (h : HasKey w) (act : KeyAct forge) :
    HasKey (keyStep w act) := by
  cases act with
  | creatensskey seed => simp [HasKey, keyStep, creatensskey]
  | fimportpeerkey peerj =>
      simp only [HasKey, keyStep, fimportpeerkey_curretrsakey]
      cases hkey : w.curretrsakey with
      | some key => simp
      | none =>
          have hsame : fimportpeerkey w peerj = w := by
            cases peerj <;> simp [fimportpeerkey, hkey]
          rw [hsame]
          exact fun hpeers => absurd hkey (h hpeers)

theorem onload_inStep : InStep (onload forge) := rfl

theorem pageAfter_inStep (acts : List (KeyAct forge)) : InStep (pageAfter acts) :=
  Runs.run_invariant InStep (fun _ act h => keyStep_inStep h act) onload_inStep acts

theorem pageAfter_hasKey (acts : List (KeyAct forge)) : HasKey (pageAfter acts) :=
  Runs.run_invariant HasKey (fun _ act h => keyStep_hasKey h act) (fun h => absurd rfl h) acts

/-- The last imported peer whose alias is `text`. -/
def LastNamed (peerinfos : List (Peer forge)) (text : JsString) (peer : Peer forge) : Prop :=
  ∃ earlier later, peerinfos = earlier ++ peer :: later ∧ peer.aliasn = text ∧
    ∀ other ∈ later, other.aliasn ≠ text

theorem searchPeers_aliasn (peerinfos : List (Peer forge)) {text : JsString} (htext : text ≠ [])
    (peer : Peer forge) :
    searchPeers peerinfos (fun value => decide (text ≠ [] ∧ value.aliasn = text)) = some peer ↔
      LastNamed peerinfos text peer := by
  rw [searchPeers_eq, List.find?_eq_some_iff_append]
  constructor
  · rintro ⟨hpeer, later, earlier, hsplit, hlater⟩
    refine ⟨earlier.reverse, later.reverse, ?_, by simpa [htext] using hpeer, ?_⟩
    · have := congrArg List.reverse hsplit
      simpa using this
    · intro other hother
      simpa [htext] using hlater other (List.mem_reverse.mp hother)
  · rintro ⟨earlier, later, rfl, hpeer, hlater⟩
    refine ⟨by simp [htext, hpeer], later.reverse, earlier.reverse, by simp, ?_⟩
    intro other hother
    simpa [htext] using hlater other (List.mem_reverse.mp hother)

theorem searchPeers_empty (peerinfos : List (Peer forge)) :
    searchPeers peerinfos (fun value => decide (([] : JsString) ≠ [] ∧ value.aliasn = [])) =
      none := by
  rw [searchPeers_eq, List.find?_eq_none]
  simp

/-- The lookup for the option of the `i`-th peer. -/
theorem getThepeerInfo_inStep (optionText : JsString → JsString) {w : Window forge}
    (hw : InStep w) {i : Nat} {peer : Peer forge} (hpeer : w.peerinfos[i]? = some peer) :
    getThepeerInfo optionText w (some i) =
      searchPeers w.peerinfos fun value =>
        decide (optionText peer.aliasn ≠ [] ∧ value.aliasn = optionText peer.aliasn) := by
  have hopt : w.selectthispeerns[i]? = some (peerOption peer) := by
    rw [hw, List.getElem?_map, hpeer, Option.map_some]
  simp only [getThepeerInfo, Option.bind_some, hopt, peerOption]

/-- The send goes to `peer`: the text is encrypted with the key of `peer`, and what is
published is this ciphertext, behind the digest of the own key, on the topic of `peer`. -/
def SentTo (w : Window forge) (connected : Bool) (optionText : JsString → JsString) (i : Nat)
    (sendmsg : JsString) (array : List UInt8) (rng : Nat → forge.Seed) (peer : Peer forge) : Prop :=
  ∃ own sending encrypted, w.curretrsakey = some own ∧
    sendmqttmsga optionText w (some i) sendmsg array rng = some sending ∧
    sending.publickey = some peer.publickey ∧
    encrymsg forge rng peer.publickey (msgnstr sendmsg array) = some encrypted ∧
    clientSend connected sending =
      some (sspretitle ++ peer.mdtit, own.publickeymd ++ encrypted)

theorem sendmqttmsga_found (optionText : JsString → JsString) {w : Window forge}
    {own : RsaKey forge} (hown : w.curretrsakey = some own) {i : Option Nat} {peer : Peer forge}
    (hfound : getThepeerInfo optionText w i = some peer) {sendmsg : JsString} (hmsg : sendmsg ≠ [])
    (array : List UInt8) (rng : Nat → forge.Seed) :
    ∃ sending, sendmqttmsga optionText w i sendmsg array rng = some sending ∧
      sending.publickey = some peer.publickey ∧ sending.sendtopic = sspretitle ++ peer.mdtit ∧
      sending.payload = (encrymsg forge rng peer.publickey (msgnstr sendmsg array)).map
        (own.publickeymd ++ ·) := by
  have hpre : sspretitle ≠ [] := by decide
  refine ⟨_, if_pos ⟨hmsg, by simp [hpre]⟩, by simp [hfound], by simp [hfound], ?_⟩
  simp only [hfound, hown, Option.map_some, Option.bind_some]
  cases encrymsg forge rng peer.publickey (msgnstr sendmsg array) <;> rfl

theorem sendmqttmsga_nonempty {optionText : JsString → JsString} {w : Window forge}
    {i : Option Nat} {sendmsg : JsString} {array : List UInt8} {rng : Nat → forge.Seed}
    {sending : Sending} (h : sendmqttmsga optionText w i sendmsg array rng = some sending) :
    sendmsg ≠ [] := by
  rintro rfl
  simp [sendmqttmsga] at h

theorem sendmqttmsga_notFound (optionText : JsString → JsString) {w : Window forge}
    {i : Option Nat} (hfound : getThepeerInfo optionText w i = none) {sendmsg : JsString}
    (array : List UInt8) (rng : Nat → forge.Seed) {sending : Sending}
    (h : sendmqttmsga optionText w i sendmsg array rng = some sending) :
    sending.publickey = none := by
  simp only [sendmqttmsga, hfound] at h
  split at h
  · obtain rfl := Option.some.inj h
    rfl
  · contradiction

/-- What a send that finds a peer publishes, and when it publishes nothing. -/
theorem clientSend_found {connected : Bool} {sending : Sending} {topic : JsString}
    {own : JsString} {encrypted : Option JsString} (htopic : sending.sendtopic = topic)
    (hpayload : sending.payload = encrypted.map (own ++ ·)) :
    clientSend connected sending =
      if connected = true then encrypted.map fun text => (topic, own ++ text) else none := by
  rw [clientSend, htopic, hpayload, Option.map_map]
  rfl

/-- After any sequence of key creations and imports, and for every option, the
message goes to the peer of the option if and only if the page is connected, there
is a text without lone surrogates, the last imported peer with the shown text as its
alias has the key of that peer, and this key is the PEM of one that takes the text. -/
theorem sentTo_selected_iff (forge : Forge) (optionText : JsString → JsString)
    (acts : List (KeyAct forge)) (i : Nat) (peer : Peer forge)
    (hpeer : (pageAfter acts).peerinfos[i]? = some peer) (connected : Bool) (sendmsg : JsString)
    (array : List UInt8) (rng : Nat → forge.Seed) :
    (pageAfter acts).selectthispeerns[i]? = some (peerOption peer) ∧
    (SentTo (pageAfter acts) connected optionText i sendmsg array rng peer ↔
      (connected = true ∧ sendmsg ≠ [] ∧ isWellFormed sendmsg = true) ∧
      (optionText peer.aliasn ≠ [] ∧
        ∃ found, LastNamed (pageAfter acts).peerinfos (optionText peer.aliasn) found ∧
          found.publickey = peer.publickey) ∧
      ∃ pk, forge.publicKeyFromPem (decode64 peer.publickey) = some pk ∧
        TakesBlocks forge pk rng (msgnstr sendmsg array)) := by
  have hstep := pageAfter_inStep acts
  have hlookup := getThepeerInfo_inStep optionText hstep hpeer
  refine ⟨by rw [hstep, List.getElem?_map, hpeer, Option.map_some], ?_, ?_⟩
  · rintro ⟨own, sending, encrypted, hown, hsend, hpublic, henc, hpublished⟩
    have hmsg := sendmqttmsga_nonempty hsend
    have hconnected : connected = true := by
      by_contra hoff
      simp [clientSend, hoff] at hpublished
    obtain ⟨hframe, pk, hpk, htakes⟩ := (encrymsg_isSome_iff rng peer.publickey _).mp
      (Option.isSome_iff_exists.mpr ⟨encrypted, henc⟩)
    refine ⟨⟨hconnected, hmsg, isWellFormed_msgnstr.mp hframe⟩, ?_, pk, hpk, htakes⟩
    cases hfound : getThepeerInfo optionText (pageAfter acts) (some i) with
    | none =>
        have := sendmqttmsga_notFound optionText hfound array rng hsend
        rw [hpublic] at this
        contradiction
    | some found =>
        obtain ⟨sending', hsend', hpublic', -⟩ :=
          sendmqttmsga_found optionText hown hfound hmsg array rng
        rw [hsend] at hsend'
        obtain rfl := Option.some.inj hsend'
        have hkey : found.publickey = peer.publickey := by
          rw [← Option.some.injEq, ← hpublic', hpublic]
        have htext : optionText peer.aliasn ≠ [] := by
          intro hempty
          rw [hlookup, hempty, searchPeers_empty] at hfound
          contradiction
        rw [hlookup, searchPeers_aliasn _ htext] at hfound
        exact ⟨htext, found, hfound, hkey⟩
  · rintro ⟨⟨hconnected, hmsg, hwf⟩, ⟨htext, found, hlast, hkey⟩, pk, hpk, htakes⟩
    have hfound := hlookup.trans ((searchPeers_aliasn _ htext found).mpr hlast)
    have hne : (pageAfter acts).peerinfos ≠ [] := by
      intro hnil
      simp [hnil] at hpeer
    obtain ⟨own, hown⟩ := Option.ne_none_iff_exists'.mp (pageAfter_hasKey acts hne)
    obtain ⟨sending, hsend, hpublic, htopic, hpayload⟩ :=
      sendmqttmsga_found optionText hown hfound hmsg array rng
    have hmd : found.mdtit = peer.mdtit := by rw [found.mdtit_eq, peer.mdtit_eq, hkey]
    obtain ⟨encrypted, henc⟩ := Option.isSome_iff_exists.mp
      ((encrymsg_isSome_iff rng peer.publickey _).mpr
        ⟨isWellFormed_msgnstr.mpr hwf, pk, hpk, htakes⟩)
    rw [hkey, henc] at hpayload
    refine ⟨own, sending, encrypted, hown, hsend, by rw [hpublic, hkey], henc, ?_⟩
    rw [clientSend_found (htopic.trans (by rw [hmd])) hpayload, if_pos hconnected, Option.map_some]

/-- The public key of a peer file: the base64 of the PEM. -/
def peerKey (octet : UInt8) : JsString := encode64 (publicKeyPem (List.replicate 256 octet))

/-- Two peers of one alias are imported. -/
def equalAliases : List (KeyAct pemForge) :=
  [.creatensskey (List.replicate 256 0xC5), .fimportpeerkey (some ⟨peerKey 0xC1, units "usr-1"⟩),
    .fimportpeerkey (some ⟨peerKey 0xC3, units "usr-1"⟩)]

theorem equalAliases_peerinfos :
    ∃ first second : Peer pemForge, (pageAfter equalAliases).peerinfos = [first, second] ∧
      (first.publickey = peerKey 0xC1 ∧ first.aliasn = units "usr-1") ∧
      (second.publickey = peerKey 0xC3 ∧ second.aliasn = units "usr-1") := by
  have hpeers : (pageAfter equalAliases).peerinfos.map (fun peer => (peer.publickey, peer.aliasn)) =
      [(peerKey 0xC1, units "usr-1"), (peerKey 0xC3, units "usr-1")] := by
    decide +kernel
  obtain ⟨first, rest, hsplit, hfirst, hrest⟩ := List.map_eq_cons_iff.mp hpeers
  obtain ⟨second, hrest, hsecond⟩ := List.map_eq_singleton_iff.mp hrest
  rw [hrest] at hsplit
  exact ⟨first, second, hsplit, Prod.mk.inj hfirst, Prod.mk.inj hsecond⟩

/-- The option of the first of them sends to the second. -/
theorem equalAliases_sentToOther :
    ∃ first second : Peer pemForge, (pageAfter equalAliases).peerinfos = [first, second] ∧
      first.publickey = peerKey 0xC1 ∧ second.publickey = peerKey 0xC3 ∧
      SentTo (pageAfter equalAliases) true id 0 (units "hi") [7] (fun _ => []) second ∧
      ¬ SentTo (pageAfter equalAliases) true id 0 (units "hi") [7] (fun _ => []) first := by
  obtain ⟨first, second, hpeers, ⟨hfirst, halias⟩, hsecond, halias'⟩ := equalAliases_peerinfos
  have hlast : LastNamed (pageAfter equalAliases).peerinfos (units "usr-1") second :=
    ⟨[first], [], hpeers, halias', by simp⟩
  have hfound : getThepeerInfo id (pageAfter equalAliases) (some 0) = some second := by
    rw [getThepeerInfo_inStep id (pageAfter_inStep _) (by rw [hpeers]; rfl), halias]
    exact (searchPeers_aliasn _ (by decide) second).mpr hlast
  obtain ⟨own, hown⟩ := Option.ne_none_iff_exists'.mp
    (pageAfter_hasKey equalAliases (by rw [hpeers]; simp))
  obtain ⟨sending, hsend, hpublic, htopic, hpayload⟩ :=
    sendmqttmsga_found id hown hfound (show units "hi" ≠ [] by decide) [7] fun _ => []
  obtain ⟨encrypted, henc⟩ := Option.isSome_iff_exists.mp
    (show (encrymsg pemForge (fun _ => []) (peerKey 0xC3)
      (msgnstr (units "hi") [7])).isSome = true by decide +kernel)
  rw [← hsecond] at henc
  rw [henc] at hpayload
  refine ⟨first, second, hpeers, hfirst, hsecond, ⟨own, sending, encrypted, hown, hsend, hpublic,
    henc, ?_⟩, ?_⟩
  · rw [clientSend_found htopic hpayload, if_pos rfl, Option.map_some]
  rintro ⟨_, sending', _, _, hsend', hpublic', _⟩
  obtain rfl := Option.some.inj (hsend.symm.trans hsend')
  rw [hpublic, hfirst, hsecond, Option.some.injEq] at hpublic'
  exact absurd hpublic' (by decide +kernel)

/-- The option of the second one sends to it. -/
theorem sentTo_selected_iff_equalAliases :
    ∃ peer : Peer pemForge, (pageAfter equalAliases).peerinfos[1]? = some peer ∧
      peer.publickey = peerKey 0xC3 ∧
      SentTo (pageAfter equalAliases) true id 1 (units "hi") [7] (fun _ => []) peer := by
  obtain ⟨first, second, hpeers, -, hsecond, halias⟩ := equalAliases_peerinfos
  have hpem : parsePublicKeyPem (decode64 (peerKey 0xC3)) = some (List.replicate 256 0xC3) := by
    decide +kernel
  rw [← hsecond] at hpem
  have hat : (pageAfter equalAliases).peerinfos[1]? = some second := by rw [hpeers]; rfl
  have hlast : LastNamed (pageAfter equalAliases).peerinfos (id second.aliasn) second :=
    ⟨[first], [], hpeers, rfl, by simp⟩
  have htext : id second.aliasn ≠ [] := by
    rw [halias]
    decide
  refine ⟨second, hat, hsecond, ?_⟩
  apply (sentTo_selected_iff pemForge id equalAliases 1 second hat true (units "hi") [7]
    fun _ => []).2.mpr
  refine ⟨⟨rfl, by decide, by decide⟩, ⟨htext, second, hlast, rfl⟩, List.replicate 256 0xC3, ?_,
    pemForge_takesBlocks _ _ _⟩
  simpa only [pemForge] using hpem

end CodingLearners.SecretChat
