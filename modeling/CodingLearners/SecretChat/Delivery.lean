import CodingLearners.SecretChat.Addressing
import Mathlib.Data.List.Forall2

/-!
# What the receiver shows

Which payloads a key opens is said in terms of the ciphertext alone. Against
that stand the two checks of the receiver: that the sender is an imported
peer, and that the text is cut off where the sender put the marker.
-/

namespace CodingLearners.SecretChat

open Js CutLoop

variable {forge : Forge}

/-- `body` is base64 of blocks of ciphertext that the key decrypts one by one,
to the escapes of `text`. -/
def Encloses (key : RsaKey forge) (body text : JsString) : Prop :=
  ∃ sk parts, forge.privateKeyFromPem (decode64 key.privatekey) = some sk ∧
    List.Forall₂ (fun block part => forge.decrypt sk block = some part)
      (blocks rsacrylen (decode64 body)) parts ∧
    decodeURIComponent parts.flatten = some text

theorem mapM_eq_some_iff {α β : Type} {f : α → Option β} {as : List α} {bs : List β} :
    as.mapM f = some bs ↔ List.Forall₂ (fun a b => f a = some b) as bs := by
  induction as generalizing bs with
  | nil => simp [List.forall₂_nil_left_iff, eq_comm]
  | cons a rest ih =>
      cases bs with
      | nil =>
          rw [List.forall₂_nil_right_iff]
          cases hfa : f a <;> cases hrest : rest.mapM f <;> simp [List.mapM_cons, hfa, hrest]
      | cons b bs =>
          rw [List.forall₂_cons, ← ih]
          cases hfa : f a <;> cases hrest : rest.mapM f <;> simp [List.mapM_cons, hfa, hrest]

theorem decrymsg_eq_some_iff (key : RsaKey forge) (body text : JsString) :
    decrymsg forge key.privatekey body = some text ↔ Encloses key body text := by
  simp only [decrymsg, decryptText_eq, Option.bind_eq_some_iff, Option.map_eq_some_iff,
    mapM_eq_some_iff, Encloses]
  constructor
  · rintro ⟨sk, hsk, plain, ⟨parts, hparts, rfl⟩, htext⟩
    exact ⟨sk, parts, hsk, hparts, htext⟩
  · rintro ⟨sk, parts, hsk, hparts, htext⟩
    exact ⟨sk, hsk, _, ⟨parts, hparts, rfl⟩, htext⟩

/-! ## The sender of a secret message -/

/-- The payload comes from an imported peer, as far as its first 32 characters say. -/
def FromPeer (w : Window forge) (payloadString : JsString) : Prop :=
  ∃ peer ∈ w.peerinfos, peer.mdtit = payloadString.take 32

/-- The message is shown as a secret one only if it comes from a peer. -/
def SecretOnlyFromPeer (w : Window forge) (destinationName payloadString : JsString) : Prop :=
  ∀ shown, onMessageArrived w destinationName payloadString = some shown →
    shown.secret = true → FromPeer w payloadString

theorem shown_secret_iff (w : Window forge) {destinationName : JsString} (payloadString : JsString)
    (htopic : sspretitle <:+: destinationName) :
    (∃ shown, onMessageArrived w destinationName payloadString = some shown ∧
      shown.secret = true) ↔
    payloadString ≠ [] ∧ ∃ key text, w.curretrsakey = some key ∧ text ≠ [] ∧
      Encloses key (payloadString.drop 32) text := by
  by_cases hpayload : payloadString = []
  · simp [onMessageArrived, decryptArrived, hpayload]
  · simp only [onMessageArrived, decryptArrived_secret w htopic hpayload, Option.map_eq_some_iff,
      Option.bind_eq_some_iff, decrymsg_eq_some_iff, hpayload, not_false_eq_true, true_and, Ne]
    constructor
    · rintro ⟨shown, ⟨sim, ⟨key, hkey, hsim⟩, rfl⟩, hsecret⟩
      exact ⟨key, sim, hkey, by simpa using hsecret, hsim⟩
    · rintro ⟨key, text, hkey, htext, henclosed⟩
      exact ⟨_, ⟨text, ⟨key, hkey, henclosed⟩, rfl⟩, by simpa using htext⟩

/-- Whether a secret message is shown does not depend on the imported peers: it
is shown only if it comes from one exactly when it does come from one, or is
no ciphertext of a text for the own key. -/
theorem secretOnlyFromPeer_iff (forge : Forge) (w : Window forge)
    (destinationName payloadString : JsString) (htopic : sspretitle <:+: destinationName) :
    SecretOnlyFromPeer w destinationName payloadString ↔
      FromPeer w payloadString ∨ payloadString = [] ∨
        ∀ key text, w.curretrsakey = some key →
          Encloses key (payloadString.drop 32) text → text = [] := by
  have hshown := shown_secret_iff w payloadString htopic
  constructor
  · intro h
    by_cases hsecret : ∃ shown, onMessageArrived w destinationName payloadString = some shown ∧
        shown.secret = true
    · obtain ⟨shown, harrived, hsecret⟩ := hsecret
      exact Or.inl (h shown harrived hsecret)
    · rw [hshown] at hsecret
      by_cases hpayload : payloadString = []
      · exact Or.inr (Or.inl hpayload)
      · refine Or.inr (Or.inr fun key text hkey henclosed => ?_)
        by_contra htext
        exact hsecret ⟨hpayload, key, text, hkey, htext, henclosed⟩
  · rintro (hpeer | hpayload | hnone) shown harrived hsecret
    · exact hpeer
    · exact absurd hpayload (hshown.mp ⟨shown, harrived, hsecret⟩).1
    · obtain ⟨-, key, text, hkey, htext, henclosed⟩ := hshown.mp ⟨shown, harrived, hsecret⟩
      exact absurd (hnone key text hkey henclosed) htext

/-- What anybody encrypts with the published key is shown as a secret message. -/
theorem shown_of_encrymsg (hforge : forge.Faithful) {w : Window forge} {key : RsaKey forge}
    (hkey : w.curretrsakey = some key) (hpair : forge.KeyPair key.publickey key.privatekey)
    {destinationName sender encrypted msg : JsString} (htopic : sspretitle <:+: destinationName)
    (hsender : sender.length = 32) (rng : Nat → forge.Seed) (hmsg : isWellFormed msg = true)
    (hne : msg ≠ []) (henc : encrymsg forge rng key.publickey msg = some encrypted) :
    onMessageArrived w destinationName (sender ++ encrypted) =
      some ⟨true, unframe msg, destinationName⟩ := by
  obtain ⟨encrypted', henc', hdec⟩ := decrypted_of_keyPair hforge hpair rng hmsg
  obtain rfl : encrypted = encrypted' := Option.some.inj (henc.symm.trans henc')
  have hpayload : sender ++ encrypted ≠ [] := by
    intro hnil
    rw [(List.append_eq_nil_iff.mp hnil).1] at hsender
    contradiction
  have hsim : decryptArrived w destinationName (sender ++ encrypted) = some msg := by
    rw [decryptArrived_secret w htopic hpayload, hkey, Option.bind_some,
      List.drop_left' hsender, hdec]
  simp [onMessageArrived, hsim, hne]

/-- A page that has a key and no peers. -/
def loneWindow : Window paddingForge := ⟨some (getrsakey paddingForge [1]), [], []⟩

theorem loneWindow_key : loneWindow.curretrsakey = some (getrsakey paddingForge [1]) := rfl

/-- The text `hi` for the page, from a sender of this `mdtit`. -/
def payloadFrom (mdtit : JsString) : JsString :=
  mdtit ++ ((encrymsg paddingForge (fun _ => []) (getrsakey paddingForge [1]).publickey
    (units "hi")).getD [])

theorem payloadFrom_shown {w : Window paddingForge} {mdtit : JsString}
    (hkey : w.curretrsakey = some (getrsakey paddingForge [1])) (hmdtit : mdtit.length = 32) :
    onMessageArrived w (sspretitle ++ units "x") (payloadFrom mdtit) =
      some ⟨true, unframe (units "hi"), sspretitle ++ units "x"⟩ := by
  have hpair := keyPair_getrsakey paddingForge_faithful [1]
  have hmsg : isWellFormed (units "hi") = true := by decide
  obtain ⟨encrypted, henc, -⟩ :=
    decrypted_of_keyPair paddingForge_faithful hpair (fun _ => []) hmsg
  have hpayload : payloadFrom mdtit = mdtit ++ encrypted := by
    rw [payloadFrom, henc, Option.getD_some]
  rw [hpayload]
  exact shown_of_encrymsg paddingForge_faithful hkey hpair
    (List.prefix_append sspretitle (units "x")).isInfix hmdtit (fun _ => []) hmsg (by decide) henc

/-- A stranger's message is shown as a secret one. -/
theorem secret_from_stranger :
    ¬ SecretOnlyFromPeer loneWindow (sspretitle ++ units "x")
      (payloadFrom (List.replicate 32 48)) := by
  intro h
  obtain ⟨peer, hpeer, -⟩ := h _ (payloadFrom_shown loneWindow_key rfl) rfl
  exact absurd hpeer (List.not_mem_nil)

/-- A peer of the same page, and the page with it. -/
def knownPeer : Peer paddingForge := ⟨units "Ag==", units "usr-1", _, rfl⟩

def onePeerWindow : Window paddingForge :=
  ⟨some (getrsakey paddingForge [1]), [knownPeer], [peerOption knownPeer]⟩

/-- The peer's message is shown as a secret one. -/
theorem secretOnlyFromPeer_iff_onePeer :
    onMessageArrived onePeerWindow (sspretitle ++ units "x") (payloadFrom knownPeer.mdtit) =
        some ⟨true, unframe (units "hi"), sspretitle ++ units "x"⟩ ∧
      SecretOnlyFromPeer onePeerWindow (sspretitle ++ units "x")
        (payloadFrom knownPeer.mdtit) := by
  have hmdtit : knownPeer.mdtit.length = 32 := paddingForge_faithful.length_md5Hex _
  refine ⟨payloadFrom_shown rfl hmdtit, ?_⟩
  apply (secretOnlyFromPeer_iff paddingForge onePeerWindow _ _
    (List.prefix_append sspretitle (units "x")).isInfix).mpr
  exact Or.inl ⟨knownPeer, List.mem_singleton_self _, (List.take_left' hmdtit).symm⟩

/-! ## Messages that are not shown -/

/-- The handler completes and updates the display, for whatever arrives on
whatever topic, exactly if the topic is no secret one, or the payload is empty,
or the page has a key that decrypts what follows the first 32 characters. -/
theorem arrival_shown_iff (forge : Forge) (w : Window forge)
    (destinationName payloadString : JsString) :
    (∃ shown, onMessageArrived w destinationName payloadString = some shown ∧
      shown.topic = destinationName) ↔
    ¬ sspretitle <:+: destinationName ∨ payloadString = [] ∨
      ∃ key text, w.curretrsakey = some key ∧ Encloses key (payloadString.drop 32) text := by
  have hcompletes : (∃ shown, onMessageArrived w destinationName payloadString = some shown ∧
      shown.topic = destinationName) ↔
      ∃ sim, decryptArrived w destinationName payloadString = some sim := by
    simp [onMessageArrived, Option.map_eq_some_iff]
  rw [hcompletes]
  by_cases htopic : sspretitle <:+: destinationName
  · by_cases hpayload : payloadString = []
    · simp [decryptArrived, hpayload]
    · simp only [decryptArrived_secret w htopic hpayload, Option.bind_eq_some_iff,
        decrymsg_eq_some_iff, htopic, hpayload, not_true_eq_false, false_or]
      exact exists_comm
  · have hnone : indexOf sspretitle destinationName = none := indexOf_eq_none_iff.mpr htopic
    simp [decryptArrived, hnone, htopic]

/-- On a page without a key every secret message throws, and with a key one
whose tail is no ciphertext does. -/
theorem arrival_throws :
    onMessageArrived (onload paddingForge) (sspretitle ++ units "x") (units "x") = none ∧
      onMessageArrived loneWindow (sspretitle ++ units "x")
        (List.replicate 32 48 ++ units "AAAA") = none := by
  have htopic : sspretitle <:+: sspretitle ++ units "x" :=
    (List.prefix_append sspretitle (units "x")).isInfix
  constructor
  · rw [onMessageArrived, decryptArrived_secret _ htopic (by decide)]
    rfl
  · rw [onMessageArrived, decryptArrived_secret _ htopic (by decide), loneWindow_key]
    decide

/-! ## The text of a secret message -/

/-- A send to an imported peer arrives there, on its own topic, as the unframed text. -/
theorem shown_of_sendmqttmsga (hforge : forge.Faithful) (optionText : JsString → JsString)
    {sender receiver : Window forge} {own key : RsaKey forge}
    (hown : sender.curretrsakey = some own) (hkey : receiver.curretrsakey = some key)
    (hpair : forge.KeyPair key.publickey key.privatekey) {i : Option Nat} {peer : Peer forge}
    (hfound : getThepeerInfo optionText sender i = some peer)
    (haddressed : peer.publickey = key.publickey) {sendmsg : JsString} (hmsg : sendmsg ≠ [])
    (hwf : isWellFormed sendmsg = true) (array : List UInt8) (rng : Nat → forge.Seed) :
    ∃ sending payload,
      sendmqttmsga optionText sender i sendmsg array rng = some sending ∧
      sending.payload = some payload ∧
      sending.sendtopic = sspretitle ++ getmd5key forge key.publickey ∧
      onMessageArrived receiver sending.sendtopic payload =
        some ⟨true, unframe (msgnstr sendmsg array), sending.sendtopic⟩ := by
  obtain ⟨sending, hsend, -, htopic, hpayload⟩ :=
    sendmqttmsga_found optionText hown hfound hmsg array rng
  have hframe := (@isWellFormed_msgnstr sendmsg array).mpr hwf
  obtain ⟨encrypted, henc, -⟩ := decrypted_of_keyPair hforge hpair rng hframe
  rw [haddressed, henc, Option.map_some] at hpayload
  have hprefixed : sspretitle <:+: sending.sendtopic := by
    rw [htopic]
    exact (List.prefix_append _ _).isInfix
  have hsender : own.publickeymd.length = 32 := by
    rw [own.publickeymd_eq]
    exact hforge.length_md5Hex _
  refine ⟨sending, _, hsend, hpayload, by rw [htopic, peer.mdtit_eq, haddressed], ?_⟩
  exact shown_of_encrymsg hforge hkey hpair hprefixed hsender rng hframe (by simp [msgnstr]) henc

/-- The addressed peer shows exactly the typed text if and only if the marker
does not occur in it. -/
theorem shown_eq_typed_iff (forge : Forge) (hforge : forge.Faithful)
    (optionText : JsString → JsString) (sender receiver : Window forge) (own key : RsaKey forge)
    (hown : sender.curretrsakey = some own) (hkey : receiver.curretrsakey = some key)
    (hpair : forge.KeyPair key.publickey key.privatekey) (i : Option Nat) (peer : Peer forge)
    (hfound : getThepeerInfo optionText sender i = some peer)
    (haddressed : peer.publickey = key.publickey) (sendmsg : JsString) (hmsg : sendmsg ≠ [])
    (hwf : isWellFormed sendmsg = true) (array : List UInt8) (rng : Nat → forge.Seed) :
    ∃ sending payload shown,
      sendmqttmsga optionText sender i sendmsg array rng = some sending ∧
      sending.payload = some payload ∧
      sending.sendtopic = sspretitle ++ getmd5key forge key.publickey ∧
      onMessageArrived receiver sending.sendtopic payload = some shown ∧
      (shown.text = sendmsg ↔ marker ∉ sendmsg) := by
  obtain ⟨sending, payload, hsend, hpayload, htopic, harrived⟩ :=
    shown_of_sendmqttmsga hforge optionText hown hkey hpair hfound haddressed hmsg hwf array rng
  exact ⟨sending, payload, _, hsend, hpayload, htopic, harrived,
    unframe_msgnstr_eq_iff sendmsg array⟩

/-- A page that has imported the key of `loneWindow` selects its only option. -/
def friendWindow : Window paddingForge :=
  fimportpeerkey ⟨some (getrsakey paddingForge [2]), [], []⟩
    (some ⟨(getrsakey paddingForge [1]).publickey, units "usr-1"⟩)

theorem friendWindow_key : friendWindow.curretrsakey = some (getrsakey paddingForge [2]) :=
  fimportpeerkey_curretrsakey _ _

theorem friendWindow_finds : getThepeerInfo id friendWindow (some 0) =
    some ⟨(getrsakey paddingForge [1]).publickey, units "usr-1", _, rfl⟩ := by
  have himported : (getrsakey paddingForge [2]).publickey ≠
      (getrsakey paddingForge [1]).publickey := by decide
  have hkey : (getrsakey paddingForge [1]).publickey ≠ [] := by decide
  have halias : units "usr-1" ≠ [] := by decide
  simp [friendWindow, fimportpeerkey, peerAddtoSelectItems, peerOption, getThepeerInfo,
    searchPeers, himported, hkey, halias]

/-- A text that contains the marker is cut off before it. -/
theorem typed_cutOff :
    ∃ sending payload,
      sendmqttmsga id friendWindow (some 0) [97, marker, 98] [7] (fun _ => []) = some sending ∧
      sending.payload = some payload ∧
      onMessageArrived loneWindow sending.sendtopic payload =
        some ⟨true, [97], sending.sendtopic⟩ := by
  have hne : ([97, marker, 98] : JsString) ≠ [] := by decide
  obtain ⟨sending, payload, hsend, hpayload, -, harrived⟩ :=
    shown_of_sendmqttmsga paddingForge_faithful id friendWindow_key loneWindow_key
      (keyPair_getrsakey paddingForge_faithful [1]) friendWindow_finds rfl
      hne (by decide) [7] (fun _ => [])
  exact ⟨sending, payload, hsend, hpayload, harrived⟩

theorem shown_eq_typed_iff_plainText :
    ∃ sending payload shown,
      sendmqttmsga id friendWindow (some 0) (units "hi") [7] (fun _ => []) = some sending ∧
      sending.payload = some payload ∧
      onMessageArrived loneWindow sending.sendtopic payload = some shown ∧
      shown.text = units "hi" := by
  obtain ⟨sending, payload, shown, hsend, hpayload, -, harrived, hiff⟩ :=
    shown_eq_typed_iff paddingForge paddingForge_faithful id friendWindow loneWindow
      (getrsakey paddingForge [2]) (getrsakey paddingForge [1]) friendWindow_key loneWindow_key
      (keyPair_getrsakey paddingForge_faithful [1]) (some 0) _ friendWindow_finds rfl
      (units "hi") (by decide) (by decide) [7] (fun _ => [])
  exact ⟨sending, payload, shown, hsend, hpayload, harrived, hiff.mpr (by decide)⟩

end CodingLearners.SecretChat
