import CodingLearners.Library.Runs
import CodingLearners.Library.WellFormed
import CodingLearners.SecretChat.SecretIo

/-!
# `mqttclienta.js` and the import of `fileio.js`

The page keeps its own key, the imported peers and the options of the select
element. A send is a function of the selected option, the typed text and the
random octets; an arrival is a function of topic and payload.

## Implementation notes

`{}` as the result of a search over the peers is `none`. The text that the
browser shows for an option is the parameter `optionText` of its `innerHTML`.
-/

namespace CodingLearners.SecretChat

open Js

def sspretitle : JsString := units "82109a0b-e411-4e2a-94a3-64a88fc9752f-ss-"

/-- `'\ue101'` -/
def marker : UInt16 := 0xE101

variable (forge : Forge)

/-- An element of `window.peerinfos`. -/
structure Peer where
  publickey : JsString
  aliasn : JsString
  mdtit : JsString
  mdtit_eq : mdtit = getmd5key forge publickey

/-- An `option` element. -/
structure SelectOption where
  value : JsString
  innerHTML : JsString
  deriving DecidableEq

structure Window where
  curretrsakey : Option (RsaKey forge)
  peerinfos : List (Peer forge)
  selectthispeerns : List SelectOption

/-- The window after `window.onload`. -/
def onload : Window forge := ⟨none, [], []⟩

variable {forge}

/-! ## Keys and peers -/

/-- The option that `peer_addto_select_items` creates. -/
def peerOption (peer : Peer forge) : SelectOption := ⟨peer.mdtit, peer.aliasn⟩

def peerAddtoSelectItems (w : Window forge) (peer : Peer forge) : Window forge :=
  { w with selectthispeerns := w.selectthispeerns ++ [peerOption peer] }

def creatensskey (w : Window forge) (seed : forge.Seed) : Window forge :=
  { w with curretrsakey := some (getrsakey forge seed) }

/-- What `JSON.parse` finds in a peer file; a missing field is empty. -/
structure PeerFile where
  publickey : JsString
  aliasn : JsString

/-- The `onload` of the file reader; `none` is a file that is not JSON. -/
def fimportpeerkey (w : Window forge) (peerj : Option PeerFile) : Window forge :=
  match peerj, w.curretrsakey with
  | some peerj, some key =>
      if peerj.publickey ≠ [] ∧ peerj.aliasn ≠ [] ∧ key.publickey ≠ peerj.publickey then
        let peer : Peer forge :=
          ⟨peerj.publickey, peerj.aliasn, getmd5key forge peerj.publickey, rfl⟩
        peerAddtoSelectItems { w with peerinfos := w.peerinfos ++ [peer] } peer
      else w
  | _, _ => w

/-- What the user does to the keys and peers of the page. -/
inductive KeyAct (forge : Forge)
  | creatensskey (seed : forge.Seed)
  | fimportpeerkey (peerj : Option PeerFile)

def keyStep (w : Window forge) : KeyAct forge → Window forge
  | .creatensskey seed => creatensskey w seed
  | .fimportpeerkey peerj => fimportpeerkey w peerj

/-- The page after a sequence of key creations and imports. -/
def pageAfter (acts : List (KeyAct forge)) : Window forge := Runs.run keyStep (onload forge) acts

/-! ## Sending -/

/-- The `forEach` that keeps the last match. -/
def searchPeers (peerinfos : List (Peer forge)) (isMatch : Peer forge → Bool) :
    Option (Peer forge) :=
  peerinfos.foldl (fun pinf value => if isMatch value then some value else pinf) none

/-- `selectedIndex` is `none` for `-1`. -/
def getThepeerInfo (optionText : JsString → JsString) (w : Window forge)
    (selectedIndex : Option Nat) : Option (Peer forge) :=
  let text := match selectedIndex.bind fun index => w.selectthispeerns[index]? with
    | some opt => optionText opt.innerHTML
    | none => []
  searchPeers w.peerinfos fun value => decide (text ≠ [] ∧ value.aliasn = text)

/-- `array.join('x')` of random octets. -/
def getcryptrandom (array : List UInt8) : JsString :=
  List.intercalate (units "x")
    (array.map fun octet => (Nat.toDigits 10 octet.toNat).map fun c => c.toNat.toUInt16)

/-- The text that is encrypted. -/
def msgnstr (sendmsg : JsString) (array : List UInt8) : JsString :=
  sendmsg ++ [marker] ++ getcryptrandom array

/-- What `encrymsg` is called with, the topic, and the payload if nothing throws. -/
structure Sending where
  publickey : Option JsString
  sendtopic : JsString
  payload : Option JsString

/-- `sendmqttmsga`; nothing happens for an empty text. -/
def sendmqttmsga (optionText : JsString → JsString) (w : Window forge)
    (selectedIndex : Option Nat) (sendmsg : JsString) (array : List UInt8)
    (rng : Nat → forge.Seed) : Option Sending :=
  let peerinf := getThepeerInfo optionText w selectedIndex
  let sendtopic := sspretitle ++ (peerinf.map Peer.mdtit).getD (units "undefined")
  if sendmsg ≠ [] ∧ sendtopic ≠ [] then
    some
      { publickey := peerinf.map Peer.publickey
        sendtopic := sendtopic
        payload := (peerinf.map Peer.publickey).bind fun publickey =>
          (encrymsg forge rng publickey (msgnstr sendmsg array)).bind fun encrypted =>
            w.curretrsakey.map fun key => key.publickeymd ++ encrypted }
  else none

/-- `client.send`: the topic and the payload that are published. It throws while
the client is not connected. -/
def clientSend (connected : Bool) (sending : Sending) : Option (JsString × JsString) :=
  if connected = true then sending.payload.map fun payload => (sending.sendtopic, payload)
  else none

/-! ## Receiving -/

/-- The property `len` of a string, which has `length` but no `len`. -/
def propertyLen (_ : JsString) : Option Nat := none

def findRcvpeerInfo (w : Window forge) (keymd : JsString) : Option (Peer forge) :=
  if keymd ≠ [] ∧ propertyLen keymd = some 32 then
    searchPeers w.peerinfos fun value => decide (value.mdtit = keymd)
  else none

/-- The condition `if(rcvpper)`: an object is true, `{}` as well. -/
def objectCondition (_ : Option (Peer forge)) : Bool := true

/-- What is shown of a message, and whether it is a decrypted text. -/
structure Displayed where
  secret : Bool
  text : JsString
  topic : JsString
  deriving DecidableEq

/-- The value of `sim`; an exception is `none`. -/
def decryptArrived (w : Window forge) (destinationName payloadString : JsString) :
    Option JsString :=
  if (indexOf sspretitle destinationName).isSome ∧ payloadString ≠ [] then
    let rcvpper := findRcvpeerInfo w (payloadString.take 32)
    if objectCondition rcvpper then
      w.curretrsakey.bind fun key => decrymsg forge key.privatekey (payloadString.drop 32)
    else some []
  else some []

/-- `search('\ue101')` and the cut with `substr`. -/
def unframe (receivmsg : JsString) : JsString :=
  match indexOf [marker] receivmsg with
  | some findt => receivmsg.take findt
  | none => receivmsg

/-- `client.onMessageArrived`; an exception is `none`. -/
def onMessageArrived (w : Window forge) (destinationName payloadString : JsString) :
    Option Displayed :=
  (decryptArrived w destinationName payloadString).map fun sim =>
    let receivmsg := if sim ≠ [] then sim else payloadString
    { secret := decide (sim ≠ [])
      text := unframe receivmsg
      topic := destinationName }

/-! ## One lemma for each function -/

theorem fimportpeerkey_curretrsakey (w : Window forge) (peerj : Option PeerFile) :
    (fimportpeerkey w peerj).curretrsakey = w.curretrsakey := by
  simp only [fimportpeerkey]
  split
  · split <;> rfl
  · rfl

theorem searchPeers_eq (peerinfos : List (Peer forge)) (isMatch : Peer forge → Bool) :
    searchPeers peerinfos isMatch = peerinfos.reverse.find? isMatch := by
  suffices ∀ pinf, peerinfos.foldl
      (fun pinf value => if isMatch value then some value else pinf) pinf =
        (peerinfos.reverse.find? isMatch).or pinf by
    rw [searchPeers, this none, Option.or_none]
  induction peerinfos with
  | nil => simp
  | cons value rest ih =>
      intro pinf
      rw [List.foldl_cons, ih, List.reverse_cons, List.find?_append, Option.or_assoc]
      cases h : isMatch value <;> simp [h]

theorem getcryptrandom_units (array : List UInt8) : ∀ u ∈ getcryptrandom array, u.toNat < 128 := by
  have hdigits : ∀ octet, ∀ u ∈ (Nat.toDigits 10 octet).map fun c => c.toNat.toUInt16,
      u.toNat < 128 := by
    intro octet u hu
    have := mem_decimal hu
    omega
  rw [getcryptrandom]
  induction array with
  | nil => simp [List.intercalate]
  | cons octet rest ih =>
      intro u hu
      rw [List.map_cons] at hu
      cases rest with
      | nil =>
          simp only [List.map_nil, List.intercalate, List.intersperse_singleton, List.flatten_cons,
            List.flatten_nil, List.append_nil] at hu
          exact hdigits octet.toNat u hu
      | cons next rest =>
          simp only [List.map_cons, List.intercalate, List.intersperse_cons_cons, List.flatten_cons,
            List.mem_append] at hu ih
          rcases hu with hu | hu | hu
          · exact hdigits octet.toNat u hu
          · obtain rfl : u = 120 := List.mem_singleton.mp hu
            decide
          · exact ih u hu

/-- The frame is well formed exactly if the text is: the marker is no surrogate. -/
theorem isWellFormed_msgnstr {sendmsg : JsString} {array : List UInt8} :
    isWellFormed (msgnstr sendmsg array) = true ↔ isWellFormed sendmsg = true := by
  have htail : isWellFormed (marker :: getcryptrandom array) = true := by
    refine isWellFormed_of_forall fun u hu => ?_
    rcases List.mem_cons.mp hu with rfl | hu
    · exact Or.inr (by decide)
    · have := getcryptrandom_units array u hu
      omega
  have hmarker : ∀ u ∈ (marker :: getcryptrandom array).head?, isTrail u = false := by
    simpa using (by decide : isTrail marker = false)
  rw [msgnstr, List.append_assoc, List.singleton_append, isWellFormed_append_iff hmarker,
    and_iff_left htail]

theorem decryptArrived_secret (w : Window forge) {destinationName payloadString : JsString}
    (htopic : sspretitle <:+: destinationName) (hpayload : payloadString ≠ []) :
    decryptArrived w destinationName payloadString =
      w.curretrsakey.bind fun key => decrymsg forge key.privatekey (payloadString.drop 32) := by
  have hfound : (indexOf sspretitle destinationName).isSome = true := by
    rw [← Option.ne_none_iff_isSome, Ne, indexOf_eq_none_iff, not_not]
    exact htopic
  simp [decryptArrived, objectCondition, hfound, hpayload]

theorem unframe_eq (receivmsg : JsString) :
    unframe receivmsg = receivmsg.takeWhile (· ≠ marker) :=
  take_indexOf_singleton

/-- A framed text comes back whole exactly if it does not contain the marker. -/
theorem unframe_msgnstr_eq_iff (sendmsg : JsString) (array : List UInt8) :
    unframe (msgnstr sendmsg array) = sendmsg ↔ marker ∉ sendmsg := by
  rw [unframe_eq, msgnstr, List.append_assoc]
  constructor
  · intro h hmem
    have := List.mem_takeWhile_imp (h ▸ hmem)
    simp at this
  · intro h
    rw [List.takeWhile_append_of_pos fun u hu => by
      simpa using fun (heq : u = marker) => h (heq ▸ hu)]
    simp

end CodingLearners.SecretChat
