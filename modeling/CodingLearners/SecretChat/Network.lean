import CodingLearners.SecretChat.Delivery
import CodingLearners.SecretChat.KeyFile
import CodingLearners.SecretChat.KeyTopics
import CodingLearners.SecretChat.OtherKeys

/-!
# Any number of pages on one broker

The pages create keys, save and import each other's key files, connect, and send
to their peers. The broker hands a message to every connected page with a
subscription for its topic, and each page receives in the order of arrival.

## Implementation notes

Which subscriptions take a topic is decided by the broker, so it is the
parameter `takes`. Quality of service 0 and a clean session mean that a
connection that is lost takes the messages on their way with it. A message on
its way carries what was typed and the key it was encrypted with.
-/

namespace CodingLearners.SecretChat

open Js

variable {forge : Forge} {A : Type}

/-! ## The machine -/

/-- A published message, with what its sender typed and the key that was used. -/
structure Letter (A : Type) where
  sender : A
  typed : JsString
  publickey : JsString
  destinationName : JsString
  payloadString : JsString

/-- A saved key file, with what went into it. -/
structure SavedKey (forge : Forge) (A : Type) where
  owner : A
  key : RsaKey forge
  aliasn : JsString
  text : JsString

structure Network (forge : Forge) (A : Type) where
  visit : A → Visit forge
  saved : List (SavedKey forge A)
  /-- the messages on their way to a page -/
  arriving : A → List (Letter A)
  /-- what a page has shown, and of which message -/
  shown : A → List (Displayed × Letter A)

/-- Every page has just been loaded. -/
def networkOnload (number : A → Nat) : Network forge A :=
  ⟨fun a => visitOnload (number a), [], fun _ => [], fun _ => []⟩

inductive NetworkEvent (forge : Forge) (A : Type)
  | creatensskey (a : A) (seed : forge.Seed) (result saveAs : Option JsString)
  | fimportpeerkey (a : A) (file : Nat)
  | subscribemqtttopica (a : A) (topic : JsString)
  | onConnect (a : A)
  | onConnectionLost (a : A)
  | sendmqttmsga (a : A) (selectedIndex : Option Nat) (sendmsg : JsString) (array : List UInt8)
      (rng : Nat → forge.Seed)
  | onMessageArrived (a : A)

variable (numbers : Numbers) (optionText : JsString → JsString)
  (takes : List JsString → JsString → Bool)

/-- The key of the page goes into a file, if the prompts are answered. -/
def saveKey (s : Network forge A) (a : A) (result saveAs : Option JsString) : Network forge A :=
  let page := (s.visit a).page
  match page.window.curretrsakey, createCurrentPublicKeyAccountinf numbers page result saveAs with
  | some key, some file =>
      let aliasn := accountAliasn numbers page.mqttAccountRandrom result
      { s with saved := s.saved ++ [⟨a, key, aliasn, file.2⟩] }
  | _, _ => s

theorem saveKey_same (s : Network forge A) (a : A) (result saveAs : Option JsString) :
    (saveKey numbers s a result saveAs).visit = s.visit ∧
      (saveKey numbers s a result saveAs).arriving = s.arriving ∧
      (saveKey numbers s a result saveAs).shown = s.shown := by
  simp only [saveKey]
  split <;> simp

section Machine

variable [DecidableEq A]

def Network.setVisit (s : Network forge A) (a : A) (v : Visit forge) : Network forge A :=
  { s with visit := Function.update s.visit a v }

/-- `client.send`, which throws without a connection. -/
def publish (s : Network forge A) (letter : Letter A) : Network forge A :=
  if (s.visit letter.sender).page.client.isSome = true then
    { s with
      arriving := fun b =>
        match (s.visit b).page.client with
        | some topics =>
            if takes topics letter.destinationName = true then s.arriving b ++ [letter]
            else s.arriving b
        | none => s.arriving b }
  else s

def networkStep (s : Network forge A) : NetworkEvent forge A → Network forge A
  | .creatensskey a seed result saveAs =>
      saveKey numbers
        (s.setVisit a (visitStep .webSecretchat (s.visit a) (.creatensskey seed))) a result saveAs
  | .fimportpeerkey a file =>
      match s.saved[file]? with
      | some saved =>
          let v := s.visit a
          s.setVisit a
            { v with page := { v.page with window := importFile numbers v.page.window saved.text } }
      | none => s
  | .subscribemqtttopica a topic =>
      s.setVisit a (visitStep .webSecretchat (s.visit a) (.subscribemqtttopica topic))
  | .onConnect a => s.setVisit a (visitStep .webSecretchat (s.visit a) .onConnect)
  | .onConnectionLost a =>
      { s.setVisit a (visitStep .webSecretchat (s.visit a) .onConnectionLost) with
        arriving := Function.update s.arriving a [] }
  | .sendmqttmsga a selectedIndex sendmsg array rng =>
      match sendmqttmsga optionText (s.visit a).page.window selectedIndex sendmsg array rng with
      | some ⟨some publickey, sendtopic, some payload⟩ =>
          publish takes s ⟨a, sendmsg, publickey, sendtopic, payload⟩
      | _ => s
  | .onMessageArrived a =>
      match s.arriving a with
      | [] => s
      | letter :: rest =>
          let displayed := onMessageArrived (s.visit a).page.window letter.destinationName
            letter.payloadString
          { s with
            arriving := Function.update s.arriving a rest
            shown := Function.update s.shown a
              (s.shown a ++ (displayed.map fun d => (d, letter)).toList) }

/-- The network after these events. -/
def networkAfter (number : A → Nat) (events : List (NetworkEvent forge A)) : Network forge A :=
  Runs.run (networkStep numbers optionText takes) (networkOnload number) events

/-- What a step does to the messages on their way and to those that are shown. -/
inductive Moved (s s' : Network forge A) : NetworkEvent forge A → Prop
  | none {e} (empty : ∀ a, e = .onMessageArrived a → s.arriving a = [])
      (arriving : s'.arriving = s.arriving) (shown : s'.shown = s.shown) : Moved s s' e
  | lost (a) (arriving : s'.arriving = Function.update s.arriving a [])
      (shown : s'.shown = s.shown) : Moved s s' (.onConnectionLost a)
  | sent {selectedIndex sendmsg array rng} (letter : Letter A) (typed : letter.typed = sendmsg)
      (arriving : ∀ b, s'.arriving b = s.arriving b ∨ s'.arriving b = s.arriving b ++ [letter])
      (shown : s'.shown = s.shown) :
      Moved s s' (.sendmqttmsga letter.sender selectedIndex sendmsg array rng)
  | received (a) (letter : Letter A) (rest : List (Letter A))
      (first : s.arriving a = letter :: rest)
      (arriving : s'.arriving = Function.update s.arriving a rest)
      (shown : s'.shown = Function.update s.shown a
        (s.shown a ++ ((onMessageArrived (s.visit a).page.window letter.destinationName
          letter.payloadString).map fun d => (d, letter)).toList)) :
      Moved s s' (.onMessageArrived a)

theorem networkStep_moved (s : Network forge A) (e : NetworkEvent forge A) :
    Moved s (networkStep numbers optionText takes s e) e := by
  cases e with
  | creatensskey a seed result saveAs =>
      have hsame := saveKey_same numbers (s.setVisit a (visitStep .webSecretchat (s.visit a)
        (.creatensskey seed))) a result saveAs
      exact .none (by simp) hsame.2.1 hsame.2.2
  | fimportpeerkey a file =>
      simp only [networkStep]
      split
      · exact .none (by simp) rfl rfl
      · exact .none (by simp) rfl rfl
  | subscribemqtttopica a topic => exact .none (by simp) rfl rfl
  | onConnect a => exact .none (by simp) rfl rfl
  | onConnectionLost a => exact .lost a rfl rfl
  | sendmqttmsga a selectedIndex sendmsg array rng =>
      simp only [networkStep]
      split
      · next publickey sendtopic payload hsend =>
        refine .sent ⟨a, sendmsg, publickey, sendtopic, payload⟩ rfl ?_ ?_
        · intro b
          rw [publish]
          split
          · dsimp only
            split
            · split
              · exact .inr rfl
              · exact .inl rfl
            · exact .inl rfl
          · exact .inl rfl
        · rw [publish]
          split <;> rfl
      · exact .none (by simp) rfl rfl
  | onMessageArrived a =>
      simp only [networkStep]
      split
      · next hempty =>
        refine .none ?_ rfl rfl
        rintro b ⟨⟩
        exact hempty
      · next letter rest hfirst => exact .received a letter rest hfirst rfl rfl

end Machine

/-! ## One page -/

/-- What holds of a page between its events. -/
structure Ready (v : Visit forge) : Prop where
  status : v.page.connectSrvStatus = v.page.client.isSome
  last : v.page.lastSubscribe ≠ some []
  created : ∀ key ∈ v.created, ∃ seed, key = getrsakey forge seed
  current : ∀ key, v.page.window.curretrsakey = some key → key ∈ v.created
  subscribed : ∀ topics key, v.page.client = some topics →
    v.page.window.curretrsakey = some key → key.publickey ≠ [] → keyTopic key ∈ topics
  hasKey : HasKey v.page.window

/-- The window after an event of the page. -/
def windowAfter (w : Window forge) : PageEvent forge → Window forge
  | .creatensskey seed => creatensskey w seed
  | _ => w

theorem Ready.window {v : Visit forge} (h : Ready v) (e : PageEvent forge) :
    (visitStep .webSecretchat v e).page.window = windowAfter v.page.window e := by
  cases e with
  | creatensskey seed =>
      simp only [visitStep, pageStep, clickCreatensskey_eq h.status, windowAfter]
  | subscribemqtttopica topic =>
      by_cases hasked : topic ≠ [] ∧ v.page.client.isSome = true
      · obtain ⟨topics, hclient⟩ := Option.isSome_iff_exists.mp hasked.2
        simp only [visitStep, pageStep, subscribemqtttopica_connected hclient hasked.1, windowAfter]
      · simp only [visitStep, pageStep, subscribemqtttopica_refused hasked, windowAfter]
  | onConnectionLost =>
      simp only [visitStep, pageStep, windowAfter]
      split <;> rfl
  | onConnect =>
      by_cases hclient : v.page.client = none
      · simp only [visitStep, pageStep_onConnect hclient h.last, windowAfter]
      · simp only [visitStep, pageStep, hclient, if_false, windowAfter]

/-- An event that leaves the keys alone has to leave the connection in order. -/
theorem Ready.replace {v : Visit forge} (h : Ready v) {page : Page forge} {asked : List JsString}
    (hwindow : page.window.curretrsakey = v.page.window.curretrsakey)
    (hstatus : page.connectSrvStatus = page.client.isSome) (hlast : page.lastSubscribe ≠ some [])
    (hsubscribed : ∀ topics key, page.client = some topics →
      v.page.window.curretrsakey = some key → key.publickey ≠ [] → keyTopic key ∈ topics)
    (hhasKey : HasKey page.window) : Ready ⟨page, asked, v.created⟩ :=
  ⟨hstatus, hlast, h.created, by simpa only [hwindow] using h.current,
    by simpa only [hwindow] using hsubscribed, hhasKey⟩

theorem Ready.step {v : Visit forge} (h : Ready v) (e : PageEvent forge) :
    Ready (visitStep .webSecretchat v e) := by
  cases e with
  | creatensskey seed =>
      have hpage : (visitStep .webSecretchat v (.creatensskey seed)).page = _ :=
        clickCreatensskey_eq h.status seed
      have hcreated : (visitStep .webSecretchat v (.creatensskey seed)).created =
        v.created ++ [getrsakey forge seed] := rfl
      refine ⟨by simp [hpage, h.status], by simpa [hpage] using h.last, ?_, ?_, ?_,
        hpage ▸ keyStep_hasKey h.hasKey (.creatensskey seed)⟩
      · intro key hkey
        rw [hcreated, List.mem_append, List.mem_singleton] at hkey
        exact hkey.elim (h.created key) fun heq => ⟨seed, heq⟩
      · intro key hkey
        rw [hpage] at hkey
        rw [hcreated, ← Option.some.inj hkey]
        exact List.mem_append_right _ (List.mem_singleton_self _)
      · intro topics key hclient hkey hpub
        rw [hpage] at hclient hkey
        obtain rfl := Option.some.inj hkey
        obtain ⟨earlier, -, rfl⟩ := Option.map_eq_some_iff.mp hclient
        rw [if_pos hpub]
        exact List.mem_append_right _ (List.mem_singleton_self _)
  | subscribemqtttopica topic =>
      change Ready ⟨subscribemqtttopica v.page topic, _, v.created⟩
      by_cases hasked : topic ≠ [] ∧ v.page.client.isSome = true
      · obtain ⟨topics, hclient⟩ := Option.isSome_iff_exists.mp hasked.2
        rw [subscribemqtttopica_connected hclient hasked.1]
        refine h.replace rfl (by rw [h.status, hclient]; rfl) (by simpa using hasked.1) ?_ h.hasKey
        intro topics' key hclient' hkey hpub
        rw [← Option.some.inj hclient']
        exact List.mem_append_left _ (h.subscribed topics key hclient hkey hpub)
      · rw [subscribemqtttopica_refused hasked]
        exact h.replace rfl h.status h.last h.subscribed h.hasKey
  | onConnectionLost =>
      change Ready ⟨if _ then _ else _, _, v.created⟩
      split
      · exact h.replace rfl rfl h.last (by simp [onConnectionLost]) h.hasKey
      · exact h.replace rfl h.status h.last h.subscribed h.hasKey
  | onConnect =>
      change Ready ⟨pageStep .webSecretchat v.page .onConnect, _, v.created⟩
      by_cases hclient : v.page.client = none
      · rw [pageStep_onConnect hclient h.last]
        refine h.replace rfl rfl h.last ?_ h.hasKey
        intro topics key htopics hkey _
        rw [← Option.some.inj htopics]
        simp [ownTopics, hkey]
      · rw [pageStep, if_neg hclient]
        exact h.replace rfl h.status h.last h.subscribed h.hasKey

/-! ## The network -/

/-- The alias that goes into a file survives base64. -/
def LatinAlias (s : Network forge A) : NetworkEvent forge A → Prop
  | .creatensskey a _ result _ =>
      LatinText (accountAliasn numbers (s.visit a).page.mqttAccountRandrom result)
  | _ => True

/-- The payload has 32 characters in front of what was typed, encrypted with a
key that was created on some page, on the topic of that key. -/
def Sealed (forge : Forge) (letter : Letter A) : Prop :=
  ∃ (seed : forge.Seed) (array : List UInt8) (rng : Nat → forge.Seed) (md encrypted : JsString),
    letter.publickey = (getrsakey forge seed).publickey ∧
    letter.destinationName = keyTopic (getrsakey forge seed) ∧ md.length = 32 ∧
    encrymsg forge rng letter.publickey (msgnstr letter.typed array) = some encrypted ∧
    letter.payloadString = md ++ encrypted

/-- What the page shows is what was typed, up to the marker, and the page has
had the private key for it. -/
def ReadBy (v : Visit forge) (d : Displayed) (letter : Letter A) : Prop :=
  d = ⟨true, letter.typed.takeWhile (· ≠ marker), letter.destinationName⟩ ∧
    ∃ key ∈ v.created, forge.KeyPair letter.publickey key.privatekey

/-- The invariant of the network. -/
structure Genuine (s : Network forge A) : Prop where
  ready : ∀ a, Ready (s.visit a)
  saved : ∀ file ∈ s.saved, file.key ∈ (s.visit file.owner).created ∧ file.key.publickey ≠ [] ∧
    readPeerFile numbers file.text = some ⟨file.key.publickey, file.aliasn⟩
  peers : ∀ a, ∀ peer ∈ (s.visit a).page.window.peerinfos, ∃ file ∈ s.saved,
    file.key.publickey = peer.publickey ∧ file.aliasn = peer.aliasn
  letters : ∀ a, ∀ letter ∈ s.arriving a, Sealed forge letter
  shown : ∀ a, ∀ p ∈ s.shown a, ReadBy (s.visit a) p.1 p.2

variable {numbers takes optionText} {s : Network forge A}

theorem sspretitle_infix (text : JsString) : sspretitle <:+: sspretitle ++ text :=
  (List.prefix_append sspretitle text).isInfix

theorem unframe_msgnstr (typed : JsString) (array : List UInt8) :
    unframe (msgnstr typed array) = typed.takeWhile (· ≠ marker) := by
  rw [unframe_eq, msgnstr, List.append_assoc]
  induction typed with
  | nil => simp
  | cons u rest ih =>
      rw [List.cons_append, List.takeWhile_cons, List.takeWhile_cons, ih]

/-- What was encrypted is decrypted with the private key of the pair. -/
theorem decrymsg_of_encrymsg (hforge : forge.Faithful)
    {publickey privatekey msg encrypted : JsString} (hpair : forge.KeyPair publickey privatekey)
    {rng : Nat → forge.Seed} (henc : encrymsg forge rng publickey msg = some encrypted) :
    decrymsg forge privatekey encrypted = some msg := by
  have hwf : isWellFormed msg = true := by
    obtain ⟨bsmsg, hencode, -⟩ := Option.bind_eq_some_iff.mp henc
    exact isWellFormed_of_encode hencode
  obtain ⟨encrypted', henc', hdec⟩ := decrypted_of_keyPair hforge hpair rng hwf
  rwa [Option.some.inj (henc.symm.trans henc')]

/-- A sealed message is shown exactly on a page with the private key for it, and
then as it was typed, up to the marker. -/
theorem arrived_iff (hforge : forge.Faithful) (hexclusive : forge.Exclusive) {letter : Letter A}
    (hsealed : Sealed forge letter) {v : Visit forge} (hv : Ready v) (d : Displayed) :
    onMessageArrived v.page.window letter.destinationName letter.payloadString = some d ↔
      d = ⟨true, letter.typed.takeWhile (· ≠ marker), letter.destinationName⟩ ∧
        ∃ key, v.page.window.curretrsakey = some key ∧
          forge.KeyPair letter.publickey key.privatekey := by
  obtain ⟨seed, array, rng, md, encrypted, hpublic, htopic, hmd, henc, hpayload⟩ := hsealed
  have hne : md ++ encrypted ≠ [] := by
    intro hnil
    rw [(List.append_eq_nil_iff.mp hnil).1] at hmd
    contradiction
  have hinfix : sspretitle <:+: letter.destinationName := htopic ▸ sspretitle_infix _
  have hsim := decryptArrived_secret v.page.window hinfix hne
  rw [List.drop_left' hmd] at hsim
  rw [onMessageArrived, hpayload, hsim]
  cases hkey : v.page.window.curretrsakey with
  | none => simp
  | some key =>
      obtain ⟨seed', rfl⟩ := hv.created key (hv.current key hkey)
      rw [hpublic] at henc ⊢
      by_cases hpair : forge.KeyPair (getrsakey forge seed).publickey
          (getrsakey forge seed').privatekey
      · have hframe : msgnstr letter.typed array ≠ [] := by simp [msgnstr]
        rw [Option.bind_some, decrymsg_of_encrymsg hforge hpair henc]
        simp [hpair, hframe, unframe_msgnstr, eq_comm]
      · rw [Option.bind_some, decrymsg_otherKey hforge hexclusive hpair henc]
        simp [hpair]

theorem Genuine.saveKey (h : Genuine numbers s) {a : A} {result : Option JsString}
    (saveAs : Option JsString)
    (hlatin : LatinText (accountAliasn numbers (s.visit a).page.mqttAccountRandrom result)) :
    Genuine numbers (saveKey numbers s a result saveAs) := by
  simp only [SecretChat.saveKey]
  split
  · next key file hkey hfile =>
    have hcreated := (h.ready a).current key hkey
    obtain ⟨seed, rfl⟩ := (h.ready a).created key hcreated
    have hread := readPeerFile_exported numbers hlatin hkey hfile
    constructor
    · exact h.ready
    · intro saved hsaved
      rcases List.mem_append.mp hsaved with hsaved | hsaved
      · exact h.saved saved hsaved
      · rw [List.mem_singleton.mp hsaved]
        exact ⟨hcreated, (createCurrentPublicKeyAccountinf_text numbers hkey hfile).1, hread⟩
    · intro b peer hpeer
      obtain ⟨saved, hsaved, hsame⟩ := h.peers b peer hpeer
      exact ⟨saved, List.mem_append_left _ hsaved, hsame⟩
    · exact h.letters
    · exact h.shown
  · exact h

/-- Messages come and go between the pages. -/
theorem Genuine.replaceArriving (h : Genuine numbers s) {arriving : A → List (Letter A)}
    (hletters : ∀ a, ∀ letter ∈ arriving a, Sealed forge letter) :
    Genuine numbers { s with arriving := arriving } :=
  ⟨h.ready, h.saved, h.peers, hletters, h.shown⟩

theorem Genuine.publish (h : Genuine numbers s) {letter : Letter A}
    (hsealed : Sealed forge letter) : Genuine numbers (publish takes s letter) := by
  rw [SecretChat.publish]
  split
  · apply h.replaceArriving
    intro b other hother
    split at hother
    · split at hother
      · rcases List.mem_append.mp hother with hother | hother
        · exact h.letters b other hother
        · rw [List.mem_singleton.mp hother]
          exact hsealed
      · exact h.letters b other hother
    · exact h.letters b other hother
  · exact h

theorem mem_of_getThepeerInfo {w : Window forge} {selectedIndex : Option Nat} {peer : Peer forge}
    (h : getThepeerInfo optionText w selectedIndex = some peer) : peer ∈ w.peerinfos := by
  rw [getThepeerInfo, searchPeers_eq] at h
  exact List.mem_reverse.mp (List.mem_of_find?_eq_some h)

/-- What a page sends is sealed for the key of one of its peers. -/
theorem sealed_sendmqttmsga (hforge : forge.Faithful) (h : Genuine numbers s) {a : A}
    {selectedIndex : Option Nat} {sendmsg : JsString} {array : List UInt8}
    {rng : Nat → forge.Seed} {publickey sendtopic payload : JsString}
    (hsend : sendmqttmsga optionText (s.visit a).page.window selectedIndex sendmsg array rng =
      some ⟨some publickey, sendtopic, some payload⟩) :
    Sealed forge (⟨a, sendmsg, publickey, sendtopic, payload⟩ : Letter A) := by
  have hmsg : sendmsg ≠ [] := by
    rintro rfl
    simp [sendmqttmsga] at hsend
  cases hfound : getThepeerInfo optionText (s.visit a).page.window selectedIndex with
  | none =>
      have := sendmqttmsga_notFound optionText hfound array rng hsend
      contradiction
  | some peer =>
      cases hown : (s.visit a).page.window.curretrsakey with
      | none =>
          simp only [sendmqttmsga, hfound, hown, Option.map_none, Option.map_some,
            Option.bind_fun_none] at hsend
          split at hsend
          · cases hsend
          · cases hsend
      | some own =>
          obtain ⟨sending, hsend', hpublic, htopic, hpayload⟩ :=
            sendmqttmsga_found optionText hown hfound hmsg array rng
          obtain rfl := Option.some.inj (hsend.symm.trans hsend')
          obtain ⟨file, hfile, hkey, -⟩ := h.peers a peer (mem_of_getThepeerInfo hfound)
          obtain ⟨seed, hseed⟩ := (h.ready file.owner).created _ (h.saved file hfile).1
          obtain rfl : publickey = peer.publickey := Option.some.inj hpublic
          obtain ⟨encrypted, henc, hout⟩ := Option.map_eq_some_iff.mp hpayload.symm
          refine ⟨seed, array, rng, own.publickeymd, encrypted, ?_, ?_, ?_, henc, hout.symm⟩
          · rw [← hkey, hseed]
          · rw [show sendtopic = _ from htopic, peer.mdtit_eq, ← hkey, hseed, keyTopic]
          · rw [own.publickeymd_eq]
            exact hforge.length_md5Hex _

section Steps

variable [DecidableEq A]

/-- A page changes: it keeps the keys it has created, and its peers are saved keys. -/
theorem Genuine.setVisit (h : Genuine numbers s) {a : A} {v : Visit forge} (hv : Ready v)
    (hcreated : ∀ key ∈ (s.visit a).created, key ∈ v.created)
    (hpeers : ∀ peer ∈ v.page.window.peerinfos, ∃ file ∈ s.saved,
      file.key.publickey = peer.publickey ∧ file.aliasn = peer.aliasn) :
    Genuine numbers (s.setVisit a v) := by
  have hgrows : ∀ b, ∀ key ∈ (s.visit b).created, key ∈ ((s.setVisit a v).visit b).created := by
    intro b key hkey
    by_cases hb : b = a
    · subst hb
      simpa [Network.setVisit] using hcreated key hkey
    · simpa [Network.setVisit, hb] using hkey
  constructor
  · intro b
    by_cases hb : b = a
    · subst hb
      simpa [Network.setVisit] using hv
    · simpa [Network.setVisit, hb] using h.ready b
  · intro file hfile
    exact ⟨hgrows _ _ (h.saved file hfile).1, (h.saved file hfile).2⟩
  · intro b
    by_cases hb : b = a
    · subst hb
      simpa [Network.setVisit] using hpeers
    · simpa [Network.setVisit, hb] using h.peers b
  · exact h.letters
  · intro b p hp
    obtain ⟨htext, key, hkey, hpair⟩ := h.shown b p hp
    exact ⟨htext, key, hgrows b key hkey, hpair⟩

/-- An event of the page itself. -/
theorem Genuine.pageEvent (h : Genuine numbers s) (a : A) (e : PageEvent forge) :
    Genuine numbers (s.setVisit a (visitStep .webSecretchat (s.visit a) e)) := by
  apply h.setVisit ((h.ready a).step e)
  · intro key hkey
    cases e with
    | creatensskey seed => exact List.mem_append_left _ hkey
    | _ => exact hkey
  · rw [(h.ready a).window e]
    cases e with
    | creatensskey seed => exact h.peers a
    | _ => exact h.peers a

theorem mem_fimportpeerkey {w : Window forge} {peerj : PeerFile} {peer : Peer forge}
    (h : peer ∈ (fimportpeerkey w (some peerj)).peerinfos) :
    peer ∈ w.peerinfos ∨ peer.publickey = peerj.publickey ∧ peer.aliasn = peerj.aliasn := by
  simp only [fimportpeerkey] at h
  split at h
  · next peerj' key heq hkey =>
    obtain rfl := Option.some.inj heq
    split at h
    · rcases List.mem_append.mp h with h | h
      · exact .inl h
      · rw [List.mem_singleton.mp h]
        exact .inr ⟨rfl, rfl⟩
    · exact .inl h
  · exact .inl h

theorem Genuine.fimportpeerkey (h : Genuine numbers s) (a : A) {saved : SavedKey forge A}
    (hsaved : saved ∈ s.saved) :
    Genuine numbers (s.setVisit a { s.visit a with
      page := { (s.visit a).page with
        window := importFile numbers (s.visit a).page.window saved.text } }) := by
  have hready := h.ready a
  have hread := (h.saved saved hsaved).2.2
  apply h.setVisit
  · exact hready.replace (fimportpeerkey_curretrsakey _ _) hready.status hready.last
      hready.subscribed (keyStep_hasKey hready.hasKey (.fimportpeerkey _))
  · exact fun key hkey => hkey
  · intro peer hpeer
    rw [importFile, hread] at hpeer
    rcases mem_fimportpeerkey hpeer with hpeer | ⟨hpublic, halias⟩
    · exact h.peers a peer hpeer
    · exact ⟨saved, hsaved, hpublic.symm, halias.symm⟩

/-- The page takes the first message that arrives. -/
theorem Genuine.arrived (hforge : forge.Faithful) (hexclusive : forge.Exclusive)
    (h : Genuine numbers s) {a : A} {letter : Letter A} {rest : List (Letter A)}
    (harriving : s.arriving a = letter :: rest) :
    Genuine numbers
      { s with
        arriving := Function.update s.arriving a rest
        shown := Function.update s.shown a
          (s.shown a ++ ((onMessageArrived (s.visit a).page.window letter.destinationName
            letter.payloadString).map fun d => (d, letter)).toList) } := by
  have hletters := h.letters a
  rw [harriving, List.forall_mem_cons] at hletters
  constructor
  · exact h.ready
  · exact h.saved
  · exact h.peers
  · exact (Function.forall_update_iff s.arriving (p := fun _ letters =>
      ∀ letter ∈ letters, Sealed forge letter)).mpr ⟨hletters.2, fun b _ => h.letters b⟩
  · refine (Function.forall_update_iff s.shown (p := fun b shown =>
      ∀ p ∈ shown, ReadBy (s.visit b) p.1 p.2)).mpr ⟨?_, fun b _ => h.shown b⟩
    intro p hp
    rw [List.mem_append, Option.mem_toList, Option.map_eq_some_iff] at hp
    rcases hp with hp | ⟨d, hd, rfl⟩
    · exact h.shown a p hp
    · obtain ⟨htext, key, hkey, hpair⟩ :=
        (arrived_iff hforge hexclusive hletters.1 (h.ready a) d).mp hd
      exact ⟨htext, key, (h.ready a).current key hkey, hpair⟩

theorem Genuine.step (hforge : forge.Faithful) (hexclusive : forge.Exclusive)
    (h : Genuine numbers s) {e : NetworkEvent forge A} (hlatin : LatinAlias numbers s e) :
    Genuine numbers (networkStep numbers optionText takes s e) := by
  cases e with
  | creatensskey a seed result saveAs =>
      apply (h.pageEvent a (.creatensskey seed)).saveKey saveAs
      have hpage : (visitStep .webSecretchat (s.visit a) (.creatensskey seed)).page = _ :=
        clickCreatensskey_eq (h.ready a).status seed
      simp only [Network.setVisit, Function.update_self, hpage]
      exact hlatin
  | fimportpeerkey a file =>
      simp only [networkStep]
      split
      · next saved hsaved => exact h.fimportpeerkey a (List.mem_of_getElem? hsaved)
      · exact h
  | subscribemqtttopica a topic => exact h.pageEvent a (.subscribemqtttopica topic)
  | onConnect a => exact h.pageEvent a .onConnect
  | onConnectionLost a =>
      apply (h.pageEvent a .onConnectionLost).replaceArriving
      exact (Function.forall_update_iff s.arriving (p := fun _ letters =>
        ∀ letter ∈ letters, Sealed forge letter)).mpr ⟨by simp, fun b _ => h.letters b⟩
  | sendmqttmsga a selectedIndex sendmsg array rng =>
      simp only [networkStep]
      split
      · next publickey sendtopic payload hsend =>
        exact h.publish (sealed_sendmqttmsga hforge h hsend)
      · exact h
  | onMessageArrived a =>
      simp only [networkStep]
      split
      · exact h
      · next letter rest harriving => exact h.arrived hforge hexclusive harriving

end Steps

theorem ready_onload (number : Nat) : Ready (visitOnload number : Visit forge) :=
  ⟨rfl, by simp [visitOnload, pageOnload], by simp [visitOnload],
    by simp [visitOnload, pageOnload, onload], by simp [visitOnload, pageOnload],
    fun h => absurd rfl h⟩

theorem genuine_onload (number : A → Nat) :
    Genuine numbers (networkOnload number : Network forge A) :=
  ⟨fun a => ready_onload (number a), by simp [networkOnload],
    by simp [networkOnload, visitOnload, pageOnload, onload], by simp [networkOnload],
    by simp [networkOnload]⟩

section Runs

variable [DecidableEq A]

theorem genuine_networkAfter (hforge : forge.Faithful) (hexclusive : forge.Exclusive)
    {number : A → Nat} {events : List (NetworkEvent forge A)}
    (hlatin : Runs.Steps (networkStep numbers optionText takes) (LatinAlias numbers)
      (networkOnload number) events) :
    Genuine numbers (networkAfter numbers optionText takes number events) :=
  hlatin.invariant (fun _ _ h he => h.step hforge hexclusive he) (genuine_onload number)

/-- Every peer that a page has imported is a key that some page created, under the
alias that was given there. -/
theorem peers_created (forge : Forge) (hforge : forge.Faithful) (hexclusive : forge.Exclusive)
    (A : Type) [DecidableEq A] (numbers : Numbers) (optionText : JsString → JsString)
    (takes : List JsString → JsString → Bool) (number : A → Nat)
    (events : List (NetworkEvent forge A))
    (hlatin : Runs.Steps (networkStep numbers optionText takes) (LatinAlias numbers)
      (networkOnload number) events) (a : A) (peer : Peer forge)
    (hpeer : peer ∈ ((networkAfter numbers optionText takes number events).visit
      a).page.window.peerinfos) :
    ∃ file ∈ (networkAfter numbers optionText takes number events).saved,
      file.key ∈ ((networkAfter numbers optionText takes number events).visit file.owner).created ∧
      peer.publickey = file.key.publickey ∧ peer.aliasn = file.aliasn ∧
      sspretitle ++ peer.mdtit = keyTopic file.key := by
  have h := genuine_networkAfter hforge hexclusive hlatin
  obtain ⟨file, hfile, hkey, halias⟩ := h.peers a peer hpeer
  exact ⟨file, hfile, (h.saved file hfile).1, hkey.symm, halias.symm,
    by rw [keyTopic, peer.mdtit_eq, hkey]⟩

/-- Two pages create keys and connect, and one of them imports the key of the other. -/
def acquainted : List (NetworkEvent labelForge Bool) :=
  [.creatensskey false (1 : UInt8) (some (units "usr")) (some (units "f")),
    .creatensskey true (2 : UInt8) (some (units "usr")) (some (units "f")),
    .fimportpeerkey false 1, .onConnect false, .onConnect true]

def twoAccounts : Bool → Nat
  | false => 12
  | true => 7

/-- A broker for topics without wildcards. -/
def exactTakes (topics : List JsString) (topic : JsString) : Bool := decide (topic ∈ topics)

/-- Then the one page sends a text, and the other page receives it. -/
def greeting : List (NetworkEvent labelForge Bool) :=
  acquainted ++
    [.sendmqttmsga false (some 0) (units "hi") [7] fun _ => (0 : UInt8), .onMessageArrived true]

theorem greeting_latin :
    Runs.Steps (networkStep accountNumbers id exactTakes) (LatinAlias accountNumbers)
      (networkOnload twoAccounts) greeting :=
  ⟨latinText_of_isBinary (isBinary_of_all (by decide +kernel)),
    latinText_of_isBinary (isBinary_of_all (by decide +kernel)),
    trivial, trivial, trivial, trivial, trivial, trivial⟩

theorem peers_created_greeting :
    ∃ peer ∈ ((networkAfter accountNumbers id exactTakes twoAccounts greeting).visit
        false).page.window.peerinfos,
      peer.aliasn = units "usr-7" ∧
      ∃ file ∈ (networkAfter accountNumbers id exactTakes twoAccounts greeting).saved,
        peer.publickey = file.key.publickey := by
  have halias : (((networkAfter accountNumbers id exactTakes twoAccounts greeting).visit
      false).page.window.peerinfos[0]?).map Peer.aliasn = some (units "usr-7") := by
    decide +kernel
  obtain ⟨peer, hfirst, halias⟩ := Option.map_eq_some_iff.mp halias
  have hpeer := List.mem_of_getElem? hfirst
  obtain ⟨file, hfile, -, hpublic, -⟩ := peers_created labelForge labelForge_faithful
    labelForge_exclusive Bool accountNumbers id exactTakes twoAccounts greeting greeting_latin
    false peer hpeer
  exact ⟨peer, hpeer, halias, file, hfile, hpublic⟩

/-- The message is on its way, or has been shown. -/
def Known (s : Network forge A) (letter : Letter A) : Prop :=
  (∃ b, letter ∈ s.arriving b) ∨ ∃ b d, (d, letter) ∈ s.shown b

/-- A message becomes known when it is sent. -/
theorem known_step {e : NetworkEvent forge A} {letter : Letter A}
    (h : Known (networkStep numbers optionText takes s e) letter) :
    Known s letter ∨ ∃ selectedIndex array rng,
      e = .sendmqttmsga letter.sender selectedIndex letter.typed array rng := by
  cases networkStep_moved numbers optionText takes s e with
  | none empty arriving shown =>
      rw [Known, arriving, shown] at h
      exact .inl h
  | lost a arriving shown =>
      rw [Known, arriving, shown] at h
      refine .inl (h.imp_left ?_)
      rintro ⟨b, hb⟩
      by_cases hab : b = a
      · subst hab
        simp at hb
      · exact ⟨b, by simpa [hab] using hb⟩
  | sent other typed arriving shown =>
      rw [Known, shown] at h
      rcases h with ⟨b, hb⟩ | h
      · rcases arriving b with harriving | harriving
        · exact .inl (.inl ⟨b, harriving ▸ hb⟩)
        · rw [harriving, List.mem_append, List.mem_singleton] at hb
          rcases hb with hb | rfl
          · exact .inl (.inl ⟨b, hb⟩)
          · exact .inr ⟨_, _, _, by rw [typed]⟩
      · exact .inl (.inr h)
  | received a first rest hfirst arriving shown =>
      rw [Known, arriving, shown] at h
      left
      rcases h with ⟨b, hb⟩ | ⟨b, d, hd⟩
      · by_cases hab : b = a
        · subst hab
          exact .inl ⟨b, by simp [hfirst, (by simpa using hb : letter ∈ rest)]⟩
        · exact .inl ⟨b, by simpa [hab] using hb⟩
      · by_cases hab : b = a
        · subst hab
          rw [Function.update_self, List.mem_append, Option.mem_toList,
            Option.map_eq_some_iff] at hd
          rcases hd with hd | ⟨d', -, heq⟩
          · exact .inr ⟨b, d, hd⟩
          · exact .inl ⟨b, by simp [hfirst, (Prod.mk.inj heq).2]⟩
        · exact .inr ⟨b, d, by simpa [hab] using hd⟩

theorem known_run (events : List (NetworkEvent forge A)) {letter : Letter A}
    (h : Known (Runs.run (networkStep numbers optionText takes) s events) letter) :
    Known s letter ∨ ∃ selectedIndex array rng,
      .sendmqttmsga letter.sender selectedIndex letter.typed array rng ∈ events := by
  induction events generalizing s with
  | nil => exact .inl h
  | cons e events ih =>
      rcases ih h with hknown | ⟨selectedIndex, array, rng, hsent⟩
      · rcases known_step hknown with hknown | ⟨selectedIndex, array, rng, rfl⟩
        · exact .inl hknown
        · exact .inr ⟨selectedIndex, array, rng, List.mem_cons_self⟩
      · exact .inr ⟨selectedIndex, array, rng, List.mem_cons_of_mem _ hsent⟩

/-- In every run, what a page shows is what the user of a page has typed there, up to
the marker, and the page has created the private key for it. -/
theorem shown_was_typed (forge : Forge) (hforge : forge.Faithful) (hexclusive : forge.Exclusive)
    (A : Type) [DecidableEq A] (numbers : Numbers) (optionText : JsString → JsString)
    (takes : List JsString → JsString → Bool) (number : A → Nat)
    (events : List (NetworkEvent forge A))
    (hlatin : Runs.Steps (networkStep numbers optionText takes) (LatinAlias numbers)
      (networkOnload number) events) (a : A) (d : Displayed) (letter : Letter A)
    (hshown : (d, letter) ∈ (networkAfter numbers optionText takes number events).shown a) :
    (∃ selectedIndex array rng,
      .sendmqttmsga letter.sender selectedIndex letter.typed array rng ∈ events) ∧
    d = ⟨true, letter.typed.takeWhile (· ≠ marker), letter.destinationName⟩ ∧
    ∃ key ∈ ((networkAfter numbers optionText takes number events).visit a).created,
      forge.KeyPair letter.publickey key.privatekey := by
  refine ⟨?_, (genuine_networkAfter hforge hexclusive hlatin).shown a (d, letter) hshown⟩
  rcases known_run events (.inr ⟨a, d, hshown⟩) with hknown | hsent
  · simp [Known, networkOnload] at hknown
  · exact hsent

theorem shown_was_typed_greeting :
    ∃ d letter, (d, letter) ∈
        (networkAfter accountNumbers id exactTakes twoAccounts greeting).shown true ∧
      letter.typed = units "hi" ∧ d.text = units "hi" := by
  have htyped : ((networkAfter accountNumbers id exactTakes twoAccounts greeting).shown
      true)[0]?.map (fun p => p.2.typed) = some (units "hi") := by
    decide +kernel
  obtain ⟨⟨d, letter⟩, hfirst, htyped⟩ := Option.map_eq_some_iff.mp htyped
  have hshown := List.mem_of_getElem? hfirst
  obtain ⟨-, rfl, -⟩ := shown_was_typed labelForge labelForge_faithful labelForge_exclusive Bool
    accountNumbers id exactTakes twoAccounts greeting greeting_latin true d letter hshown
  have hplain : (units "hi").takeWhile (· ≠ marker) = units "hi" := by decide
  exact ⟨_, letter, hshown, htyped, by rw [htyped, hplain]⟩

end Runs

end CodingLearners.SecretChat
