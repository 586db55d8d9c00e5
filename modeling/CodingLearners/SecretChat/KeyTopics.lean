import CodingLearners.SecretChat.Session

/-!
# Topics and the key they are decrypted with

Creating a key replaces the key of the page and adds a subscription to those of
the connection. The page decrypts whatever arrives with its newest key, so
topics and keys agree exactly as long as no connection has the topics of two
different private keys.
-/

namespace CodingLearners.SecretChat

open Js

variable {forge : Forge}

/-- The private key that a message is decrypted with when it arrives, if it is. -/
def decryptedWith (w : Window forge) (destinationName payloadString : JsString) :
    Option JsString :=
  if (indexOf sspretitle destinationName).isSome ∧ payloadString ≠ [] ∧
      objectCondition (findRcvpeerInfo w (payloadString.take 32)) then
    w.curretrsakey.map RsaKey.privatekey
  else none

/-- A message that is taken for a secret one is decrypted with this key. -/
theorem decryptArrived_eq (w : Window forge) {destinationName payloadString : JsString}
    (htopic : (indexOf sspretitle destinationName).isSome) (hpayload : payloadString ≠ []) :
    decryptArrived w destinationName payloadString =
      (decryptedWith w destinationName payloadString).bind fun privatekey =>
        decrymsg forge privatekey (payloadString.drop 32) := by
  simp only [decryptArrived, decryptedWith, htopic, hpayload, objectCondition, ne_eq,
    not_false_eq_true, and_self, if_true, Option.bind_map]
  rfl

/-- What happens to the keys of a page and to its connection. -/
inductive KeyEvent (forge : Forge)
  | creatensskey (seed : forge.Seed)
  | onConnectionLost
  | onConnect

def KeyEvent.toPageEvent : KeyEvent forge → PageEvent forge
  | .creatensskey seed => .creatensskey seed
  | .onConnectionLost => .onConnectionLost
  | .onConnect => .onConnect

/-- The secret chat, without subscriptions by the user. -/
def linkStep (v : Visit forge) (e : KeyEvent forge) : Visit forge :=
  visitStep .webSecretchat v e.toPageEvent

/-- On the topic of a created key that is subscribed, every message is decrypted
with the private key of this key. -/
def RightKey (v : Visit forge) : Prop :=
  ∀ topics, v.page.client = some topics → ∀ key ∈ v.created, keyTopic key ∈ topics →
    ∀ payloadString, payloadString ≠ [] →
      decryptedWith v.page.window (keyTopic key) payloadString = some key.privatekey

/-- A key is created on a connection only if the earlier keys with a topic of the
connection, or with the topic of the new key, have the same private key; and a
connection is made only if those with the topic of the page's key have it. -/
def OnePrivateKey (v : Visit forge) : KeyEvent forge → Prop
  | .creatensskey seed =>
      let new := getrsakey forge seed
      ∀ topics, v.page.client = some topics → ∀ key ∈ v.created,
        keyTopic key ∈ topics ∨ new.publickey ≠ [] ∧ keyTopic key = keyTopic new →
          key.privatekey = new.privatekey
  | .onConnectionLost => True
  | .onConnect =>
      v.page.client = none → ∀ own ∈ v.page.window.curretrsakey, ∀ key ∈ v.created,
        keyTopic key = keyTopic own → key.privatekey = own.privatekey

/-- The page knows whether it is connected, and the user has subscribed to nothing. -/
structure Linked (v : Visit forge) : Prop where
  status : v.page.connectSrvStatus = v.page.client.isSome
  last : v.page.lastSubscribe = none
  account : ∃ number, v.page.mqttAccountRandrom = accountText number

section Step

variable {v : Visit forge} {page : Page forge}

/-- A key is taken over in any case, and subscribed if the page is connected. -/
theorem clickCreatensskey_eq (hstatus : page.connectSrvStatus = page.client.isSome)
    (seed : forge.Seed) :
    clickCreatensskey .webSecretchat page seed =
      { page with
        window := creatensskey page.window seed
        client := page.client.map fun topics =>
          if (getrsakey forge seed).publickey ≠ [] then topics ++ [keyTopic (getrsakey forge seed)]
          else topics } := by
  obtain ⟨client, status, lastSubscribe, account, window⟩ := page
  obtain rfl : status = client.isSome := hstatus
  cases client with
  | none => rfl
  | some topics =>
      by_cases hpub : (getrsakey forge seed).publickey = [] <;>
        simp [clickCreatensskey, subscribeSecCurrentTopic, subscribeMqttTopic, creatensskey, hpub]

/-- No topic of a key is the common one or an account number. -/
theorem keyTopic_ne (key : RsaKey forge) (number : Nat) :
    keyTopic key ≠ rsakeypm ∧ keyTopic key ≠ accountText number := by
  constructor
  · intro heq
    have hfirst : (keyTopic key).head? = rsakeypm.head? := by rw [heq]
    have htitle : (keyTopic key).head? = some 56 := rfl
    rw [htitle] at hfirst
    exact absurd hfirst (by decide)
  · intro heq
    have hdash : (45 : UInt16) ∈ accountText number := by
      rw [← heq, keyTopic]
      exact List.mem_append_left _ (by decide)
    have hdigit := (mem_decimal hdash).1
    exact absurd hdigit (by decide)

theorem sspretitle_found (key : RsaKey forge) :
    (indexOf sspretitle (keyTopic key)).isSome = true := by
  rw [← Option.ne_none_iff_isSome, Ne, indexOf_eq_none_iff, not_not]
  exact (List.prefix_append _ _).isInfix

theorem decryptedWith_own {w : Window forge} {own : RsaKey forge} (hown : w.curretrsakey = some own)
    (key : RsaKey forge) {payloadString : JsString} (hpayload : payloadString ≠ []) :
    decryptedWith w (keyTopic key) payloadString = some own.privatekey := by
  simp [decryptedWith, objectCondition, sspretitle_found, hpayload, hown]

/-- With the right key, a message for a created key that arrives on its topic is decrypted. -/
theorem RightKey.decrypts (hforge : forge.Faithful) (h : RightKey v) {topics : List JsString}
    (hclient : v.page.client = some topics) {seed : forge.Seed}
    (hkey : getrsakey forge seed ∈ v.created) (htopic : keyTopic (getrsakey forge seed) ∈ topics)
    {sender msg : JsString} (hsender : sender.length = 32) (rng : Nat → forge.Seed)
    (hmsg : isWellFormed msg = true) :
    ∃ encrypted, encrymsg forge rng (getrsakey forge seed).publickey msg = some encrypted ∧
      decryptArrived v.page.window (keyTopic (getrsakey forge seed)) (sender ++ encrypted) =
        some msg := by
  obtain ⟨encrypted, henc, hdec⟩ :=
    decrypted_of_keyPair hforge (keyPair_getrsakey hforge seed) rng hmsg
  have hpayload : sender ++ encrypted ≠ [] := by
    intro hnil
    rw [(List.append_eq_nil_iff.mp hnil).1] at hsender
    contradiction
  refine ⟨encrypted, henc, ?_⟩
  rw [decryptArrived_eq _ (sspretitle_found _) hpayload,
    h topics hclient _ hkey htopic _ hpayload, Option.bind_some, List.drop_left' hsender, hdec]

theorem Linked.step (h : Linked v) (e : KeyEvent forge) : Linked (linkStep v e) := by
  cases e with
  | creatensskey seed =>
      simp only [linkStep, KeyEvent.toPageEvent, visitStep, pageStep, clickCreatensskey_eq h.status]
      exact ⟨by simpa using h.status, h.last, h.account⟩
  | onConnectionLost =>
      simp only [linkStep, KeyEvent.toPageEvent, visitStep, pageStep]
      split
      · exact ⟨rfl, h.last, h.account⟩
      · exact ⟨h.status, h.last, h.account⟩
  | onConnect =>
      by_cases hclient : v.page.client = none
      · simp only [linkStep, KeyEvent.toPageEvent, visitStep]
        rw [pageStep_onConnect hclient (by simp [h.last])]
        exact ⟨rfl, h.last, h.account⟩
      · simp only [linkStep, KeyEvent.toPageEvent, visitStep, pageStep, hclient, if_false]
        exact ⟨h.status, h.last, h.account⟩

/-- On a connection with these topics, the page with this key decrypts rightly
exactly if the keys with a topic of the connection have its private key. -/
theorem rightKey_iff {topics : List JsString} {own : RsaKey forge}
    (hclient : v.page.client = some topics) (hown : v.page.window.curretrsakey = some own) :
    RightKey v ↔ ∀ key ∈ v.created, keyTopic key ∈ topics → key.privatekey = own.privatekey := by
  constructor
  · intro h key hkey htopic
    have hwith := h topics hclient key hkey htopic [0] (by simp)
    rw [decryptedWith_own hown key (by simp)] at hwith
    exact (Option.some.inj hwith).symm
  · intro h topics' hclient' key hkey htopic payloadString hpayload
    obtain rfl : topics = topics' := Option.some.inj (hclient.symm.trans hclient')
    rw [decryptedWith_own hown key hpayload, h key hkey htopic]

/-- Without a connection, or with topics of no key, nothing secret arrives. -/
theorem rightKey_of_no_topic
    (h : ∀ topics, v.page.client = some topics → ∀ key ∈ v.created, keyTopic key ∉ topics) :
    RightKey v := by
  intro topics hclient key hkey htopic
  exact absurd htopic (h topics hclient key hkey)

/-- Creating a key puts its topic onto the connection of the page. -/
theorem rightKey_creatensskey_iff (h : Linked v) (seed : forge.Seed) :
    RightKey (linkStep v (.creatensskey seed)) ↔ OnePrivateKey v (.creatensskey seed) := by
  have hpage : (linkStep v (.creatensskey seed)).page = _ := clickCreatensskey_eq h.status seed
  cases hclient : v.page.client with
  | none =>
      constructor
      · intro _ topics hnone
        rw [hclient] at hnone
        cases hnone
      · intro _
        apply rightKey_of_no_topic
        intro topics hnone
        rw [hpage, hclient] at hnone
        cases hnone
  | some topics =>
      have hnew : (linkStep v (.creatensskey seed)).page.window.curretrsakey =
          some (getrsakey forge seed) := by
        rw [hpage]
        rfl
      have htopics : (linkStep v (.creatensskey seed)).page.client =
          some (if (getrsakey forge seed).publickey ≠ [] then
            topics ++ [keyTopic (getrsakey forge seed)] else topics) := by
        rw [hpage, hclient]
        rfl
      rw [rightKey_iff htopics hnew]
      by_cases hpub : (getrsakey forge seed).publickey = []
      · simp [OnePrivateKey, linkStep, KeyEvent.toPageEvent, visitStep, hclient, hpub, or_imp,
          forall_and]
      · simp [OnePrivateKey, linkStep, KeyEvent.toPageEvent, visitStep, hclient, hpub, or_imp,
          forall_and]

/-- A new connection has the topic of the newest key only. -/
theorem rightKey_onConnect_iff (h : Linked v) (hclient : v.page.client = none) :
    RightKey (linkStep v .onConnect) ↔ OnePrivateKey v .onConnect := by
  obtain ⟨number, haccount⟩ := h.account
  have hne := fun key : RsaKey forge => keyTopic_ne key number
  have hpage : (linkStep v .onConnect).page = _ :=
    pageStep_onConnect hclient (by simp [h.last])
  have htopics : (linkStep v .onConnect).page.client =
      some (ownTopics .webSecretchat v.page ++ v.page.lastSubscribe.toList) := by
    rw [hpage]
  have hcreated : (linkStep v .onConnect).created = v.created := rfl
  cases hown : v.page.window.curretrsakey with
  | none =>
      constructor
      · intro _ _ own hmem
        rw [hown] at hmem
        cases hmem
      · intro _
        apply rightKey_of_no_topic
        intro topics hsome key _
        obtain rfl := Option.some.inj (htopics.symm.trans hsome)
        simp [ownTopics, hown, h.last, haccount, hne key]
  | some own =>
      have hown' : (linkStep v .onConnect).page.window.curretrsakey = some own := by
        rw [hpage]
        exact hown
      rw [rightKey_iff htopics hown', hcreated]
      simp [OnePrivateKey, ownTopics, hclient, hown, h.last, haccount, hne]

/-- One event keeps topics and keys together exactly if it leaves the connection
with one private key. -/
theorem rightKey_step_iff (h : Linked v) (hright : RightKey v) (e : KeyEvent forge) :
    RightKey (linkStep v e) ↔ OnePrivateKey v e := by
  cases e with
  | creatensskey seed => exact rightKey_creatensskey_iff h seed
  | onConnectionLost =>
      refine ⟨fun _ => trivial, fun _ => ?_⟩
      simp only [linkStep, KeyEvent.toPageEvent, visitStep, pageStep]
      by_cases hclient : v.page.client.isSome = true
      · rw [if_pos hclient]
        apply rightKey_of_no_topic
        intro topics hsome
        cases hsome
      · rw [if_neg hclient]
        exact hright
  | onConnect =>
      by_cases hclient : v.page.client = none
      · exact rightKey_onConnect_iff h hclient
      · simp only [linkStep, KeyEvent.toPageEvent, visitStep, pageStep, hclient, if_false,
          OnePrivateKey, false_imp_iff, iff_true]
        exact hright

end Step

/-- In every state of a run, a message on the topic of a key that was created and
is subscribed is decrypted with the private key of this key, if and only if no
event brings the topics of two private keys onto one connection. -/
theorem right_key_iff (forge : Forge) (number : Nat) (events : List (KeyEvent forge)) :
    (∀ first, first <+: events → RightKey (Runs.run linkStep (visitOnload number) first)) ↔
    Runs.Steps linkStep OnePrivateKey (visitOnload number) events := by
  apply Runs.always_iff_steps Linked
  · intro v e h
    exact h.step e
  · intro v e h hright
    exact rightKey_step_iff h hright e
  · exact ⟨rfl, rfl, number, rfl⟩
  · apply rightKey_of_no_topic
    simp [visitOnload, pageOnload]

/-- Two keys are created on one connection. -/
def twoKeys : List (KeyEvent paddingForge) := [.onConnect, .creatensskey [1], .creatensskey [2]]

/-- Both topics are subscribed, and what arrives for the first key is decrypted
with the second. -/
theorem first_key_lost :
    let v := Runs.run linkStep (visitOnload 5) twoKeys
    let first := getrsakey paddingForge [1]
    first ∈ v.created ∧ keyTopic first ∈ v.page.client.getD [] ∧
    decryptedWith v.page.window (keyTopic first) [48] =
      some (getrsakey paddingForge [2]).privatekey ∧
    (getrsakey paddingForge [2]).privatekey ≠ first.privatekey ∧ ¬ RightKey v := by
  have hcreated : getrsakey paddingForge [1] ∈
      (Runs.run linkStep (visitOnload 5) twoKeys).created := List.mem_cons_self
  have hwith : decryptedWith (Runs.run linkStep (visitOnload 5) twoKeys).page.window
      (keyTopic (getrsakey paddingForge [1])) [48] =
      some (getrsakey paddingForge [2]).privatekey := by decide
  have hdiffer : (getrsakey paddingForge [2]).privatekey ≠
      (getrsakey paddingForge [1]).privatekey := by decide
  refine ⟨hcreated, by decide, hwith, hdiffer, ?_⟩
  intro h
  have hright := h _ rfl _ hcreated (by decide) [48] (by decide)
  rw [hwith] at hright
  exact hdiffer (Option.some.inj hright)

end CodingLearners.SecretChat
