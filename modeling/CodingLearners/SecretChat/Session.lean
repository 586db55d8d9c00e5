import CodingLearners.SecretChat.MqttClient

/-!
# Subscriptions of the two chat pages

`mqttclienta.js` of the plain and of the secret chat: what a page subscribes
when it connects, when the user asks for a topic, and when a key is created.

## Implementation notes

The broker starts every connection without subscriptions and keeps one as long
as the connection lasts. The vendored client throws on `subscribe` while it is
not connected; a thrown exception is `none`. Creating a key ends with the offer
to save its public part, which no subscription depends on.
-/

namespace CodingLearners.SecretChat

open Js

/-- The two pages. -/
inductive ChatCopy
  | webchat
  | webSecretchat
  deriving DecidableEq, Repr

def rsakeypm : JsString := units "i3rqu-e5d291db-b61b-44de-9ad9-RSA256-key"

/-- The text of a random account number. -/
def accountText (number : Nat) : JsString :=
  (Nat.toDigits 10 number).map fun c => c.toNat.toUInt16

/-- The variables of a page that subscriptions depend on. `client` has the topics
of the current connection; the plain chat has no keys and no connection status. -/
structure Page (forge : Forge) where
  client : Option (List JsString)
  connectSrvStatus : Bool
  lastSubscribe : Option JsString
  mqttAccountRandrom : JsString
  window : Window forge

variable {forge : Forge}

/-- The page after `window.onload`, with the account number drawn there. -/
def pageOnload (number : Nat) : Page forge :=
  ⟨none, false, none, accountText number, onload forge⟩

def subscribeMqttTopic (page : Page forge) (thisTopic : JsString) : Option (Page forge) :=
  page.client.map fun topics => { page with client := some (topics ++ [thisTopic]) }

/-- The topic on which a key's messages arrive. -/
def keyTopic (key : RsaKey forge) : JsString := sspretitle ++ getmd5key forge key.publickey

def subscribeSecCurrentTopic (page : Page forge) : Option (Page forge) :=
  if page.connectSrvStatus = true then
    match page.window.curretrsakey with
    | some key => if key.publickey ≠ [] then subscribeMqttTopic page (keyTopic key) else some page
    | none => some page
  else some page

/-- The click handler `creatensskey`, which only the secret chat has. The key is
replaced before anything can throw. -/
def clickCreatensskey (copy : ChatCopy) (page : Page forge) (seed : forge.Seed) : Page forge :=
  match copy with
  | .webchat => page
  | .webSecretchat =>
      let page := { page with window := creatensskey page.window seed }
      (subscribeSecCurrentTopic page).getD page

/-- `subscribemqtttopica`, for the text of the input element. -/
def subscribemqtttopica (page : Page forge) (topic : JsString) : Page forge :=
  if topic ≠ [] then
    match subscribeMqttTopic page topic with
    | some page => { page with lastSubscribe := some topic }
    | none => page
  else page

/-- The topics that `onConnect` subscribes before the last one of the user. -/
def ownTopics (copy : ChatCopy) (page : Page forge) : List JsString :=
  match copy, page.window.curretrsakey with
  | .webSecretchat, some key => [rsakeypm, page.mqttAccountRandrom, keyTopic key]
  | _, _ => [rsakeypm, page.mqttAccountRandrom]

def onConnect (copy : ChatCopy) (page : Page forge) : Option (Page forge) := do
  let page := match copy with
    | .webchat => page
    | .webSecretchat => { page with connectSrvStatus := true }
  let page ← subscribeMqttTopic page rsakeypm
  let page ← subscribeMqttTopic page page.mqttAccountRandrom
  let page ← match copy, page.window.curretrsakey with
    | .webSecretchat, some key => subscribeMqttTopic page (keyTopic key)
    | _, _ => some page
  match page.lastSubscribe with
  | some topic => if topic ≠ [] then subscribeMqttTopic page topic else some page
  | none => some page

def onConnectionLost (page : Page forge) : Page forge :=
  { page with client := none, connectSrvStatus := false }

/-- What happens to a page. A message changes none of the variables. -/
inductive PageEvent (forge : Forge)
  | subscribemqtttopica (topic : JsString)
  | creatensskey (seed : forge.Seed)
  | onConnectionLost
  | onConnect

/-- A connection can only be lost while there is one, and made while there is none. -/
def pageStep (copy : ChatCopy) (page : Page forge) : PageEvent forge → Page forge
  | .subscribemqtttopica topic => subscribemqtttopica page topic
  | .creatensskey seed => clickCreatensskey copy page seed
  | .onConnectionLost => if page.client.isSome = true then onConnectionLost page else page
  | .onConnect =>
      if page.client = none then
        let page := { page with client := some [] }
        (onConnect copy page).getD page
      else page

/-- A page with what happened on it: the topics that the user has subscribed to
and the keys that were created, in order. -/
structure Visit (forge : Forge) where
  page : Page forge
  asked : List JsString
  created : List (RsaKey forge)

def visitStep (copy : ChatCopy) (v : Visit forge) (e : PageEvent forge) : Visit forge :=
  { page := pageStep copy v.page e
    asked := match e with
      | .subscribemqtttopica topic =>
          if topic ≠ [] ∧ v.page.client.isSome = true then v.asked ++ [topic] else v.asked
      | _ => v.asked
    created := match copy, e with
      | .webSecretchat, .creatensskey seed => v.created ++ [getrsakey forge seed]
      | _, _ => v.created }

/-- The page has just been loaded. -/
def visitOnload (number : Nat) : Visit forge := ⟨pageOnload number, [], []⟩

/-! ## One lemma for each function -/

section Spec

variable {copy : ChatCopy} {page : Page forge} {topics : List JsString}

theorem subscribemqtttopica_connected (hclient : page.client = some topics) {topic : JsString}
    (htopic : topic ≠ []) :
    subscribemqtttopica page topic =
      { page with client := some (topics ++ [topic]), lastSubscribe := some topic } := by
  simp [subscribemqtttopica, subscribeMqttTopic, hclient, htopic]

/-- Without a connection, or without a text, the user's subscription has no effect. -/
theorem subscribemqtttopica_refused {topic : JsString}
    (h : ¬ (topic ≠ [] ∧ page.client.isSome = true)) : subscribemqtttopica page topic = page := by
  rw [subscribemqtttopica]
  split
  · next htopic =>
    have hclient : page.client = none := by simpa [htopic] using h
    simp [subscribeMqttTopic, hclient]
  · rfl

/-- The topics that a successful connection ends up with. -/
theorem pageStep_onConnect (hclient : page.client = none)
    (hlast : page.lastSubscribe ≠ some []) :
    pageStep copy page .onConnect =
      { page with
        client := some (ownTopics copy page ++ page.lastSubscribe.toList)
        connectSrvStatus := decide (copy = .webSecretchat) || page.connectSrvStatus } := by
  have hread : ∀ topic, page.lastSubscribe = some topic → topic ≠ [] := by
    rintro topic heq rfl
    exact hlast heq
  cases copy with
  | webchat =>
      cases hsub : page.lastSubscribe with
      | none => simp [pageStep, onConnect, subscribeMqttTopic, ownTopics, hclient, hsub]
      | some topic =>
          simp [pageStep, onConnect, subscribeMqttTopic, ownTopics, hclient, hsub, hread topic hsub]
  | webSecretchat =>
      cases hkey : page.window.curretrsakey with
      | none =>
          cases hsub : page.lastSubscribe with
          | none => simp [pageStep, onConnect, subscribeMqttTopic, ownTopics, hclient, hkey, hsub]
          | some topic =>
              simp [pageStep, onConnect, subscribeMqttTopic, ownTopics, hclient, hkey, hsub,
                hread topic hsub]
      | some key =>
          cases hsub : page.lastSubscribe with
          | none => simp [pageStep, onConnect, subscribeMqttTopic, ownTopics, hclient, hkey, hsub]
          | some topic =>
              simp [pageStep, onConnect, subscribeMqttTopic, ownTopics, hclient, hkey, hsub,
                hread topic hsub]

end Spec

end CodingLearners.SecretChat
