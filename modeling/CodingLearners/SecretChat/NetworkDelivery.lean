import CodingLearners.SecretChat.Network

/-!
# From the typed text to the other page

A message that is sent to a key is queued for the page of this key, and shown
there once everything in front of it has been received, whatever the pages do in
the meantime, as long as that page keeps its key and its connection.
-/

namespace CodingLearners.SecretChat

open Js

variable {forge : Forge} {A : Type} [DecidableEq A] {numbers : Numbers}
  {optionText : JsString → JsString} {takes : List JsString → JsString → Bool}
  {s : Network forge A}

/-- The page keeps its key and its connection. -/
def Keeps (b : A) : NetworkEvent forge A → Prop
  | .creatensskey a _ _ _ => a ≠ b
  | .onConnectionLost a => a ≠ b
  | _ => True

/-- Whether the page receives a message. -/
def receives (b : A) : NetworkEvent forge A → Bool
  | .onMessageArrived a => decide (a = b)
  | _ => false

theorem key_setVisit {a b : A} {v : Visit forge}
    (hkey : a = b → v.page.window.curretrsakey = (s.visit a).page.window.curretrsakey) :
    ((s.setVisit a v).visit b).page.window.curretrsakey =
      (s.visit b).page.window.curretrsakey := by
  by_cases hb : b = a
  · subst hb
    simpa [Network.setVisit] using hkey rfl
  · simp [Network.setVisit, hb]

theorem key_step (h : Genuine numbers s) {b : A} {e : NetworkEvent forge A} (hkeeps : Keeps b e) :
    ((networkStep numbers optionText takes s e).visit b).page.window.curretrsakey =
      (s.visit b).page.window.curretrsakey := by
  cases e with
  | creatensskey a seed result saveAs =>
      simp only [networkStep, saveKey_same]
      exact key_setVisit fun heq => absurd heq hkeeps
  | fimportpeerkey a file =>
      simp only [networkStep]
      split
      · exact key_setVisit fun _ => fimportpeerkey_curretrsakey _ _
      · rfl
  | subscribemqtttopica a topic =>
      exact key_setVisit fun _ => congrArg Window.curretrsakey ((h.ready a).window _)
  | onConnect a => exact key_setVisit fun _ => congrArg Window.curretrsakey ((h.ready a).window _)
  | onConnectionLost a => exact key_setVisit fun heq => absurd heq hkeeps
  | sendmqttmsga a selectedIndex sendmsg array rng =>
      simp only [networkStep]
      split
      · rw [publish]
        split <;> rfl
      · rfl
  | onMessageArrived a =>
      simp only [networkStep]
      split <;> rfl

/-- What was arriving stays in order, up to what is received. -/
theorem arriving_step {b : A} {e : NetworkEvent forge A} (hkeeps : Keeps b e) :
    ∃ added, (networkStep numbers optionText takes s e).arriving b =
      (if receives b e = true then (s.arriving b).tail else s.arriving b) ++ added := by
  cases networkStep_moved numbers optionText takes s e with
  | none empty arriving shown =>
      refine ⟨[], ?_⟩
      rw [arriving, List.append_nil]
      split
      · next hreceives =>
        cases e <;> simp only [receives, Bool.false_eq_true, decide_eq_true_eq] at hreceives
        rw [empty b (hreceives ▸ rfl)]
        rfl
      · rfl
  | lost a arriving shown =>
      exact ⟨[], by simp [arriving, receives, Function.update_of_ne (Ne.symm hkeeps)]⟩
  | sent letter typed arriving shown =>
      rcases arriving b with harriving | harriving
      · exact ⟨[], by simpa [receives] using harriving⟩
      · exact ⟨[letter], by simpa [receives] using harriving⟩
  | received a letter rest first arriving shown =>
      refine ⟨[], ?_⟩
      by_cases hb : b = a
      · subst hb
        simp [arriving, receives, first]
      · simp [arriving, receives, hb, Ne.symm hb]

/-- What has been shown stays. -/
theorem shown_step (e : NetworkEvent forge A) (b : A) :
    s.shown b <+: (networkStep numbers optionText takes s e).shown b := by
  cases networkStep_moved numbers optionText takes s e with
  | none empty arriving shown => simp [shown]
  | lost a arriving shown => simp [shown]
  | sent letter typed arriving shown => simp [shown]
  | received a letter rest first arriving shown =>
      by_cases hb : b = a
      · subst hb
        simp [shown]
      · simp [shown, hb]

theorem shown_run (events : List (NetworkEvent forge A)) (b : A) :
    s.shown b <+: (Runs.run (networkStep numbers optionText takes) s events).shown b := by
  induction events generalizing s with
  | nil => exact List.prefix_rfl
  | cons e events ih => exact (shown_step e b).trans ih

/-- The first message that arrives is shown if its handler completes. -/
theorem shown_of_receives {b : A} {e : NetworkEvent forge A} (hreceives : receives b e = true)
    {letter : Letter A} {rest : List (Letter A)} (hfirst : s.arriving b = letter :: rest)
    {d : Displayed} (hshown : onMessageArrived (s.visit b).page.window letter.destinationName
      letter.payloadString = some d) :
    (d, letter) ∈ (networkStep numbers optionText takes s e).shown b := by
  cases e <;> simp only [receives, Bool.false_eq_true, decide_eq_true_eq] at hreceives
  subst hreceives
  simp [networkStep, hfirst, hshown]

/-- A message that arrives is shown after as many receptions as are ahead of it and
one more, if the page keeps its key and its connection. -/
theorem shown_of_arriving (hforge : forge.Faithful) (hexclusive : forge.Exclusive)
    (h : Genuine numbers s) {b : A} {key : RsaKey forge} {letter : Letter A}
    (hkey : (s.visit b).page.window.curretrsakey = some key)
    (hpair : forge.KeyPair letter.publickey key.privatekey) {ahead behind : List (Letter A)}
    (harriving : s.arriving b = ahead ++ letter :: behind) {events : List (NetworkEvent forge A)}
    (hlatin : Runs.Steps (networkStep numbers optionText takes) (LatinAlias numbers) s events)
    (hkeeps : ∀ e ∈ events, Keeps b e) (hcount : ahead.length < events.countP (receives b)) :
    ((⟨true, letter.typed.takeWhile (· ≠ marker), letter.destinationName⟩ : Displayed), letter) ∈
      (Runs.run (networkStep numbers optionText takes) s events).shown b := by
  induction events generalizing s ahead behind with
  | nil => simp at hcount
  | cons e events ih =>
      rw [List.forall_mem_cons] at hkeeps
      set next := networkStep numbers optionText takes s e
      have hnext : Genuine numbers next := h.step hforge hexclusive hlatin.1
      have hkey' : (next.visit b).page.window.curretrsakey = some key :=
        (key_step h hkeeps.1).trans hkey
      obtain ⟨added, hadded⟩ : ∃ added, next.arriving b =
          (if receives b e = true then (s.arriving b).tail else s.arriving b) ++ added :=
        arriving_step hkeeps.1
      by_cases hreceives : receives b e = true
      · rw [List.countP_cons_of_pos hreceives] at hcount
        rw [if_pos hreceives, harriving] at hadded
        cases ahead with
        | cons other ahead =>
            apply ih hnext hkey' _ hlatin.2 hkeeps.2 (Nat.lt_of_succ_lt_succ hcount)
            · exact behind ++ added
            · simpa using hadded
        | nil =>
            apply (shown_run events b).subset
            have hsealed := h.letters b letter (harriving ▸ List.mem_cons_self)
            exact shown_of_receives hreceives harriving
              ((arrived_iff hforge hexclusive hsealed (h.ready b) _).mpr ⟨rfl, key, hkey, hpair⟩)
      · rw [List.countP_cons_of_neg hreceives] at hcount
        rw [if_neg hreceives, harriving] at hadded
        apply ih hnext hkey' _ hlatin.2 hkeeps.2 hcount
        · exact behind ++ added
        · simpa using hadded

/-- A message for a peer is published under the topic of the peer's key. -/
theorem networkStep_published (hforge : forge.Faithful) (h : Genuine numbers s) {a : A}
    {selectedIndex : Option Nat} {peer : Peer forge}
    (hfound : getThepeerInfo optionText (s.visit a).page.window selectedIndex = some peer)
    {sendmsg : JsString} (hmsg : sendmsg ≠ []) (hwf : isWellFormed sendmsg = true)
    (array : List UInt8) (rng : Nat → forge.Seed) {key : RsaKey forge}
    (haddressed : peer.publickey = key.publickey)
    (hpair : forge.KeyPair key.publickey key.privatekey) :
    ∃ letter : Letter A, letter.sender = a ∧ letter.typed = sendmsg ∧
      letter.publickey = key.publickey ∧ letter.destinationName = keyTopic key ∧
      networkStep numbers optionText takes s (.sendmqttmsga a selectedIndex sendmsg array rng) =
        publish takes s letter := by
  obtain ⟨own, hown⟩ := Option.ne_none_iff_exists'.mp
    ((h.ready a).hasKey (List.ne_nil_of_mem (mem_of_getThepeerInfo hfound)))
  obtain ⟨sending, hsending, hpublic, htopic, hpayload⟩ :=
    sendmqttmsga_found optionText hown hfound hmsg array rng
  obtain ⟨encrypted, henc, -⟩ :=
    decrypted_of_keyPair hforge hpair rng (isWellFormed_msgnstr.mpr hwf)
  rw [haddressed, henc, Option.map_some] at hpayload
  refine ⟨⟨a, sendmsg, peer.publickey, sending.sendtopic, own.publickeymd ++ encrypted⟩,
    rfl, rfl, haddressed, ?_, ?_⟩
  · rw [htopic, peer.mdtit_eq, haddressed, keyTopic]
  · obtain ⟨publickey, sendtopic, payload⟩ := sending
    obtain rfl := hpublic
    obtain rfl := hpayload
    simp only [networkStep, hsending]

/-- Who types a text and selects the peer whose key a connected page has created
last gets it shown there, up to the marker: at the latest with the reception after
those of the messages already on their way, whatever else happens in between. -/
theorem typed_is_shown (forge : Forge) (hforge : forge.Faithful) (hexclusive : forge.Exclusive)
    (A : Type) [DecidableEq A] (numbers : Numbers) (optionText : JsString → JsString)
    (takes : List JsString → JsString → Bool)
    (hexact : ∀ topics topic, topic ∈ topics → takes topics topic = true) (number : A → Nat)
    (before after : List (NetworkEvent forge A)) (a b : A) (selectedIndex : Option Nat)
    (sendmsg : JsString) (array : List UInt8) (rng : Nat → forge.Seed)
    (hlatin : Runs.Steps (networkStep numbers optionText takes) (LatinAlias numbers)
      (networkOnload number) (before ++ .sendmqttmsga a selectedIndex sendmsg array rng :: after))
    (hmsg : sendmsg ≠ []) (hwf : isWellFormed sendmsg = true) (peer : Peer forge)
    (hfound : getThepeerInfo optionText
      ((networkAfter numbers optionText takes number before).visit a).page.window selectedIndex =
        some peer)
    (hsender : ((networkAfter numbers optionText takes number before).visit a).page.client ≠ none)
    (hreceiver : ((networkAfter numbers optionText takes number before).visit b).page.client ≠ none)
    (key : RsaKey forge)
    (hkey : ((networkAfter numbers optionText takes number before).visit
      b).page.window.curretrsakey = some key)
    (haddressed : peer.publickey = key.publickey) (hkeeps : ∀ e ∈ after, Keeps b e)
    (hcount : ((networkAfter numbers optionText takes number before).arriving b).length <
      after.countP (receives b)) :
    ∃ letter : Letter A, letter.sender = a ∧ letter.typed = sendmsg ∧
      ((⟨true, sendmsg.takeWhile (· ≠ marker), keyTopic key⟩ : Displayed), letter) ∈
        (networkAfter numbers optionText takes number
          (before ++ .sendmqttmsga a selectedIndex sendmsg array rng :: after)).shown b := by
  obtain ⟨hbefore, hsend, hafter⟩ := (Runs.steps_append _ _ _ _ _).mp hlatin
  have h := genuine_networkAfter hforge hexclusive hbefore
  set s := networkAfter numbers optionText takes number before with hs
  have hpeer := mem_of_getThepeerInfo hfound
  obtain ⟨seed, rfl⟩ := (h.ready b).created key ((h.ready b).current key hkey)
  have hpair := keyPair_getrsakey hforge seed
  have hpub : (getrsakey forge seed).publickey ≠ [] := by
    obtain ⟨file, hfile, hsame, -⟩ := h.peers a peer hpeer
    rw [← haddressed, ← hsame]
    exact (h.saved file hfile).2.1
  obtain ⟨letter, hsenderIs, htyped, hpublic, hsubject, hpublished⟩ :=
    @networkStep_published forge A _ numbers optionText takes s hforge h a selectedIndex peer hfound
      sendmsg hmsg hwf array rng _ haddressed hpair
  -- the topic of the key is subscribed
  obtain ⟨topics, htopics⟩ := Option.ne_none_iff_exists'.mp hreceiver
  have htaken := hexact topics _ ((h.ready b).subscribed topics _ htopics hkey hpub)
  have hqueued : (publish takes s letter).arriving b = s.arriving b ++ letter :: [] := by
    simp [publish, hsenderIs, Option.isSome_iff_ne_none.mpr hsender, htopics, hsubject, htaken]
  set e : NetworkEvent forge A := .sendmqttmsga a selectedIndex sendmsg array rng with he
  have hnext : Genuine numbers (networkStep numbers optionText takes s e) :=
    h.step hforge hexclusive hsend
  have hkey' : ((networkStep numbers optionText takes s e).visit b).page.window.curretrsakey =
      some (getrsakey forge seed) := (key_step h (show Keeps b e from trivial)).trans hkey
  have hpair' : forge.KeyPair letter.publickey (getrsakey forge seed).privatekey := by
    rwa [hpublic]
  have hshown := shown_of_arriving hforge hexclusive hnext hkey' hpair'
    (hpublished ▸ hqueued) hafter hkeeps hcount
  refine ⟨letter, hsenderIs, htyped, ?_⟩
  rw [networkAfter, Runs.run_append, ← hsubject, ← htyped]
  exact hshown

theorem typed_is_shown_greeting :
    ∃ letter : Letter Bool, letter.sender = false ∧ ∃ topic,
      ((⟨true, units "hi", topic⟩ : Displayed), letter) ∈
        (networkAfter accountNumbers id exactTakes twoAccounts greeting).shown true := by
  have hpublic : ((getThepeerInfo id ((networkAfter accountNumbers id exactTakes twoAccounts
      acquainted).visit false).page.window (some 0)).map Peer.publickey) = some (units "Ag==") := by
    decide +kernel
  have hown : ((networkAfter accountNumbers id exactTakes twoAccounts
      acquainted).visit true).page.window.curretrsakey.map RsaKey.publickey =
        some (units "Ag==") := by
    decide +kernel
  obtain ⟨peer, hfound, hpublic⟩ := Option.map_eq_some_iff.mp hpublic
  obtain ⟨key, hkey, hown⟩ := Option.map_eq_some_iff.mp hown
  obtain ⟨letter, hsender, -, hshown⟩ := typed_is_shown labelForge labelForge_faithful
    labelForge_exclusive Bool accountNumbers id exactTakes (by simp [exactTakes]) twoAccounts
    acquainted [.onMessageArrived true] false true (some 0) (units "hi") [7] (fun _ => (0 : UInt8))
    greeting_latin (by decide) (by decide) peer hfound (by decide +kernel) (by decide +kernel)
    key hkey (hpublic.trans hown.symm) (by simp [Keeps]) (by decide +kernel)
  have hplain : (units "hi").takeWhile (· ≠ marker) = units "hi" := by decide
  rw [hplain, ← greeting] at hshown
  exact ⟨letter, hsender, keyTopic key, hshown⟩

end CodingLearners.SecretChat
