import CodingLearners.SecretChat.Session

/-!
# What a new connection subscribes again

A page keeps one topic for the next connection, while the current connection
collects every topic the user asks for. After a connection the user has all
topics back exactly if at most the last one had to be kept.
-/

namespace CodingLearners.SecretChat

open Js

variable {forge : Forge} {copy : ChatCopy} {v : Visit forge}

/-- If this is a successful connection, every topic that the user has subscribed
to since the page was loaded is subscribed on it. -/
def AllRestored (copy : ChatCopy) (v : Visit forge) (e : PageEvent forge) : Prop :=
  e = .onConnect → v.page.client = none →
    ∀ topic ∈ v.asked, ∃ topics, (visitStep copy v e).page.client = some topics ∧ topic ∈ topics

/-- If this is a successful connection, every topic that the user has subscribed
to is the last of them or one that the page subscribes anyway. -/
def OnlyLastToKeep (copy : ChatCopy) (v : Visit forge) (e : PageEvent forge) : Prop :=
  e = .onConnect → v.page.client = none →
    ∀ topic ∈ v.asked, v.asked.getLast? = some topic ∨ topic ∈ ownTopics copy v.page

/-- The topic kept is the last one of the user. -/
structure KeepsLast (v : Visit forge) : Prop where
  last : v.page.lastSubscribe = v.asked.getLast?
  nonempty : ∀ topic ∈ v.asked, topic ≠ []

theorem KeepsLast.lastSubscribe_ne (h : KeepsLast v) : v.page.lastSubscribe ≠ some [] := by
  intro heq
  rw [h.last] at heq
  exact h.nonempty [] (List.mem_of_getLast? heq) rfl

/-- Creating a key and losing a connection leave the kept topic alone. -/
theorem clickCreatensskey_lastSubscribe (page : Page forge) (seed : forge.Seed) :
    (clickCreatensskey copy page seed).lastSubscribe = page.lastSubscribe := by
  cases copy with
  | webchat => rfl
  | webSecretchat =>
      simp only [clickCreatensskey, subscribeSecCurrentTopic, subscribeMqttTopic]
      split
      · split
        · split
          · cases page.client <;> rfl
          · rfl
        · rfl
      · rfl

theorem KeepsLast.step (h : KeepsLast v) (e : PageEvent forge) :
    KeepsLast (visitStep copy v e) := by
  cases e with
  | subscribemqtttopica topic =>
      by_cases hasked : topic ≠ [] ∧ v.page.client.isSome = true
      · obtain ⟨topics, hclient⟩ := Option.isSome_iff_exists.mp hasked.2
        constructor
        · simp only [visitStep, pageStep, if_pos hasked,
            subscribemqtttopica_connected hclient hasked.1, List.getLast?_append,
            List.getLast?_singleton, Option.or]
        · intro asked hmem
          simp only [visitStep, if_pos hasked, List.mem_append, List.mem_singleton] at hmem
          rcases hmem with hmem | rfl
          · exact h.nonempty asked hmem
          · exact hasked.1
      · constructor
        · simp only [visitStep, pageStep, if_neg hasked, subscribemqtttopica_refused hasked]
          exact h.last
        · simp only [visitStep, if_neg hasked]
          exact h.nonempty
  | creatensskey seed =>
      refine ⟨?_, h.nonempty⟩
      simp only [visitStep, pageStep, clickCreatensskey_lastSubscribe]
      exact h.last
  | onConnectionLost =>
      refine ⟨?_, h.nonempty⟩
      simp only [visitStep, pageStep]
      split <;> exact h.last
  | onConnect =>
      refine ⟨?_, h.nonempty⟩
      by_cases hclient : v.page.client = none
      · simp only [visitStep, pageStep_onConnect hclient h.lastSubscribe_ne]
        exact h.last
      · simp only [visitStep, pageStep, hclient, if_false]
        exact h.last

/-- One event restores everything exactly if only the last topic had to be kept. -/
theorem allRestored_step_iff (h : KeepsLast v) (e : PageEvent forge) :
    AllRestored copy v e ↔ OnlyLastToKeep copy v e := by
  apply imp_congr_right
  rintro rfl
  apply imp_congr_right
  intro hclient
  apply forall₂_congr
  intro topic _
  simp only [visitStep, pageStep_onConnect hclient h.lastSubscribe_ne, Option.some.injEq,
    exists_eq_left', List.mem_append, Option.mem_toList, h.last, or_comm]

/-- In both pages, in every run every connection has all topics of the user, if
and only if at every connection at most the last one had to be kept. -/
theorem all_restored_iff (copy : ChatCopy) (forge : Forge) (number : Nat)
    (events : List (PageEvent forge)) :
    Runs.Steps (visitStep copy) (AllRestored copy) (visitOnload number) events ↔
    Runs.Steps (visitStep copy) (OnlyLastToKeep copy) (visitOnload number) events := by
  have hload : KeepsLast (visitOnload number : Visit forge) := ⟨rfl, by simp [visitOnload]⟩
  constructor
  · intro h
    apply Runs.Steps.imp KeepsLast _ h hload
    intro v e hkeeps hrestored
    exact ⟨hkeeps.step e, (allRestored_step_iff hkeeps e).mp hrestored⟩
  · intro h
    apply Runs.Steps.imp KeepsLast _ h hload
    intro v e hkeeps honly
    exact ⟨hkeeps.step e, (allRestored_step_iff hkeeps e).mpr honly⟩

/-- The user subscribes to two topics, and the connection is lost and made again. -/
def twoTopics : List (PageEvent paddingForge) :=
  [.onConnect, .subscribemqtttopica (units "a"), .subscribemqtttopica (units "b"),
    .onConnectionLost, .onConnect]

/-- In neither page the new connection has the first topic. -/
theorem first_topic_lost :
    ((Runs.run (visitStep .webchat) (visitOnload 5) twoTopics).asked = [units "a", units "b"] ∧
      (Runs.run (visitStep .webchat) (visitOnload 5) twoTopics).page.client =
        some [rsakeypm, units "5", units "b"]) ∧
    ((Runs.run (visitStep .webSecretchat) (visitOnload 5) twoTopics).asked =
        [units "a", units "b"] ∧
      (Runs.run (visitStep .webSecretchat) (visitOnload 5) twoTopics).page.client =
        some [rsakeypm, units "5", units "b"]) ∧
    ∀ copy, ¬ Runs.Steps (visitStep copy) (AllRestored copy) (visitOnload 5) twoTopics := by
  refine ⟨by decide, by decide, ?_⟩
  intro copy h
  obtain ⟨topics, hclient, hmem⟩ := h.2.2.2.2.1 rfl (by cases copy <;> rfl) (units "a")
    (by cases copy <;> decide)
  have hnew : topics = [rsakeypm, units "5", units "b"] := by
    cases copy <;> exact Option.some.inj (hclient.symm.trans rfl)
  rw [hnew] at hmem
  exact absurd hmem (by decide)

end CodingLearners.SecretChat
