import CodingLearners.Library.JsonWrite
import CodingLearners.Library.Runs
import Mathlib.Data.List.Nodup

/-!
# `my_public_ip_server`

The server keeps the last report of a public address that it accepted. Everybody may
post, and the only check is on the characters and the length of what `JSON.stringify`
makes of the body; no answer has other characters than the check lets through.

## Implementation notes

What Express makes of the body of a post is a parameter: a value for `req.body`, or a
page of its own, with which it answers instead of the handlers. A reader sends no body,
and sees the text that an answer 304 stands for.
-/

namespace CodingLearners.PublicIp

open Js

variable (numbers : Numbers)

abbrev Json := JsonValue numbers.Double

/-- An item of `publicips`; a missing property is `undefined`. -/
structure Ipinfo where
  ip : Option (Json numbers)
  cmd : Option (Json numbers)
  date : Option (Json numbers)

structure Response where
  status : Nat
  text : JsString
  deriving DecidableEq

/-- Express: the posts that arrive, the bytes of their bodies, what `express.json()` does
with one, and the post that `curl` makes of a text with the content type of JSON. -/
structure Express where
  Post : Type
  size : Post → Nat
  json : Post → Except Response (Json numbers)
  curl : JsString → Post

/-- The requests for `/api/ips`. -/
inductive Request {numbers : Numbers} (express : Express numbers)
  | get
  | post (post : express.Post)

/-- `const publicips`, with its first item. -/
def unknown : Ipinfo numbers where
  ip := some (.string (units "192.168.1.1"))
  cmd := some (.string (units "unkonwn"))
  date := some (.string (units "unknown"))

variable {numbers}

/-- The members of an item that are not `undefined`. -/
def ipinfoMembers (myip : Ipinfo numbers) : List (JsString × JsString) :=
  [(units "ip", myip.ip), (units "cmd", myip.cmd), (units "date", myip.date)].filterMap
    fun member => member.2.map fun value => (member.1, jsonText numbers value)

/-- `JSON.stringify(myip)` -/
def ipinfoText (myip : Ipinfo numbers) : JsString := bracesText (ipinfoMembers myip)

/-- `JSON.stringify(publicips)` -/
def publicipsText (publicips : List (Ipinfo numbers)) : JsString :=
  91 :: ([44].intercalate (publicips.map ipinfoText) ++ [93])

/-- `validtot` -/
def validtot : JsString :=
  units ("\x7b\x7d\",: ./-1234567890ABCDEFGHIJKLMNOPQRSTUVWXYZ" ++ "abcdefghijklmnopqrstuvwxyz")

/-- `reschk` -/
def reschk (resstrd : JsString) : Bool :=
  decide (resstrd.length < 199) && resstrd.all fun u => validtot.contains u

variable (numbers)

/-- `const myip` -/
def myip (body : Json numbers) : Ipinfo numbers where
  ip := (property body (units "ip")).join
  cmd := (property body (units "cmd")).join
  date := (property body (units "date")).join

variable {numbers} (express : Express numbers)

/-- A request, from the items of `publicips` to those after it and the answer. -/
def handle (publicips : List (Ipinfo numbers)) :
    Request express → List (Ipinfo numbers) × Response
  | .get => (publicips, ⟨200, publicipsText publicips⟩)
  | .post post =>
      match express.json post with
      | .error page => (publicips, page)
      | .ok body =>
          if reschk (jsonText numbers body) then
            let myip := myip numbers body
            (publicips.dropLast ++ [myip], ⟨200, ipinfoText myip⟩)
          else (publicips, ⟨400, []⟩)

/-- The items after a sequence of requests. -/
def publicipsAfter (requests : List (Request express)) : List (Ipinfo numbers) :=
  Runs.run (fun publicips request => (handle express publicips request).1) [unknown numbers]
    requests

/-- The answer to a request after them. -/
def answer (requests : List (Request express)) (request : Request express) : Response :=
  (handle express (publicipsAfter express requests) request).2

/-! ## The item that is kept -/

/-- What a request puts into the list, if it is accepted. -/
def accepted : Request express → Option (Ipinfo numbers)
  | .get => none
  | .post post =>
      match express.json post with
      | .error _ => none
      | .ok body => if reschk (jsonText numbers body) then some (myip numbers body) else none

variable {express}

theorem handle_publicips (publicips : List (Ipinfo numbers)) (request : Request express) :
    (handle express publicips request).1 =
      match accepted express request with
      | none => publicips
      | some myip => publicips.dropLast ++ [myip] := by
  cases request with
  | get => rfl
  | post post =>
      rw [handle, accepted]
      cases express.json post with
      | error page => rfl
      | ok body =>
          by_cases hreschk : reschk (jsonText numbers body) = true
          · simp only [if_pos hreschk]
          · simp only [if_neg hreschk]

/-- A post that Express hands on is answered with 200 if it is accepted. -/
theorem status_post (publicips : List (Ipinfo numbers)) {post : express.Post} {body : Json numbers}
    (hbody : express.json post = .ok body) :
    (handle express publicips (.post post)).2.status =
      if (accepted express (.post post)).isSome then 200 else 400 := by
  rw [handle, accepted, hbody]
  by_cases hreschk : reschk (jsonText numbers body) = true
  · simp only [if_pos hreschk, Option.isSome_some, if_true]
  · simp only [if_neg hreschk, Option.isSome_none, Bool.false_eq_true, if_false]

/-- The list has one item, the last one that was accepted. -/
theorem publicipsAfter_eq (requests : List (Request express)) :
    publicipsAfter express requests =
      [((requests.filterMap (accepted express)).getLast?).getD (unknown numbers)] := by
  induction requests using List.reverseRecOn with
  | nil => rfl
  | append_singleton requests request ih =>
      have hstep : publicipsAfter express (requests ++ [request]) =
          (handle express (publicipsAfter express requests) request).1 := by
        rw [publicipsAfter, Runs.run_append]
        rfl
      rw [hstep, handle_publicips, ih, List.filterMap_append]
      cases haccepted : accepted express request with
      | none => simp [haccepted]
      | some myip => simp [haccepted]

/-! ## What the answers consist of -/

/-- The characters that the check lets through. -/
def Valid (u : UInt16) : Prop := validtot.contains u = true

instance : DecidablePred Valid := fun u => inferInstanceAs (Decidable (validtot.contains u = true))

theorem valid_marks : (Valid 123 ∧ Valid 125) ∧ Valid 44 ∧ Valid 58 ∧ Valid 34 := by decide

/-- What may stand in a string, by evaluation. -/
theorem forall_valid {s : JsString} (h : s.all (fun u => validtot.contains u && u != 34) = true) :
    ∀ u ∈ s, Valid u ∧ u ≠ 34 := by
  intro u hu
  have hboth := List.all_eq_true.mp h u hu
  rw [Bool.and_eq_true, bne_iff_ne] at hboth
  exact hboth

/-- A text that is short enough, with valid characters only. -/
structure Passes (text : JsString) : Prop where
  length : text.length < 199
  valid : ∀ u ∈ text, Valid u

theorem reschk_iff (resstrd : JsString) : reschk resstrd = true ↔ Passes resstrd := by
  rw [reschk, Bool.and_eq_true, decide_eq_true_eq, List.all_eq_true]
  exact ⟨fun h => ⟨h.1, h.2⟩, fun h => ⟨h.length, h.valid⟩⟩

/-- Valid characters need no escape. -/
theorem verbatim_valid : Verbatim Valid := by
  have hrange : ∀ u, Valid u → u ≠ 92 ∧ 32 ≤ u.toNat ∧ u.toNat < 128 := by
    intro u hu
    have hall : validtot.all fun v => decide (v ≠ 92 ∧ 32 ≤ v.toNat ∧ v.toNat < 128) := by
      decide +kernel
    exact of_decide_eq_true (List.all_eq_true.mp hall u (List.contains_iff_mem.mp hu))
  constructor
  · exact fun h => (hrange 92 h).1 rfl
  · exact fun u hlt h => absurd (hrange u h).2.1 (Nat.not_le_of_lt hlt)
  · intro u hsurrogate h
    have hlt := (hrange u h).2.2
    simp only [isLead, isTrail, decide_eq_true_eq] at hsurrogate
    omega

theorem stringify_valid {s : JsString} (h : ∀ u ∈ s, Valid u ∧ u ≠ 34) :
    textUnits (stringify s) = 34 :: (s ++ [34]) :=
  (verbatim_valid.stringify valid_marks.2.2.2 s).2 h

/-- An item of three strings with valid characters. -/
theorem ipinfoText_strings {ip cmd date : JsString}
    (h : ∀ u ∈ ip ++ cmd ++ date, Valid u ∧ u ≠ 34) :
    ipinfoText ⟨some (JsonValue.string ip : Json numbers), some (.string cmd),
        some (.string date)⟩ =
      units "\x7b\"ip\":\"" ++ ip ++ units "\",\"cmd\":\"" ++ cmd ++
        units "\",\"date\":\"" ++ date ++ units "\"\x7d" := by
  rw [List.forall_mem_append, List.forall_mem_append] at h
  have hnames : ∀ name ∈ [units "ip", units "cmd", units "date"],
      textUnits (stringify name) = 34 :: (name ++ [34]) := by
    intro name hname
    apply stringify_valid
    simp only [List.mem_cons, List.not_mem_nil, or_false] at hname
    rcases hname with rfl | rfl | rfl
    · exact forall_valid (by decide +kernel)
    · exact forall_valid (by decide +kernel)
    · exact forall_valid (by decide +kernel)
  have htext : ipinfoText ⟨some (JsonValue.string ip : Json numbers), some (.string cmd),
      some (.string date)⟩ = bracesText [(units "ip", textUnits (stringify ip)),
        (units "cmd", textUnits (stringify cmd)), (units "date", textUnits (stringify date))] := by
    simp only [ipinfoText, ipinfoMembers, List.filterMap_cons, List.filterMap_nil, Option.map_some,
      jsonText]
  rw [htext, stringify_valid h.1.1, stringify_valid h.1.2, stringify_valid h.2, bracesText]
  simp only [List.map_cons, List.map_nil, hnames _ (by simp : units "ip" ∈ _),
    hnames _ (by simp : units "cmd" ∈ _), hnames _ (by simp : units "date" ∈ _)]
  simp [units]

end CodingLearners.PublicIp
