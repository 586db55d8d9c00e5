import CodingLearners.Library.ShellText
import CodingLearners.PublicIp.Server

/-!
# `get-public-ip.sh`

The script asks three services in turn for the public address and posts what they
answer, as a text of its own making. The server takes such a report if the answers fit
into its check, and shows it until it accepts the next one.

## Implementation notes

What a command prints is the text that the server reads in its place. Of Express only
is known what `Express.Documented` says.
-/

namespace CodingLearners.PublicIp

open Js
open ShellText (substitution)

/-- The two copies of the script; one reports the local address too. -/
inductive Script
  | autossh
  | publicIpInfo
  deriving DecidableEq

/-- `mcmd` -/
def mcmd : List JsString :=
  [units "curl -4 icanhazip.com", units "curl ipinfo.io/ip", units "curl ipecho.net/plain"]

/-- A turn of the inner loop, with what its three commands print. -/
structure Turn where
  icmd : JsString
  icmd_mem : icmd ∈ mcmd
  mpip : JsString
  localip : JsString
  mdate : JsString

def Turn.ip (turn : Turn) : Script → JsString
  | .autossh => substitution turn.mpip ++ units " : " ++ substitution turn.localip
  | .publicIpInfo => substitution turn.mpip

def Turn.date (turn : Turn) : JsString := substitution turn.mdate

/-- The argument of `-d`. -/
def Turn.data (turn : Turn) (script : Script) : JsString :=
  units "\x7b\"ip\":\"" ++ turn.ip script ++ units "\",\"date\":\"" ++ turn.date ++
    units "\",\"cmd\": \"" ++ turn.icmd ++ units "\"\x7d"

/-- What `curl` posts. -/
def Turn.post {numbers : Numbers} (express : Express numbers) (turn : Turn) (script : Script) :
    express.Post :=
  express.curl (turn.data script)

def Turn.request {numbers : Numbers} (express : Express numbers) (turn : Turn) (script : Script) :
    Request express :=
  .post (turn.post express script)

/-- What the server shows of a report. -/
def Turn.shown (turn : Turn) (script : Script) : JsString :=
  units "[\x7b\"ip\":\"" ++ turn.ip script ++ units "\",\"cmd\":\"" ++ turn.icmd ++
    units "\",\"date\":\"" ++ turn.date ++ units "\"\x7d]"

/-- The answers have valid characters and are short enough. -/
def Turn.Fits (turn : Turn) (script : Script) : Prop :=
  (∀ u ∈ turn.ip script ++ turn.date, Valid u) ∧
    (turn.ip script).length + turn.date.length + turn.icmd.length + 28 < 199

instance (turn : Turn) (script : Script) : Decidable (turn.Fits script) :=
  decidable_of_iff
    ((turn.ip script ++ turn.date).all (fun u => validtot.contains u) = true ∧
      (turn.ip script).length + turn.date.length + turn.icmd.length + 28 < 199)
    (and_congr_left' List.all_eq_true)

/-! ## What Express does with a report -/

/-- The default of `limit`, which is `100kb`. -/
def jsonLimit : Nat := 102400

/-- What is documented of Express: texts are posted in UTF-8; a body over the limit is
answered with 413; another one in braces is read as JSON, or answered with 400. -/
structure Express.Documented {numbers : Numbers} (express : Express numbers) : Prop where
  size_le : ∀ text, express.size (express.curl text) ≤ 3 * text.length
  large : ∀ text, jsonLimit < express.size (express.curl text) →
    ∃ page, express.json (express.curl text) = .error page ∧ page.status = 413
  read : ∀ rest value, express.size (express.curl (123 :: rest)) ≤ jsonLimit →
    jsonParse numbers (123 :: rest) = some value →
    express.json (express.curl (123 :: rest)) = .ok value
  broken : ∀ rest, express.size (express.curl (123 :: rest)) ≤ jsonLimit →
    jsonParse numbers (123 :: rest) = none →
    ∃ page, express.json (express.curl (123 :: rest)) = .error page ∧ page.status = 400

/-! ## What the server reads -/

variable {numbers : Numbers} {turn : Turn} {script : Script}

theorem icmd_valid (turn : Turn) : ∀ u ∈ turn.icmd, Valid u ∧ u ≠ 34 := by
  have hmem := turn.icmd_mem
  simp only [mcmd, List.mem_cons, List.not_mem_nil, or_false] at hmem
  rcases hmem with h | h | h
  · rw [h]
    exact forall_valid (by decide +kernel)
  · rw [h]
    exact forall_valid (by decide +kernel)
  · rw [h]
    exact forall_valid (by decide +kernel)

/-- Valid characters are printable. -/
theorem printable_of_valid {u : UInt16} (h : Valid u) : 32 ≤ u.toNat :=
  Nat.le_of_not_lt fun hlt => verbatim_valid.control u hlt h

/-- The object that a report is read as. -/
def Turn.object (turn : Turn) (script : Script) : Json numbers :=
  .object [(units "ip", .string (turn.ip script)), (units "date", .string turn.date),
    (units "cmd", .string turn.icmd)]

theorem data_eq : turn.data script =
    123 :: (34 :: (units "ip" ++ 34 :: 58 :: ([] ++ 34 :: (turn.ip script ++ [34]))) ++
      44 :: (34 :: (units "date" ++ 34 :: 58 :: ([] ++ 34 :: (turn.date ++ [34]))) ++
        44 :: (34 :: (units "cmd" ++ 34 :: 58 :: ([32] ++ 34 :: (turn.icmd ++ [34]))) ++
          125 :: []))) := by
  simp [Turn.data, units]

/-- A report without quotes and backslashes is read if it has no control characters. -/
theorem jsonParse_data (hmarks : ∀ u ∈ turn.ip script ++ turn.date, u ≠ 34 ∧ u ≠ 92) :
    jsonParse numbers (turn.data script) =
      if Printable (turn.ip script ++ turn.date) then some (turn.object script) else none := by
  obtain ⟨hip, hdate⟩ := List.forall_mem_append.mp hmarks
  have hicmd : ∀ u ∈ turn.icmd, u ≠ 34 ∧ u ≠ 92 := by
    intro u hu
    obtain ⟨hvalid, hmark⟩ := icmd_valid turn u hu
    refine ⟨hmark, ?_⟩
    rintro rfl
    exact verbatim_valid.backslash hvalid
  have hprintable : Printable turn.icmd :=
    fun u hu => printable_of_valid (icmd_valid turn u hu).1
  have hnone : ∀ u ∈ ([] : JsString), isJsonSpace u = true := by simp
  have hblank : ∀ u ∈ ([32] : JsString), isJsonSpace u = true := by simp; decide
  obtain ⟨fuel, hfuel⟩ : ∃ fuel, (turn.data script).length = fuel + 4 :=
    ⟨_, (Nat.sub_add_cancel (by rw [data_eq]; simp; omega)).symm⟩
  have hname : ∀ name ∈ [units "ip", units "date", units "cmd"],
      ∀ u ∈ name, (u ≠ 34 ∧ u ≠ 92) ∧ 32 ≤ u.toNat := by
    simp [units]
  have hfirst := fun rest => (parseMembers_typed numbers (fuel + 2) (hname (units "ip") (by simp))
    hip hnone rest).2
  have hsecond := fun rest => (parseMembers_typed numbers (fuel + 1)
    (hname (units "date") (by simp)) hdate hnone rest).2
  have hthird := (parseMembers_typed numbers fuel (hname (units "cmd") (by simp)) hicmd
    hblank []).1
  rw [if_pos hprintable] at hthird
  rw [jsonParse, hfuel, data_eq, parseValue, skipSpace_mark (by simp)]
  simp only [show (123 : UInt16) ≠ 34 by decide, if_false, if_true, List.cons_append,
    skipSpace_mark (show (34 : UInt16) ∈ _ by simp), List.head?_cons,
    show ¬ some (34 : UInt16) = some 125 by decide]
  simp only [List.cons_append] at hfirst hsecond hthird
  rw [hfirst, hsecond, hthird]
  simp only [printable_append]
  by_cases hboth : Printable (turn.ip script) ∧ Printable turn.date
  · rw [if_pos hboth.1, if_pos hboth.2, if_pos hboth]
    rfl
  · rw [if_neg hboth]
    by_cases hleft : Printable (turn.ip script)
    · rw [if_neg fun hright => hboth ⟨hleft, hright⟩, Option.map_none, ite_self]
      rfl
    · rw [if_neg hleft]
      rfl

/-- The members have three names. -/
theorem jsonText_object : jsonText numbers (turn.object script) =
    bracesText [(units "ip", textUnits (stringify (turn.ip script))),
      (units "date", textUnits (stringify turn.date)),
      (units "cmd", textUnits (stringify turn.icmd))] := by
  rw [Turn.object, jsonText, memberTexts_eq]
  simp [putMember, units, jsonText]

theorem names_valid :
    ∀ name ∈ [units "ip", units "date", units "cmd"], ∀ u ∈ name, Valid u ∧ u ≠ 34 := by
  intro name hname
  simp only [List.mem_cons, List.not_mem_nil, or_false] at hname
  rcases hname with rfl | rfl | rfl
  · exact forall_valid (by decide +kernel)
  · exact forall_valid (by decide +kernel)
  · exact forall_valid (by decide +kernel)

/-- The answers decide about the characters of the object. -/
theorem object_valid_iff (hmarks : ∀ u ∈ turn.ip script ++ turn.date, u ≠ 34 ∧ u ≠ 92) :
    (∀ u ∈ jsonText numbers (turn.object script), Valid u) ↔
      ∀ u ∈ turn.ip script ++ turn.date, Valid u := by
  obtain ⟨hbraces, hcomma, hcolon, hmark⟩ := valid_marks
  obtain ⟨hip, hdate⟩ := List.forall_mem_append.mp hmarks
  have hnames : ∀ name ∈ [units "ip", units "date", units "cmd"],
      ∀ u ∈ textUnits (stringify name), Valid u :=
    fun name h => (verbatim_valid.stringify hmark name).1.mpr (names_valid name h)
  have hicmd : ∀ u ∈ textUnits (stringify turn.icmd), Valid u :=
    (verbatim_valid.stringify hmark _).1.mpr (icmd_valid turn)
  have hwritten : ∀ s : JsString, (∀ u ∈ s, u ≠ 34 ∧ u ≠ 92) →
      ((∀ u ∈ textUnits (stringify s), Valid u) ↔ ∀ u ∈ s, Valid u) := by
    intro s hs
    rw [(verbatim_valid.stringify hmark s).1]
    exact forall₂_congr fun u hu => and_iff_left (hs u hu).1
  have hcmd : (∀ u ∈ textUnits (stringify (units "cmd")), Valid u) ∧
      ∀ u ∈ textUnits (stringify turn.icmd), Valid u := ⟨hnames _ (by simp), hicmd⟩
  rw [jsonText_object, forall_bracesText hbraces hcomma hcolon, List.forall_mem_cons,
    List.forall_mem_cons, List.forall_mem_singleton]
  dsimp only
  rw [and_iff_right (hnames (units "ip") (by simp)),
    and_iff_right (hnames (units "date") (by simp)), and_iff_left hcmd, hwritten _ hip,
    hwritten _ hdate, List.forall_mem_append]

/-- Answers with valid characters are written as they are. -/
theorem length_object (hmarks : ∀ u ∈ turn.ip script ++ turn.date, u ≠ 34 ∧ u ≠ 92)
    (hvalid : ∀ u ∈ turn.ip script ++ turn.date, Valid u) :
    (jsonText numbers (turn.object script)).length =
      (turn.ip script).length + turn.date.length + turn.icmd.length + 28 := by
  obtain ⟨hip, hdate⟩ := List.forall_mem_append.mp hmarks
  obtain ⟨hipValid, hdateValid⟩ := List.forall_mem_append.mp hvalid
  have htext := length_bracesText [(units "ip", textUnits (stringify (turn.ip script))),
    (units "date", textUnits (stringify turn.date)),
    (units "cmd", textUnits (stringify turn.icmd))]
  rw [← @jsonText_object numbers turn script, if_neg (by simp)] at htext
  simp only [List.map_cons, List.map_nil, stringify_valid (icmd_valid turn),
    stringify_valid fun u hu => ⟨hipValid u hu, (hip u hu).1⟩,
    stringify_valid fun u hu => ⟨hdateValid u hu, (hdate u hu).1⟩,
    stringify_valid (names_valid (units "ip") (by simp)),
    stringify_valid (names_valid (units "date") (by simp)),
    stringify_valid (names_valid (units "cmd") (by simp)), List.length_cons, List.length_append,
    List.length_nil, List.sum_cons, List.sum_nil] at htext
  have hthree : (units "ip").length = 2 ∧ (units "date").length = 4 ∧
      (units "cmd").length = 3 := by decide
  omega

/-- The check is on the characters and the lengths of the answers. -/
theorem passes_object_iff (hmarks : ∀ u ∈ turn.ip script ++ turn.date, u ≠ 34 ∧ u ≠ 92) :
    Passes (jsonText numbers (turn.object script)) ↔ turn.Fits script := by
  constructor
  · intro h
    have hvalid := (object_valid_iff hmarks).mp h.valid
    exact ⟨hvalid, length_object hmarks hvalid ▸ h.length⟩
  · intro h
    exact ⟨length_object hmarks h.1 ▸ h.2, (object_valid_iff hmarks).mpr h.1⟩

variable {express : Express numbers}

/-- A report that fits is short. -/
theorem size_of_fits (hexpress : express.Documented) (hfits : turn.Fits script) :
    express.size (turn.post express script) ≤ jsonLimit := by
  have hlength : (turn.data script).length =
      (turn.ip script).length + turn.date.length + turn.icmd.length + 29 := by
    simp [data_eq, units]
    omega
  have hshort := hfits.2
  have hsize := hexpress.size_le (turn.data script)
  rw [hlength] at hsize
  rw [Turn.post, jsonLimit]
  omega

/-- What the server makes of a report: it is accepted if it fits, and is then kept as it was
sent; else it is refused by the check or by Express. -/
theorem handled_request (hexpress : express.Documented)
    (hmarks : ∀ u ∈ turn.ip script ++ turn.date, u ≠ 34 ∧ u ≠ 92)
    (publicips : List (Ipinfo numbers)) :
    accepted express (turn.request express script) =
        (if turn.Fits script then
          some ⟨some (.string (turn.ip script)), some (.string turn.icmd),
            some (.string turn.date)⟩
        else none) ∧
      (handle express publicips (turn.request express script)).2.status =
        if turn.Fits script then 200
        else if express.size (turn.post express script) ≤ jsonLimit then 400 else 413 := by
  have hkept : myip numbers (turn.object script) =
      ⟨some (.string (turn.ip script)), some (.string turn.icmd), some (.string turn.date)⟩ := by
    simp [myip, Turn.object, property, ownMember, units]
  have hchecked := (reschk_iff _).trans (@passes_object_iff numbers turn script hmarks)
  have hparsed : jsonParse numbers (turn.data script) = _ := jsonParse_data hmarks
  obtain ⟨rest, hrest⟩ : ∃ rest, turn.data script = 123 :: rest := ⟨_, data_eq⟩
  by_cases hsize : express.size (turn.post express script) ≤ jsonLimit
  · have hsize' := hsize
    rw [Turn.post, hrest] at hsize'
    rw [if_pos hsize]
    by_cases hprintable : Printable (turn.ip script ++ turn.date)
    · have hread : express.json (turn.post express script) = .ok (turn.object script) := by
        rw [if_pos hprintable, hrest] at hparsed
        rw [Turn.post, hrest]
        exact hexpress.read rest _ hsize' hparsed
      have haccepted : accepted express (turn.request express script) = if turn.Fits script then
          some ⟨some (.string (turn.ip script)), some (.string turn.icmd),
            some (.string turn.date)⟩ else none := by
        rw [Turn.request, accepted, hread]
        simp only [hkept]
        exact if_congr hchecked rfl rfl
      refine ⟨haccepted, ?_⟩
      rw [Turn.request, status_post publicips hread, ← Turn.request, haccepted]
      by_cases hfits : turn.Fits script
      · simp only [if_pos hfits, Option.isSome_some, if_true]
      · simp only [if_neg hfits, Option.isSome_none, Bool.false_eq_true, if_false]
    · have hnot : ¬ turn.Fits script :=
        fun h => hprintable fun u hu => printable_of_valid (h.1 u hu)
      rw [if_neg hprintable, hrest] at hparsed
      obtain ⟨page, hpage, hstatus⟩ := hexpress.broken rest hsize' hparsed
      rw [← hrest, ← Turn.post] at hpage
      rw [if_neg hnot, if_neg hnot, Turn.request, accepted, handle, hpage]
      exact ⟨rfl, hstatus⟩
  · have hnot : ¬ turn.Fits script := fun h => hsize (size_of_fits hexpress h)
    obtain ⟨page, hpage, hstatus⟩ := hexpress.large _ (Nat.lt_of_not_le hsize)
    rw [← Turn.post] at hpage
    rw [if_neg hnot, if_neg hnot, if_neg hsize, Turn.request, accepted, handle, hpage]
    exact ⟨rfl, hstatus⟩

/-- A report without quotes and backslashes is answered with 200 and shown to every reader,
until another post is accepted, if it fits; else it is answered with 400, or with 413 if it
is over the limit of Express, and changes nothing. -/
theorem report_shown (numbers : Numbers) (express : Express numbers)
    (hexpress : express.Documented) (turn : Turn) (script : Script)
    (before after : List (Request express))
    (hmarks : ∀ u ∈ turn.ip script ++ turn.date, u ≠ 34 ∧ u ≠ 92)
    (hafter : ∀ request ∈ after, accepted express request = none) :
    (answer express before (turn.request express script)).status =
        (if turn.Fits script then 200
        else if express.size (turn.post express script) ≤ jsonLimit then 400 else 413) ∧
      answer express (before ++ turn.request express script :: after) .get =
        if turn.Fits script then ⟨200, turn.shown script⟩ else answer express before .get := by
  obtain ⟨haccepted, hstatus⟩ :=
    handled_request hexpress hmarks (publicipsAfter express before)
  have hquiet : after.filterMap (accepted express) = [] :=
    List.filterMap_eq_nil_iff.mpr hafter
  have hget : ∀ requests, answer express requests .get =
      ⟨200, publicipsText (publicipsAfter express requests)⟩ := fun _ => rfl
  refine ⟨hstatus, ?_⟩
  rw [hget, hget, publicipsAfter_eq, publicipsAfter_eq,
    List.filterMap_append, List.filterMap_cons, haccepted, hquiet]
  by_cases hfits : turn.Fits script
  · have hvalid : ∀ u ∈ turn.ip script ++ turn.icmd ++ turn.date, Valid u ∧ u ≠ 34 := by
      obtain ⟨hip, hdate⟩ := List.forall_mem_append.mp hfits.1
      obtain ⟨hipMarks, hdateMarks⟩ := List.forall_mem_append.mp hmarks
      rw [List.forall_mem_append, List.forall_mem_append]
      exact ⟨⟨fun u hu => ⟨hip u hu, (hipMarks u hu).1⟩, icmd_valid turn⟩,
        fun u hu => ⟨hdate u hu, (hdateMarks u hu).1⟩⟩
    simp only [if_pos hfits, List.getLast?_concat, Option.getD_some]
    rw [publicipsText, List.map_singleton, List.intercalate_singleton, ipinfoText_strings hvalid]
    simp [Turn.shown, units]
  · simp only [if_neg hfits, List.append_nil]

/-- Numbers are not looked at. -/
def noNumbers : Numbers := ⟨Unit, inferInstance, (), fun _ => (), fun _ => [], fun _ _ => ()⟩

/-- The bytes of a unit in UTF-8. -/
def unitSize (u : UInt16) : Nat :=
  if u.toNat < 0x80 then 1 else if u.toNat < 0x800 || isLead u || isTrail u then 2 else 3

/-- Express for posts that say they are JSON. -/
def plainExpress : Express noNumbers where
  Post := JsString
  size text := (text.map unitSize).sum
  json text :=
    if jsonLimit < (text.map unitSize).sum then .error ⟨413, units "Payload Too Large"⟩
    else if text = [] then .ok (.object [])
    else if (skipSpace text).head? = some 123 ∨ (skipSpace text).head? = some 91 then
      match jsonParse noNumbers text with
      | some value => .ok value
      | none => .error ⟨400, units "Bad Request"⟩
    else .error ⟨400, units "Bad Request"⟩
  curl text := text

theorem plainExpress_json {rest : JsString}
    (hsize : plainExpress.size (plainExpress.curl (123 :: rest)) ≤ jsonLimit) :
    plainExpress.json (plainExpress.curl (123 :: rest)) =
      match jsonParse noNumbers (123 :: rest) with
      | some value => .ok value
      | none => .error ⟨400, units "Bad Request"⟩ := by
  have hlimit : ¬ jsonLimit < ((123 :: rest).map unitSize).sum := Nat.not_lt_of_le hsize
  simp only [plainExpress, if_neg hlimit, List.cons_ne_nil, if_false, List.head?_cons, true_or,
    if_true, skipSpace_cons (show isJsonSpace 123 = false by decide)]

theorem plainExpress_documented : plainExpress.Documented where
  size_le text := by
    have hunit : ∀ u, unitSize u ≤ 3 := by
      intro u
      unfold unitSize
      split_ifs <;> omega
    have hsum := List.sum_le_card_nsmul (text.map unitSize) 3 (by simpa using fun u _ => hunit u)
    simpa [plainExpress, Nat.mul_comm] using hsum
  large text hlarge := ⟨_, if_pos hlarge, rfl⟩
  read rest value hsize hparsed := by rw [plainExpress_json hsize, hparsed]
  broken rest hsize hparsed := ⟨_, by rw [plainExpress_json hsize, hparsed], rfl⟩

/-- A turn with an address, and one with the date of another locale. -/
def turnOf (mdate : JsString) : Turn where
  icmd := units "curl ipinfo.io/ip"
  icmd_mem := by decide
  mpip := units "1.2.3.4"
  localip := units "192.168.1.7\n"
  mdate := mdate

theorem turnOf_marks {mdate : JsString} (h : (((turnOf mdate).ip .autossh ++
    (turnOf mdate).date).all fun u => u != 34 && u != 92) = true) :
    ∀ u ∈ (turnOf mdate).ip .autossh ++ (turnOf mdate).date, u ≠ 34 ∧ u ≠ 92 := by
  intro u hu
  simpa using List.all_eq_true.mp h u hu

def turnC : Turn := turnOf (units "Sat Jan 1 10:00:00 CST 2022\n")

/-- The first report is shown though another one with other characters follows it. -/
theorem report_shown_first :
    answer plainExpress [turnC.request plainExpress .autossh,
        (turnOf [0x5E74, 10]).request plainExpress .autossh] .get =
      ⟨200, turnC.shown .autossh⟩ := by
  have hrejected : accepted plainExpress ((turnOf [0x5E74, 10]).request plainExpress .autossh) =
      none :=
    (handled_request plainExpress_documented (turnOf_marks (by decide +kernel)) []).1.trans
      (if_neg (by decide +kernel))
  have hfirst := (report_shown noNumbers plainExpress plainExpress_documented turnC .autossh []
    [(turnOf [0x5E74, 10]).request plainExpress .autossh] (turnOf_marks (by decide +kernel))
    (List.forall_mem_singleton.mpr hrejected)).2
  exact hfirst.trans (if_pos (by decide +kernel))

end CodingLearners.PublicIp
