import CodingLearners.LinkFilter.Deduplication

/-!
# What one line does to the others

A line that throws ends the whole run, and a line that is kept hides the later
lines with its key. Nothing else reaches from one line to another.
-/

namespace CodingLearners.LinkFilter

open Js FirstBy

variable (host : Host) (copy : Copy)

/-! ## Lines that do not throw -/

/-- Neither pass throws at the line. -/
structure Readable (line : JsString) : Prop where
  /-- The payload of a `vmess` link is base64, of nothing or of JSON with fields that
  have what the tests ask for. -/
  payload : startsWith (trim line) vmess = true →
    ∃ text, decode ((trim line).drop 8) = some text ∧ (text ≠ [] →
      ∃ dejson, jsonParse host.numbers text = some dejson ∧
        (vmessTest host copy dejson).isSome)
  /-- A line that passes and, as it stands, does not start as a link with its address
  as text is base64 of JSON from its eighth character on, with an address. -/
  address : passes host copy line = true → isUrlLink line = false →
    ∃ text dejson add port, decode (line.drop 8) = some text ∧
      jsonParse host.numbers text = some dejson ∧
      property dejson (units "add") = some add ∧ property dejson (units "port") = some port ∧
      (plus host.numbers add port).isSome

variable {host copy}

theorem startsWith_vmess_of_isUrlLink {s : JsString} (h : isUrlLink s = true) :
    ¬ startsWith s vmess = true := by
  have hapart : ∀ start ∈ [vless, trojan, ss], ¬ start <+: vmess ∧ ¬ vmess <+: start := by
    decide
  have hstart : ∃ start ∈ [vless, trojan, ss], start <+: s := by
    simp only [isUrlLink, startsWith, Bool.or_eq_true, decide_eq_true_eq] at h
    obtain (h | h) | h := h
    · exact ⟨vless, by simp, h⟩
    · exact ⟨trojan, by simp, h⟩
    · exact ⟨ss, by simp, h⟩
  obtain ⟨start, hmem, hstart⟩ := hstart
  rw [startsWith, decide_eq_true_eq]
  intro hvmess
  cases List.prefix_or_prefix_of_prefix hstart hvmess with
  | inl h => exact (hapart start hmem).1 h
  | inr h => exact (hapart start hmem).2 h

theorem payload_isSome_iff (payload : JsString) :
    ((decode payload).bind fun text => if text = [] then some false
      else (jsonParse host.numbers text).bind (vmessTest host copy)).isSome ↔
    ∃ text, decode payload = some text ∧ (text ≠ [] →
      ∃ dejson, jsonParse host.numbers text = some dejson ∧
        (vmessTest host copy dejson).isSome) := by
  cases decode payload with
  | none => simp
  | some text =>
      by_cases hempty : text = []
      · simp [hempty]
      · cases hparse : jsonParse host.numbers text with
        | none => simp [hempty, hparse]
        | some dejson => simp [hempty, hparse]

theorem keepLine_isSome_iff (line : JsString) :
    (keepLine host copy line).isSome ↔ (startsWith (trim line) vmess = true →
      ∃ text, decode ((trim line).drop 8) = some text ∧ (text ≠ [] →
        ∃ dejson, jsonParse host.numbers text = some dejson ∧
          (vmessTest host copy dejson).isSome)) := by
  by_cases hurl : isUrlLink (trim line) = true
  · rw [keepLine, if_pos hurl]
    exact iff_of_true rfl fun hvmess => absurd hvmess (startsWith_vmess_of_isUrlLink hurl)
  · rw [keepLine, if_neg hurl]
    by_cases hvmess : startsWith (trim line) vmess = true
    · rw [if_pos hvmess, forall_prop_of_true hvmess, ← payload_isSome_iff]
      rfl
    · rw [if_neg hvmess]
      exact iff_of_true rfl fun h => absurd h hvmess

theorem linkKey_isSome_iff (link : JsString) :
    (linkKey host link).isSome ↔ (isUrlLink link = false →
      ∃ text dejson add port, decode (link.drop 8) = some text ∧
        jsonParse host.numbers text = some dejson ∧
        property dejson (units "add") = some add ∧ property dejson (units "port") = some port ∧
        (plus host.numbers add port).isSome) := by
  by_cases hurl : isUrlLink link = true
  · rw [linkKey, if_pos hurl]
    exact iff_of_true rfl fun h => absurd hurl (by rw [h]; exact Bool.false_ne_true)
  · rw [linkKey, if_neg hurl, forall_prop_of_true (Bool.not_eq_true _ ▸ hurl)]
    constructor
    · intro h
      obtain ⟨key, hkey⟩ := Option.isSome_iff_exists.mp h
      simp only [Option.bind_eq_bind, Option.bind_eq_some_iff] at hkey
      obtain ⟨text, htext, dejson, hparse, add, hadd, port, hport, lkurl, hplus, -⟩ := hkey
      exact ⟨text, dejson, add, port, htext, hparse, hadd, hport, by rw [hplus]; rfl⟩
    · rintro ⟨text, dejson, add, port, htext, hparse, hadd, hport, hplus⟩
      obtain ⟨lkurl, hplus⟩ := Option.isSome_iff_exists.mp hplus
      simp only [Option.bind_eq_bind, htext, hparse, hadd, hport, hplus, Option.bind_some]
      rfl

theorem lineKey_isSome_iff (line : JsString) :
    (lineKey host copy line).isSome ↔ Readable host copy line := by
  rw [lineKey_isSome, keepLine_isSome_iff, linkKey_isSome_iff]
  constructor
  · exact fun h => ⟨h.1, h.2⟩
  · exact fun h => ⟨h.payload, h.address⟩

/-! ## Changing one line -/

section Edits

variable (host) (copy)

/-- A JSON object in which all fields that the filter reads are strings. -/
def StringFields (dejson : Json host) : Prop :=
  ∃ members, dejson = .object members ∧ ∀ name ∈ ["add", "ps", "net", "port"], ∀ value,
    ownMember members (units name) = some value → ∃ s, value = .string s

/-- The payload of the `vmess` link is not base64 of a JSON object with string fields. -/
def Malformed (line : JsString) : Prop :=
  startsWith (trim line) vmess = true ∧
    ¬ ∃ text dejson, decode ((trim line).drop 8) = some text ∧
      jsonParse host.numbers text = some dejson ∧ StringFields host dejson

/-- A malformed line is added, or the white space in front of a line is changed. -/
inductive Edit
  | addLine (line : JsString) (hmalformed : Malformed host line)
  | respace (lead lead' line : JsString) (hlead : ∀ u ∈ lead, isSpace u = true)
      (hlead' : ∀ u ∈ lead', isSpace u = true)

/-- The line before the change and after it. -/
def Edit.old : Edit host → Option JsString
  | .addLine .. => none
  | .respace lead _ line .. => some (lead ++ line)

def Edit.new : Edit host → Option JsString
  | .addLine line _ => some line
  | .respace _ lead' line .. => some (lead' ++ line)

/-- Lines with their positions, the first of which is `n`. -/
def labelFrom (n : Nat) (lines : List JsString) : List (JsString × Option Nat) :=
  (lines.zipIdx n).map fun line => (line.1, some line.2)

/-- A text of which one line has no label. -/
def labelOthers (before after : List JsString) (line : Option JsString) :
    List (JsString × Option Nat) :=
  labelFrom 0 before ++ line.toList.map (fun line => (line, none)) ++
    labelFrom before.length after

/-- Both runs complete and leave the same of the other lines. -/
def Independent (before after : List JsString) (edit : Edit host) : Prop :=
  ∃ links links',
    uniqueResults host Prod.fst copy (labelOthers before after edit.old) = some links ∧
    uniqueResults host Prod.fst copy (labelOthers before after edit.new) = some links' ∧
    links.filter (fun link => link.2.isSome) = links'.filter fun link => link.2.isSome

/-- The key under which the line is looked up, if it passes. -/
def keptKey (line : JsString) : Option (Key host) :=
  if passes host copy line = true then seenKey host line else none

end Edits

/-- A link with a payload that is base64, but not of JSON. -/
def malformedLine : JsString := units "vmess://abc"

theorem malformedLine_malformed : Malformed smallHost malformedLine := by
  have hdecoded : (decode ((trim malformedLine).drop 8)).bind
      (jsonParse smallHost.numbers) = none := by decide +kernel
  refine ⟨by decide +kernel, ?_⟩
  rintro ⟨text, dejson, htext, hparse, -⟩
  rw [htext, Option.bind_some, hparse] at hdecoded
  exact Option.some_ne_none _ hdecoded

variable {before after : List JsString} {line : Option JsString}

theorem labelFrom_map_fst (n : Nat) (lines : List JsString) :
    (labelFrom n lines).map Prod.fst = lines := by
  simp [labelFrom, Function.comp_def]

/-- The text without its labels. -/
theorem labelOthers_map_fst :
    (labelOthers before after line).map Prod.fst = before ++ line.toList ++ after := by
  simp [labelOthers, labelFrom_map_fst, Function.comp_def]

/-- What a run leaves of a text around one line. -/
theorem uniqueResults_labelOthers {links : List (JsString × Option Nat)} :
    uniqueResults host Prod.fst copy (labelOthers before after line) = some links ↔
      (∀ l ∈ before ++ line.toList ++ after, Readable host copy l) ∧
        links = firstBy (fun l => keptKey host copy l.1) [] (labelOthers before after line) := by
  rw [uniqueResults_eq_some_iff, firstBy_filter, ← labelOthers_map_fst, List.forall_mem_map]
  simp only [lineKey_isSome_iff]
  rfl

theorem filterMap_keptKey (labelled : List (JsString × Option Nat)) :
    labelled.filterMap (fun l => keptKey host copy l.1) =
      (labelled.map Prod.fst).filterMap (keptKey host copy) := by
  rw [List.filterMap_map]
  rfl

/-- The other lines that are left. -/
theorem filter_firstBy_labelOthers :
    (firstBy (fun l => keptKey host copy l.1) [] (labelOthers before after line)).filter
        (fun link => link.2.isSome) =
      firstBy (fun l => keptKey host copy l.1) [] (labelFrom 0 before) ++
      firstBy (fun l => keptKey host copy l.1)
        ((before ++ line.toList).filterMap (keptKey host copy))
        (labelFrom before.length after) := by
  have hlabelled : ∀ (seen : List (Key host)) (n : Nat) (lines : List JsString),
      (firstBy (fun l => keptKey host copy l.1) seen (labelFrom n lines)).filter
          (fun link => link.2.isSome) =
        firstBy (fun l => keptKey host copy l.1) seen (labelFrom n lines) := by
    intro seen n lines
    apply List.filter_eq_self.mpr
    intro link hlink
    obtain ⟨l, -, rfl⟩ := List.mem_map.mp ((firstBy_sublist _ _).subset hlink)
    rfl
  have hchanged : ∀ seen : List (Key host),
      (firstBy (fun l => keptKey host copy l.1) seen
        (line.toList.map fun line => (line, (none : Option Nat)))).filter
          (fun link => link.2.isSome) = [] := by
    intro seen
    apply List.filter_eq_nil_iff.mpr
    intro link hlink
    obtain ⟨l, -, rfl⟩ := List.mem_map.mp ((firstBy_sublist _ _).subset hlink)
    exact Bool.false_ne_true
  have hseen : (labelFrom 0 before ++ line.toList.map fun line => (line, none)).map Prod.fst =
      before ++ line.toList := by
    simp [labelFrom_map_fst, Function.comp_def]
  rw [labelOthers, firstBy_append, firstBy_append, List.filter_append, List.filter_append,
    hlabelled, hchanged, hlabelled, filterMap_keptKey, hseen, List.append_nil, List.append_nil]

/-- The keys of the lines up to the changed one. -/
theorem mem_filterMap_keptKey {key : Key host} :
    key ∈ (before ++ line.toList).filterMap (keptKey host copy) ↔
      (∃ earlier ∈ before, keptKey host copy earlier = some key) ∨
        line.bind (keptKey host copy) = some key := by
  rw [List.filterMap_append, List.mem_append, List.mem_filterMap, List.mem_filterMap]
  cases line with
  | none => simp
  | some l => simp

/-- Both runs complete and treat the lines behind the changed one alike. -/
theorem independent_iff_firstBy {edit : Edit host} :
    Independent host copy before after edit ↔
      ((∀ l ∈ before ++ edit.old.toList ++ after, Readable host copy l) ∧
        ∀ l ∈ before ++ edit.new.toList ++ after, Readable host copy l) ∧
      firstBy (fun l => keptKey host copy l.1)
        ((before ++ edit.old.toList).filterMap (keptKey host copy))
        (labelFrom before.length after) =
      firstBy (fun l => keptKey host copy l.1)
        ((before ++ edit.new.toList).filterMap (keptKey host copy))
        (labelFrom before.length after) := by
  rw [← List.append_right_inj
      (firstBy (fun l => keptKey host copy l.1) [] (labelFrom 0 before)),
    ← filter_firstBy_labelOthers, ← filter_firstBy_labelOthers]
  simp only [Independent, uniqueResults_labelOthers]
  constructor
  · rintro ⟨_, _, ⟨hold, rfl⟩, ⟨hnew, rfl⟩, hothers⟩
    exact ⟨⟨hold, hnew⟩, hothers⟩
  · rintro ⟨⟨hold, hnew⟩, hothers⟩
    exact ⟨_, _, ⟨hold, rfl⟩, ⟨hnew, rfl⟩, hothers⟩

/-- A key that an earlier line has is seen with and without the changed line. -/
theorem seen_congr {line' : Option JsString} {key : Key host} :
    (key ∈ (before ++ line.toList).filterMap (keptKey host copy) ↔
      key ∈ (before ++ line'.toList).filterMap (keptKey host copy)) ↔
    ((∀ earlier ∈ before, keptKey host copy earlier ≠ some key) →
      (line.bind (keptKey host copy) = some key ↔
        line'.bind (keptKey host copy) = some key)) := by
  rw [mem_filterMap_keptKey, mem_filterMap_keptKey]
  by_cases hearlier : ∃ earlier ∈ before, keptKey host copy earlier = some key
  · apply iff_of_true (iff_of_true (Or.inl hearlier) (Or.inl hearlier))
    intro hnone
    obtain ⟨earlier, hmem, hkey⟩ := hearlier
    exact absurd hkey (hnone earlier hmem)
  · have hnone : ∀ earlier ∈ before, keptKey host copy earlier ≠ some key :=
      fun earlier hmem hkey => hearlier ⟨earlier, hmem, hkey⟩
    rw [or_iff_right hearlier, or_iff_right hearlier]
    constructor
    · exact fun h _ => h
    · exact fun h => h hnone

/-- The runs complete and one line changes nothing for the others if and only if no line
throws and every key of a later line that no earlier line has is the key of the changed line
both before and after the change, or neither. -/
theorem independent_iff (host : Host) (copy : Copy) (before after : List JsString)
    (edit : Edit host) :
    Independent host copy before after edit ↔
      (∀ line ∈ before ++ edit.old.toList ++ edit.new.toList ++ after,
        Readable host copy line) ∧
      ∀ line ∈ after, ∀ key, keptKey host copy line = some key →
        (∀ earlier ∈ before, keptKey host copy earlier ≠ some key) →
        (edit.old.bind (keptKey host copy) = some key ↔
          edit.new.bind (keptKey host copy) = some key) := by
  have hafter : ∀ P : JsString → Prop,
      (∀ l ∈ labelFrom before.length after, P l.1) ↔ ∀ line ∈ after, P line := by
    intro P
    conv_rhs => rw [← labelFrom_map_fst before.length after]
    exact List.forall_mem_map.symm
  rw [independent_iff_firstBy, firstBy_eq_iff_seen]
  apply and_congr
  · simp only [List.forall_mem_append]
    constructor
    · exact fun h => ⟨⟨h.1.1, h.2.1.2⟩, h.1.2⟩
    · exact fun h => ⟨⟨h.1.1, h.2⟩, ⟨h.1.1.1, h.1.2⟩, h.2⟩
  · rw [hafter fun line => ∀ key, keptKey host copy line = some key →
      (key ∈ (before ++ edit.old.toList).filterMap (keptKey host copy) ↔
        key ∈ (before ++ edit.new.toList).filterMap (keptKey host copy))]
    simp only [seen_congr]

/-- The payload of the added line is no JSON, and behind a space something is taken for a
payload that is none. -/
theorem plainLine_runs :
    ∀ copy ∈ [.filterdeduplicate, .uswsfilter true false true],
      filterAndDeduplicateLinks smallHost copy plainLine = some plainLine ∧
      uniqueResults smallHost Prod.fst copy
        (labelOthers [plainLine] [] (some malformedLine)) = none ∧
      uniqueResults smallHost Prod.fst copy
        (labelOthers [] [] (some (32 :: plainLine))) = none := by
  decide +kernel

theorem not_independent_of_none {edit : Edit host}
    (h : uniqueResults host Prod.fst copy (labelOthers before after edit.new) = none) :
    ¬ Independent host copy before after edit := by
  rintro ⟨-, links, -, hnew, -⟩
  exact Option.some_ne_none _ (hnew.symm.trans h)

/-- A malformed line behind a link stops the run, and so does a space in front of it, in
both copies. -/
theorem line_stops_run :
    let added : Edit smallHost := .addLine malformedLine malformedLine_malformed
    let respaced : Edit smallHost := .respace [] [32] plainLine (List.forall_mem_nil _)
      (List.forall_mem_singleton.mpr (by decide))
    filterAndDeduplicateLinks smallHost .filterdeduplicate plainLine = some plainLine ∧
    filterAndDeduplicateLinks smallHost (.uswsfilter true false true) plainLine =
      some plainLine ∧
    ¬ Independent smallHost .filterdeduplicate [plainLine] [] added ∧
    ¬ Independent smallHost (.uswsfilter true false true) [plainLine] [] added ∧
    ¬ Independent smallHost .filterdeduplicate [] [] respaced ∧
    ¬ Independent smallHost (.uswsfilter true false true) [] [] respaced := by
  obtain ⟨hout, hadded, hrespaced⟩ := plainLine_runs .filterdeduplicate (by simp)
  obtain ⟨hout', hadded', hrespaced'⟩ :=
    plainLine_runs (.uswsfilter true false true) (by simp)
  exact ⟨hout, hout', not_independent_of_none hadded, not_independent_of_none hadded',
    not_independent_of_none hrespaced, not_independent_of_none hrespaced'⟩

end CodingLearners.LinkFilter
