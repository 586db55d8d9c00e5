import CodingLearners.LinkFilter.Deduplication

/-!
# The two copies of the filter

The page with the boxes for the United States and the port ticked does almost what
the script does. It knows two more spellings of the country, asks a `vmess` link for
its `net`, and tests the address before the port, so other values throw.
-/

namespace CodingLearners.LinkFilter

open Js FirstBy

variable (host : Host)

/-- The page with the boxes ticked that the script has no boxes for. -/
def ticked : Copy := .uswsfilter true false true

/-- The traditional spellings, which the page alone knows. -/
def namesUsTraditional (trimmedLine : JsString) : Bool :=
  stringIncludes trimmedLine (units "%e7%be%8e%e5%9c%8b") ||
    stringIncludes trimmedLine (units "%E7%BE%8E%E5%9C%8B")

/-- A payload with the fields is judged alike: if it has `net`, no test throws whose
value the other copy does not come to; if it lacks `net`, it fails another test. -/
def SamePayload (dejson : Json host) : Prop :=
  hasOwnProperties host dejson ["add", "ps", "port"] = some true →
    if hasOwnProperty dejson (units "net") = some true then
      psNamesUs host dejson = some true →
        ¬ (portIs443 host dejson = none ∧ addIsIp host dejson = some false) ∧
          ¬ (portIs443 host dejson = some false ∧ addIsIp host dejson = none)
    else
      psNamesUs host dejson = some false ∨
        psNamesUs host dejson = some true ∧
          (portIs443 host dejson = some false ∨
            portIs443 host dejson = some true ∧ addIsIp host dejson = some false)

/-- The line is judged alike: as a link with its address as text it does not rest on
a traditional spelling, as a `vmess` link its payload is judged alike. -/
structure SameTests (line : JsString) : Prop where
  url : isUrlLink (trim line) = true → namesPort (trim line) = true →
    namesUsTraditional (trim line) = true → namesUs host .filterdeduplicate (trim line) = true
  vmess : startsWith (trim line) vmess = true → ∀ text dejson,
    decode ((trim line).drop 8) = some text → text ≠ [] →
    jsonParse host.numbers text = some dejson → SamePayload host dejson

variable {host} {line : JsString}

theorem namesUs_ticked (trimmedLine : JsString) :
    namesUs host ticked trimmedLine =
      (namesUs host .filterdeduplicate trimmedLine || namesUsTraditional trimmedLine) := by
  simp only [namesUs, ticked, usNames, List.any_cons, List.any_nil, namesUsTraditional,
    Bool.or_false]
  ac_rfl

theorem urlTest_eq_iff (trimmedLine : JsString) :
    urlTest host .filterdeduplicate trimmedLine = urlTest host ticked trimmedLine ↔
      (namesPort trimmedLine = true → namesUsTraditional trimmedLine = true →
        namesUs host .filterdeduplicate trimmedLine = true) := by
  have hticked : urlTest host ticked trimmedLine =
      (namesUs host ticked trimmedLine && namesPort trimmedLine) := by
    simp [urlTest, ticked]
  rw [hticked, namesUs_ticked, urlTest]
  cases namesUs host .filterdeduplicate trimmedLine <;> cases namesPort trimmedLine <;>
    cases namesUsTraditional trimmedLine <;> simp

/-- If it can be asked for one property, a value can be asked for all. -/
theorem hasOwnProperty_net_ne_none {dejson : Json host}
    (h : hasOwnProperties host dejson ["add", "ps", "port"] = some true) :
    hasOwnProperty dejson (units "net") ≠ none := by
  cases dejson with
  | object members =>
      by_cases hown : (ownMember members (units "hasOwnProperty")).isSome = true
      · simp [hasOwnProperties, hasOwnProperty, hown] at h
      · simp [hasOwnProperty, hown]
  | null => simp [hasOwnProperties, hasOwnProperty] at h
  | _ => simp [hasOwnProperty]

theorem hasOwnProperties_net (dejson : Json host) :
    hasOwnProperties host dejson ["add", "ps", "net", "port"] =
      if hasOwnProperties host dejson ["add", "ps", "port"] = some true then
        hasOwnProperty dejson (units "net")
      else hasOwnProperties host dejson ["add", "ps", "port"] := by
  cases dejson with
  | object members =>
      by_cases hown : (ownMember members (units "hasOwnProperty")).isSome = true
      · simp [hasOwnProperties, hasOwnProperty, hown]
      · cases hadd : (ownMember members (units "add")).isSome <;>
          cases hps : (ownMember members (units "ps")).isSome <;>
          cases hnet : (ownMember members (units "net")).isSome <;>
          cases hport : (ownMember members (units "port")).isSome <;>
          simp [hasOwnProperties, hasOwnProperty, hown, hadd, hps, hnet, hport]
  | null => rfl
  | _ => rfl

/-- The tests of a payload that has the fields. -/
theorem vmessTest_fields {dejson : Json host}
    (hown : hasOwnProperties host dejson ["add", "ps", "port"] = some true) :
    vmessTest host .filterdeduplicate dejson =
        (psNamesUs host dejson).bind (fun us => if us then
          (portIs443 host dejson).bind fun port =>
            if port then addIsIp host dejson else some false
          else some false) ∧
      vmessTest host ticked dejson =
        if hasOwnProperty dejson (units "net") = some true then
          (psNamesUs host dejson).bind fun us => if us then
            (addIsIp host dejson).bind fun add =>
              if add then portIs443 host dejson else some false
            else some false
        else some false := by
  constructor
  · simp only [vmessTest, hown]
    rcases psNamesUs host dejson with _ | _ | _
    · rfl
    · rfl
    · rcases portIs443 host dejson with _ | _ | _ <;> rfl
  · simp only [vmessTest, ticked, hasOwnProperties_net, hown, if_true]
    cases hfield : hasOwnProperty dejson (units "net") with
    | none => exact absurd hfield (hasOwnProperty_net_ne_none hown)
    | some net =>
        cases net with
        | false => rfl
        | true =>
            rcases psNamesUs host dejson with _ | _ | _
            · rfl
            · rfl
            · rcases addIsIp host dejson with _ | _ | _ <;> rfl

/-- Without the fields both copies go no further. -/
theorem vmessTest_unowned {dejson : Json host}
    (hown : hasOwnProperties host dejson ["add", "ps", "port"] ≠ some true) :
    vmessTest host .filterdeduplicate dejson = vmessTest host ticked dejson := by
  simp only [vmessTest, ticked, hasOwnProperties_net, if_neg hown]
  cases hfields : hasOwnProperties host dejson ["add", "ps", "port"] with
  | none => rfl
  | some own =>
      cases own with
      | false => rfl
      | true => exact absurd hfields hown

theorem vmessTest_eq_iff (dejson : Json host) :
    vmessTest host .filterdeduplicate dejson = vmessTest host ticked dejson ↔
      SamePayload host dejson := by
  rw [SamePayload]
  by_cases hown : hasOwnProperties host dejson ["add", "ps", "port"] = some true
  · obtain ⟨hscript, hpage⟩ := vmessTest_fields hown
    rw [hscript, hpage, imp_iff_right hown]
    split
    · rcases psNamesUs host dejson with _ | _ | _
      · simp
      · simp
      · rcases portIs443 host dejson with _ | _ | _ <;>
          rcases addIsIp host dejson with _ | _ | _ <;> simp
    · rcases psNamesUs host dejson with _ | _ | _
      · simp
      · simp
      · rcases portIs443 host dejson with _ | _ | _ <;> simp
  · exact iff_of_true (vmessTest_unowned hown) fun h => absurd h hown

/-- The first passes of the two copies agree on a line exactly if they have the same tests
for it. -/
theorem keepLine_eq_iff (line : JsString) :
    keepLine host .filterdeduplicate line = keepLine host ticked line ↔ SameTests host line := by
  by_cases hurl : isUrlLink (trim line) = true
  · have hvmess : startsWith (trim line) vmess ≠ true := by
      intro hvmess
      rw [isUrlLink_of_vmess hvmess] at hurl
      contradiction
    simp only [keepLine, if_pos hurl, Option.some.injEq, urlTest_eq_iff]
    exact ⟨fun h => ⟨fun _ => h, fun hstart => absurd hstart hvmess⟩, fun h => h.url hurl⟩
  · by_cases hvmess : startsWith (trim line) vmess = true
    · have hsplit : SameTests host line ↔ ∀ text dejson, decode ((trim line).drop 8) = some text →
          text ≠ [] → jsonParse host.numbers text = some dejson → SamePayload host dejson :=
        ⟨fun h => h.vmess hvmess, fun h => ⟨fun h' => absurd h' hurl, fun _ => h⟩⟩
      rw [hsplit]
      simp only [keepLine, if_neg hurl, if_pos hvmess]
      cases htext : decode ((trim line).drop 8) with
      | none =>
          refine iff_of_true rfl ?_
          intro text dejson hdecoded
          contradiction
      | some text =>
          by_cases hempty : text = []
          · refine iff_of_true (by simp [hempty]) ?_
            rintro _ _ ⟨⟩ hne
            exact absurd hempty hne
          · cases hjson : jsonParse host.numbers text with
            | none =>
                refine iff_of_true (by simp [hjson]) ?_
                rintro _ dejson ⟨⟩ - hparse
                rw [hjson] at hparse
                contradiction
            | some dejson =>
                have hsame : SamePayload host dejson ↔ ∀ text' dejson', some text = some text' →
                    text' ≠ [] → jsonParse host.numbers text' = some dejson' →
                    SamePayload host dejson' := by
                  constructor
                  · rintro h _ dejson' ⟨⟩ - hparse
                    rw [hjson] at hparse
                    exact Option.some.inj hparse ▸ h
                  · exact fun h => h text dejson rfl hempty hjson
                rw [← hsame, ← vmessTest_eq_iff]
                simp [hempty, hjson]
    · simp only [keepLine, if_neg hurl, if_neg hvmess, true_iff]
      exact ⟨fun h => absurd h hurl, fun h => absurd h hvmess⟩

/-- A run throws if a line does. -/
theorem uniqueResults_of_throws {copy : Copy} {lines : List JsString}
    (h : ∃ line ∈ lines, lineKey host copy line = none) :
    uniqueResults host id copy lines = none := by
  obtain ⟨line, hline, hthrows⟩ := h
  cases hrun : uniqueResults host id copy lines with
  | none => rfl
  | some out =>
      have hsome := (uniqueResults_eq_some_iff.mp hrun).1 line hline
      rw [id_eq, hthrows] at hsome
      contradiction

theorem uniqueResults_of_completes {copy : Copy} {lines : List JsString}
    (h : ¬ ∃ line ∈ lines, lineKey host copy line = none) :
    uniqueResults host id copy lines =
      some (firstBy (seenKey host) [] (lines.filter (passes host copy))) := by
  apply uniqueResults_eq_some_iff.mpr
  refine ⟨fun line hline => ?_, rfl⟩
  rw [Option.isSome_iff_ne_none]
  exact fun hthrows => h ⟨line, hline, hthrows⟩

/-- On a line that throws in neither copy, the verdicts are equal with the tests. -/
theorem passes_eq_iff (hscript : lineKey host .filterdeduplicate line ≠ none)
    (hpage : lineKey host ticked line ≠ none) :
    passes host .filterdeduplicate line = passes host ticked line ↔ SameTests host line := by
  rw [← keepLine_eq_iff]
  rw [← Option.isSome_iff_ne_none, lineKey_isSome] at hscript hpage
  obtain ⟨keep, hkeep⟩ := Option.isSome_iff_exists.mp hscript.1
  obtain ⟨keep', hkeep'⟩ := Option.isSome_iff_exists.mp hpage.1
  rw [passes, passes, hkeep, hkeep']
  cases keep <;> cases keep' <;> decide

/-- The two copies leave the same links of a text exactly if either both or none of them
throw on some line, and if none does, each line that is new under its key among those that
either copy keeps has the same tests in both. -/
theorem copies_agree_iff (host : Host) (value : JsString) :
    uniqueResults host id .filterdeduplicate (value.splitOn 10) =
        uniqueResults host id ticked (value.splitOn 10) ↔
      ((∃ line ∈ value.splitOn 10, lineKey host .filterdeduplicate line = none) ↔
        ∃ line ∈ value.splitOn 10, lineKey host ticked line = none) ∧
      ((∀ line ∈ value.splitOn 10, lineKey host .filterdeduplicate line ≠ none ∧
          lineKey host ticked line ≠ none) →
        ∀ before line after,
          (value.splitOn 10).filter (fun line =>
            passes host .filterdeduplicate line || passes host ticked line) =
              before ++ line :: after →
          IsNew (seenKey host) before line → SameTests host line) := by
  by_cases hscript : ∃ line ∈ value.splitOn 10, lineKey host .filterdeduplicate line = none
  · by_cases hpage : ∃ line ∈ value.splitOn 10, lineKey host ticked line = none
    · rw [uniqueResults_of_throws hscript, uniqueResults_of_throws hpage]
      refine iff_of_true rfl ⟨iff_of_true hscript hpage, fun hnever => ?_⟩
      obtain ⟨line, hline, hthrows⟩ := hscript
      exact absurd hthrows (hnever line hline).1
    · rw [uniqueResults_of_throws hscript, uniqueResults_of_completes hpage]
      exact iff_of_false nofun fun h => hpage (h.1.mp hscript)
  · by_cases hpage : ∃ line ∈ value.splitOn 10, lineKey host ticked line = none
    · rw [uniqueResults_of_completes hscript, uniqueResults_of_throws hpage]
      exact iff_of_false nofun fun h => hscript (h.1.mpr hpage)
    · have hnever : ∀ line ∈ value.splitOn 10, lineKey host .filterdeduplicate line ≠ none ∧
          lineKey host ticked line ≠ none := fun line hline =>
        ⟨fun h => hscript ⟨line, hline, h⟩, fun h => hpage ⟨line, hline, h⟩⟩
      rw [uniqueResults_of_completes hscript, uniqueResults_of_completes hpage,
        Option.some.injEq, firstBy_filter_eq_iff, and_iff_right (iff_of_false hscript hpage),
        imp_iff_right hnever]
      apply forall₃_congr
      intro before line after
      apply forall_congr'
      intro hsplit
      have hmem : line ∈ (value.splitOn 10).filter (fun line =>
          passes host .filterdeduplicate line || passes host ticked line) := by
        rw [hsplit]
        simp
      have hline := hnever line (List.mem_of_mem_filter hmem)
      exact imp_congr_right fun _ => passes_eq_iff hline.1 hline.2

/-- A link that names the country in traditional characters. -/
def traditionalLine : JsString := units "ss://x@1.2.3.4:443#%E7%BE%8E%E5%9C%8B"

/-- The object has `add`, `ps` and `port`, but no `net`. -/
def netlessLine : JsString :=
  units "vmess://eyJhZGQiOiIxLjIuMy40IiwicHMiOiJVU18iLCJwb3J0Ijo0NDN9"

/-- The page alone leaves the one, the script alone the other. -/
theorem copies_disagree :
    filterAndDeduplicateLinks smallHost .filterdeduplicate
        (traditionalLine ++ 10 :: netlessLine) = some netlessLine ∧
      filterAndDeduplicateLinks smallHost ticked (traditionalLine ++ 10 :: netlessLine) =
        some traditionalLine := by
  decide +kernel

end CodingLearners.LinkFilter
