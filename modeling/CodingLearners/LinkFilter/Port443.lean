import CodingLearners.LinkFilter.Deduplication
import CodingLearners.LinkFilter.Endpoints

/-!
# The port of the links that are left

The first pass looks for `:443?` and `:443#` anywhere on a line, the second one
takes the endpoint out of it with any port. Where the two agree, what is left are
links to port 443.
-/

namespace CodingLearners.LinkFilter

open Js FirstBy

variable (host : Host)

/-- A field of the payload of a `vmess` link. -/
def vmessField (link : JsString) (name : String) : Option (Json host) := do
  ownField host (← jsonParse host.numbers (← decode (link.drop 8))) name

/-- An IPv4 literal and port 443, in the endpoint of the link of a line or in the
fields of its payload. -/
structure MeetsFilter (line : JsString) : Prop where
  url : isUrlLink (trim line) = true →
    ∃ address, linkMatch (trim line) = some (address ++ units ":443") ∧ IsAddress address
  vmess : startsWith (trim line) vmess = true →
    ∃ address port, vmessField host (trim line) "add" = some (.string address) ∧
      IsAddress address ∧ vmessField host (trim line) "port" = some port ∧
      looseEq host.numbers port (host.numbers.ofText (units "443")) = some true

/-- What the two passes together leave open: whether the endpoint ends in `:443`,
what it is at all if the line starts with white space, and whether `add` is a string. -/
structure PortAtEndpoint (line : JsString) : Prop where
  url : isUrlLink (trim line) = true →
    ∃ pattern, linkMatch (trim line) = some pattern ∧ units ":443" <:+ pattern ∧
      (startsWithSpace line = true → regexipport.rmatch pattern = true)
  vmess : startsWith (trim line) vmess = true →
    ∃ address, vmessField host (trim line) "add" = some (.string address)

variable {host} {line : JsString}

/-- An endpoint that ends in `:443` has this port. -/
theorem endpoint_443 {pattern : JsString} (hmatch : regexipport.rmatch pattern = true)
    (hsuffix : units ":443" <:+ pattern) :
    ∃ address, pattern = address ++ units ":443" ∧ IsAddress address := by
  obtain ⟨address, port, rfl, haddress, hport, -⟩ := regexipport_rmatch_iff.mp hmatch
  obtain ⟨before, hbefore⟩ := hsuffix
  have hsplit : address ++ 58 :: port = before ++ 58 :: units "443" := hbefore.symm
  obtain ⟨rfl, rfl⟩ := (endpoint_inj haddress hport.digits).mp hsplit
  exact ⟨address, rfl, haddress⟩

theorem regexipport_443 {address : JsString} (h : IsAddress address) :
    regexipport.rmatch (address ++ units ":443") = true :=
  regexipport_rmatch_iff.mpr
    ⟨address, units "443", rfl, h, ⟨by decide, by decide, by decide⟩, by decide⟩

theorem vmessTest_eq_true_iff (dejson : Json host) :
    vmessTest host .filterdeduplicate dejson = some true ↔
      hasOwnProperties host dejson ["add", "ps", "port"] = some true ∧
        psNamesUs host dejson = some true ∧ portIs443 host dejson = some true ∧
        addIsIp host dejson = some true := by
  rw [vmessTest]
  cases hasOwnProperties host dejson ["add", "ps", "port"] with
  | none => simp
  | some own =>
      cases own with
      | false => simp
      | true =>
          cases psNamesUs host dejson with
          | none => simp
          | some us =>
              cases us with
              | false => simp
              | true =>
                  cases portIs443 host dejson with
                  | none => simp
                  | some port => cases port <;> simp

/-- What the first pass has tested of a `vmess` link. -/
theorem vmess_of_passes (hpasses : passes host .filterdeduplicate line = true)
    (hvmess : startsWith (trim line) vmess = true) :
    (∃ add text, vmessField host (trim line) "add" = some add ∧
      toText host.numbers add = some text ∧ IsAddress text) ∧
    ∃ port, vmessField host (trim line) "port" = some port ∧
      looseEq host.numbers port (host.numbers.ofText (units "443")) = some true := by
  rw [passes, decide_eq_true_eq] at hpasses
  simp only [keepLine, isUrlLink_of_vmess hvmess, hvmess, Bool.false_eq_true, if_false,
    if_true] at hpasses
  cases htext : decode ((trim line).drop 8) with
  | none => simp [htext] at hpasses
  | some text =>
      cases hjson : jsonParse host.numbers text with
      | none => by_cases hempty : text = [] <;> simp [htext, hjson, hempty] at hpasses
      | some dejson =>
          have htest : vmessTest host .filterdeduplicate dejson = some true := by
            by_cases hempty : text = [] <;> simp [htext, hjson, hempty] at hpasses ⊢
            exact hpasses
          obtain ⟨-, -, hport, hadd⟩ := (vmessTest_eq_true_iff dejson).mp htest
          have hfield : ∀ name,
              vmessField host (trim line) name = ownField host dejson name := by
            intro name
            simp [vmessField, htext, hjson]
          simp only [hfield]
          constructor
          · simp only [addIsIp, bind, Option.bind_eq_some_iff] at hadd
            obtain ⟨add, hown, address, haddress, hip⟩ := hadd
            exact ⟨add, address, hown, haddress, regexip_rmatch_iff.mp (Option.some.inj hip)⟩
          · simp only [portIs443, bind, Option.bind_eq_some_iff] at hport
            exact hport

/-- A line that is kept under a key meets the filter exactly if its port stands at
its endpoint. -/
theorem meetsFilter_iff {key : Key host} (hpasses : passes host .filterdeduplicate line = true)
    (hkey : seenKey host line = some key) : MeetsFilter host line ↔ PortAtEndpoint host line := by
  constructor
  · intro h
    refine ⟨fun hurl => ?_, fun hvmess => ?_⟩
    · obtain ⟨address, hmatch, haddress⟩ := h.url hurl
      exact ⟨_, hmatch, List.suffix_append _ _, fun _ => regexipport_443 haddress⟩
    · obtain ⟨address, -, hadd, -⟩ := h.vmess hvmess
      exact ⟨address, hadd⟩
  · intro h
    refine ⟨fun hurl => ?_, fun hvmess => ?_⟩
    · obtain ⟨pattern, hmatch, hsuffix, hspace⟩ := h.url hurl
      have haccepts : regexipport.rmatch pattern = true := by
        cases hstart : startsWithSpace line with
        | true => exact hspace hstart
        | false =>
            rw [seenKey_eq_dedupKey hpasses hstart, dedupKey, linkKey, if_pos hurl, hmatch] at hkey
            by_contra hnot
            simp only [Option.bind_some, if_neg hnot, Option.join_some] at hkey
            contradiction
      obtain ⟨address, rfl, haddress⟩ := endpoint_443 haccepts hsuffix
      exact ⟨address, hmatch, haddress⟩
    · obtain ⟨address, hadd⟩ := h.vmess hvmess
      obtain ⟨⟨add, text, hadd', htext, haddress⟩, port, hport, heq⟩ :=
        vmess_of_passes hpasses hvmess
      rw [hadd] at hadd'
      obtain rfl := Option.some.inj hadd'
      obtain rfl : address = text := Option.some.inj htext
      exact ⟨address, port, hadd, haddress, hport, heq⟩

/-- The links that are left of a text all meet the filter exactly if the port of
every line that is new under its key stands at its endpoint. -/
theorem outputs_meet_filter_iff {value : JsString} {links : List JsString}
    (hlinks : uniqueResults host id .filterdeduplicate (value.splitOn 10) = some links) :
    (∀ link ∈ links, MeetsFilter host link) ↔
      ∀ before line after,
        (value.splitOn 10).filter (passes host .filterdeduplicate) = before ++ line :: after →
        IsNew (seenKey host) before line → PortAtEndpoint host line := by
  obtain ⟨-, rfl⟩ := uniqueResults_eq_some_iff.mp hlinks
  have hmeets : ∀ {before line after},
      (value.splitOn 10).filter (passes host .filterdeduplicate) = before ++ line :: after →
      IsNew (seenKey host) before line → (MeetsFilter host line ↔ PortAtEndpoint host line) := by
    rintro before line after hsplit ⟨key, hkey, -⟩
    have hmem : line ∈ (value.splitOn 10).filter (passes host .filterdeduplicate) := by
      rw [hsplit]
      simp
    exact meetsFilter_iff (List.mem_filter.mp hmem).2 hkey
  constructor
  · intro h before line after hsplit hnew
    apply (hmeets hsplit hnew).mp
    obtain ⟨key, hkey, hfirst⟩ := hnew
    exact h line (mem_firstBy.mpr ⟨before, after, hsplit, key, hkey, by simp, hfirst⟩)
  · intro h link hlink
    obtain ⟨before, after, hsplit, key, hkey, -, hfirst⟩ := mem_firstBy.mp hlink
    have hnew : IsNew (seenKey host) before link := ⟨key, hkey, hfirst⟩
    exact (hmeets hsplit hnew).mpr (h before link after hsplit hnew)

theorem plainLine_portAtEndpoint : PortAtEndpoint smallHost plainLine := by
  refine ⟨fun _ => ⟨units "1.2.3.4:443", by decide +kernel, by decide, fun hspace => ?_⟩,
    fun hvmess => ?_⟩
  · exact absurd hspace (by decide)
  · exact absurd hvmess (by decide)

/-- The link that is left of a text of one link. -/
theorem plainLine_meets_filter : MeetsFilter smallHost plainLine := by
  have hrun : uniqueResults smallHost id .filterdeduplicate (plainLine.splitOn 10) =
      some [plainLine] := by decide +kernel
  refine (outputs_meet_filter_iff hrun).mpr ?_ plainLine (List.mem_singleton_self plainLine)
  intro before line after hsplit _
  have hpassing : (plainLine.splitOn 10).filter (passes smallHost .filterdeduplicate) =
      [plainLine] := by decide +kernel
  have hline : line ∈ [plainLine] := by
    rw [← hpassing, hsplit]
    simp
  rw [List.mem_singleton.mp hline]
  exact plainLine_portAtEndpoint

/-- A link to port 8443 with `:443#` behind its query. -/
def port8443Line : JsString := units "vless://x@1.2.3.4:8443?a=:443#US_"

/-- It is left although its endpoint has another port. -/
theorem port8443_left :
    filterAndDeduplicateLinks smallHost .filterdeduplicate port8443Line = some port8443Line ∧
      ¬ MeetsFilter smallHost port8443Line := by
  refine ⟨by decide +kernel, fun h => ?_⟩
  obtain ⟨address, hmatch, -⟩ := h.url (by decide)
  have hpattern : linkMatch (trim port8443Line) = some (units "1.2.3.4:8443") := by decide +kernel
  rw [hpattern] at hmatch
  have hsuffix : units ":443" <:+ units "1.2.3.4:8443" := ⟨address, (Option.some.inj hmatch).symm⟩
  exact absurd hsuffix (by decide)

end CodingLearners.LinkFilter
