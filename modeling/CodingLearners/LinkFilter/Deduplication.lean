import CodingLearners.Library.Decimal
import CodingLearners.Library.FirstBy
import CodingLearners.LinkFilter.FilterDeduplicate
import Mathlib.Data.List.Sigma

/-!
# What the link filter keeps

Every link has a key or throws, and a run keeps the first link of each key. The
second pass takes the key from the line as it stands, so a line behind white space
has another key than its link.
-/

namespace CodingLearners.LinkFilter

open Js FirstBy

variable {host : Host} {copy : Copy}

section Keys

variable (host) (copy)

/-- The key that the second pass gives a link, if it gives one. -/
def linkKey (link : JsString) : Option (Option (Key host)) :=
  if isUrlLink link then
    some ((linkMatch link).bind fun pattern =>
      if regexipport.rmatch pattern then some (.text pattern) else none)
  else do
    let dejson ← jsonParse host.numbers (← decode (link.drop 8))
    return some (← plus host.numbers (← property dejson (units "add"))
      (← property dejson (units "port")))

/-- The line is kept by the first pass. -/
def passes (line : JsString) : Bool := decide (keepLine host copy line = some true)

/-- The key under which the second pass looks up a line. -/
def seenKey (line : JsString) : Option (Key host) := (linkKey host line).join

/-- The key of a line: of its link, without the white space around it. -/
def dedupKey (line : JsString) : Option (Key host) := (linkKey host (trim line)).join

/-- What a line comes to by itself: an exception, nothing, or its key. -/
def lineKey (line : JsString) : Option (Option (Key host)) := do
  if ← keepLine host copy line then linkKey host line else return none

end Keys

/-! ## One lemma for each pass -/

section Passes

variable {α : Type} {textOf : α → JsString} {lines links out : List α}

theorem addLink_eq (seen : Seen host α) (line : α) :
    addLink host textOf seen line =
      (linkKey host (textOf line)).map fun
        | none => seen
        | some key => seen.add host key line := by
  simp only [addLink, linkKey]
  split
  · cases linkMatch (textOf line) with
    | none => rfl
    | some pattern =>
        by_cases hmatch : regexipport.rmatch pattern = true
        · simp only [Option.bind_some, if_pos hmatch, Option.map_some]
        · simp only [Option.bind_some, if_neg hmatch, Option.map_some]
  · cases decode ((textOf line).drop 8) with
    | none => rfl
    | some text =>
        cases hparse : jsonParse host.numbers text with
        | none => simp [hparse]
        | some dejson =>
            simp [hparse]

theorem filteredLinks_eq_some_iff :
    filteredLinks host textOf copy lines = some links ↔
      (∀ line ∈ lines, (keepLine host copy (textOf line)).isSome) ∧
        links = lines.filter fun line => passes host copy (textOf line) := by
  induction lines generalizing links with
  | nil =>
      rw [filteredLinks, Option.some.injEq, List.filter_nil, eq_comm]
      exact ⟨fun h => ⟨fun _ hmem => absurd hmem List.not_mem_nil, h⟩, fun h => h.2⟩
  | cons line lines ih =>
      rw [filteredLinks, List.forall_mem_cons]
      cases hkeep : keepLine host copy (textOf line) with
      | none =>
          constructor
          · exact fun h => by cases h
          · exact fun h => by cases h.1.1
      | some keep =>
          have hpasses : passes host copy (textOf line) = keep := by
            rw [passes, hkeep]
            cases keep with
            | false => rfl
            | true => rfl
          have hfilter : (line :: lines).filter (fun line => passes host copy (textOf line)) =
              if keep then line :: lines.filter (fun line => passes host copy (textOf line))
              else lines.filter (fun line => passes host copy (textOf line)) := by
            rw [List.filter_cons, hpasses]
          rw [hfilter]
          cases hrest : filteredLinks host textOf copy lines with
          | none =>
              constructor
              · exact fun h => by cases h
              · rintro ⟨⟨-, hsome⟩, -⟩
                rw [ih.mpr ⟨hsome, rfl⟩] at hrest
                cases hrest
          | some rest =>
              obtain ⟨hsome, hlinks⟩ := ih.mp hrest
              rw [← hlinks]
              constructor
              · intro h
                exact ⟨⟨rfl, hsome⟩, (Option.some.inj h).symm⟩
              · intro h
                exact congrArg some h.2.symm

/-- The second pass keeps the first link of each key. -/
theorem foldlM_addLink (seen : Seen host α) :
    ((links.foldlM (addLink host textOf) seen).map fun seen => seen.uniqueResults) = some out ↔
      (∀ line ∈ links, (linkKey host (textOf line)).isSome) ∧
        out = seen.uniqueResults ++
          firstBy (fun line => seenKey host (textOf line)) seen.seenPatterns links := by
  induction links generalizing seen with
  | nil =>
      rw [List.foldlM_nil, firstBy, List.append_nil]
      constructor
      · intro h
        exact ⟨fun _ hmem => absurd hmem List.not_mem_nil, (Option.some.inj h).symm⟩
      · intro h
        exact congrArg some h.2.symm
  | cons line links ih =>
      rw [List.foldlM_cons, addLink_eq, List.forall_mem_cons, firstBy]
      cases hkey : linkKey host (textOf line) with
      | none =>
          constructor
          · exact fun h => by cases h
          · exact fun h => by cases h.1.1
      | some key =>
          have hseen : seenKey host (textOf line) = key := by
            rw [seenKey, hkey]
            rfl
          simp only [hseen, Option.map_some, Option.isSome_some, true_and]
          cases key with
          | none => exact ih seen
          | some key =>
              change Option.map _
                (links.foldlM (addLink host textOf) (seen.add host key line)) = _ ↔ _
              rw [ih, Seen.add]
              by_cases hmem : key ∈ seen.seenPatterns
              · simp only [if_pos hmem]
              · simp only [if_neg hmem, List.append_assoc, List.singleton_append]

theorem lineKey_isSome (line : JsString) : (lineKey host copy line).isSome ↔
    (keepLine host copy line).isSome ∧
      (passes host copy line = true → (linkKey host line).isSome) := by
  rw [lineKey, passes]
  cases keepLine host copy line with
  | none => exact ⟨fun h => (by cases h), fun h => (by cases h.1)⟩
  | some keep =>
      cases keep with
      | false => exact ⟨fun _ => ⟨rfl, fun h => (by cases h)⟩, fun _ => rfl⟩
      | true => exact ⟨fun h => ⟨rfl, fun _ => h⟩, fun h => h.2 rfl⟩

/-- A run completes if no line throws, and then leaves the first link of each key. -/
theorem uniqueResults_eq_some_iff :
    uniqueResults host textOf copy lines = some out ↔
      (∀ line ∈ lines, (lineKey host copy (textOf line)).isSome) ∧
        out = firstBy (fun line => seenKey host (textOf line)) []
          (lines.filter fun line => passes host copy (textOf line)) := by
  have hrun : uniqueResults host textOf copy lines =
      (filteredLinks host textOf copy lines).bind fun links =>
        (links.foldlM (addLink host textOf) ⟨[], []⟩).map fun seen => seen.uniqueResults := by
    simp only [Option.map_eq_bind]
    rfl
  rw [hrun, Option.bind_eq_some_iff]
  simp only [filteredLinks_eq_some_iff, foldlM_addLink, List.nil_append, lineKey_isSome]
  constructor
  · rintro ⟨links, ⟨hkeep, rfl⟩, hkeys, hout⟩
    refine ⟨fun line hline => ⟨hkeep line hline, fun hpasses => ?_⟩, hout⟩
    exact hkeys line (List.mem_filter.mpr ⟨hline, hpasses⟩)
  · rintro ⟨h, hout⟩
    refine ⟨_, ⟨fun line hline => (h line hline).1, rfl⟩, ?_, hout⟩
    intro line hline
    obtain ⟨hline, hpasses⟩ := List.mem_filter.mp hline
    exact (h line hline).2 hpasses

/-- Labels do not change what a run does. -/
theorem uniqueResults_map (lines : List α) :
    uniqueResults host id copy (lines.map textOf) =
      (uniqueResults host textOf copy lines).map (List.map textOf) := by
  apply Option.ext
  intro out
  rw [uniqueResults_eq_some_iff, Option.map_eq_some_iff, List.filter_map, firstBy_map]
  simp only [uniqueResults_eq_some_iff, List.forall_mem_map, id_eq, Function.comp_def]
  constructor
  · rintro ⟨h, rfl⟩
    exact ⟨_, ⟨h, rfl⟩, rfl⟩
  · rintro ⟨links, ⟨h, rfl⟩, rfl⟩
    exact ⟨h, rfl⟩

end Passes

/-! ## White space around a line -/

def startsWithSpace (line : JsString) : Bool := line.head?.any isSpace

/-- Behind the link of a line that does not start with white space is white space. -/
theorem exists_trim_append {line : JsString} (h : startsWithSpace line = false) :
    ∃ tail, line = trim line ++ tail ∧ ∀ u ∈ tail, isSpace u = true := by
  have hdrop : line.dropWhile isSpace = line := by
    cases line with
    | nil => rfl
    | cons u rest =>
        rw [List.dropWhile_cons_of_neg]
        simpa [startsWithSpace] using h
  refine ⟨line.rtakeWhile isSpace, ?_, fun u hu => List.mem_rtakeWhile_imp hu⟩
  rw [trim, hdrop, List.rdropWhile, List.rtakeWhile, ← List.reverse_append,
    List.takeWhile_append_dropWhile, List.reverse_reverse]

/-- White space is not among the visible characters of ASCII. -/
theorem isSpace_bounds {u : UInt16} (h : isSpace u = true) : u.toNat ≤ 32 ∨ 160 ≤ u.toNat := by
  rw [isSpace, Bool.or_eq_true, List.contains_iff_mem, decide_eq_true_eq] at h
  cases h with
  | inl hmem =>
      have hall : [0x9, 0xA, 0xB, 0xC, 0xD, 0x20, 0xA0, 0x1680, 0x2028, 0x2029, 0x202F, 0x205F,
          0x3000, (0xFEFF : UInt16)].all fun v => decide (v.toNat ≤ 32 ∨ 160 ≤ v.toNat) := by
        decide
      exact of_decide_eq_true (List.all_eq_true.mp hall u hmem)
  | inr hrange =>
      have hlow : 0x2000 ≤ u.toNat := hrange.1
      omega

theorem ne_of_isSpace {u v : UInt16} (h : isSpace u = true) (hlow : 33 ≤ v.toNat)
    (hhigh : v.toNat ≤ 159) : u ≠ v := by
  rintro rfl
  have hbounds := isSpace_bounds h
  omega

theorem isBase64_of_isSpace {u : UInt16} (h : isSpace u = true) : isBase64 u = false := by
  have hbounds := isSpace_bounds h
  have hplus := ne_of_isSpace h (v := 43) (by decide) (by decide)
  have hslash := ne_of_isSpace h (v := 47) (by decide) (by decide)
  simp only [isBase64, hplus, hslash, Bool.or_eq_false_iff, decide_eq_false_iff_not,
    beq_eq_false_iff_ne, ne_eq, not_false_eq_true, and_true]
  omega

section Tail

variable {tail : JsString} (htail : ∀ u ∈ tail, isSpace u = true)

include htail

/-- White space is neither base64 nor one of the characters that are replaced. -/
theorem unURI_append (s : JsString) : unURI (s ++ tail) = unURI s := by
  rw [unURI, unURI, tidyB64, tidyB64, List.map_append, List.filter_append]
  have hnone : (tail.map fun u => if u = 45 then 43 else if u = 95 then 47 else u).filter
      isBase64 = [] := by
    rw [List.filter_eq_nil_iff]
    intro v hv
    obtain ⟨u, hu, rfl⟩ := List.mem_map.mp hv
    have hspace := htail u hu
    rw [if_neg (ne_of_isSpace hspace (by decide) (by decide)),
      if_neg (ne_of_isSpace hspace (by decide) (by decide)), isBase64_of_isSpace hspace]
    exact Bool.false_ne_true
  rw [hnone, List.append_nil]

/-- White space at the end does not help a text to start with visible characters. -/
theorem startsWith_append {start : JsString} (hstart : start.any isSpace = false)
    (s : JsString) : startsWith (s ++ tail) start = startsWith s start := by
  rw [startsWith, startsWith, decide_eq_decide]
  constructor
  · intro h
    by_cases hlength : start.length ≤ s.length
    · exact List.prefix_of_prefix_length_le h (List.prefix_append s tail) hlength
    · have hshort : s.length ≤ start.length := by omega
      obtain ⟨rest, rfl⟩ := List.prefix_of_prefix_length_le (List.prefix_append s tail) h hshort
      rw [List.prefix_append_right_inj] at h
      cases rest with
      | nil => simp at hlength
      | cons u rest =>
          have hspace := htail u (h.subset List.mem_cons_self)
          have hmem : u ∈ s ++ u :: rest := List.mem_append_right _ List.mem_cons_self
          exact absurd hspace (List.any_eq_false.mp hstart u hmem)
  · exact fun h => h.trans (List.prefix_append s tail)

theorem linkMatch_append (s : JsString) : linkMatch (s ++ tail) = linkMatch s := by
  have hclass : ∀ v : UInt16, 33 ≤ v.toNat → v.toNat ≤ 159 → ∀ u ∈ tail, (u == v) = false :=
    fun v hlow hhigh u hu => beq_false_of_ne (ne_of_isSpace (htail u hu) hlow hhigh)
  have hfind : ∀ last : UInt16, 33 ≤ last.toNat → last.toNat ≤ 159 →
      GreedyPattern.find [.one (· == 64), .run (· != 63), .one (· == last)] (s ++ tail) =
        GreedyPattern.find [.one (· == 64), .run (· != 63), .one (· == last)] s :=
    fun last hlow hhigh =>
      GreedyPattern.find_append (hclass 64 (by decide) (by decide)) (hclass last hlow hhigh) s
  have hcipher : ∀ link : JsString, link.take 15 = units "ss://cmM0LW1kNT" ↔
      startsWith link (units "ss://cmM0LW1kNT") = true := by
    intro link
    rw [startsWith, decide_eq_true_eq, List.prefix_iff_eq_take, eq_comm]
    rfl
  simp only [linkMatch, hcipher, @startsWith_append tail htail ss (by decide),
    @startsWith_append tail htail (units "ss://cmM0LW1kNT") (by decide),
    hfind 63 (by decide) (by decide), hfind 35 (by decide) (by decide)]

/-- White space at the end changes the key of no link. -/
theorem linkKey_append {s : JsString} (h : isUrlLink s = true ∨ startsWith s vmess = true) :
    linkKey host (s ++ tail) = linkKey host s := by
  have hurl : isUrlLink (s ++ tail) = isUrlLink s := by
    simp only [isUrlLink, @startsWith_append tail htail vless (by decide),
      @startsWith_append tail htail trojan (by decide),
      @startsWith_append tail htail ss (by decide)]
  rw [linkKey, linkKey, hurl, linkMatch_append htail]
  by_cases hlink : isUrlLink s = true
  · rw [if_pos hlink, if_pos hlink]
  · rw [if_neg hlink, if_neg hlink]
    have hvmess : 8 ≤ s.length := by
      have hprefix := (h.resolve_left hlink)
      rw [startsWith, decide_eq_true_eq] at hprefix
      exact hprefix.length_le
    rw [List.drop_append_of_le_length hvmess, decode, decode, unURI_append htail]

end Tail

theorem isUrlLink_of_vmess {link : JsString} (h : startsWith link vmess = true) :
    isUrlLink link = false := by
  rw [startsWith, decide_eq_true_eq] at h
  obtain ⟨rest, rfl⟩ := h
  rfl

/-- The first pass keeps links only. -/
theorem link_of_passes {line : JsString} (h : passes host copy line = true) :
    isUrlLink (trim line) = true ∨ startsWith (trim line) vmess = true := by
  rw [passes, decide_eq_true_eq, keepLine] at h
  by_cases hurl : isUrlLink (trim line) = true
  · exact Or.inl hurl
  · right
    by_contra hvmess
    simp only [if_neg hurl, if_neg hvmess, Option.some.injEq, Bool.false_eq_true] at h

/-- A line without white space in front is looked up under its own key. -/
theorem seenKey_eq_dedupKey {line : JsString} (hpasses : passes host copy line = true)
    (hspace : startsWithSpace line = false) : seenKey host line = dedupKey host line := by
  obtain ⟨tail, hline, htail⟩ := exists_trim_append hspace
  rw [seenKey, dedupKey]
  conv_lhs => rw [hline]
  rw [linkKey_append htail (link_of_passes hpasses)]

/-! ## Labelled lines -/

/-- The lines of a text with their positions. -/
def labelledLines (value : JsString) : List (JsString × Nat) := (value.splitOn 10).zipIdx

theorem labelledLines_nodup (value : JsString) : (labelledLines value).Nodup :=
  List.Nodup.of_map Prod.snd (List.nodup_zipIdx_map_snd _)

theorem filterAndDeduplicateLinks_eq (value : JsString) :
    filterAndDeduplicateLinks host copy value =
      (uniqueResults host Prod.fst copy (labelledLines value)).map fun links =>
        [10].intercalate (links.map Prod.fst) := by
  have hlines : (labelledLines value).map Prod.fst = value.splitOn 10 :=
    List.zipIdx_map_fst _ _
  rw [filterAndDeduplicateLinks, ← hlines, uniqueResults_map, Option.map_map]
  rfl

/-- The lines that a run leaves are the first passing lines of each key if and only if
the keys of the lines and those that they are looked up under are new at the same lines;
so they are if no passing line starts with white space. -/
theorem first_of_each_key_iff (host : Host) (copy : Copy) (value : JsString)
    {links : List (JsString × Nat)}
    (hlinks : uniqueResults host Prod.fst copy (labelledLines value) = some links) :
    filterAndDeduplicateLinks host copy value =
      some ([10].intercalate (links.map Prod.fst)) ∧
    (Deduplicates (fun line => dedupKey host line.1) (fun line => passes host copy line.1)
        (labelledLines value) links ↔
      ∀ before line after,
        (labelledLines value).filter (fun line => passes host copy line.1) =
          before ++ line :: after →
        (IsNew (fun line => seenKey host line.1) before line ↔
          IsNew (fun line => dedupKey host line.1) before line)) ∧
    ((∀ line ∈ labelledLines value, passes host copy line.1 = true →
        startsWithSpace line.1 = false) →
      Deduplicates (fun line => dedupKey host line.1) (fun line => passes host copy line.1)
        (labelledLines value) links) := by
  have hnodup := labelledLines_nodup value
  have hfilter := hnodup.filter fun line => passes host copy line.1
  obtain ⟨-, hfirst⟩ := uniqueResults_eq_some_iff.mp hlinks
  have hiff : Deduplicates (fun line => dedupKey host line.1)
      (fun line => passes host copy line.1) (labelledLines value) links ↔
      ∀ before line after,
        (labelledLines value).filter (fun line => passes host copy line.1) =
          before ++ line :: after →
        (IsNew (fun line => seenKey host line.1) before line ↔
          IsNew (fun line => dedupKey host line.1) before line) := by
    rw [deduplicates_iff hnodup, hfirst]
    exact firstBy_eq_iff hfilter
  refine ⟨by rw [filterAndDeduplicateLinks_eq, hlinks]; rfl, hiff, ?_⟩
  intro hspace
  apply hiff.mpr
  intro before line after hsplit
  have hsame : ∀ other ∈ before ++ line :: after,
      seenKey host other.1 = dedupKey host other.1 := by
    intro other hother
    rw [← hsplit] at hother
    obtain ⟨hmem, hpasses⟩ := List.mem_filter.mp hother
    exact seenKey_eq_dedupKey hpasses (hspace other hmem hpasses)
  rw [IsNew, IsNew, hsame line (by simp)]
  apply exists_congr
  intro k
  apply and_congr_right
  intro _
  apply forall_congr'
  intro other
  apply forall_congr'
  intro hother
  rw [hsame other (List.mem_append_left _ hother)]

/-! ## Small texts -/

def smallHost : Host where
  numbers := decimalNumbers
  toUpperCase s := s.map fun u => if 97 ≤ u.toNat ∧ u.toNat ≤ 122 then u - 32 else u

def plainLine : JsString := units "ss://x@1.2.3.4:443#US_"

/-- The text from its eighth character on is base64 of a JSON object without address. -/
def misreadLine : JsString := units "   ss://eyJhIjoi@1.2.3.4:443#US_8ifSAg"

def twoLines : JsString := misreadLine ++ 10 :: plainLine

/-- A text of one link keeps it. -/
theorem first_of_each_key_plainLine :
    Deduplicates (fun line => dedupKey smallHost line.1)
      (fun line => passes smallHost .filterdeduplicate line.1) (labelledLines plainLine)
      [(plainLine, 0)] := by
  have hrun : uniqueResults smallHost Prod.fst .filterdeduplicate (labelledLines plainLine) =
      some [(plainLine, 0)] := by decide +kernel
  apply (first_of_each_key_iff smallHost .filterdeduplicate plainLine hrun).2.2
  decide +kernel

theorem twoLines_runs :
    ∀ copy ∈ [.filterdeduplicate, .uswsfilter true false true],
      filterAndDeduplicateLinks smallHost copy twoLines = some twoLines ∧
      uniqueResults smallHost Prod.fst copy (labelledLines twoLines) =
        some [(misreadLine, 0), (plainLine, 1)] := by
  decide +kernel

theorem twoLines_keys :
    dedupKey smallHost misreadLine = some (.text (units "1.2.3.4:443")) ∧
    dedupKey smallHost plainLine = some (.text (units "1.2.3.4:443")) := by
  decide +kernel

theorem twoLines_not_deduplicates {copy : Copy}
    (hrun : uniqueResults smallHost Prod.fst copy (labelledLines twoLines) =
      some [(misreadLine, 0), (plainLine, 1)]) :
    ¬ ∃ links, uniqueResults smallHost Prod.fst copy (labelledLines twoLines) = some links ∧
      Deduplicates (fun line => dedupKey smallHost line.1)
        (fun line => passes smallHost copy line.1) (labelledLines twoLines) links := by
  rintro ⟨links, hlinks, h⟩
  rw [hrun, Option.some.injEq] at hlinks
  have hdistinct := h.distinct
  rw [← hlinks, List.pairwise_pair] at hdistinct
  exact hdistinct (twoLines_keys.1.trans twoLines_keys.2.symm)

/-- Behind three spaces the key of a link is not seen, and another link with this key is
kept, by both copies. -/
theorem same_key_twice :
    filterAndDeduplicateLinks smallHost .filterdeduplicate twoLines = some twoLines ∧
    filterAndDeduplicateLinks smallHost (.uswsfilter true false true) twoLines =
      some twoLines ∧
    dedupKey smallHost misreadLine = dedupKey smallHost plainLine ∧
    (¬ ∃ links,
      uniqueResults smallHost Prod.fst .filterdeduplicate (labelledLines twoLines) =
        some links ∧
      Deduplicates (fun line => dedupKey smallHost line.1)
        (fun line => passes smallHost .filterdeduplicate line.1)
        (labelledLines twoLines) links) ∧
    ¬ ∃ links,
      uniqueResults smallHost Prod.fst (.uswsfilter true false true) (labelledLines twoLines) =
        some links ∧
      Deduplicates (fun line => dedupKey smallHost line.1)
        (fun line => passes smallHost (.uswsfilter true false true) line.1)
        (labelledLines twoLines) links := by
  obtain ⟨hout, hrun⟩ := twoLines_runs .filterdeduplicate (by simp)
  obtain ⟨hout', hrun'⟩ := twoLines_runs (.uswsfilter true false true) (by simp)
  exact ⟨hout, hout', twoLines_keys.1.trans twoLines_keys.2.symm,
    twoLines_not_deduplicates hrun, twoLines_not_deduplicates hrun'⟩

end CodingLearners.LinkFilter
