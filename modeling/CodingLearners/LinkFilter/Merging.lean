import CodingLearners.Library.SeparatedText
import CodingLearners.LinkFilter.Deduplication

/-!
# Filtering in parts

A text that was filtered is left as it is, and a text can be filtered in parts, whose
results are filtered together. The result of a part is a text again: where no link is
left, it has one line, which is empty.
-/

namespace CodingLearners.LinkFilter

open Js FirstBy

variable {host : Host} {copy : Copy} {lines lines' out out' : List JsString}

/-- What a run over lines leaves. -/
theorem links_eq_some_iff : uniqueResults host id copy lines = some out ↔
    (∀ line ∈ lines, (lineKey host copy line).isSome) ∧
      out = firstBy (seenKey host) [] (lines.filter (passes host copy)) :=
  uniqueResults_eq_some_iff

/-- Each link that is left is a line that passed. -/
theorem mem_links (h : uniqueResults host id copy lines = some out) {line : JsString}
    (hline : line ∈ out) :
    line ∈ lines ∧ (lineKey host copy line).isSome ∧ passes host copy line = true := by
  obtain ⟨hsome, rfl⟩ := links_eq_some_iff.mp h
  obtain ⟨hline, hpasses⟩ := List.mem_filter.mp ((firstBy_sublist [] _).subset hline)
  exact ⟨hline, hsome line hline, hpasses⟩

/-- Lines that were filtered can be filtered together. -/
theorem links_append (h : uniqueResults host id copy lines = some out)
    (h' : uniqueResults host id copy lines' = some out') :
    uniqueResults host id copy (out ++ out') = uniqueResults host id copy (lines ++ lines') := by
  have hparts : ∀ line ∈ out ++ out', (lineKey host copy line).isSome ∧
      passes host copy line = true :=
    List.forall_mem_append.mpr ⟨fun _ hline => (mem_links h hline).2,
      fun _ hline => (mem_links h' hline).2⟩
  obtain ⟨hsome, hout⟩ := links_eq_some_iff.mp h
  obtain ⟨hsome', hout'⟩ := links_eq_some_iff.mp h'
  have hmerged : firstBy (seenKey host) [] (out ++ out') =
      firstBy (seenKey host) [] ((lines ++ lines').filter (passes host copy)) := by
    rw [hout, hout', List.filter_append]
    exact firstBy_append_firstBy [] _ _
  rw [links_eq_some_iff.mpr ⟨List.forall_mem_append.mpr ⟨hsome, hsome'⟩, rfl⟩]
  apply links_eq_some_iff.mpr
  refine ⟨fun line hline => (hparts line hline).1, ?_⟩
  rw [List.filter_eq_self.mpr fun line hline => (hparts line hline).2]
  exact hmerged.symm

/-- An exception in a part is an exception of the whole. -/
theorem links_append_isSome :
    (uniqueResults host id copy (lines ++ lines')).isSome ↔
      (uniqueResults host id copy lines).isSome ∧
        (uniqueResults host id copy lines').isSome := by
  simp only [Option.isSome_iff_exists, links_eq_some_iff, exists_and_left, exists_eq,
    and_true, List.forall_mem_append]

/-- The text of the links that are left is filtered to the same links. -/
theorem links_of_text (hlines : ∀ line ∈ lines, 10 ∉ line)
    (h : uniqueResults host id copy lines = some out) :
    uniqueResults host id copy (([10].intercalate out).splitOn 10) = some out := by
  obtain ⟨-, hout⟩ := links_eq_some_iff.mp h
  rw [links_eq_some_iff]
  by_cases hempty : out = []
  · rw [hempty]
    -- The one line is empty, and an empty line is dropped.
    refine ⟨fun line hline => ?_, rfl⟩
    obtain rfl := List.mem_singleton.mp hline
    rfl
  · rw [List.splitOn_intercalate 10 (fun line hline => hlines line (mem_links h hline).1) hempty]
    refine ⟨fun line hline => (mem_links h hline).2.1, ?_⟩
    rw [List.filter_eq_self.mpr fun line hline => (mem_links h hline).2.2, hout,
      firstBy_firstBy fun _ hk => hk]

/-- A text that was filtered is left as it is, and the parts of a text can be filtered
first; a part that throws is a text that throws. -/
theorem filter_merge (host : Host) (copy : Copy) (value value' : JsString) :
    (filterAndDeduplicateLinks host copy value).bind (filterAndDeduplicateLinks host copy) =
        filterAndDeduplicateLinks host copy value ∧
      filterAndDeduplicateLinks host copy (value ++ 10 :: value') =
        (filterAndDeduplicateLinks host copy value).bind fun out =>
          (filterAndDeduplicateLinks host copy value').bind fun out' =>
            filterAndDeduplicateLinks host copy (out ++ 10 :: out') := by
  have htext : ∀ {text : JsString} {out}, uniqueResults host id copy (text.splitOn 10) = some out →
      uniqueResults host id copy (([10].intercalate out).splitOn 10) = some out :=
    links_of_text fun _ hline => SeparatedText.not_mem_of_mem_splitOn hline
  simp only [filterAndDeduplicateLinks, List.splitOn_append_cons_self]
  cases h : uniqueResults host id copy (value.splitOn 10) with
  | none =>
      refine ⟨rfl, ?_⟩
      rw [Option.map_none, Option.bind_none, Option.map_eq_none_iff,
        ← Option.not_isSome_iff_eq_none, links_append_isSome, h]
      exact fun hboth => absurd hboth.1 Bool.false_ne_true
  | some out =>
      refine ⟨?_, ?_⟩
      · rw [Option.map_some, Option.bind_some, filterAndDeduplicateLinks, htext h]
        rfl
      cases h' : uniqueResults host id copy (value'.splitOn 10) with
      | none =>
          rw [Option.map_some, Option.bind_some, Option.map_none, Option.bind_none,
            Option.map_eq_none_iff, ← Option.not_isSome_iff_eq_none, links_append_isSome, h']
          exact fun hboth => absurd hboth.2 Bool.false_ne_true
      | some out' =>
          rw [Option.map_some, Option.bind_some, Option.map_some, Option.bind_some,
            ← links_append h h',
            links_append (htext h) (htext h')]

end CodingLearners.LinkFilter
