import Mathlib.Data.List.Infix
import Mathlib.Data.List.Nodup
import Mathlib.Data.List.Pairwise
import Mathlib.Data.List.Perm.Basic

/-!
# The first element of each key

Some elements of a list have a key. Keeping the first element of each key is the
only way to keep every key once, at the place where it first occurs.
-/

namespace FirstBy

variable {α κ : Type*} [DecidableEq κ] (key : α → Option κ)

/-- The elements whose key is neither in `seen` nor the key of an earlier one. -/
def firstBy (seen : List κ) : List α → List α
  | [] => []
  | a :: rest =>
      match key a with
      | none => firstBy seen rest
      | some k => if k ∈ seen then firstBy seen rest else a :: firstBy (k :: seen) rest

/-- The element has a key that no earlier one has. -/
def IsNew (before : List α) (a : α) : Prop := ∃ k, key a = some k ∧ ∀ b ∈ before, key b ≠ some k

/-- `out` keeps every key of the elements that passed once, at its first place. -/
structure Deduplicates (passed : α → Bool) (lines out : List α) : Prop where
  sublist : out.Sublist lines
  keyed : ∀ a ∈ out, passed a = true ∧ (key a).isSome
  distinct : out.Pairwise fun a b => key a ≠ key b
  covered : ∀ before a after k, lines = before ++ a :: after → passed a = true →
    key a = some k → a ∈ out ∨ ∃ b ∈ before, b ∈ out ∧ key b = some k

variable {key} {seen : List κ} {l : List α}

theorem firstBy_sublist (seen : List κ) (l : List α) : (firstBy key seen l).Sublist l := by
  induction l generalizing seen with
  | nil => exact List.Sublist.refl _
  | cons a rest ih =>
      rw [firstBy]
      split
      · exact (ih seen).cons a
      · split
        · exact (ih seen).cons a
        · exact (ih _).cons_cons a

/-- Keys that were seen matter only if they are keys of the list. -/
theorem firstBy_congr_seen {seen' : List κ}
    (h : ∀ a ∈ l, ∀ k, key a = some k → (k ∈ seen ↔ k ∈ seen')) :
    firstBy key seen l = firstBy key seen' l := by
  induction l generalizing seen seen' with
  | nil => rfl
  | cons a rest ih =>
      have hrest : ∀ b ∈ rest, ∀ k, key b = some k → (k ∈ seen ↔ k ∈ seen') :=
        fun b hb => h b (List.mem_cons_of_mem _ hb)
      rw [firstBy, firstBy]
      cases hk : key a with
      | none => exact ih hrest
      | some k =>
          simp only [h a List.mem_cons_self k hk]
          split
          · exact ih hrest
          · congr 1
            apply ih
            intro b hb k' hk'
            rw [List.mem_cons, List.mem_cons, hrest b hb k' hk']

/-- The first element is kept or not, and its key is seen from then on. -/
theorem firstBy_cons (a : α) (rest : List α) :
    firstBy key seen (a :: rest) =
      (if ∃ k, key a = some k ∧ k ∉ seen then [a] else []) ++
        firstBy key ((key a).toList ++ seen) rest := by
  rw [firstBy]
  cases hk : key a with
  | none => simp
  | some k =>
      by_cases hmem : k ∈ seen
      · have hsame : firstBy key seen rest = firstBy key ([k] ++ seen) rest := by
          apply firstBy_congr_seen
          intro b _ k' _
          rw [List.singleton_append, List.mem_cons]
          exact ⟨Or.inr, fun h => h.elim (fun heq => heq ▸ hmem) id⟩
        simpa [hmem] using hsame
      · simp [hmem]

/-- What is kept, and why. -/
theorem mem_firstBy {a : α} : a ∈ firstBy key seen l ↔
    ∃ before after, l = before ++ a :: after ∧
      ∃ k, key a = some k ∧ k ∉ seen ∧ ∀ b ∈ before, key b ≠ some k := by
  induction l generalizing seen with
  | nil => simp [firstBy]
  | cons c rest ih =>
      have hseen : ∀ k, k ∉ (key c).toList ++ seen ↔ key c ≠ some k ∧ k ∉ seen := by
        intro k
        rw [List.mem_append, not_or, Option.mem_toList]
      rw [firstBy_cons, List.mem_append, ih]
      constructor
      · rintro (h | ⟨before, after, rfl, k, hk, hnew, hfirst⟩)
        · split at h
          · next hnew =>
            obtain rfl := List.mem_singleton.mp h
            obtain ⟨k, hk, hnot⟩ := hnew
            exact ⟨[], rest, rfl, k, hk, hnot, by simp⟩
          · cases h
        · obtain ⟨hc, hnot⟩ := (hseen k).mp hnew
          exact ⟨c :: before, after, rfl, k, hk, hnot, List.forall_mem_cons.mpr ⟨hc, hfirst⟩⟩
      · rintro ⟨before, after, hl, k, hk, hnot, hfirst⟩
        cases before with
        | nil =>
            obtain ⟨rfl, rfl⟩ := List.cons_eq_cons.mp hl
            left
            rw [if_pos ⟨k, hk, hnot⟩]
            exact List.mem_singleton_self _
        | cons b before =>
            obtain ⟨rfl, rfl⟩ := List.cons_eq_cons.mp hl
            obtain ⟨hc, hfirst⟩ := List.forall_mem_cons.mp hfirst
            exact Or.inr ⟨before, after, rfl, k, hk, (hseen k).mpr ⟨hc, hnot⟩, hfirst⟩

/-- Keys of what is kept were not seen. -/
theorem not_mem_of_mem_firstBy {a : α} {k : κ} (ha : a ∈ firstBy key seen l)
    (hk : key a = some k) : k ∉ seen := by
  obtain ⟨-, -, -, k', hk', hnot, -⟩ := mem_firstBy.mp ha
  rw [hk, Option.some.injEq] at hk'
  exact hk' ▸ hnot

theorem firstBy_distinct (seen : List κ) (l : List α) :
    (firstBy key seen l).Pairwise fun a b => key a ≠ key b := by
  induction l generalizing seen with
  | nil => exact List.Pairwise.nil
  | cons a rest ih =>
      rw [firstBy]
      split
      · exact ih seen
      · next k hk =>
        split
        · exact ih seen
        · apply List.Pairwise.cons _ (ih _)
          intro b hb heq
          exact not_mem_of_mem_firstBy hb (heq ▸ hk) List.mem_cons_self

/-- Every key that occurs and was not seen is kept. -/
theorem exists_mem_firstBy {a : α} {k : κ} (ha : a ∈ l) (hk : key a = some k) (hseen : k ∉ seen) :
    ∃ b ∈ firstBy key seen l, key b = some k := by
  have hfind : (l.find? fun b => decide (key b = some k)).isSome := by
    rw [List.find?_isSome]
    exact ⟨a, ha, by simpa using hk⟩
  obtain ⟨b, hb⟩ := Option.isSome_iff_exists.mp hfind
  obtain ⟨hkey, before, after, hl, hfirst⟩ := List.find?_eq_some_iff_append.mp hb
  have hkb : key b = some k := by simpa using hkey
  refine ⟨b, mem_firstBy.mpr ⟨before, after, hl, k, hkb, hseen, ?_⟩, hkb⟩
  intro c hc
  simpa using hfirst c hc

/-- What is kept depends on which keys of the list were seen. -/
theorem firstBy_eq_iff_seen {seen seen' : List κ} :
    firstBy key seen l = firstBy key seen' l ↔
      ∀ a ∈ l, ∀ k, key a = some k → (k ∈ seen ↔ k ∈ seen') := by
  have hnever : ∀ {seen seen' : List κ} {a k}, firstBy key seen l = firstBy key seen' l →
      a ∈ l → key a = some k → k ∈ seen → k ∈ seen' := by
    intro seen seen' a k h ha hk hmem
    by_contra hnot
    obtain ⟨b, hb, hkb⟩ := exists_mem_firstBy ha hk hnot
    rw [← h] at hb
    exact not_mem_of_mem_firstBy hb hkb hmem
  constructor
  · exact fun h a ha k hk => ⟨hnever h ha hk, hnever h.symm ha hk⟩
  · exact firstBy_congr_seen

theorem firstBy_append (seen : List κ) (l l' : List α) :
    firstBy key seen (l ++ l') =
      firstBy key seen l ++ firstBy key (l.filterMap key ++ seen) l' := by
  induction l generalizing seen with
  | nil => rfl
  | cons a rest ih =>
      rw [List.cons_append, firstBy_cons, firstBy_cons, ih, List.append_assoc]
      congr 2
      apply firstBy_congr_seen
      intro b _ k _
      rw [List.filterMap_cons]
      cases key a with
      | none => simp
      | some k' => simp [or_left_comm]

/-! ## Keeping again -/

/-- What is kept under fewer seen keys is enough. -/
theorem firstBy_firstBy {seen' : List κ} (h : ∀ k ∈ seen', k ∈ seen) :
    firstBy key seen (firstBy key seen' l) = firstBy key seen l := by
  induction l generalizing seen seen' with
  | nil => rfl
  | cons a rest ih =>
      rw [firstBy, firstBy]
      cases hk : key a with
      | none => exact ih h
      | some k =>
          by_cases hmem' : k ∈ seen'
          · simp only [if_pos hmem', if_pos (h k hmem')]
            exact ih h
          · simp only [if_neg hmem']
            rw [firstBy]
            simp only [hk]
            by_cases hmem : k ∈ seen
            · rw [if_pos hmem, if_pos hmem]
              exact ih (List.forall_mem_cons.mpr ⟨hmem, h⟩)
            · rw [if_neg hmem, if_neg hmem, ih]
              exact List.forall_mem_cons.mpr
                ⟨List.mem_cons_self, fun k' hk' => List.mem_cons_of_mem k (h k' hk')⟩

/-- No key is lost. -/
theorem mem_filterMap_firstBy {k : κ} :
    k ∈ (firstBy key seen l).filterMap key ++ seen ↔ k ∈ l.filterMap key ++ seen := by
  rw [List.mem_append, List.mem_append, List.mem_filterMap, List.mem_filterMap]
  by_cases hseen : k ∈ seen
  · exact iff_of_true (Or.inr hseen) (Or.inr hseen)
  · refine or_congr_left ⟨?_, ?_⟩
    · rintro ⟨a, ha, hk⟩
      exact ⟨a, (firstBy_sublist seen l).subset ha, hk⟩
    · rintro ⟨a, ha, hk⟩
      exact exists_mem_firstBy ha hk hseen

/-- Parts can be kept from first. -/
theorem firstBy_append_firstBy (seen : List κ) (l l' : List α) :
    firstBy key seen (firstBy key seen l ++ firstBy key seen l') =
      firstBy key seen (l ++ l') := by
  rw [firstBy_append, firstBy_append, firstBy_firstBy fun _ hk => hk]
  congr 1
  rw [firstBy_firstBy fun _ hk => List.mem_append_right _ hk]
  exact firstBy_congr_seen fun _ _ _ _ => mem_filterMap_firstBy

/-- Elements that do not pass count as elements without a key. -/
theorem firstBy_filter (passed : α → Bool) (seen : List κ) (l : List α) :
    firstBy key seen (l.filter passed) =
      firstBy (fun a => if passed a = true then key a else none) seen l := by
  induction l generalizing seen with
  | nil => rfl
  | cons a rest ih =>
      by_cases hpassed : passed a = true
      · rw [List.filter_cons_of_pos hpassed, firstBy, firstBy, if_pos hpassed]
        simp only [ih]
      · rw [List.filter_cons_of_neg hpassed, firstBy, if_neg hpassed, ih]

/-- Keeping commutes with a map that keys come from. -/
theorem firstBy_map {β : Type*} (f : β → α) (seen : List κ) (l : List β) :
    firstBy key seen (l.map f) = (firstBy (key ∘ f) seen l).map f := by
  induction l generalizing seen with
  | nil => rfl
  | cons b rest ih =>
      rw [List.map_cons, firstBy, firstBy, Function.comp_apply]
      cases key (f b) with
      | none => exact ih seen
      | some k =>
          simp only
          split
          · exact ih seen
          · rw [List.map_cons, ih]

/-! ## Lists without repetitions -/

/-- An element occurs at one place. -/
theorem before_unique (hnodup : l.Nodup) {before before' after after' : List α} {a : α}
    (hl : l = before ++ a :: after) (hl' : l = before' ++ a :: after') : before' = before := by
  have hnot : a ∉ before ∧ a ∉ after := by
    rw [hl, List.nodup_middle, List.nodup_cons, List.mem_append, not_or] at hnodup
    exact hnodup.1
  rw [hl] at hl'
  exact ((List.append_cons_inj_of_notMem hnot.1 hnot.2).mp hl').1.symm

/-- An element is kept if it is new at its place. -/
theorem mem_firstBy_iff_isNew (hnodup : l.Nodup) {before after : List α} {a : α}
    (hl : l = before ++ a :: after) : a ∈ firstBy key [] l ↔ IsNew key before a := by
  rw [mem_firstBy]
  constructor
  · rintro ⟨before', after', hl', k, hk, -, hfirst⟩
    exact ⟨k, hk, before_unique hnodup hl hl' ▸ hfirst⟩
  · rintro ⟨k, hk, hfirst⟩
    exact ⟨before, after, hl, k, hk, by simp, hfirst⟩

/-- Two selections with the same elements are equal. -/
theorem eq_of_sublist (hnodup : l.Nodup) {s t : List α} (hs : s.Sublist l) (ht : t.Sublist l)
    (h : ∀ a, a ∈ s ↔ a ∈ t) : s = t := by
  apply (List.Nodup.perm_iff_eq_of_sublist hnodup hs ht).mp
  exact (List.perm_ext_iff_of_nodup (hs.nodup hnodup) (ht.nodup hnodup)).mpr h

/-- Two keys keep the same elements if and only if the same elements are new. -/
theorem firstBy_eq_iff (hnodup : l.Nodup) {key key' : α → Option κ} :
    firstBy key [] l = firstBy key' [] l ↔
      ∀ before a after, l = before ++ a :: after → (IsNew key before a ↔ IsNew key' before a) := by
  constructor
  · intro h before a after hl
    rw [← mem_firstBy_iff_isNew hnodup hl, ← mem_firstBy_iff_isNew hnodup hl, h]
  · intro h
    apply eq_of_sublist hnodup (firstBy_sublist [] l) (firstBy_sublist [] l)
    intro a
    by_cases ha : a ∈ l
    · obtain ⟨before, after, hl⟩ := List.append_of_mem ha
      rw [mem_firstBy_iff_isNew hnodup hl, mem_firstBy_iff_isNew hnodup hl]
      exact h before a after hl
    · exact iff_of_false (fun hmem => ha ((firstBy_sublist [] l).subset hmem))
        fun hmem => ha ((firstBy_sublist [] l).subset hmem)

/-- Elements that are not kept anyway can be left out. -/
theorem firstBy_filter_of_kept {p : α → Bool}
    (hkept : ∀ a ∈ firstBy key seen l, p a = true) :
    firstBy key seen (l.filter p) = firstBy key seen l := by
  induction l generalizing seen with
  | nil => rfl
  | cons a rest ih =>
      rw [firstBy] at hkept ⊢
      cases hpa : p a with
      | true =>
          rw [List.filter_cons_of_pos hpa, firstBy]
          cases hk : key a with
          | none =>
              simp only [hk] at hkept ⊢
              exact ih hkept
          | some k =>
              simp only [hk] at hkept ⊢
              by_cases hmem : k ∈ seen
              · rw [if_pos hmem] at hkept
                rw [if_pos hmem, if_pos hmem, ih hkept]
              · rw [if_neg hmem, List.forall_mem_cons] at hkept
                rw [if_neg hmem, if_neg hmem, ih hkept.2]
      | false =>
          rw [List.filter_cons_of_neg (by simp [hpa])]
          cases hk : key a with
          | none =>
              simp only [hk] at hkept ⊢
              exact ih hkept
          | some k =>
              simp only [hk] at hkept ⊢
              by_cases hmem : k ∈ seen
              · rw [if_pos hmem] at hkept ⊢
                exact ih hkept
              · rw [if_neg hmem, List.forall_mem_cons, hpa] at hkept
                exact absurd hkept.1 Bool.false_ne_true

/-- Two filters leave the same elements if and only if they agree on each one that
is new among the elements that pass either. -/
theorem firstBy_filter_eq_iff {p q : α → Bool} :
    firstBy key [] (l.filter p) = firstBy key [] (l.filter q) ↔
      ∀ before a after, l.filter (fun a => p a || q a) = before ++ a :: after →
        IsNew key before a → p a = q a := by
  have hsub : ∀ {r : α → Bool}, (∀ a, r a = true → (p a || q a) = true) →
      (l.filter fun a => p a || q a).filter r = l.filter r := by
    intro r hr
    rw [List.filter_filter]
    apply List.filter_congr
    intro a _
    cases hra : r a with
    | true => rw [hr a hra]; rfl
    | false => rfl
  have hp : (l.filter fun a => p a || q a).filter p = l.filter p :=
    hsub fun a ha => by simp [ha]
  have hq : (l.filter fun a => p a || q a).filter q = l.filter q :=
    hsub fun a ha => by simp [ha]
  rw [← hp, ← hq]
  constructor
  · intro hsame before a after hsplit ⟨k, hk, hfirst⟩
    have hkeeps : ∀ {r : α → Bool}, r a = true →
        a ∈ firstBy key [] ((l.filter fun a => p a || q a).filter r) := by
      intro r hra
      rw [hsplit, List.filter_append, List.filter_cons_of_pos hra]
      refine mem_firstBy.mpr ⟨_, _, rfl, k, hk, by simp, ?_⟩
      exact fun b hb => hfirst b (List.mem_of_mem_filter hb)
    have hpasses : ∀ {r : α → Bool} {m : List α}, a ∈ firstBy key [] (m.filter r) → r a = true :=
      fun hmem => (List.mem_filter.mp ((firstBy_sublist [] _).subset hmem)).2
    rw [Bool.eq_iff_iff]
    constructor
    · exact fun hpa => hpasses (hsame ▸ hkeeps hpa)
    · exact fun hqa => hpasses (hsame ▸ hkeeps hqa)
  · intro hsame
    have hboth : ∀ a ∈ firstBy key [] (l.filter fun a => p a || q a), p a = true ∧ q a = true := by
      intro a ha
      obtain ⟨before, after, hsplit, k, hk, -, hfirst⟩ := mem_firstBy.mp ha
      have hpq := hsame before a after hsplit ⟨k, hk, hfirst⟩
      have hor := (List.mem_filter.mp ((firstBy_sublist [] _).subset ha)).2
      rw [hpq, Bool.or_self] at hor
      exact ⟨hpq.trans hor, hor⟩
    rw [firstBy_filter_of_kept fun a ha => (hboth a ha).1,
      firstBy_filter_of_kept fun a ha => (hboth a ha).2]

section Deduplicates

variable {passed : α → Bool} {lines out : List α}

/-- Where an element is among those that passed. -/
theorem filter_split {before after : List α} {a : α} (hl : lines = before ++ a :: after)
    (ha : passed a = true) :
    lines.filter passed = before.filter passed ++ a :: after.filter passed := by
  rw [hl, List.filter_append, List.filter_cons_of_pos ha]

theorem Deduplicates.mem_iff (h : Deduplicates key passed lines out) (hnodup : lines.Nodup)
    (a : α) : a ∈ out ↔ a ∈ firstBy key [] (lines.filter passed) := by
  constructor
  · intro ha
    obtain ⟨hpassed, hsome⟩ := h.keyed a ha
    obtain ⟨k, hk⟩ := Option.isSome_iff_exists.mp hsome
    obtain ⟨before, after, hl⟩ := List.append_of_mem (h.sublist.subset ha)
    refine mem_firstBy.mpr ⟨_, _, filter_split hl hpassed, k, hk, by simp, ?_⟩
    intro b hb hkb
    obtain ⟨hb, hpassedb⟩ := List.mem_filter.mp hb
    obtain ⟨first, second, hbefore⟩ := List.append_of_mem hb
    have hsplit : lines = first ++ b :: (second ++ a :: after) := by
      rw [hl, hbefore, List.append_assoc, List.cons_append]
    have hkept : ∃ c ∈ before, c ∈ out ∧ key c = some k := by
      cases h.covered first b _ k hsplit hpassedb hkb with
      | inl hout => exact ⟨b, hb, hout, hkb⟩
      | inr hearlier =>
          obtain ⟨c, hc, hout, hkc⟩ := hearlier
          exact ⟨c, by rw [hbefore]; exact List.mem_append_left _ hc, hout, hkc⟩
    obtain ⟨c, hc, hout, hkc⟩ := hkept
    have hne : a ≠ c := by
      rintro rfl
      rw [hl, List.nodup_middle, List.nodup_cons, List.mem_append, not_or] at hnodup
      exact hnodup.1.1 hc
    have hsymm : Std.Symm fun a b => key a ≠ key b := ⟨fun _ _ hkeys => hkeys.symm⟩
    apply h.distinct.forall ha hout hne
    rw [hk, hkc]
  · intro ha
    have hmem := List.mem_filter.mp ((firstBy_sublist [] _).subset ha)
    obtain ⟨before', after', hl', k, hk, -, hfirst⟩ := mem_firstBy.mp ha
    obtain ⟨before, after, hl⟩ := List.append_of_mem hmem.1
    have hbefore := before_unique (hnodup.filter _) (filter_split hl hmem.2) hl'
    cases h.covered before a after k hl hmem.2 hk with
    | inl hout => exact hout
    | inr hearlier =>
        obtain ⟨b, hb, hout, hkb⟩ := hearlier
        have hin : b ∈ before' := by
          rw [hbefore]
          exact List.mem_filter.mpr ⟨hb, (h.keyed b hout).1⟩
        exact absurd hkb (hfirst b hin)

/-- Keeping the first of each key is the only way to deduplicate. -/
theorem deduplicates_iff (hnodup : lines.Nodup) :
    Deduplicates key passed lines out ↔ out = firstBy key [] (lines.filter passed) := by
  have hsublist : (firstBy key [] (lines.filter passed)).Sublist lines :=
    (firstBy_sublist [] _).trans List.filter_sublist
  constructor
  · intro h
    exact eq_of_sublist hnodup h.sublist hsublist (h.mem_iff hnodup)
  · rintro rfl
    refine ⟨hsublist, ?_, firstBy_distinct [] _, ?_⟩
    · intro a ha
      obtain ⟨-, -, -, k, hk, -⟩ := mem_firstBy.mp ha
      exact ⟨(List.mem_filter.mp ((firstBy_sublist [] _).subset ha)).2, by rw [hk]; rfl⟩
    · intro before a after k hl hpassed hk
      rw [filter_split hl hpassed, firstBy_append, List.append_nil]
      by_cases hmem : k ∈ (before.filter passed).filterMap key
      · right
        obtain ⟨b, hb, hkb⟩ := List.mem_filterMap.mp hmem
        obtain ⟨c, hc, hkc⟩ := exists_mem_firstBy hb hkb List.not_mem_nil
        refine ⟨c, ?_, List.mem_append_left _ hc, hkc⟩
        exact (List.mem_filter.mp ((firstBy_sublist [] _).subset hc)).1
      · left
        apply List.mem_append_right
        exact mem_firstBy.mpr ⟨[], _, rfl, k, hk, hmem, by simp⟩

end Deduplicates

end FirstBy
