import Mathlib.Data.List.TakeWhile

/-!
# Patterns of single symbols and greedy runs

A pattern is a sequence of symbol classes and of captured runs of a class. A
backtracking matcher tries the longest run first and takes the first place of a
text where the pattern matches.
-/

namespace GreedyPattern

variable {α : Type*}

/-- One symbol of a class, or a run of at least one of them, which is captured. -/
inductive Part (α : Type*)
  | one (accepts : α → Bool)
  | run (accepts : α → Bool)

/-- The parts that spell out a text. -/
def literal [BEq α] (text : List α) : List (Part α) := text.map fun c => .one (· == c)

/-- The captured runs of the first way to match at the start of the text. -/
def matchHere : List (Part α) → List α → Option (List (List α))
  | [], _ => some []
  | .one accepts :: parts, text =>
      match text with
      | [] => none
      | c :: rest => if accepts c = true then matchHere parts rest else none
  | .run accepts :: parts, text =>
      (List.range (text.takeWhile accepts).length).reverse.findSome? fun k =>
        (matchHere parts (text.drop (k + 1))).map (text.take (k + 1) :: ·)

/-- The captured runs at the first place where the pattern matches. -/
def find (parts : List (Part α)) : List α → Option (List (List α))
  | [] => matchHere parts []
  | c :: rest =>
      match matchHere parts (c :: rest) with
      | some groups => some groups
      | none => find parts rest

/-- The text is made of these runs and of single symbols as the pattern says. -/
inductive Spells : List (Part α) → List α → List (List α) → Prop
  | nil : Spells [] [] []
  | one {accepts parts c text groups} (haccepts : accepts c = true)
      (hrest : Spells parts text groups) : Spells (.one accepts :: parts) (c :: text) groups
  | run {accepts parts group text groups} (hgroup : group ≠ [])
      (haccepts : ∀ c ∈ group, accepts c = true) (hrest : Spells parts text groups) :
      Spells (.run accepts :: parts) (group ++ text) (group :: groups)

/-- A match spells out a first part of the text. -/
theorem matchHere_spells {parts : List (Part α)} {text : List α} {groups : List (List α)}
    (h : matchHere parts text = some groups) :
    ∃ matched rest, text = matched ++ rest ∧ Spells parts matched groups := by
  induction parts generalizing text groups with
  | nil =>
      obtain rfl := Option.some.inj h
      exact ⟨[], text, rfl, .nil⟩
  | cons part parts ih =>
      cases part with
      | one accepts =>
          cases text with
          | nil => cases h
          | cons c text =>
              simp only [matchHere] at h
              split at h
              · next haccepts =>
                obtain ⟨matched, rest, rfl, hspells⟩ := ih h
                exact ⟨c :: matched, rest, rfl, .one haccepts hspells⟩
              · cases h
      | run accepts =>
          obtain ⟨k, hk, hmatch⟩ := List.exists_of_findSome?_eq_some h
          obtain ⟨groups', hrest, rfl⟩ := Option.map_eq_some_iff.mp hmatch
          obtain ⟨matched, rest, hdrop, hspells⟩ := ih hrest
          have hlen : k < (text.takeWhile accepts).length := by simpa using hk
          have hrun : text.take (k + 1) = (text.takeWhile accepts).take (k + 1) := by
            obtain ⟨tail, htail⟩ := List.takeWhile_prefix (p := accepts) (l := text)
            calc text.take (k + 1)
                = (text.takeWhile accepts ++ tail).take (k + 1) := by rw [htail]
              _ = (text.takeWhile accepts).take (k + 1) := List.take_append_of_le_length hlen
          refine ⟨text.take (k + 1) ++ matched, rest, ?_, .run ?_ ?_ hspells⟩
          · rw [List.append_assoc, ← hdrop, List.take_append_drop]
          · rw [hrun]
            apply List.ne_nil_of_length_pos
            rw [List.length_take]
            omega
          · intro c hc
            rw [hrun] at hc
            exact List.mem_takeWhile_imp (List.mem_of_mem_take hc)

/-- What is found is spelled out somewhere in the text. -/
theorem find_spells {parts : List (Part α)} {text : List α} {groups : List (List α)}
    (h : find parts text = some groups) :
    ∃ before matched rest, text = before ++ (matched ++ rest) ∧ Spells parts matched groups := by
  induction text with
  | nil =>
      obtain ⟨matched, rest, htext, hspells⟩ := matchHere_spells h
      exact ⟨[], matched, rest, htext, hspells⟩
  | cons c text ih =>
      rw [find] at h
      split at h
      · next groups' hhere =>
        obtain rfl := Option.some.inj h
        obtain ⟨matched, rest, htext, hspells⟩ := matchHere_spells hhere
        exact ⟨[], matched, rest, htext, hspells⟩
      · obtain ⟨before, matched, rest, htext, hspells⟩ := ih h
        exact ⟨c :: before, matched, rest, by rw [htext, List.cons_append], hspells⟩

/-- Backtracking comes to every first part that the pattern spells out. -/
theorem matchHere_isSome {parts : List (Part α)} {matched : List α} {groups : List (List α)}
    (h : Spells parts matched groups) (rest : List α) :
    (matchHere parts (matched ++ rest)).isSome = true := by
  induction h with
  | nil => rfl
  | one haccepts _ ih => simpa [matchHere, haccepts] using ih
  | @run accepts parts group text groups hgroup haccepts _ ih =>
      have hlen : 0 < group.length := List.length_pos_iff.mpr hgroup
      have hpos : group.length - 1 + 1 = group.length := Nat.sub_add_cancel hlen
      have hrun : (group ++ text ++ rest).takeWhile accepts =
          group ++ (text ++ rest).takeWhile accepts := by
        rw [List.append_assoc, List.takeWhile_append_of_pos haccepts]
      rw [matchHere, List.findSome?_isSome_iff]
      refine ⟨group.length - 1, ?_, ?_⟩
      · rw [hrun, List.mem_reverse, List.mem_range, List.length_append]
        omega
      · rw [hpos, List.append_assoc, List.drop_left, Option.isSome_map]
        exact ih

/-- The pattern is found exactly where some part of the text is spelled out by it. -/
theorem find_isSome_iff {parts : List (Part α)} {text : List α} :
    (find parts text).isSome = true ↔
      ∃ before matched rest groups,
        text = before ++ (matched ++ rest) ∧ Spells parts matched groups := by
  constructor
  · intro h
    obtain ⟨groups, hfind⟩ := Option.isSome_iff_exists.mp h
    obtain ⟨before, matched, rest, htext, hspells⟩ := find_spells hfind
    exact ⟨before, matched, rest, groups, htext, hspells⟩
  · rintro ⟨before, matched, rest, groups, rfl, hspells⟩
    have hhere := matchHere_isSome hspells rest
    induction before with
    | nil =>
        rw [List.nil_append]
        cases htext : matched ++ rest with
        | nil => rwa [find, ← htext]
        | cons c text =>
            obtain ⟨first, hfirst⟩ := Option.isSome_iff_exists.mp hhere
            rw [htext] at hfirst
            simp [find, hfirst]
    | cons c before ih =>
        rw [List.cons_append, find]
        split
        · rfl
        · exact ih

section Literal

variable [BEq α] [LawfulBEq α]

theorem spells_literal_append_iff {literalText text : List α} {parts : List (Part α)}
    {groups : List (List α)} :
    Spells (literal literalText ++ parts) text groups ↔
      ∃ rest, text = literalText ++ rest ∧ Spells parts rest groups := by
  induction literalText generalizing text with
  | nil => simp [literal]
  | cons c literalText ih =>
      constructor
      · intro h
        cases h with
        | one haccepts hrest =>
            obtain rfl := eq_of_beq haccepts
            obtain ⟨rest, rfl, hspells⟩ := ih.mp hrest
            exact ⟨rest, rfl, hspells⟩
      · rintro ⟨rest, rfl, hspells⟩
        exact .one (beq_self_eq_true c) (ih.mpr ⟨rest, rfl, hspells⟩)

theorem spells_literal_iff {literalText text : List α} {groups : List (List α)} :
    Spells (literal literalText) text groups ↔ text = literalText ∧ groups = [] := by
  rw [← List.append_nil (literal literalText), spells_literal_append_iff]
  constructor
  · rintro ⟨rest, rfl, hspells⟩
    cases hspells
    simp
  · rintro ⟨rfl, rfl⟩
    exact ⟨[], by simp, .nil⟩

end Literal

theorem spells_run_iff {accepts : α → Bool} {parts : List (Part α)} {text : List α}
    {groups : List (List α)} :
    Spells (.run accepts :: parts) text groups ↔
      ∃ group rest groups', text = group ++ rest ∧ groups = group :: groups' ∧ group ≠ [] ∧
        (∀ c ∈ group, accepts c = true) ∧ Spells parts rest groups' := by
  constructor
  · intro h
    cases h with
    | run hgroup haccepts hrest => exact ⟨_, _, _, rfl, rfl, hgroup, haccepts, hrest⟩
  · rintro ⟨group, rest, groups', rfl, rfl, hgroup, haccepts, hspells⟩
    exact .run hgroup haccepts hspells

/-! ## A run between two symbols -/

section Between

variable {opening inside closing : α → Bool} {tail : List α}

theorem matchHere_one_append (hclosing : ∀ c ∈ tail, closing c = false) (text : List α) :
    matchHere [.one closing] (text ++ tail) = matchHere [.one closing] text := by
  cases text with
  | cons c rest => rfl
  | nil =>
      cases tail with
      | nil => rfl
      | cons c tail =>
          simp [matchHere, hclosing c List.mem_cons_self]

/-- Places at the end that do not count can be left out of a search from the end. -/
theorem findSome?_range_reverse {β : Type*} {f : Nat → Option β} {n n' : Nat} (hle : n ≤ n')
    (hnone : ∀ k, n ≤ k → f k = none) :
    (List.range n').reverse.findSome? f = (List.range n).reverse.findSome? f := by
  induction n', hle using Nat.le_induction with
  | base => rfl
  | succ m hle ih =>
      rw [List.range_succ, List.reverse_append, List.reverse_singleton, List.singleton_append,
        List.findSome?_cons, hnone m hle]
      exact ih

theorem matchHere_run_append (hclosing : ∀ c ∈ tail, closing c = false) (text : List α) :
    matchHere [.run inside, .one closing] (text ++ tail) =
      matchHere [.run inside, .one closing] text := by
  have hsame : ∀ k, ((matchHere [.one closing] ((text ++ tail).drop (k + 1))).map
      ((text ++ tail).take (k + 1) :: ·)) =
      (matchHere [.one closing] (text.drop (k + 1))).map (text.take (k + 1) :: ·) := by
    intro k
    by_cases hk : k + 1 ≤ text.length
    · rw [List.drop_append_of_le_length hk, List.take_append_of_le_length hk,
        matchHere_one_append hclosing]
    · have hdrop : (text ++ tail).drop (k + 1) = [] ++ tail.drop (k + 1 - text.length) := by
        rw [List.drop_append, List.drop_of_length_le (by omega)]
      have hrest : ∀ c ∈ tail.drop (k + 1 - text.length), closing c = false := fun c hc =>
        hclosing c (List.mem_of_mem_drop hc)
      rw [hdrop, matchHere_one_append hrest, List.drop_of_length_le (by omega)]
      rfl
  rw [matchHere, matchHere]
  simp only [hsame]
  rw [List.takeWhile_append]
  split
  · rename_i hwhole
    apply findSome?_range_reverse
    · rw [hwhole, List.length_append]
      exact Nat.le_add_right _ _
    · intro k hk
      rw [List.drop_of_length_le (by omega)]
      rfl
  · rfl

/-- What follows is ignored if the two symbols do not occur in it. -/
theorem find_append (hopening : ∀ c ∈ tail, opening c = false)
    (hclosing : ∀ c ∈ tail, closing c = false) (text : List α) :
    find [.one opening, .run inside, .one closing] (text ++ tail) =
      find [.one opening, .run inside, .one closing] text := by
  induction text with
  | nil =>
      rw [List.nil_append]
      induction tail with
      | nil => rfl
      | cons c tail ih =>
          have hhere : matchHere [.one opening, .run inside, .one closing] (c :: tail) = none := by
            simp [matchHere, hopening c List.mem_cons_self]
          have hskip : find [.one opening, .run inside, .one closing] (c :: tail) =
              find [.one opening, .run inside, .one closing] tail := by
            rw [find, hhere]
          rw [hskip]
          exact ih (fun c hc => hopening c (List.mem_cons_of_mem _ hc))
            fun c hc => hclosing c (List.mem_cons_of_mem _ hc)
  | cons c rest ih =>
      rw [List.cons_append, find, find, matchHere, matchHere, matchHere_run_append hclosing, ih]

end Between

/-! ## Parts of a text -/

section Parts

variable {a b : α} {s t r w : List α}

theorem exists_append_of_notMem (hs : a ∉ s) (h : t ++ a :: r = s ++ w) :
    ∃ z, t = s ++ z ∧ z ++ a :: r = w := by
  rcases List.append_eq_append_iff.mp h with ⟨z, hz, hrest⟩ | ⟨z, hz, hrest⟩
  · cases z with
    | nil => exact ⟨[], by simpa using hz.symm, by simpa using hrest⟩
    | cons c z =>
        obtain ⟨rfl, -⟩ := List.cons.inj hrest
        exact absurd (by simp [hz]) hs
  · exact ⟨z, hz, hrest.symm⟩

theorem infix_of_append_eq (h : t ++ a :: b :: r = s ++ w) (hle : w.length ≤ r.length) :
    [a, b] <:+: s := by
  rcases List.append_eq_append_iff.mp h with ⟨z, hz, hrest⟩ | ⟨z, hz, hrest⟩
  · cases z with
    | nil =>
        have hlen := congrArg List.length hrest
        simp at hlen
        omega
    | cons c z =>
        cases z with
        | nil =>
            have hlen := congrArg List.length hrest
            simp at hlen
            omega
        | cons d z =>
            simp only [List.cons_append, List.cons.injEq] at hrest
            exact ⟨t, z, by simp [hz, ← hrest.1, ← hrest.2.1]⟩
  · have hlen := congrArg List.length hrest
    simp at hlen
    omega

variable {p : α → Bool}

/-- A run that is followed by two symbols ends with the text or before the two symbols. -/
theorem run_cases (hab : a ≠ b) (ha : p a = true) (hb : p b = true) (ht : ∀ c ∈ t, p c = true)
    (h : t ++ a :: b :: r = s ++ [a, b]) :
    (∀ c ∈ s, p c = true) ∨ [a, b] <:+: s.takeWhile p := by
  rcases List.append_eq_append_iff.mp h with ⟨z, hz, hrest⟩ | ⟨z, hz, hrest⟩
  · rcases z with _ | ⟨c, _ | ⟨d, z⟩⟩
    · rw [hz, List.append_nil]
      exact .inl ht
    · simp only [List.cons_append, List.nil_append, List.cons.injEq] at hrest
      exact absurd hrest.2.1.symm hab
    · right
      simp only [List.cons_append, List.cons.injEq] at hrest
      rw [hz, List.takeWhile_append_of_pos ht, ← hrest.1, ← hrest.2.1]
      exact ⟨t, z.takeWhile p, by simp [ha, hb]⟩
  · left
    intro c hc
    apply ht
    rw [hz]
    exact List.mem_append_left _ hc

theorem exists_run (hfirst : s.head? ≠ some a) (h : [a, b] <:+: s.takeWhile p) :
    ∃ run rest, run ≠ [] ∧ (∀ c ∈ run, p c = true) ∧ run ++ a :: b :: rest = s ++ [a, b] := by
  obtain ⟨run, tail, heq⟩ := h
  have hwhole : run ++ a :: b :: (tail ++ s.dropWhile p) = s := by
    calc run ++ a :: b :: (tail ++ s.dropWhile p)
        = (run ++ [a, b] ++ tail) ++ s.dropWhile p := by simp
      _ = s := by rw [heq, List.takeWhile_append_dropWhile]
  refine ⟨run, tail ++ s.dropWhile p ++ [a, b], ?_, ?_, ?_⟩
  · rintro rfl
    apply hfirst
    rw [← hwhole]
    rfl
  · intro c hc
    have hmem : c ∈ s.takeWhile p := by
      rw [← heq]
      simp [hc]
    exact List.mem_takeWhile_imp hmem
  · calc run ++ a :: b :: (tail ++ s.dropWhile p ++ [a, b])
        = (run ++ a :: b :: (tail ++ s.dropWhile p)) ++ [a, b] := by simp
      _ = s ++ [a, b] := by rw [hwhole]

end Parts

end GreedyPattern
