import CodingLearners.Library.UriComponent

/-!
# `toWellFormed`

What a string becomes on its way through UTF-8: every lone surrogate is replaced
by U+FFFD.
-/

namespace Js

/-- U+FFFD -/
def replacement : UInt16 := 0xFFFD

def toWellFormed : JsString → JsString
  | [] => []
  | u :: rest =>
      if isTrail u then replacement :: toWellFormed rest
      else if isLead u then
        match rest with
        | [] => [replacement]
        | v :: rest =>
            if isTrail v then u :: v :: toWellFormed rest
            else replacement :: toWellFormed (v :: rest)
      else u :: toWellFormed rest

theorem toWellFormed_unit {u : UInt16} (hlead : isLead u = false) (htrail : isTrail u = false)
    (rest : JsString) : toWellFormed (u :: rest) = u :: toWellFormed rest := by
  cases rest <;> simp [toWellFormed, hlead, htrail]

theorem toWellFormed_trail {u : UInt16} (htrail : isTrail u = true) (rest : JsString) :
    toWellFormed (u :: rest) = replacement :: toWellFormed rest := by
  cases rest <;> simp [toWellFormed, htrail]

theorem toWellFormed_pair {u v : UInt16} (htrail : isTrail u = false) (hlead : isLead u = true)
    (hv : isTrail v = true) (rest : JsString) :
    toWellFormed (u :: v :: rest) = u :: v :: toWellFormed rest := by
  simp [toWellFormed, htrail, hlead, hv]

/-- A lead surrogate with no trail surrogate behind it. -/
theorem toWellFormed_lead {u : UInt16} {rest : JsString} (htrail : isTrail u = false)
    (hlead : isLead u = true) (hrest : ∀ v ∈ rest.head?, isTrail v = false) :
    toWellFormed (u :: rest) = replacement :: toWellFormed rest := by
  cases rest with
  | nil => simp [toWellFormed, htrail, hlead]
  | cons v rest => simp [toWellFormed, htrail, hlead, hrest v rfl]

theorem length_toWellFormed (s : JsString) : (toWellFormed s).length = s.length := by
  fun_induction toWellFormed s <;> simp_all

theorem ne_replacement {u : UInt16} (h : isLead u = true ∨ isTrail u = true) :
    u ≠ replacement := by
  rintro rfl
  revert h
  decide

/-- Nothing is replaced exactly in a string without lone surrogates. -/
theorem toWellFormed_eq_self_iff {s : JsString} : toWellFormed s = s ↔ isWellFormed s = true := by
  fun_induction toWellFormed s with
  | case1 => simp [isWellFormed, codePoints]
  | case2 u rest htrail ih =>
      have hcode : codePoints (u :: rest) = none := by cases rest <;> simp [codePoints, htrail]
      simp [isWellFormed, hcode, (ne_replacement (.inr htrail)).symm]
  | case3 u htrail hlead =>
      have hcode : codePoints [u] = none := by simp [codePoints, hlead]
      simp [isWellFormed, hcode, (ne_replacement (.inl hlead)).symm]
  | case4 u htrail hlead v rest hv ih =>
      simp [isWellFormed, codePoints_pair hlead hv, ih]
  | case5 u htrail hlead v rest hv ih =>
      have hcode : codePoints (u :: v :: rest) = none := by simp [codePoints, hlead, hv]
      simp [isWellFormed, hcode, (ne_replacement (.inl hlead)).symm]
  | case6 u rest htrail hlead ih =>
      rw [Bool.not_eq_true] at htrail hlead
      simp [isWellFormed, codePoints_unit htrail hlead, ih]

/-- A surrogate is not joined with a unit that is none. -/
theorem toWellFormed_append {s t : JsString} (ht : ∀ u ∈ t.head?, isTrail u = false) :
    toWellFormed (s ++ t) = toWellFormed s ++ toWellFormed t := by
  fun_induction toWellFormed s with
  | case1 => rfl
  | case2 u rest htrail ih => simp [toWellFormed_trail htrail, ih]
  | case3 u htrail hlead =>
      rw [Bool.not_eq_true] at htrail
      simp [toWellFormed_lead htrail hlead ht]
  | case4 u htrail hlead v rest hv ih =>
      rw [Bool.not_eq_true] at htrail
      simp [toWellFormed_pair htrail hlead hv, ih]
  | case5 u htrail hlead v rest hv ih =>
      rw [Bool.not_eq_true] at htrail hv
      rw [List.cons_append, toWellFormed_lead htrail hlead (by simpa using hv), ih]
      rfl
  | case6 u rest htrail hlead ih =>
      rw [Bool.not_eq_true] at htrail hlead
      simp [toWellFormed_unit hlead htrail, ih]

/-- A text with a lone surrogate keeps it in front of a unit that is no trail. -/
theorem isWellFormed_append_iff {s t : JsString} (ht : ∀ u ∈ t.head?, isTrail u = false) :
    isWellFormed (s ++ t) = true ↔ isWellFormed s = true ∧ isWellFormed t = true := by
  simp only [← toWellFormed_eq_self_iff, toWellFormed_append ht]
  constructor
  · exact fun h => List.append_inj h (length_toWellFormed s)
  · rintro ⟨hs, ht⟩
    rw [hs, ht]

/-- What stands behind units that are no surrogates is replaced on its own. -/
theorem toWellFormed_append_of_forall {s : JsString}
    (hs : ∀ u ∈ s, isLead u = false ∧ isTrail u = false) (t : JsString) :
    toWellFormed (s ++ t) = s ++ toWellFormed t := by
  induction s with
  | nil => rfl
  | cons u s ih =>
      rw [List.forall_mem_cons] at hs
      rw [List.cons_append, toWellFormed_unit hs.1.1 hs.1.2, ih hs.2, List.cons_append]

/-- Units that are no surrogates stay where they are. -/
theorem mem_toWellFormed_iff {u : UInt16} {s : JsString} (hlead : isLead u = false)
    (htrail : isTrail u = false) (hu : u ≠ replacement) : u ∈ toWellFormed s ↔ u ∈ s := by
  have hlead' : ∀ {v : UInt16}, isLead v = true → u ≠ v := fun hv h => by simp [← h, hlead] at hv
  have htrail' : ∀ {v : UInt16}, isTrail v = true → u ≠ v := fun hv h => by
    simp [← h, htrail] at hv
  fun_induction toWellFormed s with
  | case1 => rfl
  | case2 v rest hv ih => simp [hu, htrail' hv, ih]
  | case3 v _ hv => simp [hu, hlead' hv]
  | case4 v _ hv w rest hw ih => simp [ih]
  | case5 v _ hv w rest hw ih =>
      have hrest : u ∈ toWellFormed (w :: rest) ↔ u ∈ w :: rest := ih
      rw [List.mem_cons, hrest]
      constructor
      · rintro (h | h)
        · exact absurd h hu
        · exact List.mem_cons_of_mem v h
      · exact fun h => .inr (List.mem_of_ne_of_mem (hlead' hv) h)
  | case6 v rest _ _ ih => simp [ih]

end Js
