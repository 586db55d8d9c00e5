import CodingLearners.Library.ShellPattern
import Mathlib.Data.List.Induction

/-!
# Loops over the pieces of a text

Two shell loops take the pieces between separators off a text by suffix and
prefix cuts, one from the left and one from the right. Neither looks for the
separator: each compares what is left with the piece it has just taken. They
visit all pieces all the same, as long as it makes no difference to visit a
piece twice.
-/

namespace SeparatedText

open ShellPattern ShellPattern.Item

/-- A variable that every item of a kind overwrites keeps what the last one says. -/
theorem foldl_last {β γ σ : Type*} (body : σ → β → σ) (get : σ → γ) (q : β → Bool) (f : β → γ)
    (hbody : ∀ state item, get (body state item) = if q item then f item else get state)
    (items : List β) (state : σ) :
    get (items.foldl body state) = ((items.reverse.find? q).map f).getD (get state) := by
  induction items using List.reverseRecOn with
  | nil => rfl
  | append_singleton items item ih =>
      rw [List.foldl_append, List.reverse_append, List.reverse_singleton,
        List.singleton_append, List.foldl_cons, List.foldl_nil, hbody, ih]
      cases hq : q item with
      | true => simp [hq]
      | false => simp [hq]

/-- What is in no item and no separator is not between them either. -/
theorem not_mem_intercalate {α : Type*} {a sep : α} (hsep : a ≠ sep) {items : List (List α)}
    (hitems : ∀ item ∈ items, a ∉ item) : a ∉ [sep].intercalate items := by
  induction items with
  | nil => simp
  | cons item items ih =>
      have hitem := hitems item (List.mem_cons_self ..)
      have hrest := ih fun item' hmem => hitems item' (List.mem_cons_of_mem _ hmem)
      cases items with
      | nil => simpa using hitem
      | cons next items =>
          rw [List.intercalate_cons_cons]
          simp [hitem, hsep, hrest]

/-- A piece between separators has no separator. -/
theorem not_mem_of_mem_splitOn {α : Type*} [BEq α] [LawfulBEq α] {sep : α} {text piece : List α}
    (hpiece : piece ∈ text.splitOn sep) : sep ∉ piece := by
  induction text generalizing piece with
  | nil =>
      obtain rfl := List.mem_singleton.mp hpiece
      exact List.not_mem_nil
  | cons a rest ih =>
      obtain ⟨head, tail, hsplit⟩ := List.exists_cons_of_ne_nil (List.splitOn_ne_nil sep rest)
      rw [hsplit] at ih
      rw [List.splitOn_cons_eq_if_modifyHead, hsplit] at hpiece
      split at hpiece
      · rcases List.mem_cons.mp hpiece with rfl | hpiece
        · exact List.not_mem_nil
        · exact ih hpiece
      · next hne =>
        rcases List.mem_cons.mp hpiece with rfl | hpiece
        · rw [List.mem_cons, not_or]
          exact ⟨fun heq => hne (beq_iff_eq.mpr heq.symm), ih List.mem_cons_self⟩
        · exact ih (List.mem_cons_of_mem _ hpiece)

variable {α σ : Type*} [DecidableEq α]

/-- `while [ "a$text" != "a" ]; do piece=${text%%sep*}; body; text=${text#*sep};
if [ "$text" == "$piece" ]; then text=""; fi; done`; `fuel` bounds the turns. -/
def eatFirst (sep : α) (body : σ → List α → σ) : Nat → σ → List α → Option σ
  | fuel, state, text =>
      if text = [] then some state
      else
        match fuel with
        | 0 => none
        | fuel + 1 =>
            let piece := cutLongestSuffix [lit sep, many] text
            let state := body state piece
            let text := cutShortestPrefix [many, lit sep] text
            eatFirst sep body fuel state (if text = piece then [] else text)

/-- `while true; do piece=${text##*sep}; body; text=${text%sep*};
if [ "$piece" == "$text" ]; then break; fi; done`; `fuel` bounds the turns. -/
def eatLast (sep : α) (body : σ → List α → σ) : Nat → σ → List α → Option σ
  | 0, _, _ => none
  | fuel + 1, state, text =>
      let piece := cutLongestPrefix [many, lit sep] text
      let state := body state piece
      let text := cutShortestSuffix [lit sep, many] text
      if piece = text then some state else eatLast sep body fuel state text

variable {sep : α} {body : σ → List α → σ} {state : σ} {text : List α}

@[simp] theorem eatFirst_nil {fuel : Nat} : eatFirst sep body fuel state [] = some state := by
  cases fuel <;> simp [eatFirst]

/-- The loop from the left visits the pieces in order. -/
theorem eatFirst_eq (htwice : ∀ state piece, body (body state piece) piece = body state piece)
    (hnil : ∀ state, body state [] = state) {fuel : Nat} (hfuel : text.length ≤ fuel) :
    eatFirst sep body fuel state text = some ((text.splitOn sep).foldl body state) := by
  induction fuel generalizing state text with
  | zero =>
      obtain rfl := List.length_eq_zero_iff.mp (Nat.le_zero.mp hfuel)
      simp [hnil]
  | succ fuel ih =>
      unfold eatFirst
      by_cases htext : text = []
      · simp [htext, hnil]
      rw [if_neg htext]
      by_cases hsep : sep ∈ text
      · obtain ⟨piece, rest, rfl, hpiece⟩ := List.eq_append_cons_of_mem hsep
        have hlength : rest.length ≤ fuel := by
          simp only [List.length_append, List.length_cons] at hfuel
          omega
        simp only [cutLongestSuffix_char hpiece, cutShortestPrefix_char hpiece]
        rw [List.splitOn_append_cons_self_of_not_mem hpiece, List.foldl_cons]
        by_cases hsame : rest = piece
        · -- the same piece again, and it is the last one
          subst hsame
          rw [if_pos rfl, List.splitOn_eq_singleton hpiece, List.foldl_cons, List.foldl_nil,
            htwice, eatFirst_nil]
        · rw [if_neg hsame]
          exact ih hlength
      · simp only [(cutSuffix_of_not_mem hsep).2, (cutPrefix_of_not_mem hsep).1, if_true]
        rw [List.splitOn_eq_singleton hsep, eatFirst_nil]
        rfl

/-- The loop from the right visits the pieces from the last to the first. -/
theorem eatLast_eq (htwice : ∀ state piece, body (body state piece) piece = body state piece)
    {fuel : Nat} (hfuel : text.length < fuel) :
    eatLast sep body fuel state text = some ((text.splitOn sep).reverse.foldl body state) := by
  induction fuel generalizing state text with
  | zero => omega
  | succ fuel ih =>
      unfold eatLast
      by_cases hsep : sep ∈ text
      · obtain ⟨rest, piece, rfl, hpiece⟩ := eq_append_cons_last hsep
        have hlength : rest.length < fuel := by
          simp only [List.length_append, List.length_cons] at hfuel
          omega
        simp only [cutLongestPrefix_char hpiece, cutShortestSuffix_char hpiece]
        rw [List.splitOn_append_cons_self, List.splitOn_eq_singleton hpiece, List.reverse_append,
          List.reverse_singleton, List.singleton_append, List.foldl_cons]
        by_cases hsame : piece = rest
        · -- the same piece again, and it is the first one
          subst hsame
          rw [if_pos rfl, List.splitOn_eq_singleton hpiece, List.reverse_singleton,
            List.foldl_cons, List.foldl_nil, htwice]
        · rw [if_neg hsame]
          exact ih hlength
      · simp only [(cutPrefix_of_not_mem hsep).2, (cutSuffix_of_not_mem hsep).1, if_true]
        rw [List.splitOn_eq_singleton hsep]
        rfl

end SeparatedText
