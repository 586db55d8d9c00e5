import CodingLearners.AccountServer.Routes
import CodingLearners.Library.QuotedLiteral
import CodingLearners.Library.WellFormed

/-!
# The query for a name

Both routes put the posted name into the text of their query as it stands.
`/accountnewa` has checked the characters of the name before; `/ucenter` has
not.

## Implementation notes

`sqlite3` gets a text as UTF-8 and reads it up to its first zero character.
Which rows `db.all` hands to its callback is a parameter, `none` being an
error; `SelectsCompared` is what SQL says of a comparison with one literal, and
nothing is assumed of other texts.
-/

namespace CodingLearners.AccountServer

open Js

/-- The text of the query up to the opening quote of its literal. -/
def selectOpening : JsString := units "SELECT * FROM resttestab1 WHERE name = '"

/-- `"SELECT * FROM resttestab1 WHERE name = '" + query_doc.name + "'"` -/
def selectStatement (name : JsString) : JsString := selectOpening ++ (name ++ units "'")

/-- A request that is posted to one of the routes. -/
inductive Request
  | accountnewa (body : AccountBody)
  | ucenter (name password : Option JsString)

/-- The name for which a request queries: `accountnewa` refuses what it finds
invalid, and `ucenter` throws where the name is missing. -/
def Request.queriedName : Request → Option JsString
  | .accountnewa body => (accountQuery body).map AccountQuery.name
  | .ucenter name _ => name

/-! ## What `sqlite3` makes of a text -/

/-- The text that `sqlite3` reads. -/
def received (text : JsString) : JsString := (toWellFormed text).takeWhile fun u => decide (u ≠ 0)

/-- The value of the literal, if the text is one comparison of `name` with one
literal. -/
def comparedName (text : JsString) : Option JsString :=
  if selectOpening <+: text then
    match QuotedLiteral.read 39 (text.drop selectOpening.length) with
    | some (value, []) => some value
    | _ => none
  else none

/-- What `db.all` finds for a text and a table. -/
abbrev FindAll := JsString → List Row → Option (List Row)

/-- The rows whose name is the text. -/
def rowsNamed (name : JsString) (rows : List Row) : List Row :=
  rows.filter fun row => decide (row.name = name)

/-- A comparison with one literal selects the rows whose name is its value. -/
def SelectsCompared (all : FindAll) : Prop :=
  ∀ text value rows, comparedName (received text) = some value →
    all text rows = some (rowsNamed value rows)

/-- The query is a single comparison with a literal whose value is the name, and
finds exactly the rows with that name. -/
structure SelectsName (all : FindAll) (name : JsString) : Prop where
  compares : comparedName (received (selectStatement name)) = some name
  finds : ∀ rows, all (selectStatement name) rows = some (rowsNamed name rows)

/-- A `db.all` that knows nothing but such comparisons. -/
def comparisonsOnly : FindAll := fun text rows =>
  (comparedName (received text)).map fun value => rowsNamed value rows

theorem selectsCompared_comparisonsOnly : SelectsCompared comparisonsOnly := by
  intro text value rows hvalue
  rw [comparisonsOnly, hvalue, Option.map_some]

/-! ## The literal of the query -/

variable {text name value : JsString}

theorem comparedName_eq_some_iff :
    comparedName text = some value ↔
      text = selectOpening ++ (QuotedLiteral.escape 39 value ++ [39]) := by
  constructor
  · intro h
    rw [comparedName] at h
    split at h
    · next hopening =>
      obtain ⟨after, rfl⟩ := hopening
      rw [List.drop_left] at h
      split at h
      · next hread =>
        cases h
        rw [(QuotedLiteral.read_sound hread).1]
      · cases h
    · cases h
  · rintro rfl
    rw [comparedName, if_pos (List.prefix_append _ _), List.drop_left,
      QuotedLiteral.read_escape value (by simp)]

theorem selectOpening_units :
    ∀ u ∈ selectOpening, isLead u = false ∧ isTrail u = false ∧ u ≠ 0 := by
  have hall : selectOpening.all (fun u => !isLead u && !isTrail u && u != 0) = true := rfl
  intro u hu
  simpa [and_assoc] using List.all_eq_true.mp hall u hu

theorem toWellFormed_selectStatement (name : JsString) :
    toWellFormed (selectStatement name) = selectOpening ++ (toWellFormed name ++ [39]) := by
  have hend : toWellFormed (name ++ units "'") = toWellFormed name ++ [39] :=
    toWellFormed_append (by rintro u ⟨⟩; rfl)
  rw [selectStatement, toWellFormed_append_of_forall _ _, hend]
  exact fun u hu => ⟨(selectOpening_units u hu).1, (selectOpening_units u hu).2.1⟩

theorem zero_mem_toWellFormed_iff : 0 ∈ toWellFormed name ↔ 0 ∈ name :=
  mem_toWellFormed_iff rfl rfl (by decide)

/-- Without zeros the whole text is read. -/
theorem received_selectStatement (hzero : 0 ∉ name) :
    received (selectStatement name) = selectOpening ++ (toWellFormed name ++ [39]) := by
  rw [received, toWellFormed_selectStatement, List.takeWhile_eq_self_iff]
  intro u hu
  rw [decide_eq_true_eq]
  simp only [List.mem_append, List.mem_singleton] at hu
  rcases hu with hu | hu | rfl
  · exact (selectOpening_units u hu).2.2
  · rintro rfl
    exact hzero (zero_mem_toWellFormed_iff.mp hu)
  · decide

/-- A name without quotes and zeros is compared as it is stored. -/
theorem comparedName_selectStatement (hquote : 39 ∉ name) (hzero : 0 ∉ name) :
    comparedName (received (selectStatement name)) = some (toWellFormed name) := by
  have hquote' : 39 ∉ toWellFormed name := by
    rwa [mem_toWellFormed_iff rfl rfl (by decide)]
  rw [received_selectStatement hzero, comparedName_eq_some_iff,
    QuotedLiteral.escape_of_notMem hquote']

theorem comparedName_selectStatement_iff :
    comparedName (received (selectStatement name)) = some name ↔
      39 ∉ name ∧ 0 ∉ name ∧ isWellFormed name = true := by
  constructor
  · intro h
    have htext := comparedName_eq_some_iff.mp h
    have hzero : 0 ∉ name := by
      intro hmem
      have hread : 0 ∈ received (selectStatement name) := by
        rw [htext]
        simp only [List.mem_append]
        exact .inr (.inl (QuotedLiteral.mem_escape hmem))
      simpa using List.mem_takeWhile_imp hread
    rw [received_selectStatement hzero, List.append_cancel_left_eq] at htext
    have hread : QuotedLiteral.read 39 (QuotedLiteral.escape 39 name ++ [39]) = some (name, []) :=
      QuotedLiteral.read_escape name (by simp)
    rw [← htext, QuotedLiteral.read_append_quote_iff (length_toWellFormed name).symm] at hread
    obtain ⟨hname, -, hquote⟩ := hread
    rw [← hname] at hquote
    exact ⟨hquote, hzero, toWellFormed_eq_self_iff.mp hname.symm⟩
  · rintro ⟨hquote, hzero, hformed⟩
    rw [comparedName_selectStatement hquote hzero, toWellFormed_eq_self_iff.mpr hformed]

/-! ## The routes -/

/-- The check of the name lets no quote and no zero pass. -/
theorem accountQuery_name {body : AccountBody} {query : AccountQuery}
    (hquery : accountQuery body = some query) : 39 ∉ query.name ∧ 0 ∉ query.name := by
  unfold accountQuery at hquery
  split at hquery
  · split at hquery
    · next hvalid =>
      cases hquery
      have hall := hvalid.1
      simp only [isValidUsrName, Bool.and_eq_true, List.all_eq_true] at hall
      refine ⟨fun hmem => ?_, fun hmem => ?_⟩
      · exact absurd (hall.2 _ hmem) (by decide)
      · exact absurd (hall.2 _ hmem) (by decide)
    · cases hquery
  · cases hquery

/-- The outside that the texts make. -/
def outsideOf (all : FindAll) (sha256base64 : JsString → JsString) : Outside where
  stored := toWellFormed
  sha256base64 := sha256base64
  select name rows := all (selectStatement name) rows

theorem any_eq_not_isEmpty_filter {α : Type*} (p : α → Bool) (l : List α) :
    l.any p = !(l.filter p).isEmpty := by
  induction l with
  | nil => rfl
  | cons a l ih => cases h : p a <;> simp [h, ih]

/-- `checkaccount` finds a name taken exactly if its query finds a row. -/
theorem execute_selectName {all : FindAll} (hall : SelectsCompared all)
    {sha256base64 : JsString → JsString} {σ : Server} {id : Nat} {body : AccountBody}
    {query : AccountQuery} {taken : Option Invitation} (hquery : accountQuery body = some query)
    (htask : σ.tasks id = some (.accountnewa query (.selectName taken))) :
    ∃ found, all (selectStatement query.name) σ.rows = some found ∧
      execute (outsideOf all sha256base64) σ id =
        { σ.proceed id (.accountnewa query (.selectedName (!found.isEmpty) taken)) with
          executed := .selectName id :: σ.executed } := by
  obtain ⟨hquote, hzero⟩ := accountQuery_name hquery
  refine ⟨_, hall _ _ σ.rows (comparedName_selectStatement hquote hzero), ?_⟩
  rw [rowsNamed, ← any_eq_not_isEmpty_filter]
  simp only [execute, htask]
  rfl

/-- The names with which the query does what it is for. -/
def Request.IsPlain : Request → Prop
  | .accountnewa body => ∀ query ∈ accountQuery body, isWellFormed query.name = true
  | .ucenter name _ => ∀ text ∈ name, 39 ∉ text ∧ 0 ∉ text ∧ isWellFormed text = true

/-- Of a request that is plain, and of no other, the query asks for the name that was
posted. -/
theorem selectsName_iff {all : FindAll} (hall : SelectsCompared all) (request : Request) :
    (∀ name ∈ request.queriedName, SelectsName all name) ↔ request.IsPlain := by
  have hname : ∀ name, SelectsName all name ↔ 39 ∉ name ∧ 0 ∉ name ∧ isWellFormed name = true := by
    intro name
    rw [← comparedName_selectStatement_iff]
    exact ⟨SelectsName.compares, fun h => ⟨h, fun rows => hall _ _ rows h⟩⟩
  cases request with
  | ucenter name password => simp only [Request.queriedName, Request.IsPlain, hname]
  | accountnewa body =>
      simp only [Request.queriedName, Request.IsPlain, hname]
      constructor
      · intro h query hquery
        exact (h _ (Option.mem_map_of_mem _ hquery)).2.2
      · intro h name hmem
        obtain ⟨query, hquery, rfl⟩ := Option.map_eq_some_iff.mp hmem
        obtain ⟨hquote, hzero⟩ := accountQuery_name hquery
        exact ⟨hquote, hzero, h query hquery⟩

/-- A name that passes the check, and one with a quote. -/
theorem selectsName_alice :
    (∀ name ∈ (Request.accountnewa ⟨some (units "alice"), some (units "pw"), none⟩).queriedName,
      SelectsName comparisonsOnly name) ∧
    ¬ ∀ name ∈ (Request.ucenter (some (units "al'ice")) none).queriedName,
      SelectsName comparisonsOnly name := by
  rw [selectsName_iff selectsCompared_comparisonsOnly,
    selectsName_iff selectsCompared_comparisonsOnly]
  refine ⟨?_, fun h => absurd (h _ rfl).1 (by decide)⟩
  rintro query ⟨⟩
  rfl

/-- The literal of the query is empty, and the rest of the name is SQL. -/
theorem name_leaves_literal :
    QuotedLiteral.read 39
      ((received (selectStatement (units "' OR '1'='1"))).drop selectOpening.length) =
        some ([], units " OR '1'='1'") ∧
    ¬ ∃ all, ∀ name ∈ (Request.ucenter (some (units "' OR '1'='1")) (some [])).queriedName,
      SelectsName all name := by
  refine ⟨by decide +kernel, ?_⟩
  rintro ⟨all, h⟩
  exact absurd (comparedName_selectStatement_iff.mp (h _ rfl).compares).1 (by decide)

end CodingLearners.AccountServer
