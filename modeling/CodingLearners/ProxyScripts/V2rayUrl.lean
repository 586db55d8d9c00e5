import CodingLearners.Library.FlatJson
import CodingLearners.Library.SeparatedText
import CodingLearners.ProxyScripts.DeBase64Url
import Mathlib.Logic.Function.Basic

/-!
# `convert_v2ray_url_to_config.sh`

The script decodes a `vmess` address to a JSON object and takes the text between
the outer braces apart at its commas, from the right. In each piece it looks for
a name before the last colon and for a value behind the first one.

## Implementation notes

The variables are unset at the start. No word of `echo $demain` is taken to match
the name of a file, so that its expansion does not matter to the search for `id`
in it. Each `sed` works on a text of one line.
-/

namespace CodingLearners.ProxyScripts

open ShellText ShellPattern ShellPattern.Item SeparatedText

/-! ## The script -/

/-- The names that the script looks for. -/
inductive Field
  | add
  | aid
  | id
  | net
  | path
  | port
  | tls
  | host
  deriving DecidableEq

/-- The text that `tsign` is compared with. -/
def Field.sign : Field → Text
  | add => ascii "add"
  | aid => ascii "aid"
  | id => ascii "id"
  | net => ascii "net"
  | path => ascii "path"
  | port => ascii "port"
  | tls => ascii "tls"
  | host => ascii "host"

/-- The variables `inf_add` to `inf_host`. -/
abbrev V2rayVars := Field → Text

/-- `tsign`, from a piece. -/
def tsign (tinf : Text) : Text :=
  let tsign := cutShortestSuffix [lit 58, many] tinf
  let tsign := cutShortestPrefix [many, lit 123] tsign
  let tsign := cutShortestPrefix [many, lit 34] tsign
  cutShortestSuffix [lit 34, many] tsign

/-- `tval`, from a piece. -/
def tval (tinf : Text) : Text :=
  let tval := cutShortestPrefix [many, lit 58] tinf
  let tval := substitution (head1 (echo tval))
  let tval := dropCarriageReturn tval
  let tval := trim [32] tval
  unquote tval

/-- The body of the loop. -/
def readMember (vars : V2rayVars) (tinf : Text) : V2rayVars :=
  if tsign tinf = ascii "add" then Function.update vars .add (tval tinf)
  else if tsign tinf = ascii "aid" then Function.update vars .aid (tval tinf)
  else if tsign tinf = ascii "id" then Function.update vars .id (tval tinf)
  else if tsign tinf = ascii "net" then Function.update vars .net (tval tinf)
  else if tsign tinf = ascii "path" then Function.update vars .path (tval tinf)
  else if tsign tinf = ascii "port" then Function.update vars .port (tval tinf)
  else if tsign tinf = ascii "tls" then Function.update vars .tls (tval tinf)
  else if tsign tinf = ascii "host" then
    Function.update vars .host (trim [32, 9] (tval tinf))
  else vars

/-- The loop over the members; `none` if it does not end. -/
def fieldLoop (demain : Text) : Option V2rayVars :=
  let leftinf := cutShortestSuffix [lit 125, many] demain
  let leftinf := cutShortestPrefix [many, lit 123] leftinf
  eatLast 44 readMember (leftinf.length + 1) (fun _ => []) leftinf

/-- How the script ends. -/
inductive V2rayOutcome
  | refused
  | endless
  | converted (vars : V2rayVars)

/-- The script, up to the variables. -/
def convertV2ray (tools : Tools) (url : Text) : V2rayOutcome :=
  let messurl := cutShortestPrefix [many, lit 47, lit 47] url
  let demain := decoded tools messurl
  if ascii "id" <:+: demain then
    match fieldLoop demain with
    | some vars => .converted vars
    | none => .endless
  else .refused

/-! ## The loop -/

/-- What the script keeps of a value; it trims the host once more. -/
def Field.kept (field : Field) (tval : Text) : Text :=
  if field = .host then trim [32, 9] tval else tval

theorem sign_injective {field field' : Field} (h : field.sign = field'.sign) : field = field' := by
  cases field <;> cases field' <;> first | rfl | exact absurd h (by decide)

/-- A branch of the body, if the branches behind it do what they should. -/
theorem branch_apply {sign value kept : Text} {vars rest : V2rayVars} (field' : Field)
    (hkept : kept = field'.kept value) (field : Field)
    (hrest : sign ≠ field'.sign →
      rest field = if sign = field.sign then field.kept value else vars field) :
    (if sign = field'.sign then Function.update vars field' kept else rest) field =
      if sign = field.sign then field.kept value else vars field := by
  by_cases hsign : sign = field'.sign
  · rw [if_pos hsign]
    by_cases heq : field = field'
    · subst heq
      rw [Function.update_self, if_pos hsign, hkept]
    · rw [Function.update_of_ne heq, if_neg fun h => heq (sign_injective (h.symm.trans hsign))]
  · rw [if_neg hsign]
    exact hrest hsign

/-- A piece sets the variable that it is signed for. -/
theorem readMember_apply (vars : V2rayVars) (tinf : Text) (field : Field) :
    readMember vars tinf field =
      if tsign tinf = field.sign then field.kept (tval tinf) else vars field := by
  unfold readMember
  generalize tsign tinf = sign
  generalize tval tinf = value
  apply branch_apply .add rfl field
  intro hadd
  apply branch_apply .aid rfl field
  intro haid
  apply branch_apply .id rfl field
  intro hid
  apply branch_apply .net rfl field
  intro hnet
  apply branch_apply .path rfl field
  intro hpath
  apply branch_apply .port rfl field
  intro hport
  apply branch_apply .tls rfl field
  intro htls
  apply branch_apply .host rfl field
  intro hhost
  rw [if_neg]
  cases field with
  | add => exact hadd
  | aid => exact haid
  | id => exact hid
  | net => exact hnet
  | path => exact hpath
  | port => exact hport
  | tls => exact htls
  | host => exact hhost

theorem readMember_twice (vars : V2rayVars) (tinf : Text) :
    readMember (readMember vars tinf) tinf = readMember vars tinf := by
  funext field
  rw [readMember_apply, readMember_apply]
  by_cases hsigned : tsign tinf = field.sign
  · rw [if_pos hsigned, if_pos hsigned]
  · rw [if_neg hsigned, if_neg hsigned]

/-- The first piece that is signed for a variable. -/
def signedPiece (body : Text) (field : Field) : Option Text :=
  (body.splitOn 44).find? fun tinf => decide (tsign tinf = field.sign)

/-- What the loop leaves in the variables, from the text between the braces. -/
def found (body : Text) (field : Field) : Text :=
  ((signedPiece body field).map fun tinf => field.kept (tval tinf)).getD []

/-- The loop ends on every text. It comes from the right, so that the first piece
that is signed for a variable counts. -/
theorem fieldLoop_eq (demain : Text) :
    fieldLoop demain =
      some (found (cutShortestPrefix [many, lit 123]
        (cutShortestSuffix [lit 125, many] demain))) := by
  rw [fieldLoop]
  generalize cutShortestPrefix [many, lit 123] (cutShortestSuffix [lit 125, many] demain) = body
  rw [eatLast_eq readMember_twice (Nat.lt_succ_self _), Option.some.injEq]
  funext field
  rw [foldl_last readMember (fun vars : V2rayVars => vars field)
    (fun tinf => decide (tsign tinf = field.sign)) (fun tinf => field.kept (tval tinf))]
  · rw [List.reverse_reverse]
    rfl
  · intro vars tinf
    simp only [readMember_apply, decide_eq_true_eq]

end CodingLearners.ProxyScripts
