import CodingLearners.Library.JsString
import CodingLearners.Library.Runs

/-!
# `strip_python_annotation.js`

The `line` handler, in the order of its statements: the flags that it carries
from line to line are the state, and what it writes for a line is the result.

## Implementation notes

A position is `none` for `-1`. A local that the handler assigns several times
has one name for each of its values.
-/

namespace CodingLearners.StripAnnotation

open Js

/-- The values of `multisign`: 1 for three single quotes, 2 for three double ones. -/
inductive Delimiter
  | single
  | double
  deriving DecidableEq, Repr

def quotes : Delimiter → JsString
  | .single => units "'''"
  | .double => units "\"\"\""

/-- The variables outside of the handler. -/
structure StripState where
  multianflag : Bool
  multisign : Delimiter
  mutilleaved : Bool
  lasttailassign : Bool
  deriving DecidableEq, Repr

def initialState : StripState := ⟨false, .single, false, false⟩

/-- A text whose trimmed form ends in `=`, `[`, `(`, `,` or `{`. -/
def endsInTail (s : JsString) : Bool :=
  match (trim s).getLast? with
  | some tailc => (units "=[(,\x7b").contains tailc
  | none => false

/-- The condition under which the text before a delimiter makes a value of the string. -/
def assigned (lasttailassign : Bool) (stleft : JsString) : Bool :=
  blank stleft && lasttailassign || endsInTail stleft

/-- `line.slice(start, -1)` -/
def sliceToLast (line : JsString) (start : Nat) : JsString := (line.drop start).dropLast

/-- `lineisannot` -/
def isAnnot (line : JsString) : Bool :=
  match indexOf (units "#") line with
  | some findan1 => blank (line.take findan1)
  | none => false

/-- The rest of a line from `f2s`, with the text before `findan3`. -/
def cutSameLine (line : JsString) (findan3 f2s : Nat) : JsString :=
  if f2s + 3 = line.length then line.take findan3
  else line.take findan3 ++ sliceToLast line (f2s + 3)

/-- The handler of the event `line`. -/
def stripLine (σ : StripState) (text : JsString) : StripState × Option JsString :=
  let lineisempty := blank text
  let lineisannot := isAnnot text
  let findan2 := indexOf (quotes .single) text
  let findan3 := match findan2 with
    | some i => some i
    | none => indexOf (quotes .double) text
  let sign : Delimiter := if findan2.isSome then .single else .double
  let stleft := text.take (findan3.getD 0)
  let lookedAt := findan3.isSome && !lineisannot
  let setsLeaved := lookedAt && assigned σ.lasttailassign stleft
  let leavedStart := σ.mutilleaved || setsLeaved
  let mutilstartingstr := setsLeaved && !σ.multianflag
  -- both delimiters on one line
  let f2s := lastIndexOf (quotes sign) text
  let issame := lookedAt && decide (0 < f2s.getD 0 ∧ f2s ≠ findan3)
  let cut := issame && !leavedStart
  let lineCut := if cut then cutSameLine text (findan3.getD 0) (f2s.getD 0) else text
  let leaved := leavedStart && !issame
  let skipCut := lineisempty || lineisannot || cut && blank lineCut
  -- an opening delimiter
  let opens := !issame && !skipCut && !σ.multianflag && findan3.isSome &&
    (mutilstartingstr || blank stleft)
  let multisign := if opens then sign else σ.multisign
  let skipOpened := skipCut || opens && !leaved
  -- a line without delimiter inside a string
  let skipInside := skipOpened || !issame && σ.multianflag && findan3.isNone && !leaved
  -- a closing delimiter
  let closes := !issame && σ.multianflag &&
    (multisign == .single && findan2.isSome || multisign == .double && findan3.isSome)
  let rest := sliceToLast lineCut (findan3.getD 0 + 3)
  let ends := decide (findan3.getD 0 + 3 = lineCut.length) || blank rest
  let skipl := skipInside || closes && !leaved && ends
  let line := if closes && !leaved && !ends then rest else lineCut
  ({ multianflag := (σ.multianflag || opens) && !closes
     multisign := multisign
     mutilleaved := leaved && !closes
     lasttailassign := if lineisempty then σ.lasttailassign else !skipl && endsInTail line },
    if skipl then none else some line)

/-- The state after a sequence of lines. -/
def stateAfter (σ : StripState) (lines : List JsString) : StripState :=
  Runs.run (fun σ line => (stripLine σ line).1) σ lines

/-- What is written for each of a sequence of lines. -/
def written : StripState → List JsString → List (Option JsString)
  | _, [] => []
  | σ, line :: rest => (stripLine σ line).2 :: written (stripLine σ line).1 rest

/-- The lines of the output file. -/
def strip (lines : List JsString) : List JsString := (written initialState lines).filterMap id

end CodingLearners.StripAnnotation
