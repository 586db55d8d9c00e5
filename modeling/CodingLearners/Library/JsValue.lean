import CodingLearners.Library.UriComponent

/-!
# Values of `JSON.parse`

The values that `JSON.parse` builds and what JavaScript does with them: own
properties, `includes`, the conversion to a string, `==` and `+`. Where
JavaScript throws, the result is `none`.

## Implementation notes

The arithmetic of doubles is a parameter. A value that JSON can write has no
functions of its own, so a property that hides `toString` or `hasOwnProperty`
cannot be called.
-/

namespace Js

/-- The numbers of JavaScript, up to what `===` and a `Set` tell apart. -/
structure Numbers where
  Double : Type
  decidableEq : DecidableEq Double
  nan : Double
  /-- `Number(text)`, which is `NaN` for a text that is no numeral. -/
  ofText : JsString → Double
  /-- `String(number)` -/
  toText : Double → JsString
  add : Double → Double → Double

instance (numbers : Numbers) : DecidableEq numbers.Double := numbers.decidableEq

inductive JsonValue (Double : Type)
  | null
  | bool (b : Bool)
  | number (d : Double)
  | string (s : JsString)
  | array (items : List (JsonValue Double))
  | object (members : List (JsString × JsonValue Double))

variable (numbers : Numbers)

/-! ## Parsing -/

def isDigit (u : UInt16) : Bool := decide (48 ≤ u.toNat ∧ u.toNat ≤ 57)

/-- The white space of JSON. -/
def isJsonSpace (u : UInt16) : Bool := u == 9 || u == 10 || u == 13 || u == 32

def skipSpace (s : JsString) : JsString := s.dropWhile isJsonSpace

/-- What a character behind a backslash stands for. -/
def escaped (u : UInt16) : Option UInt16 :=
  if u = 34 ∨ u = 92 ∨ u = 47 then some u
  else if u = 98 then some 8
  else if u = 102 then some 12
  else if u = 110 then some 10
  else if u = 114 then some 13
  else if u = 116 then some 9
  else none

/-- The string behind a quote, and what follows it. -/
def parseString : JsString → Option (JsString × JsString)
  | [] => none
  | u :: rest =>
      if u = 34 then some ([], rest)
      else if u = 92 then
        match rest with
        | [] => none
        | e :: rest =>
            if e = 117 then
              match rest with
              | a :: b :: c :: d :: rest => do
                  let unit := UInt16.ofNat
                    (4096 * (← hexValue a) + 256 * (← hexValue b) + 16 * (← hexValue c) +
                      (← hexValue d))
                  let (s, rest) ← parseString rest
                  return (unit :: s, rest)
              | _ => none
            else do
              let unit ← escaped e
              let (s, rest) ← parseString rest
              return (unit :: s, rest)
      else if u.toNat < 32 then none
      else do
        let (s, rest) ← parseString rest
        return (u :: s, rest)

/-- A character of a number. -/
def isNumberUnit (u : UInt16) : Bool :=
  isDigit u || u == 45 || u == 43 || u == 46 || u == 101 || u == 69

/-- `e` or `E`, a sign and digits, or nothing. -/
def isExponent : JsString → Bool
  | [] => true
  | e :: rest =>
      let digits := if rest.head? = some 43 ∨ rest.head? = some 45 then rest.tail else rest
      (e == 101 || e == 69) && !digits.isEmpty && digits.all isDigit

/-- A fraction, or nothing, and an exponent. -/
def isFraction (s : JsString) : Bool :=
  if s.head? = some 46 then
    match s.tail with
    | [] => false
    | u :: rest => isDigit u && isExponent (rest.dropWhile isDigit)
  else isExponent s

/-- A number as JSON writes it. -/
def isJsonNumber (s : JsString) : Bool :=
  match if s.head? = some 45 then s.tail else s with
  | [] => false
  | u :: rest =>
      if u = 48 then isFraction rest else isDigit u && isFraction (rest.dropWhile isDigit)

/-- A literal name, and what follows it. -/
def parseLiteral (s : JsString) : Option (JsonValue numbers.Double × JsString) :=
  if units "null" <+: s then some (.null, s.drop 4)
  else if units "true" <+: s then some (.bool true, s.drop 4)
  else if units "false" <+: s then some (.bool false, s.drop 5)
  else none

def parseNumber (s : JsString) : Option (JsonValue numbers.Double × JsString) :=
  if isJsonNumber (s.takeWhile isNumberUnit) then
    some (.number (numbers.ofText (s.takeWhile isNumberUnit)), s.dropWhile isNumberUnit)
  else none

mutual

/-- A value and what follows it. -/
def parseValue : Nat → JsString → Option (JsonValue numbers.Double × JsString)
  | 0, _ => none
  | fuel + 1, s =>
      match skipSpace s with
      | [] => none
      | u :: rest =>
          if u = 34 then (parseString rest).map fun (s, rest) => (.string s, rest)
          else if u = 123 then
            if (skipSpace rest).head? = some 125 then some (.object [], (skipSpace rest).tail)
            else (parseMembers fuel rest).map fun (members, rest) => (.object members, rest)
          else if u = 91 then
            if (skipSpace rest).head? = some 93 then some (.array [], (skipSpace rest).tail)
            else (parseItems fuel rest).map fun (items, rest) => (.array items, rest)
          else if isNumberUnit u then parseNumber numbers (u :: rest)
          else parseLiteral numbers (u :: rest)

/-- The members of an object up to its brace. -/
def parseMembers :
    Nat → JsString → Option (List (JsString × JsonValue numbers.Double) × JsString)
  | 0, _ => none
  | fuel + 1, s =>
      match skipSpace s with
      | [] => none
      | u :: rest => do
          if u ≠ 34 then none
          let (name, rest) ← parseString rest
          if (skipSpace rest).head? ≠ some 58 then none
          let (value, rest) ← parseValue fuel (skipSpace rest).tail
          if (skipSpace rest).head? = some 125 then
            return ([(name, value)], (skipSpace rest).tail)
          if (skipSpace rest).head? ≠ some 44 then none
          let (members, rest) ← parseMembers fuel (skipSpace rest).tail
          return ((name, value) :: members, rest)

/-- The items of an array up to its bracket. -/
def parseItems : Nat → JsString → Option (List (JsonValue numbers.Double) × JsString)
  | 0, _ => none
  | fuel + 1, s => do
      let (value, rest) ← parseValue fuel s
      if (skipSpace rest).head? = some 93 then
        return ([value], (skipSpace rest).tail)
      if (skipSpace rest).head? ≠ some 44 then none
      let (items, rest) ← parseItems fuel (skipSpace rest).tail
      return (value :: items, rest)

end

/-- `JSON.parse(text)`; every call of the parsers uses up a character of the text. -/
def jsonParse (text : JsString) : Option (JsonValue numbers.Double) :=
  match parseValue numbers (text.length + 1) text with
  | some (value, rest) => if skipSpace rest = [] then some value else none
  | none => none

/-! ## The characters of a number -/

theorem isNumberUnit_of_isDigit {u : UInt16} (h : isDigit u = true) : isNumberUnit u = true := by
  simp [isNumberUnit, h]

theorem forall_of_tail {s : JsString} {u : UInt16} (h : s.head? = some u)
    (hu : isNumberUnit u = true) (htail : ∀ v ∈ s.tail, isNumberUnit v = true) :
    ∀ v ∈ s, isNumberUnit v = true := by
  cases s with
  | nil => simp
  | cons v rest =>
      obtain rfl : v = u := by simpa using h
      simpa using ⟨hu, htail⟩

theorem forall_of_dropWhile {s : JsString}
    (h : ∀ v ∈ s.dropWhile isDigit, isNumberUnit v = true) : ∀ v ∈ s, isNumberUnit v = true := by
  intro v hv
  rw [← List.takeWhile_append_dropWhile (p := isDigit) (l := s)] at hv
  rcases List.mem_append.mp hv with hv | hv
  · exact isNumberUnit_of_isDigit (List.mem_takeWhile_imp hv)
  · exact h v hv

theorem isNumberUnit_of_exponent {s : JsString} (h : isExponent s = true) :
    ∀ v ∈ s, isNumberUnit v = true := by
  cases s with
  | nil => simp
  | cons e rest =>
      simp only [isExponent, Bool.and_eq_true, Bool.or_eq_true, beq_iff_eq] at h
      obtain ⟨⟨he, _⟩, hdigits⟩ := h
      have hrest : ∀ v ∈ rest, isNumberUnit v = true := by
        by_cases hsign : rest.head? = some 43 ∨ rest.head? = some 45
        · rw [if_pos hsign] at hdigits
          have htail : ∀ v ∈ rest.tail, isNumberUnit v = true := fun v hv =>
            isNumberUnit_of_isDigit (List.all_eq_true.mp hdigits v hv)
          rcases hsign with hsign | hsign
          · exact forall_of_tail hsign (by decide) htail
          · exact forall_of_tail hsign (by decide) htail
        · rw [if_neg hsign] at hdigits
          exact fun v hv => isNumberUnit_of_isDigit (List.all_eq_true.mp hdigits v hv)
      rw [List.forall_mem_cons]
      exact ⟨by rcases he with rfl | rfl <;> decide, hrest⟩

theorem isNumberUnit_of_fraction {s : JsString} (h : isFraction s = true) :
    ∀ v ∈ s, isNumberUnit v = true := by
  unfold isFraction at h
  by_cases hpoint : s.head? = some 46
  · rw [if_pos hpoint] at h
    apply forall_of_tail hpoint (by decide)
    cases htail : s.tail with
    | nil => simp
    | cons u rest =>
        rw [htail] at h
        simp only [Bool.and_eq_true] at h
        rw [List.forall_mem_cons]
        exact ⟨isNumberUnit_of_isDigit h.1,
          forall_of_dropWhile (isNumberUnit_of_exponent h.2)⟩
  · rw [if_neg hpoint] at h
    exact isNumberUnit_of_exponent h

/-- A number consists of the characters of numbers. -/
theorem isNumberUnit_of_isJsonNumber {s : JsString} (h : isJsonNumber s = true) :
    ∀ v ∈ s, isNumberUnit v = true := by
  have hbody : ∀ digits : JsString, (match digits with
      | [] => false
      | u :: rest =>
          if u = 48 then isFraction rest else isDigit u && isFraction (rest.dropWhile isDigit)) =
        true → ∀ v ∈ digits, isNumberUnit v = true := by
    intro digits hdigits
    cases digits with
    | nil => simp
    | cons u rest =>
        rw [List.forall_mem_cons]
        by_cases hzero : u = 48
        · subst hzero
          exact ⟨by decide, isNumberUnit_of_fraction (by simpa using hdigits)⟩
        · simp only [if_neg hzero, Bool.and_eq_true] at hdigits
          exact ⟨isNumberUnit_of_isDigit hdigits.1,
            forall_of_dropWhile (isNumberUnit_of_fraction hdigits.2)⟩
  by_cases hminus : s.head? = some 45
  · rw [isJsonNumber, if_pos hminus] at h
    exact forall_of_tail hminus (by decide) (hbody _ h)
  · rw [isJsonNumber, if_neg hminus] at h
    exact hbody _ h

/-! ## Properties -/

variable {numbers}

/-- The property of an object; the last member of a name counts. -/
def ownMember {Double : Type} (members : List (JsString × JsonValue Double)) (name : JsString) :
    Option (JsonValue Double) :=
  members.foldl (fun found member => if member.1 = name then some member.2 else found) none

/-- `value.hasOwnProperty(name)`, for a name that is neither `length` nor an index. -/
def hasOwnProperty {Double : Type} (value : JsonValue Double) (name : JsString) : Option Bool :=
  match value with
  | .null => none
  | .object members =>
      if (ownMember members (units "hasOwnProperty")).isSome then none
      else some (ownMember members name).isSome
  | _ => some false

/-- `value.name`, for a name that no prototype has; `undefined` is no value. -/
def property {Double : Type} (value : JsonValue Double) (name : JsString) :
    Option (Option (JsonValue Double)) :=
  match value with
  | .null => none
  | .object members => some (ownMember members name)
  | _ => some none

/-- `s.includes(piece)` -/
def stringIncludes (s piece : JsString) : Bool := (indexOf piece s).isSome

/-- `value.includes(piece)`, which only strings and arrays have. -/
def includes {Double : Type} (value : JsonValue Double) (piece : JsString) : Option Bool :=
  match value with
  | .string s => some (stringIncludes s piece)
  | .array items => some (items.any fun
      | .string s => s == piece
      | _ => false)
  | _ => none

/-! ## Conversions -/

variable (numbers)

mutual

/-- `String(value)`, which is also what `ToPrimitive` makes of arrays and objects. -/
def toText : JsonValue numbers.Double → Option JsString
  | .null => some (units "null")
  | .bool b => some (units (if b then "true" else "false"))
  | .number d => some (numbers.toText d)
  | .string s => some s
  | .array items => joinItems items
  | .object members =>
      if (ownMember members (units "toString")).isSome then none
      else some (units "[object Object]")

/-- `items.join()` -/
def joinItems : List (JsonValue numbers.Double) → Option JsString
  | [] => some []
  | item :: items => do
      let text ← match item with
        | .null => some []
        | _ => toText item
      if items.isEmpty then return text
      return text ++ 44 :: (← joinItems items)

end

/-- `value == number`, for a number that is neither 0 nor 1 nor `NaN`. -/
def looseEq (value : JsonValue numbers.Double) (number : numbers.Double) : Option Bool :=
  match value with
  | .null => some false
  | .bool _ => some false
  | .number d => some (decide (d = number))
  | .string s => some (decide (numbers.ofText s = number))
  | _ => (toText numbers value).map fun s => decide (numbers.ofText s = number)

/-- A member of a `Set`: a string or a number. -/
inductive SetKey (Double : Type)
  | text (s : JsString)
  | number (d : Double)
  deriving DecidableEq

/-- What `+` adds: a number or a string. -/
def toSummand : Option (JsonValue numbers.Double) → Option (SetKey numbers.Double)
  | none => some (.number numbers.nan)
  | some .null => some (.number (numbers.ofText (units "0")))
  | some (.bool b) => some (.number (numbers.ofText (units (if b then "1" else "0"))))
  | some (.number d) => some (.number d)
  | some value => (toText numbers value).map .text

/-- The text of an operand of `+` next to a string. -/
def operandText : Option (JsonValue numbers.Double) → Option JsString
  | none => some (units "undefined")
  | some value => toText numbers value

/-- `left + right` -/
def plus (left right : Option (JsonValue numbers.Double)) : Option (SetKey numbers.Double) := do
  match ← toSummand numbers left, ← toSummand numbers right with
  | .number a, .number b => return .number (numbers.add a b)
  | _, _ => return .text ((← operandText numbers left) ++ (← operandText numbers right))

end Js
