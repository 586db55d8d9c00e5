import CodingLearners.Library.GreedyPattern
import CodingLearners.Library.JsValue
import CodingLearners.LinkFilter.Base64
import Mathlib.Computability.RegularExpressions

/-!
# `filterAndDeduplicateLinks`

The two copies of the link filter, of `filterdeduplicate.js` and of
`base64-uswsfilter.html`. The first pass keeps the lines that look right without
the white space around them; the second pass takes the lines as they are, computes
the key of each and keeps the first line of each key. Where JavaScript throws, the
result is `none`.

## Implementation notes

The lines may carry labels, so that equal lines can be told apart. The arithmetic
of doubles and the Unicode table behind `toUpperCase` are parameters.
-/

namespace CodingLearners.LinkFilter

open Js GreedyPattern

/-- What the page takes from the language. -/
structure Host where
  numbers : Numbers
  toUpperCase : JsString → JsString

/-- The copy of the filter, with the check boxes of the page that has them. -/
inductive Copy
  | filterdeduplicate
  | uswsfilter (usfilterenable wsfilterenable portfilterenable : Bool)

variable (host : Host)

abbrev Json := JsonValue host.numbers.Double

abbrev Key := SetKey host.numbers.Double

/-! ## Links -/

def startsWith (s start : JsString) : Bool := decide (start <+: s)

def vless : JsString := units "vless://"

def trojan : JsString := units "trojan://"

def ss : JsString := units "ss://"

def vmess : JsString := units "vmess://"

/-- The links that carry their address as text. -/
def isUrlLink (s : JsString) : Bool := startsWith s vless || startsWith s trojan || startsWith s ss

/-- `s.slice(-n)` -/
def sliceEnd (s : JsString) (n : Nat) : JsString := s.drop (s.length - n)

/-- The spellings of the United States in the name of a link. -/
def usNames : Copy → List JsString
  | .filterdeduplicate =>
      [units "%e7%be%8e%e5%9b%bd", units "%E7%BE%8E%E5%9B%BD", units "#US_", units "_US_",
        units "%7cUS_", units "%F0%9F%87%BA%F0%9F%87%B8"]
  | .uswsfilter .. =>
      [units "%e7%be%8e%e5%9b%bd", units "%E7%BE%8E%E5%9B%BD", units "%e7%be%8e%e5%9c%8b",
        units "%E7%BE%8E%E5%9C%8B", units "#US_", units "_US_", units "%7cUS_",
        units "%F0%9F%87%BA%F0%9F%87%B8"]

def namesUs (copy : Copy) (trimmedLine : JsString) : Bool :=
  (usNames copy).any (stringIncludes trimmedLine) ||
    (startsWith trimmedLine vless &&
      host.toUpperCase (sliceEnd trimmedLine 3) == units "#US")

def namesPort (trimmedLine : JsString) : Bool :=
  stringIncludes trimmedLine (units ":443?") || stringIncludes trimmedLine (units ":443#")

def namesWs (trimmedLine : JsString) : Bool :=
  (startsWith trimmedLine vless || startsWith trimmedLine trojan) &&
    (stringIncludes trimmedLine (units "&type=ws") || stringIncludes trimmedLine (units "?type=ws"))

/-- The condition on a link with its address as text. -/
def urlTest (copy : Copy) (trimmedLine : JsString) : Bool :=
  match copy with
  | .filterdeduplicate => namesUs host copy trimmedLine && namesPort trimmedLine
  | .uswsfilter us ws port =>
      (!us || namesUs host copy trimmedLine) && (!ws || namesWs trimmedLine) &&
        (!port || namesPort trimmedLine)

/-! ## Addresses -/

section Regex

open RegularExpression

/-- A character of a range. -/
def range (first last : Char) : RegularExpression UInt16 :=
  ((List.range' first.toNat (last.toNat + 1 - first.toNat)).map fun n =>
    char (UInt16.ofNat n)).sum

def lit (c : Char) : RegularExpression UInt16 := char c.toNat.toUInt16

/-- `r?` -/
def opt (r : RegularExpression UInt16) : RegularExpression UInt16 := 1 + r

/-- `(?:25[0-5]|2[0-4][0-9]|[01]?[0-9][0-9]?)` -/
def octet : RegularExpression UInt16 :=
  lit '2' * lit '5' * range '0' '5' + lit '2' * range '0' '4' * range '0' '9' +
    opt (range '0' '1') * range '0' '9' * opt (range '0' '9')

/-- `^(?:octet\.){3}octet$` -/
def regexip : RegularExpression UInt16 := (octet * lit '.') ^ 3 * octet

/-- `^(?:octet\.){3}octet:(?:[1-9][0-9]{0,4})$` -/
def regexipport : RegularExpression UInt16 :=
  (octet * lit '.') ^ 3 * octet * lit ':' * (range '1' '9' * opt (range '0' '9') ^ 4)

end Regex

/-! ## `vmess` -/

/-- `value.ps`, for a property that is there. -/
def ownField (dejson : Json host) (name : String) : Option (Json host) :=
  (property dejson (units name)).join

/-- `dejson.ps.includes('US_') || dejson.ps.includes(...) || ...` -/
def psNamesUs (dejson : Json host) : Option Bool := do
  let ps ← ownField host dejson "ps"
  if ← includes ps (units "US_") then return true
  if ← includes ps (units "美国") then return true
  includes ps [0xD83C, 0xDDFA, 0xD83C, 0xDDF8]

/-- `dejson.net.includes('ws')` -/
def netIsWs (dejson : Json host) : Option Bool := do
  includes (← ownField host dejson "net") (units "ws")

/-- `dejson.port == 443` -/
def portIs443 (dejson : Json host) : Option Bool := do
  looseEq host.numbers (← ownField host dejson "port") (host.numbers.ofText (units "443"))

/-- `regexip.test(dejson.add)` -/
def addIsIp (dejson : Json host) : Option Bool := do
  return regexip.rmatch (← toText host.numbers (← ownField host dejson "add"))

/-- The chain of `hasOwnProperty` tests. -/
def hasOwnProperties (dejson : Json host) : List String → Option Bool
  | [] => some true
  | name :: names => do
      if ← hasOwnProperty dejson (units name) then hasOwnProperties dejson names else return false

/-- The condition on the parsed payload of a `vmess` link. -/
def vmessTest (copy : Copy) (dejson : Json host) : Option Bool :=
  match copy with
  | .filterdeduplicate => do
      if !(← hasOwnProperties host dejson ["add", "ps", "port"]) then return false
      if !(← psNamesUs host dejson) then return false
      if !(← portIs443 host dejson) then return false
      addIsIp host dejson
  | .uswsfilter us ws port => do
      if !(← hasOwnProperties host dejson ["add", "ps", "net", "port"]) then return false
      if us then
        if !(← psNamesUs host dejson) then return false
      if ws then
        if !(← netIsWs host dejson) then return false
      if !(← addIsIp host dejson) then return false
      if port then portIs443 host dejson else return true

/-! ## The first pass -/

/-- The callback of `lines.filter`. -/
def keepLine (copy : Copy) (line : JsString) : Option Bool :=
  let trimmedLine := trim line
  if isUrlLink trimmedLine then some (urlTest host copy trimmedLine)
  else if startsWith trimmedLine vmess then do
    let vmessdestr ← decode (trimmedLine.drop 8)
    if vmessdestr = [] then return false
    vmessTest host copy (← jsonParse host.numbers vmessdestr)
  else some false

section Lines

variable {α : Type} (textOf : α → JsString)

/-- `lines.filter(...)` -/
def filteredLinks (copy : Copy) : List α → Option (List α)
  | [] => some []
  | line :: lines => do
      let keep ← keepLine host copy (textOf line)
      let links ← filteredLinks copy lines
      return if keep then line :: links else links

/-! ## The second pass -/

/-- `link.match(...)`, and what it captures: up to a `?`, for `ss` links up to a `#`. -/
def linkMatch (link : JsString) : Option JsString :=
  let upTo (last : UInt16) :=
    ((find [.one (· == 64), .run (· != 63), .one (· == last)] link).bind List.head?)
  if startsWith link ss then
    if link.take 15 = units "ss://cmM0LW1kNT" then none else upTo 35
  else upTo 63

/-- `seenPatterns` and `uniqueResults` -/
structure Seen (α : Type) where
  seenPatterns : List (Key host)
  uniqueResults : List α

/-- Keep the link if its key has not been seen. -/
def Seen.add (seen : Seen host α) (key : Key host) (link : α) : Seen host α :=
  if key ∈ seen.seenPatterns then seen
  else ⟨key :: seen.seenPatterns, seen.uniqueResults ++ [link]⟩

/-- The callback of `filteredLinks.forEach`. -/
def addLink (seen : Seen host α) (line : α) : Option (Seen host α) :=
  let link := textOf line
  if isUrlLink link then
    match linkMatch link with
    | some pattern =>
        some (if regexipport.rmatch pattern then seen.add host (.text pattern) line else seen)
    | none => some seen
  else do
    let dejson ← jsonParse host.numbers (← decode (link.drop 8))
    let lkurl ← plus host.numbers (← property dejson (units "add"))
      (← property dejson (units "port"))
    return seen.add host lkurl line

/-- The links that are left of the lines. -/
def uniqueResults (copy : Copy) (lines : List α) : Option (List α) := do
  let links ← filteredLinks host textOf copy lines
  let seen ← links.foldlM (addLink host textOf) ⟨[], []⟩
  return seen.uniqueResults

end Lines

/-- `filterAndDeduplicateLinks()`, from the value of the one text area to that of the
other. -/
def filterAndDeduplicateLinks (copy : Copy) (value : JsString) : Option JsString :=
  (uniqueResults host id copy (value.splitOn 10)).map ([10].intercalate ·)

end CodingLearners.LinkFilter
