import CodingLearners.Library.UriComponent

/-!
# `decode` of `base64.js`

In a browser `decode` makes the text standard base64, drops every other
character, and decodes it with `atob` and a `TextDecoder`, which puts U+FFFD for
what is not UTF-8 and drops a byte order mark. Where `atob` throws, the result is
`none`.
-/

namespace CodingLearners.LinkFilter

open Js

/-! ## `atob` -/

/-- `[A-Za-z0-9\+\/]` -/
def isBase64 (u : UInt16) : Bool :=
  decide (65 ≤ u.toNat ∧ u.toNat ≤ 90) || decide (97 ≤ u.toNat ∧ u.toNat ≤ 122) ||
    decide (48 ≤ u.toNat ∧ u.toNat ≤ 57) || u == 43 || u == 47

/-- The six bits of a character. -/
def sextet (u : UInt16) : Nat :=
  if 97 ≤ u.toNat then u.toNat - 71
  else if 65 ≤ u.toNat then u.toNat - 65
  else if 48 ≤ u.toNat then u.toNat + 4
  else if u = 43 then 62
  else 63

def tidyB64 (s : JsString) : JsString := s.filter isBase64

/-- `_unURI(a)` -/
def unURI (a : JsString) : JsString :=
  tidyB64 (a.map fun u => if u = 45 then 43 else if u = 95 then 47 else u)

/-- The octets of a text of base64 characters; a single last one is an error. -/
def atobOctets : List Nat → Option (List Nat)
  | [] => some []
  | [_] => none
  | [a, b] => some [4 * a + b / 16]
  | [a, b, c] => some [4 * a + b / 16, b % 16 * 16 + c / 4]
  | a :: b :: c :: d :: rest =>
      (atobOctets rest).map
        ([4 * a + b / 16, b % 16 * 16 + c / 4, c % 4 * 64 + d] ++ ·)

def atob (s : JsString) : Option (List Nat) := atobOctets ((tidyB64 s).map sextet)

/-! ## `TextDecoder` -/

/-- A sequence that needs more octets, and the bounds of the next one. -/
structure Pending where
  codePoint : Nat
  needed : Nat
  lower : Nat
  upper : Nat

def replacement : Nat := 0xFFFD

/-- The first octet of a sequence. -/
def startOctet (octet : Nat) : List Nat × Option Pending :=
  if octet < 0x80 then ([octet], none)
  else if 0xC2 ≤ octet ∧ octet ≤ 0xDF then ([], some ⟨octet % 32, 1, 0x80, 0xBF⟩)
  else if 0xE0 ≤ octet ∧ octet ≤ 0xEF then
    ([], some ⟨octet % 16, 2, if octet = 0xE0 then 0xA0 else 0x80,
      if octet = 0xED then 0x9F else 0xBF⟩)
  else if 0xF0 ≤ octet ∧ octet ≤ 0xF4 then
    ([], some ⟨octet % 8, 3, if octet = 0xF0 then 0x90 else 0x80,
      if octet = 0xF4 then 0x8F else 0xBF⟩)
  else ([replacement], none)

/-- The code points of octets; an octet that does not continue a sequence starts anew. -/
def decodeUtf8 : Option Pending → List Nat → List Nat
  | none, [] => []
  | some _, [] => [replacement]
  | none, octet :: rest =>
      (startOctet octet).1 ++ decodeUtf8 (startOctet octet).2 rest
  | some pending, octet :: rest =>
      if pending.lower ≤ octet ∧ octet ≤ pending.upper then
        if pending.needed ≤ 1 then
          (pending.codePoint * 64 + octet % 64) :: decodeUtf8 none rest
        else
          decodeUtf8
            (some ⟨pending.codePoint * 64 + octet % 64, pending.needed - 1, 0x80, 0xBF⟩) rest
      else replacement :: ((startOctet octet).1 ++ decodeUtf8 (startOctet octet).2 rest)

/-- `new TextDecoder().decode(octets)` -/
def textDecode (octets : List Nat) : JsString :=
  let codePoints := decodeUtf8 none octets
  (if codePoints.head? = some 0xFEFF then codePoints.tail else codePoints).flatMap utf16

/-! ## `decode` -/

/-- `Base64.decode(src)` -/
def decode (src : JsString) : Option JsString := (atob (unURI src)).map textDecode

end CodingLearners.LinkFilter
