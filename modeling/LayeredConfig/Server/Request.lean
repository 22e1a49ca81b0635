import LayeredConfig.Number.Numeral
import LayeredConfig.Text.CaseMap
import LayeredConfig.Text.Quoted
import LayeredConfig.Text.Search

/-!
# Requests

A request names a method, a target and headers. The target is a path, in which bytes may be
written as a percent sign and two hexadecimal digits, and after a question mark a query.
-/

namespace LayeredConfig

/-- A request as it was sent. -/
structure Request where
  method : String
  target : String
  headers : List (String × String)
deriving Repr, Inhabited

namespace Percent

/-- The bytes of a text, percent escapes replaced by the bytes that they stand for. -/
def decode : List UInt8 → List UInt8
  | 0x25 :: a :: b :: rest =>
    match Numeral.digit? (Char.ofNat a.toNat), Numeral.digit? (Char.ofNat b.toNat) with
    | some high, some low =>
      if high < 16 ∧ low < 16 then UInt8.ofNat (16 * high + low) :: decode rest
      else 0x25 :: decode (a :: b :: rest)
    | _, _ => 0x25 :: decode (a :: b :: rest)
  | byte :: rest => byte :: decode rest
  | [] => []

/-- The percent escape of a byte. -/
def encodeByte (byte : UInt8) : String :=
  "%" ++ String.ofList ((hexDigits 2 byte.toNat).map Char.toUpper)

/-- The text of bytes in UTF-8; a byte that belongs to no character stays escaped. At most
`fuel` characters are read. -/
private def textFrom : (fuel : Nat) → List UInt8 → String
  | 0, _ => ""
  | _, [] => ""
  | fuel + 1, byte :: rest =>
    let bytes := byte :: rest
    let character (n : Nat) : Option (String × List UInt8) := do
      let s ← String.fromUTF8? ⟨(bytes.take n).toArray⟩
      if s.length = 1 then some (s, bytes.drop n) else none
    match [1, 2, 3, 4].findSome? character with
    | some (s, rest) => s ++ textFrom fuel rest
    | none => encodeByte byte ++ textFrom fuel rest

/-- The text of bytes in UTF-8; a byte that belongs to no character stays escaped. -/
def text (bytes : List UInt8) : String := textFrom bytes.length bytes

end Percent

namespace Request

/-- The part of the target in front of a fragment. -/
private def reference (r : Request) : List Char := r.target.toList.takeWhile (· ≠ '#')

/-- The path that the request is routed by. -/
def route (r : Request) : String :=
  let raw := String.ofList (r.reference.takeWhile (· ≠ '?'))
  let path := Percent.text (Percent.decode raw.toUTF8.toList)
  if path.isEmpty then "/" else path

/-- Leaves out the first slash. -/
private def dropSlash : List Char → List Char
  | [] => []
  | c :: rest => if c = '/' then rest else c :: dropSlash rest

/-- The path as it is reported, with a slash in front. -/
def path (r : Request) : String := String.ofList ('/' :: dropSlash r.route.toList)

/-- The names and values of the query. -/
def query (r : Request) : List (String × String) :=
  let raw := (r.reference.dropWhile (· ≠ '?')).drop 1
  (splitAt (· == '&') raw).filterMap fun field ↦
    if field.isEmpty then none else
      let plain (cs : List Char) : String :=
        let spaced := String.ofList (cs.map fun c ↦ if c = '+' then ' ' else c)
        Percent.text (Percent.decode spaced.toUTF8.toList)
      some (plain (field.takeWhile (· ≠ '=')), plain ((field.dropWhile (· ≠ '=')).drop 1))

/-- The last value of a name of the query. -/
def parameter? (r : Request) (name : String) : Option String :=
  (r.query.reverse.find? (·.1 == name)).map (·.2)

/-- What the spellings of a header's name have in common: case does not matter, and neither does
the choice between hyphen and underscore. -/
def headerKey (name : String) : String :=
  String.ofList ((upperCase name).toList.map fun c ↦ if c = '-' then '_' else c)

/-- The value of a header; the last one counts. -/
def header? (r : Request) (name : String) : Option String :=
  (r.headers.reverse.find? fun h ↦ headerKey h.1 == headerKey name).map (·.2)

/-- The method in upper case. -/
def verb (r : Request) : String := upperCase r.method

end Request

end LayeredConfig
