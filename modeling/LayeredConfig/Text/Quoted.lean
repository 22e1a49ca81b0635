import LayeredConfig.Text.Printable

/-!
# Quoted text

The written form of a text inside a message. It stands between single quotes, or between double
quotes when it holds a single quote and no double one. The quote in use, the backslash and the
characters that are not printable are escaped: `\n`, `\r`, `\t` by name, the others by their code
point in two, four or eight hexadecimal digits. Bytes are written the same way behind a `b`, and
there every byte outside the printable ASCII range is escaped.
-/

namespace LayeredConfig

/-- One hexadecimal digit, in lower case. -/
def hexDigit (n : Nat) : Char := if n < 10 then Char.ofNat (48 + n) else Char.ofNat (87 + n)

/-- The last `width` hexadecimal digits of a number. -/
def hexDigits : (width : Nat) → Nat → List Char
  | 0, _ => []
  | width + 1, n => hexDigits width (n / 16) ++ [hexDigit (n % 16)]

theorem length_hexDigits (width n : Nat) : (hexDigits width n).length = width := by
  induction width generalizing n with
  | zero => rfl
  | succ width ih => simp [hexDigits, ih]

namespace Quoted

/-- The quote that needs the fewest escapes, a single one if there is a choice. -/
def quoteFor (cs : List Char) : Char :=
  if cs.contains '\'' && !cs.contains '"' then '"' else '\''

/-- The escapes that text and bytes have in common. -/
private def namedEscape (quote c : Char) : Option (List Char) :=
  if c == quote || c == '\\' then some ['\\', c]
  else if c == '\n' then some ['\\', 'n']
  else if c == '\r' then some ['\\', 'r']
  else if c == '\t' then some ['\\', 't']
  else none

/-- A code point that is not shown as itself. -/
private def numericEscape (n : Nat) : List Char :=
  if n < 0x100 then '\\' :: 'x' :: hexDigits 2 n
  else if n < 0x10000 then '\\' :: 'u' :: hexDigits 4 n
  else '\\' :: 'U' :: hexDigits 8 n

/-- A character of a text between the given quotes. -/
def escapeChar (quote c : Char) : List Char :=
  match namedEscape quote c with
  | some cs => cs
  | none => if isPrintable c then [c] else numericEscape c.toNat

/-- The written form of a text. -/
def text (s : String) : String :=
  let cs := s.toList
  let quote := quoteFor cs
  String.ofList (quote :: cs.flatMap (escapeChar quote) ++ [quote])

/-- A byte between the given quotes. -/
def escapeByte (quote : Char) (b : UInt8) : List Char :=
  let c := Char.ofNat b.toNat
  match namedEscape quote c with
  | some cs => cs
  | none => if 0x20 ≤ b.toNat ∧ b.toNat < 0x7f then [c] else '\\' :: 'x' :: hexDigits 2 b.toNat

/-- The written form of bytes. -/
def bytes (bs : List UInt8) : String :=
  let quote := quoteFor (bs.map fun b ↦ Char.ofNat b.toNat)
  String.ofList ('b' :: quote :: bs.flatMap (escapeByte quote) ++ [quote])

end Quoted

end LayeredConfig
