/-
SmallWeb/Text/Quoted.lean

The quoted form of a text, as messages show it.

A text stands between single quotes, or between double quotes when it holds a
single quote and no double one.  Inside, the backslash and the quote in use are
escaped by a backslash, three controls have a letter of their own, and every
other character that does not print as itself is written by its code point in
the shortest of three widths.
-/
import SmallWeb.Text.Printable

namespace SmallWeb.Text

/-- A number in `width` hexadecimal digits. -/
def hexDigits (width n : Nat) : List Char :=
  let digits := Nat.toDigits 16 n
  List.replicate (width - digits.length) '0' ++ digits

/-- A character of a text between the given quotes. -/
def quoteChar (quote c : Char) : List Char :=
  if c = quote || c = '\\' then ['\\', c]
  else if c = '\t' then ['\\', 't']
  else if c = '\n' then ['\\', 'n']
  else if c = '\r' then ['\\', 'r']
  else if isPrintable c then [c]
  else if c.toNat < 0x100 then '\\' :: 'x' :: hexDigits 2 c.toNat
  else if c.toNat < 0x10000 then '\\' :: 'u' :: hexDigits 4 c.toNat
  else '\\' :: 'U' :: hexDigits 8 c.toNat

/-- The quote that a text is put between. -/
def quoteFor (s : List Char) : Char :=
  if s.contains '\x27' && !s.contains '\x22' then '\x22' else '\x27'

/-- A text in quotes. -/
def quoted (s : List Char) : List Char :=
  quoteFor s :: s.flatMap (quoteChar (quoteFor s)) ++ [quoteFor s]

end SmallWeb.Text
