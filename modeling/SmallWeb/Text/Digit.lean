/-
SmallWeb/Text/Digit.lean

Numbers in the decimal notation, read and written.

The decimal digits of every script count: the characters of category `Nd` come
in blocks of ten in order of their values, so one table of blocks gives both the
class and the values.  Two notations for an integer are read.  The plain one is
an optional minus sign and digits.  The relaxed one admits padding around the
number, either sign, and single underscores between digits.

Integers have no bound, so numbers with any number of digits are read and written.  A
machine may refuse to convert very long ones, as a setting of its own; that is left out,
as are its limits on memory and on the depth of recursion.  Of the limits of a machine
only the length of a text is kept (`Text.maxLength`).
-/
import SmallWeb.Text.Split

namespace SmallWeb.Text

/-! ### Digits -/

/-- The decimal digits.  Each range is a sequence of blocks `0` to `9`. -/
def digitRanges : List (Nat × Nat) :=
  [(0x30, 0x39), (0x660, 0x669), (0x6f0, 0x6f9), (0x7c0, 0x7c9), (0x966, 0x96f), (0x9e6, 0x9ef),
   (0xa66, 0xa6f), (0xae6, 0xaef), (0xb66, 0xb6f), (0xbe6, 0xbef), (0xc66, 0xc6f),
   (0xce6, 0xcef), (0xd66, 0xd6f), (0xde6, 0xdef), (0xe50, 0xe59), (0xed0, 0xed9),
   (0xf20, 0xf29), (0x1040, 0x1049), (0x1090, 0x1099), (0x17e0, 0x17e9), (0x1810, 0x1819),
   (0x1946, 0x194f), (0x19d0, 0x19d9), (0x1a80, 0x1a89), (0x1a90, 0x1a99), (0x1b50, 0x1b59),
   (0x1bb0, 0x1bb9), (0x1c40, 0x1c49), (0x1c50, 0x1c59), (0xa620, 0xa629), (0xa8d0, 0xa8d9),
   (0xa900, 0xa909), (0xa9d0, 0xa9d9), (0xa9f0, 0xa9f9), (0xaa50, 0xaa59), (0xabf0, 0xabf9),
   (0xff10, 0xff19), (0x104a0, 0x104a9), (0x10d30, 0x10d39), (0x11066, 0x1106f),
   (0x110f0, 0x110f9), (0x11136, 0x1113f), (0x111d0, 0x111d9), (0x112f0, 0x112f9),
   (0x11450, 0x11459), (0x114d0, 0x114d9), (0x11650, 0x11659), (0x116c0, 0x116c9),
   (0x11730, 0x11739), (0x118e0, 0x118e9), (0x11950, 0x11959), (0x11c50, 0x11c59),
   (0x11d50, 0x11d59), (0x11da0, 0x11da9), (0x16a60, 0x16a69), (0x16ac0, 0x16ac9),
   (0x16b50, 0x16b59), (0x1d7ce, 0x1d7ff), (0x1e140, 0x1e149), (0x1e2f0, 0x1e2f9),
   (0x1e950, 0x1e959), (0x1fbf0, 0x1fbf9)]

/-- A decimal digit of any script. -/
def isDigit (c : Char) : Bool := inRanges digitRanges c

/-- The value of a decimal digit. -/
def digitValue? (c : Char) : Option Nat :=
  (digitRanges.find? fun r => r.1 ≤ c.toNat && c.toNat ≤ r.2).map fun r => (c.toNat - r.1) % 10

/-- The number that digits denote when `n` stands before them. -/
def readDigitsFrom? (n : Nat) : List Char → Option Nat
  | [] => some n
  | c :: s => (digitValue? c).bind fun d => readDigitsFrom? (10 * n + d) s

/-- The number that a nonempty sequence of digits denotes. -/
def readDigits? (s : List Char) : Option Nat :=
  if s.isEmpty then none else readDigitsFrom? 0 s

/-! ### Integers -/

/-- The plain notation: an optional minus sign, then digits. -/
def readPlainInt? : List Char → Option Int
  | '-' :: s => (readDigits? s).map fun n => -(n : Int)
  | s => (readDigits? s).map fun n => (n : Int)

/-- The number that groups of digits denote, with one underscore between each
two groups. -/
def readGroups? (s : List Char) : Option Nat :=
  let groups := splitOn '_' s
  if groups.any List.isEmpty then none else readDigits? groups.flatten

/-- A blank that may stand around a number: any but the four information
separators. -/
def isPadding (c : Char) : Bool :=
  isBlank c && !(0x1c ≤ c.toNat && c.toNat ≤ 0x1f)

/-- The relaxed notation: padding, an optional sign, digits with single
underscores between them, padding. -/
def readInt? (s : List Char) : Option Int :=
  match dropEndWhile isPadding (s.dropWhile isPadding) with
  | '-' :: t => (readGroups? t).map fun n => -(n : Int)
  | '+' :: t => (readGroups? t).map fun n => (n : Int)
  | t => (readGroups? t).map fun n => (n : Int)

/-- The decimal digits of a number. -/
def ofNat (n : Nat) : List Char := Nat.toDigits 10 n

/-- An integer in the plain notation. -/
def ofInt : Int → List Char
  | .ofNat n => ofNat n
  | .negSucc n => '-' :: ofNat (n + 1)

end SmallWeb.Text
