/-
SmallWeb/Number/Shortest.lean

The shortest decimal text of a binary64 number, and its integral part.

A finite number is `m · 2^q`.  The reals that round to it form an interval
around it, whose ends belong to it exactly when `m` is even.  The text is the
decimal with the fewest digits in that interval, and of those the nearest to the
number.  All comparisons are made in natural numbers: both sides are multiplied
by `10^400` and by the power of two in the denominator.

The layout of the digits is data of the format, in `decimalText`: numbers from
`10^-4` up to `10^16` are positional and keep at least one digit on both sides
of the point, others have an exponent of at least two digits.
-/
import SmallWeb.Text.Digit

namespace SmallWeb.Number

/-! ### Powers -/

/-- A power of two. -/
def pow2 (n : Nat) : Nat := Nat.pow 2 n

/-- A power of ten. -/
def pow10 (n : Nat) : Nat := Nat.pow 10 n

/-! ### The parts of a number -/

/-- A number as sign, integral significand and binary exponent, with whether
its lower neighbour is only half as far away as the upper one. -/
structure Binary where
  negative : Bool
  significand : Nat
  exponent : Int
  unevenGap : Bool

/-- The parts of a number that is finite. -/
def parts? (x : Float) : Option Binary :=
  let bits : Nat := x.toBits.toNat
  let negative : Bool := bits / pow2 63 % 2 == 1
  let biased : Nat := bits / pow2 52 % 2048
  let fraction : Nat := bits % pow2 52
  if biased = 2047 then none
  else if biased = 0 then some ⟨negative, fraction, -1074, false⟩
  else some ⟨negative, fraction + pow2 52, (biased : Int) - 1075, fraction == 0 && biased != 1⟩

/-- The integral part of a number, towards zero. -/
def truncate? (x : Float) : Option Int :=
  (parts? x).map fun b =>
    let n : Nat := if b.exponent ≥ 0 then b.significand * pow2 b.exponent.toNat
      else b.significand / pow2 (-b.exponent).toNat
    if b.negative then -(n : Int) else (n : Int)

/-! ### The shortest digits -/

/-- The interval of reals that round to a number, scaled to natural numbers:
its ends, the number itself, and what one unit is scaled to. -/
structure Scaled where
  low : Nat
  value : Nat
  high : Nat
  one : Nat
  closed : Bool

/-- The scaled interval of a number.  In quarters of its last place the number
is `4m`, the upper end `4m + 2`, and the lower end `4m - 2`, or `4m - 1` where
the gap below is half as wide. -/
def Binary.scaled (b : Binary) : Scaled :=
  let up := pow10 400 * pow2 (b.exponent - 2).toNat
  { low := (4 * b.significand - if b.unevenGap then 1 else 2) * up
    value := 4 * b.significand * up
    high := (4 * b.significand + 2) * up
    one := pow10 400 * pow2 (2 - b.exponent).toNat
    closed := b.significand % 2 == 0 }

/-- Whether a scaled real rounds to the number. -/
def Scaled.holds (s : Scaled) (x : Nat) : Bool :=
  if s.closed then s.low ≤ x && x ≤ s.high else s.low < x && x < s.high

/-- The position of the decimal point before the first digit: the `e` with
`10^(e-1) ≤ value < 10^e`. -/
def Scaled.point (s : Scaled) : Int :=
  ((Nat.toDigits 10 (s.value * pow10 400 / s.one)).length : Int) - 400

/-- The neighbour of the value on the grid of decimals with `count` digits that
rounds to the number, the nearer one where both do and the even one in a tie. -/
def Scaled.onGrid? (s : Scaled) (count : Nat) : Option Nat :=
  let exponent := s.point - count + 400
  let step := pow10 exponent.toNat * (s.one / pow10 400)
  let below := s.value / step
  let above := below + 1
  match s.holds (below * step), s.holds (above * step) with
  | true, true =>
    let left := s.value - below * step
    let right := above * step - s.value
    some (if left < right || (left == right && below % 2 == 0) then below else above)
  | true, false => some below
  | false, true => some above
  | false, false => none

/-- The fewest digits that denote the number, as a natural number and the
exponent of its last digit. -/
def Scaled.shortest (s : Scaled) : Nat × Int :=
  match (List.range 17).findSome? fun i => (s.onGrid? (i + 1)).map (·, i + 1) with
  | some (n, count) => (n, s.point - count)
  | none => (0, 0)

/-! ### Layout -/

/-- Digits `n` whose last one has weight `10^e`, as text. -/
def decimalText (n : Nat) (e : Int) : List Char :=
  let digits := (Text.dropEndWhile (· == '0') (Text.ofNat n))
  let point : Int := (Text.ofNat n).length + e
  let count : Int := digits.length
  if -4 < point && point ≤ 16 then
    if point ≤ 0 then ['0', '.'] ++ List.replicate (-point).toNat '0' ++ digits
    else if count ≤ point then
      digits ++ List.replicate (point - count).toNat '0' ++ ['.', '0']
    else digits.take point.toNat ++ ['.'] ++ digits.drop point.toNat
  else
    let power := Text.ofNat (point - 1).natAbs
    digits.take 1 ++ (if count ≤ 1 then [] else '.' :: digits.drop 1)
      ++ ['e', if point - 1 < 0 then '-' else '+']
      ++ List.replicate (2 - power.length) '0' ++ power

/-- The shortest text that reads back as the number. -/
def text (x : Float) : List Char :=
  match parts? x with
  | none => (if x.isNaN then "nan" else if x < 0 then "-inf" else "inf").toList
  | some b =>
    (if b.negative then ['-'] else []) ++
      if b.significand = 0 then ['0', '.', '0']
      else
        let (n, e) := b.scaled.shortest
        decimalText n e

end SmallWeb.Number
