import ShellDocs.Decimal.Binary64

/-!
# The shortest decimal text of a floating-point value

A finite value is written with the fewest digits that read back as that value, and among those
with the digits nearest to it; of two that are equally near, the even one is taken. `shortest`
tries one digit, then two, and so on: on each decimal grid only the two neighbours of the value
can be the answer. `Binary64.text` then places the point, or an exponent when the point would
stand more than sixteen digits to the right or more than four zeros to the left.
-/

namespace ShellDocs.Binary64

/-- A decimal number `0.d₁d₂… * 10 ^ point`. -/
structure Digits where
  digits : Text
  point : Int
  deriving DecidableEq, Repr

/-- A positive value with the two ends of the interval of reals that round to it, as numerators
over one denominator. -/
structure Interval where
  low : Nat
  value : Nat
  high : Nat
  den : Nat
  /-- Whether the ends themselves round to the value. -/
  closed : Bool

/-- The interval of the value `m * 2 ^ e`. Below a power of two the spacing is halved. -/
def interval (m : Nat) (e : Int) : Interval :=
  let below := if m = Nat.pow 2 52 ∧ leastExponent < e then 4 * m - 1 else 4 * m - 2
  let num := if e < 2 then 1 else Nat.pow 2 (e - 2).toNat
  let den := if e < 2 then Nat.pow 2 (2 - e).toNat else 1
  ⟨below * num, 4 * m * num, (4 * m + 2) * num, den, m % 2 = 0⟩

/-- Whether the decimal `c * 10 ^ unit` lies in the interval. -/
def Interval.holds (i : Interval) (c : Nat) (unit : Int) : Bool :=
  let num := if unit < 0 then c else c * Nat.pow 10 unit.toNat
  let den := if unit < 0 then Nat.pow 10 (-unit).toNat else 1
  let low := i.low * den
  let high := i.high * den
  let x := num * i.den
  if i.closed then low ≤ x && x ≤ high else low < x && x < high

/-- How many digits stand left of the point; zeros right after the point count negatively. -/
def pointOf (value den : Nat) : Int :=
  if den ≤ value then ((Nat.toDigits 10 (value / den)).length : Int) else below 400 value
where
  /-- The count for a value below one, which has at most `fuel` zeros after the point. -/
  below : Nat → Nat → Int
    | 0, _ => 0
    | fuel + 1, v => if den ≤ v * 10 then 0 else below fuel (v * 10) - 1

/-- The value's lower neighbour on the grid of multiples of `10 ^ unit`, and whether the next one
is nearer; the middle between the two goes to the even one. -/
def Interval.floor (i : Interval) (unit : Int) : Nat × Bool :=
  let num := if unit < 0 then i.value * Nat.pow 10 (-unit).toNat else i.value
  let den := if unit < 0 then i.den else i.den * Nat.pow 10 unit.toNat
  let c := num / den
  let double := 2 * (num % den)
  (c, den < double || (den == double && c % 2 == 1))

/-- The first grid, of `count` digits or more, that has a neighbour of the value in its
interval. -/
def shortestFrom (i : Interval) (point : Int) : Nat → Nat → Nat × Int
  | 0, count => ((i.floor (point - count)).1, point - count)
  | fuel + 1, count =>
      let unit := point - count
      let (c, up) := i.floor unit
      let lower := i.holds c unit && 0 < c
      let upper := i.holds (c + 1) unit
      if lower && upper then (if up then c + 1 else c, unit)
      else if lower then (c, unit)
      else if upper then (c + 1, unit)
      else shortestFrom i point fuel (count + 1)

/-- The shortest digits that read back as `m * 2 ^ e`. -/
def shortest (m : Nat) (e : Int) : Digits :=
  let i := interval m e
  let (c, unit) := shortestFrom i (pointOf i.value i.den) 20 1
  let digits := Nat.toDigits 10 c
  ⟨Text.dropTail (· == '0') digits, unit + digits.length⟩

/-- The digits with their point: positional from `0.0001` up to sixteen digits before the point,
and with an exponent of at least two digits outside that range. -/
def Digits.text (d : Digits) : Text :=
  let n := d.digits.length
  if d.point ≤ -4 ∨ 16 < d.point then
    let exponent := d.point - 1
    let mantissa := match d.digits with
      | [] => []
      | [c] => [c]
      | c :: cs => c :: '.' :: cs
    let sign := if exponent < 0 then '-' else '+'
    mantissa ++ 'e' :: sign :: Text.padZeros 2 (Text.ofNat exponent.natAbs)
  else if d.point ≤ 0 then
    ("0." : Text) ++ List.replicate (-d.point).toNat '0' ++ d.digits
  else
    let k := d.point.toNat
    if n ≤ k then d.digits ++ List.replicate (k - n) '0' ++ ".0"
    else d.digits.take k ++ '.' :: d.digits.drop k

/-- The shortest text that reads back as the value. -/
def text : Binary64 → Text
  | .notANumber => "nan"
  | .infinite negative => if negative then "-inf" else "inf"
  | .finite negative m e =>
      let magnitude : Text := if m = 0 then "0.0" else (shortest m e).text
      if negative then '-' :: magnitude else magnitude

end ShellDocs.Binary64
