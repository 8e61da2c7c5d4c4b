import TableQuery.Number.Rounding

/-! The shortest decimal that reads back. Around a finite number lies the interval of reals that
round to it; among its decimals with the fewest digits the one nearest to the number is taken. Two of
them can be equally near, and then a rule for ties decides. -/
namespace TableQuery.Number

/-- The number `digits * 10 ^ exponent`. -/
structure Decimal where
  digits : Nat
  exponent : Int
  deriving DecidableEq

/-- Which of two neighbours on a grid is taken for a number halfway between them. -/
inductive Tie
  | even | upper
  deriving DecidableEq

/-- Whether the upper neighbour is taken when the lower one is `below`. -/
def Tie.roundsUp (tie : Tie) (below : Nat) : Bool :=
  match tie with
  | .even => below % 2 = 1
  | .upper => true

/-- The reals that round to `m * 2 ^ e`, in quarters of `2 ^ e`: from `low` to `high` around
`middle`, the ends included when `m` is even. -/
structure Interval where
  low : Nat
  middle : Nat
  high : Nat
  closed : Bool

/-- Below a power of two the neighbours are twice as dense. -/
def Interval.around (m : Nat) (e : Int) : Interval :=
  ⟨if m = 2 ^ 52 && -1074 < e then 4 * m - 1 else 4 * m - 2, 4 * m, 4 * m + 2, m % 2 = 0⟩

/-- Whether `low < c * den / num < high`, ends as the interval has them. -/
def Interval.holds (i : Interval) (num den c : Nat) : Bool :=
  if i.closed then i.low * num ≤ c * den && c * den ≤ i.high * num
  else i.low * num < c * den && c * den < i.high * num

/-- The neighbour of `middle * num / den` among the integers that lies in the interval, the nearer
one if both do. -/
def Interval.nearestIn (i : Interval) (tie : Tie) (num den : Nat) : Option Nat :=
  let below := i.middle * num / den
  let rest := i.middle * num % den
  let upFirst := den < 2 * rest || (den = 2 * rest && tie.roundsUp below)
  let first := if upFirst then below + 1 else below
  let second := if upFirst then below else below + 1
  if i.holds num den first then some first
  else if i.holds num den second then some second
  else none

/-- Tries the multiples of `10 ^ k`, then of `10 ^ (k - 1)`, and so on, `steps` times. -/
def searchShortest (i : Interval) (tie : Tie) (e : Int) : Nat → Int → Decimal
  | 0, k => ⟨0, k⟩
  | steps + 1, k =>
    let num := 2 ^ (e - 2).toNat * 10 ^ (-k).toNat
    let den := 2 ^ (2 - e).toNat * 10 ^ k.toNat
    match i.nearestIn tie num den with
    | some c => ⟨c, k⟩
    | none => searchShortest i tie e steps (k - 1)

/-- The shortest decimal of the finite number with this magnitude. The search starts above the
number's own power of ten and needs at most seventeen digits. -/
def shortest (tie : Tie) (magnitude : Nat) : Decimal :=
  if magnitude = 0 then ⟨0, 0⟩
  else
    let (m, e) := unpack magnitude
    let top : Int := ((m.log2 : Int) + e) * 30103 / 100000 + 2
    searchShortest (.around m e) tie e 24 top

end TableQuery.Number
