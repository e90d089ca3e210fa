/-
# Numbers in floating point and random engines

The code computes with `double`, and the type of those numbers is a parameter `R` here: `Scalar`
lists the operations the code uses, and nothing is assumed of them, so a theorem holds of IEEE
numbers whatever their rounding does.  `Scalar ℚ` is exact arithmetic.

`Engine` is a random engine as a deterministic stream of its seed, with the two distributions
that draw from it.
-/

import Canforge.Core.Text
import Canforge.Lib.Numeral

namespace Canforge
namespace Core

/-- `double`, and `float` as far as a signal of 32 bits needs it. -/
class Scalar (R : Type) extends Add R, Sub R, Mul R, Div R, Neg R where
  /-- A literal. -/
  lit : ℚ → R
  /-- `a < b`. -/
  lt : R → R → Bool
  /-- `a <= b`. -/
  le : R → R → Bool
  /-- `a == b`. -/
  eq : R → R → Bool
  isNan : R → Bool
  isFinite : R → Bool
  /-- `static_cast<double>` of an unsigned number. -/
  ofNat : ℕ → R
  /-- `static_cast<double>` of a signed number. -/
  ofInt : ℤ → R
  /-- `static_cast<std::uint64_t>`. -/
  toNat : R → ℕ
  /-- `static_cast<std::int64_t>`. -/
  toInt : R → ℤ
  fabs : R → R
  sin : R → R
  /-- `std::round`, halves away from zero. -/
  round : R → R
  /-- `std::strtod`. -/
  strtod : Text → R
  /-- `std::to_string`. -/
  toText : R → Text
  /-- The `float` of a bit pattern, as a `double`. -/
  ofFloatBits : BitVec 32 → R
  /-- The `double` of a bit pattern. -/
  ofDoubleBits : BitVec 64 → R
  /-- The bits of `static_cast<float>`. -/
  toFloatBits : R → BitVec 32
  /-- The bits of a `double`. -/
  toDoubleBits : R → BitVec 64

namespace Scalar

variable {R : Type} [Scalar R]

/-- `std::min`. -/
def min (a b : R) : R := if lt b a then b else a

/-- `std::max`. -/
def max (a b : R) : R := if lt a b then b else a

/-- `std::clamp`. -/
def clamp (v lo hi : R) : R := if lt v lo then lo else if lt hi v then hi else v

end Scalar

/-- The number of the digits before and behind a point; a second point ends it. -/
def decimal (text : Text) : ℚ :=
  let whole := text.takeWhile isDigit
  let value (digits : Text) : ℕ := digits.foldl (fun n c => 10 * n + digitVal c) 0
  match text.dropWhile isDigit with
  | point :: rest =>
    if point = ch '.' then
      let fraction := rest.takeWhile isDigit
      (value whole : ℚ) + value fraction / 10 ^ fraction.length
    else value whole
  | [] => value whole

/-- `%f` of an exact number: six digits behind the point. -/
def fixedPoint (q : ℚ) : Text :=
  let millionths := (|q| * 1000000 + 1 / 2).floor.toNat
  (if q < 0 then [ch '-'] else []) ++ (Lib.numeral 10 1 (millionths / 1000000)).map digitChar ++
    ch '.' :: (Lib.numeral 10 6 (millionths % 1000000)).map digitChar

/-- Exact arithmetic.  It has no infinities, no sine and no bit patterns, and its texts have no
exponents. -/
instance : Scalar ℚ where
  lit q := q
  lt a b := decide (a < b)
  le a b := decide (a ≤ b)
  eq a b := decide (a = b)
  isNan _ := false
  isFinite _ := true
  ofNat n := n
  ofInt n := n
  toNat q := (q.num.tdiv q.den).toNat
  toInt q := q.num.tdiv q.den
  fabs q := if q < 0 then -q else q
  sin _ := 0
  round q := if q < 0 then -((1 / 2 - q).floor : ℚ) else ((q + 1 / 2).floor : ℚ)
  strtod text :=
    match text with
    | c :: rest =>
      if c = ch '-' then -decimal rest else if c = ch '+' then decimal rest else decimal text
    | [] => 0
  toText := fixedPoint
  ofFloatBits _ := 0
  ofDoubleBits _ := 0
  toFloatBits _ := 0
  toDoubleBits _ := 0

/-- A random engine `G` and the distributions of numbers drawn from it. -/
class Engine (G R : Type) where
  /-- The engine after `seed`. -/
  seed : ℕ → G
  /-- `std::uniform_real_distribution`. -/
  uniformReal : R → R → G → R × G
  /-- `std::uniform_int_distribution`. -/
  uniformInt : ℤ → ℤ → G → ℤ × G

/-- A linear congruential engine. -/
def lcg (state : ℕ) : ℕ := (6364136223846793005 * state + 1442695040888963407) % 2 ^ 64

instance : Engine ℕ ℚ where
  seed n := lcg (n % 2 ^ 64)
  uniformReal low high g := (low + (high - low) * (g / 2 ^ 64 : ℚ), lcg g)
  uniformInt low high g := (low + g % (high - low + 1), lcg g)

end Core
end Canforge
