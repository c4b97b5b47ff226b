/-! Binary fractions with 53 significant bits. A ratio is rounded to the nearest of them, and a tie goes
to the even neighbour. -/
namespace BasicMachine

/-- The whole number nearest to `n / d`; of two, the even one. -/
def roundDiv (n : Int) (d : Nat) : Int :=
  let q := n / d
  let r := n % d
  if 2 * r < d ∨ (2 * r = d ∧ q % 2 = 0) then q else q + 1

/-- The number `mantissa * 2 ^ exponent`. -/
structure Double where
  mantissa : Int
  exponent : Int
  deriving DecidableEq, Repr

namespace Double

/-- The power of two with the exponent `k`. -/
def powerOfTwo (k : Nat) : Nat := Nat.pow 2 k

/-- `n * 2 ^ k / d` rounded, for a negative `k` too. -/
def scaledDiv (round : Int → Nat → Int) (n : Int) (d : Nat) (k : Int) : Int :=
  if 0 ≤ k then round (n * powerOfTwo k.toNat) d else round n (d * powerOfTwo (-k).toNat)

/-- The double nearest to `n / d`. -/
def ofRatio (n : Int) (d : Nat) : Double :=
  if n = 0 then ⟨0, 0⟩
  else
    let e : Int := n.natAbs.log2 - d.log2 - 52
    let short := scaledDiv (fun a b => a / b) n.natAbs d (-e) < powerOfTwo 52
    let e := if short then e - 1 else e
    ⟨scaledDiv roundDiv n d (-e), e⟩

def ofInt (n : Int) : Double := ofRatio n 1

def mul (x y : Double) : Double :=
  let e := x.exponent + y.exponent
  let m := x.mantissa * y.mantissa
  if 0 ≤ e then ofRatio (m * powerOfTwo e.toNat) 1 else ofRatio m (powerOfTwo (-e).toNat)

/-- The whole part, toward zero. -/
def trunc (x : Double) : Int := scaledDiv (fun a b => a.tdiv b) x.mantissa 1 x.exponent

def floor (x : Double) : Int := scaledDiv (fun a b => a / b) x.mantissa 1 x.exponent

/-- The number lies beyond the largest finite double. -/
def isHuge (x : Double) : Bool := decide (powerOfTwo 1024 ≤ x.trunc.natAbs)

/-- The nearest whole number; of two, the even one. -/
def round (x : Double) : Int := scaledDiv roundDiv x.mantissa 1 x.exponent

/-- The remainder by `n`, which is never negative. For a negative number it need not be a double, and is
rounded to one. -/
def mod (x : Double) (n : Nat) : Double :=
  if 0 ≤ x.exponent then ofInt (x.mantissa * powerOfTwo x.exponent.toNat % n)
  else
    let d := powerOfTwo (-x.exponent).toNat
    ofRatio (x.mantissa % (n * d : Nat)) d

end Double
end BasicMachine
