import HeteroNet.Word

/-
The fewest decimal digits that read back as a given single.

A finite positive single is `m * 2^q` for natural `m`. The reals that round to it form an
interval from halfway to its predecessor to halfway to its successor, and the two ends belong
to it exactly when `m` is even. For one digit, two digits, and so on, the two neighbours of the
value on the grid with that many digits are tested against the interval; the first grid with a
hit wins, and of two hits the nearer. Which of two equally near hits wins is for the caller to
say. All of it is exact arithmetic on naturals.
-/

namespace HeteroNet

/-- The number `digits * 10^exponent`. -/
structure Decimal where
  digits : Nat
  exponent : Int
  deriving DecidableEq, Repr

namespace Decimal

/-- Which of two decimals is taken when the value lies halfway between them. -/
inductive Tie where
  | larger
  /-- The one whose last digit is even. -/
  | even
  deriving DecidableEq, Repr

/-- The choice between `d` and `d + 1`. -/
def Tie.choose (t : Tie) (d : Nat) : Nat :=
  match t with
  | larger => d + 1
  | even => if d % 2 = 0 then d else d + 1

/-- A nonnegative rational `num / den`. -/
structure Ratio where
  num : Nat
  den : Nat

/-- `n * base^e`. -/
def scaled (base n : Nat) (e : Int) : Ratio :=
  if 0 ≤ e then ⟨n * Nat.pow base e.toNat, 1⟩ else ⟨n, Nat.pow base (-e).toNat⟩

def Ratio.le (a b : Ratio) : Bool := a.num * b.den ≤ b.num * a.den
def Ratio.lt (a b : Ratio) : Bool := a.num * b.den < b.num * a.den

/-- The distance between two rationals. -/
def Ratio.distance (a b : Ratio) : Ratio :=
  let x := a.num * b.den
  let y := b.num * a.den
  ⟨(x - y) + (y - x), a.den * b.den⟩

/-- The reals that read back as one single, and the single itself. -/
structure Neighbourhood where
  lower : Ratio
  value : Ratio
  upper : Ratio
  closed : Bool

def Neighbourhood.contains (n : Neighbourhood) (x : Ratio) : Bool :=
  if n.closed then n.lower.le x && x.le n.upper else n.lower.lt x && x.lt n.upper

/-- The fraction and the power of two of a finite single: it is `m * 2^q`. -/
def split (w : Word) : Nat × Int :=
  let fraction := (w.magnitude &&& 0x7fffff).toNat
  if w.exponent = 0 then (fraction, -149) else (fraction + 0x800000, (w.exponent : Int) - 150)

/-- Below a power of two the singles lie twice as close. -/
def neighbourhood (w : Word) : Neighbourhood :=
  let (m, q) := split w
  let below := if m = 0x800000 ∧ 1 < w.exponent then 1 else 2
  { lower := scaled 2 (4 * m - below) (q - 2)
    value := scaled 2 m q
    upper := scaled 2 (4 * m + 2) (q - 2)
    closed := m % 2 = 0 }

/-- The number of decimal digits before the point; for numbers below one, minus the number of
zeros after it. Tries the exponents of the singles, from the largest down. -/
def magnitude (x : Ratio) : Int :=
  let rec down : Nat → Int → Int
    | 0, e => e
    | fuel + 1, e => if (scaled 10 1 (e - 1)).le x then e else down fuel (e - 1)
  down 90 40

/-- The better of the two neighbours of the value on the grid of multiples of `10^e`. -/
def onGrid (tie : Tie) (n : Neighbourhood) (e : Int) : Option Nat :=
  let unit := scaled 10 1 e
  let d := (n.value.num * unit.den) / (n.value.den * unit.num)
  let at' (k : Nat) := scaled 10 k e
  match n.contains (at' d), n.contains (at' (d + 1)) with
  | true, true =>
    let below := (at' d).distance n.value
    let above := (at' (d + 1)).distance n.value
    if below.lt above then some d else if above.lt below then some (d + 1) else some (tie.choose d)
  | true, false => some d
  | false, true => some (d + 1)
  | false, false => none

/-- Moves trailing zeros of the digits into the exponent. -/
def strip : Nat → Decimal → Decimal
  | 0, d => d
  | fuel + 1, d =>
    if d.digits % 10 = 0 ∧ d.digits ≠ 0 then strip fuel ⟨d.digits / 10, d.exponent + 1⟩ else d

/-- The shortest decimal that reads back as the finite word `w`, up to its sign. -/
def shortest (tie : Tie) (w : Word) : Decimal :=
  if w.magnitude = 0 then ⟨0, 0⟩
  else
    let n := neighbourhood w
    let places := magnitude n.value
    let hit := (List.range 17).findSome? fun (i : Nat) =>
      (onGrid tie n (places - 1 - i)).map fun d => Decimal.mk d (places - 1 - i)
    strip 20 (hit.getD ⟨0, 0⟩)

end Decimal

end HeteroNet
