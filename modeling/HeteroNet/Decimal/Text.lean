import HeteroNet.Decimal.Shortest

/-
How a single is written. All texts use the shortest digits that read back; they differ in when
they turn to an exponent, in whether a whole number shows a fraction, and in which of two
equally near decimals they take.
-/

namespace HeteroNet

/-- A number is written positionally when its decimal point stands between the two bounds,
counted in digits from the first significant one; otherwise with an exponent. -/
structure NumberStyle where
  firstPoint : Int
  lastPoint : Int
  /-- A whole number in positional form ends in `.0`. -/
  fraction : Bool
  tie : Decimal.Tie

namespace NumberStyle

/-- For messages: never an exponent, and no fraction on whole numbers. -/
def plain : NumberStyle := ⟨-1000, 1000, false, .larger⟩

/-- For listings: positional from 10^-4 up to below 10^16, always with a fraction. -/
def listing : NumberStyle := ⟨-3, 16, true, .larger⟩

/-- For reports in JSON: positional from 10^-6 up to below 10^13, always with a fraction. -/
def report : NumberStyle := ⟨-5, 13, true, .even⟩

def zeros (n : Nat) : String := "".pushn '0' n

/-- The digits with a point after the first `point` of them, padded with zeros on either side. -/
def positional (style : NumberStyle) (digits : String) (point : Int) : String :=
  let n := digits.length
  if point ≤ 0 then "0." ++ zeros (-point).toNat ++ digits
  else if n ≤ point.toNat then
    digits ++ zeros (point.toNat - n) ++ (if style.fraction then ".0" else "")
  else (digits.take point.toNat).toString ++ "." ++ (digits.drop point.toNat).toString

def exponential (digits : String) (point : Int) : String :=
  let head := (digits.take 1).toString
  let tail := (digits.drop 1).toString
  (if tail.isEmpty then head else head ++ "." ++ tail) ++ "e" ++ toString (point - 1)

def magnitude (style : NumberStyle) (d : Decimal) : String :=
  if d.digits = 0 then if style.fraction then "0.0" else "0"
  else
    let digits := toString d.digits
    let point := d.exponent + digits.length
    if style.firstPoint ≤ point ∧ point ≤ style.lastPoint then style.positional digits point
    else exponential digits point

def write (style : NumberStyle) (w : Word) : String :=
  if w.isNaN then "NaN"
  else
    let sign := if w.sign = 0 then "" else "-"
    if w.magnitude = 0x7f800000 then sign ++ "inf"
    else sign ++ style.magnitude (Decimal.shortest style.tie w)

end NumberStyle

end HeteroNet
