import StateTree.Time.Calendar

/-!
Instants of universal time to the nanosecond. A leap second is the second before it with more than
a thousand million nanoseconds.
-/

namespace StateTree

/-- Seconds are counted from the start of 1970. -/
structure Instant where
  seconds : Int
  nanos : Nat
  deriving DecidableEq

namespace Instant

def billion : Nat := 1000000000

def day (t : Instant) : Int := t.seconds / 86400

def secondOfDay (t : Instant) : Nat := (t.seconds % 86400).toNat

/-- A number with zeros in front up to a width. -/
def padded (width n : Nat) : String :=
  let digits := Nat.toDigits 10 n
  String.ofList (List.replicate (width - digits.length) '0' ++ digits)

/-- Years from 0 to 9999 have four digits; others have a sign too. -/
def yearText (year : Int) : String :=
  if year < 0 then "-" ++ padded 4 year.natAbs
  else if year ≤ 9999 then padded 4 year.natAbs
  else "+" ++ padded 4 year.natAbs

/-- Three, six or nine decimals, the fewest that are exact; none for a whole second. -/
def fractionText (nanos : Nat) : String :=
  if nanos = 0 then ""
  else if nanos % 1000000 = 0 then "." ++ padded 3 (nanos / 1000000)
  else if nanos % 1000 = 0 then "." ++ padded 6 (nanos / 1000)
  else "." ++ padded 9 nanos

def text (t : Instant) : String :=
  let date := Date.ofDays t.day
  let second := t.secondOfDay % 60 + t.nanos / billion
  yearText date.year ++ "-" ++ padded 2 date.month ++ "-" ++ padded 2 date.day ++ "T" ++
    padded 2 (t.secondOfDay / 3600) ++ ":" ++ padded 2 (t.secondOfDay / 60 % 60) ++ ":" ++
    padded 2 second ++ fractionText (t.nanos % billion) ++ "Z"

/-- The time in nanoseconds from the first instant to the last. A leap second counts where the one
of them with the earlier time of day stands in it. -/
def elapsed (first last : Instant) : Int :=
  let leap : Int :=
    if first.secondOfDay < last.secondOfDay then if billion ≤ first.nanos then 1 else 0
    else if last.secondOfDay < first.secondOfDay then if billion ≤ last.nanos then -1 else 0
    else 0
  (last.seconds - first.seconds + leap) * billion + ((last.nanos : Int) - first.nanos)

end Instant

end StateTree
