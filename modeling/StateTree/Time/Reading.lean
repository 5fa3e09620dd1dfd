import StateTree.Text.Blank
import StateTree.Time.Instant

/-!
Reading a point in time: a date, a letter T or a space, a time of day and an offset from universal
time. Blanks may stand around the parts of date and time; the offset is not optional.
-/

namespace StateTree.Instant

/-- A reader takes a value from the front of a text. -/
abbrev Reader (α : Type) := List Char → Option (α × List Char)

def digitValue (c : Char) : Nat := c.toNat - '0'.toNat

def ofDigits (digits : List Char) : Nat := digits.foldl (fun n c => 10 * n + digitValue c) 0

/-- One to `most` digits, with how many there were. -/
def readDigits (most : Nat) : Reader (Nat × Nat) := fun cs =>
  let digits := (cs.take most).takeWhile Char.isDigit
  if digits.isEmpty then none
  else some ((ofDigits digits, digits.length), cs.drop digits.length)

/-- A number from `low` to `high` in one or two digits, after blanks. -/
def readField (low high : Nat) : Reader Nat := fun cs => do
  let ((n, _), cs) ← readDigits 2 (Text.skipBlanks cs)
  if low ≤ n && n ≤ high then some (n, cs) else none

/-- A mark after blanks. -/
def readMark (mark : Char) (cs : List Char) : Option (List Char) :=
  match Text.skipBlanks cs with
  | c :: rest => if c = mark then some rest else none
  | [] => none

/-- A year without a sign has up to four digits. -/
def readYear : Reader Int := fun cs =>
  match Text.skipBlanks cs with
  | '-' :: rest => (readDigits rest.length rest).map fun found => (-(found.1.1 : Int), found.2)
  | '+' :: rest => (readDigits rest.length rest).map fun found => ((found.1.1 : Int), found.2)
  | cs => (readDigits 4 cs).map fun found => ((found.1.1 : Int), found.2)

/-- The years that a date may have. -/
def isKnownYear (year : Int) : Bool := -262143 ≤ year && year ≤ 262142

/-- The days from the start of 1970. -/
def readDate : Reader Int := fun cs => do
  let (year, cs) ← readYear cs
  let cs ← readMark '-' cs
  let (month, cs) ← readField 1 12 cs
  let cs ← readMark '-' cs
  let (day, cs) ← readField 1 31 cs
  let date : Date := ⟨year, month, day⟩
  if isKnownYear year && date.isValid then some (date.toDays, cs) else none

/-- Nanoseconds after a point; digits after the ninth do not count. -/
def readFraction : Reader Nat
  | '.' :: rest => do
    let ((n, count), rest) ← readDigits 9 rest
    some (n * Nat.pow 10 (9 - count), rest.dropWhile Char.isDigit)
  | cs => some (0, cs)

/-- Seconds and nanoseconds of the day. The sixtieth second is a leap second. -/
def readClock : Reader (Nat × Nat) := fun cs => do
  let (hour, cs) ← readField 0 23 cs
  let cs ← readMark ':' cs
  let (minute, cs) ← readField 0 59 cs
  let cs ← readMark ':' cs
  let (second, cs) ← readField 0 60 cs
  let (nanos, cs) ← readFraction cs
  let start := hour * 3600 + minute * 60
  if second = 60 then some ((start + 59, nanos + billion), cs)
  else some ((start + second, nanos), cs)

def readTwoDigits : Reader Nat
  | a :: b :: rest =>
    if a.isDigit && b.isDigit then some (10 * digitValue a + digitValue b, rest) else none
  | _ => none

/-- Hours and minutes ahead of universal time or behind it, in seconds, less than a day. -/
def readShift (sign : Int) : Reader Int := fun cs => do
  let (hours, cs) ← readTwoDigits cs
  let (minutes, cs) ← readTwoDigits (cs.dropWhile fun c => c = ':' || Text.isBlank c)
  if minutes < 60 && hours < 24 then some (sign * (hours * 3600 + minutes * 60 : Nat), cs) else none

def readOffset : Reader Int
  | '+' :: rest => readShift 1 rest
  | '-' :: rest | '−' :: rest => readShift (-1) rest
  | c :: rest =>
    if c.toUpper = 'Z' then some (0, rest)
    else
      match (c :: rest).splitAt 3 with
      | (word, rest) => if word.map Char.toUpper = ['U', 'T', 'C'] then some (0, rest) else none
  | [] => none

def readSeparator : List Char → Option (List Char)
  | c :: rest => if c = 'T' || c = 't' || c = ' ' then some rest else none
  | [] => none

/-- The instant that a whole text names. -/
def read? (text : String) : Option Instant := do
  let (days, cs) ← readDate text.toList
  let cs ← readSeparator cs
  let ((second, nanos), cs) ← readClock cs
  let (offset, cs) ← readOffset (Text.skipBlanks cs)
  let instant : Instant := ⟨days * 86400 + second - offset, nanos⟩
  if (Text.skipBlanks cs).isEmpty && isKnownYear (Date.ofDays instant.day).year then some instant
  else none

end StateTree.Instant
