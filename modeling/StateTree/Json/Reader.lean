import StateTree.Json

/-!
Reading JSON. Every document has one value at most; a text after which anything but blanks is left
is no document.
-/

namespace StateTree.Json

def isBlank (c : Char) : Bool := c = ' ' || c = '\n' || c = '\t' || c = '\r'

def skipBlanks (cs : List Char) : List Char := cs.dropWhile isBlank

def hexDigit? (c : Char) : Option Nat :=
  if '0' ≤ c && c ≤ '9' then some (c.toNat - '0'.toNat)
  else if 'a' ≤ c && c ≤ 'f' then some (c.toNat - 'a'.toNat + 10)
  else if 'A' ≤ c && c ≤ 'F' then some (c.toNat - 'A'.toNat + 10)
  else none

def hexCode? (a b c d : Char) : Option Nat := do
  return (((← hexDigit? a) * 16 + (← hexDigit? b)) * 16 + (← hexDigit? c)) * 16 + (← hexDigit? d)

/-- A character of a text, or a sixteen bit code given by its digits. -/
inductive Stroke
  | plain (c : Char)
  | code (n : Nat)

def shortEscape? : Char → Option Char
  | '"' => some '"'
  | '\\' => some '\\'
  | '/' => some '/'
  | 'b' => some '\x08'
  | 'f' => some '\x0c'
  | 'n' => some '\n'
  | 'r' => some '\r'
  | 't' => some '\t'
  | _ => none

/-- The strokes of a text up to its closing quote, and what follows it. -/
def strokes? : List Char → Option (List Stroke × List Char)
  | [] => none
  | '"' :: rest => some ([], rest)
  | '\\' :: 'u' :: a :: b :: c :: d :: rest => do
    let n ← hexCode? a b c d
    let (strokes, rest) ← strokes? rest
    return (.code n :: strokes, rest)
  | '\\' :: e :: rest => do
    let c ← shortEscape? e
    let (strokes, rest) ← strokes? rest
    return (.plain c :: strokes, rest)
  | c :: rest => do
    guard (32 ≤ c.toNat && c != '\\')
    let (strokes, rest) ← strokes? rest
    return (.plain c :: strokes, rest)

def isHigh (n : Nat) : Bool := 0xd800 ≤ n && n < 0xdc00

def isLow (n : Nat) : Bool := 0xdc00 ≤ n && n < 0xe000

/-- The characters that strokes stand for. Two codes of a surrogate pair make one character; one
without the other makes none. -/
def joinStrokes? : List Stroke → Option (List Char)
  | [] => some []
  | .plain c :: rest => (joinStrokes? rest).map (c :: ·)
  | .code n :: .code m :: rest =>
    if isHigh n then
      if isLow m then
        (joinStrokes? rest).map
          (Char.ofNat (0x10000 + (n - 0xd800) * 0x400 + (m - 0xdc00)) :: ·)
      else none
    else if isLow n then none
    else (joinStrokes? (.code m :: rest)).map (Char.ofNat n :: ·)
  | .code n :: rest =>
    if isHigh n || isLow n then none else (joinStrokes? rest).map (Char.ofNat n :: ·)

/-- A text after its opening quote; it has no value where half of a surrogate pair is missing. -/
def textAfterQuote? (cs : List Char) : Option (Option String × List Char) := do
  let (strokes, rest) ← strokes? cs
  return ((joinStrokes? strokes).map String.ofList, rest)

def digits (cs : List Char) : List Char × List Char := cs.span Char.isDigit

/-- At least one digit. -/
def someDigits? (cs : List Char) : Option (List Char × List Char) :=
  match digits cs with
  | ([], _) => none
  | found => some found

/-- No zero stands before another digit. -/
def whole? : List Char → Option (List Char × List Char)
  | '0' :: rest =>
    match rest with
    | c :: _ => if c.isDigit then none else some (['0'], rest)
    | [] => some (['0'], rest)
  | cs => someDigits? cs

def fraction? : List Char → Option (List Char × List Char)
  | '.' :: rest => (someDigits? rest).map fun found => ('.' :: found.1, found.2)
  | cs => some ([], cs)

def exponent? : List Char → Option (List Char × List Char)
  | [] => some ([], [])
  | e :: rest =>
    if e = 'e' || e = 'E' then
      match rest with
      | '+' :: rest => (someDigits? rest).map fun found => (e :: '+' :: found.1, found.2)
      | '-' :: rest => (someDigits? rest).map fun found => (e :: '-' :: found.1, found.2)
      | _ => (someDigits? rest).map fun found => (e :: found.1, found.2)
    else some ([], e :: rest)

def number? (cs : List Char) : Option (List Char × List Char) := do
  let (sign, cs) := match cs with
    | '-' :: rest => (['-'], rest)
    | _ => ([], cs)
  let (whole, cs) ← whole? cs
  let (fraction, cs) ← fraction? cs
  let (exponent, cs) ← exponent? cs
  return (sign ++ whole ++ fraction ++ exponent, cs)

/-- An object; one with a key that has no value is unreadable. -/
def ofFields (fields : List (Option String × Json)) : Json :=
  match fields.mapM fun field => field.1.map fun key => (key, field.2) with
  | some fields => .object fields
  | none => .unreadable

mutual

/-- A document and what follows it. Each step takes a character, so that as many steps as there are
characters suffice twice over. -/
def value? : Nat → List Char → Option (Json × List Char)
  | 0, _ => none
  | n + 1, cs =>
    match skipBlanks cs with
    | 'n' :: 'u' :: 'l' :: 'l' :: rest => some (.null, rest)
    | 't' :: 'r' :: 'u' :: 'e' :: rest => some (.bool true, rest)
    | 'f' :: 'a' :: 'l' :: 's' :: 'e' :: rest => some (.bool false, rest)
    | '"' :: rest =>
      (textAfterQuote? rest).map fun found => ((found.1.map Json.text).getD .unreadable, found.2)
    | '[' :: rest =>
      match skipBlanks rest with
      | ']' :: rest => some (.array [], rest)
      | _ => (items? n rest).map fun found => (.array found.1, found.2)
    | '\x7b' :: rest =>
      match skipBlanks rest with
      | '\x7d' :: rest => some (.object [], rest)
      | _ => (fields? n rest).map fun found => (ofFields found.1, found.2)
    | cs => (number? cs).map fun found => (.number found.1, found.2)

/-- Items up to the closing bracket. -/
def items? : Nat → List Char → Option (List Json × List Char)
  | 0, _ => none
  | n + 1, cs => do
    let (item, rest) ← value? n cs
    match skipBlanks rest with
    | ']' :: rest => some ([item], rest)
    | ',' :: rest => (items? n rest).map fun found => (item :: found.1, found.2)
    | _ => none

/-- Fields up to the closing brace. -/
def fields? : Nat → List Char → Option (List (Option String × Json) × List Char)
  | 0, _ => none
  | n + 1, cs =>
    match skipBlanks cs with
    | '"' :: rest => do
      let (key, rest) ← textAfterQuote? rest
      match skipBlanks rest with
      | ':' :: rest => do
        let (value, rest) ← value? n rest
        match skipBlanks rest with
        | '\x7d' :: rest => some ([(key, value)], rest)
        | ',' :: rest => (fields? n rest).map fun found => ((key, value) :: found.1, found.2)
        | _ => none
      | _ => none
    | _ => none

end

/-- The document that a whole text holds. -/
def ofChars? (cs : List Char) : Option Json :=
  match value? (2 * cs.length + 2) cs with
  | some (j, rest) => if (skipBlanks rest).isEmpty then some j else none
  | none => none

def read? (text : String) : Option Json := ofChars? text.toList

end StateTree.Json
