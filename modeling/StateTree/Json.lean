/-!
JSON documents and their two layouts: without any space, and with one item a line.
-/

namespace StateTree

/-- A document. Numbers keep their digits. `unreadable` stands for a text, or for an object with a
key, that holds half of a surrogate pair: it is well formed but has no value. -/
inductive Json
  | null
  | bool (b : Bool)
  | number (digits : List Char)
  | text (s : String)
  | array (items : List Json)
  | object (fields : List (String × Json))
  | unreadable

namespace Json

/-- Digits of a code below 256 in the form of four hexadecimal digits. -/
def hexCode (n : Nat) : List Char :=
  ['0', '0', Nat.digitChar (n / 16), Nat.digitChar (n % 16)]

def escapeChar (c : Char) : List Char :=
  if c = '"' then ['\\', '"']
  else if c = '\\' then ['\\', '\\']
  else if c = '\n' then ['\\', 'n']
  else if c = '\r' then ['\\', 'r']
  else if c = '\t' then ['\\', 't']
  else if c = '\x08' then ['\\', 'b']
  else if c = '\x0c' then ['\\', 'f']
  else if c.toNat < 32 then ['\\', 'u'] ++ hexCode c.toNat
  else [c]

def writeText (s : String) : List Char := '"' :: s.toList.flatMap escapeChar ++ ['"']

/-- What stands before an item at a depth, and between a key and its value. -/
structure Layout where
  gap : Nat → List Char
  colon : List Char

def Layout.compact : Layout := ⟨fun _ => [], [':']⟩

/-- Items stand on lines of their own, indented by two spaces for each level. -/
def Layout.pretty : Layout := ⟨fun depth => '\n' :: List.replicate (2 * depth) ' ', [':', ' ']⟩

mutual

/-- The text of a document whose items stand at a depth of `d + 1`. -/
def write (ℓ : Layout) (d : Nat) : Json → List Char
  | null | unreadable => ['n', 'u', 'l', 'l']
  | bool true => ['t', 'r', 'u', 'e']
  | bool false => ['f', 'a', 'l', 's', 'e']
  | number digits => digits
  | text s => writeText s
  | array [] => ['[', ']']
  | array (item :: items) =>
    '[' :: ℓ.gap (d + 1) ++ item.write ℓ (d + 1) ++ writeItems ℓ (d + 1) items ++ ℓ.gap d ++ [']']
  | object [] => ['\x7b', '\x7d']
  | object ((key, value) :: fields) =>
    '\x7b' :: ℓ.gap (d + 1) ++ writeText key ++ ℓ.colon ++ value.write ℓ (d + 1) ++
      writeFields ℓ (d + 1) fields ++ ℓ.gap d ++ ['\x7d']

/-- The items after the first one. -/
def writeItems (ℓ : Layout) (d : Nat) : List Json → List Char
  | [] => []
  | item :: items => ',' :: ℓ.gap d ++ item.write ℓ d ++ writeItems ℓ d items

/-- The fields after the first one. -/
def writeFields (ℓ : Layout) (d : Nat) : List (String × Json) → List Char
  | [] => []
  | (key, value) :: fields =>
    ',' :: ℓ.gap d ++ writeText key ++ ℓ.colon ++ value.write ℓ d ++ writeFields ℓ d fields

end

def render (ℓ : Layout) (j : Json) : String := String.ofList (j.write ℓ 0)

end Json

end StateTree
