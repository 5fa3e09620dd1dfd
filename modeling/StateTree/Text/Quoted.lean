import StateTree.Text.Hidden

/-!
Text in quotes. The quote and the backslash are escaped; tab, line feed, carriage return and the
null character have short escapes; other hidden characters are written by their code point.
-/

namespace StateTree.Text

/-- The code point in lower case hexadecimal, in braces. -/
def escapeCode (c : Char) : List Char :=
  ['\\', 'u', '\x7b'] ++ Nat.toDigits 16 c.toNat ++ ['\x7d']

def escapeChar (c : Char) : List Char :=
  if c = '"' then ['\\', '"']
  else if c = '\\' then ['\\', '\\']
  else if c = '\n' then ['\\', 'n']
  else if c = '\r' then ['\\', 'r']
  else if c = '\t' then ['\\', 't']
  else if c = '\x00' then ['\\', '0']
  else if isHidden c then escapeCode c
  else [c]

def quoted (text : String) : String :=
  String.ofList ('"' :: text.toList.flatMap escapeChar ++ ['"'])

end StateTree.Text
