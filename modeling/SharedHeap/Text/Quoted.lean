import SharedHeap.Text.Digits
import SharedHeap.Text.Printable

/-!
# Quoted text

Text between quotes, with everything that would not show as itself escaped: the quote in use and the
backslash by a backslash, tab, newline and carriage return by their letters, NUL as `\0`, and marks
and unprintable characters by their code point, `\u{301}`.
-/

namespace SharedHeap.Text

/-- The escape by code point. -/
def escapeCode (c : Char) : List Char :=
  ['\\', 'u', '\x7b'] ++ (hexDigits c.toNat).toList ++ ['\x7d']

/-- A character as it is written between two `quote`s. -/
def escape (quote c : Char) : List Char :=
  if c = '\x00' then ['\\', '0']
  else if c = '\t' then ['\\', 't']
  else if c = '\n' then ['\\', 'n']
  else if c = '\r' then ['\\', 'r']
  else if c = '\\' || c = quote then ['\\', c]
  else if isExtending c || !isPrintable c then escapeCode c
  else [c]

def quoted (s : String) : String :=
  .ofList ('"' :: s.toList.flatMap (escape '"') ++ ['"'])

def quotedChar (c : Char) : String := .ofList ('\'' :: escape '\'' c ++ ['\''])

end SharedHeap.Text
