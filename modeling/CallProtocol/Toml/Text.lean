import CallProtocol.Toml.Number

/-!
# TOML strings and keys

Strings in double quotes know escapes, strings in single quotes do not. Either
kind may be in three quotes and then go over several lines; a line break right
after the opening quotes does not count.
-/

namespace CallProtocol.Toml

open Reader

def isBlank (c : Char) : Bool := c == ' ' || c == '\t'

def isPlain (c : Char) : Bool := c == '\t' || (0x20 ≤ c.toNat && c.toNat != 0x7F)

def blanks : Reader Unit := do
  let _ ← takeWhile isBlank

def newline : Reader Unit := chars ['\n'] <|> chars ['\r', '\n']

def codePoint (count : Nat) : Reader Char := do
  let ds ← (List.replicate count ()).mapM fun _ => satisfy (isDigitOf 16)
  let n := numberOf 16 ds
  if n < 0xD800 || (0xE000 ≤ n && n < 0x110000) then return Char.ofNat n else failure

def escaped : Reader Char := do
  match ← satisfy fun _ => true with
  | 'b' => return '\x08'
  | 't' => return '\t'
  | 'n' => return '\n'
  | 'f' => return '\x0c'
  | 'r' => return '\r'
  | '"' => return '"'
  | '\\' => return '\\'
  | 'u' => codePoint 4
  | 'U' => codePoint 8
  | _ => failure

def basicPiece : Reader (List Char) :=
  (do return [← satisfy fun c => isPlain c && c != '"' && c != '\\']) <|> do
    char '\\'
    return [← escaped]

def literalPiece : Reader (List Char) := do
  return [← satisfy fun c => isPlain c && c != '\'']

/-- A backslash at the end of a line takes the line break and all blanks and line
breaks after it away. -/
def continuation : Reader (List Char) := do
  char '\\'
  blanks
  newline
  let _ ← many ((do let _ ← satisfy isBlank) <|> newline)
  return []

def lineBreak : Reader (List Char) := do
  newline
  return ['\n']

def innerQuotes (q : Char) : Reader (List Char) := fun cs =>
  match cs.span (· == q) with
  | (qs, rest) => if qs.length = 1 || qs.length = 2 then some (qs, rest) else none

/-- The closing quotes of a string over several lines. Up to two more quotes
before them belong to the string. -/
def closingQuotes (q : Char) : Reader (List Char) := do
  chars [q, q, q]
  let first ← Reader.optional (satisfy (· == q))
  let second ← Reader.optional (satisfy (· == q))
  return first.toList ++ second.toList

def shortString (q : Char) (piece : Reader (List Char)) : Reader String := do
  char q
  let pieces ← many piece
  char q
  return String.ofList pieces.flatten

def longString (q : Char) (piece : Reader (List Char)) : Reader String := do
  chars [q, q, q]
  let _ ← Reader.optional newline
  let pieces ← many (piece <|> lineBreak <|> innerQuotes q)
  let last ← closingQuotes q
  return String.ofList (pieces.flatten ++ last)

def lineString : Reader String :=
  shortString '"' basicPiece <|> shortString '\'' literalPiece

/-- A string. Three quotes always open a string over several lines. -/
def string : Reader String := fun cs =>
  if cs.take 3 = ['"', '"', '"'] then longString '"' (continuation <|> basicPiece) cs
  else if cs.take 3 = ['\'', '\'', '\''] then longString '\'' literalPiece cs
  else lineString cs

def isKeyChar (c : Char) : Bool :=
  isDigit c || ('a' ≤ c && c ≤ 'z') || ('A' ≤ c && c ≤ 'Z') || c == '_' || c == '-'

def bareKey : Reader String := do
  let cs ← guarded (!·.isEmpty) (takeWhile isKeyChar)
  return String.ofList cs

def dottedKey : Reader (List String) :=
  separated (char '.') do
    blanks
    let key ← bareKey <|> lineString
    blanks
    return key

end CallProtocol.Toml
