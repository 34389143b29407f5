import CallProtocol.Toml.Item
import CallProtocol.Toml.Text

/-!
# TOML documents

A document is read line by line: entries, headers and blank lines, each with a
comment at the end if it likes. `Toml.parse?` gives the root table of a document,
or nothing if the text is no document.

Arrays and inline tables may be nested less than eighty deep, and a dotted key has
fewer than eighty keys.
-/

namespace CallProtocol.Toml

open Reader

def nestingLimit : Nat := 80

def keyPath : Reader KeyPath := do
  let keys ← guarded (·.length < nestingLimit) dottedKey
  match keys.getLast? with
  | some last => return ⟨keys.dropLast, last⟩
  | none => failure

def comment : Reader Unit := do
  char '#'
  let _ ← takeWhile isPlain

def endOfLine : Reader Unit := do
  blanks
  let _ ← Reader.optional comment
  newline <|> eof

def spread : Reader Unit := do
  let _ ← many ((do let _ ← satisfy isBlank) <|> newline <|> do
    comment
    newline)

def inlineEntries (value : Reader Item) : Reader Item := do
  char '\x7b'
  blanks
  let pairs ← Reader.optional (separated (char ',') do
    let key ← keyPath
    char '='
    blanks
    let item ← value
    blanks
    return (key, item))
  blanks
  char '\x7d'
  match (pairs.getD []).foldlM (fun es p => Entries.addInline p.2 p.1.way p.1.last es) [] with
  | some es => return .inlineTable .header es
  | none => failure

def arrayItems (value : Reader Item) : Reader Item := do
  char '['
  let items ← Reader.optional (separated (char ',') do
    spread
    let item ← value
    spread
    return item)
  if items.isSome then
    let _ ← Reader.optional (char ',')
  spread
  char ']'
  return .array (items.getD [])

def scalar : Reader Item :=
  (do return .string (← string)) <|>
  (do
    chars ['t', 'r', 'u', 'e']
    return .boolean true) <|>
  (do
    chars ['f', 'a', 'l', 's', 'e']
    return .boolean false) <|>
  (do
    datetime
    return .datetime) <|>
  (do
    float
    return .float) <|>
  (do
    integer
    return .integer)

/-- A value in which arrays and inline tables nest at most `depth` deep. -/
def value : Nat → Reader Item
  | 0 => scalar
  | depth + 1 => scalar <|> arrayItems (value depth) <|> inlineEntries (value depth)

def bracketed (count : Nat) : Reader KeyPath := do
  chars (List.replicate count '[')
  let key ← keyPath
  chars (List.replicate count ']')
  return key

def line : Reader Line := do
  if (← peek).isNone then failure
  blanks
  let l ← (do return .repeatedHeader (← bracketed 2)) <|>
    (do return .header (← bracketed 1)) <|>
    (do
      let key ← keyPath
      char '='
      blanks
      return .entry key (← value (nestingLimit - 1))) <|>
    pure .blank
  endOfLine
  return l

def lines : Reader (List Line) := do
  let _ ← Reader.optional (char '\ufeff')
  let ls ← many line
  eof
  return ls

def parse? (text : String) : Option Entries := do
  let (ls, _) ← lines text.toList
  rootOfLines ls

end CallProtocol.Toml
