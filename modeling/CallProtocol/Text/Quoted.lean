import CallProtocol.Text.Hex
import CallProtocol.Text.Unprintable

/-!
# Quoted text

A text between double quotes in which every unprintable character is escaped.
Six characters have an escape of one letter or sign, all others are written with
their code point in hexadecimal.
-/

namespace CallProtocol.Text

def escape (c : Char) : String :=
  match c with
  | '\x00' => "\\0"
  | '\t' => "\\t"
  | '\n' => "\\n"
  | '\r' => "\\r"
  | '"' => "\\\""
  | '\\' => "\\\\"
  | c => if isUnprintable c then "\\u\x7b" ++ hex c.toNat ++ "\x7d" else c.toString

def quoted (s : String) : String :=
  "\"" ++ String.join (s.toList.map escape) ++ "\""

end CallProtocol.Text
