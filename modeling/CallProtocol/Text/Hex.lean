/-!
# Hexadecimal numbers

Lower-case hexadecimal digits, with or without a fixed width and with or without
the leading `0x`.
-/

namespace CallProtocol.Text

def hex (n : Nat) : String := String.ofList (Nat.toDigits 16 n)

def hexPadded (width n : Nat) : String :=
  let digits := Nat.toDigits 16 n
  String.ofList (List.replicate (width - digits.length) '0' ++ digits)

def hexAddress (n : Nat) : String := "0x" ++ hex n

end CallProtocol.Text
