import CallProtocol.Banks
import CallProtocol.Instr

/-!
# Prototypes

The body of a script function: its instructions, a pool of constants for each
bank, and the number of registers it uses of each bank.
-/

namespace CallProtocol

structure Prototype where
  code : List Instr := []
  constants : Banks := {}
  registers : RegisterCounts := {}
  deriving DecidableEq

end CallProtocol
