import CallProtocol.Plan.Step
import CallProtocol.Prototype

/-!
# Planning a body

One walk over the instructions of a body turns each of them into a step. The walk
carries the staging buffer and the results that the last call still expects. It
stops at the first fault; the results of a call are looked up ahead, so a fault
in one of them is found at the call.
-/

namespace CallProtocol

namespace Prototype

/-- Operands address the first 256 registers of a bank. -/
def checkReg (p : Prototype) (pc : Nat) (b : Bank) (reg : Nat) : Except PlanError Unit :=
  if reg < (p.registers.get b).toNat ∧ reg < 256 then .ok ()
  else .error ⟨pc, .registerOutOfRange b reg (p.registers.get b)⟩

def checkConst (p : Prototype) (pc : Nat) (b : Bank) (index : Nat) : Except PlanError Unit :=
  if index < p.constants.size b then .ok ()
  else .error ⟨pc, .constantOutOfRange b index⟩

def decode (pc : Nat) (bits : UInt8) : Except PlanError RegType :=
  match RegType.ofBits? bits with
  | some t => .ok t
  | none => .error ⟨pc, .unknownRegType bits⟩

def regOperand (p : Prototype) (pc : Nat) (b : Bank) (reg : Nat) : Except PlanError Source := do
  p.checkReg pc b reg
  return .reg b reg

def constOperand (p : Prototype) (pc : Nat) (b : Bank) (index : Nat) : Except PlanError Source := do
  p.checkConst pc b index
  return .const b index

/-- The sources that a parameter instruction stages. A float of several
components is staged as one float for each of them. -/
def paramSources (p : Prototype) (pc : Nat) (t : RegType) (index : Nat) :
    Except PlanError (List Source) :=
  match t.kind, t.modifier with
  | .nil, .plain => .ok [.nil]
  | .of b, .plain => do return [← p.regOperand pc b index]
  | .of b, .constant => do return [← p.constOperand pc b index]
  | .of b, .address => do
    p.checkReg pc b index
    return [.address b index]
  | .of .float, _ => do
    p.checkReg pc .float (index + t.components - 1)
    return (List.range t.components).map fun k => .reg .float (index + k)
  | _, _ => .error ⟨pc, .unsupportedParam t⟩

def callee (p : Prototype) (pc : Nat) (i : Instr) : Except PlanError Callee :=
  match i.op with
  | .call | .tail => do
    p.checkReg pc .pointer i.a.toNat
    return .register i.a.toNat
  | _ => do
    p.checkConst pc .pointer i.a.toNat
    match (p.constants.get .pointer i.a.toNat).function? with
    | some f => return .static i.a.toNat f.isNative
    | none => .error ⟨pc, .calleeNotFunction i.a.toNat⟩

def resultSpec (p : Prototype) (pc : Nat) (i : Instr) : Except PlanError ResultSpec := do
  let t ← decode pc i.b
  match t.kind, t.modifier with
  | _, .constant => .error ⟨pc, .constantResult⟩
  | .of b, .plain =>
    p.checkReg pc b i.c.toNat
    return ⟨pc, t, b, i.c.toNat⟩
  | .of .float, .pair | .of .float, .triple =>
    p.checkReg pc .float (i.c.toNat + t.components - 1)
    return ⟨pc, t, .float, i.c.toNat⟩
  | _, _ => .error ⟨pc, .unsupportedResult t⟩

def resultSpecs (p : Prototype) : Nat → Nat → List Instr → Except PlanError (List ResultSpec)
  | _, 0, _ => .ok []
  | pc, count + 1, i :: rest =>
    if i.op = .result then do
      let r ← p.resultSpec pc i
      let rs ← p.resultSpecs (pc + 1) count rest
      return r :: rs
    else .error ⟨pc, .resultMustFollowCall⟩
  | pc, _ + 1, [] => .error ⟨pc, .resultMustFollowCall⟩

/-- The results that a call at `pc` receives. A tail call has none of its own. -/
def callResults (p : Prototype) (pc : Nat) (kind : CallKind) (i : Instr) (rest : List Instr) :
    Except PlanError (List ResultSpec) :=
  match kind with
  | .call => p.resultSpecs (pc + 1) i.c.toNat rest
  | .tail => .ok []

def returnSite (p : Prototype) (pc : Nat) (i : Instr) : Except PlanError ReturnSite := do
  let t ← decode pc i.b
  let index := i.c.toNat
  let site := fun source width bank =>
    (⟨i.slot.toNat, i.isFinal, source, width, bank, t⟩ : ReturnSite)
  match t.kind, t.modifier with
  | .of b, .plain => return site (← p.regOperand pc b index) 1 b
  | .of b, .constant => return site (← p.constOperand pc b index) 1 b
  | .of .float, .pair | .of .float, .triple =>
    p.checkReg pc .float (index + t.components - 1)
    return site (.reg .float index) t.components .float
  | _, _ => .error ⟨pc, .unsupportedReturn t⟩

def loadConst (p : Prototype) (pc : Nat) (b : Bank) (i : Instr) : Except PlanError PlainOp := do
  p.checkReg pc b i.a.toNat
  return .assign b i.a.toNat (← p.constOperand pc b i.bx.toNat)

def moveReg (p : Prototype) (pc : Nat) (b : Bank) (i : Instr) : Except PlanError PlainOp := do
  p.checkReg pc b i.a.toNat
  return .assign b i.a.toNat (← p.regOperand pc b i.b.toNat)

def addRegs (p : Prototype) (pc : Nat) (b : Bank) (op : Nat → Nat → Nat → PlainOp) (i : Instr) :
    Except PlanError PlainOp := do
  p.checkReg pc b i.a.toNat
  p.checkReg pc b i.b.toNat
  p.checkReg pc b i.c.toNat
  return op i.a.toNat i.b.toNat i.c.toNat

def plainOp (p : Prototype) (pc : Nat) (i : Instr) : Except PlanError PlainOp :=
  match i.op with
  | .li => do
    p.checkReg pc .int i.a.toNat
    return .assign .int i.a.toNat (.imm i.sbx.toInt32)
  | .lk => p.loadConst pc .int i
  | .lkf => p.loadConst pc .float i
  | .lks => p.loadConst pc .string i
  | .lkp => p.loadConst pc .pointer i
  | .move => p.moveReg pc .int i
  | .movef => p.moveReg pc .float i
  | .movea => p.moveReg pc .pointer i
  | .add => p.addRegs pc .int .addInts i
  | .addf => p.addRegs pc .float .addFloats i
  | _ => .ok .nop

end Prototype

/-- What the walk over a body carries along. -/
structure Planning where
  staging : Staging := {}
  pending : List ResultSpec := []
  /-- The greatest number of results of a call so far. -/
  mostResults : Nat := 0

namespace Planning

def snapshot (s : Planning) : Snapshot := ⟨s.staging.entries, s.pending⟩

def stage (s : Planning) (pc : Nat) (sources : List Source) : Step × Planning :=
  let params := sources.map (Staged.mk pc)
  (.stage s.staging.entries.length params, { s with staging := s.staging.pushAll params })

def call (s : Planning) (p : Prototype) (pc : Nat) (kind : CallKind) (i : Instr)
    (rest : List Instr) : Except PlanError (Step × Planning) := do
  let callee ← p.callee pc i
  let (window, staging) ← s.staging.take pc i.b.toNat
  let results ← p.callResults pc kind i rest
  return (.call ⟨pc, kind, callee, window, results⟩,
    { staging, pending := s.pending ++ results,
      mostResults := max s.mostResults results.length })

def result (s : Planning) (pc : Nat) : Except PlanError (Step × Planning) :=
  match s.pending with
  | r :: rs =>
    if r.pc = pc then .ok (.result r, { s with pending := rs })
    else .error ⟨pc, .strayResult⟩
  | [] => .error ⟨pc, .strayResult⟩

def next (s : Planning) (p : Prototype) (pc : Nat) (i : Instr) (rest : List Instr) :
    Except PlanError (Step × Planning) :=
  match i.op with
  | .param => do
    let t ← Prototype.decode pc i.b
    return s.stage pc (← p.paramSources pc t i.c.toNat)
  | .parami => .ok (s.stage pc [.imm i.sax])
  | .call | .callk => s.call p pc .call i rest
  | .tail | .tailk => s.call p pc .tail i rest
  | .result => s.result pc
  | .ret => do return (.ret (← p.returnSite pc i), s)
  | .reti =>
    .ok (.ret ⟨i.slot.toNat, i.isFinal, .imm i.sbx.toInt32, 1, .int, .of .int⟩, s)
  | _ => do return (.plain (← p.plainOp pc i), s)

def walk (p : Prototype) :
    Nat → Planning → List Instr → Except PlanError (List (Step × Snapshot) × Planning)
  | _, s, [] => .ok ([], s)
  | pc, s, i :: rest => do
    let (step, s) ← s.next p pc i rest
    let (steps, last) ← walk p (pc + 1) s rest
    return ((step, s.snapshot) :: steps, last)

end Planning

def Prototype.plan (p : Prototype) : Except PlanError Plan := do
  let (steps, last) ← Planning.walk p 0 {} p.code
  return {
    steps := steps.map (·.1)
    states := steps.map (·.2)
    layout :=
      { registers := p.registers
        params := UInt32.ofNat last.staging.highWater
        returns := UInt32.ofNat last.mostResults } }

end CallProtocol
