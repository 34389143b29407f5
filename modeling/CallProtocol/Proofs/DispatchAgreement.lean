import CallProtocol.Proofs.Execution.Activation
import CallProtocol.Proofs.Execution.Outcome

/-!
# Static and dynamic calls

A function is called by its place among the constants or through a register. The first way
is decided when the body is planned, which reads the native flag of the constant. The second
way looks at the pointer when the call is made: whether it is null, and what the flag of the
function says. Nothing else about a call depends on how its callee is named, so two call
sites that agree in the rest lead to the same task on the same machine, and whatever follows
is the same.
-/

namespace CallProtocol

def Opcode.callsConstant : Opcode → Bool
  | .callk | .tailk => true
  | _ => false

def Opcode.callsRegister : Opcode → Bool
  | .call | .tail => true
  | _ => false

/-- The calls are of one kind, take the same window of the outgoing array with the same
sources in it, and declare the same results. Where in the body they stand may differ, and
how they name their callee. -/
structure CallSite.SameCall (c d : CallSite) : Prop where
  kind : d.kind = c.kind
  start : d.window.start = c.window.start
  sources : d.window.params.map (·.source) = c.window.params.map (·.source)
  results : (d.results.map fun s => (s.type, s.bank, s.reg)) =
    c.results.map fun s => (s.type, s.bank, s.reg)

namespace CallSite.SameCall

variable {c d : CallSite}

theorem inOuts (h : c.SameCall d) : d.inOuts = c.inOuts := by
  -- They are those of any call site with the same sources.
  have ofSources : ∀ c : CallSite, c.inOuts = CallSite.inOuts ⟨0, .call, .register 0,
      ⟨0, (c.window.params.map (·.source)).map (Staged.mk 0)⟩, []⟩ := by
    intro c
    rw [CallSite.inOuts, CallSite.inOuts, List.filterMap_map, List.filterMap_map]
    rfl
  rw [ofSources c, ofSources d, h.sources]

theorem resultRegs (h : c.SameCall d) : Activation.resultRegs d = Activation.resultRegs c := by
  have ofResults : ∀ c : CallSite, Activation.resultRegs c =
      (c.results.map fun s => (s.type, s.bank, s.reg)).flatMap fun q =>
        (List.range q.1.components).map fun k => (q.2.1, q.2.2 + k) := by
    intro c
    rw [List.flatMap_map]
    rfl
  rw [ofResults, ofResults, h.results]

theorem descriptors (h : c.SameCall d) (a : Activation) :
    d.results.map a.descriptor = c.results.map a.descriptor := by
  have ofResults : ∀ c : CallSite, c.results.map a.descriptor =
      (c.results.map fun s => (s.type, s.bank, s.reg)).map fun q =>
        ⟨some (a.slot q.2.1 q.2.2), q.1.bits⟩ := by
    intro c
    rw [List.map_map]
    rfl
  rw [ofResults, ofResults, h.results]

theorem handoverFor (h : c.SameCall d) (a : Activation) : a.handoverFor d = a.handoverFor c := by
  have hparams := congrArg List.length h.sources
  have hresults := congrArg List.length h.results
  simp only [List.length_map] at hparams hresults
  simp only [Activation.handoverFor, h.kind, h.start, hparams, h.descriptors a, hresults]

theorem beforeCall (h : c.SameCall d) (a : Activation) (m : Machine) :
    a.beforeCall m d = a.beforeCall m c := by
  rw [Activation.beforeCall, Activation.inOuts, h.inOuts]
  rfl

theorem afterCall (h : c.SameCall d) (a : Activation) (m : Machine) :
    a.afterCall m d = a.afterCall m c := by
  rw [Activation.afterCall, Activation.inOuts, h.inOuts, h.resultRegs]
  rfl

end CallSite.SameCall

namespace Prototype

variable {p : Prototype} {n : Nat} {i : Instr} {callee : Callee}

/-- The plan knows the function of a constant, and whether it is a native. -/
theorem callee_of_callsConstant (h : p.callee n i = .ok callee) (hop : i.op.callsConstant = true) :
    ∃ f, Pointer.function? (p.constants.get .pointer i.a.toNat) = some f ∧
      callee = .static i.a.toNat f.isNative := by
  rw [Prototype.callee] at h
  split at h
  · next hi => simp [hi, Opcode.callsConstant] at hop
  · next hi => simp [hi, Opcode.callsConstant] at hop
  · obtain ⟨-, -, h⟩ := bind_eq_ok h
    split at h
    · next f hf =>
        cases h
        exact ⟨f, hf, rfl⟩
    · cases h

theorem callee_of_callsRegister (h : p.callee n i = .ok callee) (hop : i.op.callsRegister = true) :
    callee = .register i.a.toNat := by
  rw [Prototype.callee] at h
  split at h
  · obtain ⟨-, -, h⟩ := bind_eq_ok h
    cases h
    rfl
  · obtain ⟨-, -, h⟩ := bind_eq_ok h
    cases h
    rfl
  · next hcall htail =>
      rw [Opcode.callsRegister] at hop
      · cases hop
      · exact hcall
      · exact htail

end Prototype

namespace Activation

/-- Preparing a call leaves the variables as they are, so the callee is the one that the
register held, be it passed by address or not. -/
theorem read_beforeCall (a : Activation) (m : Machine) (c : CallSite) (r : Nat) :
    a.read (a.beforeCall m c) .pointer r = a.read m .pointer r := rfl

end Activation

namespace Program

variable {p : Program} {a : Activation} {m : Machine} {c : CallSite} {f : FuncRef} {k r : Nat}

theorem callee?_of_constant (hc : c.callee = .static k f.isNative)
    (hf : Pointer.function? (a.proto.constants.get .pointer k) = some f) :
    p.callee? a c m = p.functionTask f.isNative f (a.handoverFor c) m := by
  rw [callee?_of_static hc, hf, Option.bind_some]

theorem callee?_of_pointer (hc : c.callee = .register r)
    (hf : Pointer.function? (a.read m .pointer r) = some f) :
    p.callee? a c m = p.functionTask f.isNative f (a.handoverFor c) m := by
  have hnull : Pointer.isNull (a.read m .pointer r) = false := by
    cases hp : (a.read m .pointer r : Pointer) with
    | function g => rfl
    | address x =>
        rw [hp] at hf
        cases hf
    | slot σ =>
        rw [hp] at hf
        cases hf
  rw [callee?_of_register hc, hnull, if_neg Bool.false_ne_true, hf, Option.bind_some]

end Program

/-- A call of a function constant and a call through a register that holds the address of
the function come to the same, if they agree in everything but how they name their callee.
The flag of the constant that the plan knows is the one that is tested when the call is made.
Both calls begin the same task on the same machine, so they unwind or resume alike, with the
same registers, and whatever runs behind them ends alike or does not end alike. -/
theorem dispatch_agrees {p : Program} {a : Activation} {m : Machine} {s s₁ t t₁ : Planning}
    {n n' : Nat} {i j : Instr} {c d : CallSite}
    (static : s.next a.proto n i (a.proto.code.drop (n + 1)) = .ok (.call c, s₁))
    (byConstant : i.op.callsConstant = true)
    (dynamic : t.next a.proto n' j (a.proto.code.drop (n' + 1)) = .ok (.call d, t₁))
    (byRegister : j.op.callsRegister = true) (same : c.SameCall d)
    (holds : a.read m .pointer j.a.toNat = a.proto.constants.get .pointer i.a.toNat) :
    (∃ f, Pointer.function? (a.read m .pointer j.a.toNat) = some f ∧
      c.callee = .static i.a.toNat f.isNative ∧ d.callee = .register j.a.toNat) ∧
      p.callee? a d (a.beforeCall m d) = p.callee? a c (a.beforeCall m c) ∧
      (∀ m₂, a.afterCall m₂ d = a.afterCall m₂ c) ∧
      (∀ limit rest, p.runSteps (p.enter limit) (.call d :: rest) a m =
        p.runSteps (p.enter limit) (.call c :: rest) a m) ∧
      ∀ rest r m', Nonempty (Execution p (.body (.call d :: rest) a) m r m') ↔
        Nonempty (Execution p (.body (.call c :: rest) a) m r m') := by
  obtain ⟨-, calls⟩ := Planning.calls_of_next static
  obtain ⟨-, calls'⟩ := Planning.calls_of_next dynamic
  obtain ⟨f, hf, hc⟩ := Prototype.callee_of_callsConstant calls.callee byConstant
  have hd := Prototype.callee_of_callsRegister calls'.callee byRegister
  have held : Pointer.function? (a.read m .pointer j.a.toNat) = some f := by rw [holds, hf]
  have task : p.callee? a d (a.beforeCall m d) = p.callee? a c (a.beforeCall m c) := by
    rw [Program.callee?_of_constant hc hf, same.beforeCall,
      Program.callee?_of_pointer hd (by rwa [a.read_beforeCall]), same.handoverFor]
  have run : ∀ limit rest, p.runSteps (p.enter limit) (.call d :: rest) a m =
      p.runSteps (p.enter limit) (.call c :: rest) a m := by
    intro limit rest
    simp only [Program.runSteps_call, task, same.kind, same.afterCall]
  refine ⟨⟨f, held, hc, hd⟩, task, same.afterCall a, run, ?_⟩
  intro rest r m'
  rw [← Program.runSteps_eq_some_iff, ← Program.runSteps_eq_some_iff]
  simp only [run]

/-! ## A register that names the callee, is passed to it and receives its result -/

def clearTwice : Prototype where
  code := [⟨.lkp, 0, 0, 0⟩,
    .param ⟨.of .pointer, .address⟩ 0, .callConst 0 1 1, .result (.of .pointer) 0,
    .param ⟨.of .pointer, .address⟩ 0, .call 0 1 1, .result (.of .pointer) 0]
  registers := { pointers := 1 }
  constants := { pointers := [.function (.native 0)] }

def clearByConstant : CallSite :=
  ⟨2, .call, .static 0 true, ⟨0, [⟨1, .address .pointer 0⟩]⟩, [⟨3, .of .pointer, .pointer, 0⟩]⟩

def clearByRegister : CallSite :=
  ⟨5, .call, .register 0, ⟨0, [⟨4, .address .pointer 0⟩]⟩, [⟨6, .of .pointer, .pointer, 0⟩]⟩

theorem clearByConstant_sameCall : clearByConstant.SameCall clearByRegister :=
  ⟨rfl, rfl, rfl, rfl⟩

def clearBody : Activation where
  proto := clearTwice
  name := "clear"
  frame := 0
  locals := { pointers := [.function (.native 0)] }
  outgoing := [.pointer (.slot ⟨.frame 0, .pointer, 0⟩)]
  handover := ⟨[], [], 0⟩

def clearMachine : Machine where
  frames := [⟨0, {}, { pointers := [.null] }⟩]

def clearProgram : Program where
  natives := [{ name := "null", behaviour := fun _ => .put 0 .pointer [.null] (.finish 1) }]

/-- Both calls return null to the register that the second one reads its callee from. -/
theorem dispatch_agrees_clearTwice :
    ∃ m', Nonempty (Execution clearProgram (.body [.call clearByConstant] clearBody)
        clearMachine 0 m') ∧
      Nonempty (Execution clearProgram (.body [.call clearByRegister] clearBody)
        clearMachine 0 m') := by
  have byConstant : ∃ m', Nonempty (Execution clearProgram
      (.body [.call clearByConstant] clearBody) clearMachine 0 m') :=
    ⟨_, ⟨.resumed rfl (.native rfl) (by decide) rfl (.fallOff _ _)⟩⟩
  obtain ⟨m', run⟩ := byConstant
  have planned : ∃ s₁, Planning.next { staging := ⟨[⟨1, .address .pointer 0⟩], 1⟩ } clearBody.proto 2
      (.callConst 0 1 1) (clearBody.proto.code.drop 3) = .ok (.call clearByConstant, s₁) := ⟨_, rfl⟩
  have planned' : ∃ t₁, Planning.next { staging := ⟨[⟨4, .address .pointer 0⟩], 1⟩ } clearBody.proto
      5 (.call 0 1 1) (clearBody.proto.code.drop 6) = .ok (.call clearByRegister, t₁) := ⟨_, rfl⟩
  obtain ⟨s₁, planned⟩ := planned
  obtain ⟨t₁, planned'⟩ := planned'
  obtain ⟨-, -, -, -, agree⟩ :=
    @dispatch_agrees clearProgram clearBody clearMachine _ s₁ _ t₁ 2 5 _ _ _ _ planned rfl planned'
      rfl clearByConstant_sameCall rfl
  exact ⟨m', run, (agree [] 0 m').2 run⟩

end CallProtocol
