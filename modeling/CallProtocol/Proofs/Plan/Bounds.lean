import CallProtocol.Proofs.PlanAcceptance
import CallProtocol.Proofs.CallerIsolation

/-!
# Operands in range

`Activation.touched` lists the registers that an activation reads or writes in a step, and
`Step.constants` the constants that the step reads. What a step of a plan names has been
looked up when it was planned, but at different times: a staged parameter when it was
staged, a result when its call was planned. So the walk carries along that all staged
sources and all expected results are in range.

Of a float whose address is passed only the register itself has been looked up. The floats
behind it are cut off at the end of their bank when the call is made, and they may be
behind the registers that an operand can name.
-/

namespace CallProtocol

def Source.register? : Source → Option (Bank × Nat)
  | .reg b r => some (b, r)
  | .address b r => some (b, r)
  | _ => none

def Source.constant? : Source → Option (Bank × Nat)
  | .const b k => some (b, k)
  | _ => none

def Callee.register? : Callee → Option (Bank × Nat)
  | .register r => some (.pointer, r)
  | .static _ _ => none

def Callee.constant? : Callee → Option (Bank × Nat)
  | .register _ => none
  | .static k _ => some (.pointer, k)

def PlainOp.registers : PlainOp → List (Bank × Nat)
  | nop => []
  | assign b r source => (b, r) :: source.register?.toList
  | addInts r x y => [(.int, r), (.int, x), (.int, y)]
  | addFloats r x y => [(.float, r), (.float, x), (.float, y)]

def PlainOp.constants : PlainOp → List (Bank × Nat)
  | assign _ _ source => source.constant?.toList
  | _ => []

def ResultSpec.registers (s : ResultSpec) : List (Bank × Nat) :=
  (List.range s.width).map fun k => (s.bank, s.reg + k)

def ReturnSite.registers (r : ReturnSite) : List (Bank × Nat) :=
  match r.source with
  | .reg b i => (List.range r.width).map fun k => (b, i + k)
  | s => s.register?.toList

/-- The registers that an activation touches in a step: its variables and the slots of its
frame. -/
def Activation.touched (a : Activation) : Step → List (Bank × Nat)
  | .plain op => op.registers
  | .stage _ params => params.filterMap (·.source.register?)
  | .call c => c.callee.register?.toList ++ a.inOuts c ++ resultRegs c
  | .result spec => spec.registers
  | .ret site => site.registers

def Step.constants : Step → List (Bank × Nat)
  | .plain op => op.constants
  | .stage _ params => params.filterMap (·.source.constant?)
  | .call c => c.callee.constant?.toList
  | .result _ => []
  | .ret site => site.source.constant?.toList

namespace Prototype

/-- The prototype has the registers, which operands can name, and the constants. -/
structure HasAll (p : Prototype) (registers constants : List (Bank × Nat)) : Prop where
  registers : ∀ q ∈ registers, p.HasReg q.1 q.2
  constants : ∀ q ∈ constants, p.HasConst q.1 q.2

def HasSource (p : Prototype) (s : Source) : Prop := p.HasAll s.register?.toList s.constant?.toList

/-- What a step touches is there, in any activation of the body. -/
structure InBounds (p : Prototype) (step : Step) : Prop where
  registers : ∀ a : Activation, a.proto = p → ∀ q ∈ a.touched step,
    q.2 < (p.registers.get q.1).toNat
  constants : ∀ q ∈ step.constants, p.HasConst q.1 q.2

variable {p : Prototype} {pc : Nat}

theorem HasReg.all {b : Bank} {r : Nat} (h : p.HasReg b r) : p.HasAll [(b, r)] [] :=
  ⟨List.forall_mem_singleton.2 h, nofun⟩

theorem HasRegs.all {b : Bank} {r width : Nat} (h : p.HasRegs b r width) :
    p.HasAll ((List.range width).map fun k => (b, r + k)) [] :=
  ⟨List.forall_mem_map.2 fun k hk => h k (List.mem_range.1 hk), nofun⟩

theorem HasConst.all {b : Bank} {k : Nat} (h : p.HasConst b k) : p.HasAll [] [(b, k)] :=
  ⟨nofun, List.forall_mem_singleton.2 h⟩

theorem HasAll.cons {registers constants : List (Bank × Nat)} {b : Bank} {r : Nat}
    (h : p.HasAll registers constants) (hreg : p.HasReg b r) :
    p.HasAll ((b, r) :: registers) constants :=
  ⟨List.forall_mem_cons.2 ⟨hreg, h.registers⟩, h.constants⟩

theorem hasAll_nil : p.HasAll [] [] := ⟨nofun, nofun⟩

theorem hasSource_of_regOperand {b : Bank} {r : Nat} {s : Source}
    (h : p.regOperand pc b r = .ok s) : p.HasSource s := by
  obtain ⟨u, hreg, h⟩ := bind_eq_ok h
  cases h
  exact (checkReg_eq_ok.1 hreg).all

theorem hasSource_of_constOperand {b : Bank} {k : Nat} {s : Source}
    (h : p.constOperand pc b k = .ok s) : p.HasSource s := by
  obtain ⟨u, hconst, h⟩ := bind_eq_ok h
  cases h
  exact (checkConst_eq_ok.1 hconst).all

/-- Every component of a parameter is looked up when it is staged. -/
theorem hasSource_of_paramSources {t : RegType} {index : Nat} {sources : List Source}
    (h : p.paramSources pc t index = .ok sources) : ∀ s ∈ sources, p.HasSource s := by
  rw [paramSources] at h
  split at h
  · cases h
    exact List.forall_mem_singleton.2 hasAll_nil
  · obtain ⟨s, hs, h⟩ := bind_eq_ok h
    cases h
    exact List.forall_mem_singleton.2 (hasSource_of_regOperand hs)
  · obtain ⟨s, hs, h⟩ := bind_eq_ok h
    cases h
    exact List.forall_mem_singleton.2 (hasSource_of_constOperand hs)
  · obtain ⟨u, hreg, h⟩ := bind_eq_ok h
    cases h
    exact List.forall_mem_singleton.2 (checkReg_eq_ok.1 hreg).all
  · obtain ⟨u, hreg, h⟩ := bind_eq_ok h
    cases h
    have hregs := checkReg_last_eq_ok.1 hreg
    exact List.forall_mem_map.2 fun k hk => (hregs k (List.mem_range.1 hk)).all
  · cases h

theorem hasAll_of_loadConst {b : Bank} {i : Instr} {op : PlainOp}
    (h : p.loadConst pc b i = .ok op) : p.HasAll op.registers op.constants := by
  obtain ⟨u, hreg, h⟩ := bind_eq_ok h
  obtain ⟨s, hs, h⟩ := bind_eq_ok h
  cases h
  exact (hasSource_of_constOperand hs).cons (checkReg_eq_ok.1 hreg)

theorem hasAll_of_moveReg {b : Bank} {i : Instr} {op : PlainOp}
    (h : p.moveReg pc b i = .ok op) : p.HasAll op.registers op.constants := by
  obtain ⟨u, hreg, h⟩ := bind_eq_ok h
  obtain ⟨s, hs, h⟩ := bind_eq_ok h
  cases h
  exact (hasSource_of_regOperand hs).cons (checkReg_eq_ok.1 hreg)

theorem hasAll_of_addRegs {b : Bank} {f : Nat → Nat → Nat → PlainOp} {i : Instr} {op : PlainOp}
    (hf : ∀ r x y, (f r x y).registers = [(b, r), (b, x), (b, y)] ∧ (f r x y).constants = [])
    (h : p.addRegs pc b f i = .ok op) : p.HasAll op.registers op.constants := by
  obtain ⟨u, ha, h⟩ := bind_eq_ok h
  obtain ⟨u, hb, h⟩ := bind_eq_ok h
  obtain ⟨u, hc, h⟩ := bind_eq_ok h
  cases h
  obtain ⟨hregs, hconsts⟩ := hf i.a.toNat i.b.toNat i.c.toNat
  rw [hregs, hconsts]
  exact ((checkReg_eq_ok.1 hc).all.cons (checkReg_eq_ok.1 hb)).cons (checkReg_eq_ok.1 ha)

theorem hasAll_of_plainOp {i : Instr} {op : PlainOp} (h : p.plainOp pc i = .ok op) :
    p.HasAll op.registers op.constants := by
  rw [plainOp] at h
  split at h
  · obtain ⟨u, hreg, h⟩ := bind_eq_ok h
    cases h
    exact hasAll_nil.cons (checkReg_eq_ok.1 hreg)
  · exact hasAll_of_loadConst h
  · exact hasAll_of_loadConst h
  · exact hasAll_of_loadConst h
  · exact hasAll_of_loadConst h
  · exact hasAll_of_moveReg h
  · exact hasAll_of_moveReg h
  · exact hasAll_of_moveReg h
  · exact hasAll_of_addRegs (fun _ _ _ => ⟨rfl, rfl⟩) h
  · exact hasAll_of_addRegs (fun _ _ _ => ⟨rfl, rfl⟩) h
  · cases h
    exact hasAll_nil

theorem hasAll_of_callee {i : Instr} {c : Callee} (h : p.callee pc i = .ok c) :
    p.HasAll c.register?.toList c.constant?.toList := by
  rw [callee] at h
  split at h
  · obtain ⟨u, hreg, h⟩ := bind_eq_ok h
    cases h
    exact (checkReg_eq_ok.1 hreg).all
  · obtain ⟨u, hreg, h⟩ := bind_eq_ok h
    cases h
    exact (checkReg_eq_ok.1 hreg).all
  · obtain ⟨u, hconst, h⟩ := bind_eq_ok h
    split at h
    · cases h
      exact (checkConst_eq_ok.1 hconst).all
    · cases h

theorem hasRegs_of_resultSpec {i : Instr} {r : ResultSpec} (h : p.resultSpec pc i = .ok r) :
    p.HasRegs r.bank r.reg r.width := by
  rw [resultSpec] at h
  obtain ⟨t, ht, h⟩ := bind_eq_ok h
  split at h
  · cases h
  · next hkind hmodifier =>
      obtain ⟨u, hreg, h⟩ := bind_eq_ok h
      cases h
      rw [ResultSpec.width, RegType.components, hmodifier]
      exact hasRegs_one.2 (checkReg_eq_ok.1 hreg)
  · obtain ⟨u, hreg, h⟩ := bind_eq_ok h
    cases h
    exact checkReg_last_eq_ok.1 hreg
  · obtain ⟨u, hreg, h⟩ := bind_eq_ok h
    cases h
    exact checkReg_last_eq_ok.1 hreg
  · cases h

theorem hasRegs_of_resultSpecs {count : Nat} {code : List Instr} {rs : List ResultSpec}
    (h : p.resultSpecs pc count code = .ok rs) : ∀ r ∈ rs, p.HasRegs r.bank r.reg r.width := by
  induction count generalizing pc code rs with
  | zero =>
      rw [resultSpecs] at h
      cases h
      exact List.forall_mem_nil _
  | succ count ih =>
      cases code with
      | nil => cases h
      | cons i rest =>
          rw [resultSpecs] at h
          split at h
          · obtain ⟨r, hr, h⟩ := bind_eq_ok h
            obtain ⟨rs, hrs, h⟩ := bind_eq_ok h
            cases h
            exact List.forall_mem_cons.2 ⟨hasRegs_of_resultSpec hr, ih hrs⟩
          · cases h

theorem hasRegs_of_callResults {kind : CallKind} {i : Instr} {rest : List Instr}
    {rs : List ResultSpec} (h : p.callResults pc kind i rest = .ok rs) :
    ∀ r ∈ rs, p.HasRegs r.bank r.reg r.width := by
  cases kind with
  | call => exact hasRegs_of_resultSpecs h
  | tail =>
      cases h
      exact nofun

theorem hasAll_of_returnSite {i : Instr} {site : ReturnSite} (h : p.returnSite pc i = .ok site) :
    p.HasAll site.registers site.source.constant?.toList := by
  rw [returnSite] at h
  obtain ⟨t, -, h⟩ := bind_eq_ok h
  dsimp only at h
  split at h
  · obtain ⟨s, hs, h⟩ := bind_eq_ok h
    cases h
    obtain ⟨u, hreg, hs⟩ := bind_eq_ok hs
    cases hs
    exact (hasRegs_one.2 (checkReg_eq_ok.1 hreg)).all
  · obtain ⟨s, hs, h⟩ := bind_eq_ok h
    cases h
    obtain ⟨u, hconst, hs⟩ := bind_eq_ok hs
    cases hs
    exact (checkConst_eq_ok.1 hconst).all
  · obtain ⟨u, hreg, h⟩ := bind_eq_ok h
    cases h
    exact (checkReg_last_eq_ok.1 hreg).all
  · obtain ⟨u, hreg, h⟩ := bind_eq_ok h
    cases h
    exact (checkReg_last_eq_ok.1 hreg).all
  · cases h

end Prototype

/-! ## Along the walk -/

namespace Prototype.HasAll

variable {p : Prototype} {registers constants : List (Bank × Nat)}

theorem lt (h : p.HasAll registers constants) {q : Bank × Nat} (hq : q ∈ registers) :
    q.2 < (p.registers.get q.1).toNat :=
  (h.registers q hq).1

end Prototype.HasAll

theorem Activation.lt_of_mem_inOuts {a : Activation} {c : CallSite}
    (sources : ∀ e ∈ c.window.params, a.proto.HasSource e.source) {q : Bank × Nat}
    (hq : q ∈ a.inOuts c) : q.2 < (a.proto.registers.get q.1).toNat := by
  obtain ⟨⟨b, r⟩, hmem, hcovered⟩ := List.mem_flatMap.1 hq
  obtain ⟨-, e, he, hsource⟩ := CallSite.cached_of_mem hmem
  have named : a.proto.HasReg b r := by
    have hs := sources e he
    rw [hsource] at hs
    exact hs.registers (b, r) List.mem_cons_self
  obtain ⟨hb, rfl | ⟨hfloat, -, -, hlt⟩⟩ := mem_covered hcovered
  · rw [hb]
    exact named.1
  · rw [hfloat]
    exact hlt

namespace Planning

structure InRange (s : Planning) (p : Prototype) : Prop where
  sources : ∀ e ∈ s.staging.entries, p.HasSource e.source
  results : ∀ r ∈ s.pending, p.HasRegs r.bank r.reg r.width

variable {p : Prototype} {n : Nat} {i : Instr} {s s' : Planning} {step : Step}

theorem inRange_start : InRange {} p := ⟨nofun, nofun⟩

theorem InRange.stage (h : s.InRange p) {sources : List Source}
    (hsources : ∀ x ∈ sources, p.HasSource x) :
    (s.stage n sources).2.InRange p ∧ p.InBounds (s.stage n sources).1 := by
  have staged : ∀ e ∈ sources.map (Staged.mk n), p.HasSource e.source :=
    List.forall_mem_map.2 hsources
  refine ⟨⟨?_, h.results⟩, ?_, ?_⟩
  · rw [Planning.stage, Staging.entries_pushAll]
    exact List.forall_mem_append.2 ⟨h.sources, staged⟩
  · rintro a rfl q hq
    obtain ⟨e, he, hq⟩ := List.mem_filterMap.1 hq
    exact (staged e he).lt (Option.mem_toList.2 hq)
  · intro q hq
    obtain ⟨e, he, hq⟩ := List.mem_filterMap.1 hq
    exact (staged e he).constants q (Option.mem_toList.2 hq)

theorem InRange.call (h : s.InRange p) {kind : CallKind} {rest : List Instr}
    (walked : s.call p n kind i rest = .ok (step, s')) : s'.InRange p ∧ p.InBounds step := by
  rw [Planning.call] at walked
  obtain ⟨callee, hcallee, walked⟩ := bind_eq_ok walked
  obtain ⟨⟨window, staging⟩, htake, walked⟩ := bind_eq_ok walked
  obtain ⟨results, hresults, walked⟩ := bind_eq_ok walked
  cases walked
  have named := Prototype.hasAll_of_callee hcallee
  have received := Prototype.hasRegs_of_callResults hresults
  rw [Staging.take] at htake
  split at htake
  · cases htake
    refine ⟨⟨fun e he => h.sources e (List.mem_of_mem_take he),
      List.forall_mem_append.2 ⟨h.results, received⟩⟩, ?_, fun q hq => named.constants q hq⟩
    rintro a rfl q hq
    rcases List.mem_append.1 hq with hq | hq
    · rcases List.mem_append.1 hq with hq | hq
      · exact named.lt hq
      · exact Activation.lt_of_mem_inOuts (fun e he => h.sources e (List.mem_of_mem_drop he)) hq
    · obtain ⟨r, hr, hq⟩ := List.mem_flatMap.1 hq
      exact (received r hr).all.lt hq
  · cases htake

/-- What a step touches is there, and what is carried on names only what is there. -/
theorem InRange.next (h : s.InRange p) (walked : s.next p n i (p.code.drop (n + 1)) = .ok (step, s')) :
    s'.InRange p ∧ p.InBounds step := by
  rw [Planning.next] at walked
  cases hop : i.op with
  | param =>
      rw [hop] at walked
      obtain ⟨t, -, walked⟩ := bind_eq_ok walked
      obtain ⟨sources, hsources, walked⟩ := bind_eq_ok walked
      cases walked
      exact h.stage (Prototype.hasSource_of_paramSources hsources)
  | parami =>
      rw [hop] at walked
      cases walked
      exact h.stage (List.forall_mem_singleton.2 Prototype.hasAll_nil)
  | call | callk | tail | tailk =>
      rw [hop] at walked
      exact h.call walked
  | result =>
      rw [hop] at walked
      simp only [result] at walked
      split at walked
      · next r rs hpending =>
          split at walked
          · cases walked
            obtain ⟨hr, hrs⟩ := List.forall_mem_cons.1 (hpending ▸ h.results)
            refine ⟨⟨h.sources, hrs⟩, ?_, List.forall_mem_nil _⟩
            rintro a rfl q hq
            exact hr.all.lt hq
          · cases walked
      · cases walked
  | ret =>
      rw [hop] at walked
      obtain ⟨site, hsite, walked⟩ := bind_eq_ok walked
      cases walked
      have named := Prototype.hasAll_of_returnSite hsite
      refine ⟨h, ?_, named.constants⟩
      rintro a rfl q hq
      exact named.lt hq
  | reti =>
      rw [hop] at walked
      cases walked
      exact ⟨h, fun _ _ => List.forall_mem_nil _, List.forall_mem_nil _⟩
  | _ =>
      rw [hop] at walked
      obtain ⟨op, hplain, walked⟩ := bind_eq_ok walked
      cases walked
      have named := Prototype.hasAll_of_plainOp hplain
      refine ⟨h, ?_, named.constants⟩
      rintro a rfl q hq
      exact named.lt hq

theorem InRange.of_carries (h : p.Carries n s) : s.InRange p := by
  induction h with
  | start => exact inRange_start
  | next _ _ walked ih => exact (ih.next walked).1

end Planning

/-- What the steps of a plan touch is there. -/
theorem Prototype.inBounds_of_mem {p : Prototype} {plan : Plan} (planned : p.plan = .ok plan)
    {step : Step} (h : step ∈ plan.steps) : p.InBounds step := by
  obtain ⟨n, hn⟩ := List.mem_iff_getElem?.1 h
  obtain ⟨i, s, s', -, carries, walked⟩ := step_instr planned hn
  exact ((Planning.InRange.of_carries carries).next walked).2

end CallProtocol
