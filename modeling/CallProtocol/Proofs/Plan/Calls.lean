import CallProtocol.Proofs.Plan.Walk

/-!
# What an instruction is planned as

An instruction stages parameters, calls, or does neither, and its opcode says which.
The step of a call takes the entries that were staged last; all other steps leave the
staged entries in place. What is known about a call site of a plan is collected in
`Planning.Calls`.
-/

namespace CallProtocol

def Opcode.callKind? : Opcode → Option CallKind
  | .call | .callk => some .call
  | .tail | .tailk => some .tail
  | _ => none

def Opcode.stages : Opcode → Bool
  | .param | .parami => true
  | _ => false

def Step.call? : Step → Option CallSite
  | .call c => some c
  | _ => none

theorem Plan.calls_eq (plan : Plan) : plan.calls = plan.steps.filterMap Step.call? := rfl

/-- The instruction declares the result. Its type is one of the bank, and only floats
have several components. -/
structure ResultSpec.DeclaredBy (r : ResultSpec) (i : Instr) : Prop where
  op : i.op = .result
  type : RegType.ofBits? i.b = some r.type
  kind : r.type.kind = .of r.bank
  single : r.bank ≠ .float → r.type.modifier = .plain
  reg : r.reg = i.c.toNat

namespace Prototype

theorem ofBits?_of_decode {pc : Nat} {bits : UInt8} {t : RegType} (h : decode pc bits = .ok t) :
    RegType.ofBits? bits = some t := by
  rw [decode] at h
  split at h
  · next ht =>
      cases h
      exact ht
  · cases h

theorem resultSpec_declared {p : Prototype} {pc : Nat} {i : Instr} {r : ResultSpec}
    (hop : i.op = .result) (h : p.resultSpec pc i = .ok r) : r.DeclaredBy i := by
  rw [resultSpec] at h
  obtain ⟨t, ht, h⟩ := bind_eq_ok h
  have ht := ofBits?_of_decode ht
  split at h
  · cases h
  · next hkind hmodifier =>
      obtain ⟨-, -, h⟩ := bind_eq_ok h
      cases h
      exact ⟨hop, ht, hkind, fun _ => hmodifier, rfl⟩
  · next hkind hmodifier =>
      obtain ⟨-, -, h⟩ := bind_eq_ok h
      cases h
      exact ⟨hop, ht, hkind, fun hbank => absurd rfl hbank, rfl⟩
  · next hkind hmodifier =>
      obtain ⟨-, -, h⟩ := bind_eq_ok h
      cases h
      exact ⟨hop, ht, hkind, fun hbank => absurd rfl hbank, rfl⟩
  · cases h

theorem resultSpecs_declared {p : Prototype} {pc count : Nat} {code : List Instr}
    {rs : List ResultSpec} (h : p.resultSpecs pc count code = .ok rs) :
    rs.length = count ∧ ∀ r ∈ rs, ∃ k i, k < count ∧ code[k]? = some i ∧ r.DeclaredBy i := by
  induction count generalizing pc code rs with
  | zero =>
      cases code with
      | nil =>
          cases h
          simp
      | cons i rest =>
          cases h
          simp
  | succ count ih =>
      cases code with
      | nil => cases h
      | cons i rest =>
          rw [resultSpecs] at h
          split at h
          · next hop =>
              obtain ⟨r, hr, h⟩ := bind_eq_ok h
              obtain ⟨rs₁, hrs, h⟩ := bind_eq_ok h
              cases h
              obtain ⟨hlength, hall⟩ := ih hrs
              refine ⟨by rw [List.length_cons, hlength], ?_⟩
              intro r' hr'
              rcases List.mem_cons.1 hr' with rfl | hr'
              · exact ⟨0, i, Nat.succ_pos _, rfl, resultSpec_declared hop hr⟩
              · obtain ⟨k, j, hk, hj, hdeclared⟩ := hall r' hr'
                exact ⟨k + 1, j, Nat.succ_lt_succ hk, hj, hdeclared⟩
          · cases h

theorem callResults_declared {p : Prototype} {pc : Nat} {kind : CallKind} {i : Instr}
    {rs : List ResultSpec} (h : p.callResults pc kind i (p.code.drop (pc + 1)) = .ok rs) :
    rs.length ≤ 255 ∧ ∀ r ∈ rs, ∃ k j, k < i.c.toNat ∧ p.code[pc + 1 + k]? = some j ∧
      r.DeclaredBy j := by
  cases kind with
  | call =>
      obtain ⟨hlength, hall⟩ := resultSpecs_declared h
      have hlt := i.c.toNat_lt
      refine ⟨by omega, ?_⟩
      intro r hr
      obtain ⟨k, j, hk, hj, hdeclared⟩ := hall r hr
      rw [List.getElem?_drop] at hj
      exact ⟨k, j, hk, hj, hdeclared⟩
  | tail =>
      cases h
      simp

/-- Whether a constant is a native is decided when the call is planned. -/
theorem callee_static {p : Prototype} {pc : Nat} {i : Instr} {k : Nat} {native : Bool}
    (h : p.callee pc i = .ok (.static k native)) :
    ∃ f, (p.constants.get .pointer k : Pointer).function? = some f ∧ native = f.isNative := by
  rw [callee] at h
  split at h
  · obtain ⟨-, -, h⟩ := bind_eq_ok h
    cases h
  · obtain ⟨-, -, h⟩ := bind_eq_ok h
    cases h
  · obtain ⟨-, -, h⟩ := bind_eq_ok h
    split at h
    · next f hf =>
        cases h
        exact ⟨f, hf, rfl⟩
    · cases h

end Prototype

namespace Planning

/-- `c` is the call that the instruction `i` at `pc` makes when `s` has been carried up
to it, and `s'` is what is carried on. -/
structure Calls (s : Planning) (p : Prototype) (pc : Nat) (i : Instr) (c : CallSite)
    (s' : Planning) : Prop where
  callee : p.callee pc i = .ok c.callee
  enough : i.b.toNat ≤ s.staging.entries.length
  window : c.window = ⟨s.staging.entries.length - i.b.toNat,
    s.staging.entries.drop (s.staging.entries.length - i.b.toNat)⟩
  few : c.results.length ≤ 255
  declared : ∀ r ∈ c.results, ∃ k j, k < i.c.toNat ∧ p.code[pc + 1 + k]? = some j ∧
    r.DeclaredBy j
  entries : s'.staging.entries =
    s.staging.entries.take (s.staging.entries.length - i.b.toNat)

theorem call_eq_ok {s s' : Planning} {p : Prototype} {pc : Nat} {kind : CallKind} {i : Instr}
    {step : Step} (h : s.call p pc kind i (p.code.drop (pc + 1)) = .ok (step, s')) :
    ∃ c, step = .call c ∧ c.kind = kind ∧ s.Calls p pc i c s' := by
  rw [call] at h
  obtain ⟨callee, hcallee, h⟩ := bind_eq_ok h
  obtain ⟨⟨window, staging⟩, hwindow, h⟩ := bind_eq_ok h
  obtain ⟨results, hresults, h⟩ := bind_eq_ok h
  cases h
  rw [Staging.take] at hwindow
  split at hwindow
  · next enough =>
      cases hwindow
      obtain ⟨few, declared⟩ := Prototype.callResults_declared hresults
      exact ⟨_, rfl, rfl, hcallee, enough, rfl, few, declared, rfl⟩
  · cases hwindow

/-- The step of an instruction: a call takes its parameters off the staged ones, a
parameter instruction adds its sources to them, and any other instruction is none of
both and leaves them alone. -/
theorem next_cases {s s' : Planning} {p : Prototype} {pc : Nat} {i : Instr} {step : Step}
    (h : s.next p pc i (p.code.drop (pc + 1)) = .ok (step, s')) :
    (∃ kind c, i.op.callKind? = some kind ∧ step = .call c ∧ c.kind = kind ∧
      s.Calls p pc i c s') ∨
      (∃ sources, i.op.stages = true ∧ i.op.callKind? = none ∧
        ((i.op = .parami ∧ sources = [.imm i.sax]) ∨
          (i.op = .param ∧ ∃ t, RegType.ofBits? i.b = some t ∧
            p.paramSources pc t i.c.toNat = .ok sources)) ∧
        step = .stage s.staging.entries.length (sources.map (Staged.mk pc)) ∧
        s'.staging.entries = s.staging.entries ++ sources.map (Staged.mk pc)) ∨
      (i.op.stages = false ∧ i.op.callKind? = none ∧ s'.staging = s.staging ∧
        (∀ c, step ≠ .call c) ∧ ∀ slot params, step ≠ .stage slot params) := by
  rw [next] at h
  split at h
  · next hop =>
      obtain ⟨t, ht, h⟩ := bind_eq_ok h
      obtain ⟨sources, hsources, h⟩ := bind_eq_ok h
      cases h
      have ht := Prototype.ofBits?_of_decode ht
      exact .inr (.inl ⟨sources, by rw [hop]; rfl, by rw [hop]; rfl,
        .inr ⟨hop, t, ht, hsources⟩, rfl, Staging.entries_pushAll _ _⟩)
  · next hop =>
      cases h
      exact .inr (.inl ⟨[.imm i.sax], by rw [hop]; rfl, by rw [hop]; rfl, .inl ⟨hop, rfl⟩, rfl,
        Staging.entries_pushAll _ _⟩)
  · next hop =>
      obtain ⟨c, hc, hkind, hcalls⟩ := call_eq_ok h
      exact .inl ⟨.call, c, by rw [hop]; rfl, hc, hkind, hcalls⟩
  · next hop =>
      obtain ⟨c, hc, hkind, hcalls⟩ := call_eq_ok h
      exact .inl ⟨.call, c, by rw [hop]; rfl, hc, hkind, hcalls⟩
  · next hop =>
      obtain ⟨c, hc, hkind, hcalls⟩ := call_eq_ok h
      exact .inl ⟨.tail, c, by rw [hop]; rfl, hc, hkind, hcalls⟩
  · next hop =>
      obtain ⟨c, hc, hkind, hcalls⟩ := call_eq_ok h
      exact .inl ⟨.tail, c, by rw [hop]; rfl, hc, hkind, hcalls⟩
  · next hop =>
      rw [result] at h
      refine .inr (.inr ⟨by rw [hop]; rfl, by rw [hop]; rfl, ?_⟩)
      split at h
      · split at h
        · cases h
          simp
        · cases h
      · cases h
  · next hop =>
      obtain ⟨site, -, h⟩ := bind_eq_ok h
      cases h
      exact .inr (.inr ⟨by rw [hop]; rfl, by rw [hop]; rfl, by simp⟩)
  · next hop =>
      cases h
      exact .inr (.inr ⟨by rw [hop]; rfl, by rw [hop]; rfl, by simp⟩)
  · obtain ⟨op, -, h⟩ := bind_eq_ok h
    cases h
    refine .inr (.inr ⟨?_, ?_, by simp⟩)
    · cases hop : i.op <;> simp_all [Opcode.stages]
    · cases hop : i.op <;> simp_all [Opcode.callKind?]

theorem calls_of_next {s s' : Planning} {p : Prototype} {pc : Nat} {i : Instr} {c : CallSite}
    (h : s.next p pc i (p.code.drop (pc + 1)) = .ok (.call c, s')) :
    i.op.callKind? = some c.kind ∧ s.Calls p pc i c s' := by
  rcases next_cases h with ⟨kind, c', hop, heq, rfl, calls⟩ | ⟨_, _, _, _, heq, _⟩ |
    ⟨_, _, _, hcall, _⟩
  · cases heq
    exact ⟨hop, calls⟩
  · cases heq
  · exact absurd rfl (hcall c)

end Planning

def callFirst : Prototype where
  code := [.callConst 0 0 0, .retImm 0 true 7]
  constants := { pointers := [.function (.script 0)] }

def callFirstPlan : Plan where
  steps := [.call ⟨0, .call, .static 0 false, ⟨0, []⟩, []⟩,
    .ret ⟨0, true, .imm 7, 1, .int, .of .int⟩]
  layout := {}
  states := [⟨[], []⟩, ⟨[], []⟩]

theorem callFirst_plan : callFirst.plan = .ok callFirstPlan := rfl

end CallProtocol
