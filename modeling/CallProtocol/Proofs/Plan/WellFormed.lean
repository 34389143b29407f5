import CallProtocol.Proofs.Plan.Calls

/-!
# Well-formed bodies

What it means for a body to obey the call protocol, said without the walk that checks it.
The number of staged parameters before an instruction is a fold over the instructions
before it, and everything else is a condition on one instruction and on the instructions
around it. Operands are in range, and each type is one that its instruction can take.

Beside each condition stands the check of the planner that it settles.
-/

namespace CallProtocol

/-- The type is one of the bank. Only floats have several components. -/
structure RegType.Of (t : RegType) (b : Bank) : Prop where
  kind : t.kind = .of b
  single : b ≠ .float → t.components = 1

namespace RegType

theorem not_of_nil {m : Modifier} {b : Bank} : ¬ (RegType.mk .nil m).Of b :=
  fun h => nomatch h.kind

theorem exists_of {b : Bank} {m : Modifier} {P : Bank → Prop} :
    (∃ c, (RegType.mk (.of b) m).Of c ∧ P c) ↔ (b ≠ .float → m.components = 1) ∧ P b := by
  constructor
  · rintro ⟨c, ⟨hkind, hsingle⟩, h⟩
    cases hkind
    exact ⟨hsingle, h⟩
  · rintro ⟨hsingle, h⟩
    exact ⟨b, ⟨rfl, hsingle⟩, h⟩

end RegType

namespace Prototype

def HasReg (p : Prototype) (b : Bank) (reg : Nat) : Prop :=
  reg < (p.registers.get b).toNat ∧ reg ≤ 255

def HasRegs (p : Prototype) (b : Bank) (reg width : Nat) : Prop :=
  ∀ k < width, p.HasReg b (reg + k)

def HasConst (p : Prototype) (b : Bank) (index : Nat) : Prop :=
  index < p.constants.size b

/-- The operand is in range: a constant is in its pool, and all registers of a value are
in their bank. -/
def HasOperand (p : Prototype) (b : Bank) (t : RegType) (index : Nat) : Prop :=
  if t.isConstant then p.HasConst b index else p.HasRegs b index t.components

def TakesParam (p : Prototype) (t : RegType) (index : Nat) : Prop :=
  t = .nil ∨ ∃ b, t.Of b ∧ p.HasOperand b t index

/-- A returned value is an operand, but not an address. -/
def TakesReturn (p : Prototype) (t : RegType) (index : Nat) : Prop :=
  t.isAddress = false ∧ ∃ b, t.Of b ∧ p.HasOperand b t index

/-- A result lands in registers, so its type is neither that of a constant nor that of an
address. -/
def TakesResult (p : Prototype) (t : RegType) (reg : Nat) : Prop :=
  t.isConstant = false ∧ t.isAddress = false ∧ ∃ b, t.Of b ∧ p.HasRegs b reg t.components

def Receives (p : Prototype) (i : Instr) : Prop :=
  i.op = .result ∧ ∃ t, RegType.ofBits? i.b = some t ∧ p.TakesResult t i.c.toNat

/-- The callee of a call is in a pointer register, or it is a function among the pointer
constants. -/
def HasCallee (p : Prototype) (i : Instr) : Prop :=
  match i.op with
  | .call | .tail => p.HasReg .pointer i.a.toNat
  | _ => p.HasConst .pointer i.a.toNat ∧
      ∃ f, (p.constants.get .pointer i.a.toNat : Pointer).function? = some f

def HasOperands (p : Prototype) (i : Instr) : Prop :=
  match i.op with
  | .li => p.HasReg .int i.a.toNat
  | .lk => p.HasReg .int i.a.toNat ∧ p.HasConst .int i.bx.toNat
  | .lkf => p.HasReg .float i.a.toNat ∧ p.HasConst .float i.bx.toNat
  | .lks => p.HasReg .string i.a.toNat ∧ p.HasConst .string i.bx.toNat
  | .lkp => p.HasReg .pointer i.a.toNat ∧ p.HasConst .pointer i.bx.toNat
  | .move => p.HasReg .int i.a.toNat ∧ p.HasReg .int i.b.toNat
  | .movef => p.HasReg .float i.a.toNat ∧ p.HasReg .float i.b.toNat
  | .movea => p.HasReg .pointer i.a.toNat ∧ p.HasReg .pointer i.b.toNat
  | .add => p.HasReg .int i.a.toNat ∧ p.HasReg .int i.b.toNat ∧ p.HasReg .int i.c.toNat
  | .addf => p.HasReg .float i.a.toNat ∧ p.HasReg .float i.b.toNat ∧ p.HasReg .float i.c.toNat
  | .param => ∃ t, RegType.ofBits? i.b = some t ∧ p.TakesParam t i.c.toNat
  | .ret => ∃ t, RegType.ofBits? i.b = some t ∧ p.TakesReturn t i.c.toNat
  | _ => True

end Prototype

/-- How many parameters are staged after the instruction if there were `height` before.
A type that cannot be decoded stages none. -/
def Instr.heightAfter (i : Instr) (height : Nat) : Nat :=
  match i.op with
  | .param => height + ((RegType.ofBits? i.b).map RegType.components).getD 0
  | .parami => height + 1
  | .call | .callk | .tail | .tailk => height - i.b.toNat
  | _ => height

namespace Prototype

def height (p : Prototype) (n : Nat) : Nat :=
  (p.code.take n).foldl (fun height i => i.heightAfter height) 0

/-- The instruction at `m` is a call whose results the next `count` instructions receive.
A tail call receives none. -/
def CallsAt (p : Prototype) (m count : Nat) : Prop :=
  ∃ i, p.code[m]? = some i ∧ i.op.callKind? = some .call ∧ i.c.toNat = count

structure WellFormedAt (p : Prototype) (n : Nat) (i : Instr) : Prop where
  /-- A call takes no more parameters than are staged. -/
  staged : i.op.callKind? ≠ none → i.b.toNat ≤ p.height n
  /-- The instructions right behind a call receive its results. -/
  results : i.op.callKind? = some .call → ∀ k < i.c.toNat, ∃ j, p.code[n + 1 + k]? = some j ∧
    p.Receives j
  /-- What receives a result has a call before it. -/
  called : i.op = .result → ∃ m count, p.CallsAt m count ∧ m < n ∧ n ≤ m + count
  callee : i.op.callKind? ≠ none → p.HasCallee i
  operands : p.HasOperands i

/-- Every instruction of the body obeys the call protocol. -/
def WellFormed (p : Prototype) : Prop :=
  ∀ n i, p.code[n]? = some i → p.WellFormedAt n i

end Prototype

theorem exists_bind_eq_ok {ε α β : Type} {x : Except ε α} {f : α → Except ε β} :
    (∃ b, (x >>= f) = .ok b) ↔ ∃ a, x = .ok a ∧ ∃ b, f a = .ok b := by
  constructor
  · rintro ⟨b, h⟩
    obtain ⟨a, ha, hb⟩ := bind_eq_ok h
    exact ⟨a, ha, b, hb⟩
  · rintro ⟨a, rfl, b, hb⟩
    exact ⟨b, hb⟩

theorem exists_map_eq_ok {ε α β : Type} {x : Except ε α} {f : α → β} :
    (∃ b, f <$> x = .ok b) ↔ ∃ a, x = .ok a := by
  cases x with
  | error e => exact ⟨nofun, nofun⟩
  | ok a => exact ⟨fun _ => ⟨a, rfl⟩, fun _ => ⟨f a, rfl⟩⟩

namespace Prototype

variable {p : Prototype} {pc : Nat}

@[simp] theorem checkReg_eq_ok {b : Bank} {reg : Nat} {u : Unit} :
    p.checkReg pc b reg = .ok u ↔ p.HasReg b reg := by
  rw [checkReg, HasReg]
  split
  · next h => exact ⟨fun _ => ⟨h.1, Nat.le_of_lt_succ h.2⟩, fun _ => rfl⟩
  · next h => exact ⟨nofun, fun h' => absurd ⟨h'.1, Nat.lt_succ_of_le h'.2⟩ h⟩

@[simp] theorem checkConst_eq_ok {b : Bank} {index : Nat} {u : Unit} :
    p.checkConst pc b index = .ok u ↔ p.HasConst b index := by
  rw [checkConst, HasConst]
  split
  · next h => exact ⟨fun _ => h, fun _ => rfl⟩
  · next h => exact ⟨nofun, fun h' => absurd h' h⟩

theorem decode_eq_ok {bits : UInt8} {t : RegType} :
    decode pc bits = .ok t ↔ RegType.ofBits? bits = some t := by
  refine ⟨ofBits?_of_decode, fun h => ?_⟩
  rw [decode, h]

@[simp] theorem hasRegs_one {b : Bank} {reg : Nat} : p.HasRegs b reg 1 ↔ p.HasReg b reg := by
  simp [HasRegs]

theorem checkReg_last_eq_ok {b : Bank} {reg : Nat} {t : RegType} {u : Unit} :
    p.checkReg pc b (reg + t.components - 1) = .ok u ↔ p.HasRegs b reg t.components := by
  have hpos : 0 < t.components := t.modifier.components_pos
  rw [checkReg_eq_ok]
  constructor
  · rintro ⟨hlast, hbyte⟩ k hk
    exact ⟨by omega, by omega⟩
  · intro h
    rw [Nat.add_sub_assoc hpos]
    exact h (t.components - 1) (Nat.sub_lt hpos Nat.one_pos)

@[simp] theorem hasOperand_constant {b : Bank} {k : Kind} {index : Nat} :
    p.HasOperand b ⟨k, .constant⟩ index ↔ p.HasConst b index := by
  simp [HasOperand, RegType.isConstant]

theorem hasOperand_of_ne {b : Bank} {t : RegType} {index : Nat} (h : t.modifier ≠ .constant) :
    p.HasOperand b t index ↔ p.HasRegs b index t.components := by
  simp [HasOperand, RegType.isConstant, h]

theorem exists_regOperand {b : Bank} {reg : Nat} :
    (∃ s, p.regOperand pc b reg = .ok s) ↔ p.HasReg b reg := by
  simp [regOperand, exists_bind_eq_ok, pure, Except.pure]

theorem exists_constOperand {b : Bank} {index : Nat} :
    (∃ s, p.constOperand pc b index = .ok s) ↔ p.HasConst b index := by
  simp [constOperand, exists_bind_eq_ok, pure, Except.pure]

theorem exists_span {α : Type} {b : Bank} {t : RegType} {reg : Nat} {f : Unit → α} :
    (∃ x, f <$> p.checkReg pc b (reg + t.components - 1) = .ok x) ↔
      p.HasRegs b reg t.components := by
  rw [exists_map_eq_ok]
  simp only [checkReg_last_eq_ok, exists_const]

theorem exists_paramSources {t : RegType} {index : Nat} :
    (∃ sources, p.paramSources pc t index = .ok sources) ↔ p.TakesParam t index := by
  rcases t with ⟨b | _, m⟩
  · rw [TakesParam, RegType.exists_of]
    cases m with
    | plain =>
        simp [paramSources, exists_map_eq_ok, exists_regOperand, hasOperand_of_ne, RegType.nil,
          RegType.components, Modifier.components]
    | constant =>
        simp [paramSources, exists_map_eq_ok, exists_constOperand, RegType.nil, Modifier.components]
    | address =>
        simp [paramSources, exists_map_eq_ok, hasOperand_of_ne, RegType.nil, RegType.components,
          Modifier.components]
    | pair | triple =>
        cases b with
        | float => simp [paramSources, exists_span, hasOperand_of_ne, RegType.nil]
        | _ => simp [paramSources, RegType.nil, Modifier.components]
  · cases m <;> simp [paramSources, TakesParam, RegType.nil, RegType.not_of_nil]

theorem length_paramSources {t : RegType} {index : Nat} {sources : List Source}
    (h : p.paramSources pc t index = .ok sources) : sources.length = t.components := by
  rw [paramSources] at h
  split at h
  · next hmodifier =>
      cases h
      simp [RegType.components, hmodifier, Modifier.components]
  · next hmodifier =>
      obtain ⟨s, -, h⟩ := bind_eq_ok h
      cases h
      simp [RegType.components, hmodifier, Modifier.components]
  · next hmodifier =>
      obtain ⟨s, -, h⟩ := bind_eq_ok h
      cases h
      simp [RegType.components, hmodifier, Modifier.components]
  · next hmodifier =>
      obtain ⟨-, -, h⟩ := bind_eq_ok h
      cases h
      simp [RegType.components, hmodifier, Modifier.components]
  · obtain ⟨-, -, h⟩ := bind_eq_ok h
    cases h
    simp
  · cases h

theorem exists_returnSite {i : Instr} :
    (∃ site, p.returnSite pc i = .ok site) ↔
      ∃ t, RegType.ofBits? i.b = some t ∧ p.TakesReturn t i.c.toNat := by
  rw [returnSite, exists_bind_eq_ok]
  refine exists_congr fun t => and_congr decode_eq_ok ?_
  rcases t with ⟨b | _, m⟩
  · rw [TakesReturn, RegType.exists_of]
    cases m with
    | plain =>
        simp [exists_map_eq_ok, exists_regOperand, hasOperand_of_ne, RegType.isAddress,
          RegType.components, Modifier.components]
    | constant =>
        simp [exists_map_eq_ok, exists_constOperand, RegType.isAddress, Modifier.components]
    | address => simp [RegType.isAddress]
    | pair | triple =>
        cases b with
        | float => simp [exists_span, hasOperand_of_ne, RegType.isAddress]
        | _ => simp [Modifier.components]
  · simp [TakesReturn, RegType.not_of_nil]

theorem exists_resultSpec {i : Instr} :
    (∃ r, p.resultSpec pc i = .ok r) ↔
      ∃ t, RegType.ofBits? i.b = some t ∧ p.TakesResult t i.c.toNat := by
  rw [resultSpec, exists_bind_eq_ok]
  refine exists_congr fun t => and_congr decode_eq_ok ?_
  rcases t with ⟨b | _, m⟩
  · rw [TakesResult, RegType.exists_of]
    cases m with
    | plain =>
        simp [exists_map_eq_ok, RegType.isConstant, RegType.isAddress, RegType.components,
          Modifier.components]
    | constant => simp [RegType.isConstant]
    | address => simp [RegType.isAddress]
    | pair | triple =>
        cases b with
        | float => simp [exists_span, RegType.isConstant, RegType.isAddress]
        | _ => simp [Modifier.components]
  · cases m <;> simp [TakesResult, RegType.not_of_nil]

theorem exists_callee {i : Instr} : (∃ c, p.callee pc i = .ok c) ↔ p.HasCallee i := by
  rw [callee, HasCallee]
  cases i.op with
  | call | tail => simp [exists_map_eq_ok]
  | _ =>
      dsimp only
      rw [exists_bind_eq_ok]
      simp only [checkConst_eq_ok]
      cases (p.constants.get .pointer i.a.toNat : Pointer).function? with
      | none => simp
      | some f => simp [pure, Except.pure]

theorem exists_resultSpecs {count : Nat} {code : List Instr} :
    (∃ rs, p.resultSpecs pc count code = .ok rs) ↔
      ∀ k < count, ∃ j, code[k]? = some j ∧ p.Receives j := by
  induction count generalizing pc code with
  | zero => simp [resultSpecs]
  | succ count ih =>
      rw [Nat.forall_lt_succ_left]
      cases code with
      | nil => simp [resultSpecs]
      | cons i rest =>
          rw [resultSpecs]
          split
          · next hop =>
              simp [exists_bind_eq_ok, exists_map_eq_ok, exists_resultSpec, ih, Receives, hop]
          · next hop => simp [Receives, hop]

/-- The results of a call are expected at the instructions that declare them. -/
theorem pc_resultSpec {i : Instr} {r : ResultSpec} (h : p.resultSpec pc i = .ok r) :
    r.pc = pc := by
  rw [resultSpec] at h
  obtain ⟨t, ht, h⟩ := bind_eq_ok h
  split at h
  · cases h
  · obtain ⟨-, -, h⟩ := bind_eq_ok h
    cases h
    rfl
  · obtain ⟨-, -, h⟩ := bind_eq_ok h
    cases h
    rfl
  · obtain ⟨-, -, h⟩ := bind_eq_ok h
    cases h
    rfl
  · cases h

theorem pc_resultSpecs {count : Nat} {code : List Instr} {rs : List ResultSpec}
    (h : p.resultSpecs pc count code = .ok rs) {k : Nat} {r : ResultSpec} (hr : rs[k]? = some r) :
    r.pc = pc + k := by
  induction count generalizing pc code rs k with
  | zero =>
      rw [resultSpecs] at h
      cases h
      cases hr
  | succ count ih =>
      cases code with
      | nil => cases h
      | cons i rest =>
          rw [resultSpecs] at h
          split at h
          · obtain ⟨r₀, hr₀, h⟩ := bind_eq_ok h
            obtain ⟨rs₁, hrs, h⟩ := bind_eq_ok h
            cases h
            cases k with
            | zero =>
                cases hr
                exact pc_resultSpec hr₀
            | succ k => rw [ih hrs hr, Nat.add_right_comm, Nat.add_assoc]
          · cases h

theorem exists_loadConst {b : Bank} {i : Instr} :
    (∃ op, p.loadConst pc b i = .ok op) ↔ p.HasReg b i.a.toNat ∧ p.HasConst b i.bx.toNat := by
  simp [loadConst, exists_bind_eq_ok, exists_map_eq_ok, exists_constOperand]

theorem exists_moveReg {b : Bank} {i : Instr} :
    (∃ op, p.moveReg pc b i = .ok op) ↔ p.HasReg b i.a.toNat ∧ p.HasReg b i.b.toNat := by
  simp [moveReg, exists_bind_eq_ok, exists_map_eq_ok, exists_regOperand]

theorem exists_addRegs {b : Bank} {f : Nat → Nat → Nat → PlainOp} {i : Instr} :
    (∃ op, p.addRegs pc b f i = .ok op) ↔
      p.HasReg b i.a.toNat ∧ p.HasReg b i.b.toNat ∧ p.HasReg b i.c.toNat := by
  simp [addRegs, exists_bind_eq_ok, exists_map_eq_ok]

theorem exists_plainOp {i : Instr} (hparam : i.op ≠ .param) (hret : i.op ≠ .ret) :
    (∃ op, p.plainOp pc i = .ok op) ↔ p.HasOperands i := by
  rw [plainOp, HasOperands]
  cases hop : i.op with
  | param => exact absurd hop hparam
  | ret => exact absurd hop hret
  | li => simp [exists_map_eq_ok]
  | lk | lkf | lks | lkp => exact exists_loadConst
  | move | movef | movea => exact exists_moveReg
  | add | addf => exact exists_addRegs
  | _ => simp

end Prototype

end CallProtocol
