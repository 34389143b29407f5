import CallProtocol.Proofs.Plan.Walk

/-!
# The encoding of operands

The operand bytes of an instruction are the digits of its wide operands, high byte first.
So an operand of 16 bits that is written is read back whole, and one of 24 bits is read
back without the bits above. The other way round, an instruction is what each of its
operands writes.

A signed operand of 24 bits is read as the one number in its range that agrees with the
written one modulo `2 ^ 24`. `Immediate.Kept v w` says that `w` is this number for `v`: it
is `v` itself exactly when `v` fits. The reading is sign extension, and it can be made by
moving the operand to the top of a word and back.
-/

namespace CallProtocol

namespace Instr

/-! ## Operands as numbers -/

theorem toNat_bx (i : Instr) : i.bx.toNat = i.b.toNat * 256 + i.c.toNat := by
  have hb := i.b.toNat_lt
  have high : (i.b.toUInt16 <<< 8).toNat = i.b.toNat <<< 8 := by
    simp only [UInt16.toNat_shiftLeft, UInt8.toNat_toUInt16, UInt16.reduceToNat, Nat.reduceMod]
    exact Nat.mod_eq_of_lt (by rw [Nat.shiftLeft_eq]; omega)
  rw [bx, UInt16.toNat_or, high, UInt8.toNat_toUInt16,
    ← Nat.shiftLeft_add_eq_or_of_lt i.c.toNat_lt, Nat.shiftLeft_eq]

/-- A byte can be moved up by 24 bits in a word and loses nothing. -/
theorem toNat_byte_shiftLeft (x : UInt8) (k : UInt32) (hk : k.toNat ≤ 24) :
    (x.toUInt32 <<< k).toNat = x.toNat <<< k.toNat := by
  have fits : x.toNat <<< k.toNat < 2 ^ 32 := by
    rw [Nat.shiftLeft_eq]
    calc
      x.toNat * 2 ^ k.toNat < 2 ^ 8 * 2 ^ k.toNat :=
        Nat.mul_lt_mul_of_pos_right x.toNat_lt (Nat.two_pow_pos _)
      _ ≤ 2 ^ 8 * 2 ^ 24 := Nat.mul_le_mul_left _ (Nat.pow_le_pow_right (by decide) hk)
  rw [UInt32.toNat_shiftLeft, UInt8.toNat_toUInt32,
    Nat.mod_eq_of_lt (Nat.lt_of_le_of_lt hk (by decide)), Nat.mod_eq_of_lt fits]

theorem toNat_ax (i : Instr) :
    i.ax.toNat = i.a.toNat * 65536 + i.b.toNat * 256 + i.c.toNat := by
  have hb := i.b.toNat_lt
  have hc := i.c.toNat_lt
  have low : i.b.toNat <<< 8 ||| i.c.toNat = i.b.toNat * 256 + i.c.toNat := by
    rw [← Nat.shiftLeft_add_eq_or_of_lt hc, Nat.shiftLeft_eq]
  have hlow : i.b.toNat * 256 + i.c.toNat < 2 ^ 16 := by omega
  -- the two low bytes are put together first, so that the high one is above a whole field
  rw [ax, UInt32.toNat_or, UInt32.toNat_or, toNat_byte_shiftLeft i.a 16 (by decide),
    toNat_byte_shiftLeft i.b 8 (by decide), UInt8.toNat_toUInt32, Nat.or_assoc]
  change i.a.toNat <<< 16 ||| (i.b.toNat <<< 8 ||| i.c.toNat) = _
  rw [low, ← Nat.shiftLeft_add_eq_or_of_lt hlow, Nat.shiftLeft_eq, Nat.add_assoc]

theorem ax_lt (i : Instr) : i.ax.toNat < 0x1000000 := by
  have ha := i.a.toNat_lt
  have hb := i.b.toNat_lt
  have hc := i.c.toNat_lt
  rw [toNat_ax]
  omega

theorem toNat_ofBx (op : Opcode) (a : UInt8) (x : UInt16) :
    (ofBx op a x).b.toNat = x.toNat / 256 ∧ (ofBx op a x).c.toNat = x.toNat % 256 := by
  have hx := x.toNat_lt
  constructor
  · simp only [ofBx, UInt16.toNat_toUInt8, UInt16.toNat_shiftRight, UInt16.reduceToNat,
      Nat.reduceMod, Nat.shiftRight_eq_div_pow, Nat.reducePow]
    omega
  · exact UInt16.toNat_toUInt8 x

theorem toNat_ofAx (op : Opcode) (x : UInt32) :
    (ofAx op x).a.toNat = x.toNat / 65536 % 256 ∧
      (ofAx op x).b.toNat = x.toNat / 256 % 256 ∧ (ofAx op x).c.toNat = x.toNat % 256 := by
  simp only [ofAx, UInt32.toNat_toUInt8, UInt32.toNat_shiftRight, UInt32.reduceToNat,
    Nat.reduceMod, Nat.shiftRight_eq_div_pow, Nat.reducePow, and_self]

theorem eq_of_toNat {i j : Instr} (hop : i.op = j.op) (ha : i.a.toNat = j.a.toNat)
    (hb : i.b.toNat = j.b.toNat) (hc : i.c.toNat = j.c.toNat) : i = j := by
  obtain ⟨op, a, b, c⟩ := i
  obtain ⟨op', a', b', c'⟩ := j
  obtain rfl : op = op' := hop
  obtain rfl := UInt8.toNat_inj.1 ha
  obtain rfl := UInt8.toNat_inj.1 hb
  obtain rfl := UInt8.toNat_inj.1 hc
  rfl

/-! ## Round trips -/

theorem bx_ofBx (op : Opcode) (a : UInt8) (x : UInt16) : (ofBx op a x).bx = x := by
  obtain ⟨hb, hc⟩ := toNat_ofBx op a x
  rw [← UInt16.toNat_inj, toNat_bx]
  omega

theorem ofBx_bx (i : Instr) : ofBx i.op i.a i.bx = i := by
  obtain ⟨hb, hc⟩ := toNat_ofBx i.op i.a i.bx
  have hbx := i.toNat_bx
  have := i.c.toNat_lt
  exact eq_of_toNat rfl rfl (by omega) (by omega)

theorem sbx_ofSbx (op : Opcode) (a : UInt8) (x : Int16) : (ofSbx op a x).sbx = x := by
  rw [sbx, ofSbx, bx_ofBx, Int16.toInt16_toUInt16]

theorem ofSbx_sbx (i : Instr) : ofSbx i.op i.a i.sbx = i := by
  rw [ofSbx, sbx, UInt16.toUInt16_toInt16, ofBx_bx]

theorem toNat_ax_ofAx (op : Opcode) (x : UInt32) :
    (ofAx op x).ax.toNat = x.toNat % 0x1000000 := by
  obtain ⟨ha, hb, hc⟩ := toNat_ofAx op x
  rw [toNat_ax]
  omega

theorem ofAx_ax (i : Instr) : ofAx i.op i.ax = i := by
  obtain ⟨ha, hb, hc⟩ := toNat_ofAx i.op i.ax
  have hax := i.toNat_ax
  have := i.a.toNat_lt
  have := i.b.toNat_lt
  have := i.c.toNat_lt
  exact eq_of_toNat rfl (by omega) (by omega) (by omega)

theorem ofAx_congr (op : Opcode) {x y : UInt32}
    (h : x.toNat % 0x1000000 = y.toNat % 0x1000000) : ofAx op x = ofAx op y := by
  obtain ⟨ha, hb, hc⟩ := toNat_ofAx op x
  obtain ⟨ha', hb', hc'⟩ := toNat_ofAx op y
  exact eq_of_toNat rfl (by omega) (by omega) (by omega)

end Instr

/-! ## Signed operands of 24 bits -/

/-- The numbers that a signed operand of 24 bits can hold. -/
def Immediate.Fits (v : Int) : Prop := -0x800000 ≤ v ∧ v < 0x800000

instance (v : Int) : Decidable (Immediate.Fits v) :=
  inferInstanceAs (Decidable (-0x800000 ≤ v ∧ v < 0x800000))

/-- `w` is what a signed operand of 24 bits keeps of `v`. -/
structure Immediate.Kept (v w : Int) : Prop where
  fits : Fits w
  congruent : w % 0x1000000 = v % 0x1000000

namespace Immediate

/-- What is kept is the residue that is nearest to zero. -/
theorem kept_iff {v w : Int} : Kept v w ↔ w = Int.bmod v 0x1000000 := by
  have low := Int.le_bmod (x := v) (m := 0x1000000) (by decide)
  have high := Int.bmod_lt (x := v) (m := 0x1000000) (by decide)
  have same : Int.bmod v 0x1000000 % 0x1000000 = v % 0x1000000 := Int.bmod_emod
  constructor
  · rintro ⟨⟨hlow, hhigh⟩, congruent⟩
    omega
  · rintro rfl
    exact ⟨⟨by omega, by omega⟩, same⟩

theorem Kept.iff_eq {v w x : Int} (h : Kept v w) : Kept v x ↔ x = w := by
  rw [kept_iff, ← kept_iff.1 h]

theorem kept_self_iff {v : Int} : Kept v v ↔ Fits v :=
  ⟨Kept.fits, fun fits => ⟨fits, rfl⟩⟩

theorem Kept.eq_iff {v w : Int} (h : Kept v w) : w = v ↔ Fits v := by
  rw [← kept_self_iff, h.iff_eq]
  exact eq_comm

end Immediate

namespace Instr

theorem toInt_toInt32 (x : UInt32) : x.toInt32.toInt = Int.bmod x.toNat 4294967296 :=
  BitVec.toInt_eq_toNat_bmod x.toBitVec

/-- A signed number and its word agree in their low 24 bits. -/
theorem toNat_toUInt32_emod (v : Int32) :
    (v.toUInt32.toNat : Int) % 0x1000000 = v.toInt % 0x1000000 := by
  have hv := toInt_toInt32 v.toUInt32
  rw [Int32.toInt32_toUInt32, Int.bmod_def] at hv
  omega

theorem ofSax_congr (op : Opcode) {v w : Int32}
    (h : v.toInt % 0x1000000 = w.toInt % 0x1000000) : ofSax op v = ofSax op w := by
  have hv := toNat_toUInt32_emod v
  have hw := toNat_toUInt32_emod w
  exact ofAx_congr op (by omega)

theorem toInt_sax (i : Instr) : i.sax.toInt = Int.bmod i.ax.toNat 0x1000000 := by
  have low := Int.le_bmod (x := i.ax.toNat) (m := 0x1000000) (by decide)
  have high := Int.bmod_lt (x := i.ax.toNat) (m := 0x1000000) (by decide)
  calc
    i.sax.toInt = Int.bmod (Int.bmod i.ax.toNat 0x1000000) 4294967296 := Int32.toInt_ofInt
    _ = Int.bmod i.ax.toNat 0x1000000 := Int.bmod_eq_of_le (by omega) (by omega)

/-- What is read of a written number is what 24 bits keep of it. -/
theorem kept_sax_ofSax (op : Opcode) (v : Int32) :
    Immediate.Kept v.toInt (ofSax op v).sax.toInt := by
  have hv := toNat_toUInt32_emod v
  have written : ((ofSax op v).ax.toNat : Int) = v.toInt % 0x1000000 := by
    rw [ofSax, toNat_ax_ofAx]
    omega
  rw [Immediate.kept_iff, toInt_sax, written]
  exact Int.emod_bmod v.toInt 0x1000000

theorem ofSax_sax_ofSax (op : Opcode) (v : Int32) : ofSax op (ofSax op v).sax = ofSax op v :=
  ofSax_congr op (kept_sax_ofSax op v).congruent

theorem ofSax_sax (i : Instr) : ofSax i.op i.sax = i := by
  have hword := toNat_toUInt32_emod i.sax
  have same : i.sax.toInt % 0x1000000 = i.ax.toNat % 0x1000000 := by
    rw [toInt_sax]
    exact Int.bmod_emod
  calc
    ofSax i.op i.sax = ofAx i.op i.ax := ofAx_congr i.op (by omega)
    _ = i := i.ofAx_ax

theorem toInt_shiftRight_eight (x : Int32) : (x >>> 8).toInt = x.toInt / 256 := by
  have arithmetic : (x >>> 8).toInt = x.toInt >>> (8 : Nat) := BitVec.toInt_sshiftRight
  rw [arithmetic]
  exact Int.shiftRight_eq_div_pow x.toInt 8

/-- A signed operand is the unsigned one, moved to the top of a word and arithmetically
back. -/
theorem sax_eq_shift (i : Instr) : i.sax = (i.ax <<< 8).toInt32 >>> 8 := by
  have hax := i.ax_lt
  have moved : (i.ax <<< 8).toNat = i.ax.toNat * 256 := by
    simp only [UInt32.toNat_shiftLeft, UInt32.reduceToNat, Nat.reduceMod, Nat.shiftLeft_eq,
      Nat.reducePow]
    omega
  -- the residue nearest to zero of `256 * i.ax` modulo `2 ^ 32` is 256 times that of `i.ax`
  -- modulo `2 ^ 24`
  rw [← Int32.toInt_inj, toInt_sax, toInt_shiftRight_eight, toInt_toInt32, moved, Int.bmod_def,
    Int.bmod_def]
  omega

/-- To cut a number to its low 24 bits before it is written makes no difference. -/
theorem ofSax_eq_mask (op : Opcode) (v : Int32) :
    ofSax op v = ofAx op (v.toUInt32 &&& 0xFFFFFF) := by
  have masked : (v.toUInt32 &&& 0xFFFFFF).toNat = v.toUInt32.toNat % 0x1000000 :=
    Nat.and_two_pow_sub_one_eq_mod v.toUInt32.toNat 24
  exact ofAx_congr op (by omega)

end Instr

/-! ## Parameter immediates -/

/-- The instruction at `pc` stages one record of `source`, behind those that are staged
before, and the record's slot is its place among them. -/
def Plan.StagesAt (plan : Plan) (pc : Nat) (source : Source) : Prop :=
  ∃ before state, plan.steps[pc]? = some (.stage before.length [⟨pc, source⟩]) ∧
    plan.states[pc]? = some state ∧ state.staged = before ++ [⟨pc, source⟩]

/-- Whatever is carried up to a parameter immediate, it is staged. -/
theorem Planning.next_paramImm (s : Planning) (p : Prototype) (pc : Nat) (v : Int32)
    (rest : List Instr) :
    s.next p pc (.paramImm v) rest = .ok (s.stage pc [.imm (Instr.paramImm v).sax]) := rfl

theorem Prototype.stagesAt_paramImm {p : Prototype} {plan : Plan} (planned : p.plan = .ok plan)
    {pc : Nat} {v : Int32} (hi : p.code[pc]? = some (.paramImm v)) :
    plan.StagesAt pc (.imm (Instr.paramImm v).sax) := by
  obtain ⟨s, step, s', -, walked, hstep, hstate⟩ := plan_step planned hi
  cases walked
  exact ⟨s.staging.entries, _, hstep, hstate, Staging.entries_pushAll _ _⟩

/-- A body that is one parameter immediate is accepted. -/
theorem Prototype.exists_plan_paramImm (p : Prototype) (v : Int32) :
    ∃ plan, ({ p with code := [.paramImm v] } : Prototype).plan = .ok plan := ⟨_, rfl⟩

/-- A parameter immediate `v` stages the one number `w` of 24 bits, signed, that agrees with
`v` modulo `2 ^ 24`, so it stages `v` itself exactly when `v` fits, and `w` is written as `v`
is. It is staged whatever has been planned before, alone in a body and in every body that
has a plan.

Operands of 16 bits are read as they were written, unsigned operands of 24 bits modulo
`2 ^ 24`, and every instruction is what each of its wide operands writes. The operand bytes
are the digits of a wide operand. The signed reading of 24 bits moves the operand to the top
of a word and arithmetically back, and the signed writing cuts off the bits above. -/
theorem immediates_survive_encoding :
    (∀ v : Int32, ∃ w : Int32,
      (∀ x : Int, Immediate.Kept v.toInt x ↔ x = w.toInt) ∧
      (w = v ↔ Immediate.Fits v.toInt) ∧
      Instr.paramImm w = .paramImm v ∧
      (∀ (s : Planning) (p : Prototype) (pc : Nat) (rest : List Instr),
        s.next p pc (.paramImm v) rest = .ok (s.stage pc [.imm w])) ∧
      (∀ p : Prototype, ∃ plan, ({ p with code := [.paramImm v] } : Prototype).plan = .ok plan ∧
        plan.StagesAt 0 (.imm w)) ∧
      ∀ (p : Prototype) (plan : Plan) (pc : Nat), p.plan = .ok plan →
        p.code[pc]? = some (.paramImm v) → plan.StagesAt pc (.imm w)) ∧
    (∀ (op : Opcode) (a : UInt8),
      (∀ x : UInt16, (Instr.ofBx op a x).bx = x) ∧
        ∀ x : Int16, (Instr.ofSbx op a x).sbx = x) ∧
    (∀ (op : Opcode) (u : UInt32), (Instr.ofAx op u).ax.toNat = u.toNat % 0x1000000) ∧
    (∀ i : Instr, Instr.ofAx i.op i.ax = i ∧ Instr.ofSax i.op i.sax = i ∧
      Instr.ofBx i.op i.a i.bx = i ∧ Instr.ofSbx i.op i.a i.sbx = i) ∧
    (∀ i : Instr, i.bx.toNat = i.b.toNat * 256 + i.c.toNat ∧
      i.ax.toNat = i.a.toNat * 65536 + i.b.toNat * 256 + i.c.toNat ∧
      i.sax = (i.ax <<< 8).toInt32 >>> 8) ∧
    ∀ (op : Opcode) (v : Int32), Instr.ofSax op v = .ofAx op (v.toUInt32 &&& 0xFFFFFF) := by
  refine ⟨?_, ?_, Instr.toNat_ax_ofAx, ?_, ?_, Instr.ofSax_eq_mask⟩
  · intro v
    have kept := Instr.kept_sax_ofSax .parami v
    refine ⟨(Instr.paramImm v).sax, ?_, ?_, Instr.ofSax_sax_ofSax .parami v, ?_, ?_, ?_⟩
    · intro x
      exact kept.iff_eq
    · rw [← Int32.toInt_inj]
      exact kept.eq_iff
    · intro s p pc rest
      exact s.next_paramImm p pc v rest
    · intro p
      obtain ⟨plan, planned⟩ := p.exists_plan_paramImm v
      exact ⟨plan, planned, Prototype.stagesAt_paramImm planned rfl⟩
    · intro p plan pc planned hi
      exact Prototype.stagesAt_paramImm planned hi
  · intro op a
    exact ⟨Instr.bx_ofBx op a, Instr.sbx_ofSbx op a⟩
  · intro i
    exact ⟨i.ofAx_ax, i.ofSax_sax, i.ofBx_bx, i.ofSbx_sbx⟩
  · intro i
    exact ⟨i.toNat_bx, i.toNat_ax, i.sax_eq_shift⟩

def stageEnds : Prototype where
  code := [.paramImm 8388607, .paramImm 8388608, .paramImm (-8388609), .retImm 0 true 0]

/-- The greatest number that fits is staged as it is, and the numbers beyond both ends of the
range are staged as the other end. -/
theorem immediates_survive_encoding_stageEnds :
    ∃ plan, stageEnds.plan = .ok plan ∧
      stageEnds.code[0]? = some (.paramImm 8388607) ∧ plan.StagesAt 0 (.imm 8388607) ∧
      stageEnds.code[1]? = some (.paramImm 8388608) ∧ plan.StagesAt 1 (.imm (-8388608)) ∧
      stageEnds.code[2]? = some (.paramImm (-8388609)) ∧ plan.StagesAt 2 (.imm 8388607) := by
  obtain ⟨staged, -⟩ := immediates_survive_encoding
  have stagesAt : ∀ plan pc (v w : Int32), stageEnds.plan = .ok plan →
      stageEnds.code[pc]? = some (.paramImm v) → Immediate.Kept v.toInt w.toInt →
      plan.StagesAt pc (.imm w) := by
    intro plan pc v w planned hi kept
    obtain ⟨w', unique, -, -, -, -, bodies⟩ := staged v
    obtain rfl := Int32.toInt_inj.1 ((unique w.toInt).1 kept)
    exact bodies stageEnds plan pc planned hi
  refine ⟨_, rfl, rfl, ?_, rfl, ?_, rfl, ?_⟩
  · exact stagesAt _ 0 8388607 8388607 rfl rfl ⟨by decide, by decide⟩
  · exact stagesAt _ 1 8388608 (-8388608) rfl rfl ⟨by decide, by decide⟩
  · exact stagesAt _ 2 (-8388609) 8388607 rfl rfl ⟨by decide, by decide⟩

end CallProtocol
