import CallProtocol.Proofs.Plan.Capacity

/-!
# What the walk looks at

An instruction is planned from what the walk carries to it, from the registers and
constants of its body, and from the instructions behind it that a call looks ahead to.
Nothing else of the code matters, so the walk over another body with the same registers
and constants carries the same as long as it has seen the same instructions.

A fault is blamed on the instruction itself. The exception is a fault in the results of a
call, which are looked up ahead of the walk: it is blamed on the first instruction behind
the call that does not receive a result, or on the end of the code.
-/

namespace CallProtocol

namespace Prototype

def withCode (p : Prototype) (code : List Instr) : Prototype := { p with code }

theorem resultSpecs_withCode (p : Prototype) (code : List Instr) (pc count : Nat)
    (rest : List Instr) :
    (p.withCode code).resultSpecs pc count rest = p.resultSpecs pc count rest := by
  induction rest generalizing pc count with
  | nil => cases count <;> rfl
  | cons i rest ih =>
      cases count with
      | zero => rfl
      | succ count =>
          rw [resultSpecs, resultSpecs, ih]
          rfl

/-- Only the instructions that are to receive results are looked at. -/
theorem resultSpecs_congr {p : Prototype} {pc count : Nat} {rest rest' : List Instr}
    (h : rest'.take count = rest.take count) :
    p.resultSpecs pc count rest' = p.resultSpecs pc count rest := by
  induction count generalizing pc rest rest' with
  | zero => rw [resultSpecs, resultSpecs]
  | succ count ih =>
      cases rest with
      | nil =>
          rw [List.take_nil, List.take_eq_nil_iff] at h
          rcases h with h | rfl
          · cases h
          · rfl
      | cons i rest =>
          cases rest' with
          | nil => cases h
          | cons i' rest' =>
              rw [List.take_succ_cons, List.take_succ_cons] at h
              obtain ⟨rfl, behind⟩ := List.cons.inj h
              rw [resultSpecs, resultSpecs, ih behind]

end Prototype

namespace Planning

variable {p : Prototype} {n : Nat} {i : Instr} {s s' : Planning} {step : Step}

theorem next_withCode (code : List Instr) (rest : List Instr) :
    s.next (p.withCode code) n i rest = s.next p n i rest := by
  have called : ∀ kind, s.call (p.withCode code) n kind i rest = s.call p n kind i rest := by
    intro kind
    cases kind with
    | tail => rfl
    | call =>
        rw [call, call, Prototype.callResults, Prototype.callResults,
          Prototype.resultSpecs_withCode]
        rfl
  rw [next, next]
  cases i.op with
  | call | callk | tail | tailk => exact called _
  | _ => rfl

/-- An instruction that is no call looks at nothing behind it, and a call looks at as many
instructions as it declares results. -/
theorem next_congr {rest rest' : List Instr} (h : rest'.take i.declared = rest.take i.declared) :
    s.next p n i rest' = s.next p n i rest := by
  have called : i.op.callKind? = some .call → s.call p n .call i rest' = s.call p n .call i rest := by
    intro hop
    rw [Instr.declared, if_pos hop] at h
    rw [call, call, Prototype.callResults, Prototype.callResults, Prototype.resultSpecs_congr h]
  rw [next, next]
  cases hop : i.op with
  | call | callk => exact called (by rw [hop]; rfl)
  | _ => rfl

end Planning

/-- An instruction is planned alike in two bodies that agree as far as it looks. -/
theorem Planning.next_withCode_of_take {p : Prototype} {n k : Nat} {s : Planning} {i : Instr}
    {code : List Instr} (same : code.take k = p.code.take k) (hk : n + i.declared < k) :
    s.next (p.withCode code) n i (code.drop (n + 1)) = s.next p n i (p.code.drop (n + 1)) := by
  have cut : ∀ xs : List Instr, (xs.drop (n + 1)).take i.declared =
      ((xs.take k).drop (n + 1)).take i.declared := by
    intro xs
    rw [List.drop_take, List.take_take, Nat.min_eq_left (by omega)]
  rw [next_withCode]
  exact next_congr (by rw [cut code, same, ← cut p.code])

namespace Prototype

/-- The first `n` instructions do not cut a call from its results. -/
def WholeCalls (p : Prototype) (n : Nat) : Prop :=
  ∀ m count, p.CallsAt m count → m < n → m + count < n

/-- An instruction before such a place does not look that far. -/
theorem WholeCalls.declared {p : Prototype} {n m : Nat} {i : Instr} (h : p.WholeCalls n)
    (hi : p.code[m]? = some i) (hm : m < n) : m + i.declared < n := by
  rw [Instr.declared]
  split
  · next hop => exact h m _ ⟨i, hi, hop, rfl⟩ hm
  · exact hm

/-- The walk over another body carries the same if it has seen the same instructions, and
if no call has looked beyond them. -/
theorem Carries.withCode {p : Prototype} {n k : Nat} {s : Planning} (h : p.Carries n s)
    {code : List Instr} (same : code.take k = p.code.take k) (hn : n ≤ k)
    (within : ∀ m i, p.code[m]? = some i → m < n → m + i.declared < k) :
    (p.withCode code).Carries n s := by
  have get : ∀ m < k, code[m]? = p.code[m]? := by
    intro m hm
    rw [← List.getElem?_take_of_lt hm, same, List.getElem?_take_of_lt hm]
  induction h with
  | start => exact .start
  | @next n s i step s' prior instr walked ih =>
      have before := ih (Nat.le_of_succ_le hn) fun m i hi hm =>
        within m i hi (Nat.lt_succ_of_lt hm)
      have instr' : (p.withCode code).code[n]? = some i := (get n hn).trans instr
      have looked := Planning.next_withCode_of_take (s := s) same
        (within n i instr (Nat.lt_succ_self n))
      exact before.next instr' (looked.trans walked)

end Prototype

/-! ## Where a fault is found -/

/-- The check blames what it finds wrong on the instruction at `pc`. -/
def BlamedOn {α : Type} (pc : Nat) (x : Except PlanError α) : Prop :=
  ∀ e, x = .error e → e.pc = pc

namespace BlamedOn

variable {α β : Type} {pc : Nat}

theorem ok (a : α) : BlamedOn pc (.ok a) := by
  intro e h
  cases h

theorem error (fault : PlanFault) : BlamedOn pc (.error ⟨pc, fault⟩ : Except PlanError α) := by
  intro e h
  cases h
  rfl

theorem bind {x : Except PlanError α} {f : α → Except PlanError β} (h : BlamedOn pc x)
    (hf : ∀ a, BlamedOn pc (f a)) : BlamedOn pc (x >>= f) := by
  intro e he
  cases x with
  | error e' =>
      cases he
      exact h e rfl
  | ok a => exact hf a e he

end BlamedOn

namespace Prototype

variable (p : Prototype) (pc : Nat) (b : Bank) (i : Instr)

theorem blamedOn_checkReg (reg : Nat) : BlamedOn pc (p.checkReg pc b reg) := by
  rw [checkReg]
  split
  · exact .ok _
  · exact .error _

theorem blamedOn_checkConst (index : Nat) : BlamedOn pc (p.checkConst pc b index) := by
  rw [checkConst]
  split
  · exact .ok _
  · exact .error _

theorem blamedOn_decode (bits : UInt8) : BlamedOn pc (decode pc bits) := by
  rw [decode]
  split
  · exact .ok _
  · exact .error _

theorem blamedOn_regOperand (reg : Nat) : BlamedOn pc (p.regOperand pc b reg) :=
  (p.blamedOn_checkReg pc b reg).bind fun _ => .ok _

theorem blamedOn_constOperand (index : Nat) : BlamedOn pc (p.constOperand pc b index) :=
  (p.blamedOn_checkConst pc b index).bind fun _ => .ok _

theorem blamedOn_paramSources (t : RegType) (index : Nat) :
    BlamedOn pc (p.paramSources pc t index) := by
  rw [paramSources]
  split
  · exact .ok _
  · exact (p.blamedOn_regOperand pc _ index).bind fun _ => .ok _
  · exact (p.blamedOn_constOperand pc _ index).bind fun _ => .ok _
  · exact (p.blamedOn_checkReg pc _ index).bind fun _ => .ok _
  · exact (p.blamedOn_checkReg pc _ _).bind fun _ => .ok _
  · exact .error _

theorem blamedOn_callee : BlamedOn pc (p.callee pc i) := by
  rw [callee]
  split
  · exact (p.blamedOn_checkReg pc _ _).bind fun _ => .ok _
  · exact (p.blamedOn_checkReg pc _ _).bind fun _ => .ok _
  · refine (p.blamedOn_checkConst pc _ _).bind fun _ => ?_
    split
    · exact .ok _
    · exact .error _

theorem blamedOn_resultSpec : BlamedOn pc (p.resultSpec pc i) := by
  refine (blamedOn_decode pc i.b).bind fun t => ?_
  split
  · exact .error _
  · exact (p.blamedOn_checkReg pc _ _).bind fun _ => .ok _
  · exact (p.blamedOn_checkReg pc _ _).bind fun _ => .ok _
  · exact (p.blamedOn_checkReg pc _ _).bind fun _ => .ok _
  · exact .error _

theorem blamedOn_returnSite : BlamedOn pc (p.returnSite pc i) := by
  refine (blamedOn_decode pc i.b).bind fun t => ?_
  split
  · exact (p.blamedOn_regOperand pc _ _).bind fun _ => .ok _
  · exact (p.blamedOn_constOperand pc _ _).bind fun _ => .ok _
  · exact (p.blamedOn_checkReg pc _ _).bind fun _ => .ok _
  · exact (p.blamedOn_checkReg pc _ _).bind fun _ => .ok _
  · exact .error _

theorem blamedOn_plainOp : BlamedOn pc (p.plainOp pc i) := by
  have loaded : ∀ b, BlamedOn pc (p.loadConst pc b i) := fun b =>
    (p.blamedOn_checkReg pc b _).bind fun _ =>
      (p.blamedOn_constOperand pc b _).bind fun _ => .ok _
  have moved : ∀ b, BlamedOn pc (p.moveReg pc b i) := fun b =>
    (p.blamedOn_checkReg pc b _).bind fun _ => (p.blamedOn_regOperand pc b _).bind fun _ => .ok _
  have added : ∀ b op, BlamedOn pc (p.addRegs pc b op i) := fun b op =>
    (p.blamedOn_checkReg pc b _).bind fun _ => (p.blamedOn_checkReg pc b _).bind fun _ =>
      (p.blamedOn_checkReg pc b _).bind fun _ => .ok _
  rw [plainOp]
  split
  · exact (p.blamedOn_checkReg pc _ _).bind fun _ => .ok _
  · exact loaded _
  · exact loaded _
  · exact loaded _
  · exact loaded _
  · exact moved _
  · exact moved _
  · exact moved _
  · exact added _ _
  · exact added _ _
  · exact .ok _

end Prototype

theorem bind_eq_error {ε α β : Type} {x : Except ε α} {f : α → Except ε β} {e : ε}
    (h : (x >>= f) = .error e) : x = .error e ∨ ∃ a, x = .ok a ∧ f a = .error e := by
  cases x with
  | error e' =>
      cases h
      exact .inl rfl
  | ok a => exact .inr ⟨a, rfl, h⟩

/-- A fault in the results of a call is blamed on one of the instructions that are to
receive them, or on the end of the code. Code that ends there lacks a result, and code that
goes on differently behind it has the same fault. -/
theorem Prototype.resultSpecs_error {p : Prototype} {pc count : Nat} {rest : List Instr}
    {e : PlanError} (h : p.resultSpecs pc count rest = .error e) :
    ∃ k < count, k ≤ rest.length ∧ e.pc = pc + k ∧
      p.resultSpecs pc count (rest.take k) = .error ⟨pc + k, .resultMustFollowCall⟩ ∧
      (k < rest.length → ∀ rest', rest'.take (k + 1) = rest.take (k + 1) →
        p.resultSpecs pc count rest' = .error e) := by
  induction count generalizing pc rest with
  | zero =>
      rw [resultSpecs] at h
      cases h
  | succ count ih =>
      cases rest with
      | nil =>
          cases h
          exact ⟨0, Nat.succ_pos _, Nat.le_refl 0, rfl, rfl, fun h => absurd h (Nat.lt_irrefl 0)⟩
      | cons i rest =>
          -- A fault in the first instruction is found whatever comes behind it.
          have first : e.pc = pc →
              (∀ rest, p.resultSpecs pc (count + 1) (i :: rest) = .error e) →
              ∃ k < count + 1, k ≤ (i :: rest).length ∧ e.pc = pc + k ∧
                p.resultSpecs pc (count + 1) ((i :: rest).take k) =
                  .error ⟨pc + k, .resultMustFollowCall⟩ ∧
                (k < (i :: rest).length → ∀ rest', rest'.take (k + 1) = (i :: rest).take (k + 1) →
                  p.resultSpecs pc (count + 1) rest' = .error e) := by
            intro hpc hall
            refine ⟨0, Nat.succ_pos _, Nat.zero_le _, hpc, rfl, ?_⟩
            rintro - rest' same
            cases rest' with
            | nil => cases same
            | cons i' rest' =>
                obtain ⟨rfl, -⟩ := List.cons.inj same
                exact hall rest'
          rw [resultSpecs] at h
          split at h
          · next hop =>
              rcases bind_eq_error h with hr | ⟨r, hr, h⟩
              · refine first (p.blamedOn_resultSpec pc i e hr) fun rest => ?_
                rw [resultSpecs, if_pos hop, hr]
                rfl
              · rcases bind_eq_error h with hrs | ⟨rs, -, h⟩
                · obtain ⟨k, hcount, hk, hpc, hcut, hsame⟩ := ih hrs
                  have hadd : pc + (k + 1) = pc + 1 + k := by omega
                  refine ⟨k + 1, Nat.succ_lt_succ hcount, Nat.succ_le_succ hk, by rw [hpc, hadd], ?_, ?_⟩
                  · rw [List.take_succ_cons, resultSpecs, if_pos hop, hr, hadd]
                    change (p.resultSpecs (pc + 1) count (rest.take k) >>= _) = _
                    rw [hcut]
                    rfl
                  · intro hlt rest' same
                    cases rest' with
                    | nil => cases same
                    | cons i' rest' =>
                        obtain ⟨rfl, behind⟩ := List.cons.inj same
                        rw [resultSpecs, if_pos hop, hr]
                        change (p.resultSpecs (pc + 1) count rest' >>= _) = _
                        rw [hsame (Nat.lt_of_succ_lt_succ hlt) rest' behind]
                        rfl
                · cases h
          · next hop =>
              cases h
              refine first rfl fun rest => ?_
              rw [resultSpecs, if_neg hop]

namespace Planning

variable {p : Prototype} {n : Nat} {i : Instr} {s s' : Planning} {step : Step}
  {rest : List Instr} {e : PlanError}

theorem next_eq_call {kind : CallKind} (hop : i.op.callKind? = some kind) :
    s.next p n i rest = s.call p n kind i rest := by
  rw [next]
  cases h : i.op <;> rw [h] at hop <;> cases hop <;> rfl

theorem blamedOn_next (hop : i.op.callKind? = none) : BlamedOn n (s.next p n i rest) := by
  rw [next]
  split
  · exact (Prototype.blamedOn_decode n _).bind fun t =>
      (p.blamedOn_paramSources n t _).bind fun _ => .ok _
  · exact .ok _
  · next h => simp [h, Opcode.callKind?] at hop
  · next h => simp [h, Opcode.callKind?] at hop
  · next h => simp [h, Opcode.callKind?] at hop
  · next h => simp [h, Opcode.callKind?] at hop
  · rw [result]
    split
    · split
      · exact .ok _
      · exact .error _
    · exact .error _
  · exact (p.blamedOn_returnSite n i).bind fun _ => .ok _
  · exact .ok _
  · exact (p.blamedOn_plainOp n i).bind fun _ => .ok _

theorem call_error {kind : CallKind} (h : s.call p n kind i rest = .error e) :
    (e.pc = n ∧ ∀ rest', s.call p n kind i rest' = .error e) ∨
      ∃ k < i.c.toNat, kind = .call ∧ k ≤ rest.length ∧ e.pc = n + 1 + k ∧
        s.call p n kind i (rest.take k) = .error ⟨n + 1 + k, .resultMustFollowCall⟩ ∧
        (k < rest.length → ∀ rest', rest'.take (k + 1) = rest.take (k + 1) →
          s.call p n kind i rest' = .error e) := by
  rw [call] at h
  rcases bind_eq_error h with hcallee | ⟨callee, hcallee, h⟩
  · refine .inl ⟨p.blamedOn_callee n i e hcallee, fun rest' => ?_⟩
    rw [call, hcallee]
    rfl
  · rcases bind_eq_error h with htake | ⟨⟨window, staging⟩, htake, h⟩
    · refine .inl ⟨?_, fun rest' => ?_⟩
      · rw [Staging.take] at htake
        split at htake
        · cases htake
        · cases htake
          rfl
      · rw [call, hcallee]
        change (s.staging.take n i.b.toNat >>= _) = _
        rw [htake]
        rfl
    · rcases bind_eq_error h with hresults | ⟨results, -, h⟩
      · have looked : ∀ {rest' : List Instr} {e' : PlanError},
            p.callResults n kind i rest' = .error e' → s.call p n kind i rest' = .error e' := by
          intro rest' e' he'
          rw [call, hcallee]
          change (s.staging.take n i.b.toNat >>= _) = _
          rw [htake]
          change (p.callResults n kind i rest' >>= _) = _
          rw [he']
          rfl
        cases kind with
        | tail => cases hresults
        | call =>
            obtain ⟨k, hcount, hk, hpc, hcut, hsame⟩ := Prototype.resultSpecs_error hresults
            exact .inr ⟨k, hcount, rfl, hk, hpc, looked hcut, fun hlt rest' same =>
              looked (hsame hlt rest' same)⟩
      · cases h

/-- A fault is in the instruction itself, whatever comes behind it, or it is found by
looking ahead. In the second case it is the absence of a result if the code is cut where
the blame falls, and code that goes on differently behind that place has the same fault. -/
theorem next_error (h : s.next p n i rest = .error e) :
    (e.pc = n ∧ ∀ rest', s.next p n i rest' = .error e) ∨
      ∃ k < i.c.toNat, i.op.callKind? = some .call ∧ k ≤ rest.length ∧ e.pc = n + 1 + k ∧
        s.next p n i (rest.take k) = .error ⟨n + 1 + k, .resultMustFollowCall⟩ ∧
        (k < rest.length → ∀ rest', rest'.take (k + 1) = rest.take (k + 1) →
          s.next p n i rest' = .error e) := by
  cases hop : i.op.callKind? with
  | some kind =>
      simp only [next_eq_call hop, Option.some.injEq] at h ⊢
      exact call_error h
  | none =>
      refine .inl ⟨blamedOn_next hop e h, fun rest' => ?_⟩
      rw [← h]
      refine next_congr ?_
      simp [Instr.declared, hop]

/-- An instruction behind an unfinished list of results is one of them, and it is accepted.
So where the walk stops no result is expected. -/
theorem Fits.pending_of_error (hs : s.Fits p n) (hi : p.code[n]? = some i)
    (h : s.next p n i rest = .error e) : s.pending = [] := by
  by_cases hop : i.op = .result
  · cases hpending : s.pending with
    | nil => rfl
    | cons r rs =>
        obtain ⟨hpc, -⟩ := hs.queued 0 r (by rw [hpending]; rfl)
        rw [Planning.next, hop] at h
        simp only [result, hpending, hpc, Nat.add_zero, if_true] at h
        cases h
  · exact hs.pending_eq_nil hi hop

end Planning

/-! ## Where the walk ends -/

namespace Prototype

variable {p : Prototype} {n : Nat} {s : Planning} {i : Instr} {e : PlanError}

/-- The walk over a body is the walk over its rest from what has been carried there. -/
theorem Carries.walk_eq (h : p.Carries n s) : ∃ done : List (Step × Snapshot),
    Planning.walk p 0 {} p.code =
      (Planning.walk p n s (p.code.drop n)).map fun out => (done ++ out.1, out.2) := by
  induction h with
  | start =>
      refine ⟨[], ?_⟩
      rw [List.drop_zero]
      cases Planning.walk p 0 {} p.code <;> rfl
  | @next n s i step s' prior instr walked ih =>
      obtain ⟨done, hdone⟩ := ih
      have hcode : p.code.drop n = i :: p.code.drop (n + 1) := by
        rw [List.drop_eq_getElem?_toList_append, instr]
        rfl
      refine ⟨done ++ [(step, s'.snapshot)], ?_⟩
      rw [hdone, hcode, Planning.walk, walked]
      change Except.map _ (Planning.walk p (n + 1) s' (p.code.drop (n + 1)) >>= _) = _
      cases Planning.walk p (n + 1) s' (p.code.drop (n + 1)) with
      | error e => rfl
      | ok out => simp [Except.map, bind, Except.bind, pure, Except.pure]

/-- A body whose end the walk reaches has a plan. -/
theorem Carries.plan_ok (h : p.Carries p.code.length s) : ∃ plan, p.plan = .ok plan := by
  obtain ⟨done, hwalk⟩ := h.walk_eq
  rw [List.drop_length] at hwalk
  exact ⟨_, by rw [Prototype.plan, hwalk]; rfl⟩

theorem Carries.plan_error (h : p.Carries n s) (hi : p.code[n]? = some i)
    (fault : s.next p n i (p.code.drop (n + 1)) = .error e) : p.plan = .error e := by
  obtain ⟨done, hwalk⟩ := h.walk_eq
  have hcode : p.code.drop n = i :: p.code.drop (n + 1) := by
    rw [List.drop_eq_getElem?_toList_append, hi]
    rfl
  rw [hcode, Planning.walk, fault] at hwalk
  rw [Prototype.plan, hwalk]
  rfl

theorem walk_error {code : List Instr} (hs : p.Carries n s) (hcode : p.code.drop n = code)
    (h : Planning.walk p n s code = .error e) :
    ∃ m s₁ i, p.Carries m s₁ ∧ p.code[m]? = some i ∧
      s₁.next p m i (p.code.drop (m + 1)) = .error e := by
  induction code generalizing n s with
  | nil => cases h
  | cons i rest ih =>
      have hi : p.code[n]? = some i := by
        rw [← List.head?_drop, hcode]
        rfl
      have hrest : p.code.drop (n + 1) = rest := by
        rw [← List.tail_drop, hcode]
        rfl
      rw [Planning.walk] at h
      rcases bind_eq_error h with hnext | ⟨⟨step, s'⟩, hnext, h⟩
      · exact ⟨n, s, i, hs, hi, by rw [hrest, hnext]⟩
      · rw [← hrest] at hnext
        rcases bind_eq_error h with hwalk | ⟨out, -, h⟩
        · exact ih (hs.next hi hnext) hrest hwalk
        · cases h

/-- A body without a plan has a fault that the walk comes to. -/
theorem plan_eq_error (h : p.plan = .error e) : ∃ n s i, p.Carries n s ∧ p.code[n]? = some i ∧
    s.next p n i (p.code.drop (n + 1)) = .error e := by
  rw [Prototype.plan] at h
  rcases bind_eq_error h with hwalk | ⟨out, -, h⟩
  · exact walk_error .start List.drop_zero hwalk
  · cases h

end Prototype

end CallProtocol
