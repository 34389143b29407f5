import CallProtocol.Proofs.Plan.Calls

/-!
# The live part of a body

A body has no jumps, so it is left at the first instruction that leaves it: a tail call or
a final return. `live` is the code up to that instruction, with it. Nothing behind it is
ever performed.

A step leaves a body exactly if its instruction does.
-/

namespace CallProtocol

def Opcode.returns : Opcode → Bool
  | .ret | .reti => true
  | _ => false

theorem Opcode.of_returns {o : Opcode} (h : o.returns = true) :
    o.callKind? = none ∧ o.stages = false := by
  cases o <;> first | exact ⟨rfl, rfl⟩ | cases h

namespace Instr

def finalReturn (i : Instr) : Bool := i.op.returns && i.isFinal

/-- The instruction leaves the body, in case it does not unwind. -/
def leaves (i : Instr) : Bool := i.finalReturn || i.op.callKind? == some .tail

end Instr

def live : List Instr → List Instr
  | [] => []
  | i :: rest => if i.leaves then [i] else i :: live rest

theorem live_cons_of_leaves {i : Instr} (h : i.leaves = true) (rest : List Instr) :
    live (i :: rest) = [i] :=
  if_pos h

theorem live_cons_of_not_leaves {i : Instr} (h : i.leaves = false) (rest : List Instr) :
    live (i :: rest) = i :: live rest :=
  if_neg (Bool.eq_false_iff.1 h)

def Step.leaves : Step → Bool
  | .call c => c.kind == .tail
  | .ret site => site.final
  | _ => false

namespace Prototype

/-- Where a planned return takes its values from. -/
theorem returnSite_cases {p : Prototype} {pc : Nat} {i : Instr} {site : ReturnSite}
    (h : p.returnSite pc i = .ok site) :
    site.slot = i.slot.toNat ∧ site.final = i.isFinal ∧
      RegType.ofBits? i.b = some site.type ∧ site.type.kind = .of site.bank ∧
      ((site.type.isConstant = true ∧ site.source = .const site.bank i.c.toNat) ∨
        (site.type.isConstant = false ∧ site.source = .reg site.bank i.c.toNat ∧
          site.width = site.type.components)) := by
  rw [returnSite] at h
  obtain ⟨⟨kind, modifier⟩, ht, h⟩ := bind_eq_ok h
  have ht := ofBits?_of_decode ht
  split at h
  · next hkind hmodifier =>
      obtain rfl := hkind
      obtain rfl := hmodifier
      obtain ⟨source, hsource, h⟩ := bind_eq_ok h
      obtain ⟨-, -, hsource⟩ := bind_eq_ok hsource
      cases hsource
      cases h
      exact ⟨rfl, rfl, ht, rfl, .inr ⟨rfl, rfl, rfl⟩⟩
  · next hkind hmodifier =>
      obtain rfl := hkind
      obtain rfl := hmodifier
      obtain ⟨source, hsource, h⟩ := bind_eq_ok h
      obtain ⟨-, -, hsource⟩ := bind_eq_ok hsource
      cases hsource
      cases h
      exact ⟨rfl, rfl, ht, rfl, .inl ⟨rfl, rfl⟩⟩
  · next hkind hmodifier =>
      obtain rfl := hkind
      obtain rfl := hmodifier
      obtain ⟨-, -, h⟩ := bind_eq_ok h
      cases h
      exact ⟨rfl, rfl, ht, rfl, .inr ⟨rfl, rfl, rfl⟩⟩
  · next hkind hmodifier =>
      obtain rfl := hkind
      obtain rfl := hmodifier
      obtain ⟨-, -, h⟩ := bind_eq_ok h
      cases h
      exact ⟨rfl, rfl, ht, rfl, .inr ⟨rfl, rfl, rfl⟩⟩
  · cases h

end Prototype

namespace Planning

variable {s s' : Planning} {p : Prototype} {pc : Nat} {i : Instr} {step : Step}

/-- A return is planned as a return, and nothing else is. -/
theorem returns_of_next (h : s.next p pc i (p.code.drop (pc + 1)) = .ok (step, s')) :
    (i.op.returns = false ∧ ∀ site, step ≠ .ret site) ∨
      ∃ site, step = .ret site ∧
        ((i.op = .ret ∧ p.returnSite pc i = .ok site) ∨
          (i.op = .reti ∧
            site = ⟨i.slot.toNat, i.isFinal, .imm i.sbx.toInt32, 1, .int, .of .int⟩)) := by
  rcases next_cases h with ⟨kind, c, hop, rfl, -⟩ | ⟨sources, hop, -, -, rfl, -⟩ |
    ⟨hstages, hcalls, -⟩
  · refine .inl ⟨Bool.eq_false_iff.2 fun hret => ?_, fun site hstep => by cases hstep⟩
    cases hop.symm.trans (Opcode.of_returns hret).1
  · refine .inl ⟨Bool.eq_false_iff.2 fun hret => ?_, fun site hstep => by cases hstep⟩
    cases hop.symm.trans (Opcode.of_returns hret).2
  · rw [next] at h
    cases hop : i.op with
    | ret =>
        rw [hop] at h
        obtain ⟨site, hsite, h⟩ := bind_eq_ok h
        cases h
        exact .inr ⟨site, rfl, .inl ⟨rfl, hsite⟩⟩
    | reti =>
        rw [hop] at h
        cases h
        exact .inr ⟨_, rfl, .inr ⟨rfl, rfl⟩⟩
    | result =>
        rw [hop] at h
        refine .inl ⟨rfl, ?_⟩
        rintro site rfl
        simp only [result] at h
        split at h
        · split at h <;> cases h
        · cases h
    | param | parami =>
        rw [hop] at hstages
        cases hstages
    | call | callk | tail | tailk =>
        rw [hop] at hcalls
        cases hcalls
    | _ =>
        rw [hop] at h
        obtain ⟨op, -, h⟩ := bind_eq_ok h
        cases h
        exact .inl ⟨rfl, fun site hstep => by cases hstep⟩

theorem kind_of_next {site : ReturnSite}
    (h : s.next p pc i (p.code.drop (pc + 1)) = .ok (.ret site, s')) :
    site.source.kind = .of site.bank := by
  rcases returns_of_next h with ⟨-, hne⟩ | ⟨site', hsite, ⟨-, hplanned⟩ | ⟨-, rfl⟩⟩
  · exact absurd rfl (hne site)
  · cases hsite
    obtain ⟨-, -, -, -, ⟨-, hsource⟩ | ⟨-, hsource, -⟩⟩ := Prototype.returnSite_cases hplanned
    · rw [hsource]
      rfl
    · rw [hsource]
      rfl
  · cases hsite
    rfl

theorem slot_of_next {site : ReturnSite}
    (h : s.next p pc i (p.code.drop (pc + 1)) = .ok (.ret site, s')) :
    i.op.returns = true ∧ site.slot = i.slot.toNat ∧ site.final = i.isFinal := by
  rcases returns_of_next h with ⟨-, hne⟩ | ⟨site', hsite, ⟨hop, hplanned⟩ | ⟨hop, rfl⟩⟩
  · exact absurd rfl (hne site)
  · cases hsite
    obtain ⟨hslot, hfinal, -⟩ := Prototype.returnSite_cases hplanned
    exact ⟨by rw [hop]; rfl, hslot, hfinal⟩
  · cases hsite
    exact ⟨by rw [hop]; rfl, rfl, rfl⟩

theorem leaves_of_next (h : s.next p pc i (p.code.drop (pc + 1)) = .ok (step, s')) :
    i.leaves = step.leaves := by
  rcases returns_of_next h with ⟨hop, hne⟩ | ⟨site, rfl, -⟩
  · have final : i.finalReturn = false := by rw [Instr.finalReturn, hop, Bool.false_and]
    rw [Instr.leaves, final, Bool.false_or]
    rcases next_cases h with ⟨kind, c, hkind, rfl, rfl, -⟩ | ⟨-, -, hkind, -, rfl, -⟩ |
      ⟨-, hkind, -, hcall, -⟩
    · rw [hkind]
      rfl
    · rw [hkind]
      rfl
    · rw [hkind]
      cases step with
      | call c => exact absurd rfl (hcall c)
      | ret site => exact absurd rfl (hne site)
      | _ => rfl
  · obtain ⟨hop, -, hfinal⟩ := slot_of_next h
    have kind : (i.op.callKind? == some .tail) = false := by
      rw [(Opcode.of_returns hop).1]
      rfl
    rw [Instr.leaves, Instr.finalReturn, hop, kind, Bool.or_false, Bool.true_and, Step.leaves,
      hfinal]

end Planning

end CallProtocol
