import CallProtocol.Proofs.PlanSafety

/-!
# What an activation comes to by itself

`Proceeds p steps₀ a₀ m₀ ws steps a m` says that the activation `a₀`, with `steps₀` left on
`m₀`, comes to have `steps` left, as `a` on `m`. In between it does steps of its own and is
resumed by the calls that it makes. `ws` are the writes to slots on the way, in their order:
its own to its frame, those through the descriptors of its caller, and those of its callees.

The registers that live in the frame are then what these writes make of them.
-/

namespace CallProtocol

open Machine

namespace Activation

/-- What a plain instruction writes to the frame. A register with a variable is not written
to its slot. -/
def plainWrites (a : Activation) (m : Machine) : PlainOp → List Write
  | .assign b r source =>
    match (a.cell? m source).bind (·.as? b) with
    | some x => if b.isCached then [] else [⟨a.slot b r, ⟨b, x⟩⟩]
    | none => []
  | _ => []

def stepWrites (a : Activation) (m : Machine) : Step → List Write
  | .plain op => a.plainWrites m op
  | .ret site => (a.given m site).map (·.write)
  | _ => []

variable {a a' : Activation} {m m' : Machine}

theorem registers?_plain (a : Activation) (m : Machine) (op : PlainOp) (o : Owner) :
    (a.plain m op).2.registers? o = (m.registers? o).map (o.written (a.plainWrites m op)) := by
  have nothing : m.registers? o = (m.registers? o).map (o.written []) := Option.map_id_apply.symm
  cases op with
  | assign b r source =>
      simp only [plain, plainWrites]
      cases (a.cell? m source).bind (·.as? b) with
      | none => exact nothing
      | some x =>
          simp only [assign]
          cases b.isCached with
          | true => exact nothing
          | false => exact m.registers?_store (a.slot b r) ⟨b, x⟩ o
  | _ => exact nothing

/-- A step writes to its frame and through the descriptors of its caller, and to nothing
else. -/
theorem registers?_step {s : Step} (step : a.quiet m s = some (a', m')) (o : Owner) :
    m'.registers? o = (m.registers? o).map (o.written (a.stepWrites m s)) := by
  rcases quiet_cases step with ⟨op, rfl, hop⟩ | ⟨_, _, rfl, -, -, rfl⟩ | ⟨_, rfl, -, rfl⟩ |
    ⟨site, rfl, -, -, rfl⟩
  · have hplain := a.registers?_plain m op o
    rwa [hop] at hplain
  · exact Option.map_id_apply.symm
  · exact Option.map_id_apply.symm
  · exact a.registers?_giveBack m site o

/-- What making a call writes to the frame of the caller, and what its callee writes there. -/
theorem registers?_call {p : Program} {c : CallSite} {m₁ m₂ : Machine} {τ : Task} {r : Int32}
    (holds : Holds a.frame 0 m) (callee : p.callee? a c (a.beforeCall m c) = some (τ, m₁))
    (call : Execution p τ m₁ r m₂) :
    m₂.registers? (.frame a.frame) = (m.registers? (.frame a.frame)).map
      (Owner.written (.frame a.frame) (a.flushed (a.inOuts c) ++ call.writes)) := by
  have keeps := (Execution.holds_callee? callee holds).keeps (σ := a.slot .int 0) rfl
  have called : m₂.registers? (.frame a.frame) = (m₁.registers? (.frame a.frame)).map
      (Owner.written (.frame a.frame) call.writes) :=
    call.registers?_written keeps (Task.outside_of_callee? _ callee)
  have made : m₁.registers? (.frame a.frame) = (m.registers? (.frame a.frame)).map
      (Owner.written (.frame a.frame) (a.flushed (a.inOuts c))) := by
    rw [Program.registers?_task callee, beforeCall, flush_eq_write, registers?_write]
  rw [called, made, map_written_append]

end Activation

inductive Proceeds (p : Program) (steps₀ : List Step) (a₀ : Activation) (m₀ : Machine) :
    List Write → List Step → Activation → Machine → Prop where
  | start : Proceeds p steps₀ a₀ m₀ [] steps₀ a₀ m₀
  | quiet {ws : List Write} {s : Step} {rest : List Step} {a a' : Activation} {m m' : Machine}
    (prior : Proceeds p steps₀ a₀ m₀ ws (s :: rest) a m) (step : a.quiet m s = some (a', m')) :
    Proceeds p steps₀ a₀ m₀ (ws ++ a.stepWrites m s) rest a' m'
  | resumed {ws : List Write} {c : CallSite} {rest : List Step} {a : Activation}
    {m m₁ m₂ : Machine} {τ : Task} {r : Int32}
    (prior : Proceeds p steps₀ a₀ m₀ ws (.call c :: rest) a m)
    (callee : p.callee? a c (a.beforeCall m c) = some (τ, m₁)) (call : Execution p τ m₁ r m₂)
    (resumes : 0 ≤ r) (kind : c.kind = .call) :
    Proceeds p steps₀ a₀ m₀ (ws ++ (a.flushed (a.inOuts c) ++ call.writes)) rest
      (a.afterCall m₂ c) m₂

namespace Proceeds

variable {p : Program} {steps₀ steps : List Step} {a₀ a : Activation} {m₀ m : Machine}
  {ws : List Write}

theorem sameBody (onward : Proceeds p steps₀ a₀ m₀ ws steps a m) : a₀.SameBody a := by
  induction onward with
  | start => exact .refl a₀
  | quiet prior step ih => exact ih.trans (Activation.sameBody_quiet step)
  | @resumed ws c rest a m m₁ m₂ τ r prior callee call resumes kind ih =>
      exact ih.trans (a.sameBody_refresh m₂ _)

theorem reaches (onward : Proceeds p steps₀ a₀ m₀ ws steps a m) {τ : Task} {m₁ : Machine}
    {past : List Activation} (reached : Reaches p τ m₁ past (.body steps₀ a₀) m₀) :
    ∃ later, Reaches p τ m₁ (later ++ past) (.body steps a) m := by
  induction onward with
  | start => exact ⟨[], reached⟩
  | quiet prior step ih =>
      obtain ⟨later, prior⟩ := ih
      exact ⟨_ :: later, prior.quiet step⟩
  | resumed prior callee call resumes kind ih =>
      obtain ⟨later, prior⟩ := ih
      exact ⟨_ :: later, prior.resumed callee call resumes kind⟩

section Entry

variable {e : Entry} {f : FuncRef} {name : String} {h : Handover} {m₁ : Machine}
  {past : List Activation}

/-- The frame changes by the writes on the way and by nothing else. -/
theorem registers? (onward : Proceeds p steps₀ a₀ m₀ ws steps a m)
    (reached : Reaches p (.entry e f name h) m₁ past (.body steps₀ a₀) m₀) :
    m.registers? (.frame a₀.frame) =
      (m₀.registers? (.frame a₀.frame)).map (Owner.written (.frame a₀.frame) ws) := by
  induction onward with
  | start => exact Option.map_id_apply.symm
  | quiet prior step ih =>
      rw [← map_written_append, ← ih]
      exact Activation.registers?_step step _
  | @resumed ws c rest a m m₁ m₂ τ r prior callee call resumes kind ih =>
      obtain ⟨later, prior'⟩ := prior.reaches reached
      have called := Activation.registers?_call prior'.onStack callee call
      rw [prior.sameBody.frame] at called
      rw [← map_written_append, ← ih]
      exact called

/-- A text is what the writes on the way have made of it. -/
theorem read_string (onward : Proceeds p steps₀ a₀ m₀ ws steps a m)
    (reached : Reaches p (.entry e f name h) m₁ past (.body steps₀ a₀) m₀) {r : Nat}
    (hr : r < (a₀.proto.registers.get .string).toNat) :
    a.read m .string r = (a₀.slot .string r).written ws (a₀.read m₀ .string r) := by
  obtain ⟨regs, hregs, hsize⟩ := reached.frameSized
  rw [Activation.read_string onward.sameBody.frame]
  exact load_of_written (σ := a₀.slot .string r) hregs (by rwa [Activation.slot, hsize])
    (onward.registers? reached)

end Entry

end Proceeds

end CallProtocol
