import CallProtocol.Proofs.ArgumentFidelity
import CallProtocol.Proofs.Plan.Bounds
import CallProtocol.Proofs.Plan.Capacity
import CallProtocol.Proofs.UnwrittenResults

/-!
# A plan is safe to run

Operands are looked up when a body is planned, and the running body uses them without
looking again. It uses variables, slots of its frame, constants and places of its outgoing
array. That they are all there has a part in the plan and a part in the run. In the plan,
what a step names is below the register counts, the pools and the capacities of the layout.
In the run, the variables, the frame and the outgoing array have the sizes that the layout
says when the body begins, and neither its own steps nor the calls it makes change a size.

Capacities are 32 bits wide, so the body has to be short enough for its parameters to be
counted.
-/

namespace CallProtocol

open Machine

/-! ## The plan -/

namespace Plan

/-- What the steps of a plan stage, take and declare fits into its layout, and the layout
has no room to spare. -/
structure FitsLayout (plan : Plan) (p : Prototype) : Prop where
  registers : plan.layout.registers = p.registers
  stage : ∀ slot params, .stage slot params ∈ plan.steps →
    slot + params.length ≤ plan.layout.params.toNat
  window : ∀ c ∈ plan.calls, c.window.start + c.window.params.length ≤ plan.layout.params.toNat
  results : ∀ c ∈ plan.calls, c.results.length ≤ plan.layout.returns.toNat
  /-- No more parameters are ever staged. -/
  mostStaged : ∀ n, (plan.stagedBefore n).length ≤ plan.layout.params.toNat
  stagedTight : ∃ n, (plan.stagedBefore n).length = plan.layout.params.toNat
  /-- No call declares more results. -/
  mostDeclared : ∀ n count, p.CallsAt n count → count ≤ plan.layout.returns.toNat
  declaredTight : plan.layout.returns.toNat = 0 ∨ ∃ n, p.CallsAt n plan.layout.returns.toNat

theorem mem_calls {plan : Plan} {c : CallSite} : c ∈ plan.calls ↔ .call c ∈ plan.steps := by
  rw [calls, List.mem_filterMap]
  constructor
  · rintro ⟨step, hstep, heq⟩
    cases step with
    | call c' =>
        cases heq
        exact hstep
    | _ => cases heq
  · intro h
    exact ⟨.call c, h, rfl⟩

theorem stagedBefore_of_length_lt {plan : Plan} {n : Nat} (h : plan.states.length < n) :
    plan.stagedBefore n = [] := by
  cases n with
  | zero => rfl
  | succ n =>
      rw [stagedBefore, List.getElem?_eq_none (Nat.le_of_lt_succ h)]
      rfl

end Plan

namespace Prototype

variable {p : Prototype} {plan : Plan}

/-- A parameter instruction stages behind the entries that wait. -/
theorem stage_of_mem (planned : p.plan = .ok plan) {slot : Nat} {params : List Staged}
    (h : .stage slot params ∈ plan.steps) :
    ∃ n, (plan.stagedBefore n).length = slot + params.length := by
  obtain ⟨n, hn⟩ := List.mem_iff_getElem?.1 h
  obtain ⟨i, s, s', hi, carries, walked⟩ := step_instr planned hn
  rcases Planning.next_cases walked with ⟨_, c, -, heq, -⟩ | ⟨sources, -, -, -, heq, hentries⟩ |
    ⟨-, -, -, -, hstage⟩
  · cases heq
  · cases heq
    refine ⟨n + 1, ?_⟩
    rw [(carries.next hi walked).stagedBefore planned, hentries, List.length_append]
  · exact absurd rfl (hstage slot params)

/-- A call takes the entries that wait from the start of its window on, and has as many
results as its instruction declares. -/
theorem call_of_mem (planned : p.plan = .ok plan) {c : CallSite} (h : .call c ∈ plan.steps) :
    (∃ n, (plan.stagedBefore n).length = c.window.start + c.window.params.length) ∧
      (c.results.length = 0 ∨ ∃ n, p.CallsAt n c.results.length) := by
  obtain ⟨n, hn⟩ := List.mem_iff_getElem?.1 h
  obtain ⟨i, s, s', hi, carries, walked⟩ := step_instr planned hn
  obtain ⟨hop, calls⟩ := Planning.calls_of_next walked
  refine ⟨⟨n, ?_⟩, ?_⟩
  · rw [carries.stagedBefore planned, calls.window, List.length_drop]
    exact (Nat.add_sub_of_le (Nat.sub_le _ _)).symm
  · rw [Planning.length_results_of_next walked, Instr.declared]
    split
    · next hcall => exact .inr ⟨n, i, hi, hcall, rfl⟩
    · exact .inl rfl

theorem fitsLayout (planned : p.plan = .ok plan) (short : p.code.length < Nat.pow 2 30) :
    plan.FitsLayout p := by
  obtain ⟨hregisters, last, peaks, hparams, hreturns⟩ := layout_of_plan planned short
  have mostStaged : ∀ n, (plan.stagedBefore n).length ≤ plan.layout.params.toNat := by
    intro n
    rw [hparams]
    rcases Nat.lt_or_ge p.code.length n with hn | hn
    · rw [Plan.stagedBefore_of_length_lt (by rwa [length_states planned])]
      exact Nat.zero_le _
    · exact peaks.highest n hn
  have mostDeclared : ∀ n count, p.CallsAt n count → count ≤ plan.layout.returns.toNat := by
    intro n count hcalls
    obtain ⟨i, hi, -⟩ := id hcalls
    rw [hreturns]
    exact peaks.most n count hcalls (List.getElem?_eq_some_iff.1 hi).1
  refine ⟨hregisters, ?_, ?_, ?_, mostStaged, ?_, mostDeclared, ?_⟩
  · intro slot params h
    obtain ⟨n, hn⟩ := stage_of_mem planned h
    exact hn ▸ mostStaged n
  · intro c hc
    obtain ⟨⟨n, hn⟩, -⟩ := call_of_mem planned (Plan.mem_calls.1 hc)
    exact hn ▸ mostStaged n
  · intro c hc
    rcases (call_of_mem planned (Plan.mem_calls.1 hc)).2 with hnone | ⟨n, hcalls⟩
    · exact hnone ▸ Nat.zero_le _
    · exact mostDeclared n _ hcalls
  · obtain ⟨n, -, hn⟩ := peaks.attained
    exact ⟨n, hn.trans hparams.symm⟩
  · rw [hreturns]
    exact peaks.declared.imp_right fun ⟨n, _, hcalls⟩ => ⟨n, hcalls⟩

end Prototype

/-! ## The run -/

def Machine.Sized (m : Machine) (o : Owner) (counts : RegisterCounts) : Prop :=
  ∃ regs, m.registers? o = some regs ∧ ∀ b, regs.size b = (counts.get b).toNat

namespace Machine.Sized

variable {m m' : Machine} {o : Owner} {counts : RegisterCounts}

theorem push {layout : FrameLayout} {params : List Value} {fr : Frame}
    (room : Machine.push m layout params = .ok (fr, m')) : m'.Sized (.frame fr.serial) layout.registers := by
  refine ⟨fr.registers, ?_, size_push room⟩
  obtain ⟨-, rfl⟩ := push_eq_ok room
  simp [registers?]

theorem written {ws : List Write} (h : m.Sized o counts)
    (heq : m'.registers? o = (m.registers? o).map (o.written ws)) : m'.Sized o counts := by
  obtain ⟨regs, hregs, hsize⟩ := h
  refine ⟨o.written ws regs, by rw [heq, hregs, Option.map_some], fun b => ?_⟩
  rw [Owner.size_written, hsize b]

theorem quiet {a a' : Activation} {s : Step} (h : m.Sized o counts)
    (step : a.quiet m s = some (a', m')) : m'.Sized o counts := by
  rcases Activation.quiet_cases step with ⟨op, -, hop⟩ | ⟨_, _, -, -, -, rfl⟩ | ⟨_, -, -, rfl⟩ |
    ⟨site, -, -, -, rfl⟩
  · have hsnd : m' = (a.plain m op).2 := by rw [hop]
    rw [hsnd]
    rcases a.plain_cases m op with hplain | ⟨b, r, x, hplain⟩
    · rwa [hplain]
    · rw [hplain]
      rcases a.assign_cases m b r x with ⟨-, hassign⟩ | ⟨-, hassign⟩
      · rwa [hassign]
      · rw [hassign]
        exact h.written (m.registers?_store _ _ o)
  · exact h
  · exact h
  · exact h.written (a.registers?_giveBack m site o)

/-- The frame of a body keeps its size over a call that the body makes. -/
theorem call {p : Program} {a : Activation} {c : CallSite} {m₁ m₂ : Machine} {τ : Task} {r : Int32}
    (h : m.Sized (.frame a.frame) counts) (holds : Holds a.frame 0 m)
    (callee : p.callee? a c (a.beforeCall m c) = some (τ, m₁)) (call : Execution p τ m₁ r m₂) :
    m₁.Sized (.frame a.frame) counts ∧ m₂.Sized (.frame a.frame) counts := by
  have registers : (a.beforeCall m c).registers? (.frame a.frame) =
      (m.registers? (.frame a.frame)).map
        (Owner.written (.frame a.frame) (a.flushed (a.inOuts c))) := by
    rw [Activation.beforeCall, Activation.flush_eq_write, registers?_write]
  have flushed : (a.beforeCall m c).Sized (.frame a.frame) counts := h.written registers
  have begun : m₁.Sized (.frame a.frame) counts := by
    obtain ⟨regs, hregs, hsize⟩ := flushed
    exact ⟨regs, (Program.registers?_task callee _).trans hregs, hsize⟩
  have keeps := (Execution.holds_callee? callee holds).keeps (σ := a.slot .int 0) rfl
  exact ⟨begun, begun.written (call.registers?_written keeps (Task.outside_of_callee? _ callee))⟩

end Machine.Sized

theorem Activation.length_outgoing_stage (a : Activation) (m : Machine) (slot : Nat)
    (params : List Staged) : (a.stage m slot params).outgoing.length = a.outgoing.length := by
  induction params generalizing a slot with
  | nil => rfl
  | cons p ps ih => exact (ih _ _).trans List.length_set

theorem Activation.length_outgoing_quiet {a a' : Activation} {m m' : Machine} {s : Step}
    (step : a.quiet m s = some (a', m')) : a'.outgoing.length = a.outgoing.length := by
  cases s with
  | stage slot params =>
      rcases quiet_cases step with ⟨_, heq, -⟩ | ⟨_, _, heq, -, rfl, -⟩ | ⟨_, heq, -⟩ | ⟨_, heq, -⟩
      · cases heq
      · exact a.length_outgoing_stage m _ _
      · cases heq
      · cases heq
  | _ => rw [outgoing_quiet step nofun]

namespace Reaches

variable {p : Program} {e : Entry} {f : FuncRef} {name : String} {h : Handover} {m₀ m : Machine}
  {past : List Activation} {steps : List Step} {a : Activation}

theorem frameSized (reached : Reaches p (.entry e f name h) m₀ past (.body steps a) m) :
    m.Sized (.frame a.frame) a.proto.registers := by
  refine reached.invariant (P := fun _ _ a m => m.Sized (.frame a.frame) a.proto.registers) ?_ ?_ ?_
  · intro code name h m m₁ fr room
    obtain ⟨_, _, -, -, -, hlayout⟩ := Prototype.plan_eq_ok code.planned
    have sized := Machine.Sized.push room
    rwa [hlayout] at sized
  · intro past s rest a a' m m₁ prior sized step
    have same := Activation.sameBody_quiet step
    rw [same.frame, same.proto]
    exact sized.quiet step
  · intro past c rest a m m₁ m₂ τ r prior sized callee call resumes kind
    have same : a.SameBody (a.afterCall m₂ c) := a.sameBody_refresh m₂ _
    rw [same.frame, same.proto]
    exact (sized.call prior.onStack callee call).2

theorem length_outgoing (reached : Reaches p (.entry e f name h) m₀ past (.body steps a) m)
    {plan : Plan} (planned : a.proto.plan = .ok plan) :
    a.outgoing.length = plan.layout.params.toNat := by
  refine reached.invariant (P := fun _ _ a _ => ∀ plan, a.proto.plan = .ok plan →
    a.outgoing.length = plan.layout.params.toNat) ?_ ?_ ?_ plan planned
  · intro code name h m m₁ fr room plan planned
    obtain rfl := Except.ok.inj (code.planned.symm.trans planned)
    exact List.length_replicate
  · intro past s rest a a' m m₁ prior ih step plan planned
    rw [(Activation.sameBody_quiet step).proto] at planned
    exact (Activation.length_outgoing_quiet step).trans (ih plan planned)
  · intro past c rest a m m₁ m₂ τ r prior ih callee call resumes kind plan planned
    rw [Activation.afterCall, (a.sameBody_refresh m₂ _).proto] at planned
    rw [Activation.afterCall, a.outgoing_refresh]
    exact ih plan planned

theorem mem_steps {s : Step} {rest : List Step}
    (reached : Reaches p (.entry e f name h) m₀ past (.body (s :: rest) a) m) {plan : Plan}
    (planned : a.proto.plan = .ok plan) : s ∈ plan.steps := by
  obtain ⟨code, hproto, hsteps⟩ := reached.position
  obtain rfl := Except.ok.inj ((hproto ▸ code.planned).symm.trans planned)
  exact List.mem_of_mem_drop (hsteps ▸ List.mem_cons_self)

end Reaches

/-- Whatever the activation uses in the step is there: a variable and a slot for each
register, the constants, and places of the outgoing array. -/
structure Activation.Equipped (a : Activation) (m : Machine) (s : Step) : Prop where
  locals : ∀ q ∈ a.touched s, q.2 < a.locals.size q.1
  slots : ∃ regs, m.registers? (.frame a.frame) = some regs ∧
    ∀ q ∈ a.touched s, q.2 < regs.size q.1
  constants : ∀ q ∈ s.constants, q.2 < a.proto.constants.size q.1
  stage : ∀ slot params, s = .stage slot params → a.hasRoom slot params = true
  window : ∀ c, s = .call c → c.window.start + c.window.params.length ≤ a.outgoing.length

/-- A body of fewer instructions than a capacity can count is safe to run by its plan. The
plan stays within its layout, which is as small as it can be, and all its operands are in
range. So whenever a run comes to a step of the body, what it uses in the step is there. -/
theorem plan_safe {p : Prototype} {plan : Plan} (planned : p.plan = .ok plan)
    (short : p.code.length < Nat.pow 2 30) :
    plan.FitsLayout p ∧ (∀ step ∈ plan.steps, p.InBounds step) ∧
      ∀ (q : Program) (e : Entry) (f : FuncRef) (name : String) (h : Handover) (m₀ m : Machine)
        (past : List Activation) (s : Step) (rest : List Step) (a : Activation),
        Reaches q (.entry e f name h) m₀ past (.body (s :: rest) a) m → a.proto = p →
          a.Equipped m s := by
  have fits := Prototype.fitsLayout planned short
  refine ⟨fits, fun step => Prototype.inBounds_of_mem planned, ?_⟩
  rintro q e f name h m₀ m past s rest a reached rfl
  have hmem := reached.mem_steps planned
  have inBounds := Prototype.inBounds_of_mem planned hmem
  have hout := reached.length_outgoing planned
  obtain ⟨regs, hregs, hsize⟩ := reached.frameSized
  refine ⟨?_, ⟨regs, hregs, ?_⟩, inBounds.constants, ?_, ?_⟩
  · intro q hq
    rw [reached.sized q.1]
    exact inBounds.registers a rfl q hq
  · intro q hq
    rw [hsize q.1]
    exact inBounds.registers a rfl q hq
  · rintro slot params rfl
    rw [Activation.hasRoom, hout]
    exact decide_eq_true (fits.stage slot params hmem)
  · rintro c rfl
    rw [hout]
    exact fits.window c (Plan.mem_calls.2 hmem)

/-! ## A float that is passed by address -/

def pokeFloats : Prototype where
  code := [.param ⟨.of .float, .address⟩ 1, .callConst 0 1 0, .ret 0 true (.of .float) 2]
  constants := { pointers := [.function (.native 0)] }
  registers := { floats := 3 }

def pokeFloatsCall : CallSite :=
  ⟨1, .call, .static 0 true, ⟨0, [⟨0, .address .float 1⟩]⟩, []⟩

def pokeFloatsPlan : Plan where
  steps := [.stage 0 [⟨0, .address .float 1⟩], .call pokeFloatsCall,
    .ret ⟨0, true, .reg .float 2, 1, .float, .of .float⟩]
  layout := { registers := { floats := 3 }, params := 1 }
  states := [⟨[⟨0, .address .float 1⟩], []⟩, ⟨[], []⟩, ⟨[], []⟩]

theorem pokeFloats_plan : pokeFloats.plan = .ok pokeFloatsPlan := rfl

def pokeFloatsCode : Code := ⟨pokeFloats, pokeFloatsPlan, pokeFloats_plan⟩

def pokeFloatsFrame : Frame := ⟨0, pokeFloatsPlan.layout, .blank pokeFloats.registers⟩

def pokeFloatsStart : Activation := .start pokeFloatsCode "poker" ⟨[], [], 0⟩ pokeFloatsFrame

def pokeFloatsBody : Activation :=
  { pokeFloatsStart with outgoing := [.pointer (.slot ⟨.frame 0, .float, 1⟩)] }

def pokeFloatsMachine : Machine where
  frames := [pokeFloatsFrame]
  stats := { pushed := 1, maxDepth := 1 }

theorem reaches_pokeFloats (p : Program) :
    Reaches p (.entry (.compiled pokeFloatsCode) (.script 0) "poker" ⟨[], [], 0⟩) {}
      [pokeFloatsStart] (.body (.call pokeFloatsCall :: pokeFloatsPlan.steps.drop 2) pokeFloatsBody)
      pokeFloatsMachine :=
  .quiet (.begun .start rfl) rfl

/-- Two floats go along with the call, and there is no third one behind them. -/
theorem plan_safe_pokeFloats :
    pokeFloatsPlan.FitsLayout pokeFloats ∧
      pokeFloatsBody.touched (.call pokeFloatsCall) = [(.float, 1), (.float, 2)] ∧
      pokeFloatsBody.Equipped pokeFloatsMachine (.call pokeFloatsCall) := by
  obtain ⟨fits, -, equipped⟩ := plan_safe pokeFloats_plan (by decide)
  exact ⟨fits, by decide, equipped _ _ _ _ _ _ _ _ _ _ _ (reaches_pokeFloats {}) rfl⟩

end CallProtocol
