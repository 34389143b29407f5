import CallProtocol.Proofs.CallerIsolation
import CallProtocol.Proofs.PlanAcceptance

/-!
# Results that are not written

A callee may return fewer values than its caller declares, values of another kind, or
vectors that are too narrow. After the call the caller reads all declared results back
from their slots, whether they have been written or not. A slot is the text itself of a
string register, so a text that is not written is kept. For the other banks the register
is a variable, and its slot is brought up to date only where an address is passed. So what
is read back is what the slot held when the call was made, and that may be older than the
register.
-/

namespace CallProtocol

open Machine

/-! ## The size of a bank -/

theorem Frame.size_fill {text : TextRef → Option String} {index : Nat} {next : Bank → Nat}
    {regs regs' : Banks} {params : List Value} (h : fill text index next regs params = .ok regs')
    (b : Bank) : regs'.size b = regs.size b := by
  induction params generalizing index next regs with
  | nil =>
      cases h
      rfl
  | cons v params ih =>
      rw [fill] at h
      split at h
      · cases h
      · exact ih h
      · split at h
        · rw [ih h, Banks.size_set]
        · cases h

theorem Machine.size_push {m m' : Machine} {layout : FrameLayout} {params : List Value} {fr : Frame}
    (h : m.push layout params = .ok (fr, m')) (b : Bank) :
    fr.registers.size b = (layout.registers.get b).toNat := by
  rw [push, Frame.ofParams] at h
  cases hfill : Frame.fill m.text 0 (fun _ => 0) (.blank layout.registers) params with
  | error e =>
      rw [hfill] at h
      cases h
  | ok regs =>
      rw [hfill] at h
      cases h
      rw [Frame.size_fill hfill, Banks.size_blank]

namespace Activation

def Sized (a : Activation) : Prop :=
  ∀ b, a.locals.size b = (a.proto.registers.get b).toNat

theorem Sized.assign {a : Activation} (h : a.Sized) (m : Machine) (b : Bank) (r : Nat)
    (x : b.Content) : (a.assign m b r x).1.Sized := by
  intro c
  rcases a.assign_cases m b r x with ⟨-, heq⟩ | ⟨-, heq⟩
  · rw [heq]
    exact (Banks.size_set _ b c r x).trans (h c)
  · rw [heq]
    exact h c

theorem stage_locals (a : Activation) (m : Machine) (slot : Nat) (params : List Staged) :
    (a.stage m slot params).locals = a.locals := by
  induction params generalizing a slot with
  | nil => rfl
  | cons p ps ih => exact ih _ _

theorem Sized.quiet {a a' : Activation} {m m' : Machine} {s : Step} (h : a.Sized)
    (step : a.quiet m s = some (a', m')) : a'.Sized := by
  rcases quiet_cases step with ⟨op, -, hop⟩ | ⟨slot, params, -, -, rfl, -⟩ | ⟨-, -, rfl, -⟩ |
    ⟨-, -, -, rfl, -⟩
  · have hfst : a' = (a.plain m op).1 := by rw [hop]
    rw [hfst]
    rcases a.plain_cases m op with hplain | ⟨b, r, x, hplain⟩
    · rw [hplain]
      exact h
    · rw [hplain]
      exact h.assign m b r x
  · intro b
    rw [stage_locals, (a.sameBody_stage m slot params).proto]
    exact h b
  · exact h
  · exact h

theorem Sized.refresh {a : Activation} (h : a.Sized) (m : Machine) (regs : List (Bank × Nat)) :
    (a.refresh m regs).Sized := by
  induction regs generalizing a with
  | nil => exact h
  | cons p regs ih =>
      rw [Activation.refresh, List.foldl_cons]
      refine ih ?_
      split
      · intro c
        exact (Banks.size_set _ _ c _ _).trans (h c)
      · exact h

/-- A variable that is read back holds what its slot holds. -/
theorem get_refresh_of_mem {a : Activation} (m : Machine) {regs : List (Bank × Nat)} {b : Bank}
    {r : Nat} (hcached : b.isCached = true) (hr : r < a.locals.size b) (h : (b, r) ∈ regs) :
    (a.refresh m regs).locals.get b r = m.load (a.slot b r) := by
  induction regs generalizing a with
  | nil => cases h
  | cons p regs ih =>
      rw [refresh, List.foldl_cons]
      by_cases hrest : (b, r) ∈ regs
      · split
        · exact ih (Nat.lt_of_lt_of_eq hr (Banks.size_set _ _ b _ _).symm) hrest
        · exact ih hr hrest
      · -- The head is the register, and it is not read back again.
        obtain rfl := (List.mem_cons.1 h).resolve_right hrest
        rw [if_pos hcached]
        exact (get_refresh _ m hrest).trans (Banks.get_set_self _ b r _ hr)

end Activation

theorem Reaches.sized {p : Program} {e : Entry} {f : FuncRef} {name : String} {h : Handover}
    {m₀ : Machine} {past : List Activation} {steps : List Step} {a : Activation} {m : Machine}
    (reached : Reaches p (.entry e f name h) m₀ past (.body steps a) m) : a.Sized := by
  refine reached.invariant (P := fun _ _ a _ => a.Sized) ?_ ?_ ?_
  · intro code name h m m₁ fr room b
    obtain ⟨_, _, -, -, -, hlayout⟩ := Prototype.plan_eq_ok code.planned
    exact (size_push room b).trans (by rw [hlayout]; rfl)
  · intro past s rest a a' m m₁ prior sized step
    exact sized.quiet step
  · intro past c rest a m m₁ m₂ τ r prior sized callee call resumes kind
    exact sized.refresh m₂ _

theorem Planning.hasReg_of_mem {p : Prototype} {n : Nat} {s s' : Planning} {i : Instr}
    {c : CallSite} (carries : p.Carries n s)
    (walked : s.next p n i (p.code.drop (n + 1)) = .ok (.call c, s')) (kind : c.kind = .call)
    {b : Bank} {r : Nat} (h : (b, r) ∈ Activation.resultRegs c) : p.HasReg b r := by
  obtain ⟨spec, hspec, hmem⟩ := List.mem_flatMap.1 h
  obtain ⟨w, hw, heq⟩ := List.mem_map.1 hmem
  obtain ⟨rfl, rfl⟩ := Prod.mk.inj heq
  obtain ⟨hop, calls⟩ := calls_of_next walked
  obtain ⟨k, j, hk, hj, declared⟩ := calls.declared spec hspec
  have wellFormed : p.WellFormedAt n i := (Fits.of_carries carries).exists_next.1 ⟨_, walked⟩
  obtain ⟨j', hj', -, t, ht, -, -, b, hof, hregs⟩ := wellFormed.results (kind ▸ hop) k hk
  obtain rfl := Option.some.inj (hj.symm.trans hj')
  obtain rfl := Option.some.inj (declared.type.symm.trans ht)
  obtain rfl : b = spec.bank := Kind.of.inj (hof.kind.symm.trans declared.kind)
  rw [declared.reg]
  exact hregs w (List.mem_range.1 hw)

/-- After a call that resumes its caller, a result that the callee has not written is what
its slot held when the call was made. This is the text itself of a string register. -/
theorem unwritten_result {p : Program} {e : Entry} {f : FuncRef} {name : String} {h : Handover}
    {m₀ m m₁ m₂ : Machine} {past : List Activation} {c : CallSite} {rest : List Step}
    {a : Activation} {τ : Task} {r : Int32}
    (reached : Reaches p (.entry e f name h) m₀ past (.body (.call c :: rest) a) m)
    (kind : c.kind = .call) (callee : p.callee? a c (a.beforeCall m c) = some (τ, m₁))
    (call : Execution p τ m₁ r m₂) (resumes : 0 ≤ r) :
    Reaches p (.entry e f name h) m₀ (a :: past) (.body rest (a.afterCall m₂ c)) m₂ ∧
      ∀ b reg, (b, reg) ∈ Activation.resultRegs c →
        (∀ δ ∈ call.deliveries, δ.write.slot ≠ a.slot b reg) → a.slot b reg ∉ call.stores →
          (a.afterCall m₂ c).read m₂ b reg = (a.beforeCall m c).load (a.slot b reg) ∧
            (b = .string → (a.afterCall m₂ c).read m₂ b reg = a.read m b reg) := by
  refine ⟨reached.resumed callee call resumes kind, ?_⟩
  intro b reg result undelivered unstored
  have keeps := (Execution.holds_callee? callee reached.onStack).keeps (σ := a.slot b reg) rfl
  have kept : m₂.load (a.slot b reg) = (a.beforeCall m c).load (a.slot b reg) :=
    (call.load_eq_of_unwritten keeps (Task.outside_of_callee? _ callee) undelivered unstored).trans
      (Program.load_task _ callee)
  have hframe : (a.afterCall m₂ c).frame = a.frame := (a.sameBody_refresh m₂ _).frame
  by_cases hb : b = .string
  · subst hb
    have made : (a.beforeCall m c).load (a.slot .string reg) = a.read m .string reg :=
      Activation.load_flush fun q hq => Activation.slot_inOuts_ne hq reg
    have read : (a.afterCall m₂ c).read m₂ .string reg = m₂.load (a.slot .string reg) :=
      Activation.read_string hframe m₂ reg
    exact ⟨read.trans kept, fun _ => read.trans (kept.trans made)⟩
  · refine ⟨?_, fun h => absurd h hb⟩
    obtain ⟨i, t, t', -, carries, walked⟩ := reached.position.step
    have hreg : reg < a.locals.size b := by
      rw [reached.sized b]
      exact (Planning.hasReg_of_mem carries walked kind result).1
    have hcached : b.isCached = true := by
      cases b with
      | string => exact absurd rfl hb
      | _ => rfl
    rw [Activation.read_of_ne_string _ m₂ hb, ← kept]
    exact Activation.get_refresh_of_mem m₂ hcached hreg (List.mem_append_right _ result)

/-! ## A result of a native that returns nothing -/

/-- A body that loads five into its int register, has it receive a result of a native, and
returns it. -/
def loadThenCall : Prototype where
  code := [.ofSbx .li 0 5, .callConst 0 0 1, .result (.of .int) 0, .ret 0 true (.of .int) 0]
  constants := { pointers := [.function (.native 0)] }
  registers := { ints := 1 }

def loadThenCallResult : ResultSpec := ⟨2, .of .int, .int, 0⟩

def loadThenCallSite : CallSite := ⟨1, .call, .static 0 true, ⟨0, []⟩, [loadThenCallResult]⟩

def loadThenCallPlan : Plan where
  steps := [.plain (.assign .int 0 (.imm 5)), .call loadThenCallSite, .result loadThenCallResult,
    .ret ⟨0, true, .reg .int 0, 1, .int, .of .int⟩]
  layout := { registers := { ints := 1 }, returns := 1 }
  states := [⟨[], []⟩, ⟨[], [loadThenCallResult]⟩, ⟨[], []⟩, ⟨[], []⟩]

theorem loadThenCall_plan : loadThenCall.plan = .ok loadThenCallPlan := rfl

def loadThenCallCode : Code := ⟨loadThenCall, loadThenCallPlan, loadThenCall_plan⟩

def silentProgram : Program where
  natives := [{ name := "silent", behaviour := fun _ => .finish 0 }]

def loadThenCallFrame : Frame := ⟨0, loadThenCallPlan.layout, { ints := [0] }⟩

def loadThenCallStart : Activation :=
  .start loadThenCallCode "loader" ⟨[], [], 0⟩ loadThenCallFrame

def loadThenCallBody : Activation := { loadThenCallStart with locals := { ints := [5] } }

def loadThenCallMachine : Machine where
  frames := [loadThenCallFrame]
  stats := { pushed := 1, maxDepth := 1 }

theorem reaches_loadThenCall :
    Reaches silentProgram (.entry (.compiled loadThenCallCode) (.script 0) "loader" ⟨[], [], 0⟩) {}
      [loadThenCallStart]
      (.body (.call loadThenCallSite :: loadThenCallPlan.steps.drop 2) loadThenCallBody)
      loadThenCallMachine :=
  .quiet (.begun .start rfl) rfl

def silentCall : Task := .native (.native 0) ⟨[], [loadThenCallBody.descriptor loadThenCallResult], 1⟩

theorem callee?_loadThenCall :
    silentProgram.callee? loadThenCallBody loadThenCallSite
      (loadThenCallBody.beforeCall loadThenCallMachine loadThenCallSite) =
        some (silentCall, loadThenCallMachine) := rfl

def silentRun : Execution silentProgram silentCall loadThenCallMachine 0
    { loadThenCallMachine with invoked := [0] } :=
  .native rfl

theorem unwritten_result_loadThenCall :
    (loadThenCallBody.afterCall { loadThenCallMachine with invoked := [0] } loadThenCallSite).read
      { loadThenCallMachine with invoked := [0] } .int 0 =
        loadThenCallMachine.load ⟨.frame 0, .int, 0⟩ := by
  obtain ⟨-, unwritten⟩ := unwritten_result reaches_loadThenCall rfl callee?_loadThenCall silentRun
    (by decide)
  exact (unwritten .int 0 (List.mem_singleton.2 rfl) (fun δ hδ => nomatch hδ) nofun).1

/-- The register need not keep its value: what is read back is not five but the zero that
the slot has held since the frame was made. -/
theorem unwritten_result_stale :
    ¬ ∀ (p : Program) (e : Entry) (f : FuncRef) (name : String) (h : Handover)
      (m₀ m m₁ m₂ : Machine) (past : List Activation) (c : CallSite) (rest : List Step)
      (a : Activation) (τ : Task) (r : Int32) (call : Execution p τ m₁ r m₂),
      Reaches p (.entry e f name h) m₀ past (.body (.call c :: rest) a) m → c.kind = .call →
      p.callee? a c (a.beforeCall m c) = some (τ, m₁) → 0 ≤ r →
      ∀ b reg, (b, reg) ∈ Activation.resultRegs c →
        (∀ δ ∈ call.deliveries, δ.write.slot ≠ a.slot b reg) → a.slot b reg ∉ call.stores →
          (a.afterCall m₂ c).read m₂ b reg = a.read m b reg := by
  intro keeps
  have kept := keeps _ _ _ _ _ _ _ _ _ _ _ _ _ _ _ silentRun reaches_loadThenCall rfl
    callee?_loadThenCall (by decide) .int 0 (List.mem_singleton.2 rfl) (fun δ hδ => nomatch hδ) nofun
  have hzero : (0 : Int32) = 5 := kept
  cases hzero

end CallProtocol
