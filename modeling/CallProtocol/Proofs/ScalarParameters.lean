import CallProtocol.Proofs.DispatchAgreement
import CallProtocol.Proofs.Engine.Entries
import CallProtocol.Proofs.Plan.Scalars

/-!
# Parameters of several components

A float of several components is passed as that many floats, so an instruction that stages one
is a short form of instructions that stage its components. The plan of the scalar body has a
step for each component, and it stages them in the same slots. Staging looks at nothing that
staging changes, so it does not matter that it is done in one step or in several, and the two
bodies run alike.
-/

namespace CallProtocol

namespace Prototype

variable {q : Prototype} {c c' : CallSite} {params params' : List Staged}

theorem sources_of_stagedAs (h : List.Forall₂ q.StagedAs params params') :
    params'.map (·.source) = params.map (·.source) := by
  induction h with
  | nil => rfl
  | cons head _ ih => rw [List.map_cons, List.map_cons, head.source, ih]

theorem CallAs.sameCall (h : q.CallAs c c') : c.SameCall c' where
  kind := h.kind
  start := h.start
  sources := sources_of_stagedAs h.params
  results := by
    rw [h.results, List.map_map]
    rfl

theorem kinds_of_callAs {calls calls' : List CallSite} (h : List.Forall₂ q.CallAs calls calls') :
    (calls'.map fun c => (c.kind, c.callee)) = calls.map fun c => (c.kind, c.callee) := by
  induction h with
  | nil => rfl
  | cons head _ ih => rw [List.map_cons, List.map_cons, head.kind, head.callee, ih]

end Prototype

namespace Activation

variable (a : Activation) (m : Machine) (slot : Nat)

theorem stage_congr {params params' : List Staged}
    (h : params'.map (·.source) = params.map (·.source)) :
    a.stage m slot params' = a.stage m slot params := by
  induction params generalizing a slot params' with
  | nil =>
      rw [List.map_eq_nil_iff.1 h]
  | cons e params ih =>
      cases params' with
      | nil => cases h
      | cons e' params' =>
          obtain ⟨source, behind⟩ := List.cons.inj h
          change e'.source = e.source at source
          rw [stage, stage, source]
          exact ih _ _ behind

theorem hasRoom_cons (e : Staged) (params : List Staged) :
    a.hasRoom slot (e :: params) = (a.stage m slot [e]).hasRoom (slot + 1) params := by
  rw [hasRoom, hasRoom, stage, stage, List.length_set, List.length_cons,
    show slot + (params.length + 1) = slot + 1 + params.length by omega]

end Activation

namespace Program

variable {p : Program} {invoke : Invoke} {a : Activation} {m : Machine}

theorem runSteps_singles (slot : Nat) {params : List Staged} (some : params ≠ [])
    (rest : List Step) :
    p.runSteps invoke (Step.singles slot params ++ rest) a m =
      p.runSteps invoke (.stage slot params :: rest) a m := by
  induction params generalizing a slot with
  | nil => exact absurd rfl some
  | cons e params ih =>
      cases params with
      | nil => rfl
      | cons e' params =>
          have behind := @ih (a.stage m slot [e]) (slot + 1) (List.cons_ne_nil _ _)
          rw [Step.singles, List.cons_append, runSteps, behind, runSteps, runSteps,
            ← a.hasRoom_cons m slot e (e' :: params)]
          by_cases room : a.hasRoom slot [e] = true
          · rw [if_pos room]
            rfl
          · have full : ¬ a.hasRoom slot (e :: e' :: params) = true := by
              simp only [Activation.hasRoom, List.length_cons, List.length_nil,
                decide_eq_true_eq] at room ⊢
              omega
            rw [if_neg room, if_neg full]

/-- The steps that stand for the steps of a body run as those do. -/
theorem runSteps_splits {q : Prototype} {steps : List Step} {news : List (List Step)}
    (h : List.Forall₂ q.Splits steps news) :
    p.runSteps invoke news.flatten a m = p.runSteps invoke steps a m := by
  induction h generalizing a m with
  | nil => rfl
  | @cons step new steps news head _ ih =>
      rw [List.flatten_cons]
      cases head with
      | plain op => exact ih
      | result r => exact ih
      | ret site =>
          rw [List.singleton_append, runSteps, runSteps, ih]
      | @stage slot params params' some same =>
          have sources := Prototype.sources_of_stagedAs same
          have some' : params' ≠ [] := fun none => some (by
            rw [none] at sources
            exact List.map_eq_nil_iff.1 sources.symm)
          have rooms : a.hasRoom slot params' = a.hasRoom slot params := by
            rw [Activation.hasRoom, Activation.hasRoom, same.length_eq]
          rw [runSteps_singles slot some', runSteps, runSteps, rooms,
            a.stage_congr m slot sources, ih]
      | @call c c' same =>
          have calls := same.sameCall
          have made : a.flush m (a.inOuts c') = a.flush m (a.inOuts c) := calls.beforeCall a m
          have called : ∀ m, p.dispatch invoke a c' m = p.dispatch invoke a c m := by
            intro m
            rw [dispatch, dispatch, same.callee, calls.handoverFor]
          have after : ∀ m, a.refresh m (a.inOuts c' ++ Activation.resultRegs c') =
              a.refresh m (a.inOuts c ++ Activation.resultRegs c) := calls.afterCall a
          rw [List.singleton_append, runSteps, runSteps, made, called, calls.kind]
          simp only [after, ih]

end Program

/-- The code of a body and that of its scalar body are interchangeable. -/
theorem Code.interchangeable_scalarized {c c' : Code} (scalar : c'.proto = c.proto.scalarized) :
    (Entry.compiled c).Interchangeable (.compiled c') := by
  obtain ⟨plan', news, planned', layout, steps, splits⟩ := Prototype.plan_scalarized c.planned
  obtain ⟨q', plan', planned''⟩ := c'
  obtain rfl := scalar
  obtain rfl := Except.ok.inj (planned'.symm.trans planned'')
  intro p invoke f name h m
  rw [Program.runEntry, Program.runEntry, Program.runCode, Program.runCode, layout]
  split
  · rfl
  · next fr m' _ =>
      have begun : Activation.start ⟨_, _, planned''⟩ name h fr =
          (Activation.start c name h fr).withCode (c.proto.code.flatMap Instr.scalars) := by
        rw [Activation.start, Activation.start, layout]
        rfl
      rw [begun, Program.runSteps_withCode, steps]
      exact Program.runSteps_splits splits

/-- Plans count alike if their calls are of the same kinds and have the same callees. -/
theorem EngineStats.add_congr (s : EngineStats) {plan plan' : Plan}
    (h : (plan'.calls.map fun c => (c.kind, c.callee)) =
      plan.calls.map fun c => (c.kind, c.callee)) : s.add plan' = s.add plan := by
  have counts : ∀ plan : Plan, s.add plan =
      let calls := plan.calls.map fun c => (c.kind, c.callee)
      { functions := s.functions + 1
        callSites := s.callSites + calls.length
        tailSites := s.tailSites + calls.countP (·.1 = .tail)
        dynamicSites := s.dynamicSites + calls.countP fun q =>
          CallSite.dispatch ⟨0, q.1, q.2, ⟨0, []⟩, []⟩ = .dynamic } := by
    intro plan
    dsimp only
    rw [List.length_map, List.countP_map, List.countP_map]
    rfl
  rw [counts, counts, h]

/-- A parameter instruction for a float of two or three components is a short form of as many
instructions that stage its components one after the other. If a body has a plan, then so has
the body in which all these instructions have been replaced. The layout is the same, and so are
the calls, up to the places of the instructions: `Prototype.CallAs` says that they have the same
kind and callee, that they take the same slots, for which the same sources have been staged, and
that they have the same results. After the one or the other has been compiled the engine has
counted the same, and everything that is called afterwards does the same. -/
theorem vector_params_are_scalars {q : Prototype} {plan : Plan} (planned : q.plan = .ok plan)
    (g : Engine) {i : Nat} (declared : g.program.Declares (.script i)) :
    ∃ plan', q.scalarized.plan = .ok plan' ∧ plan'.layout = plan.layout ∧
      List.Forall₂ q.CallAs plan.calls plan'.calls ∧
      ∃ k k', (g.withProto i q).compile (.script i) = .ok k ∧
        (g.withProto i q.scalarized).compile (.script i) = .ok k' ∧ k'.stats = k.stats ∧
        ∀ limit, k'.program.enter limit = k.program.enter limit ∧
          k'.program.call limit = k.program.call limit := by
  obtain ⟨plan', news, planned', layout, steps, splits⟩ := Prototype.plan_scalarized planned
  have calls := Prototype.callAs_of_splits steps splits
  have alike : (Entry.compiled ⟨q, plan, planned⟩).Interchangeable
      (.compiled ⟨q.scalarized, plan', planned'⟩) := Code.interchangeable_scalarized rfl
  obtain ⟨k, k', compiled, compiled', stats, stats', functions, entries⟩ :=
    g.exists_compile_withProto Entry.Interchangeable.refl declared alike
  refine ⟨plan', planned', layout, calls, k, k', compiled, compiled', ?_, fun limit =>
    ⟨functions.enter entries limit, functions.call entries limit⟩⟩
  rw [stats, stats']
  exact g.stats.add_congr (Prototype.kinds_of_callAs calls)

def passTriple : Prototype where
  registers := { floats := 3 }
  code := [.param ⟨.of .float, .triple⟩ 0, .callConst 0 3 0, .retImm 0 true 0]
  constants := { pointers := [.function (.native 0)] }

def passTripleEngine : Engine where
  program :=
    { scripts := [{ name := "f" }], natives := [{ name := "n", behaviour := fun _ => .finish 0 }] }

/-- The call comes two places later, and it is the same call. -/
theorem vector_params_are_scalars_passTriple :
    passTriple.scalarized.code = [.param (.of .float) 0, .param (.of .float) 1,
        .param (.of .float) 2, .callConst 0 3 0, .retImm 0 true 0] ∧
      ∃ plan plan' c c' k k' e, passTriple.plan = .ok plan ∧
        passTriple.scalarized.plan = .ok plan' ∧ plan'.layout = plan.layout ∧
        plan.calls = [c] ∧ plan'.calls = [c'] ∧ c.pc = 1 ∧ c'.pc = 3 ∧
        c'.window.params.map (·.source) = c.window.params.map (·.source) ∧
        (passTripleEngine.withProto 0 passTriple).compile (.script 0) = .ok k ∧
        (passTripleEngine.withProto 0 passTriple.scalarized).compile (.script 0) = .ok k' ∧
        k.program.call 1 (.script 0) [] [] {} = some (.ok 0, e) ∧ e.invoked = [0] ∧
        k'.program.call 1 (.script 0) [] [] {} = some (.ok 0, e) := by
  refine ⟨by decide, ?_⟩
  obtain ⟨plan, planned, c, hc, hpc⟩ :
      ∃ plan, passTriple.plan = .ok plan ∧ ∃ c, plan.calls = [c] ∧ c.pc = 1 :=
    ⟨_, rfl, _, rfl, rfl⟩
  obtain ⟨plan', planned', layout, calls, k, k', compiled, compiled', -, same⟩ :=
    vector_params_are_scalars planned passTripleEngine (show 0 < 1 from Nat.one_pos)
  obtain ⟨e, ran, invoked⟩ : ∃ e, k.program.call 1 (.script 0) [] [] {} = some (.ok 0, e) ∧
      e.invoked = [0] := by
    cases compiled
    exact ⟨_, rfl, rfl⟩
  obtain ⟨-, called⟩ := same 1
  rw [hc] at calls
  cases hcalls : plan'.calls with
  | nil =>
      rw [hcalls] at calls
      cases calls
  | cons c' rest =>
      rw [hcalls] at calls
      cases calls with
      | cons head tail =>
          cases tail
          have place : passTriple.scalarPc 1 = 3 := by decide
          exact ⟨plan, plan', c, c', k, k', e, planned, planned', layout, hc, hcalls, hpc,
            by rw [head.pc, hpc, place], Prototype.sources_of_stagedAs head.params, compiled,
            compiled', ran, invoked, by rw [called, ran]⟩

end CallProtocol
