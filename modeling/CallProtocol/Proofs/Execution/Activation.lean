import CallProtocol.Proofs.Execution.Basic
import CallProtocol.Proofs.Plan.Calls

/-!
# Activations of compiled code

The steps that an activation runs are those of a plan, and a run never leaves the plan:
what an activation changes are its variables and its outgoing parameters. So whatever
planning has established about a call site holds when the call is made.
-/

namespace CallProtocol

namespace Activation

/-- The activations are those of one body in one frame, which has been called once. -/
structure SameBody (a a' : Activation) : Prop where
  proto : a'.proto = a.proto
  name : a'.name = a.name
  frame : a'.frame = a.frame
  handover : a'.handover = a.handover

namespace SameBody

theorem refl (a : Activation) : SameBody a a := ⟨rfl, rfl, rfl, rfl⟩

theorem trans {a₁ a₂ a₃ : Activation} (h : SameBody a₁ a₂) (h' : SameBody a₂ a₃) :
    SameBody a₁ a₃ where
  proto := h'.proto.trans h.proto
  name := h'.name.trans h.name
  frame := h'.frame.trans h.frame
  handover := h'.handover.trans h.handover

end SameBody

theorem sameBody_assign (a : Activation) (m : Machine) (b : Bank) (r : Nat) (x : b.Content) :
    SameBody a (a.assign m b r x).1 := by
  rcases a.assign_cases m b r x with ⟨-, h⟩ | ⟨-, h⟩
  · rw [h]
    exact ⟨rfl, rfl, rfl, rfl⟩
  · rw [h]
    exact .refl a

theorem sameBody_plain (a : Activation) (m : Machine) (op : PlainOp) :
    SameBody a (a.plain m op).1 := by
  rcases a.plain_cases m op with h | ⟨b, r, x, h⟩
  · rw [h]
    exact .refl a
  · rw [h]
    exact a.sameBody_assign m b r x

theorem sameBody_stage (a : Activation) (m : Machine) (slot : Nat) (params : List Staged) :
    SameBody a (a.stage m slot params) := by
  induction params generalizing a slot with
  | nil => exact .refl a
  | cons p ps ih =>
      have staged : SameBody a { a with outgoing := a.outgoing.set slot (a.stagedValue m p.source) } :=
        ⟨rfl, rfl, rfl, rfl⟩
      exact staged.trans (ih _ _)

theorem sameBody_refresh (a : Activation) (m : Machine) (regs : List (Bank × Nat)) :
    SameBody a (a.refresh m regs) := by
  induction regs generalizing a with
  | nil => exact .refl a
  | cons p regs ih =>
      rw [refresh, List.foldl_cons]
      split
      · have loaded : SameBody a
            { a with locals := a.locals.set p.1 p.2 (m.load (a.slot p.1 p.2)) } :=
          ⟨rfl, rfl, rfl, rfl⟩
        exact loaded.trans (ih _)
      · exact ih a

theorem sameBody_quiet {a a' : Activation} {m m' : Machine} {s : Step}
    (h : a.quiet m s = some (a', m')) : SameBody a a' := by
  rcases quiet_cases h with ⟨op, -, hop⟩ | ⟨slot, params, -, -, rfl, -⟩ | ⟨-, -, rfl, -⟩ |
    ⟨-, -, -, rfl, -⟩
  · have same := a.sameBody_plain m op
    rwa [hop] at same
  · exact a.sameBody_stage m slot params
  · exact .refl _
  · exact .refl _

theorem stagedValue_cases (s : Source) :
    (∃ r, s = .reg .string r) ∨
      ∀ (a : Activation) (m : Machine), a.stagedValue m s = (a.cell? m s).elim .nil .ofCell := by
  by_cases h : ∃ r, s = .reg .string r
  · exact .inl h
  · refine .inr fun a m => ?_
    rw [stagedValue]
    · cases a.cell? m s <;> rfl
    · rintro r rfl
      exact h ⟨r, rfl⟩

/-- The steps are the last ones of the plan of the activation's body. -/
def Runs (a : Activation) (steps : List Step) : Prop :=
  ∃ code : Code, a.proto = code.proto ∧ steps <:+ code.plan.steps

theorem runs_start (code : Code) (name : String) (h : Handover) (fr : Frame) :
    (start code name h fr).Runs code.plan.steps :=
  ⟨code, rfl, List.suffix_rfl⟩

theorem Runs.next {a a' : Activation} {s : Step} {rest : List Step} (h : a.Runs (s :: rest))
    (same : SameBody a a') : a'.Runs rest := by
  obtain ⟨code, hproto, hsteps⟩ := h
  exact ⟨code, same.proto.trans hproto, (List.suffix_cons s rest).trans hsteps⟩

theorem Runs.instr {a : Activation} {c : CallSite} {rest : List Step}
    (h : a.Runs (.call c :: rest)) :
    ∃ n i s s', a.proto.code[n]? = some i ∧ i.op.callKind? = some c.kind ∧
      a.proto.Carries n s ∧ s.Calls a.proto n i c s' := by
  obtain ⟨code, hproto, hsteps⟩ := h
  have hmem : Step.call c ∈ code.plan.steps := hsteps.mem List.mem_cons_self
  obtain ⟨n, hn⟩ := List.mem_iff_getElem?.1 hmem
  obtain ⟨i, s, s', hi, hs, hnext⟩ := Prototype.step_instr code.planned hn
  obtain ⟨hop, calls⟩ := Planning.calls_of_next hnext
  rw [hproto]
  exact ⟨n, i, s, s', hi, hop, hs, calls⟩

theorem Runs.site {a : Activation} {c : CallSite} {rest : List Step}
    (h : a.Runs (.call c :: rest)) :
    ∃ n i s s', a.proto.Carries n s ∧ s.Calls a.proto n i c s' := by
  obtain ⟨n, i, s, s', -, -, carries, calls⟩ := h.instr
  exact ⟨n, i, s, s', carries, calls⟩

end Activation

namespace Program

variable {p : Program} {a : Activation} {c : CallSite} {rest : List Step} {m m₁ : Machine}
  {τ : Task}

/-- Compiled code calls natives as natives and scripts as scripts. -/
theorem callee?_of_runs (runs : a.Runs (.call c :: rest)) (hτ : p.callee? a c m = some (τ, m₁)) :
    τ = .null ∨ (∃ f, f.isNative = true ∧ τ = .native f (a.handoverFor c)) ∨
      ∃ f e, f.isNative = false ∧ (p.head f).entry = some e ∧
        τ = .entry e f (p.name f) (a.handoverFor c) := by
  have ofFunction : ∀ {f : FuncRef},
      p.functionTask f.isNative f (a.handoverFor c) m = some (τ, m₁) →
        (∃ f, f.isNative = true ∧ τ = .native f (a.handoverFor c)) ∨
          ∃ f e, f.isNative = false ∧ (p.head f).entry = some e ∧
            τ = .entry e f (p.name f) (a.handoverFor c) := by
    intro f hf
    cases hnative : f.isNative with
    | true =>
        rw [hnative] at hf
        cases hf
        exact .inl ⟨f, hnative, rfl⟩
    | false =>
        rw [hnative] at hf
        obtain ⟨e, he, heq⟩ := Option.map_eq_some_iff.1 hf
        cases heq
        exact .inr ⟨f, e, hnative, he, rfl⟩
  cases hc : c.callee with
  | static k native =>
      obtain ⟨n, i, s, s', -, calls⟩ := runs.site
      have hcallee := calls.callee
      rw [hc] at hcallee
      obtain ⟨f, hf, rfl⟩ := Prototype.callee_static hcallee
      rw [callee?_of_static hc, hf] at hτ
      exact .inr (ofFunction hτ)
  | register r =>
      rw [callee?_of_register hc] at hτ
      split at hτ
      · cases hτ
        exact .inl rfl
      · obtain ⟨f, -, hf⟩ := Option.bind_eq_some_iff.1 hτ
        exact .inr (ofFunction hf)

end Program

end CallProtocol
