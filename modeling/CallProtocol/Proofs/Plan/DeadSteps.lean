import CallProtocol.Proofs.FirstOffence
import CallProtocol.Proofs.Plan.Live
import Mathlib.Data.List.Forall2

/-!
# The steps behind the end of a body

The planner goes over the whole of a body, also over what is behind the first instruction that
leaves it. What it makes of the live part does not depend on that: no instruction of the live
part looks beyond it, since the results of a call come right behind the call, and the walk has
seen nothing else when it gets there. So bodies with the same live part have the same live
steps. In everything else their plans may differ, in the capacities of the layout too.
-/

namespace CallProtocol

/-! ## The live part -/

/-- An instruction is live if none before it leaves the body. -/
theorem lt_length_live_iff {code : List Instr} {n : Nat} :
    n < (live code).length ↔
      n < code.length ∧ ∀ j < n, ∀ i ∈ code[j]?, i.leaves = false := by
  induction code generalizing n with
  | nil => simp [live]
  | cons i rest ih =>
      cases hleaves : i.leaves with
      | true =>
          rw [live_cons_of_leaves hleaves]
          constructor
          · intro hn
            obtain rfl := Nat.lt_one_iff.1 hn
            exact ⟨Nat.succ_pos _, fun j hj => absurd hj (Nat.not_lt_zero j)⟩
          · rintro ⟨-, before⟩
            refine Nat.lt_one_iff.2 (Nat.eq_zero_of_not_pos fun hn => ?_)
            cases hleaves.symm.trans (before 0 hn i rfl)
      | false =>
          rw [live_cons_of_not_leaves hleaves]
          cases n with
          | zero => simp
          | succ n =>
              rw [List.length_cons, List.length_cons, Nat.add_lt_add_iff_right,
                Nat.add_lt_add_iff_right, ih]
              refine and_congr_right fun _ => ⟨fun before j hj => ?_, fun before j hj => ?_⟩
              · cases j with
                | zero =>
                    intro k hk
                    cases hk
                    exact hleaves
                | succ j => exact before j (Nat.lt_of_succ_lt_succ hj)
              · exact before (j + 1) (Nat.succ_lt_succ hj)

theorem length_live_le (code : List Instr) : (live code).length ≤ code.length :=
  Nat.le_of_not_lt fun h => Nat.lt_irrefl _ (lt_length_live_iff.1 h).1

theorem live_eq_take (code : List Instr) : live code = code.take (live code).length := by
  induction code with
  | nil => rfl
  | cons i rest ih =>
      rw [live]
      split
      · rfl
      · rw [List.length_cons, List.take_succ_cons, ← ih]

namespace Step

def live : List Step → List Step
  | [] => []
  | s :: rest => if s.leaves then [s] else s :: live rest

theorem live_eq_take {code : List Instr} {steps : List Step}
    (h : List.Forall₂ (fun i s => i.leaves = s.leaves) code steps) :
    live steps = steps.take (CallProtocol.live code).length := by
  induction h with
  | nil => rfl
  | cons head tail ih =>
      rw [live, CallProtocol.live, head]
      split
      · rfl
      · rw [ih, List.length_cons, List.take_succ_cons]

end Step

namespace Prototype

variable {p p' : Prototype} {plan plan' : Plan}

theorem leaves_of_plan (planned : p.plan = .ok plan) :
    List.Forall₂ (fun i s => i.leaves = s.leaves) p.code plan.steps := by
  refine List.forall₂_iff_get.2 ⟨(length_steps planned).symm, fun n hn hn' => ?_⟩
  obtain ⟨i, s, s', hi, -, hnext⟩ := step_instr planned (List.getElem?_eq_getElem hn')
  obtain rfl := Option.some.inj ((List.getElem?_eq_getElem hn).symm.trans hi)
  exact Planning.leaves_of_next hnext

/-- A live call is not cut from its results: none of them leaves the body. -/
theorem wholeCalls_live (planned : p.plan = .ok plan) : p.WholeCalls (live p.code).length := by
  rintro m count ⟨i, hi, hop, rfl⟩ hm
  obtain ⟨s, step, s', carries, walked, -⟩ := plan_step planned hi
  have wellFormed : p.WellFormedAt m i :=
    (Planning.Fits.of_carries carries).exists_next.1 ⟨_, walked⟩
  obtain ⟨hlength, before⟩ := lt_length_live_iff.1 hm
  have receives : ∀ k < i.c.toNat, ∃ j, p.code[m + 1 + k]? = some j ∧ j.op = .result := by
    intro k hk
    obtain ⟨j, hj, received⟩ := wellFormed.results hop k hk
    exact ⟨j, hj, received.1⟩
  refine lt_length_live_iff.2 ⟨?_, fun j hj => ?_⟩
  · rcases Nat.eq_zero_or_pos i.c.toNat with h | h
    · rwa [h]
    · obtain ⟨j, hj, -⟩ := receives (i.c.toNat - 1) (by omega)
      have hlt := (List.getElem?_eq_some_iff.1 hj).1
      omega
  · rcases Nat.lt_trichotomy j m with hlt | rfl | hgt
    · exact before j hlt
    · rintro i' hi'
      obtain rfl := Option.some.inj (hi.symm.trans hi')
      rw [Instr.leaves, Instr.finalReturn, hop]
      cases h : i.op <;> rw [h] at hop <;> first | rfl | cases hop
    · rintro i' hi'
      obtain ⟨i₁, hi₁, hresult⟩ := receives (j - (m + 1)) (by omega)
      rw [show m + 1 + (j - (m + 1)) = j by omega] at hi₁
      obtain rfl := Option.some.inj (hi₁.symm.trans hi')
      rw [Instr.leaves, Instr.finalReturn, hresult]
      rfl

/-- Bodies that agree up to where they are left have the same live steps. -/
theorem live_steps_eq (planned : p.plan = .ok plan) (planned' : p'.plan = .ok plan')
    (constants : p'.constants = p.constants) (registers : p'.registers = p.registers)
    (agree : live p'.code = live p.code) : Step.live plan'.steps = Step.live plan.steps := by
  have cut : ∀ {q : Prototype} {plan : Plan}, q.plan = .ok plan → ∃ plan₁,
      (q.withCode (live q.code)).plan = .ok plan₁ ∧ Step.live plan.steps = plan₁.steps := by
    intro q plan planned
    have whole := wholeCalls_live planned
    have hn := length_live_le q.code
    rw [live_eq_take q.code]
    obtain ⟨plan₁, planned₁⟩ := exists_plan_take planned hn whole
    exact ⟨plan₁, planned₁, (Step.live_eq_take (leaves_of_plan planned)).trans
      (plan_step_take planned hn whole planned₁).1.symm⟩
  obtain ⟨plan₁, planned₁, hlive⟩ := cut planned
  obtain ⟨plan₂, planned₂, hlive'⟩ := cut planned'
  have same : p'.withCode (live p'.code) = p.withCode (live p.code) := by
    rw [withCode, withCode, constants, registers, agree]
  rw [same] at planned₂
  obtain rfl := Except.ok.inj (planned₁.symm.trans planned₂)
  rw [hlive, hlive']

end Prototype

/-! ## The stack of parameters -/

/-- The steps keep their parameters on a stack, which has the height that is given before the
first of them: parameters are staged on top of it, and a call takes the topmost ones. -/
def Step.Stacked : Nat → List Step → Prop
  | _, [] => True
  | height, .stage slot params :: rest => slot = height ∧ Stacked (height + params.length) rest
  | height, .call c :: rest =>
    c.window.start + c.window.params.length = height ∧ Stacked c.window.start rest
  | height, _ :: rest => Stacked height rest

namespace Step

theorem Stacked.live {height : Nat} {steps : List Step} (h : Stacked height steps) :
    Stacked height (Step.live steps) := by
  induction steps generalizing height with
  | nil => exact h
  | cons s rest ih =>
      rw [Step.live]
      split
      · cases s with
        | call c => exact ⟨h.1, trivial⟩
        | stage slot params => exact ⟨h.1, trivial⟩
        | _ => trivial
      · cases s with
        | call c => exact ⟨h.1, ih h.2⟩
        | stage slot params => exact ⟨h.1, ih h.2⟩
        | _ => exact @ih height h

end Step

theorem Prototype.stacked_walk {p : Prototype} {code : List Instr} {pc : Nat} {s last : Planning}
    {steps : List (Step × Snapshot)} (hcode : p.code.drop pc = code)
    (h : Planning.walk p pc s code = .ok (steps, last)) :
    Step.Stacked s.staging.entries.length (steps.map (·.1)) := by
  induction code generalizing pc s steps with
  | nil =>
      cases h
      trivial
  | cons i rest ih =>
      rw [Planning.walk] at h
      obtain ⟨⟨step, s'⟩, hnext, h⟩ := bind_eq_ok h
      obtain ⟨⟨steps', last'⟩, hwalk, h⟩ := bind_eq_ok h
      cases h
      have hrest : p.code.drop (pc + 1) = rest := by
        rw [← List.tail_drop, hcode]
        rfl
      rw [← hrest] at hnext
      have stacked := ih hrest hwalk
      rw [List.map_cons]
      rcases Planning.next_cases hnext with ⟨kind, c, -, rfl, -, calls⟩ |
        ⟨sources, -, -, -, rfl, entries⟩ | ⟨-, -, staging, hcall, hstage⟩
      · have enough := calls.enough
        rw [calls.entries, List.length_take, Nat.min_eq_left (Nat.sub_le _ _)] at stacked
        refine ⟨?_, ?_⟩
        · rw [calls.window, List.length_drop]
          dsimp only
          omega
        · rw [calls.window]
          exact stacked
      · rw [entries, List.length_append] at stacked
        exact ⟨rfl, stacked⟩
      · rw [staging] at stacked
        cases step with
        | call c => exact absurd rfl (hcall c)
        | stage slot params => exact absurd rfl (hstage slot params)
        | _ => exact stacked

/-- The steps of a plan keep their parameters on a stack that is empty at first. -/
theorem Prototype.stacked_of_plan {p : Prototype} {plan : Plan} (planned : p.plan = .ok plan) :
    Step.Stacked 0 plan.steps := by
  obtain ⟨steps, last, hwalk, hsteps, -⟩ := plan_eq_ok planned
  rw [hsteps]
  exact stacked_walk List.drop_zero hwalk

end CallProtocol
