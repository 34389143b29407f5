import CallProtocol.Proofs.Plan.LookAhead

/-!
# The first offence

Faults are found in two ways. Most are found where the walk stands, but the results of a
call are looked up ahead. So it is not plain that the fault that is reported is the first
one, and that nothing behind the place it is blamed on has a part in it.

The argument is one about the queue of results. Where the walk stops no result is expected,
so no earlier call has looked as far as there, and the walk over any other body that agrees
up to that place comes to the same point with the same state. What is left is the fault of
one instruction.
-/

namespace CallProtocol

namespace Prototype

variable {p : Prototype} {plan plan' : Plan} {e : PlanError}

/-! ## Bodies that fail -/

/-- What is known of the place where a fault is found: the walk comes to it, and no call
before it expects a result there. -/
structure StopsAt (p : Prototype) (e : PlanError) (n : Nat) (s : Planning) (i : Instr) : Prop where
  carries : p.Carries n s
  instr : p.code[n]? = some i
  fault : s.next p n i (p.code.drop (n + 1)) = .error e
  whole : p.WholeCalls n

theorem exists_stopsAt (failed : p.plan = .error e) : ∃ n s i, p.StopsAt e n s i := by
  obtain ⟨n, s, i, carries, instr, fault⟩ := plan_eq_error failed
  have fits := Planning.Fits.of_carries carries
  refine ⟨n, s, i, carries, instr, fault, fun m count hcalls hm => ?_⟩
  have covers := fits.covers m count hcalls hm
  rwa [fits.pending_of_error instr fault] at covers

theorem StopsAt.plan_withCode {n k : Nat} {s : Planning} {i : Instr} (stops : p.StopsAt e n s i)
    {code : List Instr} (same : code.take k = p.code.take k) (hn : n < k) {e' : PlanError}
    (fault : s.next p n i (code.drop (n + 1)) = .error e') :
    (p.withCode code).plan = .error e' := by
  have carries : (p.withCode code).Carries n s :=
    stops.carries.withCode same (Nat.le_of_lt hn) fun m i hi hm =>
      Nat.lt_trans (stops.whole.declared hi hm) hn
  have instr : code[n]? = some i := by
    rw [← List.getElem?_take_of_lt hn, same, List.getElem?_take_of_lt hn]
    exact stops.instr
  refine carries.plan_error instr ?_
  rw [Planning.next_withCode]
  exact fault

/-- The blame falls on the first instruction that does not go on from those before it, or
on the end of the code. -/
theorem plan_error_blame (failed : p.plan = .error e) :
    e.pc ≤ p.code.length ∧
      ((∃ plan, (p.withCode (p.code.take e.pc)).plan = .ok plan) ∨
        (p.withCode (p.code.take e.pc)).plan = .error ⟨e.pc, .resultMustFollowCall⟩ ∧
          ∃ m count, p.CallsAt m count ∧ m < e.pc ∧ e.pc ≤ m + count) ∧
      (e.pc < p.code.length → ∀ code, p.code.take (e.pc + 1) <+: code →
        (p.withCode code).plan = .error e) := by
  obtain ⟨n, s, i, stops⟩ := exists_stopsAt failed
  have hn : n < p.code.length := (List.getElem?_eq_some_iff.1 stops.instr).1
  have agree : e.pc < p.code.length → ∀ code, p.code.take (e.pc + 1) <+: code →
      code.take (e.pc + 1) = p.code.take (e.pc + 1) := by
    rintro hlt code hprefix
    have htake := List.prefix_iff_eq_take.1 hprefix
    rw [List.length_take, Nat.min_eq_left hlt] at htake
    exact htake.symm
  rcases Planning.next_error stops.fault with ⟨hpc, hall⟩ |
    ⟨k, hcount, hop, hk, hpc, hcut, hsame⟩
  · -- The fault is in the instruction itself, so the body without it has a plan.
    refine ⟨by omega, .inl ?_, fun hlt code hprefix => ?_⟩
    · have carries : (p.withCode (p.code.take n)).Carries n s :=
        stops.carries.withCode (by rw [List.take_take, Nat.min_self]) (Nat.le_refl n)
          fun m i hi hm => stops.whole.declared hi hm
      have length : (p.withCode (p.code.take n)).code.length = n := by
        rw [withCode, List.length_take, Nat.min_eq_left (Nat.le_of_lt hn)]
      rw [hpc]
      exact Carries.plan_ok (s := s) (by rwa [length])
    · exact stops.plan_withCode (agree hlt code hprefix) (by omega) (hall _)
  · -- The fault is in a result of the call, and the code up to it lacks this result.
    have calls : p.CallsAt n i.c.toNat := ⟨i, stops.instr, hop, rfl⟩
    rw [List.length_drop] at hk hsame
    refine ⟨by omega, .inr ⟨?_, n, _, calls, by omega, by omega⟩, fun hlt code hprefix => ?_⟩
    · have cut : (p.code.take e.pc).drop (n + 1) = (p.code.drop (n + 1)).take k := by
        rw [List.drop_take, hpc, Nat.add_sub_cancel_left]
      rw [hpc] at cut ⊢
      exact stops.plan_withCode (k := n + 1 + k) (by rw [List.take_take, Nat.min_self]) (by omega)
        (by rw [cut, hcut])
    · have same := agree hlt code hprefix
      have behind : (code.drop (n + 1)).take (k + 1) = (p.code.drop (n + 1)).take (k + 1) := by
        have cut : ∀ xs : List Instr,
            (xs.drop (n + 1)).take (k + 1) = (xs.take (e.pc + 1)).drop (n + 1) := by
          intro xs
          rw [List.drop_take, hpc, show n + 1 + k + 1 - (n + 1) = k + 1 by omega]
        rw [cut, same, ← cut]
      exact stops.plan_withCode same (by omega) (hsame (by omega) _ behind)

/-! ## Bodies that have a plan -/

section

variable {n : Nat}

/-- The walk over the first instructions carries what the walk over the whole body does. -/
theorem carries_take (whole : p.WholeCalls n) {k : Nat} {s : Planning} (h : p.Carries k s)
    (hk : k ≤ n) : (p.withCode (p.code.take n)).Carries k s :=
  h.withCode (by rw [List.take_take, Nat.min_self]) hk fun m i hi hm =>
    whole.declared hi (Nat.lt_of_lt_of_le hm hk)

theorem length_take (hn : n ≤ p.code.length) : (p.withCode (p.code.take n)).code.length = n := by
  rw [withCode, List.length_take, Nat.min_eq_left hn]

/-- The first instructions have a plan if no call is cut from its results. -/
theorem exists_plan_take (planned : p.plan = .ok plan) (hn : n ≤ p.code.length)
    (whole : p.WholeCalls n) : ∃ plan', (p.withCode (p.code.take n)).plan = .ok plan' := by
  obtain ⟨s, hs⟩ := exists_carries planned hn
  have carries := carries_take whole hs (Nat.le_refl n)
  exact Carries.plan_ok (s := s) (by rwa [length_take hn])

/-- The steps and the snapshots of the first instructions are those of the whole body. -/
theorem plan_step_take (planned : p.plan = .ok plan) (hn : n ≤ p.code.length)
    (whole : p.WholeCalls n) (planned' : (p.withCode (p.code.take n)).plan = .ok plan') :
    plan'.steps = plan.steps.take n ∧ plan'.states = plan.states.take n := by
  have same : ∀ k < n, plan'.steps[k]? = plan.steps[k]? ∧ plan'.states[k]? = plan.states[k]? := by
    intro k hk
    obtain ⟨i, hi⟩ : ∃ i, p.code[k]? = some i :=
      ⟨_, List.getElem?_eq_getElem (Nat.lt_of_lt_of_le hk hn)⟩
    have hi' : (p.withCode (p.code.take n)).code[k]? = some i :=
      (List.getElem?_take_of_lt hk).trans hi
    obtain ⟨s, step, s', hs, hnext, hstep, hstate⟩ := plan_step planned hi
    obtain ⟨s₁, step', s₂, hs₁, hnext', hstep', hstate'⟩ := plan_step planned' hi'
    -- Both walks carry the same up to the instruction, so they plan it alike.
    obtain rfl := (carries_take whole hs (Nat.le_of_lt hk)).unique hs₁
    have looked := Planning.next_withCode_of_take (s := s)
      (show (p.code.take n).take n = p.code.take n by rw [List.take_take, Nat.min_self])
      (whole.declared hi hk)
    have heq := hnext'.symm.trans (looked.trans hnext)
    obtain ⟨rfl, rfl⟩ := Prod.mk.inj (Except.ok.inj heq)
    exact ⟨hstep'.trans hstep.symm, hstate'.trans hstate.symm⟩
  have ext : ∀ {α : Type} {xs ys : List α}, ys.length = n → (∀ k < n, ys[k]? = xs[k]?) →
      ys = xs.take n := by
    intro α xs ys length get
    refine List.ext_getElem? fun k => ?_
    rcases Nat.lt_or_ge k n with hk | hk
    · rw [get k hk, List.getElem?_take_of_lt hk]
    · rw [List.getElem?_eq_none (length ▸ hk), List.getElem?_take_eq_none hk]
  constructor
  · exact ext ((length_steps planned').trans (length_take hn)) fun k hk => (same k hk).1
  · exact ext ((length_states planned').trans (length_take hn)) fun k hk => (same k hk).2

/-- What the walk over the first instructions has kept is no greater than what the walk over
the whole body keeps. -/
theorem peaks_take (planned : p.plan = .ok plan) (hn : n ≤ p.code.length)
    (whole : p.WholeCalls n) (planned' : (p.withCode (p.code.take n)).plan = .ok plan')
    {s last : Planning} (hs : (p.withCode (p.code.take n)).Carries n s)
    (hlast : p.Carries p.code.length last) :
    s.staging.highWater ≤ last.staging.highWater ∧ s.mostResults ≤ last.mostResults := by
  have peaks := Planning.Peaks.of_carries planned' hs
  have all := Planning.Peaks.of_carries planned hlast
  constructor
  · obtain ⟨m, hm, hpeak⟩ := peaks.attained
    have before : plan'.stagedBefore m = plan.stagedBefore m := by
      cases m with
      | zero => rfl
      | succ m =>
          rw [Plan.stagedBefore, Plan.stagedBefore, (plan_step_take planned hn whole planned').2,
            List.getElem?_take_of_lt hm]
    rw [← hpeak, before]
    exact all.highest m (Nat.le_trans hm hn)
  · rcases peaks.declared with hnone | ⟨m, hm, i, hi, hop, hcount⟩
    · rw [hnone]
      exact Nat.zero_le _
    · have hi : (p.code.take n)[m]? = some i := hi
      rw [List.getElem?_take_of_lt hm] at hi
      exact all.most m _ ⟨i, hi, hop, hcount⟩ (Nat.lt_of_lt_of_le hm hn)

end

/-- The layout of the first instructions is that of the whole body with smaller
capacities. -/
theorem layout_take {n : Nat} (planned : p.plan = .ok plan) (hn : n ≤ p.code.length)
    (whole : p.WholeCalls n) (planned' : (p.withCode (p.code.take n)).plan = .ok plan') :
    plan'.layout.registers = plan.layout.registers ∧
      plan'.layout.returns ≤ plan.layout.returns ∧
      (plan.Countable → plan'.layout.params ≤ plan.layout.params) := by
  obtain ⟨last, hlast⟩ := exists_carries planned (Nat.le_refl _)
  obtain ⟨s, hs⟩ := exists_carries planned' (Nat.le_refl _)
  have peaks := Planning.Peaks.of_carries planned hlast
  have few := peaks.few
  have layout := layout_eq planned hlast
  have layout' := layout_eq planned' hs
  rw [length_take hn] at hs
  obtain ⟨staged, results⟩ := peaks_take planned hn whole planned' hs hlast
  have ofNat_le : ∀ {a b : Nat}, a ≤ b → b < Nat.pow 2 32 → UInt32.ofNat a ≤ UInt32.ofNat b := by
    intro a b hab hb
    rw [UInt32.le_iff_toNat_le, UInt32.toNat_ofNat_of_lt' (Nat.lt_of_le_of_lt hab hb),
      UInt32.toNat_ofNat_of_lt' hb]
    exact hab
  rw [layout, layout']
  exact ⟨rfl, ofNat_le results (Nat.lt_of_le_of_lt few (by decide)), fun countable =>
    ofNat_le staged (peaks.highWater_lt countable)⟩

end Prototype

/-- The planner blames the first offence, and what it decides on a part of a body does not
depend on the rest of it.

If a body has no plan, then the blame falls on one of its instructions or on its end. The
instructions before that place have a plan, unless they end within the results of a call,
which they are then said to lack. Every body that agrees with the first one up to that place
and on the instruction there fails with the same error.

If a body has a plan, then so has any number of its first instructions that does not cut a
call from its results. The steps and the snapshots are the first ones of the whole plan. The
registers are the same and the capacities no larger, as long as the parameters that the
whole body stages at once can be counted in the 32 bits of a capacity. -/
theorem plan_blames_first_offence (p : Prototype) :
    (∀ e, p.plan = .error e →
      e.pc ≤ p.code.length ∧
        ((∃ plan, (p.withCode (p.code.take e.pc)).plan = .ok plan) ∨
          (p.withCode (p.code.take e.pc)).plan = .error ⟨e.pc, .resultMustFollowCall⟩ ∧
            ∃ m count, p.CallsAt m count ∧ m < e.pc ∧ e.pc ≤ m + count) ∧
        (e.pc < p.code.length → ∀ code, p.code.take (e.pc + 1) <+: code →
          (p.withCode code).plan = .error e)) ∧
      ∀ plan, p.plan = .ok plan → ∀ n ≤ p.code.length,
        (∀ m count, p.CallsAt m count → m < n → m + count < n) →
          ∃ plan', (p.withCode (p.code.take n)).plan = .ok plan' ∧
            plan'.steps = plan.steps.take n ∧ plan'.states = plan.states.take n ∧
            plan'.layout.registers = plan.layout.registers ∧
            plan'.layout.returns ≤ plan.layout.returns ∧
            (plan.Countable → plan'.layout.params ≤ plan.layout.params) := by
  refine ⟨fun e failed => Prototype.plan_error_blame failed, ?_⟩
  intro plan planned n hn whole
  obtain ⟨plan', planned'⟩ := Prototype.exists_plan_take planned hn whole
  obtain ⟨steps, states⟩ := Prototype.plan_step_take planned hn whole planned'
  exact ⟨plan', planned', steps, states, Prototype.layout_take planned hn whole planned'⟩

def lacksResult : Prototype where
  registers := { ints := 1 }
  code := [.callConst 0 0 2, .result (.of .int) 0, .retImm 0 true 7]
  constants := { pointers := [.function (.script 0)] }

/-- The call is well formed where it stands, and the blame is on what stands in the place of
its second result. A stray result behind that is not seen. A body with a plan has one up to
its call. -/
theorem plan_blames_first_offence_lacksResult :
    (lacksResult.plan = .error ⟨2, .resultMustFollowCall⟩ ∧
        (lacksResult.withCode
            [.callConst 0 0 2, .result (.of .int) 0, .retImm 0 true 7, .result (.of .int) 9]).plan =
          .error ⟨2, .resultMustFollowCall⟩) ∧
      ∃ plan', (callFirst.withCode (callFirst.code.take 1)).plan = .ok plan' ∧
        plan'.steps = callFirstPlan.steps.take 1 := by
  have failed : lacksResult.plan = .error ⟨2, .resultMustFollowCall⟩ := rfl
  refine ⟨⟨failed, ?_⟩, ?_⟩
  · obtain ⟨-, -, agrees⟩ := (plan_blames_first_offence lacksResult).1 _ failed
    exact agrees (by decide) _ (List.prefix_append lacksResult.code [.result (.of .int) 9])
  · have whole : ∀ m count, callFirst.CallsAt m count → m < 1 → m + count < 1 := by
      rintro m count ⟨i, hi, -, rfl⟩ hm
      obtain rfl : m = 0 := Nat.lt_one_iff.1 hm
      cases hi
      decide
    obtain ⟨plan', planned', steps, -⟩ :=
      (plan_blames_first_offence callFirst).2 _ callFirst_plan 1 (by decide) whole
    exact ⟨plan', planned', steps⟩

end CallProtocol
