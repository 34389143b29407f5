import CallProtocol.Plan.Build

/-!
# The walk over a body

`Prototype.Carries p n s` says that the walk over the body of `p` carries `s` after `n`
instructions. A body with a plan has such a state before each of its instructions, and
the plan's step is what `Planning.next` makes of the instruction in that state. So the
facts about a plan are facts about one instruction, carried along the walk.
-/

namespace CallProtocol

theorem bind_eq_ok {ε α β : Type} {x : Except ε α} {f : α → Except ε β} {b : β}
    (h : (x >>= f) = .ok b) : ∃ a, x = .ok a ∧ f a = .ok b := by
  cases x with
  | error e => cases h
  | ok a => exact ⟨a, rfl, h⟩

/-- What the walk over the body carries after `n` instructions. -/
inductive Prototype.Carries (p : Prototype) : Nat → Planning → Prop where
  | start : p.Carries 0 {}
  | next {n : Nat} {s : Planning} {i : Instr} {step : Step} {s' : Planning} (prior : p.Carries n s)
    (instr : p.code[n]? = some i)
    (walked : s.next p n i (p.code.drop (n + 1)) = .ok (step, s')) : p.Carries (n + 1) s'

namespace Prototype

theorem Carries.le_length {p : Prototype} {n : Nat} {s : Planning} (h : p.Carries n s) :
    n ≤ p.code.length := by
  cases h with
  | start => exact Nat.zero_le _
  | next prior instr walked =>
      obtain ⟨hn, -⟩ := List.getElem?_eq_some_iff.1 instr
      exact hn

theorem Carries.unique {p : Prototype} {n : Nat} {s s' : Planning} (h : p.Carries n s)
    (h' : p.Carries n s') : s = s' := by
  induction h generalizing s' with
  | start =>
      cases h'
      rfl
  | next prior instr walked ih =>
      cases h' with
      | next prior' instr' walked' =>
          obtain rfl := ih prior'
          obtain rfl := Option.some.inj (instr.symm.trans instr')
          exact congrArg Prod.snd (Except.ok.inj (walked.symm.trans walked'))

theorem walk_steps {p : Prototype} {code : List Instr} {pc : Nat} {s last : Planning}
    {steps : List (Step × Snapshot)} (hs : p.Carries pc s) (hcode : p.code.drop pc = code)
    (h : Planning.walk p pc s code = .ok (steps, last)) :
    p.Carries p.code.length last ∧ steps.length = code.length ∧
      ∀ k i, code[k]? = some i → ∃ s₁ step s₂, p.Carries (pc + k) s₁ ∧
        s₁.next p (pc + k) i (p.code.drop (pc + k + 1)) = .ok (step, s₂) ∧
        steps[k]? = some (step, s₂.snapshot) := by
  induction code generalizing pc s steps with
  | nil =>
      cases h
      have hpc : pc = p.code.length :=
        Nat.le_antisymm hs.le_length (List.drop_eq_nil_iff.1 hcode)
      exact ⟨hpc ▸ hs, rfl, by simp⟩
  | cons i rest ih =>
      rw [Planning.walk] at h
      obtain ⟨⟨step, s₁⟩, hnext, h⟩ := bind_eq_ok h
      obtain ⟨⟨steps₁, last₁⟩, hwalk, h⟩ := bind_eq_ok h
      cases h
      have hi : p.code[pc]? = some i := by
        rw [← List.head?_drop, hcode]
        rfl
      have hrest : p.code.drop (pc + 1) = rest := by
        rw [← List.tail_drop, hcode]
        rfl
      have hnext' : s.next p pc i (p.code.drop (pc + 1)) = .ok (step, s₁) := by
        rw [hrest]
        exact hnext
      obtain ⟨hlast, hlength, hsteps⟩ := ih (hs.next hi hnext') hrest hwalk
      refine ⟨hlast, by simp [hlength], ?_⟩
      intro k j hj
      cases k with
      | zero =>
          cases hj
          exact ⟨s, step, s₁, hs, hnext', rfl⟩
      | succ k =>
          obtain ⟨s₂, step₂, s₃, hs₂, hstep₂, hget⟩ := hsteps k j hj
          have hadd : pc + 1 + k = pc + (k + 1) := by omega
          rw [hadd] at hs₂ hstep₂
          exact ⟨s₂, step₂, s₃, hs₂, hstep₂, hget⟩

/-- A plan is what the walk over the whole body yields. -/
theorem plan_eq_ok {p : Prototype} {plan : Plan} (h : p.plan = .ok plan) :
    ∃ steps last, Planning.walk p 0 {} p.code = .ok (steps, last) ∧
      plan.steps = steps.map (·.1) ∧ plan.states = steps.map (·.2) ∧
      plan.layout = ⟨p.registers, UInt32.ofNat last.staging.highWater,
        UInt32.ofNat last.mostResults⟩ := by
  rw [Prototype.plan] at h
  obtain ⟨⟨steps, last⟩, hwalk, h⟩ := bind_eq_ok h
  cases h
  exact ⟨steps, last, hwalk, rfl, rfl, rfl⟩

/-- Every instruction of a planned body has a step, which is made in what the walk
carries up to it. -/
theorem plan_step {p : Prototype} {plan : Plan} (h : p.plan = .ok plan) {n : Nat} {i : Instr}
    (hi : p.code[n]? = some i) :
    ∃ s step s', p.Carries n s ∧ s.next p n i (p.code.drop (n + 1)) = .ok (step, s') ∧
      plan.steps[n]? = some step ∧ plan.states[n]? = some s'.snapshot := by
  obtain ⟨steps, last, hwalk, hplan, hstates, -⟩ := plan_eq_ok h
  obtain ⟨-, -, hsteps⟩ := walk_steps .start List.drop_zero hwalk
  obtain ⟨s, step, s', hs, hnext, hget⟩ := hsteps n i hi
  rw [Nat.zero_add] at hs hnext
  exact ⟨s, step, s', hs, hnext, by simp [hplan, hget], by simp [hstates, hget]⟩

theorem length_steps {p : Prototype} {plan : Plan} (h : p.plan = .ok plan) :
    plan.steps.length = p.code.length := by
  obtain ⟨steps, last, hwalk, hplan, -⟩ := plan_eq_ok h
  obtain ⟨-, hlength, -⟩ := walk_steps .start List.drop_zero hwalk
  rw [hplan, List.length_map, hlength]

theorem length_states {p : Prototype} {plan : Plan} (h : p.plan = .ok plan) :
    plan.states.length = p.code.length := by
  obtain ⟨steps, last, -, hsteps, hstates, -⟩ := plan_eq_ok h
  have hlength := length_steps h
  rw [hsteps, List.length_map] at hlength
  rw [hstates, List.length_map, hlength]

/-- The walk over a body that has a plan comes to each of its instructions and to its end. -/
theorem exists_carries {p : Prototype} {plan : Plan} (planned : p.plan = .ok plan) {n : Nat}
    (hn : n ≤ p.code.length) : ∃ s, p.Carries n s := by
  rcases Nat.lt_or_eq_of_le hn with hn | rfl
  · obtain ⟨s, step, s', hs, -⟩ := plan_step planned (List.getElem?_eq_getElem hn)
    exact ⟨s, hs⟩
  · obtain ⟨steps, last, hwalk, -⟩ := plan_eq_ok planned
    exact ⟨last, (walk_steps .start List.drop_zero hwalk).1⟩

theorem step_instr {p : Prototype} {plan : Plan} (h : p.plan = .ok plan) {n : Nat} {step : Step}
    (hstep : plan.steps[n]? = some step) :
    ∃ i s s', p.code[n]? = some i ∧ p.Carries n s ∧
      s.next p n i (p.code.drop (n + 1)) = .ok (step, s') := by
  have hn : n < p.code.length := by
    rw [← length_steps h]
    exact (List.getElem?_eq_some_iff.1 hstep).1
  have hi : p.code[n]? = some p.code[n] := List.getElem?_eq_getElem hn
  obtain ⟨s, step', s', hs, hnext, hget, -⟩ := plan_step h hi
  obtain rfl := Option.some.inj (hstep.symm.trans hget)
  exact ⟨_, s, s', hi, hs, hnext⟩

end Prototype

end CallProtocol
