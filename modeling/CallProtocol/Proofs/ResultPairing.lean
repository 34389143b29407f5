import CallProtocol.Proofs.Plan.LookAhead

/-!
# Results and the calls they belong to

A call looks ahead for its results and puts their descriptors into a queue. The instructions
that receive them come later and take the front of the queue, if its place is theirs. The
queue itself does not know which call a descriptor is from.

It does not have to, because it is empty whenever a call is reached: it only ever holds what
is left of the results of one call, the latest one. So nothing that has been declared is lost,
mixed up or received twice, and over the whole body what the calls declare is what is
received, in the same order.
-/

namespace CallProtocol

def Step.declared : Step → List ResultSpec
  | .call c => c.results
  | _ => []

def Step.received : Step → List ResultSpec
  | .result r => [r]
  | _ => []

namespace Plan

def results (plan : Plan) : List ResultSpec := plan.steps.flatMap Step.received

/-- The results that are expected before the step at `n`. -/
def pendingBefore (plan : Plan) : Nat → List ResultSpec
  | 0 => []
  | n + 1 => (plan.states[n]?.map Snapshot.pending).getD []

def latestCall? (plan : Plan) (n : Nat) : Option CallSite :=
  ((plan.steps.take n).filterMap Step.call?).getLast?

/-- The results of the latest call that no instruction before `n` is the place of. -/
def outstanding (plan : Plan) (n : Nat) : List ResultSpec :=
  ((plan.latestCall? n).elim [] (·.results)).filter (n ≤ ·.pc)

variable {plan : Plan} {n : Nat} {step : Step}

theorem flatMap_results (plan : Plan) :
    plan.calls.flatMap (·.results) = plan.steps.flatMap Step.declared := by
  rw [calls]
  induction plan.steps with
  | nil => rfl
  | cons step steps ih => cases step <;> simp [Step.declared, ih]

theorem latestCall?_call {c : CallSite} (h : plan.steps[n]? = some (.call c)) :
    plan.latestCall? (n + 1) = some c := by
  rw [latestCall?, List.take_add_one, h, Option.toList_some, List.filterMap_append]
  exact List.getLast?_concat

theorem latestCall?_succ (h : plan.steps[n]? = some step) (hcall : step.call? = none) :
    plan.latestCall? (n + 1) = plan.latestCall? n := by
  rw [latestCall?, List.take_add_one, h, Option.toList_some, List.filterMap_append,
    List.filterMap_cons_none hcall, List.filterMap_nil, List.append_nil]
  rfl

/-- A step that is no call leaves of the outstanding results those that come later. -/
theorem outstanding_succ (h : plan.steps[n]? = some step) (hcall : step.call? = none) :
    plan.outstanding (n + 1) = (plan.outstanding n).filter (n + 1 ≤ ·.pc) := by
  rw [outstanding, outstanding, latestCall?_succ h hcall, List.filter_filter]
  refine List.filter_congr fun r _ => ?_
  rw [Bool.eq_iff_iff, Bool.and_eq_true, decide_eq_true_iff, decide_eq_true_iff]
  exact ⟨fun hr => ⟨hr, Nat.le_of_succ_le hr⟩, And.left⟩

end Plan

/-- The results of a call come in the order of the instructions that declare them. -/
theorem Prototype.resultSpecs_getElem? {p : Prototype} {pc count : Nat} {code : List Instr}
    {rs : List ResultSpec} (h : p.resultSpecs pc count code = .ok rs) {k : Nat} {r : ResultSpec}
    (hr : rs[k]? = some r) : r.pc = pc + k ∧ ∃ i, code[k]? = some i ∧ r.DeclaredBy i := by
  refine ⟨pc_resultSpecs h hr, ?_⟩
  induction count generalizing pc code rs k with
  | zero =>
      rw [resultSpecs] at h
      cases h
      cases hr
  | succ count ih =>
      cases code with
      | nil => cases h
      | cons i rest =>
          rw [resultSpecs] at h
          split at h
          · next hop =>
              obtain ⟨r₀, hr₀, h⟩ := bind_eq_ok h
              obtain ⟨rs₁, hrs, h⟩ := bind_eq_ok h
              cases h
              cases k with
              | zero =>
                  cases hr
                  exact ⟨i, rfl, resultSpec_declared hop hr₀⟩
              | succ k => exact ih hrs hr
          · cases h

namespace Planning

variable {p : Prototype} {plan : Plan} {n : Nat} {i : Instr} {s s' : Planning} {step : Step}

/-- The results of a call are appended to the queue. -/
theorem pending_of_call {c : CallSite} {kind : CallKind} {rest : List Instr}
    (h : s.call p n kind i rest = .ok (.call c, s')) :
    p.callResults n kind i rest = .ok c.results ∧ s'.pending = s.pending ++ c.results := by
  rw [call] at h
  obtain ⟨callee, -, h⟩ := bind_eq_ok h
  obtain ⟨⟨window, staging⟩, -, h⟩ := bind_eq_ok h
  obtain ⟨results, hresults, h⟩ := bind_eq_ok h
  cases h
  exact ⟨hresults, rfl⟩

/-- A result is the front of the queue, and it stands at the place that it was declared for. -/
theorem pending_of_result (h : s.result n = .ok (step, s')) :
    ∃ r, step = .result r ∧ r.pc = n ∧ s.pending = r :: s'.pending := by
  rw [result] at h
  split at h
  · next r rs hpending =>
      split at h
      · next hpc =>
          cases h
          exact ⟨r, rfl, hpc, hpending⟩
      · cases h
  · cases h

/-- What a step does to the queue: a call appends its results to it, a result is taken off its
front, and any other step leaves it as it is. -/
theorem pending_cases (h : s.next p n i (p.code.drop (n + 1)) = .ok (step, s')) :
    (∃ c, step = .call c ∧ i.op.callKind? = some c.kind ∧
      p.callResults n c.kind i (p.code.drop (n + 1)) = .ok c.results ∧
      s'.pending = s.pending ++ c.results) ∨
      (∃ r, step = .result r ∧ i.op = .result ∧ r.pc = n ∧ s.pending = r :: s'.pending) ∨
      (i.op ≠ .result ∧ step.call? = none ∧ step.declared = [] ∧ step.received = [] ∧
        s'.pending = s.pending) := by
  cases hkind : i.op.callKind? with
  | some kind =>
      rw [next_eq_call hkind] at h
      obtain ⟨c, rfl, rfl, -⟩ := call_eq_ok h
      exact .inl ⟨c, rfl, rfl, pending_of_call h⟩
  | none =>
      rw [next] at h
      cases hop : i.op with
      | call | callk | tail | tailk =>
          rw [hop] at hkind
          cases hkind
      | result =>
          rw [hop] at h
          obtain ⟨r, hstep, hpc, hpending⟩ := pending_of_result h
          exact .inr (.inl ⟨r, hstep, rfl, hpc, hpending⟩)
      | param =>
          rw [hop] at h
          obtain ⟨t, -, h⟩ := bind_eq_ok h
          obtain ⟨sources, -, h⟩ := bind_eq_ok h
          cases h
          exact .inr (.inr ⟨by decide, rfl, rfl, rfl, rfl⟩)
      | parami | reti =>
          rw [hop] at h
          cases h
          exact .inr (.inr ⟨by decide, rfl, rfl, rfl, rfl⟩)
      | _ =>
          rw [hop] at h
          obtain ⟨x, -, h⟩ := bind_eq_ok h
          cases h
          exact .inr (.inr ⟨by decide, rfl, rfl, rfl, rfl⟩)

/-- The queue holds what the latest call still expects, and what has been declared has been
received or is in the queue. -/
structure Awaits (s : Planning) (p : Prototype) (plan : Plan) (n : Nat) : Prop where
  outstanding : s.pending = plan.outstanding n
  conserved : (plan.steps.take n).flatMap Step.declared =
    (plan.steps.take n).flatMap Step.received ++ s.pending
  declared : ∀ r ∈ s.pending, ∃ i, p.code[r.pc]? = some i ∧ r.DeclaredBy i

theorem awaits_start : Awaits {} p plan 0 where
  outstanding := rfl
  conserved := rfl
  declared := by simp

/-- The results of a call are declared by the instructions behind it. -/
theorem declared_of_callResults {kind : CallKind} {rs : List ResultSpec}
    (h : p.callResults n kind i (p.code.drop (n + 1)) = .ok rs) {k : Nat} {r : ResultSpec}
    (hr : rs[k]? = some r) :
    r.pc = n + 1 + k ∧ ∃ i, p.code[r.pc]? = some i ∧ r.DeclaredBy i := by
  cases kind with
  | tail =>
      cases h
      cases hr
  | call =>
      obtain ⟨hpc, j, hj, hdeclared⟩ := Prototype.resultSpecs_getElem? h hr
      rw [List.getElem?_drop] at hj
      exact ⟨hpc, j, hpc ▸ hj, hdeclared⟩

theorem Awaits.next (h : s.Awaits p plan n) (planned : p.plan = .ok plan) (hs : p.Carries n s)
    (hi : p.code[n]? = some i) (walked : s.next p n i (p.code.drop (n + 1)) = .ok (step, s')) :
    s'.Awaits p plan (n + 1) := by
  obtain ⟨hstep, -⟩ := hs.planned planned hi walked
  have fits := Fits.of_carries hs
  have conserved : ∀ {left}, s.pending ++ step.declared = step.received ++ left →
      (plan.steps.take (n + 1)).flatMap Step.declared =
        (plan.steps.take (n + 1)).flatMap Step.received ++ left := by
    intro left hleft
    rw [List.take_add_one, hstep, Option.toList_some, List.flatMap_append, List.flatMap_append,
      List.flatMap_singleton, List.flatMap_singleton, h.conserved, List.append_assoc, hleft,
      List.append_assoc]
  rcases pending_cases walked with ⟨c, rfl, hop, hresults, hpending⟩ |
    ⟨r, rfl, hop, hpc, hpending⟩ | ⟨hop, hcall, hdeclared, hreceived, hpending⟩
  · -- nothing is expected before a call, so the queue holds just its results
    have hempty := fits.pending_eq_nil hi fun heq => by simp [heq, Opcode.callKind?] at hop
    rw [hempty, List.nil_append] at hpending
    refine ⟨?_, conserved ?_, ?_⟩
    · rw [Plan.outstanding, Plan.latestCall?_call hstep, hpending, eq_comm, Option.elim_some,
        List.filter_eq_self]
      intro r hr
      obtain ⟨k, hk⟩ := List.mem_iff_getElem?.1 hr
      rw [(declared_of_callResults hresults hk).1]
      exact decide_eq_true (Nat.le_add_right _ _)
    · rw [hempty, hpending]
      rfl
    · intro r hr
      obtain ⟨k, hk⟩ := List.mem_iff_getElem?.1 (hpending ▸ hr)
      exact (declared_of_callResults hresults hk).2
  · -- the place of this result has been passed, those of the others lie ahead
    refine ⟨?_, conserved ?_, fun r' hr' => h.declared r' (by rw [hpending]; exact .tail _ hr')⟩
    · have passed : decide (n + 1 ≤ r.pc) = false := by simp [hpc]
      rw [Plan.outstanding_succ hstep rfl, ← h.outstanding, hpending, List.filter_cons, passed,
        if_neg Bool.false_ne_true, eq_comm, List.filter_eq_self]
      intro r' hr'
      obtain ⟨k, hk⟩ := List.mem_iff_getElem?.1 hr'
      rw [((fits.next hi walked).queued k r' hk).1]
      exact decide_eq_true (Nat.le_add_right _ _)
    · rw [hpending]
      exact List.append_nil _
  · have hempty := fits.pending_eq_nil hi hop
    rw [hempty] at hpending
    refine ⟨?_, conserved ?_, by simp [hpending]⟩
    · rw [Plan.outstanding_succ hstep hcall, ← h.outstanding, hempty, hpending]
      rfl
    · rw [hempty, hdeclared, hreceived, hpending]

theorem Awaits.of_carries (planned : p.plan = .ok plan) (h : p.Carries n s) :
    s.Awaits p plan n := by
  induction h with
  | start => exact awaits_start
  | next prior instr walked ih => exact ih.next planned prior instr walked

end Planning

namespace Prototype

variable {p : Prototype} {plan : Plan} {n : Nat} {s : Planning}

theorem Carries.pendingBefore (planned : p.plan = .ok plan) (hs : p.Carries n s) :
    plan.pendingBefore n = s.pending := by
  cases hs with
  | start => rfl
  | next prior instr walked =>
      obtain ⟨-, hstate⟩ := prior.planned planned instr walked
      rw [Plan.pendingBefore, hstate]
      rfl

/-- At the end of the body no result is expected. -/
theorem Carries.pending_eq_nil (hs : p.Carries p.code.length s) : s.pending = [] := by
  cases hpending : s.pending with
  | nil => rfl
  | cons r rs =>
      obtain ⟨-, j, hj, -⟩ := (Planning.Fits.of_carries hs).queued 0 r (by rw [hpending]; rfl)
      simp at hj

/-- What the calls declare is what is received. -/
theorem flatMap_results_eq (planned : p.plan = .ok plan) :
    plan.calls.flatMap (·.results) = plan.results := by
  obtain ⟨last, hlast⟩ := exists_carries planned (Nat.le_refl _)
  have conserved := (Planning.Awaits.of_carries planned hlast).conserved
  rw [hlast.pending_eq_nil, List.append_nil, ← length_steps planned, List.take_length] at conserved
  rw [Plan.flatMap_results, conserved]
  rfl

theorem declaredBy_of_step (planned : p.plan = .ok plan) {r : ResultSpec}
    (hstep : plan.steps[n]? = some (.result r)) :
    r.pc = n ∧ ∃ i, p.code[n]? = some i ∧ r.DeclaredBy i := by
  obtain ⟨i, s, s', hi, carries, walked⟩ := step_instr planned hstep
  have awaits := Planning.Awaits.of_carries planned carries
  rcases Planning.pending_cases walked with ⟨c, heq, -⟩ | ⟨r', heq, -, hpc, hpending⟩ |
    ⟨-, -, -, hreceived, -⟩
  · cases heq
  · cases heq
    exact ⟨hpc, hpc ▸ awaits.declared r (by rw [hpending]; exact List.mem_cons_self)⟩
  · cases hreceived

theorem exists_result_step (planned : p.plan = .ok plan) {i : Instr} (hi : p.code[n]? = some i)
    (hop : i.op = .result) : ∃ r, plan.steps[n]? = some (.result r) := by
  obtain ⟨s, step, s', carries, walked, hstep, -⟩ := plan_step planned hi
  rcases Planning.pending_cases walked with ⟨c, -, hkind, -⟩ | ⟨r, rfl, -⟩ | ⟨hne, -⟩
  · simp [hop, Opcode.callKind?] at hkind
  · exact ⟨r, hstep⟩
  · exact absurd hop hne

/-- The results of a call are received right behind it, as many as its instruction says. -/
theorem results_of_call_step (planned : p.plan = .ok plan) {c : CallSite}
    (hstep : plan.steps[n]? = some (.call c)) :
    c.results.map (·.pc) = List.range' (n + 1) c.results.length ∧
      ∃ i, p.code[n]? = some i ∧ i.op.callKind? = some c.kind ∧ c.results.length = i.declared := by
  obtain ⟨i, s, s', hi, carries, walked⟩ := step_instr planned hstep
  rcases Planning.pending_cases walked with ⟨c', heq, hkind, hresults, -⟩ | ⟨r, heq, -⟩ |
    ⟨-, hcall, -⟩
  · cases heq
    refine ⟨List.ext_getElem (by simp) fun k hk _ => ?_, i, hi, hkind,
      Planning.length_results_of_next walked⟩
    rw [List.length_map] at hk
    have hpc := (Planning.declared_of_callResults hresults (List.getElem?_eq_getElem hk)).1
    rw [List.getElem_map, List.getElem_range', hpc, Nat.one_mul]
  · cases heq
  · cases hcall

end Prototype

/-- Results and calls pair off. What the calls of a plan declare, one call after the other, are
the results that are received, in the order in which they are. Each of them has the place, the
type and the register of the instruction that receives it, and each such instruction receives
one. A call has as many results as its instruction says, and the instructions right behind it
receive them; a tail call has none.

After each instruction the pending results are those of the latest call whose instructions are
still to come. There are none where the next instruction receives no result, and none at the
end. -/
theorem results_paired_with_calls {p : Prototype} {plan : Plan} (planned : p.plan = .ok plan) :
    plan.calls.flatMap (·.results) = plan.results ∧
      (∀ (n : Nat) (r : ResultSpec), plan.steps[n]? = some (.result r) →
        r.pc = n ∧ ∃ i, p.code[n]? = some i ∧ r.DeclaredBy i) ∧
      (∀ (n : Nat) (i : Instr), p.code[n]? = some i → i.op = .result →
        ∃ r, plan.steps[n]? = some (.result r)) ∧
      (∀ (n : Nat) (c : CallSite), plan.steps[n]? = some (.call c) →
        c.results.map (·.pc) = List.range' (n + 1) c.results.length ∧
          ∃ i, p.code[n]? = some i ∧ i.op.callKind? = some c.kind ∧
            c.results.length = match c.kind with
              | .call => i.c.toNat
              | .tail => 0) ∧
      (∀ n ≤ p.code.length, plan.pendingBefore n = plan.outstanding n) ∧
      (∀ (n : Nat) (i : Instr), p.code[n]? = some i → i.op ≠ .result →
        plan.pendingBefore n = []) ∧
      plan.pendingBefore p.code.length = [] := by
  refine ⟨Prototype.flatMap_results_eq planned, fun n r => Prototype.declaredBy_of_step planned,
    fun n i => Prototype.exists_result_step planned, ?_, ?_, ?_, ?_⟩
  · intro n c hstep
    obtain ⟨places, i, hi, hkind, hlength⟩ := Prototype.results_of_call_step planned hstep
    refine ⟨places, i, hi, hkind, ?_⟩
    rw [hlength, Instr.declared, hkind]
    cases c.kind <;> rfl
  · intro n hn
    obtain ⟨s, hs⟩ := Prototype.exists_carries planned hn
    rw [hs.pendingBefore planned, (Planning.Awaits.of_carries planned hs).outstanding]
  · intro n i hi hop
    obtain ⟨s, hs⟩ := Prototype.exists_carries planned
      (Nat.le_of_lt (List.getElem?_eq_some_iff.1 hi).1)
    rw [hs.pendingBefore planned]
    exact (Planning.Fits.of_carries hs).pending_eq_nil hi hop
  · obtain ⟨last, hlast⟩ := Prototype.exists_carries planned (Nat.le_refl _)
    rw [hlast.pendingBefore planned]
    exact hlast.pending_eq_nil

def callTwiceThenTail : Prototype where
  code := [.callConst 0 0 2, .result (.of .int) 0, .result ⟨.of .float, .pair⟩ 1,
    .callConst 0 0 1, .result (.of .string) 0, .tailConst 0 0]
  constants := { pointers := [.function (.script 0)] }
  registers := { ints := 1, floats := 3, strings := 1 }

def callTwiceThenTailPlan : Plan where
  steps := [.call ⟨0, .call, .static 0 false, ⟨0, []⟩,
      [⟨1, .of .int, .int, 0⟩, ⟨2, ⟨.of .float, .pair⟩, .float, 1⟩]⟩,
    .result ⟨1, .of .int, .int, 0⟩, .result ⟨2, ⟨.of .float, .pair⟩, .float, 1⟩,
    .call ⟨3, .call, .static 0 false, ⟨0, []⟩, [⟨4, .of .string, .string, 0⟩]⟩,
    .result ⟨4, .of .string, .string, 0⟩, .call ⟨5, .tail, .static 0 false, ⟨0, []⟩, []⟩]
  layout := { registers := { ints := 1, floats := 3, strings := 1 }, returns := 2 }
  states := [⟨[], [⟨1, .of .int, .int, 0⟩, ⟨2, ⟨.of .float, .pair⟩, .float, 1⟩]⟩,
    ⟨[], [⟨2, ⟨.of .float, .pair⟩, .float, 1⟩]⟩, ⟨[], []⟩, ⟨[], [⟨4, .of .string, .string, 0⟩]⟩,
    ⟨[], []⟩, ⟨[], []⟩]

theorem callTwiceThenTail_plan : callTwiceThenTail.plan = .ok callTwiceThenTailPlan := rfl

/-- Behind the first result, the second one of the same call is expected. Nothing is left of it
when the second call is reached. -/
theorem results_paired_with_calls_callTwiceThenTail :
    callTwiceThenTailPlan.calls.flatMap (·.results) = callTwiceThenTailPlan.results ∧
      callTwiceThenTailPlan.outstanding 2 = [⟨2, ⟨.of .float, .pair⟩, .float, 1⟩] ∧
      callTwiceThenTailPlan.pendingBefore 2 = callTwiceThenTailPlan.outstanding 2 ∧
      callTwiceThenTailPlan.pendingBefore 3 = [] := by
  obtain ⟨paired, -, -, -, outstanding, settled, -⟩ :=
    results_paired_with_calls callTwiceThenTail_plan
  exact ⟨paired, rfl, outstanding 2 (by decide), settled 3 _ rfl (by decide)⟩

end CallProtocol
