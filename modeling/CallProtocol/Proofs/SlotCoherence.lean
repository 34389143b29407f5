import CallProtocol.Proofs.Plan.WellFormed

/-!
# Slots and the entries of a call

Calls give the slots of the outgoing parameter array back, and later steps use them again.
So a slot is written several times in a body, by steps that may stand far apart with whole
calls between them. What a call finds in a slot is what the last of them wrote.

A staged entry knows the instruction that staged it, and its place in the buffer is its
slot. The invariant is that at each point of the walk the entry at a place was written
there by its own step and not overwritten since: a step that stages writes behind all
entries, and a call takes entries off the end.
-/

namespace CallProtocol

def Step.writes? (step : Step) (slot : Nat) : Option Staged :=
  match step with
  | .stage start params => if start ≤ slot then params[slot - start]? else none
  | _ => none

def Step.staged : Step → List Staged
  | .stage _ params => params
  | _ => []

def Step.consumed : Step → List Staged
  | .call c => c.window.params
  | _ => []

namespace Plan

/-- Of the steps before `n` that write the slot, the one at `m` is the last, and it writes
the entry. -/
structure LastWrite (plan : Plan) (n slot m : Nat) (entry : Staged) : Prop where
  before : m < n
  writes : ∃ step, plan.steps[m]? = some step ∧ step.writes? slot = some entry
  last : ∀ k step, m < k → k < n → plan.steps[k]? = some step → step.writes? slot = none

/-- The entries that wait for their call before the step at `n`. -/
def stagedBefore (plan : Plan) : Nat → List Staged
  | 0 => []
  | n + 1 => (plan.states[n]?.map Snapshot.staged).getD []

theorem LastWrite.succ {plan : Plan} {n slot m : Nat} {entry : Staged} {step : Step}
    (h : plan.LastWrite n slot m entry) (hstep : plan.steps[n]? = some step)
    (hwrites : step.writes? slot = none) : plan.LastWrite (n + 1) slot m entry where
  before := Nat.lt_succ_of_lt h.before
  writes := h.writes
  last := by
    intro k step' hm hk hstep'
    rcases Nat.lt_succ_iff_lt_or_eq.1 hk with hk | rfl
    · exact h.last k step' hm hk hstep'
    · obtain rfl := Option.some.inj (hstep.symm.trans hstep')
      exact hwrites

theorem lastWrite_self {plan : Plan} {n slot : Nat} {entry : Staged} {step : Step}
    (hstep : plan.steps[n]? = some step) (hwrites : step.writes? slot = some entry) :
    plan.LastWrite (n + 1) slot n entry where
  before := Nat.lt_succ_self n
  writes := ⟨step, hstep, hwrites⟩
  last := fun _ _ hm hk _ => absurd hm (Nat.not_lt.2 (Nat.le_of_lt_succ hk))

theorem flatMap_calls (plan : Plan) :
    plan.calls.flatMap (·.window.params) = plan.steps.flatMap Step.consumed := by
  rw [calls]
  induction plan.steps with
  | nil => rfl
  | cons step steps ih =>
      cases step <;> simp [Step.consumed, ih]

end Plan

namespace Planning

variable {p : Prototype} {n : Nat} {s s' : Planning} {i : Instr} {c : CallSite}

theorem pc_of_call {kind : CallKind} {rest : List Instr}
    (h : s.call p n kind i rest = .ok (.call c, s')) : c.pc = n := by
  rw [call] at h
  obtain ⟨callee, -, h⟩ := bind_eq_ok h
  obtain ⟨⟨window, staging⟩, -, h⟩ := bind_eq_ok h
  obtain ⟨results, -, h⟩ := bind_eq_ok h
  cases h
  rfl

theorem pc_of_next (h : s.next p n i (p.code.drop (n + 1)) = .ok (.call c, s')) : c.pc = n := by
  obtain ⟨hkind, -⟩ := calls_of_next h
  rw [next] at h
  cases hop : i.op with
  | call | callk | tail | tailk =>
      rw [hop] at h
      exact pc_of_call h
  | _ => simp [hop, Opcode.callKind?] at hkind

end Planning

namespace Prototype

variable {p : Prototype} {plan : Plan} {n : Nat} {s s' : Planning} {i : Instr} {step : Step}

theorem Carries.planned (hplan : p.plan = .ok plan) (hs : p.Carries n s)
    (hi : p.code[n]? = some i) (h : s.next p n i (p.code.drop (n + 1)) = .ok (step, s')) :
    plan.steps[n]? = some step ∧ plan.states[n]? = some s'.snapshot := by
  obtain ⟨s₁, step₁, s₁', hs₁, h₁, hstep, hstate⟩ := plan_step hplan hi
  obtain rfl := hs.unique hs₁
  cases h.symm.trans h₁
  exact ⟨hstep, hstate⟩

theorem Carries.stagedBefore (hplan : p.plan = .ok plan) (hs : p.Carries n s) :
    plan.stagedBefore n = s.staging.entries := by
  cases hs with
  | start => rfl
  | next prior instr walked =>
      obtain ⟨-, hstate⟩ := prior.planned hplan instr walked
      rw [Plan.stagedBefore, hstate]
      rfl

/-- The entry at each place of the buffer is what was last written to the slot. -/
theorem Carries.lastWrite (hplan : p.plan = .ok plan) (hs : p.Carries n s) :
    ∀ slot entry, s.staging.entries[slot]? = some entry →
      plan.LastWrite n slot entry.pc entry := by
  induction hs with
  | start => simp
  | @next n s i step s' prior instr walked ih =>
      obtain ⟨hstep, -⟩ := prior.planned hplan instr walked
      intro slot entry hentry
      rcases Planning.next_cases walked with ⟨kind, c, -, rfl, -, calls⟩ |
        ⟨sources, -, -, -, rfl, hentries⟩ | ⟨-, -, hstaging, -, hstage⟩
      · rw [calls.entries, List.getElem?_take] at hentry
        split at hentry
        · exact (ih slot entry hentry).succ hstep rfl
        · cases hentry
      · rw [hentries, List.getElem?_append] at hentry
        split at hentry
        · next hslot => exact (ih slot entry hentry).succ hstep (if_neg (Nat.not_le.2 hslot))
        · next hslot =>
            -- an entry that is staged here carries this place
            have hpc : entry.pc = n := by
              obtain ⟨source, -, rfl⟩ := List.mem_map.1 (List.mem_of_getElem? hentry)
              rfl
            rw [hpc]
            refine Plan.lastWrite_self hstep ?_
            rw [Step.writes?, if_pos (Nat.not_lt.1 hslot), hentry]
      · rw [hstaging] at hentry
        refine (ih slot entry hentry).succ hstep ?_
        cases step with
        | stage start params => exact absurd rfl (hstage start params)
        | _ => rfl

/-- Each entry that was staged has been taken by one call or is still there. -/
theorem Carries.perm (hplan : p.plan = .ok plan) (hs : p.Carries n s) :
    ((plan.steps.take n).flatMap Step.consumed ++ s.staging.entries).Perm
      ((plan.steps.take n).flatMap Step.staged) := by
  induction hs with
  | start => exact .refl _
  | @next n s i step s' prior instr walked ih =>
      obtain ⟨hstep, -⟩ := prior.planned hplan instr walked
      rw [List.take_add_one, hstep, Option.toList_some, List.flatMap_append, List.flatMap_append,
        List.flatMap_singleton, List.flatMap_singleton]
      rcases Planning.next_cases walked with ⟨kind, c, -, rfl, -, calls⟩ |
        ⟨sources, -, -, -, rfl, hentries⟩ | ⟨-, -, hstaging, hcall, hstage⟩
      · have hsplit : s.staging.entries = s'.staging.entries ++ c.window.params := by
          rw [calls.entries, calls.window, List.take_append_drop]
        rw [hsplit] at ih
        rw [show (Step.call c).staged = [] from rfl, List.append_nil, List.append_assoc]
        exact (List.perm_append_comm.append_left _).trans ih
      · rw [hentries, show (Step.stage _ _).consumed = [] from rfl, List.append_nil,
          ← List.append_assoc]
        exact ih.append_right _
      · have hnone : step.consumed = [] ∧ step.staged = [] := by
          cases step with
          | call c => exact absurd rfl (hcall c)
          | stage start params => exact absurd rfl (hstage start params)
          | _ => exact ⟨rfl, rfl⟩
        rw [hstaging, hnone.1, hnone.2, List.append_nil, List.append_nil]
        exact ih

/-- The entries that one instruction stages differ from each other. -/
theorem nodup_paramSources {pc : Nat} {t : RegType} {index : Nat} {sources : List Source}
    (h : p.paramSources pc t index = .ok sources) : sources.Nodup := by
  have single : ∀ source : Source, [source].Nodup := fun source => by simp
  rw [paramSources] at h
  split at h
  · cases h
    exact single _
  · obtain ⟨s, -, h⟩ := bind_eq_ok h
    cases h
    exact single _
  · obtain ⟨s, -, h⟩ := bind_eq_ok h
    cases h
    exact single _
  · obtain ⟨-, -, h⟩ := bind_eq_ok h
    cases h
    exact single _
  · obtain ⟨-, -, h⟩ := bind_eq_ok h
    cases h
    refine List.pairwise_map.2 (List.nodup_range.imp fun {j k} hne heq => hne ?_)
    have := (Source.reg.inj heq).2
    omega
  · cases h

/-- No two entries that are staged in a body are the same. -/
theorem Carries.nodup (hplan : p.plan = .ok plan) (hs : p.Carries n s) :
    ((plan.steps.take n).flatMap Step.staged).Nodup ∧
      ∀ entry ∈ (plan.steps.take n).flatMap Step.staged, entry.pc < n := by
  induction hs with
  | start => simp
  | @next n s i step s' prior instr walked ih =>
      obtain ⟨hstep, -⟩ := prior.planned hplan instr walked
      obtain ⟨hnodup, hpc⟩ := ih
      rw [List.take_add_one, hstep, Option.toList_some, List.flatMap_append,
        List.flatMap_singleton]
      have hnew : step.staged.Nodup ∧ ∀ entry ∈ step.staged, entry.pc = n := by
        rcases Planning.next_cases walked with ⟨kind, c, -, rfl, -, -⟩ |
          ⟨sources, -, -, hsources, rfl, -⟩ | ⟨-, -, -, -, hstage⟩
        · simp [Step.staged]
        · have hnodup : sources.Nodup := by
            rcases hsources with ⟨-, rfl⟩ | ⟨-, t, -, hsources⟩
            · simp
            · exact nodup_paramSources hsources
          refine ⟨List.pairwise_map.2 (hnodup.imp fun hne heq => hne (Staged.mk.inj heq).2), ?_⟩
          · intro entry hentry
            obtain ⟨source, -, rfl⟩ := List.mem_map.1 hentry
            rfl
        · cases step with
          | stage start params => exact absurd rfl (hstage start params)
          | _ => simp [Step.staged]
      refine ⟨List.nodup_append.2 ⟨hnodup, hnew.1, ?_⟩, ?_⟩
      · rintro a ha b hb rfl
        exact absurd (hnew.2 a hb) (Nat.ne_of_lt (hpc a ha))
      · intro entry hentry
        rcases List.mem_append.1 hentry with hentry | hentry
        · exact Nat.lt_succ_of_lt (hpc entry hentry)
        · exact (hnew.2 entry hentry) ▸ Nat.lt_succ_self n

theorem exists_carries_end (hplan : p.plan = .ok plan) :
    ∃ last, p.Carries plan.steps.length last := by
  obtain ⟨steps, last, hwalk, -⟩ := plan_eq_ok hplan
  obtain ⟨hlast, -⟩ := walk_steps .start List.drop_zero hwalk
  exact ⟨last, length_steps hplan ▸ hlast⟩

end Prototype

/-- A call takes the entries that were staged last and leaves the ones before them where
they are. Each entry it takes is what the last step that wrote its slot wrote there, and
that step is the one that staged the entry. Over the whole body, each entry is taken by one
call or left over. -/
theorem slots_coherent {p : Prototype} {plan : Plan} (hplan : p.plan = .ok plan) :
    (∀ n c, plan.steps[n]? = some (.call c) → c.pc = n ∧
      (∀ k entry, c.window.params[k]? = some entry →
        plan.LastWrite n (c.window.start + k) entry.pc entry) ∧
      (plan.stagedBefore (n + 1)).length = c.window.start ∧
      plan.stagedBefore n = plan.stagedBefore (n + 1) ++ c.window.params) ∧
    (plan.calls.flatMap (·.window.params) ++ plan.stagedBefore plan.steps.length).Perm
      (plan.steps.flatMap Step.staged) ∧
    (plan.steps.flatMap Step.staged).Nodup := by
  refine ⟨?_, ?_⟩
  · intro n c hstep
    obtain ⟨i, s, s', hi, hs, hnext⟩ := Prototype.step_instr hplan hstep
    obtain ⟨-, calls⟩ := Planning.calls_of_next hnext
    have hpc := Planning.pc_of_next hnext
    have hafter : plan.stagedBefore (n + 1) = s'.staging.entries :=
      (hs.next hi hnext).stagedBefore hplan
    refine ⟨hpc, ?_, ?_, ?_⟩
    · intro k entry hentry
      rw [calls.window, List.getElem?_drop] at hentry
      rw [calls.window]
      exact hs.lastWrite hplan _ entry hentry
    · rw [hafter, calls.entries, calls.window, List.length_take]
      exact Nat.min_eq_left (Nat.sub_le _ _)
    · rw [hafter, calls.entries, calls.window, hs.stagedBefore hplan, List.take_append_drop]
  · obtain ⟨last, hlast⟩ := Prototype.exists_carries_end hplan
    have hperm := hlast.perm hplan
    obtain ⟨hnodup, -⟩ := hlast.nodup hplan
    rw [List.take_length] at hperm hnodup
    rw [Plan.flatMap_calls, hlast.stagedBefore hplan]
    exact ⟨hperm, hnodup⟩

/-- A body whose second call takes a pair of floats. The first component is staged where
the int of the first call has been. -/
def restage : Prototype where
  code := [.param .nil 0, .param (.of .int) 0, .callConst 0 1 0, .param ⟨.of .float, .pair⟩ 1,
    .callConst 0 2 0, .retImm 0 true 0]
  constants := { pointers := [.function (.script 0)] }
  registers := { ints := 1, floats := 3 }

def restagePlan : Plan where
  steps := [.stage 0 [⟨0, .nil⟩], .stage 1 [⟨1, .reg .int 0⟩],
    .call ⟨2, .call, .static 0 false, ⟨1, [⟨1, .reg .int 0⟩]⟩, []⟩,
    .stage 1 [⟨3, .reg .float 1⟩, ⟨3, .reg .float 2⟩],
    .call ⟨4, .call, .static 0 false, ⟨1, [⟨3, .reg .float 1⟩, ⟨3, .reg .float 2⟩]⟩, []⟩,
    .ret ⟨0, true, .imm 0, 1, .int, .of .int⟩]
  layout := { registers := { ints := 1, floats := 3 }, params := 3 }
  states := [⟨[⟨0, .nil⟩], []⟩, ⟨[⟨0, .nil⟩, ⟨1, .reg .int 0⟩], []⟩, ⟨[⟨0, .nil⟩], []⟩,
    ⟨[⟨0, .nil⟩, ⟨3, .reg .float 1⟩, ⟨3, .reg .float 2⟩], []⟩, ⟨[⟨0, .nil⟩], []⟩,
    ⟨[⟨0, .nil⟩], []⟩]

theorem restage_plan : restage.plan = .ok restagePlan := rfl

/-- Slot 1 belongs to the second call by its last write, though the int was written there
before. Only nil is left over. -/
theorem slots_coherent_restage :
    restagePlan.LastWrite 4 1 3 ⟨3, .reg .float 1⟩ ∧
      ¬ restagePlan.LastWrite 4 1 1 ⟨1, .reg .int 0⟩ ∧
      (restagePlan.calls.flatMap (fun c => c.window.params) ++ [(⟨0, .nil⟩ : Staged)]).Perm
        (restagePlan.steps.flatMap Step.staged) := by
  obtain ⟨calls, perm, -⟩ := slots_coherent restage_plan
  obtain ⟨-, writes, -⟩ := calls 4 _ rfl
  refine ⟨writes 0 _ rfl, ?_, perm⟩
  intro h
  exact nomatch h.last 3 _ (by decide) (by decide) rfl

end CallProtocol
