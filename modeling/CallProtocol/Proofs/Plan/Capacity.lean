import CallProtocol.Proofs.SlotCoherence
import CallProtocol.Proofs.PlanAcceptance

/-!
# The capacities of a layout

The layout of a plan has room for as many parameters as were ever staged at once, and for
as many return descriptors as a call declares. The walk keeps both numbers as it goes, so
at each point they are the greatest so far.

The layout holds them in 32 bits. An instruction stages three parameters at most, so they
fit if the body is short enough.
-/

namespace CallProtocol

def Instr.declared (i : Instr) : Nat := if i.op.callKind? = some .call then i.c.toNat else 0

theorem Instr.heightAfter_le (i : Instr) (height : Nat) : i.heightAfter height ≤ height + 3 := by
  have few : ∀ t : RegType, t.components ≤ 3 := by
    rintro ⟨kind, modifier⟩
    change modifier.components ≤ 3
    cases modifier <;> decide
  rw [heightAfter]
  split
  · cases RegType.ofBits? i.b with
    | none => exact Nat.le_add_right height 3
    | some t => exact Nat.add_le_add_left (few t) height
  · omega
  · omega
  · omega
  · omega
  · omega
  · omega

theorem Staging.highWater_pushAll {s : Staging} (ps : List Staged)
    (h : s.entries.length ≤ s.highWater) :
    (s.pushAll ps).highWater = max s.highWater (s.entries.length + ps.length) := by
  induction ps generalizing s with
  | nil => exact (Nat.max_eq_left h).symm
  | cons p ps ih =>
      have hpushed : (s.push p).entries.length = s.entries.length + 1 := by simp
      rw [pushAll_cons, ih (by rw [hpushed]; exact Nat.le_max_right _ _), hpushed, highWater_push,
        List.length_cons]
      omega

namespace Planning

variable {p : Prototype} {n : Nat} {i : Instr} {s s' : Planning} {step : Step}

theorem highWater_call {kind : CallKind} {rest : List Instr}
    (h : s.call p n kind i rest = .ok (step, s')) :
    s'.staging.highWater = s.staging.highWater ∧
      s'.staging.entries.length ≤ s.staging.entries.length := by
  rw [call] at h
  obtain ⟨callee, -, h⟩ := bind_eq_ok h
  obtain ⟨⟨window, staging⟩, htake, h⟩ := bind_eq_ok h
  obtain ⟨results, -, h⟩ := bind_eq_ok h
  cases h
  rw [Staging.take] at htake
  split at htake
  · cases htake
    exact ⟨rfl, by simp⟩
  · cases htake

theorem results_call {kind : CallKind} {rest : List Instr}
    (h : s.call p n kind i rest = .ok (step, s')) :
    ∃ c, step = .call c ∧ c.results.length = (if kind = .call then i.c.toNat else 0) ∧
      s'.mostResults = max s.mostResults c.results.length := by
  rw [call] at h
  obtain ⟨callee, -, h⟩ := bind_eq_ok h
  obtain ⟨⟨window, staging⟩, -, h⟩ := bind_eq_ok h
  obtain ⟨results, hresults, h⟩ := bind_eq_ok h
  cases h
  refine ⟨_, rfl, ?_, rfl⟩
  cases kind with
  | call => exact (Prototype.resultSpecs_declared hresults).1
  | tail =>
      cases hresults
      rfl

theorem length_results_of_next {c : CallSite}
    (h : s.next p n i (p.code.drop (n + 1)) = .ok (.call c, s')) :
    c.results.length = i.declared := by
  have declared : ∀ {kind rest}, s.call p n kind i rest = .ok (.call c, s') →
      c.results.length = if kind = .call then i.c.toNat else 0 := by
    intro kind rest h
    obtain ⟨_, heq, hlength, -⟩ := results_call h
    cases heq
    exact hlength
  obtain ⟨hkind, -⟩ := calls_of_next h
  rw [next] at h
  cases hop : i.op with
  | call | callk | tail | tailk =>
      rw [hop] at h
      rw [declared h, Instr.declared, hop]
      rfl
  | _ => simp [hop, Opcode.callKind?] at hkind

/-- The walk keeps the greatest number of staged parameters and the greatest number of
declared results. -/
theorem peaks_next (hs : s.staging.entries.length ≤ s.staging.highWater)
    (h : s.next p n i (p.code.drop (n + 1)) = .ok (step, s')) :
    s'.staging.highWater = max s.staging.highWater s'.staging.entries.length ∧
      s'.mostResults = max s.mostResults i.declared := by
  have same : s'.staging = s.staging → s'.mostResults = s.mostResults → i.declared = 0 →
      s'.staging.highWater = max s.staging.highWater s'.staging.entries.length ∧
        s'.mostResults = max s.mostResults i.declared := by
    intro hstaging hmost hnone
    rw [hstaging, hmost, hnone, Nat.max_eq_left hs]
    exact ⟨rfl, (Nat.max_eq_left (Nat.zero_le _)).symm⟩
  rw [next] at h
  cases hop : i.op with
  | call | callk | tail | tailk =>
      rw [hop] at h
      obtain ⟨hkept, hfewer⟩ := highWater_call h
      refine ⟨by rw [hkept, Nat.max_eq_left (Nat.le_trans hfewer hs)], ?_⟩
      obtain ⟨c, -, hlength, hmost⟩ := results_call h
      rw [hmost, hlength, Instr.declared, hop]
      rfl
  | param =>
      rw [hop] at h
      obtain ⟨t, -, h⟩ := bind_eq_ok h
      obtain ⟨sources, -, h⟩ := bind_eq_ok h
      cases h
      refine ⟨?_, by simp [Instr.declared, hop, Opcode.callKind?]⟩
      simp only [Staging.highWater_pushAll _ hs, Staging.entries_pushAll, List.length_append]
  | parami =>
      rw [hop] at h
      cases h
      refine ⟨?_, by simp [Instr.declared, hop, Opcode.callKind?]⟩
      simp only [Staging.highWater_pushAll _ hs, Staging.entries_pushAll, List.length_append]
  | result =>
      rw [hop] at h
      simp only [result] at h
      split at h
      · split at h
        · cases h
          exact same rfl rfl (by simp [Instr.declared, hop, Opcode.callKind?])
        · cases h
      · cases h
  | reti =>
      rw [hop] at h
      cases h
      exact same rfl rfl (by simp [Instr.declared, hop, Opcode.callKind?])
  | _ =>
      rw [hop] at h
      obtain ⟨x, -, h⟩ := bind_eq_ok h
      cases h
      exact same rfl rfl (by simp [Instr.declared, hop, Opcode.callKind?])

/-- What the walk has kept up to `n` are the greatest numbers so far, and no more than the
instructions before `n` can bring about. -/
structure Peaks (s : Planning) (p : Prototype) (plan : Plan) (n : Nat) : Prop where
  highest : ∀ m ≤ n, (plan.stagedBefore m).length ≤ s.staging.highWater
  attained : ∃ m ≤ n, (plan.stagedBefore m).length = s.staging.highWater
  bounded : s.staging.highWater ≤ 3 * n
  most : ∀ m count, p.CallsAt m count → m < n → count ≤ s.mostResults
  declared : s.mostResults = 0 ∨ ∃ m < n, p.CallsAt m s.mostResults
  few : s.mostResults ≤ 255

variable {plan : Plan}

theorem peaks_start : Peaks {} p plan 0 where
  highest := by
    intro m hm
    rw [Nat.le_zero.1 hm]
    exact Nat.zero_le _
  attained := ⟨0, Nat.le_refl 0, rfl⟩
  bounded := Nat.zero_le _
  most := fun m _ _ hm => absurd hm (Nat.not_lt_zero m)
  declared := .inl rfl
  few := Nat.zero_le _

theorem Peaks.next (h : s.Peaks p plan n) (planned : p.plan = .ok plan) (hs : p.Carries n s)
    (hi : p.code[n]? = some i) (walked : s.next p n i (p.code.drop (n + 1)) = .ok (step, s')) :
    s'.Peaks p plan (n + 1) := by
  have hbefore : (plan.stagedBefore n).length = s.staging.entries.length :=
    congrArg List.length (hs.stagedBefore planned)
  have hafter : (plan.stagedBefore (n + 1)).length = s'.staging.entries.length :=
    congrArg List.length ((hs.next hi walked).stagedBefore planned)
  obtain ⟨hhigh, hmost⟩ := peaks_next (hbefore ▸ h.highest n (Nat.le_refl n)) walked
  have hdeclared : i.declared ≤ 255 := by
    have := i.c.toNat_lt
    rw [Instr.declared]
    split <;> omega
  have few := h.few
  refine ⟨?_, ?_, ?_, ?_, ?_, by omega⟩
  · intro m hm
    rcases Nat.le_or_eq_of_le_succ hm with hm | rfl
    · have := h.highest m hm
      omega
    · rw [hafter, hhigh]
      exact Nat.le_max_right _ _
  · rcases Nat.le_total s'.staging.entries.length s.staging.highWater with hle | hle
    · obtain ⟨m, hm, heq⟩ := h.attained
      exact ⟨m, Nat.le_succ_of_le hm, by rw [heq, hhigh, Nat.max_eq_left hle]⟩
    · exact ⟨n + 1, Nat.le_refl _, by rw [hafter, hhigh, Nat.max_eq_right hle]⟩
  · have hgrown := i.heightAfter_le s.staging.entries.length
    rw [← length_entries_next walked] at hgrown
    have hlow := h.highest n (Nat.le_refl n)
    have hbounded := h.bounded
    omega
  · intro m count hcalls hm
    rcases Nat.lt_succ_iff_lt_or_eq.1 hm with hm | rfl
    · have := h.most m count hcalls hm
      omega
    · obtain ⟨hop, rfl⟩ := (callsAt_iff hi).1 hcalls
      rw [hmost, Instr.declared, if_pos hop]
      exact Nat.le_max_right _ _
  · rcases Nat.le_total i.declared s.mostResults with hle | hle
    · rw [hmost, Nat.max_eq_left hle]
      exact h.declared.imp_right fun ⟨m, hm, hcalls⟩ => ⟨m, Nat.lt_succ_of_lt hm, hcalls⟩
    · rw [hmost, Nat.max_eq_right hle]
      by_cases hop : i.op.callKind? = some .call
      · refine .inr ⟨n, Nat.lt_succ_self n, (callsAt_iff hi).2 ⟨hop, ?_⟩⟩
        rw [Instr.declared, if_pos hop]
      · exact .inl (if_neg hop)

theorem Peaks.of_carries (planned : p.plan = .ok plan) (h : p.Carries n s) :
    s.Peaks p plan n := by
  induction h with
  | start => exact peaks_start
  | next prior instr walked ih => exact ih.next planned prior instr walked

end Planning

/-- The numbers that the layout of a plan holds are those that the walk has kept up to the
end of the body. -/
theorem Prototype.layout_of_plan {p : Prototype} {plan : Plan} (planned : p.plan = .ok plan)
    (short : p.code.length < Nat.pow 2 30) :
    plan.layout.registers = p.registers ∧ ∃ last : Planning, last.Peaks p plan p.code.length ∧
      plan.layout.params.toNat = last.staging.highWater ∧
      plan.layout.returns.toNat = last.mostResults := by
  obtain ⟨steps, last, hwalk, -, -, hlayout⟩ := plan_eq_ok planned
  obtain ⟨carries, -⟩ := walk_steps .start List.drop_zero hwalk
  have peaks := Planning.Peaks.of_carries planned carries
  have hbounded := peaks.bounded
  have hfew := peaks.few
  have hshort : p.code.length < 1073741824 := short
  refine ⟨by rw [hlayout], last, peaks, ?_, ?_⟩
  · rw [hlayout]
    exact UInt32.toNat_ofNat_of_lt' (Nat.lt_of_le_of_lt hbounded (by simp [UInt32.size]; omega))
  · rw [hlayout]
    exact UInt32.toNat_ofNat_of_lt' (Nat.lt_of_le_of_lt hfew (by decide))

/-! ## Counting in 32 bits -/

/-- The parameters that are staged at once can be counted in the 32 bits of a capacity. -/
def Plan.Countable (plan : Plan) : Prop :=
  ∀ state ∈ plan.states, state.staged.length < Nat.pow 2 32

instance (plan : Plan) : Decidable plan.Countable :=
  inferInstanceAs (Decidable (∀ state ∈ plan.states, state.staged.length < Nat.pow 2 32))

theorem Plan.Countable.length_stagedBefore {plan : Plan} (h : plan.Countable) (n : Nat) :
    (plan.stagedBefore n).length < Nat.pow 2 32 := by
  cases n with
  | zero => exact Nat.two_pow_pos 32
  | succ n =>
      rw [Plan.stagedBefore]
      cases hstate : plan.states[n]? with
      | none => exact Nat.two_pow_pos 32
      | some state => exact h state (List.mem_of_getElem? hstate)

theorem Planning.Peaks.highWater_lt {p : Prototype} {plan : Plan} {n : Nat} {s : Planning}
    (h : s.Peaks p plan n) (countable : plan.Countable) :
    s.staging.highWater < Nat.pow 2 32 := by
  obtain ⟨m, -, hpeak⟩ := h.attained
  exact hpeak ▸ countable.length_stagedBefore m

namespace Prototype

variable {p : Prototype} {plan : Plan}

theorem layout_eq (planned : p.plan = .ok plan) {last : Planning}
    (hlast : p.Carries p.code.length last) :
    plan.layout = ⟨p.registers, UInt32.ofNat last.staging.highWater,
      UInt32.ofNat last.mostResults⟩ := by
  obtain ⟨steps, last', hwalk, -, -, hlayout⟩ := plan_eq_ok planned
  rw [hlayout, hlast.unique (walk_steps .start List.drop_zero hwalk).1]

/-- There is room for all parameters that are staged at once. -/
theorem length_stagedBefore_le (planned : p.plan = .ok plan) (countable : plan.Countable)
    (n : Nat) : (plan.stagedBefore n).length ≤ plan.layout.params.toNat := by
  obtain ⟨last, hlast⟩ := exists_carries planned (Nat.le_refl _)
  have peaks := Planning.Peaks.of_carries planned hlast
  rw [layout_eq planned hlast]
  change _ ≤ (UInt32.ofNat last.staging.highWater).toNat
  rw [UInt32.toNat_ofNat_of_lt' (peaks.highWater_lt countable)]
  rcases Nat.lt_or_ge p.code.length n with hn | hn
  · cases n with
    | zero => exact Nat.zero_le _
    | succ n =>
        rw [Plan.stagedBefore, List.getElem?_eq_none]
        · exact Nat.zero_le _
        · rw [length_states planned]
          exact Nat.le_of_lt_succ hn
  · exact peaks.highest n hn

end Prototype

end CallProtocol
