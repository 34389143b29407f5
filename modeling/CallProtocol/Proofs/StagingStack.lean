import CallProtocol.Proofs.Plan.Calls
import CallProtocol.Proofs.SlotCoherence

/-!
# The staging buffer as a stack

Whatever is pushed onto a staging buffer and taken from it, the buffer holds what a stack
would hold. The stack is a list with its top first, while the buffer has its oldest entry
first, so one is the other in reverse. A take of more than there is has no effect on
either.

The mark of the buffer is the greatest height that the stack has had. Planning a body does
nothing to its buffer but push and take, so the frame of the body is sized by that height.
-/

namespace CallProtocol

inductive StagingOp where
  | push (p : Staged)
  | take (pc count : Nat)

namespace StagingOp

def onStack (stack : List Staged) : StagingOp → List Staged
  | push p => p :: stack
  | take _ count => if count ≤ stack.length then stack.drop count else stack

def stack (ops : List StagingOp) : List Staged := ops.foldl onStack []

def history (ops : List StagingOp) : List (List Staged) := List.scanl onStack [] ops

theorem mem_scanl_start (stack : List Staged) (ops : List StagingOp) :
    stack ∈ List.scanl onStack stack ops := by
  cases ops with
  | nil =>
      rw [List.scanl_nil]
      exact List.mem_singleton_self stack
  | cons op ops =>
      rw [List.scanl_cons]
      exact List.mem_cons_self

end StagingOp

namespace Staging

/-- The buffer after an operation. A take that fails leaves it as it is. -/
def after (s : Staging) : StagingOp → Staging
  | .push p => s.push p
  | .take pc count =>
    match s.take pc count with
    | .ok (_, s') => s'
    | .error _ => s

def performed (ops : List StagingOp) : Staging := ops.foldl after {}

/-- The buffer holds the entries of the stack and has marked its height. -/
structure Mirrors (s : Staging) (stack : List Staged) : Prop where
  entries : s.entries = stack.reverse
  marked : stack.length ≤ s.highWater

namespace Mirrors

variable {s : Staging} {stack : List Staged}

theorem empty : Mirrors {} [] := ⟨rfl, Nat.le_refl 0⟩

/-- The entries that a take hands out are the top of the stack, oldest first. -/
theorem take_eq (h : s.Mirrors stack) (pc count : Nat) :
    s.take pc count =
      if count ≤ stack.length then
        .ok (⟨stack.length - count, (stack.take count).reverse⟩,
          { s with entries := (stack.drop count).reverse })
      else .error ⟨pc, .argCountMismatch stack.length count⟩ := by
  have hlength : s.entries.length = stack.length := by rw [h.entries, List.length_reverse]
  rw [Staging.take, hlength]
  split
  · rw [h.entries, List.reverse_take, List.reverse_drop]
  · rfl

theorem after_take (h : s.Mirrors stack) (pc count : Nat) :
    s.after (.take pc count) =
      if count ≤ stack.length then { s with entries := (stack.drop count).reverse } else s := by
  simp only [after, h.take_eq]
  by_cases enough : count ≤ stack.length
  · simp only [if_pos enough]
  · simp only [if_neg enough]

/-- One operation does the same to both, and marks the height if it is a new one. -/
theorem step (h : s.Mirrors stack) (op : StagingOp) :
    (s.after op).Mirrors (op.onStack stack) ∧
      (s.after op).highWater = max s.highWater (op.onStack stack).length := by
  cases op with
  | push p =>
      have hmark : (s.push p).highWater = max s.highWater (stack.length + 1) := by
        rw [highWater_push, h.entries, List.length_reverse]
      refine ⟨⟨?_, ?_⟩, hmark⟩
      · change s.entries ++ [p] = (p :: stack).reverse
        rw [h.entries, List.reverse_cons]
      · change stack.length + 1 ≤ (s.push p).highWater
        rw [hmark]
        exact Nat.le_max_right _ _
  | take pc count =>
      have hmarked := h.marked
      rw [h.after_take, StagingOp.onStack]
      split
      · have hlow : (stack.drop count).length ≤ s.highWater := by
          rw [List.length_drop]
          omega
        exact ⟨⟨rfl, hlow⟩, (Nat.max_eq_left hlow).symm⟩
      · exact ⟨h, (Nat.max_eq_left hmarked).symm⟩

/-- After any operations the buffer still mirrors the stack, and its mark has risen to the
greatest height that there was. -/
theorem run (h : s.Mirrors stack) (ops : List StagingOp) :
    (ops.foldl after s).Mirrors (ops.foldl StagingOp.onStack stack) ∧
      s.highWater ≤ (ops.foldl after s).highWater ∧
      (∀ st ∈ List.scanl StagingOp.onStack stack ops,
        st.length ≤ (ops.foldl after s).highWater) ∧
      ((ops.foldl after s).highWater = s.highWater ∨
        ∃ st ∈ List.scanl StagingOp.onStack stack ops,
          st.length = (ops.foldl after s).highWater) := by
  induction ops generalizing s stack with
  | nil =>
      refine ⟨h, Nat.le_refl _, ?_, .inl rfl⟩
      intro st hst
      rw [List.scanl_nil, List.mem_singleton] at hst
      rw [hst]
      exact h.marked
  | cons op ops ih =>
      obtain ⟨hafter, hmark⟩ := h.step op
      obtain ⟨hrun, hrisen, hhighest, hattained⟩ := ih hafter
      rw [List.foldl_cons, List.foldl_cons, List.scanl_cons]
      have hkept : s.highWater ≤ (s.after op).highWater := by
        rw [hmark]
        exact Nat.le_max_left _ _
      refine ⟨hrun, Nat.le_trans hkept hrisen, ?_, ?_⟩
      · intro st hst
        rcases List.mem_cons.1 hst with rfl | hst
        · exact Nat.le_trans h.marked (Nat.le_trans hkept hrisen)
        · exact hhighest st hst
      · rcases hattained with hfinal | ⟨st, hst, hheight⟩
        · -- No later operation has raised the mark, so this one has if any.
          rcases Nat.le_total (op.onStack stack).length s.highWater with hle | hle
          · rw [Nat.max_eq_left hle] at hmark
            exact .inl (hfinal.trans hmark)
          · rw [Nat.max_eq_right hle] at hmark
            exact .inr ⟨_, List.mem_cons_of_mem _ (StagingOp.mem_scanl_start _ ops),
              (hfinal.trans hmark).symm⟩
        · exact .inr ⟨st, List.mem_cons_of_mem _ hst, hheight⟩

end Mirrors

theorem mirrors_performed (ops : List StagingOp) : (performed ops).Mirrors (StagingOp.stack ops) :=
  (Mirrors.empty.run ops).1

theorem performed_append (ops : List StagingOp) (op : StagingOp) :
    performed (ops ++ [op]) = (performed ops).after op := by
  rw [performed, List.foldl_append]
  rfl

theorem highWater_performed (ops : List StagingOp) :
    ((StagingOp.history ops).map List.length).max? = some (performed ops).highWater := by
  obtain ⟨-, -, hhighest, hattained⟩ := Mirrors.empty.run ops
  rw [List.max?_eq_some_iff]
  constructor
  · rcases hattained with hzero | ⟨st, hst, hheight⟩
    · refine List.mem_map.2 ⟨[], StagingOp.mem_scanl_start [] ops, ?_⟩
      exact hzero.symm
    · exact List.mem_map.2 ⟨st, hst, hheight⟩
  · intro height hmem
    obtain ⟨st, hst, rfl⟩ := List.mem_map.1 hmem
    exact hhighest st hst

theorem foldl_after_push (s : Staging) (ps : List Staged) :
    (ps.map StagingOp.push).foldl after s = s.pushAll ps := by
  rw [List.foldl_map]
  rfl

end Staging

namespace Planning

variable {p : Prototype} {n : Nat} {i : Instr} {s s' : Planning} {step : Step}

theorem staging_call {kind : CallKind} {rest : List Instr}
    (h : s.call p n kind i rest = .ok (step, s')) :
    s'.staging = s.staging.after (.take n i.b.toNat) := by
  rw [call] at h
  obtain ⟨callee, -, h⟩ := bind_eq_ok h
  obtain ⟨⟨window, staging⟩, htake, h⟩ := bind_eq_ok h
  obtain ⟨results, -, h⟩ := bind_eq_ok h
  cases h
  rw [Staging.after, htake]

/-- An instruction pushes what it stages, takes what it consumes, or does neither. -/
theorem staging_next {rest : List Instr} (h : s.next p n i rest = .ok (step, s')) :
    ∃ ops : List StagingOp, s'.staging = ops.foldl Staging.after s.staging := by
  rw [next] at h
  cases hop : i.op with
  | call | callk | tail | tailk =>
      rw [hop] at h
      exact ⟨[.take n i.b.toNat], staging_call h⟩
  | param =>
      rw [hop] at h
      obtain ⟨t, -, h⟩ := bind_eq_ok h
      obtain ⟨sources, -, h⟩ := bind_eq_ok h
      cases h
      exact ⟨_, (s.staging.foldl_after_push (sources.map (Staged.mk n))).symm⟩
  | parami =>
      rw [hop] at h
      cases h
      exact ⟨[.push ⟨n, .imm i.sax⟩], rfl⟩
  | result =>
      rw [hop] at h
      simp only [result] at h
      split at h
      · split at h
        · cases h
          exact ⟨[], rfl⟩
        · cases h
      · cases h
  | reti =>
      rw [hop] at h
      cases h
      exact ⟨[], rfl⟩
  | _ =>
      rw [hop] at h
      obtain ⟨x, -, h⟩ := bind_eq_ok h
      cases h
      exact ⟨[], rfl⟩

end Planning

/-- The buffer of a body that is being planned has come about by pushes and takes. -/
theorem Prototype.Carries.exists_performed {p : Prototype} {n : Nat} {s : Planning}
    (h : p.Carries n s) : ∃ ops, s.staging = Staging.performed ops := by
  induction h with
  | start => exact ⟨[], rfl⟩
  | next prior instr walked ih =>
      obtain ⟨past, hpast⟩ := ih
      obtain ⟨ops, hops⟩ := Planning.staging_next walked
      refine ⟨past ++ ops, ?_⟩
      rw [hops, hpast, Staging.performed, Staging.performed, List.foldl_append]

/-- After any pushes and takes the buffer holds the entries of the stack, and its mark is the
greatest height that the stack has had. A take of what is there hands out the top of the
stack, in staging order, with the number of entries that are left as its start. A take of
more fails with both numbers, and changes neither the entries nor the mark.

What a body is planned with is such a buffer. -/
theorem staging_is_stack :
    (∀ ops : List StagingOp,
      (Staging.performed ops).entries = (StagingOp.stack ops).reverse ∧
        ((StagingOp.history ops).map List.length).max? = some (Staging.performed ops).highWater ∧
        ∀ pc count,
          (Staging.performed ops).take pc count =
              (if count ≤ (StagingOp.stack ops).length then
                .ok (⟨(StagingOp.stack ops).length - count,
                  ((StagingOp.stack ops).take count).reverse⟩,
                  Staging.performed (ops ++ [.take pc count]))
              else .error ⟨pc, .argCountMismatch (StagingOp.stack ops).length count⟩) ∧
            Staging.performed (ops ++ [.take pc count]) =
              if count ≤ (StagingOp.stack ops).length then
                { Staging.performed ops with
                  entries := ((StagingOp.stack ops).drop count).reverse }
              else Staging.performed ops) ∧
      ∀ (p : Prototype) (n : Nat) (s : Planning), p.Carries n s →
        ∃ ops, s.staging = Staging.performed ops := by
  constructor
  · intro ops
    have mirrors := Staging.mirrors_performed ops
    refine ⟨mirrors.entries, Staging.highWater_performed ops, ?_⟩
    intro pc count
    have hafter := mirrors.after_take pc count
    rw [Staging.performed_append, mirrors.take_eq, hafter]
    by_cases enough : count ≤ (StagingOp.stack ops).length
    · simp only [if_pos enough, and_self]
    · simp only [if_neg enough, and_self]
  · intro p n s carries
    exact carries.exists_performed

def restageOps : List StagingOp :=
  [.push ⟨0, .nil⟩, .push ⟨1, .reg .int 0⟩, .take 2 1, .push ⟨3, .reg .float 1⟩,
    .push ⟨3, .reg .float 2⟩]

/-- The buffer before the second call of `restage` has held three entries, so a take of four
fails, and the call's take of two still gets both floats. -/
theorem staging_is_stack_restage :
    (∃ s ops, restage.Carries 4 s ∧ s.staging = Staging.performed ops) ∧
      (Staging.performed restageOps).highWater = 3 ∧
      (Staging.performed restageOps).take 4 4 = .error ⟨4, .argCountMismatch 3 4⟩ ∧
      (Staging.performed (restageOps ++ [.take 4 4])).take 4 2 =
        .ok (⟨1, [⟨3, .reg .float 1⟩, ⟨3, .reg .float 2⟩]⟩, ⟨[⟨0, .nil⟩], 3⟩) := by
  obtain ⟨histories, bodies⟩ := staging_is_stack
  obtain ⟨-, hmark, htake⟩ := histories restageOps
  obtain ⟨hfail, hkept⟩ := htake 4 4
  obtain ⟨s, carries⟩ := Prototype.exists_carries restage_plan (n := 4) (by decide)
  obtain ⟨ops, hops⟩ := bodies restage 4 s carries
  obtain ⟨htaken, -⟩ := htake 4 2
  refine ⟨⟨s, ops, carries, hops⟩, ?_, hfail, ?_⟩
  · exact (Option.some.inj hmark).symm
  · rw [hkept]
    exact htaken

end CallProtocol
