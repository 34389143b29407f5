import CallProtocol.Proofs.Plan.WellFormed

/-!
# The planner accepts the well-formed bodies

The planner looks at each instruction once. It looks ahead for the results of a call and
keeps them in a queue, and it stops at the first fault. `Prototype.WellFormed` knows
neither a queue nor an order of checks.

The two meet in `Planning.Fits`: what the walk carries to an instruction is what the
instructions before it say. The staged parameters are as many as the height, and the
queue holds the results of the one call that still expects some. In such a state an
instruction has a step exactly if it is well formed where it stands, so the walk reaches
the end of a body exactly if all of them are.
-/

namespace CallProtocol

namespace Prototype

variable {p : Prototype} {n : Nat} {i : Instr}

theorem height_succ (hi : p.code[n]? = some i) : p.height (n + 1) = i.heightAfter (p.height n) := by
  rw [height, height, List.take_add_one, hi, Option.toList_some, List.foldl_append]
  rfl

theorem wellFormedAt_iff_called (hop : i.op = .result) :
    p.WellFormedAt n i ↔ ∃ m count, p.CallsAt m count ∧ m < n ∧ n ≤ m + count := by
  constructor
  · intro h
    exact h.called hop
  · intro h
    exact {
      staged := by simp [hop, Opcode.callKind?]
      results := by simp [hop, Opcode.callKind?]
      called := fun _ => h
      callee := by simp [hop, Opcode.callKind?]
      operands := by simp [hop, HasOperands] }

theorem wellFormedAt_iff_operands (hcall : i.op.callKind? = none) (hresult : i.op ≠ .result) :
    p.WellFormedAt n i ↔ p.HasOperands i := by
  constructor
  · exact WellFormedAt.operands
  · intro h
    exact {
      staged := fun hop => absurd hcall hop
      results := by simp [hcall]
      called := fun hop => absurd hop hresult
      callee := fun hop => absurd hcall hop
      operands := h }

theorem exists_callResults {kind : CallKind} :
    (∃ rs, p.callResults n kind i (p.code.drop (n + 1)) = .ok rs) ↔
      (kind = .call → ∀ k < i.c.toNat, ∃ j, p.code[n + 1 + k]? = some j ∧ p.Receives j) := by
  cases kind with
  | call => simp [callResults, exists_resultSpecs]
  | tail => simp [callResults]

theorem wellFormedAt_iff_call {kind : CallKind} (hop : i.op.callKind? = some kind) :
    p.WellFormedAt n i ↔ p.HasCallee i ∧ i.b.toNat ≤ p.height n ∧
      ∃ rs, p.callResults n kind i (p.code.drop (n + 1)) = .ok rs := by
  have hcall : i.op.callKind? ≠ none := by simp [hop]
  rw [exists_callResults]
  constructor
  · intro h
    exact ⟨h.callee hcall, h.staged hcall, fun hkind => h.results (hkind ▸ hop)⟩
  · rintro ⟨callee, staged, results⟩
    exact {
      staged := fun _ => staged
      results := fun hop' => results (Option.some.inj (hop.symm.trans hop'))
      called := fun hresult => by simp [hresult, Opcode.callKind?] at hop
      callee := fun _ => callee
      operands := by cases h : i.op <;> simp_all [Opcode.callKind?, HasOperands] }

end Prototype

namespace Planning

/-- What the walk carries to the instruction at `n` is what the instructions before it
say. -/
structure Fits (s : Planning) (p : Prototype) (n : Nat) : Prop where
  height : s.staging.entries.length = p.height n
  /-- The results in the queue are those of the next instructions. -/
  queued : ∀ k r, s.pending[k]? = some r → r.pc = n + k ∧
    ∃ j, p.code[n + k]? = some j ∧ j.op = .result
  /-- No call expects a result behind the queue. -/
  covers : ∀ m count, p.CallsAt m count → m < n → m + count < n + s.pending.length
  /-- Some call expects the last result in the queue. -/
  expected : s.pending ≠ [] →
    ∃ m count, p.CallsAt m count ∧ m < n ∧ m + count + 1 = n + s.pending.length

variable {p : Prototype} {n : Nat} {i : Instr} {s s' : Planning} {step : Step}

theorem fits_start : Fits {} p 0 where
  height := rfl
  queued := by simp
  covers := fun m count _ hm => absurd hm (Nat.not_lt_zero m)
  expected := fun h => absurd rfl h

theorem length_entries_next (h : s.next p n i (p.code.drop (n + 1)) = .ok (step, s')) :
    s'.staging.entries.length = i.heightAfter s.staging.entries.length := by
  rcases next_cases h with ⟨kind, c, hop, -, -, calls⟩ | ⟨sources, -, -, hsources, -, hentries⟩ |
    ⟨hstages, hcall, hstaging, -⟩
  · rw [calls.entries, List.length_take, Nat.min_eq_left (Nat.sub_le _ _)]
    cases hi : i.op <;> simp_all [Opcode.callKind?, Instr.heightAfter]
  · rw [hentries, List.length_append, List.length_map]
    rcases hsources with ⟨hop, rfl⟩ | ⟨hop, t, ht, hsources⟩
    · simp [Instr.heightAfter, hop]
    · simp [Instr.heightAfter, hop, ht, Prototype.length_paramSources hsources]
  · rw [hstaging]
    cases hi : i.op <;> simp_all [Opcode.callKind?, Opcode.stages, Instr.heightAfter]

theorem pending_call {kind : CallKind} {rest : List Instr}
    (h : s.call p n kind i rest = .ok (step, s')) :
    ∃ rs, p.callResults n kind i rest = .ok rs ∧ s'.pending = s.pending ++ rs := by
  rw [call] at h
  obtain ⟨callee, -, h⟩ := bind_eq_ok h
  obtain ⟨⟨window, staging⟩, -, h⟩ := bind_eq_ok h
  obtain ⟨results, hresults, h⟩ := bind_eq_ok h
  cases h
  exact ⟨results, hresults, rfl⟩

/-- An instruction that receives a result takes it off the queue. A call puts its results
behind the queue, and every other instruction leaves it as it is. -/
theorem pending_next (h : s.next p n i (p.code.drop (n + 1)) = .ok (step, s')) :
    (i.op = .result ∧ ∃ r, s.pending = r :: s'.pending) ∨
      (i.op.callKind? = some .call ∧ ∃ rs,
        p.resultSpecs (n + 1) i.c.toNat (p.code.drop (n + 1)) = .ok rs ∧
        s'.pending = s.pending ++ rs) ∨
      (i.op ≠ .result ∧ i.op.callKind? ≠ some .call ∧ s'.pending = s.pending) := by
  rw [next] at h
  cases hop : i.op with
  | call | callk =>
      rw [hop] at h
      exact .inr (.inl ⟨rfl, pending_call h⟩)
  | tail | tailk =>
      rw [hop] at h
      obtain ⟨rs, hrs, hpending⟩ := pending_call h
      cases hrs
      exact .inr (.inr ⟨by decide, by decide, by rw [hpending, List.append_nil]⟩)
  | result =>
      rw [hop] at h
      simp only [result] at h
      split at h
      · next r rs hpending =>
          split at h
          · cases h
            exact .inl ⟨rfl, r, hpending⟩
          · cases h
      · cases h
  | param =>
      rw [hop] at h
      obtain ⟨t, -, h⟩ := bind_eq_ok h
      obtain ⟨sources, -, h⟩ := bind_eq_ok h
      cases h
      exact .inr (.inr ⟨by decide, by decide, rfl⟩)
  | parami | reti =>
      rw [hop] at h
      cases h
      exact .inr (.inr ⟨by decide, by decide, rfl⟩)
  | _ =>
      rw [hop] at h
      obtain ⟨x, -, h⟩ := bind_eq_ok h
      cases h
      exact .inr (.inr ⟨by decide, by decide, rfl⟩)

/-- Only an instruction that receives a result is reached while results are expected. -/
theorem Fits.pending_eq_nil (hs : s.Fits p n) (hi : p.code[n]? = some i) (hop : i.op ≠ .result) :
    s.pending = [] := by
  cases hpending : s.pending with
  | nil => rfl
  | cons r rs =>
      obtain ⟨-, j, hj, hresult⟩ := hs.queued 0 r (by rw [hpending]; rfl)
      cases hi.symm.trans hj
      exact absurd hresult hop

theorem callsAt_iff (hi : p.code[n]? = some i) {count : Nat} :
    p.CallsAt n count ↔ i.op.callKind? = some .call ∧ i.c.toNat = count := by
  simp [Prototype.CallsAt, hi]

theorem Fits.next (hs : s.Fits p n) (hi : p.code[n]? = some i)
    (h : s.next p n i (p.code.drop (n + 1)) = .ok (step, s')) : s'.Fits p (n + 1) := by
  have hheight : s'.staging.entries.length = p.height (n + 1) := by
    rw [length_entries_next h, hs.height, Prototype.height_succ hi]
  rcases pending_next h with ⟨hop, r, hpending⟩ | ⟨hop, rs, hrs, hpending⟩ |
    ⟨hresult, hcall, hpending⟩
  · -- the queue moves on by one place, and so does the instruction
    have hlength : s.pending.length = s'.pending.length + 1 := by rw [hpending, List.length_cons]
    refine ⟨hheight, ?_, ?_, ?_⟩
    · intro k r' hr'
      rw [Nat.add_right_comm, Nat.add_assoc]
      exact hs.queued (k + 1) r' (by rw [hpending, List.getElem?_cons_succ, hr'])
    · intro m count hcalls hm
      rcases Nat.lt_succ_iff_lt_or_eq.1 hm with hm | rfl
      · have := hs.covers m count hcalls hm
        omega
      · obtain ⟨hcall, -⟩ := (callsAt_iff hi).1 hcalls
        simp [hop, Opcode.callKind?] at hcall
    · intro _
      obtain ⟨m, count, hcalls, hm, hlast⟩ := hs.expected (by simp [hpending])
      exact ⟨m, count, hcalls, by omega, by omega⟩
  · -- nothing is expected before the call, so the queue holds just its results
    have hempty := hs.pending_eq_nil hi (fun h => by simp [h, Opcode.callKind?] at hop)
    rw [hempty, List.nil_append] at hpending
    obtain ⟨hlength, -⟩ := Prototype.resultSpecs_declared hrs
    have hcall : p.CallsAt n i.c.toNat := (callsAt_iff hi).2 ⟨hop, rfl⟩
    refine ⟨hheight, ?_, ?_, ?_⟩
    · intro k r hr
      rw [hpending] at hr
      have hk : k < i.c.toNat := hlength ▸ (List.getElem?_eq_some_iff.1 hr).1
      obtain ⟨j, hj, hreceives⟩ := Prototype.exists_resultSpecs.1 ⟨rs, hrs⟩ k hk
      rw [List.getElem?_drop] at hj
      exact ⟨Prototype.pc_resultSpecs hrs hr, j, hj, hreceives.1⟩
    · intro m count hcalls hm
      rw [hpending, hlength]
      rcases Nat.lt_succ_iff_lt_or_eq.1 hm with hm | rfl
      · have := hs.covers m count hcalls hm
        rw [hempty, List.length_nil] at this
        omega
      · obtain ⟨-, rfl⟩ := (callsAt_iff hi).1 hcalls
        omega
    · intro _
      rw [hpending, hlength]
      exact ⟨n, i.c.toNat, hcall, Nat.lt_succ_self n, by omega⟩
  · have hempty := hs.pending_eq_nil hi hresult
    rw [hempty] at hpending
    refine ⟨hheight, by simp [hpending], ?_, fun h => absurd hpending h⟩
    intro m count hcalls hm
    rcases Nat.lt_succ_iff_lt_or_eq.1 hm with hm | rfl
    · have := hs.covers m count hcalls hm
      rw [hempty, List.length_nil] at this
      omega
    · obtain ⟨hop, -⟩ := (callsAt_iff hi).1 hcalls
      exact absurd hop hcall

theorem Fits.of_carries (h : p.Carries n s) : s.Fits p n := by
  induction h with
  | start => exact fits_start
  | next _ instr walked ih => exact ih.next instr walked

/-- A result is expected where an instruction receives one exactly if a call before it
reaches that far. -/
theorem Fits.exists_result (hs : s.Fits p n) :
    (∃ out, s.result n = .ok out) ↔ ∃ m count, p.CallsAt m count ∧ m < n ∧ n ≤ m + count := by
  constructor
  · rintro ⟨out, h⟩
    have hne : s.pending ≠ [] := by
      intro hempty
      rw [result, hempty] at h
      cases h
    obtain ⟨m, count, hcalls, hm, hlast⟩ := hs.expected hne
    have := List.length_pos_iff.2 hne
    exact ⟨m, count, hcalls, hm, by omega⟩
  · rintro ⟨m, count, hcalls, hm, hn⟩
    have := hs.covers m count hcalls hm
    cases hpending : s.pending with
    | nil =>
        rw [hpending, List.length_nil] at this
        omega
    | cons r rs =>
        obtain ⟨hpc, -⟩ := hs.queued 0 r (by rw [hpending]; rfl)
        exact ⟨(.result r, { s with pending := rs }), by simp [result, hpending, hpc]⟩

theorem exists_take {pc count : Nat} {staging : Staging} :
    (∃ out, staging.take pc count = .ok out) ↔ count ≤ staging.entries.length := by
  rw [Staging.take]
  split
  · next h => simp [h]
  · next h => simp [h]

theorem Fits.exists_call (hs : s.Fits p n) {kind : CallKind} (hop : i.op.callKind? = some kind) :
    (∃ out, s.call p n kind i (p.code.drop (n + 1)) = .ok out) ↔ p.WellFormedAt n i := by
  have callee : (∃ c, p.callee n i = .ok c) ↔ p.HasCallee i := Prototype.exists_callee
  have taken : (∃ out, s.staging.take n i.b.toNat = .ok out) ↔
      i.b.toNat ≤ s.staging.entries.length := exists_take
  rw [Prototype.wellFormedAt_iff_call hop, ← hs.height, ← callee, ← taken]
  simp [call, exists_bind_eq_ok, exists_map_eq_ok]

theorem exists_next_operands {rest : List Instr} (hcall : i.op.callKind? = none)
    (hresult : i.op ≠ .result) :
    (∃ out, s.next p n i rest = .ok out) ↔ p.HasOperands i := by
  rw [Planning.next]
  cases hop : i.op with
  | call | callk | tail | tailk => simp [hop, Opcode.callKind?] at hcall
  | result => exact absurd hop hresult
  | param =>
      simp [Prototype.HasOperands, hop, exists_bind_eq_ok, exists_map_eq_ok,
        Prototype.decode_eq_ok, Prototype.exists_paramSources]
  | ret => simp [Prototype.HasOperands, hop, exists_map_eq_ok, Prototype.exists_returnSite]
  | parami | reti => simp [Prototype.HasOperands, hop]
  | _ =>
      have plain : (∃ op, p.plainOp n i = .ok op) ↔ p.HasOperands i :=
        Prototype.exists_plainOp (by simp [hop]) (by simp [hop])
      simp [← plain, exists_map_eq_ok]

/-- An instruction has a step exactly if it is well formed where it stands. -/
theorem Fits.exists_next (hs : s.Fits p n) :
    (∃ out, s.next p n i (p.code.drop (n + 1)) = .ok out) ↔ p.WellFormedAt n i := by
  by_cases hresult : i.op = .result
  · rw [Prototype.wellFormedAt_iff_called hresult, ← hs.exists_result, Planning.next, hresult]
  · cases hcall : i.op.callKind? with
    | none =>
        rw [Prototype.wellFormedAt_iff_operands hcall hresult]
        exact exists_next_operands hcall hresult
    | some kind =>
        rw [← hs.exists_call hcall, Planning.next]
        cases hop : i.op <;> rw [hop] at hcall <;> cases hcall <;> rfl

theorem exists_walk {code : List Instr} (hs : p.Carries n s) (hcode : p.code.drop n = code)
    (hall : ∀ m i, n ≤ m → p.code[m]? = some i → p.WellFormedAt m i) :
    ∃ out, walk p n s code = .ok out := by
  induction code generalizing n s with
  | nil => exact ⟨([], s), rfl⟩
  | cons i rest ih =>
      have hi : p.code[n]? = some i := by
        rw [← List.head?_drop, hcode]
        rfl
      have hrest : p.code.drop (n + 1) = rest := by
        rw [← List.tail_drop, hcode]
        rfl
      obtain ⟨⟨step, s'⟩, hnext⟩ := (Fits.of_carries hs).exists_next.2 (hall n i (Nat.le_refl n) hi)
      obtain ⟨⟨steps, last⟩, hwalk⟩ := ih (hs.next hi hnext) hrest
        fun m j hm hj => hall m j (Nat.le_of_succ_le hm) hj
      refine ⟨((step, s'.snapshot) :: steps, last), ?_⟩
      rw [walk, ← hrest, hnext]
      simp only [bind, Except.bind, hrest, hwalk, pure, Except.pure]

end Planning

/-- A body has a plan exactly if it is well formed. -/
theorem plan_iff_wellFormed (p : Prototype) : (∃ plan, p.plan = .ok plan) ↔ p.WellFormed := by
  constructor
  · rintro ⟨plan, h⟩ n i hi
    obtain ⟨s, step, s', hs, hnext, -⟩ := Prototype.plan_step h hi
    exact (Planning.Fits.of_carries hs).exists_next.1 ⟨(step, s'), hnext⟩
  · intro h
    obtain ⟨⟨steps, last⟩, hwalk⟩ :=
      Planning.exists_walk .start List.drop_zero fun n i _ hi => h n i hi
    exact ⟨_, by rw [Prototype.plan, hwalk]; rfl⟩

end CallProtocol
