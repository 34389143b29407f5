import CallProtocol.Proofs.Execution.Reaches

/-!
# The fidelity of arguments

`Prototype.waiting` says which records wait for a call when a body has come to some
instruction. It is told by the instructions alone: a parameter instruction adds the
records of its sources as they are at that moment, and a call takes the last ones away.
Nothing else touches them, neither what happens to the registers nor what calls do in
between.

The plan decides where the records are kept. `Task.Staged` is the invariant that ties
the two: the outgoing array begins with the records that wait, in their order, and what
is behind them is of no account.
-/

namespace CallProtocol

namespace Activation

/-- The record of a register. A string register is passed by reference. -/
def record (a : Activation) : Bank → Nat → Value
  | .int, r => .int (a.locals.get .int r)
  | .float, r => .float (a.locals.get .float r)
  | .string, r => .string (.register a.frame r)
  | .pointer, r => .pointer (a.locals.get .pointer r)

/-- The records that an instruction adds to those that wait. A float of several
components has one for each of them. -/
def records (a : Activation) (i : Instr) : List Value :=
  match i.op with
  | .parami => [.int i.sax]
  | .param =>
    match RegType.ofBits? i.b with
    | some ⟨.nil, _⟩ => [.nil]
    | some ⟨.of b, .plain⟩ => [a.record b i.c.toNat]
    | some ⟨.of b, .constant⟩ => [.ofCell ⟨b, a.proto.constants.get b i.c.toNat⟩]
    | some ⟨.of b, .address⟩ => [.pointer (.slot (a.slot b i.c.toNat))]
    | some ⟨.of _, m⟩ => (List.range m.components).map fun k => a.record .float (i.c.toNat + k)
    | none => []
  | _ => []

end Activation

/-- The records that wait for a call, after the states `past` of an activation. -/
def Prototype.waiting (p : Prototype) : List Activation → List Value
  | [] => []
  | a :: past =>
    match p.code[past.length]? with
    | none => p.waiting past
    | some i =>
      match i.op.callKind? with
      | none => p.waiting past ++ a.records i
      | some _ => (p.waiting past).take ((p.waiting past).length - i.b.toNat)

namespace Prototype

theorem waiting_cons {p : Prototype} {past : List Activation} {i : Instr} (a : Activation)
    (hi : p.code[past.length]? = some i) (hop : i.op.callKind? = none) :
    p.waiting (a :: past) = p.waiting past ++ a.records i := by
  rw [waiting, hi]
  dsimp only
  rw [hop]

theorem waiting_call {p : Prototype} {past : List Activation} {i : Instr} {kind : CallKind}
    (a : Activation) (hi : p.code[past.length]? = some i) (hop : i.op.callKind? = some kind) :
    p.waiting (a :: past) = (p.waiting past).take ((p.waiting past).length - i.b.toNat) := by
  rw [waiting, hi]
  dsimp only
  rw [hop]

end Prototype

namespace Activation

theorem stagedValue_reg (a : Activation) (m : Machine) (b : Bank) (r : Nat) :
    a.stagedValue m (.reg b r) = a.record b r := by
  cases b <;> rfl

theorem map_stagedValue_param {a : Activation} {p : Prototype} {pc index : Nat} {t : RegType}
    {sources : List Source} (h : p.paramSources pc t index = .ok sources) (m : Machine) :
    sources.map (a.stagedValue m) =
      match t with
      | ⟨.nil, _⟩ => [.nil]
      | ⟨.of b, .plain⟩ => [a.record b index]
      | ⟨.of b, .constant⟩ => [.ofCell ⟨b, a.proto.constants.get b index⟩]
      | ⟨.of b, .address⟩ => [.pointer (.slot (a.slot b index))]
      | ⟨.of _, w⟩ => (List.range w.components).map fun k => a.record .float (index + k) := by
  rcases t with ⟨kind, modifier⟩
  simp only [Prototype.paramSources] at h
  split at h
  · cases h
    rfl
  · next b =>
      obtain ⟨source, hsource, h⟩ := bind_eq_ok h
      obtain ⟨-, -, hreg⟩ := bind_eq_ok hsource
      cases hreg
      cases h
      rw [List.map_singleton, stagedValue_reg]
  · obtain ⟨source, hsource, h⟩ := bind_eq_ok h
    obtain ⟨-, -, hconst⟩ := bind_eq_ok hsource
    cases hconst
    cases h
    rfl
  · obtain ⟨-, -, h⟩ := bind_eq_ok h
    cases h
    rfl
  · next hplain hconstant haddress =>
      obtain ⟨-, -, h⟩ := bind_eq_ok h
      cases h
      have hreg : (a.stagedValue m ∘ fun k => Source.reg .float (index + k)) =
          fun k => a.record .float (index + k) := by
        funext k
        exact a.stagedValue_reg m .float (index + k)
      rw [List.map_map, hreg]
      cases modifier with
      | plain => exact (hplain rfl).elim
      | constant => exact (hconstant rfl).elim
      | address => exact (haddress rfl).elim
      | pair => rfl
      | triple => rfl
  · cases h

theorem map_stagedValue {a : Activation} {pc : Nat} {i : Instr} {sources : List Source}
    (h : (i.op = .parami ∧ sources = [.imm i.sax]) ∨
      (i.op = .param ∧ ∃ t, RegType.ofBits? i.b = some t ∧
        a.proto.paramSources pc t i.c.toNat = .ok sources)) (m : Machine) :
    sources.map (a.stagedValue m) = a.records i := by
  rcases h with ⟨hop, rfl⟩ | ⟨hop, t, ht, hsources⟩
  · rw [records, hop]
    rfl
  · rw [records, hop]
    dsimp only
    rw [ht, map_stagedValue_param hsources]
    rcases t with ⟨_ | b, _ | _ | _ | _ | _⟩ <;> rfl

theorem outgoing_quiet {a a' : Activation} {m m' : Machine} {s : Step}
    (h : a.quiet m s = some (a', m')) (hs : ∀ slot params, s ≠ .stage slot params) :
    a'.outgoing = a.outgoing := by
  rcases quiet_cases h with ⟨op, -, hop⟩ | ⟨slot, params, hstage, -⟩ | ⟨-, -, rfl, -⟩ |
    ⟨-, -, -, rfl, -⟩
  · have hfst : a' = (a.plain m op).1 := by rw [hop]
    rw [hfst]
    rcases a.plain_cases m op with hplain | ⟨b, r, x, hplain⟩
    · rw [hplain]
    · rw [hplain]
      rcases a.assign_cases m b r x with ⟨-, hassign⟩ | ⟨-, hassign⟩
      · rw [hassign]
      · rw [hassign]
  · exact absurd hstage (hs slot params)
  · rfl
  · rfl

theorem outgoing_refresh (a : Activation) (m : Machine) (regs : List (Bank × Nat)) :
    (a.refresh m regs).outgoing = a.outgoing := by
  induction regs generalizing a with
  | nil => rfl
  | cons p regs ih =>
      rw [refresh, List.foldl_cons]
      split
      · exact ih _
      · exact ih a

/-- Staging from a slot on fills the slots behind it and keeps those before it. -/
theorem outgoing_stage (a : Activation) (m : Machine) {slot : Nat} {params : List Staged}
    (room : slot + params.length ≤ a.outgoing.length) :
    (a.stage m slot params).outgoing.length = a.outgoing.length ∧
      (a.stage m slot params).outgoing.take (slot + params.length) =
        a.outgoing.take slot ++ params.map fun p => a.stagedValue m p.source := by
  induction params generalizing a slot with
  | nil => simp [stage]
  | cons p ps ih =>
      rw [List.length_cons] at room
      have hslot : slot < a.outgoing.length := by omega
      let a₁ := { a with outgoing := a.outgoing.set slot (a.stagedValue m p.source) }
      have hlength : a₁.outgoing.length = a.outgoing.length := List.length_set
      have hvalue : ∀ s, a₁.stagedValue m s = a.stagedValue m s := by
        intro s
        cases s <;> rfl
      have hfilled : a₁.outgoing.take (slot + 1) =
          a.outgoing.take slot ++ [a.stagedValue m p.source] := by
        rw [List.take_succ_eq_append_getElem (by omega), List.take_set_of_le (Nat.le_refl _),
          List.getElem_set_self]
      obtain ⟨hlength', htake⟩ := @ih a₁ (slot + 1) (by omega)
      refine ⟨hlength'.trans hlength, ?_⟩
      have hadd : slot + (p :: ps).length = slot + 1 + ps.length := by
        rw [List.length_cons]
        omega
      rw [stage, hadd, htake, hfilled, List.append_assoc, List.map_cons]
      simp only [hvalue, List.singleton_append]

/-- A callee is handed a window of the outgoing array, whatever kind of call it is. -/
theorem params_handoverFor (a : Activation) (c : CallSite) :
    (a.handoverFor c).params = (a.outgoing.drop c.window.start).take c.window.params.length := by
  rw [handoverFor]
  cases c.kind <;> rfl

theorem records_eq_nil {a : Activation} {i : Instr} (h : i.op.stages = false) :
    a.records i = [] := by
  rw [records]
  split
  · next hop =>
      rw [hop] at h
      cases h
  · next hop =>
      rw [hop] at h
      cases h
  · rfl

end Activation

/-- The outgoing array of a body begins with the records that wait for a call. -/
def Task.Staged (past : List Activation) : Task → Prop
  | .body _ a =>
    ∃ s, a.proto.Carries past.length s ∧ s.staging.entries.length ≤ a.outgoing.length ∧
      a.outgoing.take s.staging.entries.length = a.proto.waiting past
  | _ => True

namespace Task

theorem Staged.quiet {past : List Activation} {s : Step} {rest : List Step} {a a' : Activation}
    {m m₁ : Machine} (h : (Task.body (s :: rest) a).Staged past)
    (position : (Task.body (s :: rest) a).At past.length) (step : a.quiet m s = some (a', m₁)) :
    (Task.body rest a').Staged (a :: past) := by
  obtain ⟨t, ht, hle, htake⟩ := h
  obtain ⟨i, u, u', hi, hu, hnext⟩ := position.step
  obtain rfl := ht.unique hu
  have hproto := (Activation.sameBody_quiet step).proto
  have hcarries := ht.next hi hnext
  rcases Planning.next_cases hnext with ⟨kind, c, -, rfl, -, -⟩ |
    ⟨sources, -, hop, hsources, rfl, hentries⟩ | ⟨hstages, hop, hstaging, -, hstage⟩
  · cases step
  · simp only [Activation.quiet] at step
    split at step
    · next room =>
        cases step
        have room := of_decide_eq_true room
        obtain ⟨hlength, hfilled⟩ := a.outgoing_stage m room
        refine ⟨u', hproto ▸ hcarries, ?_, ?_⟩
        · rw [hentries, List.length_append, hlength]
          exact room
        · rw [hproto, Prototype.waiting_cons a hi hop, hentries, List.length_append, hfilled, htake,
            ← Activation.map_stagedValue hsources m, List.map_map]
          rfl
    · cases step
  · have hout := Activation.outgoing_quiet step hstage
    refine ⟨u', hproto ▸ hcarries, by rwa [hstaging, hout], ?_⟩
    rw [hproto, Prototype.waiting_cons a hi hop, Activation.records_eq_nil hstages, hstaging, hout,
      List.append_nil, htake]

theorem Staged.call {past : List Activation} {c : CallSite} {rest : List Step} {a : Activation}
    (h : (Task.body (.call c :: rest) a).Staged past)
    (position : (Task.body (.call c :: rest) a).At past.length) :
    ∃ (i : Instr) (t t' : Planning),
      a.proto.code[past.length]? = some i ∧ i.op.callKind? = some c.kind ∧
      a.proto.Carries (past.length + 1) t' ∧ t.Calls a.proto past.length i c t' ∧
      t.staging.entries.length = (a.proto.waiting past).length ∧
      (a.proto.waiting past).length ≤ a.outgoing.length ∧
      a.outgoing.take (a.proto.waiting past).length = a.proto.waiting past := by
  obtain ⟨t, ht, hle, htake⟩ := h
  obtain ⟨i, u, u', hi, hu, hnext⟩ := position.step
  obtain rfl := ht.unique hu
  have hlength : t.staging.entries.length = (a.proto.waiting past).length := by
    rw [← htake, List.length_take, Nat.min_eq_left hle]
  obtain ⟨hop, calls⟩ := Planning.calls_of_next hnext
  exact ⟨i, t, u', hi, hop, ht.next hi hnext, calls, hlength, hlength ▸ hle, hlength ▸ htake⟩

end Task

/-- A call that resumes its caller leaves the records that it has not taken. -/
theorem Task.Staged.resumed {past : List Activation} {c : CallSite} {rest : List Step}
    {a : Activation} (h : (Task.body (.call c :: rest) a).Staged past)
    (position : (Task.body (.call c :: rest) a).At past.length) (m : Machine) :
    (Task.body rest (a.afterCall m c)).Staged (a :: past) := by
  obtain ⟨i, t, t', hi, hop, hcarries, calls, hlength, hle, htake⟩ := h.call position
  have hproto := (a.sameBody_refresh m (a.inOuts c ++ Activation.resultRegs c)).proto
  have hout := a.outgoing_refresh m (a.inOuts c ++ Activation.resultRegs c)
  have hkept : t'.staging.entries.length = (a.proto.waiting past).length - i.b.toNat := by
    rw [calls.entries, List.length_take, hlength]
    omega
  refine ⟨t', hproto ▸ hcarries, ?_, ?_⟩
  · rw [Activation.afterCall, hout, hkept]
    omega
  · have hwaiting := congrArg (List.take ((a.proto.waiting past).length - i.b.toNat)) htake
    rw [List.take_take, Nat.min_eq_left (Nat.sub_le _ _)] at hwaiting
    rw [Activation.afterCall, hproto, Prototype.waiting_call a hi hop, hout, hkept, hwaiting]

/-- At every instruction of every body, the records that wait are in their place. -/
theorem Reaches.staged {p : Program} {e : Entry} {f : FuncRef} {name : String} {h : Handover}
    {m₀ : Machine} {past : List Activation} {steps : List Step} {a : Activation} {m : Machine}
    (reached : Reaches p (.entry e f name h) m₀ past (.body steps a) m) :
    (Task.body steps a).Staged past := by
  refine reached.invariant (P := fun past steps a _ => (Task.body steps a).Staged past) ?_ ?_ ?_
  · intro code name h m m₁ fr room
    exact ⟨{}, .start, Nat.zero_le _, rfl⟩
  · intro past s rest a a' m m₁ prior staged step
    exact staged.quiet prior.position step
  · intro past c rest a m m₁ m₂ τ r prior staged callee call resumes kind
    exact staged.resumed prior.position m₂

/-- At every call that is made, the callee gets as many records as the instruction
declares, and they are the last ones of those that wait, in the order in which they were
staged. Each has been made when its parameter instruction was executed. -/
theorem arguments_faithful {p : Program} {e : Entry} {f : FuncRef} {name : String}
    {h : Handover} {m₀ m : Machine} {past : List Activation} {steps : List Step} {a : Activation}
    (reached : Reaches p (.entry e f name h) m₀ past (.body steps a) m) {i : Instr}
    (hi : a.proto.code[past.length]? = some i) {kind : CallKind}
    (hop : i.op.callKind? = some kind) :
    ∃ c rest, steps = .call c :: rest ∧ c.kind = kind ∧
      i.b.toNat ≤ (a.proto.waiting past).length ∧
      (a.handoverFor c).params.length = i.b.toNat ∧
      (a.handoverFor c).params =
        (a.proto.waiting past).drop ((a.proto.waiting past).length - i.b.toNat) ∧
      ∀ τ m₁, p.callee? a c (a.beforeCall m c) = some (τ, m₁) →
        τ = .null ∨ τ.handover? = some (a.handoverFor c) := by
  obtain ⟨s, rest, rfl⟩ := reached.position.steps hi
  obtain ⟨i', t, t', hi', -, hnext⟩ := reached.position.step
  obtain rfl := Option.some.inj (hi.symm.trans hi')
  rcases Planning.next_cases hnext with ⟨kind', c, hop', rfl, hkind, -⟩ |
    ⟨_, _, hnone, _⟩ | ⟨_, hnone, _⟩
  · obtain ⟨j, u, u', hj, -, -, calls, hlength, hle, htake⟩ := reached.staged.call reached.position
    obtain rfl := Option.some.inj (hi.symm.trans hj)
    have enough := calls.enough
    rw [hlength] at enough
    have hparams : (a.handoverFor c).params =
        (a.proto.waiting past).drop ((a.proto.waiting past).length - i.b.toNat) := by
      rw [Activation.params_handoverFor, calls.window, List.length_drop, hlength, ← List.drop_take,
        htake]
    refine ⟨c, rest, rfl, ?_, enough, ?_, hparams, ?_⟩
    · rw [hkind]
      exact Option.some.inj (hop'.symm.trans hop)
    · rw [hparams, List.length_drop]
      omega
    · intro τ m₁ callee
      rcases Program.callee?_cases callee with ⟨rfl, -⟩ | ⟨g, rfl, -⟩ | ⟨g, e', -, rfl, -⟩
      · exact .inl rfl
      · exact .inr rfl
      · exact .inr rfl
  · rw [hop] at hnone
    cases hnone
  · rw [hop] at hnone
    cases hnone

/-! ## A call that takes one of two records -/

def stageTwo : Prototype where
  code := [.param .nil 0, .param (.of .int) 0, .callConst 0 1 0, .retImm 0 true 0]
  constants := { pointers := [.function (.script 0)] }
  registers := { ints := 1 }

def stageTwoPlan : Plan where
  steps := [.stage 0 [⟨0, .nil⟩], .stage 1 [⟨1, .reg .int 0⟩],
    .call ⟨2, .call, .static 0 false, ⟨1, [⟨1, .reg .int 0⟩]⟩, []⟩,
    .ret ⟨0, true, .imm 0, 1, .int, .of .int⟩]
  layout := { registers := { ints := 1 }, params := 2 }
  states := [⟨[⟨0, .nil⟩], []⟩, ⟨[⟨0, .nil⟩, ⟨1, .reg .int 0⟩], []⟩, ⟨[⟨0, .nil⟩], []⟩,
    ⟨[⟨0, .nil⟩], []⟩]

theorem stageTwo_plan : stageTwo.plan = .ok stageTwoPlan := rfl

def stageTwoCode : Code := ⟨stageTwo, stageTwoPlan, stageTwo_plan⟩

/-- The register holds the int that the body has been called with. Of the two records the
callee gets the one that was staged last. -/
theorem arguments_faithful_stageTwo :
    ∃ past steps a m,
      Reaches {} (.entry (.compiled stageTwoCode) (.script 1) "two" ⟨[.int 5], [], 0⟩) {} past
        (.body steps a) m ∧
      a.proto.waiting past = [.nil, .int 5] ∧
      ∃ c rest, steps = .call c :: rest ∧ (a.handoverFor c).params = [.int 5] := by
  have begun : Reaches {} (.entry (.compiled stageTwoCode) (.script 1) "two" ⟨[.int 5], [], 0⟩) {}
      [] (.body stageTwoPlan.steps (.start stageTwoCode "two" ⟨[.int 5], [], 0⟩
        ⟨0, stageTwoPlan.layout, { ints := [5] }⟩)) _ := .begun .start rfl
  have reached := (begun.quiet rfl).quiet rfl
  obtain ⟨c, rest, hsteps, -, -, -, hparams, -⟩ := arguments_faithful reached rfl rfl
  exact ⟨_, _, _, _, reached, rfl, c, rest, hsteps, hparams⟩

end CallProtocol
