import CallProtocol.Proofs.ArgumentFidelity
import CallProtocol.Proofs.Execution.Lookups
import CallProtocol.Proofs.Machine.Capacities
import CallProtocol.Proofs.Plan.DeadSteps

/-!
# Activations of bodies with the same live steps

An activation looks at the constants and the register counts of its prototype and never at its
code, and of the outgoing parameters at those that wait for a call. So two activations can be
`Alike` while the codes and the lengths of their outgoing arrays are different. Such
activations do the same in every step that is the same, until one of them has no room for a
parameter.
-/

namespace CallProtocol

/-- Two runs have the same answer, on machines that are the same but for the capacities of
frames. If they are complete, then none of them has an outcome without the other. -/
structure Agree {α : Type} (complete : Prop) (o o' : Option (α × Machine)) : Prop where
  same : ∀ x x' m m', o = some (x, m) → o' = some (x', m') → x' = x ∧ m'.bare = m.bare
  both : complete → o'.isSome = o.isSome

namespace Agree

variable {α β : Type} {complete : Prop}

theorem some {q q' : α × Machine} (answer : q'.1 = q.1) (same : q'.2.bare = q.2.bare) :
    Agree complete (some q) (some q') where
  same x x' m m' hq hq' := by
    obtain rfl := Option.some.inj hq
    obtain rfl := Option.some.inj hq'
    exact ⟨answer, same⟩
  both _ := rfl

theorem none : Agree complete (none : Option (α × Machine)) none where
  same := by
    rintro _ _ _ _ ⟨⟩
  both _ := rfl

/-- Where one run ends without an outcome they are not complete. -/
theorem of_eq_none {o o' : Option (α × Machine)} (incomplete : ¬ complete)
    (h : o = .none ∨ o' = .none) : Agree complete o o' where
  same := by
    rintro _ _ _ _ rfl rfl
    rcases h with h | h <;> cases h
  both h := absurd h incomplete

theorem bind {o o' : Option (α × Machine)} {f f' : α × Machine → Option (β × Machine)}
    (h : Agree complete o o')
    (hf : ∀ x m m', m'.bare = m.bare → Agree complete (f (x, m)) (f' (x, m'))) :
    Agree complete (o.bind f) (o'.bind f') := by
  cases o with
  | none =>
      cases o' with
      | none => exact .none
      | some q' => exact of_eq_none (fun hc => by cases h.both hc) (.inl rfl)
  | some q =>
      cases o' with
      | none => exact of_eq_none (fun hc => by cases h.both hc) (.inr rfl)
      | some q' =>
          obtain ⟨x, m⟩ := q
          obtain ⟨x', m'⟩ := q'
          obtain ⟨rfl, hm⟩ := h.same _ _ _ _ rfl rfl
          exact hf _ m m' hm

theorem map {o o' : Option (α × Machine)} {f f' : α × Machine → β × Machine}
    (h : Agree complete o o')
    (hf : ∀ x m m', m'.bare = m.bare →
      (f' (x, m')).1 = (f (x, m)).1 ∧ (f' (x, m')).2.bare = (f (x, m)).2.bare) :
    Agree complete (o.map f) (o'.map f') := by
  rw [Option.map_eq_bind, Option.map_eq_bind]
  exact h.bind fun x m m' hm => .some (hf x m m' hm).1 (hf x m m' hm).2

/-- If a condition fails then there is no outcome. It fails in both of two complete runs. -/
theorem ite {o o' : Option (α × Machine)} {b b' : Bool} (h : complete → b' = b)
    (both : b = true → b' = true → Agree complete o o') :
    Agree complete (if b then o else .none) (if b' then o' else .none) := by
  cases b with
  | false =>
      cases b' with
      | false => exact .none
      | true => exact of_eq_none (fun hc => by cases h hc) (.inl rfl)
  | true =>
      cases b' with
      | false => exact of_eq_none (fun hc => by cases h hc) (.inr rfl)
      | true => exact both rfl rfl

theorem of_bare {f : Machine → α × Machine} (hf : ∀ m, f m.bare = ((f m).1, (f m).2.bare))
    {m m' : Machine} (h : m'.bare = m.bare) :
    Agree complete (Option.some (f m)) (Option.some (f m')) := by
  have heq : ((f m').1, (f m').2.bare) = ((f m).1, (f m).2.bare) := by rw [← hf, ← hf, h]
  exact .some (Prod.mk.inj heq).1 (Prod.mk.inj heq).2

end Agree

def Invoke.Agree (complete : Prop) (invoke invoke' : Invoke) : Prop :=
  ∀ (f : FuncRef) (h : Handover) (m m' : Machine), m'.bare = m.bare →
    CallProtocol.Agree complete (invoke f h m) (invoke' f h m')

namespace Activation

def core (a : Activation) : Activation :=
  { a with proto := { a.proto with code := [] }, outgoing := [] }

/-! ## What the core is enough for -/

section

variable (a : Activation) (m : Machine)

theorem cell?_core (s : Source) : a.core.cell? m.bare s = a.cell? m s := by
  cases s with
  | reg b r => simp [cell?, regCell, read, core, slot]
  | _ => rfl

theorem read_core (b : Bank) (r : Nat) : a.core.read m.bare b r = a.read m b r := by
  simp [read, core, slot]

theorem assign_core (b : Bank) (r : Nat) (x : b.Content) :
    a.core.assign m.bare b r x = ((a.assign m b r x).1.core, (a.assign m b r x).2.bare) := by
  rw [assign, assign]
  split
  · rfl
  · rw [Machine.bare_store]
    rfl

theorem plain_core (op : PlainOp) :
    a.core.plain m.bare op = ((a.plain m op).1.core, (a.plain m op).2.bare) := by
  cases op with
  | nop => rfl
  | assign b r source =>
      rw [plain, plain, cell?_core]
      split
      · exact a.assign_core m b r _
      · rfl
  | addInts r x y =>
      rw [plain, plain, read_core, read_core]
      exact a.assign_core m .int r _
  | addFloats r x y =>
      rw [plain, plain, read_core, read_core]
      exact a.assign_core m .float r _

theorem core_stage (slot : Nat) (params : List Staged) : (a.stage m slot params).core = a.core := by
  induction params generalizing a slot with
  | nil => rfl
  | cons p ps ih => exact (ih _ _).trans rfl

theorem stagedValue_core (s : Source) : a.core.stagedValue m.bare s = a.stagedValue m s := by
  rcases stagedValue_cases s with ⟨r, rfl⟩ | h
  · rfl
  · rw [h, h, cell?_core]

theorem flush_core (regs : List (Bank × Nat)) :
    a.core.flush m.bare regs = (a.flush m regs).bare := by
  induction regs generalizing m with
  | nil => rfl
  | cons p regs ih =>
      rw [flush, flush, List.foldl_cons, List.foldl_cons]
      refine Eq.trans ?_ (ih _)
      rw [Machine.bare_store]
      rfl

theorem refresh_core (regs : List (Bank × Nat)) :
    a.core.refresh m.bare regs = (a.refresh m regs).core := by
  induction regs generalizing a with
  | nil => rfl
  | cons p regs ih =>
      rw [refresh, refresh, List.foldl_cons, List.foldl_cons]
      refine Eq.trans ?_ (ih _)
      rw [Machine.load_bare]
      cases p.1.isCached <;> rfl

theorem giveBack_core (r : ReturnSite) : a.core.giveBack m.bare r = (a.giveBack m r).bare := by
  have cells : a.core.returnCells m.bare r = a.returnCells m r := by
    simp only [returnCells, cell?_core]
    cases r.source <;> simp [regCell, read_core]
  have wants : a.core.wants r.slot = a.wants r.slot := rfl
  have returns : a.core.handover.returns = a.handover.returns := rfl
  rw [giveBack, giveBack, cells, wants, returns]
  cases a.handover.returns[r.slot]? with
  | none => split <;> rfl
  | some d =>
      split
      · exact (m.bare_write _).symm
      · rfl

end

/-- The activations are the same but for their code and for what is above `height` in their
outgoing arrays. -/
structure Alike (height : Nat) (a a' : Activation) : Prop where
  core : a'.core = a.core
  staged : a'.outgoing.take height = a.outgoing.take height
  room : height ≤ a.outgoing.length
  room' : height ≤ a'.outgoing.length

namespace Alike

variable {height : Nat} {a a' : Activation} {m m' : Machine}

theorem name (h : a.Alike height a') : a'.name = a.name := by
  change a'.core.name = a.core.name
  rw [h.core]

theorem frame (h : a.Alike height a') : a'.frame = a.frame := by
  change a'.core.frame = a.core.frame
  rw [h.core]

theorem handover (h : a.Alike height a') : a'.handover = a.handover := by
  change a'.core.handover = a.core.handover
  rw [h.core]

theorem constants (h : a.Alike height a') : a'.proto.constants = a.proto.constants := by
  change a'.core.proto.constants = a.core.proto.constants
  rw [h.core]

theorem inOuts (h : a.Alike height a') (c : CallSite) : a'.inOuts c = a.inOuts c := by
  change a'.core.inOuts c = a.core.inOuts c
  rw [h.core]

theorem read (h : a.Alike height a') (same : m'.bare = m.bare) (b : Bank) (r : Nat) :
    a'.read m' b r = a.read m b r := by
  rw [← a'.read_core, ← a.read_core, h.core, same]

theorem stagedValue (h : a.Alike height a') (same : m'.bare = m.bare) (s : Source) :
    a'.stagedValue m' s = a.stagedValue m s := by
  rw [← a'.stagedValue_core, ← a.stagedValue_core, h.core, same]

theorem flush (h : a.Alike height a') (same : m'.bare = m.bare) (regs : List (Bank × Nat)) :
    (a'.flush m' regs).bare = (a.flush m regs).bare := by
  rw [← flush_core, ← flush_core, h.core, same]

theorem giveBack (h : a.Alike height a') (same : m'.bare = m.bare) (r : ReturnSite) :
    (a'.giveBack m' r).bare = (a.giveBack m r).bare := by
  rw [← giveBack_core, ← giveBack_core, h.core, same]

theorem refresh (h : a.Alike height a') (same : m'.bare = m.bare) (regs : List (Bank × Nat)) :
    (a.refresh m regs).Alike height (a'.refresh m' regs) where
  core := by rw [← refresh_core, ← refresh_core, h.core, same]
  staged := by rw [outgoing_refresh, outgoing_refresh, h.staged]
  room := by rw [outgoing_refresh]; exact h.room
  room' := by rw [outgoing_refresh]; exact h.room'

theorem plain (h : a.Alike height a') (same : m'.bare = m.bare) (op : PlainOp) :
    (a.plain m op).1.Alike height (a'.plain m' op).1 ∧
      (a'.plain m' op).2.bare = (a.plain m op).2.bare := by
  have heq : ((a'.plain m' op).1.core, (a'.plain m' op).2.bare) =
      ((a.plain m op).1.core, (a.plain m op).2.bare) := by
    rw [← plain_core, ← plain_core, h.core, same]
  obtain ⟨core, bare⟩ := Prod.mk.inj heq
  have kept : ∀ (a : Activation) (m : Machine), (a.plain m op).1.outgoing = a.outgoing :=
    fun a m => outgoing_quiet (s := .plain op) rfl nofun
  exact ⟨⟨core, by rw [kept, kept, h.staged], by rw [kept]; exact h.room,
    by rw [kept]; exact h.room'⟩, bare⟩

theorem stage (h : a.Alike height a') (same : m'.bare = m.bare) {params : List Staged}
    (room : height + params.length ≤ a.outgoing.length)
    (room' : height + params.length ≤ a'.outgoing.length) :
    (a.stage m height params).Alike (height + params.length) (a'.stage m' height params) := by
  obtain ⟨length, staged⟩ := a.outgoing_stage m room
  obtain ⟨length', staged'⟩ := a'.outgoing_stage m' room'
  refine ⟨by rw [core_stage, core_stage, h.core], ?_, by rwa [length], by rwa [length']⟩
  have values : (fun p : Staged => a'.stagedValue m' p.source) =
      fun p => a.stagedValue m p.source := by
    funext p
    exact h.stagedValue same p.source
  rw [staged, staged', h.staged, values]

theorem mono {lower : Nat} (h : a.Alike height a') (hle : lower ≤ height) : a.Alike lower a' where
  core := h.core
  staged := by
    have cut := congrArg (List.take lower) h.staged
    rwa [List.take_take, List.take_take, Nat.min_eq_left hle] at cut
  room := Nat.le_trans hle h.room
  room' := Nat.le_trans hle h.room'

theorem handoverFor (h : a.Alike height a') {c : CallSite}
    (window : c.window.start + c.window.params.length = height) :
    a'.handoverFor c = a.handoverFor c := by
  have params : ∀ a : Activation, (a.outgoing.drop c.window.start).take c.window.params.length =
      (a.outgoing.take height).drop c.window.start := by
    intro a
    rw [List.drop_take, ← window, Nat.add_sub_cancel_left]
  have descriptor : a'.descriptor = a.descriptor := by
    funext r
    rw [Activation.descriptor, Activation.descriptor, slot, slot, h.frame]
  rw [Activation.handoverFor, Activation.handoverFor, params, params, h.staged, descriptor,
    h.handover]

end Alike

end Activation

/-! ## Runs -/

namespace Program

variable {p : Program} {complete : Prop} {invoke invoke' : Invoke} {height : Nat}
  {a a' : Activation} {m m' : Machine}

theorem agree_scriptCall (callees : invoke.Agree complete invoke') (f : FuncRef) (h : Handover)
    (same : m'.bare = m.bare) :
    Agree complete (scriptCall invoke f h m) (scriptCall invoke' f h m') :=
  callees f h _ _ (congrArg (fun m : Machine => { m with callCount := m.callCount + 1 }) same)

theorem agree_nativeCall (p : Program) (f : FuncRef) (h : Handover) (same : m'.bare = m.bare) :
    Agree complete (some (p.nativeCall f h m)) (some (p.nativeCall f h m')) :=
  .of_bare (p.nativeCall_bare f h) same

theorem agree_dispatch (callees : invoke.Agree complete invoke') (alike : a.Alike height a')
    {c : CallSite} (window : c.window.start + c.window.params.length = height)
    (same : m'.bare = m.bare) :
    Agree complete (p.dispatch invoke a c m) (p.dispatch invoke' a' c m') := by
  rw [dispatch, dispatch, alike.handoverFor window, alike.constants]
  cases c.callee with
  | static k native =>
      simp only [staticCall]
      split
      · split
        · exact p.agree_nativeCall _ _ same
        · exact agree_scriptCall callees _ _ same
      · exact .none
  | register r =>
      simp only [dynamicCall, alike.read same]
      split
      · exact .of_bare (fun m => congrArg _ (m.bare_raise _).symm) same
      · split
        · split
          · exact p.agree_nativeCall _ _ same
          · exact agree_scriptCall callees _ _ same
        · exact .none

/-- Alike activations run the same steps alike. They are complete if they have room for the same
parameters. -/
theorem agree_runSteps (callees : invoke.Agree complete invoke') {steps : List Step}
    (stacked : Step.Stacked height steps) (alike : a.Alike height a')
    (rooms : complete → ∀ slot params, .stage slot params ∈ steps →
      a'.hasRoom slot params = a.hasRoom slot params)
    (same : m'.bare = m.bare) :
    Agree complete (p.runSteps invoke steps a m) (p.runSteps invoke' steps a' m') := by
  have pop : ∀ {m m' : Machine}, m'.bare = m.bare → m'.pop.bare = m.pop.bare := by
    intro m m' same
    rw [Machine.bare_pop, Machine.bare_pop, same]
  induction steps generalizing height a a' m m' with
  | nil => exact .some rfl (pop same)
  | cons s rest ih =>
      -- The lengths of the outgoing arrays stay what they are, and with them the room.
      have behind : ∀ {b b' : Activation}, b.outgoing.length = a.outgoing.length →
          b'.outgoing.length = a'.outgoing.length → complete → ∀ slot params,
            .stage slot params ∈ rest → b'.hasRoom slot params = b.hasRoom slot params := by
        intro b b' length length' hc slot params hmem
        have hroom := rooms hc slot params (List.mem_cons_of_mem _ hmem)
        rwa [Activation.hasRoom, Activation.hasRoom, ← length, ← length'] at hroom
      cases s with
      | plain op =>
          obtain ⟨alike', same'⟩ := alike.plain same op
          have kept : ∀ (a : Activation) (m : Machine),
              (a.plain m op).1.outgoing.length = a.outgoing.length := fun a m =>
            congrArg List.length (Activation.outgoing_quiet (s := .plain op) rfl nofun)
          exact ih stacked alike' (behind (kept a m) (kept a' m')) same'
      | result spec => exact ih stacked alike (behind rfl rfl) same
      | stage slot params =>
          obtain ⟨rfl, stacked⟩ := stacked
          rw [runSteps, runSteps]
          refine .ite (fun hc => rooms hc slot params List.mem_cons_self) fun room room' => ?_
          have room := of_decide_eq_true room
          have room' := of_decide_eq_true room'
          exact ih stacked (alike.stage same room room')
            (behind (a.outgoing_stage m room).1 (a'.outgoing_stage m' room').1) same
      | call c =>
          obtain ⟨window, stacked⟩ := stacked
          rw [runSteps, runSteps]
          have below := alike.mono (Nat.le.intro window)
          refine (agree_dispatch callees alike window
            (alike.inOuts c ▸ alike.flush same (a.inOuts c))).bind fun code m₁ m₂ same => ?_
          dsimp only
          split
          · refine .some rfl ?_
            rw [Machine.bare_unwind, Machine.bare_unwind, alike.name, same]
          · cases c.kind with
            | tail => exact .some rfl (pop same)
            | call =>
                rw [alike.inOuts c]
                refine ih stacked (below.refresh same _) (behind ?_ ?_) same
                · rw [Activation.outgoing_refresh]
                · rw [Activation.outgoing_refresh]
      | ret r =>
          have returned := alike.giveBack same r
          have final : a'.finalCode r = a.finalCode r := by
            rw [Activation.finalCode, Activation.finalCode, alike.handover]
          rw [runSteps, runSteps, final]
          split
          · exact .some rfl (pop returned)
          · exact ih stacked alike (behind rfl rfl) returned

end Program

end CallProtocol
