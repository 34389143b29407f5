import CallProtocol.Proofs.BoundedDepth
import CallProtocol.Proofs.Engine.Entries
import CallProtocol.Proofs.Execution.Alike

/-!
# Dead code

What is behind the first instruction that leaves a body is planned but never performed. It has
a part in the layout all the same: the frame of the body is made with room for what the dead
code would stage and receive. So the code of two bodies that agree up to there is not the same,
and neither are the frames that they run in. But a run does not look at any of that, as long as
there is room for what is really staged.
-/

namespace CallProtocol

/-- The codes perform the same steps with the same constants and registers. If they are to be
complete, then they have room for the same parameters. -/
structure Code.SameLive (complete : Prop) (c c' : Code) : Prop where
  constants : c'.proto.constants = c.proto.constants
  registers : c'.proto.registers = c.proto.registers
  live : Step.live c'.plan.steps = Step.live c.plan.steps
  rooms : complete → ∀ slot params, .stage slot params ∈ Step.live c.plan.steps →
    (slot + params.length ≤ c'.plan.layout.params.toNat ↔
      slot + params.length ≤ c.plan.layout.params.toNat)

inductive Entry.SameLive (complete : Prop) : Entry → Entry → Prop where
  | refl (e : Entry) : SameLive complete e e
  | compiled {c c' : Code} (same : c.SameLive complete c') :
    SameLive complete (.compiled c) (.compiled c')

theorem Code.SameLive.refl (complete : Prop) (c : Code) : c.SameLive complete c :=
  ⟨rfl, rfl, rfl, fun _ _ _ _ => Iff.rfl⟩

theorem Step.live_subset (steps : List Step) : Step.live steps ⊆ steps := by
  induction steps with
  | nil => exact List.Subset.refl []
  | cons s rest ih =>
      rw [live]
      split
      · exact List.cons_subset_cons s (List.nil_subset rest)
      · exact List.cons_subset_cons s ih

/-- Bodies that agree up to where they are left give such codes. There is room for all that is
staged if the capacities can be counted. -/
theorem Code.sameLive {c c' : Code} (constants : c'.proto.constants = c.proto.constants)
    (registers : c'.proto.registers = c.proto.registers)
    (agree : CallProtocol.live c'.proto.code = CallProtocol.live c.proto.code) :
    c.SameLive (c.plan.Countable ∧ c'.plan.Countable) c' where
  constants := constants
  registers := registers
  live := Prototype.live_steps_eq c.planned c'.planned constants registers agree
  rooms := by
    rintro ⟨countable, countable'⟩ slot params hmem
    have live := Prototype.live_steps_eq c.planned c'.planned constants registers agree
    have room := stage_le countable (Step.live_subset _ hmem)
    have room' := stage_le countable' (Step.live_subset _ (live ▸ hmem))
    exact iff_of_true room' room

theorem Code.layout_registers (c : Code) : c.plan.layout.registers = c.proto.registers := by
  obtain ⟨steps, last, -, -, -, hlayout⟩ := Prototype.plan_eq_ok c.planned
  rw [hlayout]

namespace Program

variable {p p' : Program} {complete : Prop} {invoke invoke' : Invoke} {m m' : Machine}

/-- The steps behind the one that leaves the body are not performed. -/
theorem runSteps_live (p : Program) (invoke : Invoke) (steps : List Step) (a : Activation)
    (m : Machine) : p.runSteps invoke (Step.live steps) a m = p.runSteps invoke steps a m := by
  induction steps generalizing a m with
  | nil => rfl
  | cons s rest ih =>
      rw [Step.live]
      split
      · next leaves =>
          cases s with
          | call c =>
              have tail : c.kind = .tail := beq_iff_eq.1 leaves
              rw [runSteps, runSteps, tail]
          | ret site =>
              have final : site.final = true := leaves
              simp only [runSteps, final, if_true]
          | _ => cases leaves
      · cases s <;> simp only [runSteps, ih]

theorem agree_push {layout layout' : FrameLayout} (registers : layout'.registers = layout.registers)
    (params : List Value) (same : m'.bare = m.bare) :
    (m'.push layout' params).map (fun q => (q.1.bare, q.2.bare)) =
      (m.push layout params).map fun q => (q.1.bare, q.2.bare) := by
  rw [← Machine.push_bare, ← Machine.push_bare, same, FrameLayout.bare, FrameLayout.bare, registers]

theorem agree_runCode (callees : invoke.Agree complete invoke') {c c' : Code}
    (live : c.SameLive complete c') (name : String) (h : Handover) (same : m'.bare = m.bare) :
    Agree complete (p.runCode invoke c name h m) (p.runCode invoke' c' name h m') := by
  have registers : c'.plan.layout.registers = c.plan.layout.registers := by
    rw [c.layout_registers, c'.layout_registers, live.registers]
  have pushed := agree_push registers h.params same
  rw [runCode, runCode]
  cases hpush : m.push c.plan.layout h.params with
  | error e =>
      cases hpush' : m'.push c'.plan.layout h.params with
      | ok q' =>
          rw [hpush, hpush'] at pushed
          cases pushed
      | error e' =>
          rw [hpush, hpush'] at pushed
          cases pushed
          refine .some rfl ?_
          rw [Machine.bare_raise, Machine.bare_raise, same]
  | ok q =>
      cases hpush' : m'.push c'.plan.layout h.params with
      | error e' =>
          rw [hpush, hpush'] at pushed
          cases pushed
      | ok q' =>
          obtain ⟨fr, m₁⟩ := q
          obtain ⟨fr', m₁'⟩ := q'
          rw [hpush, hpush'] at pushed
          obtain ⟨frame, same₁⟩ := Prod.mk.inj (Except.ok.inj pushed)
          dsimp only
          rw [← runSteps_live, ← p.runSteps_live invoke' c'.plan.steps, live.live]
          have alike : (Activation.start c name h fr).Alike 0 (.start c' name h fr') := by
            have serial : fr'.bare.serial = fr.bare.serial := congrArg Frame.serial frame
            have held : fr'.bare.registers = fr.bare.registers := congrArg Frame.registers frame
            change fr'.serial = fr.serial at serial
            change fr'.registers = fr.registers at held
            refine ⟨?_, rfl, Nat.zero_le _, Nat.zero_le _⟩
            simp only [Activation.start, Activation.core, serial, held, live.constants,
              live.registers]
          refine agree_runSteps callees (Prototype.stacked_of_plan c.planned).live alike
            (fun hc slot params hmem => ?_) same₁
          simp only [Activation.hasRoom, Activation.start, List.length_replicate, decide_eq_decide]
          exact live.rooms hc slot params hmem

theorem agree_runEntry (callees : invoke.Agree complete invoke') {e e' : Entry}
    (live : e.SameLive complete e') (f : FuncRef) (name : String) (h : Handover)
    (same : m'.bare = m.bare) :
    Agree complete (p.runEntry invoke e f name h m) (p.runEntry invoke' e' f name h m') := by
  cases live with
  | compiled live => exact agree_runCode callees live name h same
  | refl e =>
      cases e with
      | stub => exact .of_bare (fun m => congrArg _ (m.bare_raise _).symm) same
      | compiled c => exact agree_runCode callees (.refl complete c) name h same
      | host e => exact .of_bare (runHostEntry_bare e f h) same

theorem agree_enter (functions : p.SameFunctions p')
    (entries : ∀ f, Option.Rel (Entry.SameLive complete) (p.head f).entry (p'.head f).entry)
    (limit : Nat) : Invoke.Agree complete (p.enter limit) (p'.enter limit) := by
  induction limit with
  | zero => exact fun _ _ _ _ _ => .none
  | succ limit ih =>
      intro f h m m' same
      have entry := entries f
      simp only [enter, functions.name, functions.runEntry]
      generalize (p.head f).entry = e, (p'.head f).entry = e' at entry
      cases entry with
      | none => exact .none
      | some live => exact agree_runEntry ih live f _ h same

theorem same_settle (depth : Nat) (code : Int32) (same : m'.bare = m.bare) :
    (settle depth code m').1 = (settle depth code m).1 ∧
      (settle depth code m').2.bare = (settle depth code m).2.bare := by
  have settled : ((settle depth code m').1, (settle depth code m').2.bare) =
      ((settle depth code m).1, (settle depth code m).2.bare) := by
    rw [← settle_bare, ← settle_bare, same]
  exact Prod.mk.inj settled

theorem same_endCall {ended ended' : Machine} (same : m'.bare = m.bare)
    (same' : ended'.bare = ended.bare) : (m'.endCall ended').bare = (m.endCall ended).bare := by
  have bare : ∀ m ended : Machine, (m.endCall ended).bare = m.bare.endCall ended.bare := by
    intro m ended
    rw [Machine.endCall, Machine.endCall]
    exact apply_ite Machine.bare _ _ _
  rw [bare, bare, same, same']

theorem agree_call (functions : p.SameFunctions p')
    (entries : ∀ f, Option.Rel (Entry.SameLive complete) (p.head f).entry (p'.head f).entry)
    (limit : Nat) (f : FuncRef) (params : List Value) (returns : List Descriptor)
    (same : m'.bare = m.bare) :
    Agree complete (p.call limit f params returns m) (p'.call limit f params returns m') := by
  have started : m'.beginCall.bare = m.beginCall.bare := congrArg Machine.beginCall same
  have depth : m'.beginCall.depth = m.beginCall.depth := by
    rw [← Machine.depth_bare, started, Machine.depth_bare]
  have script : Agree complete (p.callScript limit f params returns m.beginCall)
      (p'.callScript limit f params returns m'.beginCall) := by
    have entered := agree_enter functions entries limit f
      ⟨params, returns, Int32.ofNat returns.length⟩ _ _ started
    have entry := entries f
    rw [callScript, callScript, functions.name, depth]
    generalize (p.head f).entry = e, (p'.head f).entry = e' at entry
    cases entry with
    | none => exact .some rfl started
    | some live => exact entered.map fun code m₁ m₂ same₁ => same_settle _ code same₁
  rw [call, call, functions.callNative]
  refine Agree.map ?_ fun o m₁ m₂ same₁ => ⟨rfl, same_endCall same same₁⟩
  split
  · exact .of_bare (p.callNative_bare f params returns) started
  · exact script

end Program

/-- Code behind the first instruction that leaves a body is dead. Two bodies that have a plan and
agree up to there, and on their constants and registers, can both be compiled, and whichever has
been, it makes no difference to anything that runs afterwards, on whatever machine and with
whatever arguments and return descriptors: `Agree` says that the answers are the same, an abort
with its trace included, and the machines too, with the return storage, the natives that have
been invoked, the counters and the statistics. What may be different is how much room for
parameters and return descriptors is noted in a frame that an entry of the host has left behind.

A capacity has 32 bits. If a dead part staged more parameters at once, then the capacity would be
cut to a smaller number, and a live parameter might have no place. This is the only way for one
of the runs to have an outcome without the other. A plan records what is staged after each
instruction, so one that is not countable has more records than any memory has room for. -/
theorem dead_code_never_runs {q q' : Prototype} {plan plan' : Plan} (planned : q.plan = .ok plan)
    (planned' : q'.plan = .ok plan') (constants : q'.constants = q.constants)
    (registers : q'.registers = q.registers) (agree : live q'.code = live q.code) (g : Engine)
    {i : Nat} (declared : g.program.Declares (.script i)) :
    ∃ k k', (g.withProto i q).compile (.script i) = .ok k ∧
      (g.withProto i q').compile (.script i) = .ok k' ∧
      ∀ (limit : Nat) (f : FuncRef) (m : Machine),
        (∀ h, Agree (plan.Countable ∧ plan'.Countable) (k.program.enter limit f h m)
            (k'.program.enter limit f h m)) ∧
          ∀ params returns, Agree (plan.Countable ∧ plan'.Countable)
            (k.program.call limit f params returns m)
            (k'.program.call limit f params returns m) := by
  have same := @Code.sameLive ⟨q, plan, planned⟩ ⟨q', plan', planned'⟩ constants registers agree
  obtain ⟨k, k', compiled, compiled', -, -, functions, entries⟩ :=
    g.exists_compile_withProto Entry.SameLive.refl declared (Entry.SameLive.compiled same)
  refine ⟨k, k', compiled, compiled', fun limit f m => ⟨fun h => ?_, fun params returns => ?_⟩⟩
  · exact Program.agree_enter functions entries limit f h m m rfl
  · exact Program.agree_call functions entries limit f params returns rfl

def answerSeven : Prototype where
  registers := { ints := 1 }
  code := [.retImm 0 true 7]
  constants := { pointers := [.function (.native 0)] }

def answerThenCall : Prototype where
  registers := { ints := 1 }
  code := [.retImm 0 true 7, .paramImm 1, .paramImm 2, .callConst 0 2 1, .result (.of .int) 0]
  constants := { pointers := [.function (.native 0)] }

def scriptAlone : Engine where
  program := { scripts := [{ name := "f" }] }

/-- The dead call makes the frame larger, and that is all. -/
theorem dead_code_never_runs_answerThenCall :
    ∃ plan plan', answerSeven.plan = .ok plan ∧ answerThenCall.plan = .ok plan' ∧
      plan.layout = { registers := { ints := 1 } } ∧
      plan'.layout = { registers := { ints := 1 }, params := 2, returns := 1 } ∧
      ∃ k k' e e', (scriptAlone.withProto 0 answerSeven).compile (.script 0) = .ok k ∧
        (scriptAlone.withProto 0 answerThenCall).compile (.script 0) = .ok k' ∧
        k.program.call 1 (.script 0) [] [] {} = some (.ok 0, e) ∧
        k'.program.call 1 (.script 0) [] [] {} = some (.ok 0, e') ∧ e'.bare = e.bare := by
  obtain ⟨plan, planned, countable, hlayout⟩ : ∃ plan, answerSeven.plan = .ok plan ∧
      plan.Countable ∧ plan.layout = { registers := { ints := 1 } } :=
    ⟨_, rfl, by decide, rfl⟩
  obtain ⟨plan', planned', countable', hlayout'⟩ : ∃ plan', answerThenCall.plan = .ok plan' ∧
      plan'.Countable ∧ plan'.layout = { registers := { ints := 1 }, params := 2, returns := 1 } :=
    ⟨_, rfl, by decide, rfl⟩
  obtain ⟨k, k', compiled, compiled', agree⟩ :=
    dead_code_never_runs planned planned' rfl rfl rfl scriptAlone
      (show 0 < 1 from Nat.one_pos)
  obtain ⟨e, ran⟩ : ∃ e, k.program.call 1 (.script 0) [] [] {} = some (.ok 0, e) := by
    cases compiled
    exact ⟨_, rfl⟩
  obtain ⟨-, called⟩ := agree 1 (.script 0) {}
  obtain ⟨same, both⟩ := called [] []
  obtain ⟨⟨o, e'⟩, ran'⟩ := Option.isSome_iff_exists.1
    ((both ⟨countable, countable'⟩).trans (by rw [ran]; rfl))
  obtain ⟨rfl, bare⟩ := same _ _ _ _ ran ran'
  exact ⟨plan, plan', planned, planned', hlayout, hlayout', k, k', e, e', compiled, compiled', ran,
    ran', bare⟩

end CallProtocol
