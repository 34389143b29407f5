import CallProtocol.Proofs.Execution.Basic

/-!
# Executions are the runs with an outcome

`Program.enter` bounds the nesting of entries. A run that ends within some bound
has an execution, and an execution ends within some bound. So the statements about
executions are statements about what entering a function yields, and a bound that
has been enough once is enough for ever.
-/

namespace CallProtocol

namespace Program

/-- Perform a task with at most `limit` entries nested in each other. -/
def perform (p : Program) : Nat → Task → Machine → Option (Int32 × Machine)
  | 0, .entry _ _ _ _, _ => none
  | limit + 1, .entry e f name h, m => p.runEntry (p.enter limit) e f name h m
  | _, .native f h, m => some (p.nativeCall f h m)
  | _, .null, m => some (nullCall m)
  | limit, .body steps a, m => p.runSteps (p.enter limit) steps a m

theorem enter_eq_perform (p : Program) (limit : Nat) (f : FuncRef) (h : Handover) (m : Machine) :
    p.enter limit f h m =
      (p.head f).entry.bind fun e => p.perform limit (.entry e f (p.name f) h) m := by
  cases limit with
  | zero => simp [enter, perform]
  | succ limit => rfl

theorem scriptCall_eq_perform (p : Program) (limit : Nat) (f : FuncRef) (h : Handover)
    (m : Machine) :
    scriptCall (p.enter limit) f h m =
      (p.scriptTask f h m).bind fun x => p.perform limit x.1 x.2 := by
  rw [scriptCall, enter_eq_perform, scriptTask, Option.bind_map]
  rfl

theorem functionTask_bind_perform (p : Program) (limit : Nat) (native : Bool) (f : FuncRef)
    (h : Handover) (m : Machine) :
    (p.functionTask native f h m).bind (fun x => p.perform limit x.1 x.2) =
      if native then some (p.nativeCall f h m) else scriptCall (p.enter limit) f h m := by
  cases native with
  | true => cases limit <;> rfl
  | false => exact (scriptCall_eq_perform p limit f h m).symm

theorem dispatch_eq_perform (p : Program) (limit : Nat) (a : Activation) (c : CallSite)
    (m : Machine) :
    p.dispatch (p.enter limit) a c m =
      (p.callee? a c m).bind fun x => p.perform limit x.1 x.2 := by
  cases hc : c.callee with
  | static k native =>
      rw [callee?_of_static hc, dispatch, hc]
      cases hf : Pointer.function? (a.proto.constants.get .pointer k) with
      | none => simp [staticCall, hf]
      | some f =>
          simp only [staticCall, hf, Option.bind_some]
          exact (functionTask_bind_perform p limit native f _ m).symm
  | register r =>
      rw [callee?_of_register hc, dispatch, hc]
      simp only [dynamicCall]
      split
      · cases limit <;> rfl
      · cases hf : Pointer.function? (a.read m .pointer r) with
        | none => simp
        | some f =>
            simp only [Option.bind_some]
            exact (functionTask_bind_perform p limit f.isNative f _ m).symm

theorem runSteps_quiet {p : Program} {invoke : Invoke} {s : Step} {rest : List Step}
    {a a' : Activation} {m m' : Machine} (h : a.quiet m s = some (a', m')) :
    p.runSteps invoke (s :: rest) a m = p.runSteps invoke rest a' m' := by
  rcases Activation.quiet_cases h with ⟨op, rfl, hop⟩ | ⟨slot, params, rfl, room, rfl, rfl⟩ |
    ⟨spec, rfl, rfl, rfl⟩ | ⟨site, rfl, final, rfl, rfl⟩
  · rw [runSteps, hop]
  · rw [runSteps, if_pos room]
  · rw [runSteps]
  · rw [runSteps, final]
    rfl

theorem runSteps_call (p : Program) (limit : Nat) (c : CallSite) (rest : List Step)
    (a : Activation) (m : Machine) :
    p.runSteps (p.enter limit) (.call c :: rest) a m =
      (p.callee? a c (a.beforeCall m c)).bind fun x =>
        (p.perform limit x.1 x.2).bind fun y =>
          if y.1 < 0 then some (y.1, y.2.unwind a.name)
          else
            match c.kind with
            | .call => p.runSteps (p.enter limit) rest (a.afterCall y.2 c) y.2
            | .tail => some (y.1, y.2.pop) := by
  rw [runSteps, dispatch_eq_perform, Option.bind_assoc]
  rfl

@[simp] theorem perform_native (p : Program) (limit : Nat) (f : FuncRef) (h : Handover)
    (m : Machine) : p.perform limit (.native f h) m = some (p.nativeCall f h m) := by
  cases limit <;> rfl

@[simp] theorem perform_null (p : Program) (limit : Nat) (m : Machine) :
    p.perform limit .null m = some (nullCall m) := by
  cases limit <;> rfl

@[simp] theorem perform_body (p : Program) (limit : Nat) (steps : List Step) (a : Activation)
    (m : Machine) : p.perform limit (.body steps a) m = p.runSteps (p.enter limit) steps a m := by
  cases limit <;> rfl

/-- Compiled code runs its body in a frame of its own, and is refused without one. -/
theorem perform_compiled (p : Program) (limit : Nat) (code : Code) (f : FuncRef) (name : String)
    (h : Handover) (m : Machine) :
    p.perform (limit + 1) (.entry (.compiled code) f name h) m =
      match m.push code.plan.layout h.params with
      | .error e => some (unwoundCode, m.raise (e.abort.through name))
      | .ok (fr, m₁) => p.perform limit (.body code.plan.steps (.start code name h fr)) m₁ := by
  change p.runCode (p.enter limit) code name h m = _
  rw [runCode]
  cases m.push code.plan.layout h.params with
  | error e => rfl
  | ok x => exact (perform_body p limit _ _ x.2).symm

end Program

namespace Execution

theorem ofBody {p : Program} {limit : Nat}
    (callees : ∀ {a c m τ m₁ r m₂}, p.callee? a c m = some (τ, m₁) →
      p.perform limit τ m₁ = some (r, m₂) → Nonempty (Execution p τ m₁ r m₂))
    {steps : List Step} {a : Activation} {m : Machine} {r : Int32} {m' : Machine}
    (ran : p.runSteps (p.enter limit) steps a m = some (r, m')) :
    Nonempty (Execution p (.body steps a) m r m') := by
  induction steps generalizing a m with
  | nil =>
      cases ran
      exact ⟨.fallOff a m⟩
  | cons s rest ih =>
      cases hq : a.quiet m s with
      | some x =>
          obtain ⟨a₁, m₁⟩ := x
          rw [Program.runSteps_quiet hq] at ran
          obtain ⟨next⟩ := ih ran
          exact ⟨.quiet hq next⟩
      | none =>
          -- Only a call, a final return and a step without room are not quiet.
          cases s with
          | plain op => cases hq
          | result spec => cases hq
          | stage slot params =>
              simp only [Activation.quiet] at hq
              split at hq
              · cases hq
              · next full => simp [Program.runSteps, full] at ran
          | ret site =>
              simp only [Activation.quiet] at hq
              split at hq
              · next final =>
                  simp only [Program.runSteps, final, if_true, Option.some.injEq,
                    Prod.mk.injEq] at ran
                  obtain ⟨rfl, rfl⟩ := ran
                  exact ⟨.returned rest a m final⟩
              · cases hq
          | call c =>
              rw [Program.runSteps_call] at ran
              obtain ⟨⟨τ, m₁⟩, hτ, ran⟩ := Option.bind_eq_some_iff.1 ran
              obtain ⟨⟨r₁, m₂⟩, hcall, ran⟩ := Option.bind_eq_some_iff.1 ran
              obtain ⟨call⟩ := callees hτ hcall
              dsimp only at ran
              split at ran
              · next negative =>
                  cases ran
                  exact ⟨.unwound hτ call negative⟩
              · next resumes =>
                  have resumes : 0 ≤ r₁ := Int32.not_lt.1 resumes
                  cases kind : c.kind with
                  | call =>
                      rw [kind] at ran
                      obtain ⟨next⟩ := ih ran
                      exact ⟨.resumed hτ call resumes kind next⟩
                  | tail =>
                      rw [kind] at ran
                      cases ran
                      exact ⟨.tailed hτ call resumes kind⟩

theorem ofCallee {p : Program} {limit : Nat}
    (entries : ∀ {e f name h m r m'}, p.perform limit (.entry e f name h) m = some (r, m') →
      Nonempty (Execution p (.entry e f name h) m r m'))
    {a : Activation} {c : CallSite} {m m₁ m₂ : Machine} {τ : Task} {r : Int32}
    (hτ : p.callee? a c m = some (τ, m₁)) (ran : p.perform limit τ m₁ = some (r, m₂)) :
    Nonempty (Execution p τ m₁ r m₂) := by
  rcases Program.callee?_cases hτ with ⟨rfl, -⟩ | ⟨f, rfl, -⟩ | ⟨f, e, -, rfl, -⟩
  · rw [Program.perform_null] at ran
    cases ran
    exact ⟨.null m₁⟩
  · rw [Program.perform_native] at ran
    exact ⟨.native (Option.some.inj ran)⟩
  · exact entries ran

theorem ofEntry {p : Program} {limit : Nat} {e : Entry} {f : FuncRef} {name : String}
    {h : Handover} {m : Machine} {r : Int32} {m' : Machine}
    (ran : p.perform limit (.entry e f name h) m = some (r, m')) :
    Nonempty (Execution p (.entry e f name h) m r m') := by
  induction limit generalizing e f name h m r m' with
  | zero => cases ran
  | succ limit ih =>
      cases e with
      | stub =>
          cases ran
          exact ⟨.stub f name h m⟩
      | host e =>
          cases ran
          exact ⟨.host e f name h m⟩
      | compiled code =>
          rw [Program.perform_compiled] at ran
          cases hpush : m.push code.plan.layout h.params with
          | error e =>
              rw [hpush] at ran
              cases ran
              exact ⟨.refused hpush⟩
          | ok x =>
              obtain ⟨fr, m₁⟩ := x
              rw [hpush] at ran
              dsimp only at ran
              rw [Program.perform_body] at ran
              obtain ⟨body⟩ := ofBody (ofCallee ih) ran
              exact ⟨.begun hpush body⟩

theorem ofPerform {p : Program} {limit : Nat} {τ : Task} {m : Machine} {r : Int32} {m' : Machine}
    (ran : p.perform limit τ m = some (r, m')) : Nonempty (Execution p τ m r m') := by
  cases τ with
  | entry e f name h => exact ofEntry ran
  | native f h =>
      rw [Program.perform_native] at ran
      exact ⟨.native (Option.some.inj ran)⟩
  | null =>
      rw [Program.perform_null] at ran
      cases ran
      exact ⟨.null m⟩
  | body steps a =>
      rw [Program.perform_body] at ran
      exact ofBody (ofCallee ofEntry) ran

/-- An execution is a run within every large enough bound. -/
theorem perform_eventually {p : Program} {τ : Task} {m : Machine} {r : Int32} {m' : Machine}
    (x : Execution p τ m r m') : ∃ limit, ∀ l ≥ limit, p.perform l τ m = some (r, m') := by
  -- Only an entry uses up some of the bound. A callee and the rest of a body need the
  -- greater one of their bounds.
  induction x with
  | stub f name h m =>
      refine ⟨1, fun l hl => ?_⟩
      obtain ⟨l, rfl⟩ := Nat.exists_eq_add_of_le' hl
      rfl
  | host e f name h m =>
      refine ⟨1, fun l hl => ?_⟩
      obtain ⟨l, rfl⟩ := Nat.exists_eq_add_of_le' hl
      rfl
  | refused full =>
      refine ⟨1, fun l hl => ?_⟩
      obtain ⟨l, rfl⟩ := Nat.exists_eq_add_of_le' hl
      rw [Program.perform_compiled, full]
  | begun room body ih =>
      obtain ⟨limit, ih⟩ := ih
      refine ⟨limit + 1, fun l hl => ?_⟩
      obtain ⟨l, rfl⟩ := Nat.exists_eq_add_of_le' (Nat.le_of_add_left_le hl)
      rw [Program.perform_compiled, room]
      exact ih l (Nat.le_of_succ_le_succ hl)
  | native ran => exact ⟨0, fun l _ => by rw [Program.perform_native, ran]⟩
  | null m => exact ⟨0, fun l _ => Program.perform_null p l m⟩
  | fallOff a m => exact ⟨0, fun l _ => by rw [Program.perform_body, Program.runSteps]⟩
  | quiet step next ih =>
      obtain ⟨limit, ih⟩ := ih
      refine ⟨limit, fun l hl => ?_⟩
      have ran := ih l hl
      rw [Program.perform_body] at ran ⊢
      rw [Program.runSteps_quiet step, ran]
  | returned rest a m final =>
      refine ⟨0, fun l _ => ?_⟩
      rw [Program.perform_body, Program.runSteps, if_pos final]
  | unwound callee call negative ih =>
      obtain ⟨limit, ih⟩ := ih
      refine ⟨limit, fun l hl => ?_⟩
      rw [Program.perform_body, Program.runSteps_call, callee, Option.bind_some, ih l hl,
        Option.bind_some, if_pos negative]
  | tailed callee call resumes kind ih =>
      obtain ⟨limit, ih⟩ := ih
      refine ⟨limit, fun l hl => ?_⟩
      rw [Program.perform_body, Program.runSteps_call, callee, Option.bind_some, ih l hl,
        Option.bind_some, if_neg (Int32.not_lt.2 resumes), kind]
  | resumed callee call resumes kind next ihcall ihnext =>
      obtain ⟨limit₁, ihcall⟩ := ihcall
      obtain ⟨limit₂, ihnext⟩ := ihnext
      refine ⟨max limit₁ limit₂, fun l hl => ?_⟩
      have ran := ihnext l (Nat.le_trans (Nat.le_max_right _ _) hl)
      rw [Program.perform_body] at ran ⊢
      rw [Program.runSteps_call, callee, Option.bind_some,
        ihcall l (Nat.le_trans (Nat.le_max_left _ _) hl), Option.bind_some,
        if_neg (Int32.not_lt.2 resumes), kind]
      exact ran

/-- A task has one outcome on a machine. -/
theorem outcome_unique {p : Program} {τ : Task} {m : Machine} {r₁ r₂ : Int32} {m₁ m₂ : Machine}
    (x : Execution p τ m r₁ m₁) (y : Execution p τ m r₂ m₂) : r₁ = r₂ ∧ m₁ = m₂ := by
  obtain ⟨limit₁, h₁⟩ := x.perform_eventually
  obtain ⟨limit₂, h₂⟩ := y.perform_eventually
  have heq := (h₁ _ (Nat.le_max_left limit₁ limit₂)).symm.trans (h₂ _ (Nat.le_max_right limit₁ limit₂))
  exact Prod.mk.inj (Option.some.inj heq)

end Execution

/-- The steps of a body have an outcome within some bound exactly if there is an execution
with this outcome. -/
theorem Program.runSteps_eq_some_iff {p : Program} {steps : List Step} {a : Activation}
    {m : Machine} {r : Int32} {m' : Machine} :
    (∃ limit, p.runSteps (p.enter limit) steps a m = some (r, m')) ↔
      Nonempty (Execution p (.body steps a) m r m') := by
  constructor
  · rintro ⟨limit, ran⟩
    rw [← perform_body] at ran
    exact Execution.ofPerform ran
  · rintro ⟨x⟩
    obtain ⟨limit, ran⟩ := x.perform_eventually
    exact ⟨limit, by rw [← perform_body, ran limit (Nat.le_refl _)]⟩

/-- Entering a function has an outcome within some bound exactly if its entry has an
execution with this outcome. -/
theorem Program.enter_eq_some_iff {p : Program} {f : FuncRef} {h : Handover} {m : Machine}
    {r : Int32} {m' : Machine} :
    (∃ limit, p.enter limit f h m = some (r, m')) ↔
      ∃ e, (p.head f).entry = some e ∧ Nonempty (Execution p (.entry e f (p.name f) h) m r m') := by
  constructor
  · rintro ⟨limit, ran⟩
    rw [enter_eq_perform] at ran
    obtain ⟨e, he, ran⟩ := Option.bind_eq_some_iff.1 ran
    exact ⟨e, he, Execution.ofPerform ran⟩
  · rintro ⟨e, he, ⟨x⟩⟩
    obtain ⟨limit, ran⟩ := x.perform_eventually
    refine ⟨limit, ?_⟩
    rw [enter_eq_perform, he, Option.bind_some, ran limit (Nat.le_refl _)]

end CallProtocol
