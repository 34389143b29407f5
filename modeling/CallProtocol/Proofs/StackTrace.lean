import CallProtocol.Proofs.AbortChannel
import CallProtocol.Proofs.Execution.Nested

/-!
# Stack traces

An abort comes into being in a native, in a stub, where the parameters of a callee do not
fit its frame, or in a call of null. `Program.Raises` says so for the task that is
performed at that moment, and `Nested` says which activations are then in the middle of a
call. The one relation knows nothing of unwinding, and neither does the other. That the
stack trace of the abort that arrives is the trace it was raised with and a line for each
function on the chain is what is proved here.

Each kind of origin gives its own function a line in a different way, and each activation
of the chain adds its line when it unwinds. So there are two inductions: along the run, to
find where the abort was raised, and along the chain, to follow it up.
-/

namespace CallProtocol

open Machine

theorem Abort.throughAll_throughAll (a : Abort) (names names' : List String) :
    (a.throughAll names).throughAll names' = a.throughAll (names ++ names') := by
  simp [throughAll]

def Machine.warnings (m : Machine) : List Event := m.events.filter (·.level = .warn)

namespace Machine

theorem warnings_congr {m m' : Machine} (h : m'.events = m.events) : m'.warnings = m.warnings := by
  rw [warnings, h, warnings]

theorem warnings_of_reports {m m' : Machine} {S : Event → Prop} (h : Reports S m m')
    (hS : ∀ e, S e → e.level ≠ .warn) : m'.warnings = m.warnings := by
  obtain ⟨new, hnew, hall⟩ := h
  have hnone : new.filter (·.level = .warn) = [] := by
    rw [List.filter_eq_nil_iff]
    intro e he
    simpa using hS e (hall e he)
  rw [warnings, hnew, List.filter_append, hnone, List.append_nil, warnings]

@[simp] theorem warnings_raise (m : Machine) (a : Abort) : (m.raise a).warnings = m.warnings := by
  refine warnings_of_reports (reports_raise m a) ?_
  rintro e ⟨previous, -, rfl⟩
  simp [Event.level]

@[simp] theorem warnings_pop (m : Machine) : m.pop.warnings = m.warnings := by
  refine warnings_of_reports m.reports_pop ?_
  rintro e rfl
  simp [Event.level]

theorem warnings_notice {m m' : Machine} {a : Abort} (h : m'.events = m.events ++ notice a) :
    m'.warnings = m.warnings ++ notice a := by
  have hall : (notice a).filter (·.level = .warn) = notice a := by
    rw [notice]
    split
    · rfl
    · rfl
  rw [warnings, h, List.filter_append, hall, warnings]

end Machine

theorem Execution.warnings_eq {p : Program} {τ : Task} {m m' : Machine} {r : Int32}
    (x : Execution p τ m r m') (resumes : 0 ≤ r) : m'.warnings = m.warnings := by
  induction x with
  | stub f name h m => exact warnings_raise m _
  | host e f name h m =>
      obtain ⟨-, -, hreports⟩ := Program.runHostEntry_context e f h m
      have hevents := (context_pushEmpties e.pushes (Program.noteEntry f h m)).2
      refine (warnings_of_reports hreports ?_).trans (warnings_congr hevents)
      rintro e ⟨previous, rfl⟩
      simp [Event.level]
  | refused full => exact warnings_raise _ _
  | begun room body ih =>
      obtain ⟨-, rfl⟩ := push_eq_ok room
      exact ih resumes
  | native ran =>
      rcases Program.nativeCall_cases ran with ⟨hcall, -⟩ | ⟨a, m₁, -, rfl, -⟩
      · exact warnings_congr (Program.callNative_ok hcall).2.1
      · exact absurd resumes (by decide)
  | null m => exact warnings_raise m _
  | fallOff a m => exact warnings_pop m
  | quiet step next ih =>
      exact (ih resumes).trans (warnings_congr (Activation.sameContext_quiet step).events)
  | @returned site rest a m final =>
      exact (warnings_pop _).trans (warnings_congr (a.sameContext_giveBack m site).events)
  | unwound callee call negative ih => exact absurd resumes (Int32.not_le.2 negative)
  | tailed callee call resumes' kind ih =>
      obtain ⟨-, -, -, hevents⟩ := Program.callee?_context callee
      exact (warnings_pop _).trans ((ih resumes').trans (warnings_congr hevents))
  | resumed callee call resumes' kind next ihcall ihnext =>
      obtain ⟨-, -, -, hevents⟩ := Program.callee?_context callee
      exact (ihnext resumes).trans ((ihcall resumes').trans (warnings_congr hevents))

/-! ## Where aborts are raised -/

def notCompiledAbort (name : String) : Abort :=
  { kind := .notCompiled, message := name ++ " has not been compiled" }

/-- The task raises the abort by itself, and not by a call. -/
inductive Program.Raises (p : Program) : Task → Machine → Abort → Prop where
  | native {i : Nat} {h : Handover} {m : Machine} {a : Abort}
    (ran : (p.runNative i h.params h.visibleReturns m).1 = .error a) :
    p.Raises (.native (.native i) h) m a
  | stub (f : FuncRef) (name : String) (h : Handover) (m : Machine) :
    p.Raises (.entry .stub f name h) m (notCompiledAbort name)
  | refused {code : Code} {f : FuncRef} {name : String} {h : Handover} {m : Machine} {e : FillError}
    (full : m.push code.plan.layout h.params = .error e) :
    p.Raises (.entry (.compiled code) f name h) m e.abort
  | null (m : Machine) : p.Raises .null m nullAbort

namespace Task

def function? (p : Program) : Task → Option String
  | entry _ _ name _ => some name
  | native f _ => some (p.name f)
  | null => none
  | body _ a => some a.name

def ownSerials : Task → List Nat
  | body _ a => [a.frame]
  | _ => []

theorem ownSerials_eq_nil {τ : Task} (h : τ.ownFrames = 0) : τ.ownSerials = [] := by
  cases τ with
  | body steps a => cases h
  | entry e f name h => rfl
  | native f h => rfl
  | null => rfl

def callsHost : Task → Bool
  | native _ _ => true
  | _ => false

end Task

/-- The names of the functions on the call chain, innermost first. -/
def Program.callChain (p : Program) (chain : List Activation) (τ : Task) : List String :=
  (τ.function? p).toList ++ chain.map (·.name)

theorem Program.Raises.ownSerials {p : Program} {τ : Task} {m : Machine} {a : Abort}
    (h : p.Raises τ m a) : τ.ownSerials = [] := by
  cases h <;> rfl

/-- A task that raises an abort unwinds. Its function has been given a line if there is
one, and a native has reported the message. -/
theorem Program.Raises.outcome {p : Program} {τ : Task} {m m' : Machine} {a : Abort} {r : Int32}
    (h : p.Raises τ m a) (x : Execution p τ m r m') :
    r < 0 ∧
      m'.pending = some ((if τ.callsHost then a.report else a).throughAll (p.callChain [] τ)) ∧
        m'.warnings = m.warnings ++ if τ.callsHost then notice a else [] := by
  have raised : ∀ b : Abort, (m.raise b).warnings = m.warnings ++ [] := fun b => by simp
  cases h with
  | stub f name h m =>
      cases x
      exact ⟨by decide, pending_raise m _, raised _⟩
  | refused full =>
      cases x with
      | refused full' =>
          obtain rfl := Except.error.inj (full.symm.trans full')
          exact ⟨by decide, pending_raise m _, raised _⟩
      | begun room body =>
          rw [room] at full
          cases full
  | null m =>
      cases x
      refine ⟨by decide, ?_, raised _⟩
      rw [pending_raise]
      exact congrArg some (Abort.throughAll_nil _).symm
  | native ran =>
      cases x with
      | native ran' =>
          rcases Program.nativeCall_cases ran' with ⟨hcall, -⟩ | ⟨b, m₁, hcall, rfl, rfl⟩
          · obtain ⟨-, -, j, count, hj, hok, -⟩ := callNative_ok hcall
            cases hj
            rw [ran] at hok
            cases hok
          · obtain ⟨-, b, herror, rfl, hevents⟩ := callNative_abort hcall
            obtain rfl := Except.error.inj (ran.symm.trans herror)
            refine ⟨by decide, pending_raise m₁ _, ?_⟩
            rw [warnings_raise]
            exact warnings_notice hevents

/-- A run that unwinds has come to where an abort is raised. -/
theorem Execution.exists_raises_of_hostFree {p : Program} (hp : p.HostFree) {τ : Task}
    {m m' : Machine} {r : Int32} (x : Execution p τ m r m') (hτ : τ.Regular) (negative : r < 0) :
    ∃ chain τ₁ m₁ a, Nested p τ m chain τ₁ m₁ ∧ p.Raises τ₁ m₁ a := by
  -- A code below zero comes from the task itself, or from the last callee, which has unwound.
  induction x with
  | stub f name h m => exact ⟨[], _, _, _, .start, .stub f name h m⟩
  | host e f name h m => exact absurd rfl (hτ.1 e)
  | refused full => exact ⟨[], _, _, _, .start, .refused full⟩
  | @begun code f name h m fr m₁ r m' room body ih =>
      obtain ⟨chain, τ₁, m₁, a, nested, raises⟩ :=
        ih ⟨Activation.runs_start code name h fr, hτ.2⟩ negative
      exact ⟨chain, τ₁, m₁, a, nested.of_advances (.begun room), raises⟩
  | @native f h m r m' ran =>
      rcases Program.nativeCall_cases ran with ⟨-, resumes⟩ | ⟨b, m₁, hcall, -, -⟩
      · exact absurd negative (Int32.not_lt.2 resumes)
      · cases f with
        | script i => cases hτ
        | native i =>
            obtain ⟨-, a, ran, -, -⟩ := Program.callNative_abort hcall
            exact ⟨[], _, _, a, .start, .native ran⟩
  | null m => exact ⟨[], _, _, _, .start, .null m⟩
  | fallOff a m => exact absurd negative (by decide)
  | quiet step next ih =>
      obtain ⟨chain, τ₁, m₁, a, nested, raises⟩ :=
        ih (hτ.next (Activation.sameBody_quiet step)) negative
      exact ⟨chain, τ₁, m₁, a, nested.of_advances (.quiet step), raises⟩
  | @returned site rest a m final =>
      exact absurd negative (Int32.not_lt.2 (a.zero_le_finalCode hτ.2 site))
  | unwound callee call negative' ih =>
      obtain ⟨chain, τ₁, m₁, a, nested, raises⟩ := ih (hp.callee hτ callee) negative'
      exact ⟨_, τ₁, m₁, a, nested.of_callee callee, raises⟩
  | tailed callee call resumes kind ih => exact absurd negative (Int32.not_lt.2 resumes)
  | @resumed c rest a m τ m₁ r m₂ r' m' callee call resumes kind next ihcall ihnext =>
      obtain ⟨chain, τ₁, m₁, b, nested, raises⟩ :=
        ihnext (hτ.next (a.sameBody_refresh m₂ _)) negative
      exact ⟨chain, τ₁, m₁, b, nested.of_advances (.resumed callee call resumes kind), raises⟩

theorem Advances.regular {p : Program} {τ τ' : Task} {m m' : Machine}
    (h : Advances p τ m τ' m') (hτ : τ.Regular) : τ'.Regular := by
  cases h with
  | @begun code f name h m m₁ fr room => exact ⟨Activation.runs_start code name h fr, hτ.2⟩
  | quiet step => exact hτ.next (Activation.sameBody_quiet step)
  | resumed callee call resumes kind => exact hτ.next (Activation.sameBody_refresh _ _ _)

theorem Advances.function? {p : Program} {τ τ' : Task} {m m' : Machine}
    (h : Advances p τ m τ' m') : τ'.function? p = τ.function? p := by
  cases h with
  | begun room => rfl
  | quiet step => exact congrArg some (Activation.sameBody_quiet step).name
  | resumed callee call resumes kind =>
      exact congrArg some (Activation.sameBody_refresh _ _ _).name

theorem Advances.warnings_eq {p : Program} {τ τ' : Task} {m m' : Machine}
    (h : Advances p τ m τ' m') : m'.warnings = m.warnings := by
  cases h with
  | begun room =>
      obtain ⟨-, rfl⟩ := push_eq_ok room
      rfl
  | quiet step => exact warnings_congr (Activation.sameContext_quiet step).events
  | resumed callee call resumes kind =>
      obtain ⟨-, -, -, hevents⟩ := Program.callee?_context callee
      exact (call.warnings_eq resumes).trans (warnings_congr hevents)

namespace Nested

variable {p : Program} {τ τ₀ : Task} {m m₀ : Machine} {chain : List Activation}

theorem regular (hp : p.OnlyCompiled) (h : Nested p τ₀ m₀ chain τ m) (hτ₀ : τ₀.Regular) :
    τ.Regular := by
  induction h with
  | start => exact hτ₀
  | advanced prior step ih => exact step.regular ih
  | called prior callee ih => exact hp.callee ih callee

end Nested

theorem Task.Regular.noHost {p : Program} (hp : p.OnlyCompiled) {τ : Task} {m : Machine}
    (hτ : τ.Regular) : τ.NoHost p m := by
  intro chain τ₁ m₁ nested host
  have regular := nested.regular hp hτ
  cases τ₁ with
  | entry e f name h =>
      cases e with
      | host e => exact regular.1 e rfl
      | stub => exact host
      | compiled code => exact host
  | native f h => exact host
  | null => exact host
  | body steps a => exact host

namespace Nested

variable {p : Program} {τ τ₀ : Task} {m m₀ : Machine} {chain : List Activation}

theorem warnings_eq (h : Nested p τ₀ m₀ chain τ m) : m.warnings = m₀.warnings := by
  induction h with
  | start => rfl
  | advanced prior step ih => exact step.warnings_eq.trans ih
  | called prior callee ih =>
      obtain ⟨-, -, -, hevents⟩ := Program.callee?_context callee
      exact (warnings_congr hevents).trans ih

/-- The activations in the chain are the owners of the frames above those that were there
before, and so is a body that is being performed. -/
theorem serials_of_noHost (h : Nested p τ₀ m₀ chain τ m) (noHost : τ₀.NoHost p m₀)
    (hown : τ₀.ownSerials = []) :
    m.serials = τ.ownSerials ++ (chain.map (·.frame) ++ m₀.serials) := by
  induction h with
  | start => rw [hown, List.map_nil, List.nil_append, List.nil_append]
  | @advanced chain τ τ' m m' prior step ih =>
      cases step with
      | begun room =>
          obtain ⟨-, rfl⟩ := push_eq_ok room
          exact congrArg (List.cons _) ih
      | quiet step =>
          have hframe := (Activation.sameBody_quiet step).frame
          rw [(Activation.sameContext_quiet step).serials, ih, Task.ownSerials, Task.ownSerials,
            hframe]
      | @resumed c rest a m m₁ m₂ τ r callee call resumes kind =>
          have quietly := (prior.noHost noHost).callee callee
          have hframe : (a.afterCall m' c).frame = a.frame := (a.sameBody_refresh m' _).frame
          have restacked := Execution.ofCall callee call.restacked
          rw [call.hostFrames_eq_zero_of_nested quietly] at restacked
          rw [restacked.serials_eq, ih, Task.ownSerials, Task.ownSerials, hframe]
  | called prior callee ih =>
      obtain ⟨hserials, -, -, -⟩ := Program.callee?_context callee
      rw [hserials, ih, Task.ownSerials_eq_nil (Program.ownFrames_callee? callee)]
      rfl

theorem serials_eq (hp : p.OnlyCompiled) (h : Nested p τ₀ m₀ chain τ m) (hτ₀ : τ₀.Regular)
    (hown : τ₀.ownSerials = []) :
    m.serials = τ.ownSerials ++ (chain.map (·.frame) ++ m₀.serials) :=
  h.serials_of_noHost (hτ₀.noHost hp) hown

/-- If a task within the chain unwinds, so does the run, and the activations of the chain
have added their names to what was pending. -/
theorem unwinds (h : Nested p τ₀ m₀ chain τ m) {r : Int32} {m' : Machine}
    (x : Execution p τ₀ m₀ r m') :
    ∃ r₁ m₁, Nonempty (Execution p τ m r₁ m₁) ∧ ∀ b, r₁ < 0 → m₁.pending = some b →
      r < 0 ∧ m'.pending = some (b.throughAll (chain.map (·.name))) ∧
        m'.warnings = m₁.warnings := by
  induction h with
  | start =>
      refine ⟨r, m', ⟨x⟩, fun b negative hpending => ⟨negative, ?_, rfl⟩⟩
      rw [List.map_nil, Abort.throughAll_nil, hpending]
  | advanced prior step ih =>
      obtain ⟨r₁, m₁, ⟨y⟩, through⟩ := ih
      exact ⟨r₁, m₁, step.execution y, through⟩
  | @called chain c rest a m m₁ τ prior callee ih =>
      obtain ⟨r₁, m₂, ⟨y⟩, through⟩ := ih
      obtain ⟨r₂, m₃, call, hunwind⟩ := y.callee callee
      refine ⟨r₂, m₃, call, fun b negative hpending => ?_⟩
      -- The activation finds the abort of its callee pending and pends it with its own name,
      -- which is then the pending abort of a task one level up.
      obtain ⟨rfl, rfl⟩ := hunwind negative
      obtain ⟨hpending', hevents⟩ := unwind_of_pending hpending a.name
      obtain ⟨hr, hended, hwarnings⟩ := through _ negative hpending'
      refine ⟨hr, ?_, ?_⟩
      · rw [hended, List.map_cons]
        simp [Abort.throughAll, Abort.through]
      · rw [hwarnings, warnings_congr hevents, warnings_pop]

/-- The abort that a run unwinds with is the one that is raised within the chain. -/
theorem raised (h : Nested p τ₀ m₀ chain τ m) {a : Abort} (raises : p.Raises τ m a) {r : Int32}
    {m' : Machine} (x : Execution p τ₀ m₀ r m') :
    r < 0 ∧
      m'.pending = some ((if τ.callsHost then a.report else a).throughAll (p.callChain chain τ)) ∧
        m'.warnings = m₀.warnings ++ if τ.callsHost then notice a else [] := by
  obtain ⟨r₁, m₁, ⟨y⟩, through⟩ := h.unwinds x
  obtain ⟨negative, hpending, hwarned⟩ := raises.outcome y
  obtain ⟨hr, hended, hwarnings⟩ := through _ negative hpending
  refine ⟨hr, ?_, by rw [hwarnings, hwarned, h.warnings_eq]⟩
  rw [hended, Abort.throughAll_throughAll]
  simp [Program.callChain]

end Nested

/-! ## Natives whose aborts are new -/

/-- The aborts that a host function makes have not been reported before. -/
def Host.Fresh : Host → Prop
  | .finish _ => True
  | .abort a => a.printed = false
  | .panic _ => True
  | .put _ _ _ next => next.Fresh
  | .arg _ next => ∀ x, (next x).Fresh
  | .load _ next => ∀ x, (next x).Fresh
  | .store _ _ next => next.Fresh
  | .note _ next => next.Fresh

def Program.RaisesFresh (p : Program) : Prop :=
  ∀ n ∈ p.natives, ∀ inv, (n.behaviour inv).Fresh

theorem Panic.printed_abort (p : Panic) : p.abort.printed = false := by
  cases p <;> rfl

theorem Machine.printed_of_runHost {args : Arguments} {returns : List Descriptor} {host : Host}
    (fresh : host.Fresh) {m : Machine} {a : Abort}
    (ran : (runHost args returns host m).1 = .error a) : a.printed = false := by
  induction host generalizing m with
  | finish n => cases ran
  | abort b =>
      cases ran
      exact fresh
  | panic p =>
      cases ran
      exact p.printed_abort
  | put slot b xs next ih =>
      simp only [runHost] at ran
      split at ran
      · exact ih fresh ran
      · cases ran
        rfl
  | arg i next ih => exact ih _ (fresh _) ran
  | load s next ih => exact ih _ (fresh _) ran
  | store s x next ih => exact ih fresh ran
  | note e next ih => exact ih fresh ran

/-- An abort is new when it is raised, if the natives make new ones only. -/
theorem Program.Raises.printed {p : Program} (fresh : p.RaisesFresh) {τ : Task} {m : Machine}
    {a : Abort} (h : p.Raises τ m a) (hτ : τ.callsHost = true) : a.printed = false := by
  cases h with
  | @native i h m a ran =>
      refine printed_of_runHost ?_ ran
      rw [Program.native, List.getD_eq_getElem?_getD]
      cases hn : p.natives[i]? with
      | none => trivial
      | some n => exact fresh n (List.mem_of_getElem? hn) _
  | stub f name h m => cases hτ
  | refused full => cases hτ
  | null m => cases hτ

/-! ## The abort that a call answers -/

def Program.outermost (p : Program) (e : Entry) (i : Nat) (params : List Value)
    (returns : List Descriptor) : Task :=
  .entry e (.script i) (p.name (.script i)) ⟨params, returns, Int32.ofNat returns.length⟩

def tailFirst : Prototype where
  code := [.tailConst 0 0]
  constants := { pointers := [.function (.native 0)] }

def tailFirstPlan : Plan where
  steps := [.call ⟨0, .tail, .static 0 true, ⟨0, []⟩, []⟩]
  layout := {}
  states := [⟨[], []⟩]

theorem tailFirst_plan : tailFirst.plan = .ok tailFirstPlan := rfl

def tailFirstCode : Code := ⟨tailFirst, tailFirstPlan, tailFirst_plan⟩

def callFirstCode : Code := ⟨callFirst, callFirstPlan, callFirst_plan⟩

def failingProgram : Program where
  scripts := [{ name := "inner", entry := some (.compiled tailFirstCode) },
    { name := "outer", entry := some (.compiled callFirstCode) }]
  natives := [{ name := "fail", behaviour := fun _ => .abort { kind := .other, message := "boom" } }]

theorem failingProgram_onlyCompiled : failingProgram.OnlyCompiled := by
  intro s hs
  rcases List.mem_cons.1 hs with rfl | hs
  · exact .inr ⟨_, rfl⟩
  · rw [List.mem_singleton.1 hs]
    exact .inr ⟨_, rfl⟩

end CallProtocol
