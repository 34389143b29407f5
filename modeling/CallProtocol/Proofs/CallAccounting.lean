import CallProtocol.Proofs.Execution.Dispatches
import CallProtocol.Proofs.Execution.Invocations
import CallProtocol.Proofs.StackTrace

/-!
# Calls and frames

The counter of the context goes up before a callee begins, and a frame is pushed by the
callee, so the two part company exactly where a callee gets no frame. That is one of the
ways for an abort to come into being, and a run raises one abort at most. So what is left
over between the calls and the frames of a run is told by the task that raises the abort:
nothing for a native and for null, which are not counted, and one for a stub and for an
entry whose parameters do not fit.
-/

namespace CallProtocol

open Machine

/-- A task that raises an abort neither counts a call nor pushes a frame. -/
theorem Program.Raises.counted {p : Program} {τ : Task} {m m' : Machine} {a : Abort} {r : Int32}
    (h : p.Raises τ m a) (x : Execution p τ m r m') : Counted τ.owed m τ.owed m' := by
  cases h with
  | native ran =>
      cases x with
      | native ran' => exact .native ran'
  | stub f name h m =>
      cases x
      exact .raise m _
  | refused full =>
      cases x with
      | refused full' => exact .raise _ _
      | begun room body =>
          rw [room] at full
          cases full
  | null m =>
      cases x
      exact .raise m _

/-- The task that raises the abort tells what is left over between calls and frames. -/
theorem Nested.counted_of_raises {p : Program} {τ τ₀ : Task} {m m₀ m' : Machine}
    {chain : List Activation} {a : Abort} {r : Int32} (h : Nested p τ₀ m₀ chain τ m)
    (raises : p.Raises τ m a) (noHost : τ₀.NoHost p m₀) (x : Execution p τ₀ m₀ r m') :
    r < 0 ∧ Counted τ₀.owed m₀ τ.owed m' := by
  obtain ⟨r₁, m₁, ⟨y⟩, through⟩ := h.unwinds_counted x
  obtain ⟨hr, ended⟩ := through (raises.outcome y).1
  exact ⟨hr, (h.counted noHost).trans ((raises.counted y).trans (ended _))⟩

/-- Performing the task comes to a script that gets no frame and raises an abort. -/
def Program.Unframed (p : Program) (τ : Task) (m : Machine) : Prop :=
  ∃ chain τ₁ m₁ a, Nested p τ m chain τ₁ m₁ ∧ p.Raises τ₁ m₁ a ∧ τ₁.isEntry = true

/-- Between the two machines every script that has been called got a frame, or all but
one did. -/
def Program.Accounts (p : Program) (τ : Task) (m m' : Machine) : Prop :=
  Counted τ.owed m 0 m' ∨ Counted τ.owed m 1 m' ∧ p.Unframed τ m

namespace Program.Accounts

variable {p : Program} {τ : Task} {m m₁ m' : Machine}

theorem unframed (unframed : p.Unframed τ m) (counted : Counted τ.owed m 1 m') :
    p.Accounts τ m m' :=
  .inr ⟨counted, unframed⟩

theorem within {τ₁ : Task} {m₂ : Machine} (h : p.Accounts τ₁ m₁ m₂)
    (before : Counted τ.owed m τ₁.owed m₁) (after : ∀ owed, Counted owed m₂ owed m')
    (unframed : p.Unframed τ₁ m₁ → p.Unframed τ m) : p.Accounts τ m m' := by
  rcases h with counted | ⟨counted, origin⟩
  · exact .inl (before.trans (counted.trans (after 0)))
  · exact .inr ⟨before.trans (counted.trans (after 1)), unframed origin⟩

theorem advances {τ₁ : Task} (h : p.Accounts τ₁ m₁ m') (step : Advances p τ m τ₁ m₁)
    (noHost : τ.NoHost p m) : p.Accounts τ m m' := by
  refine h.within (step.counted noHost) (fun _ => .same rfl rfl) ?_
  rintro ⟨chain, τ₂, m₂, a, nested, raises⟩
  exact ⟨chain, τ₂, m₂, a, nested.of_advances step, raises⟩

end Program.Accounts

/-- In a run at most one script gets no frame, and this script raises the abort. -/
theorem Execution.accounts {p : Program} {τ : Task} {m m' : Machine} {r : Int32}
    (x : Execution p τ m r m') (noHost : τ.NoHost p m) : p.Accounts τ m m' := by
  induction x with
  | stub f name h m => exact .unframed ⟨[], _, _, _, .start, .stub f name h m, rfl⟩ (.raise m _)
  | host e f name h m => exact absurd trivial (noHost _ _ _ .start)
  | refused full => exact .unframed ⟨[], _, _, _, .start, .refused full, rfl⟩ (.raise _ _)
  | begun room body ih => exact (ih (noHost.advances (.begun room))).advances (.begun room) noHost
  | native ran => exact .inl (.native ran)
  | null m => exact .inl (.raise m _)
  | fallOff a m => exact .inl (.pop m)
  | quiet step next ih => exact (ih (noHost.advances (.quiet step))).advances (.quiet step) noHost
  | @returned site rest a m final =>
      exact .inl ((Counted.context (a.sameContext_giveBack m site)).trans (.pop _))
  | unwound callee call negative ih =>
      refine (ih (noHost.callee callee)).within (.callee callee) (fun _ => .unwind _ _) ?_
      rintro ⟨chain, τ₁, m₁, b, nested, raises⟩
      exact ⟨_, τ₁, m₁, b, nested.of_callee callee, raises⟩
  | tailed callee call resumes kind ih =>
      have called := call.counted_of_resumes (noHost.callee callee) resumes
      exact .inl ((Counted.callee callee).trans (called.trans (.pop _)))
  | resumed callee call resumes kind next ihcall ihnext =>
      have accounts := ihnext (noHost.advances (.resumed callee call resumes kind))
      exact accounts.advances (.resumed callee call resumes kind) noHost

/-- The run of an entry leaves the stack as deep as it was, and what the context has counted
is one less than the frames and the scripts that got none. -/
theorem Execution.frames_of_entry {p : Program} {τ : Task} {m m' : Machine} {r : Int32}
    (x : Execution p τ m r m') (hτ : τ.isEntry = true) (noHost : τ.NoHost p m) :
    ∃ frames unframed : Nat, m'.depth = m.depth ∧
      m'.stats.pushed = m.stats.pushed + frames ∧ m'.stats.popped = m.stats.popped + frames ∧
      scriptCalls x.dispatches + 1 = frames + unframed ∧
      (unframed = 0 ∨ unframed = 1 ∧ p.Unframed τ m) ∧
      (0 ≤ r → unframed = 0) ∧
      ∀ chain τ₁ m₁ a, Nested p τ m chain τ₁ m₁ → p.Raises τ₁ m₁ a →
        r < 0 ∧ unframed = τ₁.isEntry.toNat := by
  have restacked := x.restacked
  have own : τ.ownFrames = 0 := by
    cases τ with
    | body steps a => cases hτ
    | entry e f name h | native f h | null => rfl
  rw [own, x.hostFrames_eq_zero_of_nested noHost] at restacked
  have depth : m'.depth = m.depth := depth_of_serials restacked.serials_eq
  obtain ⟨frames, pushed⟩ : ∃ frames, m'.stats.pushed = m.stats.pushed + frames :=
    Nat.exists_eq_add_of_le restacked.1
  have conserves : m'.stats.pushed + (m.stats.popped + m.depth) =
      m.stats.pushed + (m'.stats.popped + m'.depth) := x.conserves
  have calls : m'.callCount = m.callCount + scriptCalls x.dispatches := x.callCount_eq
  have balance : ∀ {unframed : Nat}, Counted τ.owed m unframed m' →
      scriptCalls x.dispatches + 1 = frames + unframed := by
    intro unframed counted
    rw [Task.owed, hτ] at counted
    have counted : m'.callCount + m.stats.pushed + 1 = m.callCount + m'.stats.pushed + unframed :=
      counted
    omega
  obtain ⟨unframed, counted, origin⟩ : ∃ unframed, Counted τ.owed m unframed m' ∧
      (unframed = 0 ∨ unframed = 1 ∧ p.Unframed τ m) := by
    rcases x.accounts noHost with counted | ⟨counted, unframed⟩
    · exact ⟨0, counted, .inl rfl⟩
    · exact ⟨1, counted, .inr ⟨rfl, unframed⟩⟩
  refine ⟨frames, unframed, depth, pushed, by omega, balance counted, origin, ?_, ?_⟩
  · intro resumes
    have framed := balance (x.counted_of_resumes noHost resumes)
    have counted := balance counted
    omega
  · intro chain τ₁ m₁ a nested raises
    obtain ⟨negative, raised⟩ := nested.counted_of_raises raises noHost x
    have raised := balance raised
    have counted := balance counted
    rw [Task.owed] at raised
    exact ⟨negative, by omega⟩

/-! ## Calls from outside -/

def Calling.dispatches {p : Program} {f : FuncRef} {params : List Value}
    {returns : List Descriptor} {m : Machine} {o : Except Abort Int32} {m' : Machine} :
    Calling p f params returns m o m' → List Dispatched
  | native _ _ => []
  | missing _ _ => []
  | script _ _ run _ => run.dispatches

theorem Machine.callCount_endCall (m ended : Machine) :
    (m.endCall ended).callCount = ended.callCount := by
  rw [endCall]
  split <;> rfl

/-- Calls and frames are conserved, if no function has an entry of the host.

Take any call of a script from outside that ends. What the context has counted are the
calls of scripts among those that compiled code has made, each one once, whether its site
is static or dynamic and a call or a tail call; natives and null are not counted. As many
frames have been popped as have been pushed, and the stack is as deep as before. The calls
and the outermost entry are as many as the frames and the scripts that got none. There is
at most one of these. There is none if the call returns. If an abort has been raised, then
it is the one that raises it, or there is none if a native or a call of null does. -/
theorem calls_and_frames_conserved {p : Program}
    (noHost : ∀ f e, (p.head f).entry ≠ some (.host e)) {i limit : Nat} {params : List Value}
    {returns : List Descriptor} {m m' : Machine} {o : Except Abort Int32}
    (ran : p.call limit (.script i) params returns m = some (o, m')) :
    ∃ (c : Calling p (.script i) params returns m o m') (frames unframed : Nat),
      (∀ d ∈ c.dispatches, d.task.Planned) ∧
      m'.callCount = m.callCount + scriptCalls c.dispatches ∧
      m'.stats.pushed = m.stats.pushed + frames ∧
      m'.stats.popped = m.stats.popped + frames ∧
      m'.depth = m.depth ∧
      scriptCalls c.dispatches + 1 = frames + unframed ∧
      unframed ≤ 1 ∧
      (∀ n, o = .ok n → unframed = 0) ∧
      ((p.head (.script i)).entry = none → unframed = 1) ∧
      ∀ e, (p.head (.script i)).entry = some e →
        (∀ chain τ m₁ a, Nested p (p.outermost e i params returns) m.beginCall chain τ m₁ →
          p.Raises τ m₁ a → (∃ b, o = .error b) ∧ unframed = τ.isEntry.toNat) ∧
        (unframed = 1 → p.Unframed (p.outermost e i params returns) m.beginCall) ∧
        (∀ b, o = .error b → 0 ≤ Int32.ofNat returns.length →
          ∃ chain τ m₁ a, Nested p (p.outermost e i params returns) m.beginCall chain τ m₁ ∧
            p.Raises τ m₁ a) := by
  obtain ⟨c⟩ := Calling.ofCall ran
  cases c with
  | native isNative ran => cases isNative
  | missing isScript none =>
      refine ⟨.missing isScript none, 0, 1, ?_⟩
      refine ⟨?_, ?_, ?_, ?_, depth_endCall _ _, rfl, Nat.le_refl _, ?_, fun _ => rfl, ?_⟩
      · exact fun d hd => absurd hd List.not_mem_nil
      · exact callCount_endCall _ _
      · rw [stats_endCall]
        rfl
      · rw [stats_endCall]
        rfl
      · exact fun n hn => by cases hn
      · intro e he
        rw [none] at he
        cases he
  | @script e r ended o settled isScript entry run answer =>
      have hτ : ¬ (p.outermost e i params returns).ofHost := by
        cases e with
        | host x => exact absurd entry (noHost _ x)
        | stub | compiled code => exact id
      -- No entry of the host is reached, so no frame is left behind.
      have quietly : (p.outermost e i params returns).NoHost p m.beginCall :=
        fun _ _ _ nested => nested.not_ofHost noHost hτ
      obtain ⟨frames, unframed, depth, pushed, popped, balance, origin, returned, raised⟩ :=
        run.frames_of_entry rfl quietly
      have kept := Program.settle_context answer depth
      have errs := Program.settle_error_iff answer
      refine ⟨.script isScript entry run answer, frames, unframed, ?_, ?_, ?_, ?_, ?_, balance,
        ?_, ?_, ?_, ?_⟩
      · intro d hd
        exact run.planned_of_dispatches isScript hd
      · rw [callCount_endCall, kept.1]
        exact run.callCount_eq
      · rw [stats_endCall, kept.2.1]
        exact pushed
      · rw [stats_endCall, kept.2.1]
        exact popped
      · rw [depth_endCall, kept.2.2]
        exact depth
      · rcases origin with h | ⟨h, -⟩ <;> omega
      · rintro n rfl
        refine returned (Int32.not_lt.1 fun negative => ?_)
        obtain ⟨b, hb⟩ := errs.2 negative
        cases hb
      · intro none
        rw [entry] at none
        cases none
      · intro e' he'
        obtain rfl := Option.some.inj (entry.symm.trans he')
        refine ⟨?_, ?_, ?_⟩
        · intro chain τ m₁ a nested raises
          obtain ⟨negative, hunframed⟩ := raised chain τ m₁ a nested raises
          exact ⟨errs.2 negative, hunframed⟩
        · intro one
          rcases origin with h | ⟨-, h⟩
          · omega
          · exact h
        · rintro b rfl wanted
          have hostFree := Program.hostFree_of_noHost noHost
          have regular : (p.outermost e i params returns).Regular :=
            ⟨fun x => hostFree _ e x isScript entry, wanted⟩
          exact run.exists_raises_of_hostFree hostFree regular (errs.1 ⟨b, rfl⟩)

/-! ## A stub and a native that abort -/

theorem abortingProgram_noHost (f : FuncRef) (x : HostEntry) :
    (abortingProgram.head f).entry ≠ some (.host x) := by
  refine abortingProgram_onlyCompiled.noHost ?_ f x
  intro n hn
  rw [List.mem_singleton.1 hn]

theorem failingProgram_noHost (f : FuncRef) (x : HostEntry) :
    (failingProgram.head f).entry ≠ some (.host x) := by
  refine failingProgram_onlyCompiled.noHost ?_ f x
  intro n hn
  rw [List.mem_singleton.1 hn]

/-- A stub is counted and has no frame. A native is not counted, and the two scripts above
it have a frame each. -/
theorem calls_and_frames_conserved_abort :
    (∃ b m', abortingProgram.call 2 (.script 1) [] [] {} = some (.error b, m') ∧
        m'.callCount + 1 = m'.stats.pushed + 1 ∧ m'.stats.popped = m'.stats.pushed) ∧
      ∃ b m', failingProgram.call 2 (.script 1) [] [] {} = some (.error b, m') ∧
        m'.callCount + 1 = m'.stats.pushed ∧ m'.stats.popped = m'.stats.pushed := by
  constructor
  · obtain ⟨b, m', ran⟩ : ∃ b m', abortingProgram.call 2 (.script 1) [] [] {} =
        some (.error b, m') := ⟨_, _, rfl⟩
    obtain ⟨c, frames, unframed, -, calls, pushed, popped, -, balance, -, -, -, origins⟩ :=
      calls_and_frames_conserved abortingProgram_noHost ran
    have caller : Nested abortingProgram
        (abortingProgram.outermost (.compiled callFirstCode) 1 [] []) (Machine.beginCall {}) []
        (.body callFirstPlan.steps _) _ := .advanced .start (.begun rfl)
    obtain ⟨-, one⟩ := (origins _ rfl).1 _ _ _ _ (.called caller rfl) (.stub _ _ _ _)
    have one : unframed = 1 := one
    have pushed : m'.stats.pushed = 0 + frames := pushed
    have popped : m'.stats.popped = 0 + frames := popped
    have calls : m'.callCount = 0 + scriptCalls c.dispatches := calls
    exact ⟨b, m', ran, by omega, by omega⟩
  · obtain ⟨b, m', ran⟩ : ∃ b m', failingProgram.call 2 (.script 1) [] [] {} =
        some (.error b, m') := ⟨_, _, rfl⟩
    obtain ⟨c, frames, unframed, -, calls, pushed, popped, -, balance, -, -, -, origins⟩ :=
      calls_and_frames_conserved failingProgram_noHost ran
    have outer : Nested failingProgram
        (failingProgram.outermost (.compiled callFirstCode) 1 [] []) (Machine.beginCall {}) []
        (.body callFirstPlan.steps _) _ := .advanced .start (.begun rfl)
    have inner : Nested failingProgram
        (failingProgram.outermost (.compiled callFirstCode) 1 [] []) (Machine.beginCall {}) [_]
        (.body tailFirstPlan.steps _) _ := .advanced (.called outer rfl) (.begun rfl)
    obtain ⟨-, none⟩ := (origins _ rfl).1 _ _ _ _ (.called inner rfl) (.native rfl)
    have none : unframed = 0 := none
    have pushed : m'.stats.pushed = 0 + frames := pushed
    have popped : m'.stats.popped = 0 + frames := popped
    have calls : m'.callCount = 0 + scriptCalls c.dispatches := calls
    exact ⟨b, m', ran, by omega, by omega⟩

end CallProtocol
