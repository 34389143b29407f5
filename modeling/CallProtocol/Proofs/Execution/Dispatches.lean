import CallProtocol.Proofs.Execution.Activation
import CallProtocol.Proofs.Execution.Calling
import CallProtocol.Proofs.Execution.Nested

/-!
# Dispatches

`Execution.dispatches` lists the calls that compiled code makes in a run, each site with the
task that is performed for it. Planned code makes three kinds of them: of null, of a native
as a native, and of a script through its entry. It is the last kind that the context counts,
and it does so before the callee begins, so the count does not depend on how the callee
ends.

The statistics of the stack are tied to it by two laws that each operation keeps. A frame is
on the stack or has been popped, which is `Machine.Conserves`. A script whose entry is to
run is owed a frame, which is `Machine.Counted`: what has been counted and the frames that
are owed grow together with the frames that have been pushed.
-/

namespace CallProtocol

open Machine

namespace Task

def isEntry : Task → Bool
  | entry _ _ _ _ => true
  | _ => false

/-- The frames that a task is owed: an entry has not got its frame yet. -/
def owed (τ : Task) : Nat := τ.isEntry.toNat

/-- What compiled code comes to perform: entries are those of scripts, natives are natives,
and bodies are those of plans. -/
def Planned : Task → Prop
  | entry _ f _ _ => f.isNative = false
  | native f _ => f.isNative = true
  | null => True
  | body steps a => a.Runs steps

theorem Planned.next {s : Step} {rest : List Step} {a a' : Activation}
    (h : (Task.body (s :: rest) a).Planned) (same : a.SameBody a') :
    (Task.body rest a').Planned :=
  Activation.Runs.next h same

theorem Planned.callee {p : Program} {c : CallSite} {rest : List Step} {a : Activation}
    {m m₁ : Machine} {τ : Task} (h : (Task.body (.call c :: rest) a).Planned)
    (hτ : p.callee? a c m = some (τ, m₁)) : τ.Planned := by
  rcases Program.callee?_of_runs h hτ with rfl | ⟨f, hnative, rfl⟩ | ⟨f, e, hscript, -, rfl⟩
  · trivial
  · exact hnative
  · exact hscript

end Task

structure Dispatched where
  site : CallSite
  task : Task

namespace Execution

variable {p : Program} {τ : Task} {m m' : Machine} {r : Int32}

def dispatches {p : Program} {τ : Task} {m : Machine} {r : Int32} {m' : Machine} :
    Execution p τ m r m' → List Dispatched
  | stub _ _ _ _ => []
  | host _ _ _ _ _ => []
  | refused _ => []
  | begun _ body => body.dispatches
  | native _ => []
  | null _ => []
  | fallOff _ _ => []
  | quiet _ next => next.dispatches
  | returned _ _ _ _ => []
  | @unwound _ c _ _ _ τ _ _ _ _ call _ => ⟨c, τ⟩ :: call.dispatches
  | @tailed _ c _ _ _ τ _ _ _ _ call _ _ => ⟨c, τ⟩ :: call.dispatches
  | @resumed _ c _ _ _ τ _ _ _ _ _ _ call _ _ next =>
    ⟨c, τ⟩ :: call.dispatches ++ next.dispatches

theorem planned_of_dispatches (x : Execution p τ m r m') (hτ : τ.Planned) {d : Dispatched}
    (hd : d ∈ x.dispatches) : d.task.Planned := by
  induction x with
  | stub f name h m => cases hd
  | host e f name h m => cases hd
  | refused full => cases hd
  | @begun code f name h m fr m₁ r m' room body ih =>
      exact ih (Activation.runs_start code name h fr) hd
  | native ran => cases hd
  | null m => cases hd
  | fallOff a m => cases hd
  | quiet step next ih => exact ih (hτ.next (Activation.sameBody_quiet step)) hd
  | returned rest a m final => cases hd
  | unwound callee call negative ih =>
      rcases List.mem_cons.1 hd with rfl | hd
      · exact hτ.callee callee
      · exact ih (hτ.callee callee) hd
  | tailed callee call resumes kind ih =>
      rcases List.mem_cons.1 hd with rfl | hd
      · exact hτ.callee callee
      · exact ih (hτ.callee callee) hd
  | resumed callee call resumes kind next ihcall ihnext =>
      rcases List.mem_append.1 hd with hd | hd
      · rcases List.mem_cons.1 hd with rfl | hd
        · exact hτ.callee callee
        · exact ihcall (hτ.callee callee) hd
      · exact ihnext (hτ.next (Activation.sameBody_refresh _ _ _)) hd

end Execution

/-! ## The counter -/

def scriptCalls (ds : List Dispatched) : Nat := (ds.filter (·.task.isEntry)).length

theorem scriptCalls_cons (d : Dispatched) (ds : List Dispatched) :
    scriptCalls (d :: ds) = d.task.owed + scriptCalls ds := by
  rw [scriptCalls, List.filter_cons, Task.owed]
  cases d.task.isEntry with
  | true => exact Nat.add_comm _ _
  | false => exact (Nat.zero_add _).symm

theorem scriptCalls_append (ds ds' : List Dispatched) :
    scriptCalls (ds ++ ds') = scriptCalls ds + scriptCalls ds' := by
  rw [scriptCalls, List.filter_append, List.length_append]
  rfl

namespace Machine

@[simp] theorem callCount_raise (m : Machine) (a : Abort) :
    (m.raise a).callCount = m.callCount := by
  rw [raise]
  cases m.pending <;> rfl

@[simp] theorem callCount_pop (m : Machine) : m.pop.callCount = m.callCount := by
  rw [pop]
  cases m.frames <;> rfl

@[simp] theorem callCount_unwind (m : Machine) (name : String) :
    (m.unwind name).callCount = m.callCount := by
  cases h : m.pending with
  | none => simp [unwind, h, report]
  | some a => simp [unwind, h, clearPending]

theorem callCount_pushEmpties (n : Nat) (m : Machine) :
    (m.pushEmpties n).callCount = m.callCount := by
  induction n with
  | zero => rfl
  | succ n ih => exact ih

end Machine

theorem Program.callCount_callee? {p : Program} {a : Activation} {c : CallSite} {m m₁ : Machine}
    {τ : Task} (hτ : p.callee? a c (a.beforeCall m c) = some (τ, m₁)) :
    m₁.callCount = m.callCount + τ.owed := by
  have same : SameContext m (a.beforeCall m c) := a.sameContext_flush m _
  rcases callee?_cases hτ with ⟨rfl, rfl⟩ | ⟨f, rfl, rfl⟩ | ⟨f, e, -, rfl, rfl⟩
  · exact same.callCount
  · exact same.callCount
  · exact congrArg (· + 1) same.callCount

theorem Program.callCount_nativeCall {p : Program} {f : FuncRef} {h : Handover} {m m' : Machine}
    {r : Int32} (ran : p.nativeCall f h m = (r, m')) : m'.callCount = m.callCount := by
  rcases nativeCall_cases ran with ⟨hcall, -⟩ | ⟨a, m₁, hcall, -, rfl⟩
  · exact (callNative_context hcall).callCount
  · rw [callCount_raise]
    exact (callNative_context hcall).callCount

theorem Program.callCount_runHostEntry (e : HostEntry) (f : FuncRef) (h : Handover)
    (m : Machine) : (runHostEntry e f h m).2.callCount = m.callCount := by
  simp only [runHostEntry]
  cases e.raises with
  | none => exact callCount_pushEmpties _ _
  | some a => exact (callCount_raise _ a).trans (callCount_pushEmpties _ _)

/-- The calls of scripts are what the context counts in a run, however each of them is
made and ends. -/
theorem Execution.callCount_eq {p : Program} {τ : Task} {m m' : Machine} {r : Int32}
    (x : Execution p τ m r m') : m'.callCount = m.callCount + scriptCalls x.dispatches := by
  induction x with
  | stub f name h m => exact callCount_raise m _
  | host e f name h m => exact Program.callCount_runHostEntry e f h m
  | refused full => exact callCount_raise _ _
  | begun room body ih =>
      obtain ⟨-, rfl⟩ := push_eq_ok room
      exact ih
  | native ran => exact Program.callCount_nativeCall ran
  | null m => exact callCount_raise m _
  | fallOff a m => exact callCount_pop m
  | quiet step next ih =>
      have same := Activation.sameContext_quiet step
      rw [ih, same.callCount]
      rfl
  | @returned site rest a m final =>
      exact (callCount_pop _).trans (a.sameContext_giveBack m site).callCount
  | unwound callee call negative ih =>
      have counted := Program.callCount_callee? callee
      rw [callCount_unwind, ih, counted, dispatches, scriptCalls_cons, Nat.add_assoc]
  | tailed callee call resumes kind ih =>
      have counted := Program.callCount_callee? callee
      rw [callCount_pop, ih, counted, dispatches, scriptCalls_cons, Nat.add_assoc]
  | resumed callee call resumes kind next ihcall ihnext =>
      have counted := Program.callCount_callee? callee
      rw [ihnext, ihcall, counted, dispatches, scriptCalls_append, scriptCalls_cons]
      simp only [Nat.add_assoc]

/-! ## Frames are on the stack or popped -/

namespace Machine

def Conserves (m m' : Machine) : Prop :=
  m'.stats.pushed + (m.stats.popped + m.depth) = m.stats.pushed + (m'.stats.popped + m'.depth)

namespace Conserves

theorem same {m m' : Machine} (hdepth : m'.depth = m.depth) (hstats : m'.stats = m.stats) :
    Conserves m m' := by
  rw [Conserves, hdepth, hstats]

theorem trans {m m₁ m₂ : Machine} (h : Conserves m m₁) (h' : Conserves m₁ m₂) :
    Conserves m m₂ := by
  simp only [Conserves] at *
  omega

theorem push {m m' : Machine} {layout : FrameLayout} {params : List Value} {fr : Frame}
    (h : m.push layout params = .ok (fr, m')) : Conserves m m' := by
  obtain ⟨-, rfl⟩ := push_eq_ok h
  change m.stats.pushed + 1 + (m.stats.popped + m.depth) =
    m.stats.pushed + (m.stats.popped + (m.depth + 1))
  omega

theorem popped {m m' : Machine} (hdepth : m'.depth = m.depth - 1)
    (hstats : m'.stats = m.pop.stats) : Conserves m m' := by
  rw [Conserves, hdepth, hstats, Machine.pop]
  cases hframes : m.frames with
  | nil => simp [depth, hframes, report]
  | cons fr frs =>
      simp only [depth, hframes, List.length_cons]
      omega

theorem pushEmpties (n : Nat) (m : Machine) : Conserves m (m.pushEmpties n) := by
  induction n with
  | zero => exact .same rfl rfl
  | succ n ih =>
      obtain ⟨fr, hpush⟩ := push_empty (m.pushEmpties n)
      exact ih.trans (.push hpush)

end Conserves

end Machine

namespace Execution

variable {p : Program} {τ : Task} {m m' : Machine} {r : Int32}

theorem conservesCall {a : Activation} {c : CallSite} {m m₁ m₂ : Machine}
    (callee : p.callee? a c (a.beforeCall m c) = some (τ, m₁)) (call : Conserves m₁ m₂) :
    Conserves m m₂ := by
  obtain ⟨hserials, hstats, -, -⟩ := Program.callee?_context callee
  exact (Conserves.same (depth_of_serials hserials) hstats).trans call

theorem conserves (x : Execution p τ m r m') : Conserves m m' := by
  induction x with
  | stub f name h m => exact .same (depth_raise m _) (stats_raise m _)
  | host e f name h m =>
      obtain ⟨hframes, hstats, -⟩ := Program.runHostEntry_context e f h m
      have noted : Conserves m (Program.noteEntry f h m) := .same rfl rfl
      exact (noted.trans (.pushEmpties e.pushes _)).trans
        (.same (congrArg List.length hframes) hstats)
  | refused full => exact .same (depth_raise _ _) (stats_raise _ _)
  | begun room body ih => exact (Conserves.push room).trans ih
  | native ran =>
      obtain ⟨hserials, hstats⟩ := Program.nativeCall_context ran
      exact .same (depth_of_serials hserials) hstats
  | null m => exact .same (depth_raise m _) (stats_raise m _)
  | fallOff a m => exact .popped (depth_pop m) rfl
  | quiet step next ih =>
      have same := Activation.sameContext_quiet step
      exact (Conserves.same same.depth same.stats).trans ih
  | @returned site rest a m final =>
      have same := a.sameContext_giveBack m site
      exact (Conserves.same same.depth same.stats).trans (.popped (depth_pop _) rfl)
  | unwound callee call negative ih =>
      exact (conservesCall callee ih).trans (.popped (depth_unwind _ _) (stats_unwind _ _))
  | tailed callee call resumes kind ih =>
      exact (conservesCall callee ih).trans (.popped (depth_pop _) rfl)
  | resumed callee call resumes kind next ihcall ihnext =>
      exact (conservesCall callee ihcall).trans ihnext

end Execution

/-! ## Calls are counted and frames are pushed -/

namespace Machine

/-- From a machine with `owed` frames to come to one with `owed'` frames to come: the calls
that have been counted, and the frames that were owed at the beginning, are the frames that
have been pushed and those that are still owed. -/
def Counted (owed : Nat) (m : Machine) (owed' : Nat) (m' : Machine) : Prop :=
  m'.callCount + m.stats.pushed + owed = m.callCount + m'.stats.pushed + owed'

namespace Counted

theorem same {m m' : Machine} {owed : Nat} (hcalls : m'.callCount = m.callCount)
    (hpushed : m'.stats.pushed = m.stats.pushed) : Counted owed m owed m' := by
  rw [Counted, hcalls, hpushed]

theorem trans {m m₁ m₂ : Machine} {owed owed₁ owed₂ : Nat} (h : Counted owed m owed₁ m₁)
    (h' : Counted owed₁ m₁ owed₂ m₂) : Counted owed m owed₂ m₂ := by
  simp only [Counted] at *
  omega

theorem context {m m' : Machine} (h : SameContext m m') {owed : Nat} : Counted owed m owed m' :=
  .same h.callCount (by rw [h.stats])

theorem raise (m : Machine) (a : Abort) {owed : Nat} : Counted owed m owed (m.raise a) :=
  .same (callCount_raise m a) (by rw [stats_raise])

theorem pop (m : Machine) {owed : Nat} : Counted owed m owed m.pop :=
  .same (callCount_pop m) (pushed_pop m)

theorem unwind (m : Machine) (name : String) {owed : Nat} : Counted owed m owed (m.unwind name) :=
  .same (callCount_unwind m name) (by rw [stats_unwind, pushed_pop])

theorem native {p : Program} {f : FuncRef} {h : Handover} {m m' : Machine} {r : Int32}
    (ran : p.nativeCall f h m = (r, m')) {owed : Nat} : Counted owed m owed m' := by
  have hstats := (Program.nativeCall_context ran).2
  exact .same (Program.callCount_nativeCall ran) (by rw [hstats])

theorem push {m m' : Machine} {layout : FrameLayout} {params : List Value} {fr : Frame}
    (h : m.push layout params = .ok (fr, m')) : Counted 1 m 0 m' := by
  obtain ⟨-, rfl⟩ := push_eq_ok h
  exact Nat.add_assoc _ _ _

theorem callee {p : Program} {a : Activation} {c : CallSite} {m m₁ : Machine} {τ : Task}
    (hτ : p.callee? a c (a.beforeCall m c) = some (τ, m₁)) : Counted 0 m τ.owed m₁ := by
  obtain ⟨-, hstats, -, -⟩ := Program.callee?_context hτ
  rw [Counted, Program.callCount_callee? hτ, hstats]
  omega

end Counted

end Machine

namespace Execution

variable {p : Program} {τ : Task} {m m' : Machine} {r : Int32}

/-- A run that does not unwind has a frame for each script that has been called in it. -/
theorem counted_of_resumes (x : Execution p τ m r m') (noHost : τ.NoHost p m) (resumes : 0 ≤ r) :
    Counted τ.owed m 0 m' := by
  -- Whoever raises an abort answers a negative code, and so do all who called it.
  induction x with
  | stub f name h m => exact absurd resumes (by decide)
  | host e f name h m => exact absurd trivial (noHost _ _ _ .start)
  | refused full => exact absurd resumes (by decide)
  | begun room body ih =>
      exact (Counted.push room).trans (ih (noHost.advances (.begun room)) resumes)
  | native ran => exact .native ran
  | null m => exact absurd resumes (by decide)
  | fallOff a m => exact .pop m
  | quiet step next ih =>
      exact (Counted.context (Activation.sameContext_quiet step)).trans
        (ih (noHost.advances (.quiet step)) resumes)
  | @returned site rest a m final =>
      exact (Counted.context (a.sameContext_giveBack m site)).trans (.pop _)
  | unwound callee call negative ih => exact absurd resumes (Int32.not_le.2 negative)
  | tailed callee call resumes' kind ih =>
      have called := (Counted.callee callee).trans (ih (noHost.callee callee) resumes')
      exact called.trans (.pop _)
  | resumed callee call resumes' kind next ihcall ihnext =>
      have called := (Counted.callee callee).trans (ihcall (noHost.callee callee) resumes')
      exact called.trans
        (ihnext (noHost.advances (.resumed callee call resumes' kind)) resumes)

end Execution

theorem Advances.counted {p : Program} {τ τ' : Task} {m m' : Machine}
    (h : Advances p τ m τ' m') (noHost : τ.NoHost p m) : Counted τ.owed m τ'.owed m' := by
  cases h with
  | begun room => exact .push room
  | quiet step => exact .context (Activation.sameContext_quiet step)
  | resumed callee call resumes kind =>
      exact (Counted.callee callee).trans (call.counted_of_resumes (noHost.callee callee) resumes)

namespace Nested

variable {p : Program} {τ τ₀ : Task} {m m₀ : Machine} {chain : List Activation}

/-- When a run comes to a task, each script that has been called has its frame, but for the
task itself. -/
theorem counted (h : Nested p τ₀ m₀ chain τ m) (noHost : τ₀.NoHost p m₀) :
    Counted τ₀.owed m₀ τ.owed m := by
  induction h with
  | start => exact .same rfl rfl
  | advanced prior step ih => exact ih.trans (step.counted (prior.noHost noHost))
  | called prior callee ih => exact ih.trans (.callee callee)

/-- A run that comes to a task that unwinds counts nothing and pushes nothing from then
on. -/
theorem unwinds_counted (h : Nested p τ₀ m₀ chain τ m) {r : Int32} {m' : Machine}
    (x : Execution p τ₀ m₀ r m') :
    ∃ r₁ m₁, Nonempty (Execution p τ m r₁ m₁) ∧
      (r₁ < 0 → r < 0 ∧ ∀ owed, Counted owed m₁ owed m') := by
  induction h with
  | start => exact ⟨r, m', ⟨x⟩, fun negative => ⟨negative, fun _ => .same rfl rfl⟩⟩
  | advanced prior step ih =>
      obtain ⟨r₁, m₁, ⟨y⟩, through⟩ := ih
      exact ⟨r₁, m₁, step.execution y, through⟩
  | called prior callee ih =>
      obtain ⟨r₁, m₂, ⟨y⟩, through⟩ := ih
      obtain ⟨r₂, m₃, call, hunwind⟩ := y.callee callee
      refine ⟨r₂, m₃, call, fun negative => ?_⟩
      obtain ⟨rfl, rfl⟩ := hunwind negative
      obtain ⟨hr, hcounted⟩ := through negative
      exact ⟨hr, fun owed => (Counted.unwind m₃ _).trans (hcounted owed)⟩

end Nested

end CallProtocol
