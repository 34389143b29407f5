import CallProtocol.Proofs.FrameBalance
import CallProtocol.Proofs.Execution.Moments

/-!
# The discipline of the clock

A call from outside of compiled code starts the clock, and stops it at the end if it found
it stopped. A native stops the clock, and at the end starts it again if it found it running.
Nothing else touches it. So a run has the clock of the machine it begins on at all times but
those at which a native is in the middle of what it does: `KeepsClock m past m'` says this of
the machines `past` between `m` and `m'`, and composes along the run.

Whether a callee returns or unwinds makes no difference here, and neither does a panic of a
native, which is caught while the clock stands still.
-/

namespace CallProtocol

open Machine

namespace Machine

@[simp] theorem clock_raise (m : Machine) (a : Abort) : (m.raise a).clock = m.clock := by
  rw [raise]
  cases m.pending <;> rfl

@[simp] theorem clock_pop (m : Machine) : m.pop.clock = m.clock := by
  rw [pop]
  cases m.frames <;> rfl

@[simp] theorem clock_unwind (m : Machine) (name : String) : (m.unwind name).clock = m.clock := by
  rw [unwind_eq]
  cases m.pending with
  | none => exact (clock_raise _ _).trans (clock_pop m)
  | some a => exact (clock_raise _ _).trans (clock_pop m)

theorem clock_push {m m' : Machine} {layout : FrameLayout} {params : List Value} {fr : Frame}
    (h : m.push layout params = .ok (fr, m')) : m'.clock = m.clock := by
  obtain ⟨-, rfl⟩ := push_eq_ok h
  rfl

@[simp] theorem clock_pushEmpties (n : Nat) (m : Machine) :
    (m.pushEmpties n).clock = m.clock := by
  induction n with
  | zero => rfl
  | succ n ih =>
      obtain ⟨fr, hpush⟩ := push_empty (m.pushEmpties n)
      exact (clock_push hpush).trans ih

theorem clock_endCall {m ended : Machine} (h : ended.clock = m.beginCall.clock) :
    (m.endCall ended).clock = m.clock := by
  have hstarted : ended.clock = ⟨true⟩ := h
  rw [endCall]
  rcases hclock : m.clock with ⟨_ | _⟩
  · rfl
  · exact hstarted

/-- The clock is that of `m` from there through the machines `past` to `m'`. -/
structure KeepsClock (m : Machine) (past : List Machine) (m' : Machine) : Prop where
  ended : m'.clock = m.clock
  visited : ∀ s ∈ past, s.clock = m.clock

namespace KeepsClock

theorem one {m m' : Machine} (h : m'.clock = m.clock) : KeepsClock m [m'] m' where
  ended := h
  visited s hs := by rwa [List.mem_singleton.1 hs]

theorem trans {m m₁ m₂ : Machine} {past past' : List Machine} (h : KeepsClock m past m₁)
    (h' : KeepsClock m₁ past' m₂) : KeepsClock m (past ++ past') m₂ where
  ended := h'.ended.trans h.ended
  visited s hs := by
    rcases List.mem_append.1 hs with hs | hs
    · exact h.visited s hs
    · exact (h'.visited s hs).trans h.ended

theorem pushEmpties (n : Nat) (m : Machine) :
    KeepsClock m ((List.range n).map fun k => m.pushEmpties (k + 1)) (m.pushEmpties n) where
  ended := clock_pushEmpties n m
  visited s hs := by
    obtain ⟨k, -, rfl⟩ := List.mem_map.1 hs
    exact clock_pushEmpties (k + 1) m

end KeepsClock

variable {args : Arguments} {returns : List Descriptor}

theorem mem_hostVisited_start (host : Host) (m : Machine) :
    m ∈ hostVisited args returns host m := by
  cases host with
  | finish n => exact List.mem_singleton_self m
  | abort a => exact List.mem_singleton_self m
  | panic p => exact List.mem_singleton_self m
  | _ => exact List.mem_cons_self

theorem runHost_mem_hostVisited (host : Host) (m : Machine) :
    (m.runHost args returns host).2 ∈ hostVisited args returns host m := by
  induction host generalizing m with
  | finish n => exact List.mem_singleton_self m
  | abort a => exact List.mem_singleton_self m
  | panic p => exact List.mem_singleton_self m
  | put slot b xs next ih =>
      simp only [runHost, hostVisited]
      cases returns[slot]? with
      | some d => exact List.mem_cons_of_mem m (ih _)
      | none => exact List.mem_cons_self
  | arg i next ih => exact List.mem_cons_of_mem m (ih _ _)
  | load s next ih => exact List.mem_cons_of_mem m (ih _ _)
  | store s x next ih => exact List.mem_cons_of_mem m (ih _)
  | note e next ih => exact List.mem_cons_of_mem m (ih _)

end Machine

namespace Program

variable {p : Program}

theorem clock_callNative {f : FuncRef} {params : List Value} {returns : List Descriptor}
    {m m' : Machine} {o : Except Abort Int32} (ran : p.callNative f params returns m = (o, m')) :
    m'.clock = m.clock :=
  (callNative_context ran).clock

/-- A native restores the clock, also if it leaves an abort pending. -/
theorem clock_nativeCall {f : FuncRef} {h : Handover} {m m' : Machine} {r : Int32}
    (ran : p.nativeCall f h m = (r, m')) : m'.clock = m.clock := by
  rcases nativeCall_cases ran with ⟨hcall, -⟩ | ⟨a, m₁, hcall, -, rfl⟩
  · exact clock_callNative hcall
  · exact (clock_raise m₁ a).trans (clock_callNative hcall)

/-- The clock stands still when a native begins to run, and as long as it does. -/
theorem clock_of_mem_nativeVisited {f : FuncRef} {params : List Value} {returns : List Descriptor}
    {m s : Machine} (h : s ∈ p.nativeVisited f params returns m) : s.clock.running = false := by
  cases f with
  | script i => cases h
  | native i => exact congrArg Clock.running (sameContext_of_mem_hostVisited h).clock

theorem clock_runHostEntry (e : HostEntry) (f : FuncRef) (h : Handover) (m : Machine) :
    (runHostEntry e f h m).2.clock = m.clock := by
  have pushed : ((noteEntry f h m).pushEmpties e.pushes).clock = m.clock :=
    clock_pushEmpties e.pushes _
  simp only [runHostEntry]
  cases e.raises with
  | none => exact pushed
  | some a => exact (clock_raise _ a).trans pushed

theorem clock_callee? {a : Activation} {c : CallSite} {m m₁ : Machine} {τ : Task}
    (hτ : p.callee? a c m = some (τ, m₁)) : m₁.clock = m.clock := by
  rcases callee?_cases hτ with ⟨-, rfl⟩ | ⟨f, -, rfl⟩ | ⟨f, e, -, -, rfl⟩
  · rfl
  · rfl
  · rfl

end Program

namespace Activation

theorem clock_beforeCall (a : Activation) (m : Machine) (c : CallSite) :
    (a.beforeCall m c).clock = m.clock :=
  (a.sameContext_flush m (a.inOuts c)).clock

theorem clock_quiet {a a' : Activation} {m m' : Machine} {s : Step}
    (h : a.quiet m s = some (a', m')) : m'.clock = m.clock :=
  (sameContext_quiet h).clock

end Activation

namespace Execution

variable {p : Program}

theorem keepsClockCall {a : Activation} {c : CallSite} {m m₁ m₂ : Machine} {τ : Task}
    {past : List Machine} (callee : p.callee? a c (a.beforeCall m c) = some (τ, m₁))
    (call : KeepsClock m₁ past m₂) : KeepsClock m (a.beforeCall m c :: m₁ :: past) m₂ := by
  have prepared : KeepsClock m [a.beforeCall m c] (a.beforeCall m c) :=
    .one (a.clock_beforeCall m c)
  have begun : KeepsClock (a.beforeCall m c) [m₁] m₁ := .one (Program.clock_callee? callee)
  exact prepared.trans (begun.trans call)

theorem keepsClock {τ : Task} {m m' : Machine} {r : Int32} (x : Execution p τ m r m') :
    KeepsClock m x.visited m' := by
  induction x with
  | stub f name h m => exact .one (clock_raise m _)
  | host e f name h m =>
      have pushed := KeepsClock.pushEmpties e.pushes (Program.noteEntry f h m)
      have hended : (Program.runHostEntry e f h m).2.clock =
          ((Program.noteEntry f h m).pushEmpties e.pushes).clock :=
        (Program.clock_runHostEntry e f h m).trans pushed.ended.symm
      have kept := pushed.trans (.one hended)
      exact ⟨kept.ended, kept.visited⟩
  | refused full => exact .one (clock_raise _ _)
  | begun room body ih => exact (KeepsClock.one (clock_push room)).trans ih
  | native ran => exact .one (Program.clock_nativeCall ran)
  | null m => exact .one (clock_raise m _)
  | fallOff a m => exact .one (clock_pop m)
  | quiet step next ih => exact (KeepsClock.one (Activation.clock_quiet step)).trans ih
  | @returned site rest a m final =>
      have given : KeepsClock m [a.giveBack m site] (a.giveBack m site) :=
        .one (a.sameContext_giveBack m site).clock
      exact given.trans (.one (clock_pop _))
  | unwound callee call negative ih =>
      exact (keepsClockCall callee ih).trans (.one (clock_unwind _ _))
  | tailed callee call resumes kind ih =>
      exact (keepsClockCall callee ih).trans (.one (clock_pop _))
  | resumed callee call resumes kind next ihcall ihnext =>
      exact (keepsClockCall callee ihcall).trans ihnext

end Execution

theorem Advances.clock {p : Program} {τ τ' : Task} {m m' : Machine} (step : Advances p τ m τ' m') :
    m'.clock = m.clock := by
  cases step with
  | begun room => exact clock_push room
  | quiet step => exact Activation.clock_quiet step
  | resumed callee call resumes kind =>
      exact (Execution.keepsClockCall callee call.keepsClock).ended

/-- Whatever a run comes to perform, be it that the run ends or not, it performs it with the
clock that it has begun with. -/
theorem Nested.clock {p : Program} {τ τ₀ : Task} {m m₀ : Machine} {chain : List Activation}
    (h : Nested p τ₀ m₀ chain τ m) : m.clock = m₀.clock := by
  induction h with
  | start => rfl
  | advanced prior step ih => exact step.clock.trans ih
  | @called chain c rest a m m₁ τ prior callee ih =>
      exact ((Program.clock_callee? callee).trans (a.clock_beforeCall m c)).trans ih

namespace Calling

variable {p : Program} {f : FuncRef} {params : List Value} {returns : List Descriptor}
  {m m' : Machine} {o : Except Abort Int32}

theorem clock (c : Calling p f params returns m o m') :
    m'.clock = m.clock ∧ ∀ s ∈ c.visited.dropLast, s.clock.running = true := by
  cases c with
  | native isNative ran =>
      refine ⟨clock_endCall (Program.clock_callNative ran), ?_⟩
      intro s hs
      rw [List.mem_singleton.1 hs]
      rfl
  | missing isScript none =>
      refine ⟨clock_endCall rfl, ?_⟩
      intro s hs
      rw [List.mem_singleton.1 hs]
      rfl
  | @script e r ended o settled isScript entry run answer =>
      have settle : settled.clock = ended.clock := by
        rcases Program.settle_cases answer with ⟨-, rfl, -⟩ | ⟨-, rfl, -⟩
        · rfl
        · rfl
      have begun : KeepsClock m.beginCall [m.beginCall] m.beginCall := .one rfl
      have kept := begun.trans (run.keepsClock.trans (.one settle))
      refine ⟨clock_endCall kept.ended, ?_⟩
      intro s hs
      have hvisited : (script isScript entry run answer).visited =
          [m.beginCall] ++ (run.visited ++ [settled]) ++ [m.endCall settled] := by simp [visited]
      rw [hvisited, List.dropLast_concat] at hs
      exact congrArg Clock.running (kept.visited s hs)

end Calling

/-- A context is never left with a running clock between operations. -/
theorem History.clock {past : List Machine} {m : Machine} (h : History past m) :
    m.clock.running = false := by
  induction h with
  | created m => rfl
  | pushed before room ih => rwa [clock_push room]
  | popped before ih => rwa [clock_pop]
  | raised a before ih => rwa [clock_raise]
  | taken before ih => exact ih
  | calledNative before ran ih => rwa [Program.clock_callNative ran]
  | called before c ih => rwa [c.clock.1]
  | entered before x ih => rwa [x.keepsClock.ended]
  | provided outputs log events before ih => exact ih

/-- Each way to call a function leaves the clock as it was, whatever comes of the call, so a
context is never left with a running clock. A native runs with the clock stopped from its
first moment to its last.

In a call from outside of compiled code the clock runs whenever a task is performed and on
every machine that the call goes through before its end. It runs when a script calls a
native, and it does again when the native gives control back. -/
theorem clock_discipline (p : Program) :
    (∀ (limit : Nat) (f : FuncRef) (params : List Value) (returns : List Descriptor)
      (m m' : Machine) (o : Except Abort Int32), p.call limit f params returns m = some (o, m') →
        m'.clock = m.clock) ∧
    (∀ (f : FuncRef) (params : List Value) (returns : List Descriptor) (m m' : Machine)
      (o : Except Abort Int32), p.callNative f params returns m = (o, m') → m'.clock = m.clock) ∧
    (∀ (limit : Nat) (e : Entry) (f : FuncRef) (name : String) (h : Handover) (m m' : Machine)
      (r : Int32), p.runEntry (p.enter limit) e f name h m = some (r, m') → m'.clock = m.clock) ∧
    (∀ (past : List Machine) (m : Machine), History past m → m.clock.running = false) ∧
    (∀ (i : Nat) (params : List Value) (returns : List Descriptor) (m : Machine),
      Program.beforeNative i m ∈ p.nativeVisited (.native i) params returns m ∧
        (p.runNative i params returns m).2 ∈ p.nativeVisited (.native i) params returns m ∧
        ∀ s ∈ p.nativeVisited (.native i) params returns m, s.clock.running = false) ∧
    (∀ (f : FuncRef) (params : List Value) (returns : List Descriptor) (m : Machine) (e : Entry),
      f.isNative = false → (p.head f).entry = some e →
        ∀ (chain : List Activation) (τ : Task) (m₁ : Machine),
          Nested p (.entry e f (p.name f) ⟨params, returns, Int32.ofNat returns.length⟩)
            m.beginCall chain τ m₁ →
              m₁.clock.running = true ∧
                ∀ g h, τ = .native g h → (p.nativeCall g h m₁).2.clock.running = true) ∧
    ∀ (f : FuncRef) (params : List Value) (returns : List Descriptor) (m m' : Machine)
      (o : Except Abort Int32) (c : Calling p f params returns m o m'),
      ∀ s ∈ c.visited.dropLast, s.clock.running = true := by
  refine ⟨?_, ?_, ?_, ?_, ?_, ?_, ?_⟩
  · intro limit f params returns m m' o ran
    obtain ⟨c⟩ := Calling.ofCall ran
    exact c.clock.1
  · intro f params returns m m' o ran
    exact Program.clock_callNative ran
  · intro limit e f name h m m' r ran
    have performed : p.perform (limit + 1) (.entry e f name h) m = some (r, m') := ran
    obtain ⟨x⟩ := Execution.ofPerform performed
    exact x.keepsClock.ended
  · intro past m h
    exact h.clock
  · intro i params returns m
    exact ⟨mem_hostVisited_start _ _, runHost_mem_hostVisited _ _,
      fun s hs => Program.clock_of_mem_nativeVisited hs⟩
  · intro f params returns m e _ _ chain τ m₁ nested
    have running : m₁.clock.running = true := congrArg Clock.running nested.clock
    refine ⟨running, ?_⟩
    intro g h _
    exact (congrArg Clock.running (Program.clock_nativeCall rfl)).trans running
  · intro f params returns m m' o c
    exact c.clock.2

/-! ## A native that panics in its second call -/

def callTwice : Prototype where
  code := [.callConst 0 0 0, .callConst 0 0 0, .retImm 0 true 7]
  constants := { pointers := [.function (.native 0)] }

def callTwicePlan : Plan where
  steps := [.call ⟨0, .call, .static 0 true, ⟨0, []⟩, []⟩,
    .call ⟨1, .call, .static 0 true, ⟨0, []⟩, []⟩, .ret ⟨0, true, .imm 7, 1, .int, .of .int⟩]
  layout := {}
  states := [⟨[], []⟩, ⟨[], []⟩, ⟨[], []⟩]

theorem callTwice_plan : callTwice.plan = .ok callTwicePlan := rfl

def callTwiceEntry : Entry := .compiled ⟨callTwice, callTwicePlan, callTwice_plan⟩

def panickingProgram : Program where
  scripts := [{ name := "caller", entry := some callTwiceEntry }]
  natives := [{
    name := "once"
    behaviour := fun call => if call.earlier = 0 then .finish 1 else .panic .silent }]

/-- The script goes on with a running clock after the native has returned, and the panic of
the second call leaves the clock as it was, be it stopped or not. -/
theorem clock_discipline_panicking :
    (∃ a m', panickingProgram.call 1 (.script 0) [] [] {} = some (.error a, m') ∧
      m'.clock = ({} : Machine).clock ∧ (∃ past, History past m' ∧ m'.clock.running = false) ∧
        ∃ c : Calling panickingProgram (.script 0) [] [] {} (.error a) m',
          c.visited.length = 11 ∧ ∀ s ∈ c.visited.dropLast, s.clock.running = true) ∧
      (∃ a m', panickingProgram.callNative (.native 0) [] [] { clock := ⟨true⟩, invoked := [0] } =
        (.error a, m') ∧ m'.clock.running = true) ∧
      (∃ m', panickingProgram.runEntry (panickingProgram.enter 0) callTwiceEntry (.script 0)
        "caller" ⟨[], [], 0⟩ {} = some (unwoundCode, m') ∧ m'.clock.running = false) ∧
      ∃ chain m₁, Nested panickingProgram (.entry callTwiceEntry (.script 0) "caller" ⟨[], [], 0⟩)
        ({} : Machine).beginCall chain (.native (.native 0) ⟨[], [], 0⟩) m₁ ∧ m₁.invoked = [0] ∧
          m₁.clock.running = true ∧
          (Program.beforeNative 0 m₁).clock.running = false ∧
          (panickingProgram.nativeCall (.native 0) ⟨[], [], 0⟩ m₁).1 = unwoundCode ∧
          (panickingProgram.nativeCall (.native 0) ⟨[], [], 0⟩ m₁).2.clock.running = true := by
  obtain ⟨calls, natives, entries, contexts, stopped, runs, within⟩ :=
    clock_discipline panickingProgram
  refine ⟨?_, ?_, ?_, ?_⟩
  · let c : Calling panickingProgram (.script 0) [] [] {} (.error _) _ :=
      .script rfl rfl (.begun rfl (.resumed rfl (.native rfl) (by decide) rfl
        (.unwound rfl (.native rfl) (by decide)))) rfl
    have h : History _ _ := .called (.created {}) c
    exact ⟨_, _, rfl, calls 1 (.script 0) [] [] {} _ _ rfl, ⟨_, h, contexts _ _ h⟩, c, rfl,
      within _ _ _ _ _ _ c⟩
  · obtain ⟨a, m', ran⟩ : ∃ a m', panickingProgram.callNative (.native 0) [] []
        { clock := ⟨true⟩, invoked := [0] } = (.error a, m') := ⟨_, _, rfl⟩
    exact ⟨a, m', ran, congrArg Clock.running (natives _ _ _ _ _ _ ran)⟩
  · obtain ⟨m', ran⟩ : ∃ m', panickingProgram.runEntry (panickingProgram.enter 0) callTwiceEntry
        (.script 0) "caller" ⟨[], [], 0⟩ {} = some (unwoundCode, m') := ⟨_, rfl⟩
    exact ⟨m', ran, congrArg Clock.running (entries _ _ _ _ _ _ _ _ ran)⟩
  · have begun : Nested panickingProgram (.entry callTwiceEntry (.script 0) "caller" ⟨[], [], 0⟩)
        ({} : Machine).beginCall [] (.body callTwicePlan.steps _) _ := .advanced .start (.begun rfl)
    have resumed := begun.advanced (.resumed rfl (.native rfl) (by decide) rfl)
    have second := resumed.called rfl
    obtain ⟨running, returned⟩ :=
      runs (.script 0) [] [] {} callTwiceEntry rfl rfl _ _ _ second
    obtain ⟨first, -, still⟩ := stopped 0 [] [] _
    exact ⟨_, _, second, rfl, running, still _ first, rfl, returned _ _ rfl⟩

end CallProtocol
