import CallProtocol.Proofs.Execution.Calling
import CallProtocol.Proofs.Execution.Nested
import CallProtocol.Proofs.Plan.Calls

/-!
# The balance of the frame stack

A context is used through a sequence of operations: frames are pushed and popped,
aborts raised and taken, functions called as a native, from outside or through their
entry. `History past m` says that such a sequence leads to `m`, and that `past` are the
machines on the way, those within a call included. The program may be another one for
each operation, so entries can come and go in between.

The frames that a call leaves behind are those that entries of the host have pushed
during the call, if it returns, and none at all if it is aborted. No run pops more
frames than there are.
-/

namespace CallProtocol

open Machine

/-- A context from its creation on, with all machines it went through. -/
inductive History : List Machine → Machine → Prop where
  | created (m : Machine) : History [m.withNewContext] m.withNewContext
  | pushed {past : List Machine} {m m' : Machine} {layout : FrameLayout} {params : List Value}
    {fr : Frame} (before : History past m) (room : m.push layout params = .ok (fr, m')) :
    History (past ++ [m']) m'
  | popped {past : List Machine} {m : Machine} (before : History past m) :
    History (past ++ [m.pop]) m.pop
  | raised {past : List Machine} {m : Machine} (a : Abort) (before : History past m) :
    History (past ++ [m.raise a]) (m.raise a)
  | taken {past : List Machine} {m : Machine} (before : History past m) :
    History (past ++ [m.clearPending]) m.clearPending
  | calledNative {past : List Machine} {m m' : Machine} {p : Program} {f : FuncRef}
    {params : List Value} {returns : List Descriptor} {o : Except Abort Int32}
    (before : History past m) (ran : p.callNative f params returns m = (o, m')) :
    History (past ++ [m']) m'
  | called {past : List Machine} {m m' : Machine} {p : Program} {f : FuncRef}
    {params : List Value} {returns : List Descriptor} {o : Except Abort Int32}
    (before : History past m) (c : Calling p f params returns m o m') :
    History (past ++ (c.visited ++ [m'])) m'
  | entered {past : List Machine} {m m' : Machine} {p : Program} {e : Entry} {f : FuncRef}
    {name : String} {h : Handover} {r : Int32} (before : History past m)
    (x : Execution p (.entry e f name h) m r m') :
    History (past ++ (x.visited ++ [m'])) m'
  /-- The host provides return storage, and it may clear its log and the events. -/
  | provided {past : List Machine} {m : Machine} (outputs : List Banks) (log : List LogEntry)
    (events : List Event) (before : History past m) :
    History (past ++ [{ m with outputs, log, events }]) { m with outputs, log, events }

namespace Calling

variable {p : Program} {f : FuncRef} {params : List Value} {returns : List Descriptor}
  {m m' : Machine} {o : Except Abort Int32}

theorem tracks (c : Calling p f params returns m o m') : Tracks m c.visited m' := by
  have begun : Tracks m [m.beginCall] m.beginCall := .same rfl rfl
  cases c with
  | native isNative ran =>
      have after := Program.callNative_context ran
      exact begun.trans (.same (by rw [depth_endCall, after.depth]) (by rw [stats_endCall, after.stats]))
  | missing isScript none =>
      exact begun.trans (.same (depth_endCall m _) (stats_endCall m _))
  | @script e r ended o settled isScript entry run answer =>
      have settle : Tracks ended [settled] settled := by
        rcases Program.settle_cases answer with ⟨-, rfl, -⟩ | ⟨-, rfl, -⟩
        · exact .poppedTo rfl rfl
        · exact .same rfl rfl
      have stopped : Tracks settled [m.endCall settled] (m.endCall settled) :=
        .same (depth_endCall m settled) (stats_endCall m settled)
      exact begun.trans (run.tracks.trans (settle.trans stopped))

theorem depth_eq_of_error {a : Abort} (c : Calling p f params returns m (.error a) m') :
    m'.depth = m.depth := by
  cases c with
  | native isNative ran =>
      rw [depth_endCall, (Program.callNative_context ran).depth]
      rfl
  | missing isScript none => exact depth_endCall m _
  | @script e r ended _ settled isScript entry run answer =>
      rcases Program.settle_cases answer with ⟨-, rfl, -⟩ | ⟨-, -, ho⟩
      · -- The entry has left the stack as it was below the frames of the host.
        have hdepth : ended.frames.length = run.hostFrames + m.frames.length - 0 :=
          run.restacked.depth_eq
        rw [depth_endCall]
        change (ended.frames.drop (ended.frames.length - m.frames.length)).length = m.frames.length
        rw [List.length_drop]
        omega
      · cases ho

theorem depth_eq_of_ok {n : Int32} (c : Calling p f params returns m (.ok n) m') :
    m'.depth = m.depth + c.hostFrames := by
  cases c with
  | native isNative ran =>
      rw [depth_endCall, (Program.callNative_context ran).depth]
      rfl
  | @script e r ended _ settled isScript entry run answer =>
      rcases Program.settle_cases answer with ⟨-, -, ho⟩ | ⟨-, rfl, -⟩
      · cases ho
      · rw [depth_endCall, run.restacked.depth_eq]
        exact Nat.add_comm _ _

theorem hostFrames_eq_zero (noHost : ∀ g e, (p.head g).entry ≠ some (.host e))
    (c : Calling p f params returns m o m') : c.hostFrames = 0 := by
  cases c with
  | native isNative ran => rfl
  | missing isScript none => rfl
  | @script e r ended o settled isScript entry run answer =>
      refine run.hostFrames_eq_zero noHost ?_
      cases e with
      | stub => exact id
      | compiled code => exact id
      | host e => exact absurd entry (noHost f e)

theorem no_underflow (c : Calling p f params returns m o m') :
    Reports (· ≠ .frameUnderflow) m m' := by
  cases c with
  | native isNative ran =>
      have ended := (Program.callNative_context ran).reports
      refine Reports.trans (ended.mono ?_) (.of_eq (events_endCall m _))
      rintro e ⟨kind, message, rfl⟩
      simp
  | missing isScript none => exact .of_eq (events_endCall m _)
  | @script e r ended o settled isScript entry run answer =>
      have ran := run.no_underflow (Nat.zero_le _)
      have settle : settled.events = ended.events := by
        rcases Program.settle_cases answer with ⟨-, rfl, -⟩ | ⟨-, rfl, -⟩
        · rfl
        · rfl
      exact Reports.trans ran (.of_eq ((events_endCall m settled).trans settle))

end Calling

namespace History

theorem mem {past : List Machine} {m : Machine} (h : History past m) : m ∈ past := by
  cases h <;> simp

theorem extend {past past' : List Machine} {m m' : Machine}
    (before : m.Balanced ∧ (∀ s ∈ past, s.Balanced) ∧ m.stats.maxDepth = deepest 0 past)
    (h : Tracks m past' m') :
    m'.Balanced ∧ (∀ s ∈ past ++ past', s.Balanced) ∧
      m'.stats.maxDepth = deepest 0 (past ++ past') := by
  obtain ⟨hm, hpast, hdepth⟩ := before
  obtain ⟨hm', hpast', hdepth'⟩ := h hm
  refine ⟨hm', ?_, by rw [hdepth', hdepth, deepest_append]⟩
  intro s hs
  rcases List.mem_append.1 hs with hs | hs
  · exact hpast s hs
  · exact hpast' s hs

theorem balanced {past : List Machine} {m : Machine} (h : History past m) :
    m.Balanced ∧ (∀ s ∈ past, s.Balanced) ∧ m.stats.maxDepth = deepest 0 past := by
  induction h with
  | created m =>
      have fresh : m.withNewContext.Balanced := ⟨rfl, Nat.le_refl _⟩
      exact ⟨fresh, by simpa using fresh, rfl⟩
  | pushed before room ih => exact extend ih (.push room)
  | popped before ih => exact extend ih (.pop _)
  | raised a before ih => exact extend ih (.same (depth_raise _ a) (stats_raise _ a))
  | taken before ih => exact extend ih (.same rfl rfl)
  | calledNative before ran ih =>
      have after := Program.callNative_context ran
      exact extend ih (.same after.depth after.stats)
  | called before c ih => exact extend ih (c.tracks.trans (.same rfl rfl))
  | entered before x ih => exact extend ih (x.tracks.trans (.same rfl rfl))
  | provided outputs log events before ih => exact extend ih (.same rfl rfl)

end History

/-- The frames of a context balance. A call that is aborted leaves the stack as deep as
it was, and one that returns leaves the frames that entries of the host have pushed. No
call pops a frame of an empty stack. Throughout the history of a context the frames
pushed are those popped and those on the stack, and the recorded depth is the greatest
there has been. -/
theorem frames_balance :
    (∀ (p : Program) (limit : Nat) (f : FuncRef) (params : List Value)
      (returns : List Descriptor) (m m' : Machine) (o : Except Abort Int32),
      p.call limit f params returns m = some (o, m') →
        Nonempty (Calling p f params returns m o m') ∧
          ∀ c : Calling p f params returns m o m',
            (∀ a, o = .error a → m'.depth = m.depth) ∧
              (∀ n, o = .ok n → m'.depth = m.depth + c.hostFrames) ∧
              ((∀ g e, (p.head g).entry ≠ some (.host e)) → c.hostFrames = 0) ∧
              Reports (· ≠ .frameUnderflow) m m') ∧
      ∀ (past : List Machine) (m : Machine), History past m →
        m ∈ past ∧ (∀ s ∈ past, s.stats.pushed = s.stats.popped + s.depth) ∧
          (∀ s ∈ past, s.depth ≤ m.stats.maxDepth) ∧ ∃ s ∈ past, s.depth = m.stats.maxDepth := by
  constructor
  · intro p limit f params returns m m' o ran
    refine ⟨Calling.ofCall ran, fun c => ⟨?_, ?_, ?_, c.no_underflow⟩⟩
    · rintro a rfl
      exact c.depth_eq_of_error
    · rintro n rfl
      exact c.depth_eq_of_ok
    · intro noHost
      exact c.hostFrames_eq_zero noHost
  · intro past m h
    obtain ⟨hm, hpast, hdepth⟩ := h.balanced
    refine ⟨h.mem, fun s hs => (hpast s hs).pushed, ?_, ?_⟩
    · intro s hs
      rw [hdepth]
      exact depth_le_deepest 0 hs
    · rcases deepest_attained 0 past with hzero | ⟨s, hs, hattained⟩
      · -- The recorded depth is zero, and so is the depth of the machine itself.
        refine ⟨m, h.mem, ?_⟩
        have hle := hm.deepest
        omega
      · exact ⟨s, hs, by rw [hattained, hdepth]⟩

/-! ## A call with an entry that leaves frames behind -/

def leakyProgram : Program where
  scripts := [{ name := "leaky", entry := some (.host { pushes := 2, result := 0 }) },
    { name := "caller", entry := some (.compiled ⟨callFirst, callFirstPlan, callFirst_plan⟩) }]

def stubProgram : Program where
  scripts := [{ name := "stub", entry := some .stub }]

theorem stubProgram_noHost (g : FuncRef) (e : HostEntry) :
    (stubProgram.head g).entry ≠ some (.host e) := by
  rcases g with (_ | i) | i
  · intro h
    cases h
  · intro h
    cases h
  · intro h
    cases h

/-- The frames of `leakyProgram` are left behind by a call that returns, and a call of
`stubProgram`, which is aborted, leaves none. -/
theorem frames_balance_leaky :
    (∃ n m', leakyProgram.call 2 (.script 1) [] [] {} = some (.ok n, m') ∧
      ∃ c : Calling leakyProgram (.script 1) [] [] {} (.ok n) m',
        m'.depth = ({} : Machine).depth + c.hostFrames) ∧
      ∃ a m', stubProgram.call 1 (.script 0) [] [] {} = some (.error a, m') ∧
        m'.depth = ({} : Machine).depth ∧
        ∃ c : Calling stubProgram (.script 0) [] [] {} (.error a) m', c.hostFrames = 0 ∧
          ∃ past, History past m' ∧ ∃ s ∈ past, s.depth = m'.stats.maxDepth := by
  constructor
  · obtain ⟨n, m', ran⟩ : ∃ n m', leakyProgram.call 2 (.script 1) [] [] {} = some (.ok n, m') :=
      ⟨_, _, rfl⟩
    obtain ⟨⟨c⟩, balance⟩ := frames_balance.1 _ _ _ _ _ _ _ _ ran
    exact ⟨n, m', ran, c, (balance c).2.1 n rfl⟩
  · obtain ⟨a, m', ran⟩ : ∃ a m', stubProgram.call 1 (.script 0) [] [] {} = some (.error a, m') :=
      ⟨_, _, rfl⟩
    obtain ⟨⟨c⟩, balance⟩ := frames_balance.1 _ _ _ _ _ _ _ _ ran
    have h : History _ m' := .called (.created {}) c
    exact ⟨a, m', ran, (balance c).1 a rfl, c, (balance c).2.2.1 stubProgram_noHost, _, h,
      (frames_balance.2 _ _ h).2.2.2⟩

end CallProtocol
