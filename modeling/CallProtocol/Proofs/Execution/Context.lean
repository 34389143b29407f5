import CallProtocol.Proofs.Execution.Basic
import CallProtocol.Proofs.Machine.Context

/-!
# What a step of a run leaves of the context

The steps of a body that neither call nor leave it change the contents of slots only,
and so does the preparation of a call. A native adds at most a report of its abort,
and pends that abort if compiled code has called it.
-/

namespace CallProtocol

namespace Activation

open Machine

theorem sameContext_assign (a : Activation) (m : Machine) (b : Bank) (r : Nat) (x : b.Content) :
    SameContext m (a.assign m b r x).2 := by
  rcases a.assign_cases m b r x with ⟨-, h⟩ | ⟨-, h⟩
  · rw [h]
    exact .refl m
  · rw [h]
    exact m.sameContext_store (a.slot b r) ⟨b, x⟩

theorem sameContext_plain (a : Activation) (m : Machine) (op : PlainOp) :
    SameContext m (a.plain m op).2 := by
  rcases a.plain_cases m op with h | ⟨b, r, x, h⟩
  · rw [h]
    exact .refl m
  · rw [h]
    exact a.sameContext_assign m b r x

theorem sameContext_giveBack (a : Activation) (m : Machine) (site : ReturnSite) :
    SameContext m (a.giveBack m site) := by
  rw [giveBack]
  split
  · split
    · exact m.sameContext_write _
    · exact .refl m
  · exact .refl m

theorem sameContext_flush (a : Activation) (m : Machine) (regs : List (Bank × Nat)) :
    SameContext m (a.flush m regs) := by
  induction regs generalizing m with
  | nil => exact .refl m
  | cons p regs ih => exact (m.sameContext_store _ _).trans (ih _)

theorem sameContext_quiet {a a' : Activation} {m m' : Machine} {s : Step}
    (h : a.quiet m s = some (a', m')) : SameContext m m' := by
  rcases quiet_cases h with ⟨op, -, hop⟩ | ⟨-, -, -, -, -, rfl⟩ | ⟨-, -, -, rfl⟩ |
    ⟨site, -, -, -, rfl⟩
  · have same := a.sameContext_plain m op
    rwa [hop] at same
  · exact .refl _
  · exact .refl _
  · exact a.sameContext_giveBack m site

end Activation

namespace Machine

/-- The machines differ only in what a native changes when it is called: in the
contents of slots and what belongs to the host, and in a report of an abort. -/
structure AfterNative (m m' : Machine) : Prop where
  serials : m'.serials = m.serials
  stats : m'.stats = m.stats
  pending : m'.pending = m.pending
  callCount : m'.callCount = m.callCount
  clock : m'.clock = m.clock
  reports : Reports (fun e => ∃ kind message, e = .hostAbort kind message) m m'

namespace AfterNative

theorem depth {m m' : Machine} (h : AfterNative m m') : m'.depth = m.depth :=
  depth_of_serials h.serials

end AfterNative

end Machine

theorem zero_le_max_zero (n : Int32) : 0 ≤ max n 0 := by
  simp only [max]
  split
  · exact Int32.le_refl _
  · next h => exact Int32.le_of_lt (Int32.not_le.1 h)

theorem zero_le_ofNat {n : Nat} (h : n < Nat.pow 2 31) : 0 ≤ Int32.ofNat n := by
  rw [Int32.le_iff_toInt_le, Int32.toInt_ofNat_of_lt h]
  exact Int.natCast_nonneg n

namespace Program

open Machine

theorem runNative_context (p : Program) (i : Nat) (params : List Value)
    (returns : List Descriptor) (m : Machine) :
    SameContext (beforeNative i m) (p.runNative i params returns m).2 :=
  sameContext_runHost _ _ _ _

/-- A native that returns has only slots, storage and log to its effect. Its answer is
its count, or zero for a count below zero. -/
theorem callNative_ok {p : Program} {f : FuncRef} {params : List Value}
    {returns : List Descriptor} {m m' : Machine} {n : Int32}
    (ran : p.callNative f params returns m = (.ok n, m')) :
    AfterNative m m' ∧ m'.events = m.events ∧
      ∃ i count, f = .native i ∧ (p.runNative i params returns m).1 = .ok count ∧
        n = max count 0 := by
  cases f with
  | script i => cases ran
  | native i =>
      have same := p.runNative_context i params returns m
      rw [callNative] at ran
      cases hrun : p.runNative i params returns m with
      | mk outcome ended =>
          rw [hrun] at ran same
          cases outcome with
          | error a => cases ran
          | ok count =>
              cases ran
              have clock : m.clock.restore ended.clock = m.clock := by
                rw [same.clock]
                exact Clock.restore_pause m.clock
              exact ⟨⟨same.serials, same.stats, same.pending, same.callCount, clock,
                .of_eq same.events⟩, same.events, i, count, rfl, congrArg Prod.fst hrun, rfl⟩

/-- A native that aborts leaves its abort to the caller: nothing new is pending. The abort
is reported then, and gets the name of the native. -/
theorem callNative_abort {p : Program} {i : Nat} {params : List Value}
    {returns : List Descriptor} {m m' : Machine} {b : Abort}
    (ran : p.callNative (.native i) params returns m = (.error b, m')) :
    AfterNative m m' ∧ ∃ a, (p.runNative i params returns m).1 = .error a ∧
      b = a.report.through (p.name (.native i)) ∧ m'.events = m.events ++ notice a := by
  have same := p.runNative_context i params returns m
  rw [callNative] at ran
  cases hrun : p.runNative i params returns m with
  | mk outcome ended =>
      rw [hrun] at ran same
      cases outcome with
      | ok count => cases ran
      | error a =>
          simp only [reportAbort_eq] at ran
          cases ran
          have clock : m.clock.restore ended.clock = m.clock := by
            rw [same.clock]
            exact Clock.restore_pause m.clock
          have hevents : ended.events ++ notice a = m.events ++ notice a := by
            rw [same.events]
            rfl
          refine ⟨⟨same.serials, same.stats, same.pending, same.callCount, clock, ?_⟩,
            a, rfl, rfl, hevents⟩
          refine ⟨notice a, hevents, ?_⟩
          intro e he
          rw [notice] at he
          split at he
          · cases he
          · exact ⟨_, _, List.mem_singleton.1 he⟩

theorem callNative_context {p : Program} {f : FuncRef} {params : List Value}
    {returns : List Descriptor} {m m' : Machine} {o : Except Abort Int32}
    (ran : p.callNative f params returns m = (o, m')) : AfterNative m m' := by
  cases o with
  | ok n => exact (callNative_ok ran).1
  | error a =>
      cases f with
      | script i =>
          cases ran
          exact ⟨rfl, rfl, rfl, rfl, rfl, .of_eq rfl⟩
      | native i => exact (callNative_abort ran).1

/-- Compiled code sees a count of at least zero, or the code of an unwinding callee with
the abort of the native pending. -/
theorem nativeCall_cases {p : Program} {f : FuncRef} {h : Handover} {m m' : Machine} {r : Int32}
    (ran : p.nativeCall f h m = (r, m')) :
    (p.callNative f h.params h.visibleReturns m = (.ok r, m') ∧ 0 ≤ r) ∨
      ∃ a m₁, p.callNative f h.params h.visibleReturns m = (.error a, m₁) ∧
        r = unwoundCode ∧ m' = m₁.raise a := by
  rw [nativeCall] at ran
  cases hcall : p.callNative f h.params h.visibleReturns m with
  | mk o m₁ =>
      rw [hcall] at ran
      cases o with
      | ok n =>
          cases ran
          obtain ⟨-, -, i, count, -, -, rfl⟩ := callNative_ok hcall
          exact .inl ⟨rfl, zero_le_max_zero count⟩
      | error a =>
          cases ran
          exact .inr ⟨a, m₁, rfl, rfl, rfl⟩

/-- The stack and its statistics are the same after a call of a native, whatever comes of
it. -/
theorem nativeCall_context {p : Program} {f : FuncRef} {h : Handover} {m m' : Machine} {r : Int32}
    (ran : p.nativeCall f h m = (r, m')) : m'.serials = m.serials ∧ m'.stats = m.stats := by
  rcases nativeCall_cases ran with ⟨hcall, -⟩ | ⟨a, m₁, hcall, -, rfl⟩
  · have after := callNative_context hcall
    exact ⟨after.serials, after.stats⟩
  · have after := callNative_context hcall
    exact ⟨by rw [serials_raise, after.serials], by rw [stats_raise, after.stats]⟩

/-- Up to the moment when the callee begins, a call has counted itself at most. -/
theorem callee?_context {p : Program} {a : Activation} {c : CallSite} {m m₁ : Machine} {τ : Task}
    (hτ : p.callee? a c (a.beforeCall m c) = some (τ, m₁)) :
    m₁.serials = m.serials ∧ m₁.stats = m.stats ∧ m₁.pending = m.pending ∧
      m₁.events = m.events := by
  have same : SameContext m (a.beforeCall m c) := a.sameContext_flush m _
  rcases callee?_cases hτ with ⟨-, rfl⟩ | ⟨f, -, rfl⟩ | ⟨f, e, -, -, rfl⟩
  · exact ⟨same.serials, same.stats, same.pending, same.events⟩
  · exact ⟨same.serials, same.stats, same.pending, same.events⟩
  · exact ⟨same.serials, same.stats, same.pending, same.events⟩

theorem runHostEntry_context (e : HostEntry) (f : FuncRef) (h : Handover) (m : Machine) :
    (runHostEntry e f h m).2.frames = ((noteEntry f h m).pushEmpties e.pushes).frames ∧
      (runHostEntry e f h m).2.stats = ((noteEntry f h m).pushEmpties e.pushes).stats ∧
      Reports (fun e => ∃ previous, e = .replacingPending previous)
        ((noteEntry f h m).pushEmpties e.pushes) (runHostEntry e f h m).2 := by
  simp only [runHostEntry]
  cases e.raises with
  | none => exact ⟨rfl, rfl, .of_eq rfl⟩
  | some a =>
      refine ⟨frames_raise _ a, stats_raise _ a, (reports_raise _ a).mono ?_⟩
      rintro e ⟨previous, -, rfl⟩
      exact ⟨previous, rfl⟩

end Program

end CallProtocol
