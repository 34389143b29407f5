import CallProtocol.Proofs.Execution.Outcome
import CallProtocol.Proofs.Execution.Stack

/-!
# Calls from outside of compiled code

`Calling p f params returns m o m'` is the type of the calls of a function with the
outcome `o`, as `Execution` is that of the runs of a task. A call of a script is a run
of its entry, after which the outcome is settled: the frames above those of the caller
are given up if the entry has unwound.
-/

namespace CallProtocol

namespace Machine

def beginCall (m : Machine) : Machine := { m with clock := m.clock.resume }

/-- The machine after a call that began on `m`: the clock stops if it was not running
before. -/
def endCall (m ended : Machine) : Machine :=
  if m.clock.running then ended else { ended with clock := ended.clock.pause }

@[simp] theorem frames_endCall (m ended : Machine) : (m.endCall ended).frames = ended.frames := by
  rw [endCall]
  split <;> rfl

@[simp] theorem stats_endCall (m ended : Machine) : (m.endCall ended).stats = ended.stats := by
  rw [endCall]
  split <;> rfl

@[simp] theorem pending_endCall (m ended : Machine) :
    (m.endCall ended).pending = ended.pending := by
  rw [endCall]
  split <;> rfl

@[simp] theorem events_endCall (m ended : Machine) : (m.endCall ended).events = ended.events := by
  rw [endCall]
  split <;> rfl

@[simp] theorem outputs_endCall (m ended : Machine) :
    (m.endCall ended).outputs = ended.outputs := by
  rw [endCall]
  split <;> rfl

@[simp] theorem depth_endCall (m ended : Machine) : (m.endCall ended).depth = ended.depth := by
  simp [depth]

end Machine

/-- A negative code is answered with the pending abort, which pends no longer. -/
theorem Program.settle_cases {depth : Nat} {r : Int32} {ended settled : Machine}
    {o : Except Abort Int32} (h : Program.settle depth r ended = (o, settled)) :
    (r < 0 ∧ settled = (ended.popTo depth).clearPending ∧
      o = .error (ended.pending.getD
        { kind := .other, message := "call unwound without a pending abort" })) ∨
      (0 ≤ r ∧ settled = ended ∧ o = .ok r) := by
  rw [settle] at h
  split at h
  · next negative =>
      cases h
      exact .inl ⟨negative, rfl, rfl⟩
  · next resumes =>
      cases h
      exact .inr ⟨Int32.not_lt.1 resumes, rfl, rfl⟩

/-- A call of a function from outside of compiled code, with its outcome. -/
inductive Calling (p : Program) (f : FuncRef) (params : List Value) (returns : List Descriptor)
    (m : Machine) : Except Abort Int32 → Machine → Type where
  | native {o : Except Abort Int32} {ended : Machine} (isNative : f.isNative = true)
    (ran : p.callNative f params returns m.beginCall = (o, ended)) :
    Calling p f params returns m o (m.endCall ended)
  | missing (isScript : f.isNative = false) (none : (p.head f).entry = none) :
    Calling p f params returns m (.error (Program.noEntryAbort (p.name f))) (m.endCall m.beginCall)
  | script {e : Entry} {r : Int32} {ended : Machine} {o : Except Abort Int32} {settled : Machine}
    (isScript : f.isNative = false) (entry : (p.head f).entry = some e)
    (run : Execution p (.entry e f (p.name f) ⟨params, returns, Int32.ofNat returns.length⟩)
      m.beginCall r ended)
    (answer : Program.settle m.depth r ended = (o, settled)) :
    Calling p f params returns m o (m.endCall settled)

theorem Calling.ofCall {p : Program} {limit : Nat} {f : FuncRef} {params : List Value}
    {returns : List Descriptor} {m : Machine} {o : Except Abort Int32} {m' : Machine}
    (ran : p.call limit f params returns m = some (o, m')) :
    Nonempty (Calling p f params returns m o m') := by
  rw [Program.call] at ran
  obtain ⟨⟨o₁, ended⟩, hended, heq⟩ := Option.map_eq_some_iff.1 ran
  obtain ⟨rfl, rfl⟩ := Prod.mk.inj heq
  cases hf : f.isNative with
  | true =>
      rw [hf, if_pos rfl] at hended
      exact ⟨.native hf (Option.some.inj hended)⟩
  | false =>
      rw [hf, if_neg Bool.false_ne_true, Program.callScript] at hended
      cases he : (p.head f).entry with
      | none =>
          rw [he] at hended
          cases hended
          exact ⟨.missing hf he⟩
      | some e =>
          rw [he] at hended
          obtain ⟨⟨r, m₂⟩, hrun, hsettle⟩ := Option.map_eq_some_iff.1 hended
          obtain ⟨e', he', ⟨x⟩⟩ := Program.enter_eq_some_iff.1 ⟨limit, hrun⟩
          exact ⟨.script hf he' x hsettle⟩

theorem Calling.call_eventually {p : Program} {f : FuncRef} {params : List Value}
    {returns : List Descriptor} {m : Machine} {o : Except Abort Int32} {m' : Machine}
    (c : Calling p f params returns m o m') :
    ∃ limit, ∀ l ≥ limit, p.call l f params returns m = some (o, m') := by
  cases c with
  | native isNative ran =>
      refine ⟨0, fun l _ => ?_⟩
      rw [Program.call, if_pos isNative, Option.map_some]
      exact congrArg (fun q => some (q.1, m.endCall q.2)) ran
  | missing isScript none =>
      refine ⟨0, fun l _ => ?_⟩
      rw [Program.call, isScript, if_neg Bool.false_ne_true, Program.callScript, none]
      rfl
  | @script e r ended o settled isScript entry run answer =>
      obtain ⟨limit, ran⟩ := run.perform_eventually
      refine ⟨limit, fun l hl => ?_⟩
      have entered := ran l hl
      rw [Program.call, isScript, if_neg Bool.false_ne_true, Program.callScript, entry]
      change p.perform l _ { m with clock := m.clock.resume } = _ at entered
      simp only [Program.enter_eq_perform, entry, Option.bind_some, entered, Option.map_some]
      exact congrArg (fun q => some (q.1, m.endCall q.2)) answer

theorem Calling.outcome_unique {p : Program} {f : FuncRef} {params : List Value}
    {returns : List Descriptor} {m m₁ m₂ : Machine} {o₁ o₂ : Except Abort Int32}
    (c : Calling p f params returns m o₁ m₁) (c' : Calling p f params returns m o₂ m₂) :
    o₁ = o₂ ∧ m₁ = m₂ := by
  obtain ⟨limit₁, h₁⟩ := c.call_eventually
  obtain ⟨limit₂, h₂⟩ := c'.call_eventually
  have heq := (h₁ _ (Nat.le_max_left limit₁ limit₂)).symm.trans
    (h₂ _ (Nat.le_max_right limit₁ limit₂))
  exact Prod.mk.inj (Option.some.inj heq)

namespace Calling

def hostFrames {p : Program} {f : FuncRef} {params : List Value} {returns : List Descriptor}
    {m : Machine} {o : Except Abort Int32} {m' : Machine} : Calling p f params returns m o m' → Nat
  | native _ _ => 0
  | missing _ _ => 0
  | script _ _ run _ => run.hostFrames

def visited {p : Program} {f : FuncRef} {params : List Value} {returns : List Descriptor}
    {m : Machine} {o : Except Abort Int32} {m' : Machine} :
    Calling p f params returns m o m' → List Machine
  | @native _ _ _ _ m _ ended _ _ => [m.beginCall, m.endCall ended]
  | missing _ _ => [m.beginCall, m.endCall m.beginCall]
  | @script _ _ _ _ m _ _ _ _ settled _ _ run _ =>
    m.beginCall :: run.visited ++ [settled, m.endCall settled]

end Calling

end CallProtocol
