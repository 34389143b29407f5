import CallProtocol.Proofs.CallAccounting
import CallProtocol.Proofs.Renaming.Histories

/-!
# A call does not depend on what was done before

A context carries a lot from one call to the next: its counters, the frames that have been left
on its stack, an abort that nobody has taken, the natives that have been invoked. None of it
makes a difference to a call. Two contexts that were used in whatever way give the same answer
to a call of the same function with the same arguments.

There are two sides to it. The residue of a machine is not looked at by a run, and so a call
can be moved to the machine that has none, and from there to one with another residue. The
stack and the counters are what two machines without a residue may still differ in, and these
are compared under a renaming of frames.
-/

namespace CallProtocol

open Machine Renaming

theorem ReturnBuffer.sameBanks_outputs (σ : Renaming) (types : List RegType) :
    List.Forall₂ σ.SameBanks (ofTypes types).outputs (ofTypes types).outputs := by
  rw [List.forall₂_same]
  intro r hr
  obtain ⟨t, -, rfl⟩ := List.mem_map.1 hr
  exact .blank _

theorem ReturnBuffer.sameDescriptor (σ : Renaming) (types : List RegType) :
    List.Forall₂ σ.SameDescriptor (ofTypes types).descriptors (ofTypes types).descriptors := by
  rw [List.forall₂_same]
  intro d hd
  exact .of_known (n := 0) (fun s hs => absurd hs (Nat.not_lt_zero s)) (known 0 d hd)

/-- What the calls of `f` have in common that begin in the contexts `m` and `m'`, have the
outcome `o` and leave the contexts as `e` and `e'`. -/
structure CallsAlike (p : Program) (f : FuncRef) (o : Except Abort Int32) (ρ : Renaming)
    (m m' e e' : Machine) (invocations invocations' : List LogEntry) : Prop where
  /-- The same natives are called with the same arguments. -/
  invocations : List.Forall₂ ρ.SameLogEntry invocations invocations'
  log : ∃ new new', e.log = m.log ++ new ∧ e'.log = m'.log ++ new' ∧
    List.Forall₂ ρ.SameLogEntry new new'
  /-- The return storage is the same, and so are the frames that arguments can lead to. -/
  registers : ∀ {σ σ' : Owner}, ρ.SameOwner σ σ' →
    Option.Rel ρ.SameBanks (e.registers? σ) (e'.registers? σ')
  stack : e.serials = m.serials ∧ e'.serials = m'.serials
  callCount : ∃ n, e.callCount = m.callCount + n ∧ e'.callCount = m'.callCount + n
  pushed : ∃ n, e.stats.pushed = m.stats.pushed + n ∧ e'.stats.pushed = m'.stats.pushed + n
  popped : ∃ n, e.stats.popped = m.stats.popped + n ∧ e'.stats.popped = m'.stats.popped + n
  /-- The same is added to what has been invoked and reported. What was pending is still pending,
  unless a script has aborted: then nothing is, and its replacement has been reported. -/
  residue : ∃ is es, e.residue = m.residue.called is es (p.scriptAborts f o) ∧
    e'.residue = m'.residue.called is es (p.scriptAborts f o)

def Machine.withReturns (types : List RegType) (m : Machine) : Machine :=
  { m with outputs := (ReturnBuffer.ofTypes types).outputs }

variable {p : Program} {ρ : Renaming} {m m' e : Machine} {f : FuncRef}
  {params params' : List Value} {types : List RegType} {o : Except Abort Int32}

def Comparison.cleared (ρ : Renaming) (m m' : Machine) (room : Nat) : Comparison :=
  .since ρ (m.withResidue {}).beginCall (m'.withResidue {}).beginCall room

theorem Comparison.SameMachine.callsAlike {s s' e' : Machine} {room : Nat} {is : List Nat}
    {es : List Event} {L L' : List LogEntry} (h : (Comparison.cleared ρ m m' room).SameMachine s s')
    (stack : s.serials = m.serials ∧ s'.serials = m'.serials)
    (invocations : List.Forall₂ (ρ.since m.stats.pushed m'.stats.pushed).SameLogEntry L L')
    (ended : e = ((m.withResidue {}).endCall s).withResidue
      (m.residue.called is es (p.scriptAborts f o)))
    (ended' : e' = ((m'.withResidue {}).endCall s').withResidue
      (m'.residue.called is es (p.scriptAborts f o))) :
    CallsAlike p f o (ρ.since m.stats.pushed m'.stats.pushed) m m' e e' L L' := by
  subst ended ended'
  rw [endCall_eq, endCall_eq]
  exact {
    invocations
    log := h.log
    registers := h.registers
    stack
    callCount := h.callCount
    pushed := h.pushed
    popped := h.popped
    residue := ⟨is, es, rfl, rfl⟩ }

/-- A call is moved to the machine without a residue, where it is compared with the call in the
other context, and that one is moved back. -/
theorem Renaming.Identifies.exists_callsAlike (identifies : ρ.Identifies m m')
    (noHost : ∀ f e, (p.head f).entry ≠ some (.host e)) (portable : p.Portable)
    (stateless : p.Stateless) (ordered : m.Ordered) (ordered' : m'.Ordered)
    (same : List.Forall₂ ρ.SameParam params params') (few : types.length < Nat.pow 2 31)
    (x : Calling p f params (ReturnBuffer.ofTypes types).descriptors (m.withReturns types) o e) :
    ∃ e', ∃ y : Calling p f params' (ReturnBuffer.ofTypes types).descriptors
        (m'.withReturns types) o e',
      CallsAlike p f o (ρ.since m.stats.pushed m'.stats.pushed) (m.withReturns types)
        (m'.withReturns types) e e' x.invocations y.invocations := by
  have hostFree := Program.hostFree_of_noHost noHost
  have few' : (ReturnBuffer.ofTypes types).descriptors.length < Nat.pow 2 31 := by
    rwa [ReturnBuffer.ofTypes, List.length_mapIdx]
  obtain ⟨is, es, repeats⟩ := x.exists_repeats hostFree stateless few'
  obtain ⟨x₀, hx₀⟩ := repeats {}
  have begun : ρ.Identifies ((m.withReturns types).withResidue {}).beginCall
      ((m'.withReturns types).withResidue {}).beginCall :=
    ⟨identifies.pushed, identifies.registers⟩
  have alike := begun.sameMachine e.stats.pushed ordered ordered'
    (ReturnBuffer.sameBanks_outputs _ types) rfl rfl
  obtain ⟨s, s', y₀, hs, alike', invocations, stack, stack'⟩ := alike.call portable noHost few' rfl
    (same.imp fun _ _ => begun.sameValue _) (ReturnBuffer.sameDescriptor _ types) x₀
    (Nat.le_add_left _ _)
  obtain ⟨is', es', repeats'⟩ := y₀.exists_repeats hostFree stateless few'
  -- Both have begun without a residue, so what they have added is all there is.
  have added : s.residue = { invoked := is, events := es } := by
    rw [← Residue.called_empty is es (p.scriptAborts f o), ← residue_endCall]
    exact (congrArg residue hs).symm
  have added' : s'.residue = { invoked := is', events := es' } := by
    rw [← Residue.called_empty is' es' (p.scriptAborts f o), ← residue_endCall]
    exact y₀.residue_eq repeats'
  have agree : s.residue = s'.residue := by
    rw [residue, residue, alike'.pending, alike'.invoked, alike'.events]
  obtain ⟨-, rfl, rfl⟩ := Residue.mk.inj (added.symm.trans (agree.trans added'))
  obtain ⟨y, hy⟩ := repeats' (m'.withReturns types).residue
  rw [hx₀, ← hy] at invocations
  refine ⟨_, y, alike'.callsAlike ⟨stack, stack'⟩ invocations ?_ rfl⟩
  rw [← hs, ← x.residue_eq repeats]
  rfl

/-- Calls are independent of the history of the context. Two contexts may have been used in
any way, by any programs: they have counted different calls, frames have been left on their
stacks, aborts are pending in one of them or in both. A call that has an outcome in one of
them has the same outcome in the other, and `CallsAlike` says what else is the same: the return
storage, the natives that are called and what they note, and what is added to the counters.

The stacks are as deep as before. A pending abort makes no difference but that it is still
pending afterwards or, if the call is answered with an abort of a script, that its replacement
is reported.

The arguments are the same in both contexts up to the names of frames, and what they lead to
holds the same. Without addresses in the arguments no frame has to stand for another one. The
number of return values is passed to the callee as an `i32`. -/
theorem calls_independent_of_history {p : Program}
    (noHost : ∀ f e, (p.head f).entry ≠ some (.host e)) (portable : p.Portable)
    (stateless : p.Stateless) {past past' : List Machine} {m m' : Machine}
    (history : History past m) (history' : History past' m') {ρ : Renaming}
    (identifies : ρ.Identifies m m') {f : FuncRef} {params params' : List Value}
    (same : List.Forall₂ ρ.SameParam params params') {types : List RegType}
    (few : types.length < Nat.pow 2 31) {limit : Nat} {o : Except Abort Int32} {e : Machine}
    (ran : p.call limit f params (ReturnBuffer.ofTypes types).descriptors (m.withReturns types) =
      some (o, e)) :
    ∃ (limit' : Nat) (e' : Machine)
      (x : Calling p f params (ReturnBuffer.ofTypes types).descriptors (m.withReturns types) o e)
      (y : Calling p f params' (ReturnBuffer.ofTypes types).descriptors (m'.withReturns types) o
        e'),
      p.call limit' f params' (ReturnBuffer.ofTypes types).descriptors (m'.withReturns types) =
          some (o, e') ∧
        CallsAlike p f o (ρ.since m.stats.pushed m'.stats.pushed) (m.withReturns types)
          (m'.withReturns types) e e' x.invocations y.invocations := by
  obtain ⟨x⟩ := Calling.ofCall ran
  obtain ⟨e', y, alike⟩ := identifies.exists_callsAlike noHost portable stateless history.ordered
    history'.ordered same few x
  obtain ⟨limit', ran'⟩ := y.call_eventually
  exact ⟨limit', e', x, y, ran' limit' (Nat.le_refl _), alike⟩

/-! ## A call that is aborted, in a new context and in a used one -/

theorem abortingProgram_portable : abortingProgram.Portable where
  constants ρ f code h := by
    have known : ∀ i, Pointer.Known 0 (callFirst.constants.get .pointer i) := by
      rintro (_ | i) s hs
      · cases hs
      · cases hs
    rcases f with (_ | _ | i) | (_ | i)
    · cases h
    · cases h
      exact .of_known (fun _ hs => absurd hs (Nat.not_lt_zero _)) known
    · cases h
    · cases h
    · cases h
  defaults ρ i := by
    rcases i with _ | i
    · exact .nil
    · exact .nil
  behaviour ρ i inv := by
    rcases i with _ | i
    · exact .finish (-5)
    · exact .finish 0

theorem abortingProgram_stateless : abortingProgram.Stateless := by
  rintro (_ | i) inv n
  · rfl
  · rfl

def Renaming.empty : Renaming where
  frame _ _ := False
  unique := ⟨fun _ _ _ h => h.elim, fun _ _ _ h => h.elim⟩

theorem Renaming.identifies_empty (m m' : Machine) : empty.Identifies m m' :=
  ⟨False.elim, False.elim⟩

def staleAbort : Abort := { kind := .other, message := "stale" }

/-- In the used context there has been a call, a frame has been left, and an abort is pending.
The answer is the same, and the abort that was pending is gone with a report. -/
theorem calls_independent_of_history_stale :
    ∃ (past : List Machine) (m : Machine), History past m ∧ m.callCount = 1 ∧ m.depth = 1 ∧
      m.pending = some staleAbort ∧ ∃ b e limit' e',
        abortingProgram.call 2 (.script 1) [] [] (Machine.withNewContext {}) = some (.error b, e) ∧
          abortingProgram.call limit' (.script 1) [] [] (m.withReturns []) =
            some (.error b, e') ∧
          e'.depth = 1 ∧ e'.callCount = 2 ∧ e'.pending = none ∧
            e'.events = m.events ++ [.replacingPending staleAbort] := by
  obtain ⟨b, e, ran, count, silent, hcount, hdepth, hpending⟩ : ∃ b e,
      abortingProgram.call 2 (.script 1) [] [] (Machine.withNewContext {}) = some (.error b, e) ∧
        e.callCount = 1 ∧ e.events = [] ∧ (e.pushEmpty.raise staleAbort).callCount = 1 ∧
          (e.pushEmpty.raise staleAbort).depth = 1 ∧
            (e.pushEmpty.raise staleAbort).pending = some staleAbort :=
    ⟨_, _, rfl, rfl, rfl, rfl, rfl, rfl⟩
  obtain ⟨c⟩ := Calling.ofCall ran
  obtain ⟨fr, room⟩ := push_empty e
  have history : History _ (e.pushEmpty.raise staleAbort) :=
    .raised staleAbort (.pushed (.called (.created {}) c) room)
  obtain ⟨limit', e', x, y, ran', alike⟩ :=
    calls_independent_of_history abortingProgram_noHost abortingProgram_portable
      abortingProgram_stateless (.created {}) history (identifies_empty _ _) .nil
      (by decide : ([] : List RegType).length < Nat.pow 2 31) ran
  obtain ⟨n, hn, hn'⟩ := alike.callCount
  obtain ⟨is, es, residue, residue'⟩ := alike.residue
  have added : e.events = [] ++ es ++ [] := congrArg Residue.events residue
  have added' : e'.events = (e.pushEmpty.raise staleAbort).events ++ es ++
      [.replacingPending staleAbort] := congrArg Residue.events residue'
  have hes : es = [] := by simpa [silent] using added.symm
  refine ⟨_, _, history, hcount, hdepth, hpending, b, e, limit', e', ran, ran', ?_, ?_, ?_, ?_⟩
  · exact (depth_of_serials alike.stack.2).trans hdepth
  · have hfresh : e.callCount = 0 + n := hn
    have hused : e'.callCount = (e.pushEmpty.raise staleAbort).callCount + n := hn'
    omega
  · exact congrArg Residue.pending residue'
  · rw [added', hes, List.append_nil]

end CallProtocol
