import CallProtocol.Proofs.Execution.Activation
import CallProtocol.Proofs.Execution.Calling

/-!
# What a run calls of the host

`Execution.invocations` lists the natives that are called in a run, each with its arguments
at that time and the types of its return values. `Performs` is a run seen from outside: its
outcome and its invocations, without the tree.

So the way from a task to what remains of it can be stated as an equivalence. Seen from
outside a body is its rest once some of its steps have been done, a body in front of a tail
call is the callee with one frame to take away, and a call from outside of compiled code is
what is performed for the function with its outcome settled, be it a script or a native.
-/

namespace CallProtocol

open Machine

/-- How a native is called: with which arguments, and for return values of which types. -/
def nativeNote (f : FuncRef) (params : List Value) (returns : List Descriptor) (m : Machine) :
    List LogEntry :=
  match f with
  | .native i =>
    [.native i params.length (params.map (·.arg? m.text)) (returns.map (·.regType?))]
  | .script _ => []

def Execution.invocations {p : Program} {τ : Task} {m : Machine} {r : Int32} {m' : Machine} :
    Execution p τ m r m' → List LogEntry
  | stub _ _ _ _ => []
  | host _ _ _ _ _ => []
  | refused _ => []
  | begun _ body => body.invocations
  | @native _ f h m _ _ _ => nativeNote f h.params h.visibleReturns m
  | null _ => []
  | fallOff _ _ => []
  | quiet _ next => next.invocations
  | returned _ _ _ _ => []
  | unwound _ call _ => call.invocations
  | tailed _ call _ _ => call.invocations
  | resumed _ call _ _ next => call.invocations ++ next.invocations

def Calling.invocations {p : Program} {f : FuncRef} {params : List Value}
    {returns : List Descriptor} {m : Machine} {o : Except Abort Int32} {m' : Machine} :
    Calling p f params returns m o m' → List LogEntry
  | native _ _ => nativeNote f params returns m.beginCall
  | missing _ _ => []
  | script _ _ run _ => run.invocations

/-- The task has a run with the outcome and the invocations. -/
def Performs (p : Program) (τ : Task) (m : Machine) (r : Int32) (m' : Machine)
    (invocations : List LogEntry) : Prop :=
  ∃ x : Execution p τ m r m', x.invocations = invocations

namespace Activation

def quietAll : List Step → Activation → Machine → Option (Activation × Machine)
  | [], a, m => some (a, m)
  | s :: rest, a, m => (a.quiet m s).bind fun (a, m) => quietAll rest a m

def called? (a : Activation) (m : Machine) (c : CallSite) : Option FuncRef :=
  match c.callee with
  | .static k _ => Pointer.function? (a.proto.constants.get .pointer k)
  | .register r => Pointer.function? (a.read m .pointer r)

end Activation

namespace Program

def task? (p : Program) (f : FuncRef) (h : Handover) : Option Task :=
  if f.isNative then some (.native f h)
  else (p.head f).entry.map fun e => .entry e f (p.name f) h

def counted (f : FuncRef) (m : Machine) : Machine :=
  { m with callCount := m.callCount + if f.isNative then 0 else 1 }

variable {p : Program} {a : Activation} {c : CallSite} {m : Machine} {f : FuncRef}

theorem functionTask_eq (p : Program) (f : FuncRef) (h : Handover) (m : Machine) :
    p.functionTask f.isNative f h m = (p.task? f h).map fun τ => (τ, counted f m) := by
  rw [functionTask, task?]
  cases hf : f.isNative with
  | true =>
      rw [counted, hf]
      rfl
  | false =>
      rw [counted, hf]
      simp only [scriptTask, Option.map_map, Bool.false_eq_true, if_false]
      rfl

theorem task?_of_entry {e : Entry} (hf : f.isNative = false) (he : (p.head f).entry = some e)
    (h : Handover) : p.task? f h = some (.entry e f (p.name f) h) := by
  rw [task?, hf, he]
  rfl

theorem task?_cases {h : Handover} {τ : Task} (hτ : p.task? f h = some τ) :
    (f.isNative = true ∧ τ = .native f h) ∨
      ∃ e, f.isNative = false ∧ (p.head f).entry = some e ∧ τ = .entry e f (p.name f) h := by
  rw [task?] at hτ
  cases hf : f.isNative with
  | true =>
      rw [hf] at hτ
      cases hτ
      exact .inl ⟨rfl, rfl⟩
  | false =>
      rw [hf] at hτ
      obtain ⟨e, he, rfl⟩ := Option.map_eq_some_iff.1 hτ
      exact .inr ⟨e, rfl, he, rfl⟩

theorem exists_task? (defined : f.isNative = true ∨ (p.head f).entry ≠ none) (h : Handover) :
    ∃ τ, p.task? f h = some τ := by
  rw [task?]
  rcases defined with hf | he
  · rw [if_pos hf]
    exact ⟨_, rfl⟩
  · obtain ⟨e, he⟩ := Option.ne_none_iff_exists'.1 he
    rw [he]
    split
    · exact ⟨_, rfl⟩
    · exact ⟨_, rfl⟩

theorem callee?_of_called {rest : List Step} (runs : a.Runs (.call c :: rest))
    (hf : a.called? m c = some f) :
    p.callee? a c m = (p.task? f (a.handoverFor c)).map fun τ => (τ, counted f m) := by
  cases hc : c.callee with
  | static k native =>
      obtain ⟨n, i, s, s', -, calls⟩ := runs.site
      have hcallee := calls.callee
      rw [hc] at hcallee
      simp only [Activation.called?, hc] at hf
      obtain ⟨f', hf', rfl⟩ := Prototype.callee_static hcallee
      obtain rfl := Option.some.inj (hf'.symm.trans hf)
      rw [callee?_of_static hc, hf']
      exact p.functionTask_eq f' _ m
  | register r =>
      simp only [Activation.called?, hc] at hf
      have hnull : ¬ Pointer.isNull (a.read m .pointer r) = true := by
        intro hnull
        rw [of_decide_eq_true hnull] at hf
        cases hf
      rw [callee?_of_register hc, if_neg hnull, hf]
      exact p.functionTask_eq f _ m

end Program

variable {p : Program} {m m' m₁ : Machine} {r : Int32} {L : List LogEntry}

theorem performs_begun {code : Code} {f : FuncRef} {name : String} {h : Handover} {fr : Frame}
    (room : m.push code.plan.layout h.params = .ok (fr, m₁)) :
    Performs p (.entry (.compiled code) f name h) m r m' L ↔
      Performs p (.body code.plan.steps (.start code name h fr)) m₁ r m' L := by
  constructor
  · rintro ⟨x, hx⟩
    cases x with
    | refused full =>
        rw [room] at full
        cases full
    | begun room' body =>
        obtain ⟨rfl, rfl⟩ := Prod.mk.inj (Except.ok.inj (room.symm.trans room'))
        exact ⟨body, hx⟩
  · rintro ⟨body, hbody⟩
    exact ⟨.begun room body, hbody⟩

theorem performs_quiet {s : Step} {rest : List Step} {a a' : Activation}
    (step : a.quiet m s = some (a', m₁)) :
    Performs p (.body (s :: rest) a) m r m' L ↔ Performs p (.body rest a') m₁ r m' L := by
  constructor
  · rintro ⟨x, hx⟩
    cases x with
    | quiet step' next =>
        obtain ⟨rfl, rfl⟩ := Prod.mk.inj (Option.some.inj (step.symm.trans step'))
        exact ⟨next, hx⟩
    | returned rest a m final =>
        rw [Activation.quiet, if_pos final] at step
        cases step
    | unwound callee call negative => cases step
    | tailed callee call resumes kind => cases step
    | resumed callee call resumes kind next => cases step
  · rintro ⟨next, hnext⟩
    exact ⟨.quiet step next, hnext⟩

theorem performs_quietAll {lead rest : List Step} {a a' : Activation}
    (h : a.quietAll lead m = some (a', m₁)) :
    Performs p (.body (lead ++ rest) a) m r m' L ↔ Performs p (.body rest a') m₁ r m' L := by
  induction lead generalizing a m with
  | nil =>
      cases h
      rfl
  | cons s lead ih =>
      obtain ⟨⟨a₁, m₂⟩, step, h⟩ := Option.bind_eq_some_iff.1 h
      exact (performs_quiet step).trans (ih h)

/-- A body that tail calls answers what its callee answers, and its frame is gone. -/
theorem performs_tail {c : CallSite} {rest : List Step} {a : Activation} {τ : Task}
    (kind : c.kind = .tail) (callee : p.callee? a c (a.beforeCall m c) = some (τ, m₁)) :
    Performs p (.body (.call c :: rest) a) m r m' L ↔
      ∃ m₂, Performs p τ m₁ r m₂ L ∧ m' = if r < 0 then m₂.unwind a.name else m₂.pop := by
  constructor
  · rintro ⟨x, hx⟩
    cases x with
    | quiet step next => cases step
    | unwound callee' call negative =>
        obtain ⟨rfl, rfl⟩ := Prod.mk.inj (Option.some.inj (callee.symm.trans callee'))
        exact ⟨_, ⟨call, hx⟩, (if_pos negative).symm⟩
    | tailed callee' call resumes _ =>
        obtain ⟨rfl, rfl⟩ := Prod.mk.inj (Option.some.inj (callee.symm.trans callee'))
        exact ⟨_, ⟨call, hx⟩, (if_neg (Int32.not_lt.2 resumes)).symm⟩
    | resumed callee' call resumes kind' next =>
        rw [kind] at kind'
        cases kind'
  · rintro ⟨m₂, ⟨call, hcall⟩, rfl⟩
    by_cases negative : r < 0
    · rw [if_pos negative]
      exact ⟨.unwound callee call negative, hcall⟩
    · rw [if_neg negative]
      exact ⟨.tailed callee call (Int32.not_lt.1 negative) kind, hcall⟩

theorem Machine.popTo_of_depth {m : Machine} {depth : Nat} (h : m.depth = depth) :
    m.popTo depth = m := by
  have hsurplus : m.frames.length - depth = 0 := by
    rw [← h]
    exact Nat.sub_self _
  rw [popTo, hsurplus]
  rfl

/-- A call is answered with an abort exactly if its entry has unwound. -/
theorem Program.settle_error_iff {depth : Nat} {r : Int32} {ended settled : Machine}
    {o : Except Abort Int32} (h : settle depth r ended = (o, settled)) :
    (∃ b, o = .error b) ↔ r < 0 := by
  rcases settle_cases h with ⟨negative, -, rfl⟩ | ⟨resumes, -, rfl⟩
  · exact ⟨fun _ => negative, fun _ => ⟨_, rfl⟩⟩
  · constructor
    · rintro ⟨b, hb⟩
      cases hb
    · exact fun negative => absurd negative (Int32.not_lt.2 resumes)

/-- On a stack that is as deep as before there is no frame to give up. -/
theorem Program.settle_context {depth : Nat} {r : Int32} {ended settled : Machine}
    {o : Except Abort Int32} (h : settle depth r ended = (o, settled))
    (hdepth : ended.depth = depth) :
    settled.callCount = ended.callCount ∧ settled.stats = ended.stats ∧
      settled.depth = ended.depth := by
  rcases settle_cases h with ⟨-, rfl, -⟩ | ⟨-, rfl, -⟩
  · rw [popTo_of_depth hdepth]
    exact ⟨rfl, rfl, rfl⟩
  · exact ⟨rfl, rfl, rfl⟩

/-- If nothing was pending, then raising an abort and taking it changes nothing. -/
theorem Machine.clearPending_raise {m : Machine} (h : m.pending = none) (a : Abort) :
    (m.raise a).clearPending = m := by
  rw [raise, h, clearPending]
  obtain ⟨_, _, _, _, _, _, _, _, _⟩ := m
  cases h
  rfl

/-- A native has no frame to give up, so the abort that compiled code would find pending is the
answer to a call from outside. -/
theorem Program.callNative_eq_settle {f : FuncRef} {h : Handover} {ended : Machine}
    (pending : m.pending = none) (ran : p.nativeCall f h m.beginCall = (r, ended)) :
    p.callNative f h.params h.visibleReturns m.beginCall = Program.settle m.depth r ended := by
  rcases Program.nativeCall_cases ran with ⟨hcall, hr⟩ | ⟨b, m₁, hcall, rfl, rfl⟩
  · rw [hcall, Program.settle, if_neg (Int32.not_lt.2 hr)]
  · have after := Program.callNative_context hcall
    have hdepth : (m₁.raise b).depth = m.depth := (depth_raise m₁ b).trans after.depth
    rw [hcall, Program.settle, if_pos (by decide)]
    simp only [popTo_of_depth hdepth, pending_raise,
      clearPending_raise (after.pending.trans pending), Option.getD_some]

/-- A call from outside performs the task of the function and settles the outcome. -/
theorem exists_calling_iff {f : FuncRef} {params : List Value} {returns : List Descriptor}
    {o : Except Abort Int32} {τ : Task} (pending : m.pending = none)
    (few : returns.length < Nat.pow 2 31)
    (hτ : p.task? f ⟨params, returns, Int32.ofNat returns.length⟩ = some τ) :
    (∃ c : Calling p f params returns m o m', c.invocations = L) ↔
      ∃ r ended, Performs p τ m.beginCall r ended L ∧
        ∃ settled, Program.settle m.depth r ended = (o, settled) ∧ m' = m.endCall settled := by
  cases hf : f.isNative with
  | false =>
      rw [Program.task?, hf] at hτ
      obtain ⟨e, he, rfl⟩ := Option.map_eq_some_iff.1 hτ
      constructor
      · rintro ⟨c, hc⟩
        cases c with
        | native isNative ran =>
            rw [hf] at isNative
            cases isNative
        | missing isScript none =>
            rw [he] at none
            cases none
        | script isScript entry run answer =>
            obtain rfl := Option.some.inj (he.symm.trans entry)
            exact ⟨_, _, ⟨run, hc⟩, _, answer, rfl⟩
      · rintro ⟨r, ended, ⟨run, hrun⟩, settled, answer, rfl⟩
        exact ⟨.script hf he run answer, hrun⟩
  | true =>
      rw [Program.task?, hf] at hτ
      obtain rfl := Option.some.inj hτ
      have hvisible : (⟨params, returns, Int32.ofNat returns.length⟩ : Handover).visibleReturns =
          returns := by
        rw [Handover.visibleReturns, Int32.toInt_ofNat_of_lt few, Int.toNat_natCast,
          List.take_length]
      have ofCall : ∀ {r ended}, p.nativeCall f ⟨params, returns, Int32.ofNat returns.length⟩
          m.beginCall = (r, ended) →
            p.callNative f params returns m.beginCall = Program.settle m.depth r ended := by
        intro r ended ran
        have settled := Program.callNative_eq_settle pending ran
        rw [hvisible] at settled
        exact settled
      constructor
      · rintro ⟨c, hc⟩
        cases c with
        | missing isScript none =>
            rw [hf] at isScript
            cases isScript
        | script isScript entry run answer =>
            rw [hf] at isScript
            cases isScript
        | @native o ended isNative ran =>
            cases hrun : p.nativeCall f ⟨params, returns, Int32.ofNat returns.length⟩ m.beginCall with
            | mk r ended' =>
                refine ⟨r, ended', ⟨.native hrun, ?_⟩, ended, (ofCall hrun).symm.trans ran, rfl⟩
                rw [Execution.invocations, hvisible]
                exact hc
      · rintro ⟨r, ended, ⟨x, hx⟩, settled, answer, rfl⟩
        cases x with
        | native ran =>
            refine ⟨.native hf ((ofCall ran).trans answer), ?_⟩
            rw [Execution.invocations, hvisible] at hx
            exact hx

end CallProtocol
