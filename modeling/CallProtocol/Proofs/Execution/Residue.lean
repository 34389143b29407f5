import CallProtocol.Proofs.AbortChannel
import CallProtocol.Proofs.Execution.Invocations
import CallProtocol.Proofs.Execution.Stack
import CallProtocol.Proofs.Execution.Stores

/-!
# What a run does not look at

Whoever has used a context before may have left an abort pending in it, and natives have been
invoked and events reported. This is the `Residue` of a machine. A run adds to it, but nothing
that it does depends on it. So a run goes the same way whatever the residue was when it began,
and what becomes of the residue is always the same: natives and events are appended, and if
the run raises an abort, that one is pending instead of the one from before, with an event
that says so.

Natives must not ask how often they have been invoked, and a callee that unwinds must have
raised an abort of its own. The latter is what the abort channel is about.
-/

namespace CallProtocol

open Machine

/-- What has been left by those who have used a context. -/
structure Residue where
  pending : Option Abort := none
  invoked : List Nat := []
  events : List Event := []

namespace Residue

def note (k : Residue) (invoked : List Nat) (events : List Event) : Residue :=
  { k with invoked := k.invoked ++ invoked, events := k.events ++ events }

def raise (k : Residue) (a : Abort) : Residue :=
  { k with
    pending := some a
    events := k.events ++ k.pending.toList.map .replacingPending }

/-- The residue after natives have been invoked, events reported, and then perhaps an abort
raised. -/
def after (k : Residue) (invoked : List Nat) (events : List Event) : Option Abort → Residue
  | none => k.note invoked events
  | some a => (k.note invoked events).raise a

@[simp] theorem note_nil (k : Residue) : k.note [] [] = k := by
  simp [note]

theorem after_note (k : Residue) (is is' : List Nat) (es es' : List Event)
    (raised : Option Abort) :
    (k.note is es).after is' es' raised = k.after (is ++ is') (es ++ es') raised := by
  cases raised <;> simp [after, note, raise]

end Residue

namespace Machine

def residue (m : Machine) : Residue := ⟨m.pending, m.invoked, m.events⟩

def withResidue (m : Machine) (k : Residue) : Machine :=
  { m with pending := k.pending, invoked := k.invoked, events := k.events }

variable (m : Machine) (k k' : Residue)

@[simp] theorem residue_withResidue : (m.withResidue k).residue = k := rfl

@[simp] theorem withResidue_residue : m.withResidue m.residue = m := rfl

@[simp] theorem withResidue_withResidue : (m.withResidue k).withResidue k' = m.withResidue k' := rfl

/-! ## The machine -/

@[simp] theorem text_withResidue : (m.withResidue k).text = m.text := by
  funext t
  cases t <;> rfl

@[simp] theorem store_withResidue (s : Slot) (c : Cell) :
    (m.withResidue k).store s c = (m.store s c).withResidue k := by
  obtain ⟨o, b, r⟩ := s
  cases o <;> rfl

@[simp] theorem write_withResidue (ws : List Write) :
    (m.withResidue k).write ws = (m.write ws).withResidue k := by
  induction ws generalizing m with
  | nil => rfl
  | cons w ws ih =>
      rw [write, List.foldl_cons, store_withResidue]
      exact ih _

@[simp] theorem raise_withResidue (a : Abort) :
    (m.withResidue k).raise a = m.withResidue (k.raise a) := by
  obtain ⟨pending, invoked, events⟩ := k
  cases pending <;> simp [raise, withResidue, Residue.raise, report]

@[simp] theorem withResidue_raise (a : Abort) : (m.raise a).withResidue k = m.withResidue k := by
  rw [raise]
  cases m.pending <;> rfl

theorem push_withResidue (layout : FrameLayout) (params : List Value) :
    (m.withResidue k).push layout params =
      (m.push layout params).map fun q => (q.1, q.2.withResidue k) := by
  rw [push, push, text_withResidue]
  change Except.bind (Frame.ofParams m.text m.stats.pushed layout params) _ = _
  cases Frame.ofParams m.text m.stats.pushed layout params <;> rfl

/-- There has to be a frame, for otherwise its absence is reported. -/
theorem pop_withResidue {m : Machine} (h : 0 < m.depth) (k : Residue) :
    (m.withResidue k).pop = m.pop.withResidue k := by
  rw [pop, pop]
  cases hf : m.frames with
  | nil => simp [depth, hf] at h
  | cons fr frs => simp [withResidue, hf]

/-- The abort that a callee has raised gets one more name, whatever was pending before. -/
theorem unwind_withResidue {m : Machine} (h : 0 < m.depth) (is : List Nat) (es : List Event)
    (a : Abort) (name : String) :
    (m.withResidue (k.after is es (some a))).unwind name =
      (m.unwind name).withResidue (k.after is es (some (a.through name))) := by
  have popped : (m.unwind name).withResidue (k.after is es (some (a.through name))) =
      m.pop.withResidue (k.after is es (some (a.through name))) := by
    rw [unwind_eq]
    cases m.pending <;> exact withResidue_raise _ _ _
  have hpending : (m.withResidue (k.after is es (some a))).pending = some a := rfl
  rw [popped, unwind_eq, hpending, pop_withResidue h]
  simp [raise, clearPending, withResidue, Residue.after, Residue.raise]

theorem runHost_withResidue (args : Arguments) (returns : List Descriptor) (host : Host) :
    runHost args returns host (m.withResidue k) =
      ((runHost args returns host m).1, (runHost args returns host m).2.withResidue k) := by
  induction host generalizing m with
  | finish n => rfl
  | abort a => rfl
  | panic p => rfl
  | put slot b xs next ih =>
      simp only [runHost, write_withResidue]
      split
      · exact ih _
      · rfl
  | arg i next ih =>
      simp only [runHost, text_withResidue]
      exact ih _ m
  | load s next ih => exact ih _ m
  | store s x next ih =>
      simp only [runHost, store_withResidue]
      exact ih _
  | note e next ih => exact ih { m with log := m.log ++ [e] }

end Machine

/-- The natives do not look at how often they have been invoked. -/
def Program.Stateless (p : Program) : Prop :=
  ∀ (i : Nat) (inv : Invocation) (n : Nat),
    (p.native i).behaviour { inv with earlier := n } = (p.native i).behaviour inv

namespace Program

variable {p : Program}

theorem runNative_withResidue (stateless : p.Stateless) (i : Nat) (params : List Value)
    (returns : List Descriptor) (m : Machine) (k : Residue) :
    p.runNative i params returns (m.withResidue k) =
      ((p.runNative i params returns m).1,
        (p.runNative i params returns m).2.withResidue (k.note [i] [])) := by
  have begun : beforeNative i (m.withResidue k) =
      (beforeNative i m).withResidue (k.note [i] []) := by
    simp [beforeNative, withResidue, Residue.note]
  have behaves : (p.native i).behaviour (p.invocation i params returns (m.withResidue k)) =
      (p.native i).behaviour (p.invocation i params returns m) :=
    stateless i (p.invocation i params returns m) _
  rw [runNative, begun, behaves]
  exact runHost_withResidue _ _ _ _ _

/-- A native leaves that it has been invoked and at most a report of its abort. -/
theorem callNative_withResidue (stateless : p.Stateless) (f : FuncRef) (params : List Value)
    (returns : List Descriptor) (m : Machine) :
    ∃ is es, ∀ k, p.callNative f params returns (m.withResidue k) =
      ((p.callNative f params returns m).1,
        (p.callNative f params returns m).2.withResidue (k.note is es)) := by
  cases f with
  | script i => exact ⟨[], [], fun k => by rw [Residue.note_nil]; rfl⟩
  | native i =>
      have ran := p.runNative_withResidue stateless i params returns m
      simp only [callNative, ran]
      cases p.runNative i params returns m with
      | mk outcome ended =>
          cases outcome with
          | ok count => exact ⟨[i], [], fun k => rfl⟩
          | error a =>
              refine ⟨[i], notice a, fun k => ?_⟩
              simp [reportAbort_eq, withResidue, Residue.note]

theorem nativeCall_withResidue (stateless : p.Stateless) {f : FuncRef} {h : Handover}
    {m m' : Machine} {r : Int32} (ran : p.nativeCall f h m = (r, m')) :
    ∃ is es raised, (raised = none ↔ 0 ≤ r) ∧
      ∀ k, p.nativeCall f h (m.withResidue k) = (r, m'.withResidue (k.after is es raised)) := by
  obtain ⟨is, es, called⟩ := p.callNative_withResidue stateless f h.params h.visibleReturns m
  rcases nativeCall_cases ran with ⟨hcall, hr⟩ | ⟨a, m₁, hcall, rfl, rfl⟩
  · refine ⟨is, es, none, iff_of_true rfl hr, fun k => ?_⟩
    rw [nativeCall, called, hcall]
    rfl
  · refine ⟨is, es, some a, iff_of_false (Option.some_ne_none a) (by decide), fun k => ?_⟩
    rw [nativeCall, called, hcall]
    simp [Residue.after]

end Program

/-! ## Activations -/

namespace Activation

variable (a : Activation) (m : Machine) (k : Residue)

theorem cell?_withResidue (s : Source) : a.cell? (m.withResidue k) s = a.cell? m s := by
  cases s <;> rfl

theorem assign_withResidue (b : Bank) (r : Nat) (x : b.Content) :
    a.assign (m.withResidue k) b r x =
      ((a.assign m b r x).1, (a.assign m b r x).2.withResidue k) := by
  rw [assign, assign]
  split
  · rfl
  · rw [store_withResidue]

theorem plain_withResidue (op : PlainOp) :
    a.plain (m.withResidue k) op = ((a.plain m op).1, (a.plain m op).2.withResidue k) := by
  cases op with
  | nop => rfl
  | assign b r source =>
      rw [plain, plain, cell?_withResidue]
      split
      · exact a.assign_withResidue m k b r _
      · rfl
  | addInts r x y => exact a.assign_withResidue m k .int r _
  | addFloats r x y => exact a.assign_withResidue m k .float r _

theorem stagedValue_withResidue (s : Source) :
    a.stagedValue (m.withResidue k) s = a.stagedValue m s := by
  rcases stagedValue_cases s with ⟨r, rfl⟩ | h
  · rfl
  · rw [h, h, cell?_withResidue]

theorem stage_withResidue (slot : Nat) (params : List Staged) :
    a.stage (m.withResidue k) slot params = a.stage m slot params := by
  induction params generalizing a slot with
  | nil => rfl
  | cons p ps ih =>
      rw [stage, stage, stagedValue_withResidue]
      exact ih _ _

theorem giveBack_withResidue (site : ReturnSite) :
    a.giveBack (m.withResidue k) site = (a.giveBack m site).withResidue k := by
  have cells : a.returnCells (m.withResidue k) site = a.returnCells m site := by
    simp only [returnCells, cell?_withResidue]
    rfl
  rw [giveBack, giveBack, cells]
  split
  · split
    · exact write_withResidue _ _ _
    · rfl
  · rfl

theorem quiet_withResidue (s : Step) :
    a.quiet (m.withResidue k) s = (a.quiet m s).map fun q => (q.1, q.2.withResidue k) := by
  cases s with
  | plain op => exact congrArg some (a.plain_withResidue m k op)
  | stage slot params =>
      rw [quiet, quiet, stage_withResidue]
      split <;> rfl
  | call c => rfl
  | result spec => rfl
  | ret site =>
      rw [quiet, quiet, giveBack_withResidue]
      split <;> rfl

theorem beforeCall_withResidue (c : CallSite) :
    a.beforeCall (m.withResidue k) c = (a.beforeCall m c).withResidue k := by
  rw [beforeCall, beforeCall, flush_eq_write, flush_eq_write]
  exact write_withResidue _ _ _

end Activation

theorem Program.functionTask_withResidue (p : Program) (native : Bool) (f : FuncRef) (h : Handover)
    (m : Machine) (k : Residue) :
    p.functionTask native f h (m.withResidue k) =
      (p.functionTask native f h m).map fun q => (q.1, q.2.withResidue k) := by
  cases native with
  | true => rfl
  | false =>
      simp only [functionTask, scriptTask, Option.map_map, Bool.false_eq_true, if_false]
      rfl

theorem Program.callee?_withResidue (p : Program) (a : Activation) (c : CallSite) (m : Machine)
    (k : Residue) :
    p.callee? a c (m.withResidue k) = (p.callee? a c m).map fun q => (q.1, q.2.withResidue k) := by
  cases hc : c.callee with
  | static i native =>
      rw [callee?_of_static hc, callee?_of_static hc, Option.map_bind]
      simp only [functionTask_withResidue]
      rfl
  | register r =>
      have hread : a.read (m.withResidue k) .pointer r = a.read m .pointer r := rfl
      rw [callee?_of_register hc, callee?_of_register hc, hread]
      split
      · rfl
      · rw [Option.map_bind]
        simp only [functionTask_withResidue]
        rfl

/-! ## Runs -/

theorem nativeNote_withResidue (f : FuncRef) (params : List Value) (returns : List Descriptor)
    (m : Machine) (k : Residue) :
    nativeNote f params returns (m.withResidue k) = nativeNote f params returns m := by
  cases f with
  | script i => rfl
  | native i => simp only [nativeNote, text_withResidue]

/-- The task is performed in the same way whatever the residue of `m` is. The run adds the
natives `is` and the events `es` to it, and the abort that it raises, if it raises one. -/
structure Repeats (p : Program) (τ : Task) (m : Machine) (r : Int32) (m' : Machine)
    (invocations : List LogEntry) (is : List Nat) (es : List Event) (raised : Option Abort) :
    Prop where
  code : raised = none ↔ 0 ≤ r
  performs : ∀ k : Residue,
    Performs p τ (m.withResidue k) r (m'.withResidue (k.after is es raised)) invocations

namespace Repeats

variable {p : Program} {τ : Task} {m m' : Machine} {r : Int32} {invocations : List LogEntry}
  {is : List Nat} {es : List Event} {raised : Option Abort}

theorem of_raise {a : Abort}
    (h : ∀ k : Residue, Performs p τ (m.withResidue k) unwoundCode ((m.withResidue k).raise a) []) :
    Repeats p τ m unwoundCode (m.raise a) [] [] [] (some a) where
  code := iff_of_false (Option.some_ne_none a) (by decide)
  performs k := by
    have raises := h k
    rw [raise_withResidue] at raises
    rw [withResidue_raise, Residue.after, Residue.note_nil]
    exact raises

theorem of_clear (hr : 0 ≤ r)
    (h : ∀ k : Residue, Performs p τ (m.withResidue k) r (m'.withResidue k) []) :
    Repeats p τ m r m' [] [] [] none where
  code := iff_of_true rfl hr
  performs k := by
    rw [Residue.after, Residue.note_nil]
    exact h k

theorem eq_none (h : Repeats p τ m r m' invocations is es raised) (hr : 0 ≤ r) : raised = none :=
  h.code.2 hr

theorem eq_some (h : Repeats p τ m r m' invocations is es raised) (hr : r < 0) :
    ∃ a, raised = some a := by
  refine Option.ne_none_iff_exists'.1 fun hnone => ?_
  exact absurd hr (Int32.not_lt.2 (h.code.1 hnone))

end Repeats

theorem Program.callee?_beforeCall {p : Program} {a : Activation} {c : CallSite} {m m₁ : Machine}
    {τ : Task} (callee : p.callee? a c (a.beforeCall m c) = some (τ, m₁)) (k : Residue) :
    p.callee? a c (a.beforeCall (m.withResidue k) c) = some (τ, m₁.withResidue k) := by
  rw [a.beforeCall_withResidue, p.callee?_withResidue, callee]
  rfl

namespace Repeats

variable {p : Program} {m m₁ m₂ m' : Machine} {τ : Task} {r : Int32} {L : List LogEntry}
  {is : List Nat} {es : List Event} {raised : Option Abort} {c : CallSite} {rest : List Step}
  {a : Activation}

theorem begun {code : Code} {f : FuncRef} {name : String} {h : Handover} {fr : Frame}
    (room : m.push code.plan.layout h.params = .ok (fr, m₁))
    (body : Repeats p (.body code.plan.steps (.start code name h fr)) m₁ r m' L is es raised) :
    Repeats p (.entry (.compiled code) f name h) m r m' L is es raised := by
  refine ⟨body.code, fun k => ?_⟩
  have room' : (m.withResidue k).push code.plan.layout h.params = .ok (fr, m₁.withResidue k) := by
    rw [push_withResidue, room]
    rfl
  exact (performs_begun room').2 (body.performs k)

theorem quiet {s : Step} {a' : Activation} (step : a.quiet m s = some (a', m₁))
    (next : Repeats p (.body rest a') m₁ r m' L is es raised) :
    Repeats p (.body (s :: rest) a) m r m' L is es raised := by
  refine ⟨next.code, fun k => ?_⟩
  have step' : a.quiet (m.withResidue k) s = some (a', m₁.withResidue k) := by
    rw [a.quiet_withResidue, step]
    rfl
  exact (performs_quiet step').2 (next.performs k)

theorem unwound (callee : p.callee? a c (a.beforeCall m c) = some (τ, m₁)) (own : 0 < m₂.depth)
    (negative : r < 0) {b : Abort} (call : Repeats p τ m₁ r m₂ L is es (some b)) :
    Repeats p (.body (.call c :: rest) a) m r (m₂.unwind a.name) L is es
      (some (b.through a.name)) := by
  refine ⟨iff_of_false (Option.some_ne_none _) (Int32.not_le.2 negative), fun k => ?_⟩
  obtain ⟨x, same⟩ := call.performs k
  rw [← unwind_withResidue k own is es b a.name]
  exact ⟨.unwound (Program.callee?_beforeCall callee k) x negative, same⟩

theorem tailed (callee : p.callee? a c (a.beforeCall m c) = some (τ, m₁)) (own : 0 < m₂.depth)
    (resumes : 0 ≤ r) (kind : c.kind = .tail) (call : Repeats p τ m₁ r m₂ L is es raised) :
    Repeats p (.body (.call c :: rest) a) m r m₂.pop L is es raised := by
  refine ⟨call.code, fun k => ?_⟩
  obtain ⟨x, same⟩ := call.performs k
  rw [← pop_withResidue own]
  exact ⟨.tailed (Program.callee?_beforeCall callee k) x resumes kind, same⟩

theorem resumed {r' : Int32} {L' : List LogEntry} {is' : List Nat} {es' : List Event}
    (callee : p.callee? a c (a.beforeCall m c) = some (τ, m₁)) (resumes : 0 ≤ r)
    (kind : c.kind = .call) (call : Repeats p τ m₁ r m₂ L is es none)
    (next : Repeats p (.body rest (a.afterCall m₂ c)) m₂ r' m' L' is' es' raised) :
    Repeats p (.body (.call c :: rest) a) m r' m' (L ++ L') (is ++ is') (es ++ es') raised := by
  refine ⟨next.code, fun k => ?_⟩
  obtain ⟨x, same⟩ := call.performs k
  -- The rest of the body begins with what the callee has added.
  obtain ⟨y, same'⟩ := next.performs (k.note is es)
  rw [← Residue.after_note]
  refine ⟨.resumed (Program.callee?_beforeCall callee k) x resumes kind y, ?_⟩
  change x.invocations ++ y.invocations = L ++ L'
  rw [same, same']

end Repeats

namespace Execution

/-- A callee needs no frame of its own, and that of its caller is still there when it ends. -/
theorem own_call {p : Program} {a : Activation} {c : CallSite} {m m₁ m₂ : Machine} {τ : Task}
    {r : Int32} (callee : p.callee? a c (a.beforeCall m c) = some (τ, m₁))
    (call : Execution p τ m₁ r m₂) (own : 0 < m.depth) : τ.ownFrames ≤ m₁.depth ∧ 0 < m₂.depth := by
  have hdepth := (ofCall callee call.restacked).depth_eq
  rw [Program.ownFrames_callee? callee]
  exact ⟨Nat.zero_le _, by omega⟩

/-- Without entries of the host every run can be repeated with another residue. -/
theorem exists_repeats {p : Program} (hostFree : p.HostFree) (stateless : p.Stateless) {τ : Task}
    {m m' : Machine} {r : Int32} (x : Execution p τ m r m') (regular : τ.Regular)
    (own : τ.ownFrames ≤ m.depth) :
    ∃ is es raised, Repeats p τ m r m' x.invocations is es raised := by
  induction x with
  | stub f name h m => exact ⟨_, _, _, .of_raise fun k => ⟨.stub f name h _, rfl⟩⟩
  | host e f name h m => exact absurd rfl (regular.1 e)
  | @refused code f name h m e full =>
      refine ⟨_, _, _, .of_raise fun k => ?_⟩
      have full' : (m.withResidue k).push code.plan.layout h.params = .error e := by
        rw [push_withResidue, full]
        rfl
      exact ⟨.refused full', rfl⟩
  | @begun code f name h m fr m₁ r m' room body ih =>
      have pushed := (Restacked.push room).depth_eq
      obtain ⟨_, _, _, repeats⟩ :=
        ih ⟨Activation.runs_start code name h fr, regular.2⟩ (by rw [pushed]; exact Nat.le_add_right 1 _)
      exact ⟨_, _, _, repeats.begun room⟩
  | @native f h m r m' ran =>
      obtain ⟨is, es, raised, code, called⟩ := p.nativeCall_withResidue stateless ran
      exact ⟨is, es, raised, code, fun k => ⟨.native (called k), nativeNote_withResidue _ _ _ m k⟩⟩
  | null m => exact ⟨_, _, _, .of_raise fun k => ⟨.null _, rfl⟩⟩
  | fallOff a m =>
      refine ⟨_, _, _, .of_clear (by decide) fun k => ?_⟩
      rw [← pop_withResidue own]
      exact ⟨.fallOff a _, rfl⟩
  | @quiet s rest a m a' m₁ r m' step next ih =>
      have same := Activation.sameContext_quiet step
      obtain ⟨_, _, _, repeats⟩ :=
        ih (regular.next (Activation.sameBody_quiet step)) (by rwa [same.depth])
      exact ⟨_, _, _, repeats.quiet step⟩
  | @returned site rest a m final =>
      have same := a.sameContext_giveBack m site
      refine ⟨_, _, _, .of_clear (a.zero_le_finalCode regular.2 site) fun k => ?_⟩
      rw [← pop_withResidue (by rwa [same.depth]), ← a.giveBack_withResidue]
      exact ⟨.returned rest a _ final, rfl⟩
  | unwound callee call negative ih =>
      obtain ⟨own₁, own₂⟩ := own_call callee call own
      obtain ⟨_, _, _, repeats⟩ := ih (hostFree.callee regular callee) own₁
      obtain ⟨b, rfl⟩ := repeats.eq_some negative
      exact ⟨_, _, _, repeats.unwound callee own₂ negative⟩
  | tailed callee call resumes kind ih =>
      obtain ⟨own₁, own₂⟩ := own_call callee call own
      obtain ⟨_, _, _, repeats⟩ := ih (hostFree.callee regular callee) own₁
      exact ⟨_, _, _, repeats.tailed callee own₂ resumes kind⟩
  | @resumed c rest a m τ m₁ r m₂ r' m' callee call resumes kind next ihcall ihnext =>
      obtain ⟨own₁, own₂⟩ := own_call callee call own
      obtain ⟨_, _, _, repeats⟩ := ihcall (hostFree.callee regular callee) own₁
      obtain ⟨_, _, _, repeats'⟩ := ihnext (regular.next (a.sameBody_refresh m₂ _)) own₂
      obtain rfl := repeats.eq_none resumes
      exact ⟨_, _, _, repeats.resumed callee resumes kind repeats'⟩

end Execution

/-- In the end the residue is what it was with the additions of the run. -/
theorem Repeats.residue_eq {p : Program} {τ : Task} {m m' : Machine} {r : Int32}
    {invocations : List LogEntry} {is : List Nat} {es : List Event} {raised : Option Abort}
    (h : Repeats p τ m r m' invocations is es raised) (x : Execution p τ m r m') :
    m'.residue = m.residue.after is es raised := by
  obtain ⟨y, -⟩ := h.performs m.residue
  exact congrArg residue (x.outcome_unique y).2

/-! ## Calls from outside -/

def Program.scriptAborts (p : Program) (f : FuncRef) : Except Abort Int32 → Bool
  | .ok _ => false
  | .error _ => !f.isNative && (p.head f).entry.isSome

/-- The residue after a call from outside. If a script has raised an abort, then it has taken
the place of the one that was pending, and then it has been taken itself. -/
def Residue.called (k : Residue) (invoked : List Nat) (events : List Event) (aborted : Bool) :
    Residue where
  pending := if aborted then none else k.pending
  invoked := k.invoked ++ invoked
  events := k.events ++ events ++ if aborted then k.pending.toList.map .replacingPending else []

theorem Residue.called_empty (is : List Nat) (es : List Event) (aborted : Bool) :
    ({} : Residue).called is es aborted = { invoked := is, events := es } := by
  simp [called]

theorem Residue.called_false (k : Residue) (is : List Nat) (es : List Event) :
    k.called is es false = k.note is es := by
  simp [called, note]

theorem Machine.residue_endCall (m ended : Machine) : (m.endCall ended).residue = ended.residue := by
  rw [endCall]
  split <;> rfl

theorem Machine.endCall_withResidue (m ended : Machine) (k k' : Residue) :
    (m.withResidue k).endCall (ended.withResidue k') = (m.endCall ended).withResidue k' := by
  rw [endCall, endCall]
  change (if m.clock.running = true then _ else _) = _
  split <;> rfl

theorem Repeats.settle {p : Program} {τ : Task} {m ended settled : Machine} {r : Int32}
    {invocations : List LogEntry} {is : List Nat} {es : List Event} {raised : Option Abort}
    {depth : Nat} {o : Except Abort Int32} {f : FuncRef}
    (h : Repeats p τ m r ended invocations is es raised) (x : Execution p τ m r ended)
    (isScript : f.isNative = false) (entry : (p.head f).entry ≠ none)
    (answer : Program.settle depth r ended = (o, settled)) (k : Residue) :
    Program.settle depth r (ended.withResidue (k.after is es raised)) =
      (o, settled.withResidue (k.called is es (p.scriptAborts f o))) := by
  rcases Program.settle_cases answer with ⟨negative, rfl, rfl⟩ | ⟨resumes, rfl, rfl⟩
  · obtain ⟨a, rfl⟩ := h.eq_some negative
    have hpending : ended.pending = some a := congrArg Residue.pending (h.residue_eq x)
    have aborts : p.scriptAborts f (.error (ended.pending.getD
        { kind := .other, message := "call unwound without a pending abort" })) = true := by
      rw [Program.scriptAborts, isScript]
      exact Option.isSome_iff_ne_none.2 entry
    rw [aborts, hpending, Program.settle, if_pos negative]
    rfl
  · obtain rfl := h.eq_none resumes
    have aborts : p.scriptAborts f (.ok r) = false := rfl
    rw [aborts, Residue.called_false, Program.settle, if_neg (Int32.not_lt.2 resumes)]
    rfl

/-- Every call from outside can be repeated with another residue. -/
theorem Calling.exists_repeats {p : Program} (hostFree : p.HostFree) (stateless : p.Stateless)
    {f : FuncRef} {params : List Value} {returns : List Descriptor} {m m' : Machine}
    {o : Except Abort Int32} (few : returns.length < Nat.pow 2 31)
    (c : Calling p f params returns m o m') :
    ∃ is es, ∀ k : Residue, ∃ c' : Calling p f params returns (m.withResidue k) o
        (m'.withResidue (k.called is es (p.scriptAborts f o))),
      c'.invocations = c.invocations := by
  cases c with
  | @native o ended isNative ran =>
      obtain ⟨is, es, called⟩ := p.callNative_withResidue stateless f params returns m.beginCall
      have aborts : p.scriptAborts f o = false := by
        cases o <;> simp [Program.scriptAborts, isNative]
      refine ⟨is, es, fun k => ?_⟩
      rw [aborts, Residue.called_false, ← endCall_withResidue m ended k]
      have ran' : p.callNative f params returns (m.withResidue k).beginCall =
          (o, ended.withResidue (k.note is es)) := by
        have h := called k
        rw [ran] at h
        exact h
      exact ⟨.native isNative ran', nativeNote_withResidue f params returns m.beginCall k⟩
  | missing isScript none =>
      have aborts : p.scriptAborts f (.error (Program.noEntryAbort (p.name f))) = false := by
        simp [Program.scriptAborts, none]
      refine ⟨[], [], fun k => ?_⟩
      rw [aborts, Residue.called_false, Residue.note_nil, ← endCall_withResidue m m.beginCall k]
      exact ⟨.missing isScript none, rfl⟩
  | @script e r ended o settled isScript entry run answer =>
      obtain ⟨is, es, raised, repeats⟩ := run.exists_repeats hostFree stateless
        ⟨fun x => hostFree f e x isScript entry, zero_le_ofNat few⟩ (Nat.zero_le _)
      refine ⟨is, es, fun k => ?_⟩
      rw [← endCall_withResidue m settled k]
      obtain ⟨run', same⟩ := repeats.performs k
      have answer' := repeats.settle run isScript (by simp [entry]) answer k
      exact ⟨.script isScript entry run' answer', same⟩

theorem Calling.residue_eq {p : Program} {f : FuncRef} {params : List Value}
    {returns : List Descriptor} {m m' : Machine} {o : Except Abort Int32} {is : List Nat}
    {es : List Event} (c : Calling p f params returns m o m')
    (h : ∀ k : Residue, ∃ c' : Calling p f params returns (m.withResidue k) o
        (m'.withResidue (k.called is es (p.scriptAborts f o))),
      c'.invocations = c.invocations) :
    m'.residue = m.residue.called is es (p.scriptAborts f o) := by
  obtain ⟨c', -⟩ := h m.residue
  exact congrArg residue (c.outcome_unique c').2

end CallProtocol
