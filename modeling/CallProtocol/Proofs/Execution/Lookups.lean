import CallProtocol.Run

/-!
# What a run looks up

A run looks into the table of functions for names, for what the natives do, and for entries. It
does so when a function is called, and it never looks at the prototype of a script. So two
programs run alike if their functions have the same names and natives and if the entries of
each function come to the same.
-/

namespace CallProtocol

/-- The entries do the same for whatever program, callees and machine. -/
def Entry.Interchangeable (e e' : Entry) : Prop :=
  ∀ (p : Program) (invoke : Invoke) (f : FuncRef) (name : String) (h : Handover) (m : Machine),
    p.runEntry invoke e' f name h m = p.runEntry invoke e f name h m

theorem Entry.Interchangeable.refl (e : Entry) : e.Interchangeable e := fun _ _ _ _ _ _ => rfl

namespace Program

structure SameFunctions (p p' : Program) : Prop where
  name : ∀ f, p'.name f = p.name f
  defaults : ∀ i, (p'.native i).defaults = (p.native i).defaults
  behaviour : ∀ i, (p'.native i).behaviour = (p.native i).behaviour

variable {p p' : Program}

theorem SameFunctions.refl (p : Program) : p.SameFunctions p :=
  ⟨fun _ => rfl, fun _ => rfl, fun _ => rfl⟩

theorem SameFunctions.symm (h : p.SameFunctions p') : p'.SameFunctions p :=
  ⟨fun f => (h.name f).symm, fun i => (h.defaults i).symm, fun i => (h.behaviour i).symm⟩

theorem SameFunctions.trans {p₁ p₂ p₃ : Program} (h : p₁.SameFunctions p₂)
    (h' : p₂.SameFunctions p₃) : p₁.SameFunctions p₃ where
  name f := (h'.name f).trans (h.name f)
  defaults i := (h'.defaults i).trans (h.defaults i)
  behaviour i := (h'.behaviour i).trans (h.behaviour i)

namespace SameFunctions

variable (same : p.SameFunctions p')

include same

theorem callNative : p'.callNative = p.callNative := by
  funext f params returns m
  cases f with
  | script i =>
      have hname : (p'.script i).name = (p.script i).name := same.name (.script i)
      rw [Program.callNative, Program.callNative, hname]
  | native i =>
      have hname : (p'.native i).name = (p.native i).name := same.name (.native i)
      rw [Program.callNative, Program.callNative, runNative, runNative, invocation, invocation,
        hname, same.defaults, same.behaviour]

theorem nativeCall : p'.nativeCall = p.nativeCall := by
  funext f h m
  rw [Program.nativeCall, Program.nativeCall, same.callNative]

theorem dispatch : p'.dispatch = p.dispatch := by
  funext invoke a c m
  rw [Program.dispatch, Program.dispatch]
  cases c.callee with
  | static k native => simp only [staticCall, same.nativeCall]
  | register r => simp only [dynamicCall, same.nativeCall]

theorem runSteps : p'.runSteps = p.runSteps := by
  funext invoke steps a m
  induction steps generalizing a m with
  | nil => rfl
  | cons s rest ih => cases s <;> simp only [Program.runSteps, same.dispatch, ih]

theorem runEntry : p'.runEntry = p.runEntry := by
  funext invoke e f name h m
  cases e with
  | stub | host e => rfl
  | compiled code =>
      rw [Program.runEntry, Program.runEntry, runCode, runCode, same.runSteps]

theorem enter (entries : ∀ f, Option.Rel Entry.Interchangeable (p.head f).entry (p'.head f).entry)
    (limit : Nat) : p'.enter limit = p.enter limit := by
  induction limit with
  | zero => rfl
  | succ limit ih =>
      funext f h m
      have hentry := entries f
      simp only [Program.enter, ih, same.name, same.runEntry]
      generalize (p.head f).entry = e, (p'.head f).entry = e' at hentry
      cases hentry with
      | none => rfl
      | some alike => exact alike p _ f _ h m

theorem call (entries : ∀ f, Option.Rel Entry.Interchangeable (p.head f).entry (p'.head f).entry)
    (limit : Nat) : p'.call limit = p.call limit := by
  have script : p'.callScript limit = p.callScript limit := by
    funext f params returns m
    have hentry := entries f
    rw [callScript, callScript, same.enter entries, same.name]
    generalize (p.head f).entry = e, (p'.head f).entry = e' at hentry
    cases hentry <;> rfl
  funext f params returns m
  rw [Program.call, Program.call, same.callNative, script]

end SameFunctions

end Program

/-! ## The code of an activation -/

namespace Activation

def withCode (a : Activation) (code : List Instr) : Activation :=
  { a with proto := { a.proto with code } }

variable (a : Activation) (code : List Instr) (m : Machine)

theorem assign_withCode (b : Bank) (r : Nat) (x : b.Content) :
    (a.withCode code).assign m b r x =
      ((a.assign m b r x).1.withCode code, (a.assign m b r x).2) := by
  rw [assign, assign]
  split <;> rfl

theorem plain_withCode (op : PlainOp) :
    (a.withCode code).plain m op = ((a.plain m op).1.withCode code, (a.plain m op).2) := by
  cases op with
  | nop => rfl
  | assign b r source =>
      have cell : (a.withCode code).cell? m source = a.cell? m source := by
        cases source <;> rfl
      rw [plain, plain, cell]
      split
      · exact a.assign_withCode code m b r _
      · rfl
  | addInts r x y => exact a.assign_withCode code m .int r _
  | addFloats r x y => exact a.assign_withCode code m .float r _

theorem stage_withCode (slot : Nat) (params : List Staged) :
    (a.withCode code).stage m slot params = (a.stage m slot params).withCode code := by
  induction params generalizing a slot with
  | nil => rfl
  | cons e params ih =>
      have value : (a.withCode code).stagedValue m e.source = a.stagedValue m e.source := by
        cases e.source <;> rfl
      rw [stage, stage, ← ih, value]
      rfl

theorem refresh_withCode (regs : List (Bank × Nat)) :
    (a.withCode code).refresh m regs = (a.refresh m regs).withCode code := by
  induction regs generalizing a with
  | nil => rfl
  | cons p regs ih =>
      rw [refresh, refresh, List.foldl_cons, List.foldl_cons]
      refine Eq.trans ?_ (ih _)
      cases p.1.isCached <;> rfl

end Activation

/-- A body runs by its steps, whatever code they have been made from. -/
theorem Program.runSteps_withCode (p : Program) (invoke : Invoke) (steps : List Step)
    (a : Activation) (code : List Instr) (m : Machine) :
    p.runSteps invoke steps (a.withCode code) m = p.runSteps invoke steps a m := by
  induction steps generalizing a m with
  | nil => rfl
  | cons s rest ih =>
      cases s with
      | plain op =>
          rw [runSteps, runSteps, Activation.plain_withCode]
          exact ih _ _
      | stage slot params =>
          rw [runSteps, runSteps, Activation.stage_withCode, ih]
          rfl
      | result spec => exact ih a m
      | call c =>
          have made : (a.withCode code).flush m ((a.withCode code).inOuts c) =
              a.flush m (a.inOuts c) := rfl
          have called : p.dispatch invoke (a.withCode code) c = p.dispatch invoke a c := rfl
          rw [runSteps, runSteps, made, called]
          congr 1
          funext ⟨r, m'⟩
          dsimp only
          rw [Activation.refresh_withCode, ih]
          rfl
      | ret site =>
          rw [runSteps, runSteps, ih]
          rfl

end CallProtocol
