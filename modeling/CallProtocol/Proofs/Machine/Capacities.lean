import CallProtocol.Run

/-!
# Capacities that nobody looks at

A frame keeps the layout it was made for, and with it how many outgoing parameters and return
descriptors its body has room for. No operation of the machine looks at these capacities. So
each operation commutes with `Machine.bare`, which forgets them, and what is read from a
machine is what is read from the bare one.
-/

namespace CallProtocol

def FrameLayout.bare (l : FrameLayout) : FrameLayout := { registers := l.registers }

def Frame.bare (f : Frame) : Frame := { f with layout := f.layout.bare }

namespace Machine

def bare (m : Machine) : Machine := { m with frames := m.frames.map Frame.bare }

variable (m : Machine)

@[simp] theorem depth_bare : m.bare.depth = m.depth := List.length_map _

@[simp] theorem pending_bare : m.bare.pending = m.pending := rfl

@[simp] theorem bare_clearPending : m.clearPending.bare = m.bare.clearPending := rfl

@[simp] theorem bare_report (e : Event) : (m.report e).bare = m.bare.report e := rfl

/-! ## Slots -/

@[simp] theorem registers?_bare : m.bare.registers? = m.registers? := by
  funext o
  cases o with
  | output i => rfl
  | frame serial =>
      rw [registers?, registers?, bare, List.find?_map, Option.map_map]
      rfl

@[simp] theorem load_bare (s : Slot) : m.bare.load s = m.load s := by
  rw [load, load, registers?_bare]

@[simp] theorem text_bare : m.bare.text = m.text := by
  funext t
  cases t <;> simp [text]

@[simp] theorem bare_modifyRegisters (f : Banks → Banks) (o : Owner) :
    (m.modifyRegisters f o).bare = m.bare.modifyRegisters f o := by
  cases o with
  | output i => rfl
  | frame serial =>
      simp only [modifyRegisters, bare, List.map_map]
      congr 1
      refine List.map_congr_left fun fr _ => ?_
      rw [Function.comp_apply, Function.comp_apply, apply_ite Frame.bare]
      rfl

@[simp] theorem bare_store (s : Slot) (c : Cell) : (m.store s c).bare = m.bare.store s c :=
  m.bare_modifyRegisters _ _

@[simp] theorem bare_write (ws : List Write) : (m.write ws).bare = m.bare.write ws := by
  induction ws generalizing m with
  | nil => rfl
  | cons w ws ih =>
      rw [write, write, List.foldl_cons, List.foldl_cons, ← bare_store]
      exact ih _

/-! ## Aborts -/

@[simp] theorem bare_raise (a : Abort) : (m.raise a).bare = m.bare.raise a := by
  rw [raise, raise, pending_bare]
  cases m.pending <;> rfl

/-! ## The stack -/

theorem push_bare (layout : FrameLayout) (params : List Value) :
    m.bare.push layout.bare params =
      (m.push layout params).map fun q => (q.1.bare, q.2.bare) := by
  have length : m.bare.frames.length = m.frames.length := List.length_map _
  rw [push, push, text_bare, length, Frame.ofParams, Frame.ofParams]
  change Except.bind (Except.map _ (Frame.fill m.text 0 (fun _ => 0) (.blank layout.registers)
    params)) _ = _
  cases Frame.fill m.text 0 (fun _ => 0) (.blank layout.registers) params <;> rfl

@[simp] theorem bare_pushEmpties (n : Nat) : (m.pushEmpties n).bare = m.bare.pushEmpties n := by
  have one : ∀ m : Machine, m.pushEmpty.bare = m.bare.pushEmpty := by
    intro m
    have pushed := m.push_bare {} []
    rw [pushEmpty, pushEmpty]
    change m.bare.push {} [] = _ at pushed
    rw [pushed]
    cases m.push {} [] <;> rfl
  induction n generalizing m with
  | zero => rfl
  | succ n ih =>
      rw [pushEmpties, pushEmpties, Nat.repeat, Nat.repeat, one]
      exact congrArg pushEmpty (ih m)

@[simp] theorem bare_pop : m.pop.bare = m.bare.pop := by
  cases hf : m.frames <;> simp [pop, bare, report, hf]

@[simp] theorem bare_popTo (depth : Nat) : (m.popTo depth).bare = m.bare.popTo depth := by
  simp [popTo, bare]

@[simp] theorem bare_unwind (name : String) : (m.unwind name).bare = m.bare.unwind name := by
  have pending : m.bare.pop.pending = m.pop.pending := by rw [← bare_pop, pending_bare]
  rw [unwind, unwind, pending]
  cases m.pop.pending <;> simp

/-! ## Host functions -/

theorem runHost_bare (args : Arguments) (returns : List Descriptor) (host : Host) :
    runHost args returns host m.bare =
      ((runHost args returns host m).1, (runHost args returns host m).2.bare) := by
  induction host generalizing m with
  | finish n => rfl
  | abort a => rfl
  | panic p => rfl
  | put slot b xs next ih =>
      simp only [runHost, ← bare_write]
      split
      · exact ih _
      · rfl
  | arg i next ih =>
      simp only [runHost, text_bare]
      exact ih _ m
  | load s next ih =>
      simp only [runHost, load_bare]
      exact ih _ m
  | store s x next ih =>
      simp only [runHost, ← bare_store]
      exact ih _
  | note e next ih => exact ih { m with log := m.log ++ [e] }

end Machine

namespace Program

variable (p : Program)

theorem callNative_bare (f : FuncRef) (params : List Value) (returns : List Descriptor)
    (m : Machine) :
    p.callNative f params returns m.bare =
      ((p.callNative f params returns m).1, (p.callNative f params returns m).2.bare) := by
  cases f with
  | script i => rfl
  | native i =>
      have ran : p.runNative i params returns m.bare =
          ((p.runNative i params returns m).1, (p.runNative i params returns m).2.bare) :=
        (beforeNative i m).runHost_bare _ _ _
      simp only [callNative, ran]
      cases p.runNative i params returns m with
      | mk outcome ended =>
          cases outcome with
          | ok count => rfl
          | error a =>
              simp only [Machine.reportAbort]
              split <;> rfl

theorem nativeCall_bare (f : FuncRef) (h : Handover) (m : Machine) :
    p.nativeCall f h m.bare = ((p.nativeCall f h m).1, (p.nativeCall f h m).2.bare) := by
  rw [nativeCall, nativeCall, callNative_bare]
  cases p.callNative f h.params h.visibleReturns m with
  | mk outcome ended =>
      cases outcome with
      | ok count => rfl
      | error a => exact congrArg _ (ended.bare_raise a).symm

theorem runHostEntry_bare (e : HostEntry) (f : FuncRef) (h : Handover) (m : Machine) :
    runHostEntry e f h m.bare = ((runHostEntry e f h m).1, (runHostEntry e f h m).2.bare) := by
  have noted : noteEntry f h m.bare = (noteEntry f h m).bare := by
    rw [noteEntry, noteEntry, Machine.text_bare]
    rfl
  rw [runHostEntry, runHostEntry, noted, ← Machine.bare_pushEmpties]
  cases e.raises with
  | none => rfl
  | some a => exact congrArg _ (((noteEntry f h m).pushEmpties e.pushes).bare_raise a).symm

theorem settle_bare (depth : Nat) (code : Int32) (ended : Machine) :
    settle depth code ended.bare =
      ((settle depth code ended).1, (settle depth code ended).2.bare) := by
  have pending : (ended.bare.popTo depth).pending = (ended.popTo depth).pending := rfl
  rw [settle, settle]
  split
  · simp only [pending, Machine.bare_clearPending, Machine.bare_popTo]
  · rfl

end Program

end CallProtocol
