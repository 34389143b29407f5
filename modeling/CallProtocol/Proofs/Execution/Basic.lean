import CallProtocol.Run

/-!
# Executions

A run is a tree: a body runs its steps one after the other, and a call in it has a
run of its own below. `Execution p τ m r m'` is the type of these trees for a task
`τ` that begins on the machine `m` and ends with the result code `r` on the
machine `m'`. A node names the rule by which its task is performed, so what
happened in a run is read off the tree by recursion. There is no bound on the
nesting of entries in it.

Where a call leads is found before it is made: `Program.callee?` is the task that
is performed for a call site, and the machine it begins on.
-/

namespace CallProtocol

inductive Task where
  /-- The entry `e` is called for the function `f`, which is known to it as `name`. -/
  | entry (e : Entry) (f : FuncRef) (name : String) (h : Handover)
  /-- Compiled code calls a native. -/
  | native (f : FuncRef) (h : Handover)
  | null
  | body (steps : List Step) (a : Activation)

namespace Task

def handover? : Task → Option Handover
  | entry _ _ _ h => some h
  | native _ h => some h
  | null => none
  | body _ _ => none

end Task

namespace Activation

/-- The activation and the machine after a step that neither calls nor leaves the
body. -/
def quiet (a : Activation) (m : Machine) : Step → Option (Activation × Machine)
  | .plain op => some (a.plain m op)
  | .stage slot params => if a.hasRoom slot params then some (a.stage m slot params, m) else none
  | .call _ => none
  | .result _ => some (a, m)
  | .ret site => if site.final then none else some (a, a.giveBack m site)

/-- The machine when the call is made: the registers that are passed by address
are in their slots. -/
def beforeCall (a : Activation) (m : Machine) (c : CallSite) : Machine := a.flush m (a.inOuts c)

def afterCall (a : Activation) (m : Machine) (c : CallSite) : Activation :=
  a.refresh m (a.inOuts c ++ resultRegs c)

theorem assign_cases (a : Activation) (m : Machine) (b : Bank) (r : Nat) (x : b.Content) :
    (b.isCached = true ∧ a.assign m b r x = ({ a with locals := a.locals.set b r x }, m)) ∨
      (b.isCached = false ∧ a.assign m b r x = (a, m.store (a.slot b r) ⟨b, x⟩)) := by
  rw [assign]
  cases b.isCached with
  | true => exact .inl ⟨rfl, rfl⟩
  | false => exact .inr ⟨rfl, rfl⟩

/-- A plain instruction writes one register, if it does anything. -/
theorem plain_cases (a : Activation) (m : Machine) (op : PlainOp) :
    a.plain m op = (a, m) ∨ ∃ b r x, a.plain m op = a.assign m b r x := by
  cases op with
  | nop => exact .inl rfl
  | assign b r source =>
      rw [plain]
      split
      · exact .inr ⟨b, r, _, rfl⟩
      · exact .inl rfl
  | addInts r x y => exact .inr ⟨.int, r, _, rfl⟩
  | addFloats r x y => exact .inr ⟨.float, r, _, rfl⟩

theorem quiet_cases {a a' : Activation} {m m' : Machine} {s : Step}
    (h : a.quiet m s = some (a', m')) :
    (∃ op, s = .plain op ∧ a.plain m op = (a', m')) ∨
      (∃ slot params, s = .stage slot params ∧ a.hasRoom slot params = true ∧
        a' = a.stage m slot params ∧ m' = m) ∨
      (∃ spec, s = .result spec ∧ a' = a ∧ m' = m) ∨
      ∃ site, s = .ret site ∧ site.final = false ∧ a' = a ∧ m' = a.giveBack m site := by
  cases s with
  | plain op => exact .inl ⟨op, rfl, Option.some.inj h⟩
  | stage slot params =>
      simp only [quiet] at h
      split at h
      · next room =>
          cases h
          exact .inr (.inl ⟨slot, params, rfl, room, rfl, rfl⟩)
      · cases h
  | call c => cases h
  | result spec =>
      cases h
      exact .inr (.inr (.inl ⟨spec, rfl, rfl, rfl⟩))
  | ret site =>
      simp only [quiet] at h
      split at h
      · cases h
      · next final =>
          cases h
          exact .inr (.inr (.inr ⟨site, rfl, Bool.eq_false_iff.2 final, rfl, rfl⟩))

end Activation

namespace Program

/-- A call of a script from compiled code, if the script has an entry. The call is
counted. -/
def scriptTask (p : Program) (f : FuncRef) (h : Handover) (m : Machine) : Option (Task × Machine) :=
  (p.head f).entry.map fun e =>
    (.entry e f (p.name f) h, { m with callCount := m.callCount + 1 })

def functionTask (p : Program) (native : Bool) (f : FuncRef) (h : Handover) (m : Machine) :
    Option (Task × Machine) :=
  if native then some (.native f h, m) else p.scriptTask f h m

def callee? (p : Program) (a : Activation) (c : CallSite) (m : Machine) : Option (Task × Machine) :=
  match c.callee with
  | .static k native =>
    (Pointer.function? (a.proto.constants.get .pointer k)).bind fun f =>
      p.functionTask native f (a.handoverFor c) m
  | .register r =>
    if Pointer.isNull (a.read m .pointer r) then some (.null, m)
    else
      (Pointer.function? (a.read m .pointer r)).bind fun f =>
        p.functionTask f.isNative f (a.handoverFor c) m

end Program

/-- A run of a task from a machine to a result code and a machine. -/
inductive Execution (p : Program) : Task → Machine → Int32 → Machine → Type where
  | stub (f : FuncRef) (name : String) (h : Handover) (m : Machine) :
    Execution p (.entry .stub f name h) m unwoundCode (m.raise (Program.stubAbort name))
  | host (e : HostEntry) (f : FuncRef) (name : String) (h : Handover) (m : Machine) :
    Execution p (.entry (.host e) f name h) m e.result (Program.runHostEntry e f h m).2
  | refused {code : Code} {f : FuncRef} {name : String} {h : Handover} {m : Machine} {e : FillError}
    (full : m.push code.plan.layout h.params = .error e) :
    Execution p (.entry (.compiled code) f name h) m unwoundCode (m.raise (e.abort.through name))
  | begun {code : Code} {f : FuncRef} {name : String} {h : Handover} {m : Machine} {fr : Frame}
    {m₁ : Machine} {r : Int32} {m' : Machine}
    (room : m.push code.plan.layout h.params = .ok (fr, m₁))
    (body : Execution p (.body code.plan.steps (.start code name h fr)) m₁ r m') :
    Execution p (.entry (.compiled code) f name h) m r m'
  | native {f : FuncRef} {h : Handover} {m : Machine} {r : Int32} {m' : Machine}
    (ran : p.nativeCall f h m = (r, m')) :
    Execution p (.native f h) m r m'
  | null (m : Machine) : Execution p .null m unwoundCode (m.raise Program.nullAbort)
  | fallOff (a : Activation) (m : Machine) : Execution p (.body [] a) m 0 m.pop
  | quiet {s : Step} {rest : List Step} {a : Activation} {m : Machine} {a' : Activation}
    {m₁ : Machine} {r : Int32} {m' : Machine}
    (step : a.quiet m s = some (a', m₁))
    (next : Execution p (.body rest a') m₁ r m') :
    Execution p (.body (s :: rest) a) m r m'
  | returned {site : ReturnSite} (rest : List Step) (a : Activation) (m : Machine)
    (final : site.final = true) :
    Execution p (.body (.ret site :: rest) a) m (a.finalCode site) (a.giveBack m site).pop
  | unwound {c : CallSite} {rest : List Step} {a : Activation} {m : Machine} {τ : Task}
    {m₁ : Machine} {r : Int32} {m₂ : Machine}
    (callee : p.callee? a c (a.beforeCall m c) = some (τ, m₁))
    (call : Execution p τ m₁ r m₂) (negative : r < 0) :
    Execution p (.body (.call c :: rest) a) m r (m₂.unwind a.name)
  | tailed {c : CallSite} {rest : List Step} {a : Activation} {m : Machine} {τ : Task}
    {m₁ : Machine} {r : Int32} {m₂ : Machine}
    (callee : p.callee? a c (a.beforeCall m c) = some (τ, m₁))
    (call : Execution p τ m₁ r m₂) (resumes : 0 ≤ r) (kind : c.kind = .tail) :
    Execution p (.body (.call c :: rest) a) m r m₂.pop
  | resumed {c : CallSite} {rest : List Step} {a : Activation} {m : Machine} {τ : Task}
    {m₁ : Machine} {r : Int32} {m₂ : Machine} {r' : Int32} {m' : Machine}
    (callee : p.callee? a c (a.beforeCall m c) = some (τ, m₁))
    (call : Execution p τ m₁ r m₂) (resumes : 0 ≤ r) (kind : c.kind = .call)
    (next : Execution p (.body rest (a.afterCall m₂ c)) m₂ r' m') :
    Execution p (.body (.call c :: rest) a) m r' m'

namespace Program

theorem callee?_of_static {p : Program} {a : Activation} {c : CallSite} {m : Machine} {k : Nat}
    {native : Bool} (h : c.callee = .static k native) :
    p.callee? a c m =
      (Pointer.function? (a.proto.constants.get .pointer k)).bind fun f =>
        p.functionTask native f (a.handoverFor c) m := by
  simp only [callee?, h]

theorem callee?_of_register {p : Program} {a : Activation} {c : CallSite} {m : Machine} {r : Nat}
    (h : c.callee = .register r) :
    p.callee? a c m =
      if Pointer.isNull (a.read m .pointer r) then some (.null, m)
      else
        (Pointer.function? (a.read m .pointer r)).bind fun f =>
          p.functionTask f.isNative f (a.handoverFor c) m := by
  simp only [callee?, h]

/-- A call of a function leads to a native on the same machine, or to the entry of
a script on a machine that has counted the call. -/
theorem functionTask_cases {p : Program} {native : Bool} {f : FuncRef} {h : Handover}
    {m m₁ : Machine} {τ : Task} (hτ : p.functionTask native f h m = some (τ, m₁)) :
    (τ = .native f h ∧ m₁ = m) ∨
      ∃ e, (p.head f).entry = some e ∧ τ = .entry e f (p.name f) h ∧
        m₁ = { m with callCount := m.callCount + 1 } := by
  cases native with
  | true =>
      simp only [functionTask, if_true, Option.some.injEq, Prod.mk.injEq] at hτ
      exact .inl ⟨hτ.1.symm, hτ.2.symm⟩
  | false =>
      have hscript : p.scriptTask f h m = some (τ, m₁) := hτ
      obtain ⟨e, he, heq⟩ := Option.map_eq_some_iff.1 hscript
      obtain ⟨rfl, rfl⟩ := Prod.mk.inj heq
      exact .inr ⟨e, he, rfl, rfl⟩

/-- Where a call can lead: nowhere but to a null pointer, a native, or the entry of
a script. A callee is handed what the call site prepares. -/
theorem callee?_cases {p : Program} {a : Activation} {c : CallSite} {m m₁ : Machine} {τ : Task}
    (hτ : p.callee? a c m = some (τ, m₁)) :
    (τ = .null ∧ m₁ = m) ∨ (∃ f, τ = .native f (a.handoverFor c) ∧ m₁ = m) ∨
      ∃ f e, (p.head f).entry = some e ∧ τ = .entry e f (p.name f) (a.handoverFor c) ∧
        m₁ = { m with callCount := m.callCount + 1 } := by
  cases hc : c.callee with
  | static k native =>
      rw [callee?_of_static hc] at hτ
      obtain ⟨f, -, hf⟩ := Option.bind_eq_some_iff.1 hτ
      rcases functionTask_cases hf with ⟨hn, hm⟩ | ⟨e, he, hn, hm⟩
      · exact .inr (.inl ⟨f, hn, hm⟩)
      · exact .inr (.inr ⟨f, e, he, hn, hm⟩)
  | register r =>
      rw [callee?_of_register hc] at hτ
      split at hτ
      · obtain ⟨rfl, rfl⟩ := Prod.mk.inj (Option.some.inj hτ)
        exact .inl ⟨rfl, rfl⟩
      · obtain ⟨f, -, hf⟩ := Option.bind_eq_some_iff.1 hτ
        rcases functionTask_cases hf with ⟨hn, hm⟩ | ⟨e, he, hn, hm⟩
        · exact .inr (.inl ⟨f, hn, hm⟩)
        · exact .inr (.inr ⟨f, e, he, hn, hm⟩)

theorem callee?_ne_body {p : Program} {a a' : Activation} {c : CallSite} {m m₁ : Machine}
    {steps : List Step} (h : p.callee? a c m = some (.body steps a', m₁)) : False := by
  rcases callee?_cases h with ⟨hτ, -⟩ | ⟨f, hτ, -⟩ | ⟨f, e, -, hτ, -⟩
  · cases hτ
  · cases hτ
  · cases hτ

end Program

end CallProtocol
