import CallProtocol.Proofs.Execution.Activation

/-!
# What a run comes to

`Reaches p τ₀ m₀ past τ m` says that performing `τ₀` on `m₀` comes to perform `τ` on
`m`, be it that the whole run ends or not. If `τ` is what remains of a body, `past` are
the states of its activation before each instruction so far, the latest one first. So
the number of the next instruction is the length of `past`.
-/

namespace CallProtocol

/-- Performing `τ₀` on `m₀` comes to perform a task on a machine. -/
inductive Reaches (p : Program) (τ₀ : Task) (m₀ : Machine) :
    List Activation → Task → Machine → Prop where
  | start : Reaches p τ₀ m₀ [] τ₀ m₀
  | begun {past : List Activation} {code : Code} {f : FuncRef} {name : String} {h : Handover}
    {m m₁ : Machine} {fr : Frame}
    (prior : Reaches p τ₀ m₀ past (.entry (.compiled code) f name h) m)
    (room : m.push code.plan.layout h.params = .ok (fr, m₁)) :
    Reaches p τ₀ m₀ [] (.body code.plan.steps (.start code name h fr)) m₁
  | quiet {past : List Activation} {s : Step} {rest : List Step} {a a' : Activation}
    {m m₁ : Machine} (prior : Reaches p τ₀ m₀ past (.body (s :: rest) a) m)
    (step : a.quiet m s = some (a', m₁)) :
    Reaches p τ₀ m₀ (a :: past) (.body rest a') m₁
  | called {past : List Activation} {c : CallSite} {rest : List Step} {a : Activation}
    {m m₁ : Machine} {τ : Task} (prior : Reaches p τ₀ m₀ past (.body (.call c :: rest) a) m)
    (callee : p.callee? a c (a.beforeCall m c) = some (τ, m₁)) :
    Reaches p τ₀ m₀ [] τ m₁
  | resumed {past : List Activation} {c : CallSite} {rest : List Step} {a : Activation}
    {m m₁ m₂ : Machine} {τ : Task} {r : Int32}
    (prior : Reaches p τ₀ m₀ past (.body (.call c :: rest) a) m)
    (callee : p.callee? a c (a.beforeCall m c) = some (τ, m₁)) (call : Execution p τ m₁ r m₂)
    (resumes : 0 ≤ r) (kind : c.kind = .call) :
    Reaches p τ₀ m₀ (a :: past) (.body rest (a.afterCall m₂ c)) m₂

def Task.At (n : Nat) : Task → Prop
  | .body steps a => ∃ code : Code, a.proto = code.proto ∧ steps = code.plan.steps.drop n
  | _ => True

namespace Task

theorem At.next {n : Nat} {s : Step} {rest : List Step} {a a' : Activation}
    (h : (Task.body (s :: rest) a).At n) (same : a.SameBody a') :
    (Task.body rest a').At (n + 1) := by
  obtain ⟨code, hproto, hsteps⟩ := h
  refine ⟨code, same.proto.trans hproto, ?_⟩
  rw [← List.drop_drop, ← hsteps]
  rfl

theorem At.step {n : Nat} {s : Step} {rest : List Step} {a : Activation}
    (h : (Task.body (s :: rest) a).At n) :
    ∃ i t t', a.proto.code[n]? = some i ∧ a.proto.Carries n t ∧
      t.next a.proto n i (a.proto.code.drop (n + 1)) = .ok (s, t') := by
  obtain ⟨code, hproto, hsteps⟩ := h
  have hget : code.plan.steps[n]? = some s := by
    rw [← List.head?_drop, ← hsteps]
    rfl
  rw [hproto]
  exact Prototype.step_instr code.planned hget

theorem At.site {n : Nat} {c : CallSite} {rest : List Step} {a : Activation}
    (h : (Task.body (.call c :: rest) a).At n) :
    ∃ (i : Instr) (t t' : Planning), a.proto.code[n]? = some i ∧ t.Calls a.proto n i c t' := by
  obtain ⟨i, t, t', hi, -, hnext⟩ := h.step
  exact ⟨i, t, t', hi, (Planning.calls_of_next hnext).2⟩

theorem At.steps {n : Nat} {steps : List Step} {a : Activation} {i : Instr}
    (h : (Task.body steps a).At n) (hi : a.proto.code[n]? = some i) :
    ∃ s rest, steps = s :: rest := by
  obtain ⟨code, hproto, hsteps⟩ := h
  rw [hproto] at hi
  have hn : n < code.plan.steps.length := by
    rw [Prototype.length_steps code.planned]
    exact (List.getElem?_eq_some_iff.1 hi).1
  exact ⟨_, _, hsteps.trans (List.drop_eq_getElem_cons hn)⟩

end Task

namespace Reaches

variable {p : Program} {e : Entry} {f : FuncRef} {name : String} {h : Handover} {m₀ : Machine}

/-- What holds of a body when it begins, and is kept by its steps and by the calls that it
resumes from, holds of every body that is reached. -/
theorem invariant {P : List Activation → List Step → Activation → Machine → Prop}
    {past : List Activation} {steps : List Step} {a : Activation} {m : Machine}
    (reached : Reaches p (.entry e f name h) m₀ past (.body steps a) m)
    (begins : ∀ {code : Code} {name : String} {h : Handover} {m m₁ : Machine} {fr : Frame},
      m.push code.plan.layout h.params = .ok (fr, m₁) →
        P [] code.plan.steps (.start code name h fr) m₁)
    (continues : ∀ {past : List Activation} {s : Step} {rest : List Step} {a a' : Activation}
      {m m₁ : Machine}, Reaches p (.entry e f name h) m₀ past (.body (s :: rest) a) m →
        P past (s :: rest) a m → a.quiet m s = some (a', m₁) → P (a :: past) rest a' m₁)
    (resumes : ∀ {past : List Activation} {c : CallSite} {rest : List Step} {a : Activation}
      {m m₁ m₂ : Machine} {τ : Task} {r : Int32},
      Reaches p (.entry e f name h) m₀ past (.body (.call c :: rest) a) m →
        P past (.call c :: rest) a m → p.callee? a c (a.beforeCall m c) = some (τ, m₁) →
          Execution p τ m₁ r m₂ → 0 ≤ r → c.kind = .call →
            P (a :: past) rest (a.afterCall m₂ c) m₂) :
    P past steps a m := by
  generalize hτ : Task.body steps a = τ at reached
  induction reached generalizing steps a with
  | start => cases hτ
  | begun prior room ih =>
      cases hτ
      exact begins room
  | quiet prior step ih =>
      cases hτ
      exact continues prior (ih rfl) step
  | called prior callee ih =>
      subst hτ
      exact (Program.callee?_ne_body callee).elim
  | resumed prior callee call hr kind ih =>
      cases hτ
      exact resumes prior (ih rfl) callee call hr kind

/-- From an entry on, a body is always that of compiled code. -/
theorem position {past : List Activation} {steps : List Step} {a : Activation} {m : Machine}
    (reached : Reaches p (.entry e f name h) m₀ past (.body steps a) m) :
    (Task.body steps a).At past.length := by
  refine reached.invariant (P := fun past steps a _ => (Task.body steps a).At past.length) ?_ ?_ ?_
  · intro code name h m m₁ fr room
    exact ⟨code, rfl, rfl⟩
  · intro past s rest a a' m m₁ prior position step
    exact position.next (Activation.sameBody_quiet step)
  · intro past c rest a m m₁ m₂ τ r prior position callee call hr kind
    exact position.next (a.sameBody_refresh m₂ _)

end Reaches

end CallProtocol
