import CallProtocol.Proofs.Execution.Stack

/-!
# The call chain

`Nested p τ₀ m₀ chain τ m` says that performing `τ₀` on `m₀` comes to perform `τ` on `m`,
be it that the whole run ends or not, and that the activations in `chain` are then in the
middle of a call, the innermost one first. An activation is in the middle of its tail
calls too, since the callee runs on top of its frame.

The relation has two kinds of steps. A function goes on by itself, which leaves the chain
as it is, or it calls another one and joins the chain.
-/

namespace CallProtocol

open Machine

/-- A function goes on by itself: its body begins, does a step that neither calls nor
leaves it, or is resumed by a callee. -/
inductive Advances (p : Program) : Task → Machine → Task → Machine → Prop where
  | begun {code : Code} {f : FuncRef} {name : String} {h : Handover} {m m₁ : Machine} {fr : Frame}
    (room : m.push code.plan.layout h.params = .ok (fr, m₁)) :
    Advances p (.entry (.compiled code) f name h) m
      (.body code.plan.steps (.start code name h fr)) m₁
  | quiet {s : Step} {rest : List Step} {a a' : Activation} {m m₁ : Machine}
    (step : a.quiet m s = some (a', m₁)) :
    Advances p (.body (s :: rest) a) m (.body rest a') m₁
  | resumed {c : CallSite} {rest : List Step} {a : Activation} {m m₁ m₂ : Machine} {τ : Task}
    {r : Int32} (callee : p.callee? a c (a.beforeCall m c) = some (τ, m₁))
    (call : Execution p τ m₁ r m₂) (resumes : 0 ≤ r) (kind : c.kind = .call) :
    Advances p (.body (.call c :: rest) a) m (.body rest (a.afterCall m₂ c)) m₂

/-- Performing `τ₀` on `m₀` comes to perform a task on a machine within a chain of
calls. -/
inductive Nested (p : Program) (τ₀ : Task) (m₀ : Machine) :
    List Activation → Task → Machine → Prop where
  | start : Nested p τ₀ m₀ [] τ₀ m₀
  | advanced {chain : List Activation} {τ τ' : Task} {m m' : Machine}
    (prior : Nested p τ₀ m₀ chain τ m) (step : Advances p τ m τ' m') :
    Nested p τ₀ m₀ chain τ' m'
  | called {chain : List Activation} {c : CallSite} {rest : List Step} {a : Activation}
    {m m₁ : Machine} {τ : Task} (prior : Nested p τ₀ m₀ chain (.body (.call c :: rest) a) m)
    (callee : p.callee? a c (a.beforeCall m c) = some (τ, m₁)) :
    Nested p τ₀ m₀ (a :: chain) τ m₁

namespace Nested

variable {p : Program} {τ τ₀ τ₁ : Task} {m m₀ m₁ : Machine} {chain : List Activation}

theorem trans {chain' : List Activation} (h : Nested p τ₀ m₀ chain τ m)
    (h' : Nested p τ m chain' τ₁ m₁) : Nested p τ₀ m₀ (chain' ++ chain) τ₁ m₁ := by
  induction h' with
  | start => exact h
  | advanced prior step ih => exact ih.advanced step
  | called prior callee ih => exact ih.called callee

theorem of_advances (step : Advances p τ₀ m₀ τ m) (h : Nested p τ m chain τ₁ m₁) :
    Nested p τ₀ m₀ chain τ₁ m₁ := by
  have h' := (start.advanced step).trans h
  rwa [List.append_nil] at h'

theorem of_callee {c : CallSite} {rest : List Step} {a : Activation}
    (callee : p.callee? a c (a.beforeCall m₀ c) = some (τ, m)) (h : Nested p τ m chain τ₁ m₁) :
    Nested p (.body (.call c :: rest) a) m₀ (chain ++ [a]) τ₁ m₁ :=
  (start.called callee).trans h

end Nested

def Task.NoHost (p : Program) (τ : Task) (m : Machine) : Prop :=
  ∀ chain τ₁ m₁, Nested p τ m chain τ₁ m₁ → ¬ τ₁.ofHost

namespace Task.NoHost

variable {p : Program} {τ τ₁ : Task} {m m₁ : Machine}

theorem advances (h : τ.NoHost p m) (step : Advances p τ m τ₁ m₁) : τ₁.NoHost p m₁ :=
  fun _ _ _ nested => h _ _ _ (nested.of_advances step)

theorem callee {c : CallSite} {rest : List Step} {a : Activation}
    (h : (Task.body (.call c :: rest) a).NoHost p m)
    (hτ : p.callee? a c (a.beforeCall m c) = some (τ₁, m₁)) : τ₁.NoHost p m₁ :=
  fun _ _ _ nested => h _ _ _ (nested.of_callee hτ)

end Task.NoHost

theorem Nested.noHost {p : Program} {τ τ₀ : Task} {m m₀ : Machine} {chain : List Activation}
    (h : Nested p τ₀ m₀ chain τ m) (noHost : τ₀.NoHost p m₀) : τ.NoHost p m :=
  fun _ _ _ nested => noHost _ _ _ (h.trans nested)

theorem Advances.execution {p : Program} {τ τ' : Task} {m m' ended : Machine} {r : Int32}
    (h : Advances p τ m τ' m') (x : Execution p τ m r ended) :
    Nonempty (Execution p τ' m' r ended) := by
  cases h with
  | begun room =>
      cases x with
      | refused full =>
          rw [room] at full
          cases full
      | begun room' body =>
          obtain ⟨rfl, rfl⟩ := Prod.mk.inj (Except.ok.inj (room.symm.trans room'))
          exact ⟨body⟩
  | quiet step =>
      cases x with
      | quiet step' next =>
          obtain ⟨rfl, rfl⟩ := Prod.mk.inj (Option.some.inj (step.symm.trans step'))
          exact ⟨next⟩
      | returned rest a m final =>
          rw [Activation.quiet, if_pos final] at step
          cases step
      | unwound callee call negative => cases step
      | tailed callee call resumes kind => cases step
      | resumed callee call resumes kind next => cases step
  | resumed callee call resumes kind =>
      cases x with
      | quiet step next => cases step
      | unwound callee' call' negative =>
          obtain ⟨rfl, rfl⟩ := Prod.mk.inj (Option.some.inj (callee.symm.trans callee'))
          obtain ⟨rfl, -⟩ := call.outcome_unique call'
          exact absurd negative (Int32.not_lt.2 resumes)
      | tailed callee' call' resumes' kind' =>
          rw [kind] at kind'
          cases kind'
      | resumed callee' call' resumes' kind' next =>
          obtain ⟨rfl, rfl⟩ := Prod.mk.inj (Option.some.inj (callee.symm.trans callee'))
          obtain ⟨-, rfl⟩ := call.outcome_unique call'
          exact ⟨next⟩

/-- A body that ends has called its callee, and if the callee unwinds it unwinds too. -/
theorem Execution.callee {p : Program} {c : CallSite} {rest : List Step} {a : Activation}
    {m m₁ m' : Machine} {τ : Task} {r : Int32} (x : Execution p (.body (.call c :: rest) a) m r m')
    (hτ : p.callee? a c (a.beforeCall m c) = some (τ, m₁)) :
    ∃ r₁ m₂, Nonempty (Execution p τ m₁ r₁ m₂) ∧ (r₁ < 0 → r = r₁ ∧ m' = m₂.unwind a.name) := by
  cases x with
  | quiet step next => cases step
  | unwound callee call negative =>
      obtain ⟨rfl, rfl⟩ := Prod.mk.inj (Option.some.inj (hτ.symm.trans callee))
      exact ⟨_, _, ⟨call⟩, fun _ => ⟨rfl, rfl⟩⟩
  | tailed callee call resumes kind =>
      obtain ⟨rfl, rfl⟩ := Prod.mk.inj (Option.some.inj (hτ.symm.trans callee))
      exact ⟨_, _, ⟨call⟩, fun negative => absurd negative (Int32.not_lt.2 resumes)⟩
  | resumed callee call resumes kind next =>
      obtain ⟨rfl, rfl⟩ := Prod.mk.inj (Option.some.inj (hτ.symm.trans callee))
      exact ⟨_, _, ⟨call⟩, fun negative => absurd negative (Int32.not_lt.2 resumes)⟩

theorem Execution.hostFrames_eq_zero_of_nested {p : Program} {τ : Task} {m m' : Machine}
    {r : Int32} (x : Execution p τ m r m') (noHost : τ.NoHost p m) : x.hostFrames = 0 := by
  induction x with
  | stub f name h m => rfl
  | host e f name h m => exact absurd trivial (noHost _ _ _ .start)
  | refused full => rfl
  | begun room body ih => exact ih fun _ _ _ h => noHost _ _ _ (h.of_advances (.begun room))
  | native ran => rfl
  | null m => rfl
  | fallOff a m => rfl
  | quiet step next ih => exact ih fun _ _ _ h => noHost _ _ _ (h.of_advances (.quiet step))
  | returned rest a m final => rfl
  | unwound callee call negative ih => exact ih fun _ _ _ h => noHost _ _ _ (h.of_callee callee)
  | tailed callee call resumes kind ih => exact ih fun _ _ _ h => noHost _ _ _ (h.of_callee callee)
  | resumed callee call resumes kind next ihcall ihnext =>
      rw [hostFrames, ihcall fun _ _ _ h => noHost _ _ _ (h.of_callee callee),
        ihnext fun _ _ _ h => noHost _ _ _ (h.of_advances (.resumed callee call resumes kind))]

theorem Nested.not_ofHost {p : Program} (noHost : ∀ f e, (p.head f).entry ≠ some (.host e))
    {τ τ₀ : Task} {m m₀ : Machine} {chain : List Activation} (h : Nested p τ₀ m₀ chain τ m)
    (hτ₀ : ¬ τ₀.ofHost) : ¬ τ.ofHost := by
  cases h with
  | start => exact hτ₀
  | advanced prior step => cases step <;> exact id
  | called prior callee =>
      rcases Program.callee?_cases callee with ⟨rfl, -⟩ | ⟨f, rfl, -⟩ | ⟨f, e, he, rfl, -⟩
      · exact id
      · exact id
      · cases e with
        | stub => exact id
        | compiled code => exact id
        | host e => exact absurd he (noHost f e)

theorem Execution.hostFrames_eq_zero {p : Program}
    (noHost : ∀ f e, (p.head f).entry ≠ some (.host e)) {τ : Task} {m m' : Machine} {r : Int32}
    (x : Execution p τ m r m') (hτ : ¬ τ.ofHost) : x.hostFrames = 0 :=
  x.hostFrames_eq_zero_of_nested fun _ _ _ nested => nested.not_ofHost noHost hτ

end CallProtocol
