import CallProtocol.Proofs.Execution.Nested

/-!
# The moments of a run

`Moment p τ₀ m₀ live s` says that `s` is the machine at some moment of the run that performs
`τ₀` on `m₀`, and that the activations in `live` have begun then and not yet returned, the
innermost one first. The activations that are in the middle of a call are among them, and
so is the one whose body is being performed.

There is a moment for every machine that a run goes through, also if the run has no end.
A moment of a part of a run is one of the whole, so what holds at all moments of a run holds
as long as any call in it takes.
-/

namespace CallProtocol

open Machine

namespace Machine

def hostVisited (args : Arguments) (returns : List Descriptor) : Host → Machine → List Machine
  | .finish _, m => [m]
  | .abort _, m => [m]
  | .panic _, m => [m]
  | .put slot b xs next, m =>
    m :: match returns[slot]? with
      | some d => hostVisited args returns next (m.write (d.put b xs))
      | none => []
  | .arg i next, m => m :: hostVisited args returns (next (args.get? m.text i)) m
  | .load s next, m => m :: hostVisited args returns (next (m.load s)) m
  | .store s x next, m => m :: hostVisited args returns next (m.store s ⟨s.bank, x⟩)
  | .note e next, m => m :: hostVisited args returns next { m with log := m.log ++ [e] }

theorem sameContext_of_mem_hostVisited {args : Arguments} {returns : List Descriptor} {host : Host}
    {m s : Machine} (h : s ∈ hostVisited args returns host m) : SameContext m s := by
  induction host generalizing m with
  | finish n =>
      rw [List.mem_singleton.1 h]
      exact .refl m
  | abort a =>
      rw [List.mem_singleton.1 h]
      exact .refl m
  | panic p =>
      rw [List.mem_singleton.1 h]
      exact .refl m
  | put slot b xs next ih =>
      rcases List.mem_cons.1 h with rfl | h
      · exact .refl s
      · split at h
        · exact (m.sameContext_write _).trans (ih h)
        · cases h
  | arg i next ih =>
      rcases List.mem_cons.1 h with rfl | h
      · exact .refl s
      · exact ih _ h
  | load s' next ih =>
      rcases List.mem_cons.1 h with rfl | h
      · exact .refl s
      · exact ih _ h
  | store s' x next ih =>
      rcases List.mem_cons.1 h with rfl | h
      · exact .refl s
      · exact (m.sameContext_store _ _).trans (ih h)
  | note e next ih =>
      have noted : SameContext m { m with log := m.log ++ [e] } := ⟨rfl, rfl, rfl, rfl, rfl, rfl, rfl⟩
      rcases List.mem_cons.1 h with rfl | h
      · exact .refl s
      · exact noted.trans (ih h)

end Machine

/-- The machines that a native goes through. A script is refused at once. -/
def Program.nativeVisited (p : Program) (f : FuncRef) (params : List Value)
    (returns : List Descriptor) (m : Machine) : List Machine :=
  match f with
  | .script _ => []
  | .native i =>
    hostVisited ⟨params, (p.native i).defaults⟩ returns
      ((p.native i).behaviour (p.invocation i params returns m)) (beforeNative i m)

def Task.running : Task → List Activation
  | .body _ a => [a]
  | _ => []

theorem Task.ownFrames_eq (τ : Task) : τ.ownFrames = (τ.running.map (·.frame)).length := by
  cases τ <;> rfl

theorem Program.running_callee? {p : Program} {a : Activation} {c : CallSite} {m m₁ : Machine}
    {τ : Task} (callee : p.callee? a c m = some (τ, m₁)) : τ.running = [] := by
  rcases callee?_cases callee with ⟨rfl, -⟩ | ⟨f, rfl, -⟩ | ⟨f, e, -, rfl, -⟩
  · rfl
  · rfl
  · rfl

/-- A moment of a run: the machine, and the activations that have begun and not yet
returned. -/
inductive Moment (p : Program) (τ₀ : Task) (m₀ : Machine) : List Activation → Machine → Prop where
  | performing {chain : List Activation} {τ : Task} {m : Machine}
    (nested : Nested p τ₀ m₀ chain τ m) : Moment p τ₀ m₀ (τ.running ++ chain) m
  /-- The arguments of a call are in their slots. -/
  | calling {chain : List Activation} {c : CallSite} {rest : List Step} {a : Activation}
    {m : Machine} (nested : Nested p τ₀ m₀ chain (.body (.call c :: rest) a) m) :
    Moment p τ₀ m₀ (a :: chain) (a.beforeCall m c)
  /-- A native is in the middle of what it does. -/
  | hosting {chain : List Activation} {f : FuncRef} {h : Handover} {m s : Machine}
    (nested : Nested p τ₀ m₀ chain (.native f h) m)
    (visited : s ∈ p.nativeVisited f h.params h.visibleReturns m) : Moment p τ₀ m₀ chain s
  /-- An entry of the host has pushed some of its frames. -/
  | pushing {chain : List Activation} {e : HostEntry} {f : FuncRef} {name : String} {h : Handover}
    {m : Machine} (nested : Nested p τ₀ m₀ chain (.entry (.host e) f name h) m) (count : Nat) :
    Moment p τ₀ m₀ chain ((Program.noteEntry f h m).pushEmpties count)
  /-- A value has been returned, and the frame has not been given up yet. -/
  | returning {chain : List Activation} {site : ReturnSite} {rest : List Step} {a : Activation}
    {m : Machine} (nested : Nested p τ₀ m₀ chain (.body (.ret site :: rest) a) m) :
    Moment p τ₀ m₀ (a :: chain) (a.giveBack m site)
  | ended {chain : List Activation} {τ : Task} {m : Machine} {r : Int32} {m' : Machine}
    (nested : Nested p τ₀ m₀ chain τ m) (run : Execution p τ m r m') : Moment p τ₀ m₀ chain m'

namespace Moment

variable {p : Program} {τ τ₀ : Task} {m m₀ s : Machine} {chain live : List Activation}

theorem within (nested : Nested p τ₀ m₀ chain τ m) (h : Moment p τ m live s) :
    Moment p τ₀ m₀ (live ++ chain) s := by
  cases h with
  | performing inner =>
      rw [List.append_assoc]
      exact .performing (nested.trans inner)
  | calling inner => exact .calling (nested.trans inner)
  | hosting inner visited => exact .hosting (nested.trans inner) visited
  | pushing inner count => exact .pushing (nested.trans inner) count
  | returning inner => exact .returning (nested.trans inner)
  | ended inner run => exact .ended (nested.trans inner) run

theorem of_nested (nested : Nested p τ₀ m₀ chain τ m) (h : s = m ∨ ∃ live, Moment p τ m live s) :
    ∃ live, Moment p τ₀ m₀ live s := by
  rcases h with rfl | ⟨live, moment⟩
  · exact ⟨_, .performing nested⟩
  · exact ⟨_, moment.within nested⟩

theorem of_advances (step : Advances p τ₀ m₀ τ m) (h : s = m ∨ ∃ live, Moment p τ m live s) :
    ∃ live, Moment p τ₀ m₀ live s :=
  of_nested (.advanced .start step) h

end Moment

/-- A run goes through nothing but its moments. -/
theorem Execution.exists_moment {p : Program} {τ : Task} {m : Machine} {r : Int32} {m' s : Machine}
    (x : Execution p τ m r m') (h : s ∈ x.visited) : ∃ live, Moment p τ m live s := by
  -- What a body visits by making a call, up to the moment when its callee has ended.
  have ofCall : ∀ {c : CallSite} {rest : List Step} {a : Activation} {m m₁ : Machine} {τ : Task}
      {past : List Machine}, p.callee? a c (a.beforeCall m c) = some (τ, m₁) →
        (s ∈ past → ∃ live, Moment p τ m₁ live s) → s ∈ a.beforeCall m c :: m₁ :: past →
          ∃ live, Moment p (.body (.call c :: rest) a) m live s := by
    intro c rest a m m₁ τ past callee ih hs
    rcases List.mem_cons.1 hs with rfl | hs
    · exact ⟨_, .calling .start⟩
    · exact Moment.of_nested (.called .start callee) ((List.mem_cons.1 hs).imp_right ih)
  induction x with
  | stub f name h m =>
      rw [List.mem_singleton.1 h]
      exact ⟨_, .ended .start (.stub f name _ m)⟩
  | host e f name h' m =>
      rcases List.mem_append.1 h with h | h
      · obtain ⟨k, -, rfl⟩ := List.mem_map.1 h
        exact ⟨_, .pushing .start (k + 1)⟩
      · rw [List.mem_singleton.1 h]
        exact ⟨_, .ended .start (.host e f name h' m)⟩
  | refused full =>
      rw [List.mem_singleton.1 h]
      exact ⟨_, .ended .start (.refused full)⟩
  | begun room body ih => exact Moment.of_advances (.begun room) ((List.mem_cons.1 h).imp_right ih)
  | native ran =>
      rw [List.mem_singleton.1 h]
      exact ⟨_, .ended .start (.native ran)⟩
  | null m =>
      rw [List.mem_singleton.1 h]
      exact ⟨_, .ended .start (.null m)⟩
  | fallOff a m =>
      rw [List.mem_singleton.1 h]
      exact ⟨_, .ended .start (.fallOff a m)⟩
  | quiet step next ih => exact Moment.of_advances (.quiet step) ((List.mem_cons.1 h).imp_right ih)
  | returned rest a m final =>
      rcases List.mem_cons.1 h with rfl | h
      · exact ⟨_, .returning .start⟩
      · rw [List.mem_singleton.1 h]
        exact ⟨_, .ended .start (.returned rest a m final)⟩
  | unwound callee call negative ih =>
      rcases List.mem_append.1 h with h | h
      · exact ofCall callee ih h
      · rw [List.mem_singleton.1 h]
        exact ⟨_, .ended .start (.unwound callee call negative)⟩
  | tailed callee call resumes kind ih =>
      rcases List.mem_append.1 h with h | h
      · exact ofCall callee ih h
      · rw [List.mem_singleton.1 h]
        exact ⟨_, .ended .start (.tailed callee call resumes kind)⟩
  | resumed callee call resumes kind next ihcall ihnext =>
      rcases List.mem_append.1 h with h | h
      · exact ofCall callee ihcall h
      · exact Moment.of_advances (.resumed callee call resumes kind) (.inr (ihnext h))

end CallProtocol
