import CallProtocol.Engine
import CallProtocol.Proofs.Execution.Lookups

/-!
# Entries of a table of functions

Installing an entry changes the entry of one function and nothing else that a run looks up.
Compiling a function installs code that its prototype alone decides, so what has been compiled
before has no part in it.
-/

namespace CallProtocol

theorem getD_modify {α : Type} (xs : List α) (i j : Nat) (f : α → α) (d : α) :
    (xs.modify i f).getD j d = if i = j ∧ j < xs.length then f (xs.getD j d) else xs.getD j d := by
  simp only [List.getD_eq_getElem?_getD, List.getElem?_modify]
  rcases Nat.lt_or_ge j xs.length with hj | hj
  · by_cases hij : i = j <;> simp [hij, hj]
  · simp [Nat.not_lt.2 hj]

namespace Program

def Declares (p : Program) : FuncRef → Prop
  | .script i => i < p.scripts.length
  | .native i => i < p.natives.length

def withProto (p : Program) (i : Nat) (q : Prototype) : Program :=
  { p with scripts := p.scripts.modify i fun s => { s with proto := q } }

variable {p : Program} {f g : FuncRef}

theorem script_setEntry (p : Program) (i j : Nat) (e : Option Entry) :
    (p.setEntry (.script i) e).script j =
      if i = j ∧ j < p.scripts.length then { p.script j with entry := e } else p.script j :=
  getD_modify p.scripts i j _ _

theorem native_setEntry (p : Program) (i j : Nat) (e : Option Entry) :
    (p.setEntry (.native i) e).native j =
      if i = j ∧ j < p.natives.length then { p.native j with entry := e } else p.native j :=
  getD_modify p.natives i j _ _

theorem script_withProto (p : Program) (i j : Nat) (q : Prototype) :
    (p.withProto i q).script j =
      if i = j ∧ j < p.scripts.length then { p.script j with proto := q } else p.script j :=
  getD_modify p.scripts i j _ _

/-! ## Installing an entry -/

theorem head_setEntry_of_ne (h : g ≠ f) (e : Option Entry) :
    (p.setEntry f e).head g = p.head g := by
  cases f with
  | script i =>
      cases g with
      | native j => rfl
      | script j =>
          rw [head, script_setEntry, if_neg fun hij => h (congrArg _ hij.1.symm)]
          rfl
  | native i =>
      cases g with
      | script j => rfl
      | native j =>
          rw [head, native_setEntry, if_neg fun hij => h (congrArg _ hij.1.symm)]
          rfl

theorem entry_setEntry (h : p.Declares f) (e : Option Entry) :
    ((p.setEntry f e).head f).entry = e := by
  cases f with
  | script i => rw [head, script_setEntry, if_pos ⟨rfl, h⟩]
  | native i => rw [head, native_setEntry, if_pos ⟨rfl, h⟩]

/-- A function that is not in the table stays without an entry. -/
theorem setEntry_of_not_declares (h : ¬ p.Declares f) (e : Option Entry) : p.setEntry f e = p := by
  cases f with
  | script i => rw [setEntry, List.modify_eq_self (Nat.not_lt.1 h)]
  | native i => rw [setEntry, List.modify_eq_self (Nat.not_lt.1 h)]

theorem head_setEntry_self (p : Program) (f : FuncRef) (e : Option Entry) :
    ∃ e', (p.setEntry f e).head f = { p.head f with entry := e' } := by
  by_cases h : p.Declares f
  · refine ⟨e, ?_⟩
    cases f with
    | script i =>
        rw [head, script_setEntry, if_pos ⟨rfl, h⟩]
        rfl
    | native i =>
        rw [head, native_setEntry, if_pos ⟨rfl, h⟩]
        rfl
  · exact ⟨(p.head f).entry, by rw [setEntry_of_not_declares h]⟩

theorem sameFunctions_setEntry (p : Program) (f : FuncRef) (e : Option Entry) :
    p.SameFunctions (p.setEntry f e) where
  name g := by
    by_cases h : g = f
    · subst h
      obtain ⟨e', hhead⟩ := p.head_setEntry_self g e
      rw [name, hhead]
      rfl
    · rw [name, head_setEntry_of_ne h]
      rfl
  defaults i := by
    cases f with
    | script j => rfl
    | native j =>
        rw [native_setEntry]
        split <;> rfl
  behaviour i := by
    cases f with
    | script j => rfl
    | native j =>
        rw [native_setEntry]
        split <;> rfl

/-! ## Another prototype -/

theorem head_withProto (p : Program) (i : Nat) (q : Prototype) (f : FuncRef) :
    (p.withProto i q).head f = p.head f := by
  cases f with
  | native j => rfl
  | script j =>
      rw [head, script_withProto]
      split <;> rfl

theorem proto_withProto {i : Nat} (h : p.Declares (.script i)) (q : Prototype) :
    ((p.withProto i q).script i).proto = q := by
  rw [script_withProto, if_pos ⟨rfl, h⟩]

theorem sameFunctions_withProto (p : Program) (i : Nat) (q : Prototype) :
    p.SameFunctions (p.withProto i q) where
  name f := congrArg FunctionHead.name (p.head_withProto i q f)
  defaults _ := rfl
  behaviour _ := rfl

theorem declares_withProto {i : Nat} {q : Prototype} :
    (p.withProto i q).Declares f ↔ p.Declares f := by
  cases f with
  | native j => rfl
  | script j =>
      rw [Declares, Declares, withProto, List.length_modify]

end Program

/-- Two programs that have got an entry for a function. If these entries are related, and all
others are what they have been in both, then the entries of all functions are. -/
theorem Program.rel_setEntry {R : Entry → Entry → Prop} (refl : ∀ e, R e e) {p p' : Program}
    {f : FuncRef} (heads : ∀ g, p'.head g = p.head g) (declared : p.Declares f)
    (declared' : p'.Declares f) {e e' : Entry} (related : R e e') (g : FuncRef) :
    Option.Rel R ((p.setEntry f (some e)).head g).entry
      ((p'.setEntry f (some e')).head g).entry := by
  by_cases h : g = f
  · subst h
    rw [entry_setEntry declared, entry_setEntry declared']
    exact .some related
  · rw [head_setEntry_of_ne h, head_setEntry_of_ne h, heads]
    cases (p.head g).entry with
    | none => exact .none
    | some e => exact .some (refl e)

/-! ## Compiling -/

theorem Code.ofProto_eq {q : Prototype} {plan : Plan} (planned : q.plan = .ok plan) :
    Code.ofProto q = .ok ⟨q, plan, planned⟩ := by
  rw [ofProto]
  split
  · next plan' planned' =>
      obtain rfl := Except.ok.inj (planned'.symm.trans planned)
      rfl
  · next e failed => cases failed.symm.trans planned

theorem Code.ofProto_error {q : Prototype} {e : PlanError} (failed : q.plan = .error e) :
    Code.ofProto q = .error e := by
  rw [ofProto]
  split
  · next plan planned => cases planned.symm.trans failed
  · next e' failed' =>
      obtain rfl := Except.error.inj (failed'.symm.trans failed)
      rfl

namespace Engine

def withProto (g : Engine) (i : Nat) (q : Prototype) : Engine :=
  { g with program := g.program.withProto i q }

/-- The function gets its code as its entry, and the plan of the code is counted. -/
theorem exists_compile_of_codeFor {g : Engine} {f : FuncRef} {code : Code}
    (h : g.codeFor f = .ok code) : ∃ k, g.compile f = .ok k ∧
      k.program = g.program.setEntry f (some (.compiled code)) ∧
      k.stats = g.stats.add code.plan := by
  rw [compile, h]
  exact ⟨_, rfl, rfl, rfl⟩

/-- A script whose body has a plan can be compiled, which gives it the code of the body. -/
theorem exists_compile {g : Engine} {i : Nat} {q : Prototype} {plan : Plan}
    (proto : (g.program.script i).proto = q) (planned : q.plan = .ok plan) :
    ∃ k, g.compile (.script i) = .ok k ∧
      k.program = g.program.setEntry (.script i) (some (.compiled ⟨q, plan, planned⟩)) ∧
      k.stats = g.stats.add plan := by
  subst proto
  have compiled : g.codeFor (.script i) = .ok ⟨_, plan, planned⟩ := by
    rw [codeFor, Code.ofProto_eq planned]
    rfl
  exact exists_compile_of_codeFor compiled

/-- A script is compiled with one prototype and with another one. Then the programs have the same
functions, and if the two codes are related, then the entries of all functions are. -/
theorem exists_compile_withProto {R : Entry → Entry → Prop} (refl : ∀ e, R e e) (g : Engine)
    {i : Nat} (declared : g.program.Declares (.script i)) {c c' : Code}
    (related : R (.compiled c) (.compiled c')) :
    ∃ k k', (g.withProto i c.proto).compile (.script i) = .ok k ∧
      (g.withProto i c'.proto).compile (.script i) = .ok k' ∧
      k.stats = g.stats.add c.plan ∧ k'.stats = g.stats.add c'.plan ∧
      k.program.SameFunctions k'.program ∧
      ∀ f, Option.Rel R (k.program.head f).entry (k'.program.head f).entry := by
  obtain ⟨k, compiled, hk, stats⟩ := exists_compile (g := g.withProto i c.proto)
    (Program.proto_withProto declared c.proto) c.planned
  obtain ⟨k', compiled', hk', stats'⟩ := exists_compile (g := g.withProto i c'.proto)
    (Program.proto_withProto declared c'.proto) c'.planned
  have same : ∀ (q : Prototype) (e : Option Entry), g.program.SameFunctions
      ((g.withProto i q).program.setEntry (.script i) e) := fun q e =>
    (g.program.sameFunctions_withProto i q).trans (Program.sameFunctions_setEntry _ _ e)
  refine ⟨k, k', compiled, compiled', stats, stats', ?_, ?_⟩
  · rw [hk, hk']
    exact (same _ _).symm.trans (same _ _)
  · rw [hk, hk']
    refine Program.rel_setEntry refl (fun f => ?_) (Program.declares_withProto.2 declared)
      (Program.declares_withProto.2 declared) related
    exact (g.program.head_withProto i _ f).trans (g.program.head_withProto i _ f).symm

end Engine

end CallProtocol
