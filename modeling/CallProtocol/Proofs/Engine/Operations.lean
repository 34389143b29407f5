import CallProtocol.Proofs.Engine.Entries
import Mathlib.Algebra.Order.BigOperators.Group.List
import Mathlib.Algebra.Order.Ring.Nat

/-!
# Sequences of engine operations

What an embedding program does with an engine is a sequence of operations. Each of them comes
down to a list of entries that are written to the table of functions, and to a list of codes
that are counted. Which these are is told by the prototypes and the names of the functions, and
no operation changes those. So the state of an engine is a fold over what its operations have
written.
-/

namespace CallProtocol

inductive EngineOp where
  | compile (f : FuncRef)
  | compileAll (fs : List FuncRef)
  | plan (f : FuncRef)
  /-- Install an entry of the host, or take the entry away. -/
  | install (f : FuncRef) (e : Option Entry)

def EngineStats.total (s : EngineStats) (plans : List Plan) : EngineStats where
  functions := s.functions + plans.length
  callSites := s.callSites + (plans.map (·.calls.length)).sum
  tailSites := s.tailSites + (plans.map (·.calls.countP (·.kind = .tail))).sum
  dynamicSites := s.dynamicSites + (plans.map (·.calls.countP (·.dispatch = .dynamic))).sum

namespace EngineStats

theorem total_nil (s : EngineStats) : s.total [] = s := rfl

theorem total_cons (s : EngineStats) (plan : Plan) (plans : List Plan) :
    s.total (plan :: plans) = (s.add plan).total plans := by
  simp only [total, add, List.map_cons, List.sum_cons, List.length_cons, Nat.add_assoc,
    Nat.add_comm 1]

theorem total_append (s : EngineStats) (plans plans' : List Plan) :
    s.total (plans ++ plans') = (s.total plans).total plans' := by
  induction plans generalizing s with
  | nil => rfl
  | cons plan plans ih => rw [List.cons_append, total_cons, total_cons, ih]

theorem total_perm (s : EngineStats) {plans plans' : List Plan} (h : plans.Perm plans') :
    s.total plans = s.total plans' := by
  rw [total, total, h.length_eq, (h.map _).sum_eq, (h.map _).sum_eq, (h.map _).sum_eq]

theorem tailSites_total_le {s : EngineStats} (h : s.tailSites ≤ s.callSites) (plans : List Plan) :
    (s.total plans).tailSites ≤ (s.total plans).callSites :=
  Nat.add_le_add h (List.sum_le_sum fun _ _ => List.countP_le_length)

theorem dynamicSites_total_le {s : EngineStats} (h : s.dynamicSites ≤ s.callSites)
    (plans : List Plan) : (s.total plans).dynamicSites ≤ (s.total plans).callSites :=
  Nat.add_le_add h (List.sum_le_sum fun _ _ => List.countP_le_length)

end EngineStats

namespace Program

def setEntries (p : Program) (ws : List (FuncRef × Option Entry)) : Program :=
  ws.foldl (fun p w => p.setEntry w.1 w.2) p

def lastWritten? (f : FuncRef) (ws : List (FuncRef × Option Entry)) : Option (Option Entry) :=
  ((ws.filter (·.1 = f)).getLast?).map (·.2)

variable {p : Program} {f g : FuncRef}

theorem setEntries_append (ws ws' : List (FuncRef × Option Entry)) :
    p.setEntries (ws ++ ws') = (p.setEntries ws).setEntries ws' := List.foldl_append

theorem declares_setEntry {e : Option Entry} : (p.setEntry f e).Declares g ↔ p.Declares g := by
  cases f with
  | script i =>
      cases g with
      | script j => rw [Declares, Declares, setEntry, List.length_modify]
      | native j => rfl
  | native i =>
      cases g with
      | script j => rfl
      | native j => rw [Declares, Declares, setEntry, List.length_modify]

theorem entry_setEntries (declared : p.Declares f) (ws : List (FuncRef × Option Entry)) :
    ((p.setEntries ws).head f).entry = (lastWritten? f ws).getD (p.head f).entry := by
  induction ws generalizing p with
  | nil => rfl
  | cons w ws ih =>
      have behind := ih (declares_setEntry (e := w.2) (f := w.1).2 declared)
      rw [setEntries, List.foldl_cons]
      refine behind.trans ?_
      by_cases h : w.1 = f
      · subst h
        rw [entry_setEntry declared, lastWritten?, lastWritten?, List.filter_cons_of_pos (by simp),
          List.getLast?_cons]
        cases (ws.filter (·.1 = w.1)).getLast? <;> rfl
      · rw [head_setEntry_of_ne (Ne.symm h), lastWritten?, lastWritten?,
          List.filter_cons_of_neg (by simpa using h)]

theorem proto_setEntries (p : Program) (ws : List (FuncRef × Option Entry)) (i : Nat) :
    ((p.setEntries ws).script i).proto = (p.script i).proto := by
  induction ws generalizing p with
  | nil => rfl
  | cons w ws ih =>
      obtain ⟨f, e⟩ := w
      refine (ih _).trans ?_
      cases f with
      | native j => rfl
      | script j =>
          rw [script_setEntry]
          split <;> rfl

theorem sameFunctions_setEntries (p : Program) (ws : List (FuncRef × Option Entry)) :
    p.SameFunctions (p.setEntries ws) := by
  induction ws generalizing p with
  | nil => exact .refl p
  | cons w ws ih => exact (p.sameFunctions_setEntry w.1 w.2).trans (ih _)

theorem head_setEntries_of_forall_ne {ws : List (FuncRef × Option Entry)}
    (h : ∀ w ∈ ws, w.1 ≠ f) : (p.setEntries ws).head f = p.head f := by
  induction ws generalizing p with
  | nil => rfl
  | cons w ws ih =>
      obtain ⟨other, others⟩ := List.forall_mem_cons.1 h
      exact (ih others).trans (head_setEntry_of_ne other.symm w.2)

/-- Entries of different functions can be written in either order. -/
theorem setEntry_comm (h : f ≠ g) (e e' : Option Entry) :
    (p.setEntry f e).setEntry g e' = (p.setEntry g e').setEntry f e := by
  cases f with
  | script i =>
      cases g with
      | native j => rfl
      | script j =>
          have hij : i ≠ j := fun hij => h (congrArg _ hij)
          simp only [setEntry]
          rw [List.modify_modify_ne _ _ _ hij]
  | native i =>
      cases g with
      | script j => rfl
      | native j =>
          have hij : i ≠ j := fun hij => h (congrArg _ hij)
          simp only [setEntry]
          rw [List.modify_modify_ne _ _ _ hij]

theorem setEntries_perm {ws ws' : List (FuncRef × Option Entry)} (h : ws.Perm ws')
    (coherent : ∀ w ∈ ws, ∀ w' ∈ ws, w.1 = w'.1 → w = w') :
    p.setEntries ws = p.setEntries ws' := by
  refine h.foldl_eq' (fun w hw w' hw' p => ?_) p
  by_cases same : w.1 = w'.1
  · rw [coherent w hw w' hw' same]
  · exact setEntry_comm same _ _

end Program

def FuncRef.scripts (fs : List FuncRef) : List FuncRef := fs.filter fun f => !f.isNative

namespace Engine

/-- The engine after an operation. One that fails leaves what it has come to. -/
def perform (g : Engine) : EngineOp → Engine
  | .compile f =>
    match g.compile f with
    | .ok k => k
    | .error _ => g
  | .compileAll fs => (g.compileAll fs).2
  | .plan _ => g
  | .install f e => g.install f e

def run (g : Engine) (ops : List EngineOp) : Engine := ops.foldl perform g

def codesFor (g : Engine) : List FuncRef → List (FuncRef × Code)
  | [] => []
  | f :: fs =>
    match g.codeFor f with
    | .ok code => (f, code) :: g.codesFor fs
    | .error _ => []

def compiled (g : Engine) : EngineOp → List (FuncRef × Code)
  | .compile f => g.codesFor [f]
  | .compileAll fs => g.codesFor (FuncRef.scripts fs)
  | .plan _ => []
  | .install _ _ => []

def writes (g : Engine) : EngineOp → List (FuncRef × Option Entry)
  | .install f e => [(f, e)]
  | op => (g.compiled op).map fun q => (q.1, some (.compiled q.2))

def allCompiled (g : Engine) : List EngineOp → List (FuncRef × Code)
  | [] => []
  | op :: ops => g.compiled op ++ (g.perform op).allCompiled ops

def allWrites (g : Engine) : List EngineOp → List (FuncRef × Option Entry)
  | [] => []
  | op :: ops => g.writes op ++ (g.perform op).allWrites ops

variable {g k : Engine} {f : FuncRef} {code : Code} {e : CompileError}

/-! ## A single operation -/

theorem codeFor_of_setEntries {ws : List (FuncRef × Option Entry)}
    (h : k.program = g.program.setEntries ws) : k.codeFor = g.codeFor := by
  funext f
  cases f with
  | script i => rw [codeFor, codeFor, h, Program.proto_setEntries]
  | native i =>
      have hname : (k.program.native i).name = (g.program.native i).name := by
        rw [h]
        exact (g.program.sameFunctions_setEntries ws).name (.native i)
      rw [codeFor, codeFor, hname]

theorem codesFor_congr (h : k.codeFor = g.codeFor) (fs : List FuncRef) :
    k.codesFor fs = g.codesFor fs := by
  induction fs with
  | nil => rfl
  | cons f fs ih => rw [codesFor, codesFor, h, ih]

theorem codesFor_cons_ok (h : g.codeFor f = .ok code) (fs : List FuncRef) :
    g.codesFor (f :: fs) = (f, code) :: g.codesFor fs := by
  rw [codesFor, h]

theorem codesFor_cons_error (h : g.codeFor f = .error e) (fs : List FuncRef) :
    g.codesFor (f :: fs) = [] := by
  rw [codesFor, h]

theorem mem_codesFor {fs : List FuncRef} (h : (f, code) ∈ g.codesFor fs) :
    g.codeFor f = .ok code := by
  induction fs with
  | nil => cases h
  | cons f' fs ih =>
      cases h' : g.codeFor f' with
      | error e =>
          rw [codesFor_cons_error h'] at h
          cases h
      | ok code' =>
          rw [codesFor_cons_ok h'] at h
          cases h with
          | head => exact h'
          | tail _ h => exact ih h

structure Compiles (g k : Engine) (codes : List (FuncRef × Code)) : Prop where
  program : k.program = g.program.setEntries (codes.map fun q => (q.1, some (.compiled q.2)))
  stats : k.stats = g.stats.total (codes.map (·.2.plan))

theorem Compiles.nil (g : Engine) : g.Compiles g [] := ⟨rfl, rfl⟩

theorem Compiles.trans {k' : Engine} {codes codes' : List (FuncRef × Code)}
    (h : g.Compiles k codes) (h' : k.Compiles k' codes') : g.Compiles k' (codes ++ codes') where
  program := by rw [h'.program, h.program, List.map_append, Program.setEntries_append]
  stats := by rw [h'.stats, h.stats, List.map_append, EngineStats.total_append]

theorem exists_compiles (h : g.codeFor f = .ok code) :
    ∃ k, g.compile f = .ok k ∧ g.Compiles k [(f, code)] := by
  obtain ⟨k, compiled, program, stats⟩ := exists_compile_of_codeFor h
  refine ⟨k, compiled, program, ?_⟩
  rw [stats, List.map_singleton, EngineStats.total_cons, EngineStats.total_nil]

theorem compile_of_error (h : g.codeFor f = .error e) : g.compile f = .error e := by
  rw [compile, h]
  rfl

theorem compileAll_native (i : Nat) (fs : List FuncRef) :
    g.compileAll (.native i :: fs) = g.compileAll fs := by
  rw [compileAll, if_pos (FuncRef.isNative_native i)]

theorem compileAll_ok {i : Nat} (h : g.compile (.script i) = .ok k) (fs : List FuncRef) :
    g.compileAll (.script i :: fs) =
      ((k.compileAll fs).1.map (· + 1), (k.compileAll fs).2) := by
  rw [compileAll, if_neg (by simp), h]

theorem compileAll_error {i : Nat} (h : g.compile (.script i) = .error e) (fs : List FuncRef) :
    g.compileAll (.script i :: fs) = (.error e, g) := by
  rw [compileAll, if_neg (by simp), h]

theorem compiles_compileAll (g : Engine) (fs : List FuncRef) :
    g.Compiles (g.compileAll fs).2 (g.codesFor (FuncRef.scripts fs)) := by
  induction fs generalizing g with
  | nil => exact .nil g
  | cons f fs ih =>
      cases f with
      | native i =>
          rw [compileAll_native]
          exact ih g
      | script i =>
          change Compiles g _ (g.codesFor (.script i :: FuncRef.scripts fs))
          cases h : g.codeFor (.script i) with
          | error e =>
              rw [compileAll_error (compile_of_error h), codesFor_cons_error h]
              exact .nil g
          | ok code =>
              obtain ⟨k, compiled, first⟩ := exists_compiles h
              have behind := ih k
              rw [codesFor_congr (codeFor_of_setEntries first.program)] at behind
              rw [compileAll_ok compiled, codesFor_cons_ok h]
              exact first.trans behind

theorem compiles_compile (g : Engine) (f : FuncRef) :
    g.Compiles (g.perform (.compile f)) (g.codesFor [f]) := by
  rw [perform]
  cases h : g.codeFor f with
  | error e =>
      rw [compile_of_error h, codesFor_cons_error h]
      exact .nil g
  | ok code =>
      obtain ⟨k, compiled, first⟩ := exists_compiles h
      rw [compiled, codesFor_cons_ok h]
      exact first

theorem perform_eq (g : Engine) (op : EngineOp) :
    (g.perform op).program = g.program.setEntries (g.writes op) ∧
      (g.perform op).stats = g.stats.total ((g.compiled op).map (·.2.plan)) := by
  cases op with
  | compile f => exact ⟨(g.compiles_compile f).program, (g.compiles_compile f).stats⟩
  | compileAll fs => exact ⟨(g.compiles_compileAll fs).program, (g.compiles_compileAll fs).stats⟩
  | plan f => exact ⟨rfl, rfl⟩
  | install f e => exact ⟨rfl, rfl⟩

theorem codeFor_perform (g : Engine) (op : EngineOp) : (g.perform op).codeFor = g.codeFor :=
  codeFor_of_setEntries (g.perform_eq op).1

/-! ## Sequences -/

theorem run_cons (g : Engine) (op : EngineOp) (ops : List EngineOp) :
    g.run (op :: ops) = (g.perform op).run ops := rfl

theorem run_append (g : Engine) (ops ops' : List EngineOp) :
    g.run (ops ++ ops') = (g.run ops).run ops' := List.foldl_append

/-- What a sequence of operations leaves is a fold over what it has written and compiled. -/
theorem run_eq (g : Engine) (ops : List EngineOp) :
    (g.run ops).program = g.program.setEntries (g.allWrites ops) ∧
      (g.run ops).stats = g.stats.total ((g.allCompiled ops).map (·.2.plan)) := by
  induction ops generalizing g with
  | nil => exact ⟨rfl, rfl⟩
  | cons op ops ih =>
      obtain ⟨program, stats⟩ := g.perform_eq op
      obtain ⟨program', stats'⟩ := ih (g.perform op)
      rw [run_cons, program', stats', program, stats, allWrites, allCompiled,
        Program.setEntries_append, List.map_append, EngineStats.total_append]
      exact ⟨rfl, rfl⟩

theorem codeFor_run (g : Engine) (ops : List EngineOp) : (g.run ops).codeFor = g.codeFor :=
  codeFor_of_setEntries (g.run_eq ops).1

theorem compiled_congr (h : k.codeFor = g.codeFor) : k.compiled = g.compiled := by
  funext op
  cases op with
  | compile f => exact codesFor_congr h [f]
  | compileAll fs => exact codesFor_congr h (FuncRef.scripts fs)
  | plan f | install f e => rfl

theorem writes_congr (h : k.codeFor = g.codeFor) : k.writes = g.writes := by
  funext op
  cases op <;> simp only [writes, compiled_congr h]

/-- What an operation compiles and writes does not depend on the ones before it. -/
theorem allCompiled_eq (g : Engine) (ops : List EngineOp) :
    g.allCompiled ops = ops.flatMap g.compiled := by
  induction ops generalizing g with
  | nil => rfl
  | cons op ops ih =>
      rw [allCompiled, ih, compiled_congr (g.codeFor_perform op), List.flatMap_cons]

theorem allWrites_eq (g : Engine) (ops : List EngineOp) :
    g.allWrites ops = ops.flatMap g.writes := by
  induction ops generalizing g with
  | nil => rfl
  | cons op ops ih =>
      rw [allWrites, ih, writes_congr (g.codeFor_perform op), List.flatMap_cons]

theorem mem_allWrites {w : FuncRef × Option Entry} {ops : List EngineOp}
    (h : w ∈ g.allWrites ops) :
    (∃ code, g.codeFor w.1 = .ok code ∧ w.2 = some (.compiled code)) ∨
      .install w.1 w.2 ∈ ops := by
  rw [allWrites_eq] at h
  obtain ⟨op, hop, hw⟩ := List.mem_flatMap.1 h
  have compiled (codes : List FuncRef)
      (hw : w ∈ (g.codesFor codes).map fun q => (q.1, some (.compiled q.2))) :
      ∃ code, g.codeFor w.1 = .ok code ∧ w.2 = some (.compiled code) := by
    obtain ⟨⟨f, code⟩, hq, rfl⟩ := List.mem_map.1 hw
    exact ⟨code, mem_codesFor hq, rfl⟩
  cases op with
  | compile f => exact .inl (compiled _ hw)
  | compileAll fs => exact .inl (compiled _ hw)
  | plan f => cases hw
  | install f e =>
      obtain rfl := List.mem_singleton.1 hw
      exact .inr hop

end Engine

end CallProtocol
