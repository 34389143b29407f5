import CallProtocol.Proofs.Engine.Operations

/-!
# The state of an engine

An engine is used by an embedding program that compiles functions, one by one or all together,
makes plans, and installs entries of its own. All that is left of such a history is what has
succeeded in it: the entries that have been written last, and the sums over what has been
compiled. A function has the same code whenever it is compiled, since that depends on its
prototype alone. So compiling in another order leaves the same, and a caller can be compiled
before its callees are.
-/

namespace CallProtocol

def FuncRef.initialEntry : FuncRef → Option Entry
  | .script _ => some .stub
  | .native _ => none

namespace Engine

structure New (g : Engine) : Prop where
  stats : g.stats = {}
  entry : ∀ {f}, g.program.Declares f → (g.program.head f).entry = f.initialEntry

/-- The engines have the same functions with the same entries, and they have counted the same. -/
structure SameState (g k : Engine) : Prop where
  program : k.program = g.program
  stats : k.stats = g.stats

/-- Compiling all of `fs` gets as far as `rest`: what is before it is compiled, and nothing else
is done. -/
structure CompilesUpTo (g : Engine) (fs done rest : List FuncRef) : Prop where
  scripts : FuncRef.scripts fs = done ++ rest
  succeeds : ∀ f ∈ done, ∃ code, g.codeFor f = .ok code
  state : (g.compileAll fs).2 = g.run (done.map .compile)
  complete : rest = [] → (g.compileAll fs).1 = .ok done.length
  stops : ∀ {f behind}, rest = f :: behind →
    ∃ e, g.codeFor f = .error e ∧ (g.compileAll fs).1 = .error e

/-- The state of the engine is determined by what succeeds of the operations on it. -/
structure Determined (g : Engine) : Prop where
  /-- All that is counted are the codes that have been compiled, each time they have been. -/
  stats : ∀ ops, (g.run ops).stats = g.stats.total ((g.allCompiled ops).map (·.2.plan))
  tailSites : ∀ ops, g.stats.tailSites ≤ g.stats.callSites →
    (g.run ops).stats.tailSites ≤ (g.run ops).stats.callSites
  dynamicSites : ∀ ops, g.stats.dynamicSites ≤ g.stats.callSites →
    (g.run ops).stats.dynamicSites ≤ (g.run ops).stats.callSites
  /-- The entry of a function is the last one that has been written for it, or the one from the
  beginning. -/
  entry : ∀ ops {f}, g.program.Declares f → ((g.run ops).program.head f).entry =
    (Program.lastWritten? f (g.allWrites ops)).getD (g.program.head f).entry
  /-- In an engine that is new, that is a stub or null, and nothing has been counted. -/
  new : g.New → ∀ ops,
    (g.run ops).stats = EngineStats.total {} ((g.allCompiled ops).map (·.2.plan)) ∧
    (g.run ops).stats.tailSites ≤ (g.run ops).stats.callSites ∧
    (g.run ops).stats.dynamicSites ≤ (g.run ops).stats.callSites ∧
    ∀ {f}, g.program.Declares f → ((g.run ops).program.head f).entry =
      (Program.lastWritten? f (g.allWrites ops)).getD f.initialEntry
  /-- What can be compiled, and to which code, is the same at any time. -/
  codeFor : ∀ ops, (g.run ops).codeFor = g.codeFor
  /-- A script has the code of its own body. -/
  succeeds : ∀ {f code}, g.codeFor f = .ok code ↔
    ∃ i, f = .script i ∧ code.proto = (g.program.script i).proto
  succeeded : ∀ {f code}, g.codeFor f = .ok code → g.plan f = .ok code.plan ∧
    ∃ k, g.compile f = .ok k ∧ k.program = g.program.setEntry f (some (.compiled code)) ∧
      k.stats = g.stats.add code.plan
  /-- A function cannot be compiled if it is not a script or if its body has no plan. -/
  fails : ∀ {f e}, g.codeFor f = .error e ↔
    (∃ i fault, f = .script i ∧ (g.program.script i).proto.plan = .error fault ∧
      e = .plan fault) ∨ ∃ i, f = .native i ∧ e = .notScript (g.program.native i).name
  /-- Trying it leaves the engine as it is, and the function keeps its entry for as long as none
  is installed. -/
  failed : ∀ {f e}, g.codeFor f = .error e →
    g.plan f = .error e ∧ g.compile f = .error e ∧ g.run [.compile f] = g ∧
      g.run [.plan f] = g ∧ ∀ ops, (∀ e, .install f e ∉ ops) →
        (g.run ops).program.head f = g.program.head f
  /-- Compiling all functions is compiling their scripts one by one, up to the first one that
  fails. -/
  compileAll : ∀ fs, ∃ done rest, g.CompilesUpTo fs done rest
  /-- The order in which functions are compiled makes no difference. -/
  commute : ∀ {fs fs' : List FuncRef}, fs.Perm fs' → ∀ before behind,
    SameState (g.run (before ++ fs.map .compile ++ behind))
      (g.run (before ++ fs'.map .compile ++ behind))
  /-- Calls depend on the entries that there are, and not on how they have got there. -/
  calls : ∀ {ops ops'}, (∀ f, ((g.run ops').program.head f).entry =
      ((g.run ops).program.head f).entry) → ∀ limit,
    (g.run ops').program.enter limit = (g.run ops).program.enter limit ∧
      (g.run ops').program.call limit = (g.run ops).program.call limit

variable {g k : Engine} {f : FuncRef} {e : CompileError}

/-! ## One function -/

theorem codeFor_eq_ok_iff {code : Code} : g.codeFor f = .ok code ↔
    ∃ i, f = .script i ∧ code.proto = (g.program.script i).proto := by
  cases f with
  | native i => simp [codeFor]
  | script i =>
      constructor
      · intro h
        refine ⟨i, rfl, ?_⟩
        cases planned : (g.program.script i).proto.plan with
        | ok plan =>
            rw [codeFor, Code.ofProto_eq planned] at h
            cases h
            rfl
        | error fault =>
            rw [codeFor, Code.ofProto_error planned] at h
            cases h
      · obtain ⟨q, plan, planned⟩ := code
        rintro ⟨_, ⟨⟩, rfl⟩
        rw [codeFor, Code.ofProto_eq planned]
        rfl

theorem codeFor_eq_error_iff : g.codeFor f = .error e ↔
    (∃ i fault, f = .script i ∧ (g.program.script i).proto.plan = .error fault ∧
      e = .plan fault) ∨ ∃ i, f = .native i ∧ e = .notScript (g.program.native i).name := by
  cases f with
  | native i => simp [codeFor, eq_comm]
  | script i =>
      cases planned : (g.program.script i).proto.plan with
      | ok plan => simp [codeFor, Code.ofProto_eq planned, Except.mapError, planned]
      | error fault => simp [codeFor, Code.ofProto_error planned, Except.mapError, planned, eq_comm]

theorem run_compile_of_error (h : g.codeFor f = .error e) : g.run [.compile f] = g := by
  rw [run_cons, perform, compile_of_error h]
  rfl

/-- Nothing is written for a function that cannot be compiled, unless it is installed. -/
theorem head_run_of_error (h : g.codeFor f = .error e) {ops : List EngineOp}
    (absent : ∀ e, .install f e ∉ ops) : (g.run ops).program.head f = g.program.head f := by
  rw [(g.run_eq ops).1]
  refine Program.head_setEntries_of_forall_ne fun w hw hf => ?_
  subst hf
  obtain ⟨code, compiled, -⟩ | installed := mem_allWrites hw
  · cases h.symm.trans compiled
  · exact absent _ installed

/-! ## Compiling all functions -/

namespace CompilesUpTo

variable {i : Nat} {fs done rest : List FuncRef}

theorem nil (g : Engine) : g.CompilesUpTo [] [] [] where
  scripts := rfl
  succeeds := nofun
  state := rfl
  complete _ := rfl
  stops := nofun

theorem native (i : Nat) (h : g.CompilesUpTo fs done rest) :
    g.CompilesUpTo (.native i :: fs) done rest where
  scripts := h.scripts
  succeeds := h.succeeds
  state := (congrArg _ (compileAll_native i fs)).trans h.state
  complete hrest := (congrArg _ (compileAll_native i fs)).trans (h.complete hrest)
  stops hrest := by
    rw [compileAll_native]
    exact h.stops hrest

theorem error (failed : g.codeFor (.script i) = .error e) (fs : List FuncRef) :
    g.CompilesUpTo (.script i :: fs) [] (.script i :: FuncRef.scripts fs) := by
  have stopped := compileAll_error (compile_of_error failed) fs
  refine ⟨rfl, nofun, ?_, nofun, ?_⟩
  · rw [stopped]
    rfl
  · rintro f behind ⟨⟩
    exact ⟨e, failed, by rw [stopped]⟩

/-- After a script that has a plan, compiling goes on in the engine that has compiled it. -/
theorem ok (compiled : g.compile (.script i) = .ok k) (same : k.codeFor = g.codeFor)
    (succeeds : ∃ code, g.codeFor (.script i) = .ok code) (h : k.CompilesUpTo fs done rest) :
    g.CompilesUpTo (.script i :: fs) (.script i :: done) rest := by
  have after := compileAll_ok compiled fs
  refine ⟨congrArg (FuncRef.script i :: ·) h.scripts, ?_, ?_, ?_, ?_⟩
  · rw [← same] at succeeds ⊢
    exact List.forall_mem_cons.2 ⟨succeeds, h.succeeds⟩
  · rw [after, h.state, List.map_cons, run_cons, perform, compiled]
  · intro hrest
    rw [after, h.complete hrest]
    rfl
  · intro f behind hrest
    obtain ⟨e, failed, answer⟩ := h.stops hrest
    rw [same] at failed
    refine ⟨e, failed, ?_⟩
    rw [after, answer]
    rfl

end CompilesUpTo

theorem exists_compilesUpTo (g : Engine) (fs : List FuncRef) :
    ∃ done rest, g.CompilesUpTo fs done rest := by
  induction fs generalizing g with
  | nil => exact ⟨[], [], .nil g⟩
  | cons f fs ih =>
      cases f with
      | native i =>
          obtain ⟨done, rest, h⟩ := ih g
          exact ⟨done, rest, h.native i⟩
      | script i =>
          cases hcode : g.codeFor (.script i) with
          | error e => exact ⟨_, _, .error hcode fs⟩
          | ok code =>
              obtain ⟨k, compiled, first⟩ := exists_compiles hcode
              obtain ⟨done, rest, h⟩ := ih k
              exact ⟨_, _, .ok compiled (codeFor_of_setEntries first.program) ⟨code, hcode⟩ h⟩

/-! ## Compiling in another order -/

theorem sameState_of_perm {ops ops' : List EngineOp} (h : ops.Perm ops')
    (compiles : ∀ op ∈ ops, ∃ f, op = .compile f) : SameState (g.run ops) (g.run ops') where
  program := by
    rw [(g.run_eq ops).1, (g.run_eq ops').1]
    refine (Program.setEntries_perm ?_ fun w hw w' hw' same => ?_).symm
    · rw [allWrites_eq, allWrites_eq]
      exact h.flatMap_right _
    · have written {w} (hw : w ∈ g.allWrites ops) :
          ∃ code, g.codeFor w.1 = .ok code ∧ w.2 = some (.compiled code) := by
        refine (mem_allWrites hw).resolve_right fun installed => ?_
        obtain ⟨f, hf⟩ := compiles _ installed
        cases hf
      obtain ⟨code, hcode, hw⟩ := written hw
      obtain ⟨code', hcode', hw'⟩ := written hw'
      rw [same] at hcode
      obtain rfl := Except.ok.inj (hcode.symm.trans hcode')
      exact Prod.ext same (hw.trans hw'.symm)
  stats := by
    rw [(g.run_eq ops).2, (g.run_eq ops').2]
    refine (EngineStats.total_perm _ ?_).symm
    rw [allCompiled_eq, allCompiled_eq]
    exact (h.flatMap_right _).map _

theorem SameState.run (h : g.SameState k) (ops : List EngineOp) :
    SameState (g.run ops) (k.run ops) := by
  have same : k.codeFor = g.codeFor :=
    codeFor_of_setEntries (show k.program = g.program.setEntries [] from h.program)
  constructor
  · rw [(g.run_eq ops).1, (k.run_eq ops).1, allWrites_eq, allWrites_eq, writes_congr same,
      h.program]
  · rw [(g.run_eq ops).2, (k.run_eq ops).2, allCompiled_eq, allCompiled_eq, compiled_congr same,
      h.stats]

/-! ## Calls -/

theorem sameFunctions_run (g : Engine) (ops : List EngineOp) :
    g.program.SameFunctions (g.run ops).program := by
  rw [(g.run_eq ops).1]
  exact g.program.sameFunctions_setEntries _

end Engine

theorem Program.SameFunctions.enter_call {p p' : Program} (same : p.SameFunctions p')
    (entries : ∀ f, (p'.head f).entry = (p.head f).entry) (limit : Nat) :
    p'.enter limit = p.enter limit ∧ p'.call limit = p.call limit := by
  have related (f : FuncRef) :
      Option.Rel Entry.Interchangeable (p.head f).entry (p'.head f).entry := by
    rw [entries]
    cases (p.head f).entry with
    | none => exact .none
    | some e => exact .some (.refl e)
  exact ⟨same.enter related limit, same.call related limit⟩

/-- What is left of a sequence of operations on an engine is told by the ones that have
succeeded. -/
theorem engine_state_determined (g : Engine) : g.Determined where
  stats ops := (g.run_eq ops).2
  tailSites ops h := by
    rw [(g.run_eq ops).2]
    exact EngineStats.tailSites_total_le h _
  dynamicSites ops h := by
    rw [(g.run_eq ops).2]
    exact EngineStats.dynamicSites_total_le h _
  entry ops f declared := by
    rw [(g.run_eq ops).1]
    exact Program.entry_setEntries declared _
  new fresh ops := by
    obtain ⟨program, stats⟩ := g.run_eq ops
    rw [fresh.stats] at stats
    rw [stats, program]
    refine ⟨rfl, EngineStats.tailSites_total_le (Nat.le_refl 0) _,
      EngineStats.dynamicSites_total_le (Nat.le_refl 0) _, fun declared => ?_⟩
    rw [Program.entry_setEntries declared, fresh.entry declared]
  codeFor := g.codeFor_run
  succeeds := Engine.codeFor_eq_ok_iff
  succeeded h := by
    refine ⟨?_, Engine.exists_compile_of_codeFor h⟩
    rw [Engine.plan, h]
    rfl
  fails := Engine.codeFor_eq_error_iff
  failed h := by
    refine ⟨?_, Engine.compile_of_error h, Engine.run_compile_of_error h, rfl, fun ops absent =>
      Engine.head_run_of_error h absent⟩
    rw [Engine.plan, h]
    rfl
  compileAll := g.exists_compilesUpTo
  commute h before behind := by
    simp only [Engine.run_append]
    refine (Engine.sameState_of_perm (h.map _) fun op hop => ?_).run behind
    obtain ⟨f, -, rfl⟩ := List.mem_map.1 hop
    exact ⟨f, rfl⟩
  calls entries :=
    ((g.sameFunctions_run _).symm.trans (g.sameFunctions_run _)).enter_call entries

def brokenBetween : Engine where
  program :=
    { scripts :=
        [{ name := "main"
           entry := some .stub
           proto :=
             { registers := { ints := 1 }
               code := [.callConst 0 0 1, .result (.of .int) 0, .retImm 0 true 0]
               constants := { pointers := [.function (.script 2)] } } },
          { name := "broken"
            entry := some .stub
            proto :=
              { code := [.paramImm 1, .callConst 0 2 0]
                constants := { pointers := [.function (.native 0)] } } },
          { name := "leaf"
            entry := some .stub
            proto := { registers := { ints := 1 }, code := [.paramImm 7, .tailConst 0 1]
                       constants := { pointers := [.function (.native 0)] } } }]
      natives := [{ name := "host", behaviour := fun _ => .finish 0 }] }

def brokenBetweenOps : List EngineOp :=
  [.compileAll [.script 0, .native 0, .script 1, .script 2], .compile (.script 2),
    .compile (.script 1)]

/-- The script in the middle keeps the one behind it from being compiled until that one is
compiled on its own. The order of the two makes no difference. -/
theorem engine_state_determined_brokenBetween :
    brokenBetween.New ∧ ∃ fault,
      (brokenBetween.compileAll [.script 0, .native 0, .script 1, .script 2]).1 =
        .error (.plan fault) ∧
      (brokenBetween.run (brokenBetweenOps.take 1)).stats = { functions := 1, callSites := 1 } ∧
      (brokenBetween.run brokenBetweenOps).stats =
        { functions := 2, callSites := 2, tailSites := 1 } ∧
      ((brokenBetween.run brokenBetweenOps).program.head (.script 1)).entry = some .stub ∧
      Engine.SameState (brokenBetween.run [.compile (.script 0), .compile (.script 2)])
        (brokenBetween.run [.compile (.script 2), .compile (.script 0)]) := by
  have determined := engine_state_determined brokenBetween
  have unused : brokenBetween.New := by
    refine ⟨rfl, fun {f} declared => ?_⟩
    rcases f with (_ | _ | _ | i) | (_ | i)
    · rfl
    · rfl
    · rfl
    · exact absurd declared (by simp [Program.Declares, brokenBetween])
    · rfl
    · exact absurd declared (by simp [Program.Declares, brokenBetween])
  obtain ⟨fault, failed⟩ : ∃ fault, brokenBetween.codeFor (.script 1) = .error (.plan fault) :=
    ⟨_, rfl⟩
  obtain ⟨-, -, -, -, kept⟩ := determined.failed failed
  refine ⟨unused, fault, ?_, ?_, ?_, ?_, ?_⟩
  · cases failed
    rfl
  · rw [(determined.new unused _).1]
    rfl
  · rw [(determined.new unused _).1]
    rfl
  · rw [kept _ (by simp [brokenBetweenOps])]
    rfl
  · exact determined.commute (.swap (.script 2) (.script 0) []) [] []

end CallProtocol
