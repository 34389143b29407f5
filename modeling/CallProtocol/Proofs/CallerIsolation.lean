import CallProtocol.Proofs.Execution.Deliveries

/-!
# The isolation of callers

A call that resumes its caller has changed of the caller's registers only those that it
was meant to change. The int, float and pointer registers are variables of the
activation, so a change must come from the slots that are read back after the call:
those of results, and those whose address was an argument. A string register is in the
frame all the time. There it can be reached through a descriptor of the call, which may
be handed on in tail calls, or by its address, and by nothing else.
-/

namespace CallProtocol

open Machine

/-- The call at the instruction `n` declares a result that takes the register. -/
def Prototype.DeclaresResult (p : Prototype) (n : Nat) (b : Bank) (r : Nat) : Prop :=
  ∃ i k j t, p.code[n]? = some i ∧ k < i.c.toNat ∧ p.code[n + 1 + k]? = some j ∧
    j.op = .result ∧ RegType.ofBits? j.b = some t ∧ t.kind = .of b ∧
    j.c.toNat ≤ r ∧ r < j.c.toNat + t.components

namespace CallSite

/-- The address of the register is an argument of the call. The address of a float is
also that of the two floats behind it, where `floats` is the size of their bank. -/
def PassesAddress (c : CallSite) (floats : Nat) (b : Bank) (r : Nat) : Prop :=
  ∃ p ∈ c.window.params, ∃ r', p.source = .address b r' ∧
    (r = r' ∨ b = .float ∧ r' ≤ r ∧ r < r' + 3 ∧ r < floats)

/-- The registers that a call passes by address are variables of the activation. -/
theorem cached_of_mem {c : CallSite} {b : Bank} {r : Nat} (h : (b, r) ∈ c.inOuts) :
    b.isCached = true ∧ ∃ p ∈ c.window.params, p.source = .address b r := by
  obtain ⟨p, hp, hsource⟩ := List.mem_filterMap.1 h
  split at hsource
  · next b₁ r₁ hb =>
      split at hsource
      · next hcached =>
          cases hsource
          exact ⟨hcached, p, hp, hb⟩
      · cases hsource
  · cases hsource

end CallSite

namespace Activation

theorem mem_covered {a : Activation} {b b' : Bank} {r r' : Nat} (h : (b, r) ∈ a.covered b' r') :
    b = b' ∧ (r = r' ∨ b = .float ∧ r' ≤ r ∧ r < r' + 3 ∧
      r < a.proto.registers.floats.toNat) := by
  simp only [covered] at h
  split at h
  · obtain ⟨i, hi, heq⟩ := List.mem_map.1 h
    obtain ⟨hrange, hlt⟩ := List.mem_filter.1 hi
    obtain ⟨rfl, rfl⟩ := Prod.mk.inj heq
    obtain ⟨hle, hlt'⟩ := List.mem_range'_1.1 hrange
    exact ⟨rfl, .inr ⟨rfl, hle, hlt', of_decide_eq_true hlt⟩⟩
  · obtain ⟨rfl, rfl⟩ := Prod.mk.inj (List.mem_singleton.1 h)
    exact ⟨rfl, .inl rfl⟩

theorem mem_inOuts {a : Activation} {c : CallSite} {b : Bank} {r : Nat} (h : (b, r) ∈ a.inOuts c) :
    b.isCached = true ∧ c.PassesAddress a.proto.registers.floats.toNat b r := by
  obtain ⟨⟨b', r'⟩, hmem, hcovered⟩ := List.mem_flatMap.1 h
  obtain ⟨hcached, p, hp, hsource⟩ := CallSite.cached_of_mem hmem
  obtain ⟨rfl, hr⟩ := mem_covered hcovered
  exact ⟨hcached, p, hp, r', hsource, hr⟩

theorem read_of_ne_string (a : Activation) (m : Machine) {b : Bank} (h : b ≠ .string) (r : Nat) :
    a.read m b r = a.locals.get b r := by
  cases b with
  | string => exact absurd rfl h
  | int => rfl
  | float => rfl
  | pointer => rfl

theorem read_string {a : Activation} {frame : Nat} (h : a.frame = frame) (m : Machine) (r : Nat) :
    a.read m .string r = m.load ⟨.frame frame, .string, r⟩ := by
  subst h
  rfl

theorem get_refresh (a : Activation) (m : Machine) {regs : List (Bank × Nat)} {b : Bank} {r : Nat}
    (h : (b, r) ∉ regs) : (a.refresh m regs).locals.get b r = a.locals.get b r := by
  induction regs generalizing a with
  | nil => rfl
  | cons p regs ih =>
      obtain ⟨hne, hrest⟩ := not_or.1 (mt List.mem_cons.2 h)
      rw [refresh, List.foldl_cons]
      split
      · refine (ih _ hrest).trans (Banks.get_set_of_ne _ _ ?_)
        intro heq
        exact hne heq.symm
      · exact ih a hrest

/-- The addresses that a call passes are none of string registers. -/
theorem slot_inOuts_ne {a : Activation} {c : CallSite} {q : Bank × Nat} (h : q ∈ a.inOuts c)
    (r : Nat) : a.slot q.1 q.2 ≠ a.slot .string r := by
  intro heq
  obtain ⟨hcached, -⟩ := a.mem_inOuts h
  have hbank : q.1 = .string := congrArg Slot.bank heq
  rw [hbank] at hcached
  cases hcached

/-- A result takes only registers that the instruction behind the call declares. -/
theorem declares_of_mem {p : Prototype} {n : Nat} {t t' : Planning} {i : Instr} {c : CallSite}
    (hi : p.code[n]? = some i) (calls : t.Calls p n i c t') {b : Bank} {r : Nat}
    (h : (b, r) ∈ resultRegs c) : p.DeclaresResult n b r := by
  obtain ⟨s, hs, hmem⟩ := List.mem_flatMap.1 h
  obtain ⟨w, hw, heq⟩ := List.mem_map.1 hmem
  obtain ⟨rfl, rfl⟩ := Prod.mk.inj heq
  obtain ⟨k, j, hk, hj, hdeclared⟩ := calls.declared s hs
  have hlt := List.mem_range.1 hw
  refine ⟨i, k, j, s.type, hi, hk, hj, hdeclared.op, hdeclared.type, hdeclared.kind, ?_, ?_⟩
  · rw [← hdeclared.reg]
    exact Nat.le_add_right _ _
  · rw [← hdeclared.reg]
    exact Nat.add_lt_add_left hlt _

/-- The descriptors of a call get to no string register but those of its results. -/
theorem spares_string {a : Activation} {n : Nat} {t t' : Planning} {i : Instr} {c : CallSite}
    (hi : a.proto.code[n]? = some i) (calls : t.Calls a.proto n i c t') (kind : c.kind = .call)
    {r : Nat} (h : ¬ a.proto.DeclaresResult n .string r) :
    ∀ d ∈ (a.handoverFor c).returns, d.Spares (a.slot .string r) := by
  intro d hd
  rw [handoverFor, kind] at hd
  obtain ⟨s, hs, rfl⟩ := List.mem_map.1 hd
  by_cases hbank : s.bank = .string
  · obtain ⟨k, j, -, -, hdeclared⟩ := calls.declared s hs
    have hkind := hdeclared.kind
    have hmodifier := hdeclared.single (by simp [hbank])
    rw [hbank] at hkind
    refine Descriptor.spares_of_string rfl ?_ ?_
    · rw [descriptor, RegType.bits, hkind, hmodifier]
      rfl
    · -- A result in this register would be a declared one.
      intro heq
      refine h (declares_of_mem hi calls (List.mem_flatMap.2 ⟨s, hs, List.mem_map.2 ⟨0, ?_, ?_⟩⟩))
      · exact List.mem_range.2 s.type.modifier.components_pos
      · rw [hbank, Nat.add_zero]
        exact congrArg (Prod.mk Bank.string) (congrArg Slot.reg heq)
  · exact Descriptor.spares_of_location rfl (.inr hbank)

end Activation

def Task.OnStack : Task → Machine → Prop
  | .body _ a, m => Holds a.frame 0 m
  | _, _ => True

theorem Task.OnStack.of_holds {rest : List Step} {a a' : Activation} {m : Machine}
    (same : a.SameBody a') (holds : Holds a.frame 0 m) : (Task.body rest a').OnStack m := by
  rw [← same.frame] at holds
  exact holds

/-- At every instruction of every body, its frame is on the stack, below newer ones
only. -/
theorem Reaches.onStack {p : Program} {e : Entry} {f : FuncRef} {name : String} {h : Handover}
    {m₀ : Machine} {past : List Activation} {steps : List Step} {a : Activation} {m : Machine}
    (reached : Reaches p (.entry e f name h) m₀ past (.body steps a) m) :
    (Task.body steps a).OnStack m := by
  refine reached.invariant (P := fun _ steps a m => (Task.body steps a).OnStack m) ?_ ?_ ?_
  · intro code name h m m₁ fr room
    exact .push room
  · intro past s rest a a' m m₁ prior onStack step
    have same := Activation.sameContext_quiet step
    exact .of_holds (Activation.sameBody_quiet step) (Holds.same onStack same.serials same.stats)
  · intro past c rest a m m₁ m₂ τ r prior onStack callee call resumes kind
    exact .of_holds (a.sameBody_refresh m₂ _) (Execution.holdsCall callee call onStack).2

/-- A call that resumes its caller leaves the registers of the caller alone. An int,
float or pointer register keeps its value unless it takes a result of the call or its
address is an argument of it. A string register keeps its text unless it takes a result
or a native stores to it by its address, be it in the callee or further down. -/
theorem caller_isolated {p : Program} {e : Entry} {f : FuncRef} {name : String} {h : Handover}
    {m₀ m m₁ m₂ : Machine} {past : List Activation} {c : CallSite} {rest : List Step}
    {a : Activation} {τ : Task} {r : Int32}
    (reached : Reaches p (.entry e f name h) m₀ past (.body (.call c :: rest) a) m)
    (kind : c.kind = .call) (callee : p.callee? a c (a.beforeCall m c) = some (τ, m₁))
    (call : Execution p τ m₁ r m₂) (resumes : 0 ≤ r) :
    Reaches p (.entry e f name h) m₀ (a :: past) (.body rest (a.afterCall m₂ c)) m₂ ∧
      ∀ b reg, ¬ a.proto.DeclaresResult past.length b reg →
        (b ≠ .string → ¬ c.PassesAddress a.proto.registers.floats.toNat b reg →
          (a.afterCall m₂ c).read m₂ b reg = a.read m b reg) ∧
        (b = .string → a.slot b reg ∉ call.stores →
          (a.afterCall m₂ c).read m₂ b reg = a.read m b reg) := by
  obtain ⟨i, t, t', hi, calls⟩ := reached.position.site
  refine ⟨reached.resumed callee call resumes kind, fun b reg hresult => ⟨?_, ?_⟩⟩
  · intro hb haddress
    have hmem : (b, reg) ∉ a.inOuts c ++ Activation.resultRegs c := by
      intro hmem
      rcases List.mem_append.1 hmem with hmem | hmem
      · exact haddress (Activation.mem_inOuts hmem).2
      · exact hresult (Activation.declares_of_mem hi calls hmem)
    rw [Activation.read_of_ne_string _ m₂ hb, a.read_of_ne_string m hb]
    exact a.get_refresh m₂ hmem
  · rintro rfl unstored
    have hσ : (a.slot .string reg).owner = .frame a.frame := rfl
    have spares := Program.spares_callee? a.frame
      (Activation.spares_string hi calls kind hresult) callee
    obtain ⟨holds, -⟩ := Execution.holdsCall callee call reached.onStack
    have made : m₁.load (a.slot .string reg) = m.load (a.slot .string reg) :=
      Program.load_callee? (fun q hq => Activation.slot_inOuts_ne hq reg) callee
    have hframe : (a.afterCall m₂ c).frame = a.frame := (a.sameBody_refresh m₂ _).frame
    rw [Activation.read_string hframe, Activation.read_string rfl]
    exact (call.load_eq hσ spares holds unstored).trans made

/-! ## A call of a native that does nothing -/

def keepTwo : Prototype where
  code := [.callConst 0 0 0, .retImm 0 true 7]
  constants := { pointers := [.function (.native 0)] }
  registers := { ints := 1, strings := 1 }

def keepTwoCall : CallSite := ⟨0, .call, .static 0 true, ⟨0, []⟩, []⟩

def keepTwoPlan : Plan where
  steps := [.call keepTwoCall, .ret ⟨0, true, .imm 7, 1, .int, .of .int⟩]
  layout := { registers := { ints := 1, strings := 1 } }
  states := [⟨[], []⟩, ⟨[], []⟩]

theorem keepTwo_plan : keepTwo.plan = .ok keepTwoPlan := rfl

def keepTwoCode : Code := ⟨keepTwo, keepTwoPlan, keepTwo_plan⟩

def keepTwoProgram : Program where
  scripts := [{ name := "keeper", entry := some (.compiled keepTwoCode) }]
  natives := [{ name := "nop", behaviour := fun _ => .finish 0 }]

def keepTwoFrame : Frame := ⟨0, keepTwoPlan.layout, { ints := [5], strings := ["text"] }⟩

def keepTwoHandover : Handover := ⟨[.int 5, .string (.text "text")], [], 0⟩

def keepTwoBody : Activation := .start keepTwoCode "keeper" keepTwoHandover keepTwoFrame

def keepTwoMachine : Machine where
  frames := [keepTwoFrame]
  stats := { pushed := 1, maxDepth := 1 }

/-- The body keeps the int and the text that it has been called with. -/
theorem caller_isolated_keepTwo :
    ∃ m₂, Nonempty (Execution keepTwoProgram (.native (.native 0) ⟨[], [], 0⟩) keepTwoMachine 0 m₂) ∧
      (keepTwoBody.afterCall m₂ keepTwoCall).read m₂ .int 0 = (5 : Int32) ∧
      (keepTwoBody.afterCall m₂ keepTwoCall).read m₂ .string 0 = "text" := by
  have reached : Reaches keepTwoProgram (.entry (.compiled keepTwoCode) (.script 0) "keeper"
      keepTwoHandover) {} [] (.body keepTwoPlan.steps keepTwoBody) keepTwoMachine :=
    .begun .start rfl
  have callee : keepTwoProgram.callee? keepTwoBody keepTwoCall
      (keepTwoBody.beforeCall keepTwoMachine keepTwoCall) =
        some (.native (.native 0) ⟨[], [], 0⟩, keepTwoMachine) := rfl
  let call : Execution keepTwoProgram (.native (.native 0) ⟨[], [], 0⟩) keepTwoMachine 0
    (keepTwoProgram.nativeCall (.native 0) ⟨[], [], 0⟩ keepTwoMachine).2 := .native rfl
  obtain ⟨-, kept⟩ := caller_isolated reached rfl callee call (by decide)
  have nothing : ∀ b reg, ¬ keepTwo.DeclaresResult 0 b reg := by
    rintro b reg ⟨i, k, j, t, hi, hk, -⟩
    cases hi
    exact absurd hk (Nat.not_lt_zero k)
  refine ⟨_, ⟨call⟩, (kept .int 0 (nothing .int 0)).1 (by decide) ?_,
    (kept .string 0 (nothing .string 0)).2 rfl ?_⟩
  · rintro ⟨q, hq, -⟩
    cases hq
  · have hstores : call.stores = [] := rfl
    rw [hstores]
    exact List.not_mem_nil

end CallProtocol
