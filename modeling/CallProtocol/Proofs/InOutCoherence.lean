import CallProtocol.Proofs.PlanSafety
import CallProtocol.Proofs.ReturnConfinement

/-!
# Registers that are passed by address

An int, float or pointer register is a variable of its activation, and what its address
leads to is the slot of the frame. The two are made to agree twice. Before a call the
variables of the registers that go with it are copied to their slots, after it they are
copied back. In between only the slots change, by what natives store to them and by what is
delivered to them, however often the address has been passed on until then.

So what the caller reads afterwards is the outcome of all these writes in their order,
applied to the value that the register had when the call was made.
-/

namespace CallProtocol

open Machine

namespace Activation

theorem mem_inOuts_of_passes {a : Activation} {c : CallSite} {b : Bank} {r : Nat}
    (sources : ∀ e ∈ c.window.params, a.proto.HasSource e.source) (hb : b ≠ .string)
    (h : c.PassesAddress a.proto.registers.floats.toNat b r) : (b, r) ∈ a.inOuts c := by
  obtain ⟨e, he, r', hsource, hr⟩ := h
  have hcached : b.isCached = true := by
    cases b with
    | string => exact absurd rfl hb
    | _ => rfl
  have hpassed : (b, r') ∈ c.inOuts := by
    refine List.mem_filterMap.2 ⟨e, he, ?_⟩
    rw [hsource]
    exact if_pos hcached
  have hnamed : r' < (a.proto.registers.get b).toNat := by
    have named := sources e he
    rw [hsource] at named
    exact named.lt List.mem_cons_self
  refine List.mem_flatMap.2 ⟨(b, r'), hpassed, ?_⟩
  cases b with
  | string => exact absurd rfl hb
  | float =>
      refine List.mem_map.2 ⟨r, List.mem_filter.2 ⟨List.mem_range'_1.2 ?_, ?_⟩, rfl⟩
      · rcases hr with rfl | ⟨-, hle, hlt, -⟩
        · exact ⟨Nat.le_refl r, Nat.lt_add_of_pos_right (by decide)⟩
        · exact ⟨hle, hlt⟩
      · rcases hr with rfl | ⟨-, -, -, hlt⟩
        · exact decide_eq_true hnamed
        · exact decide_eq_true hlt
  | int | pointer =>
      obtain rfl := hr.resolve_right fun h => nomatch h.1
      exact List.mem_singleton.2 rfl

theorem load_flush_of_mem {a : Activation} {m : Machine} {regs : List (Bank × Nat)} {b : Bank}
    {r : Nat} (h : (b, r) ∈ regs) (sized : m.Sized (.frame a.frame) a.proto.registers)
    (hr : r < (a.proto.registers.get b).toNat) :
    (a.flush m regs).load (a.slot b r) = a.locals.get b r := by
  obtain ⟨frame, hframe, hsize⟩ := sized
  have hwritten : (a.flush m regs).registers? (.frame a.frame) =
      (m.registers? (.frame a.frame)).map ((Owner.frame a.frame).written (a.flushed regs)) := by
    rw [flush_eq_write, registers?_write]
  refine (load_of_written (σ := a.slot b r) hframe (by rwa [slot, hsize]) hwritten).trans ?_
  have own : ∀ w ∈ a.flushed regs, w.slot = a.slot b r → w.cell = ⟨b, a.locals.get b r⟩ := by
    intro w hw hslot
    obtain ⟨⟨b', r'⟩, -, rfl⟩ := List.mem_map.1 hw
    cases hslot
    rfl
  have copied : ∃ w ∈ a.flushed regs, w.slot = a.slot b r :=
    ⟨⟨a.slot b r, ⟨b, a.locals.get b r⟩⟩, List.mem_map.2 ⟨(b, r), h, rfl⟩, rfl⟩
  exact Slot.written_of_forall_eq own copied _

/-- No value that is returned to a result of the call gets to a register that it does not
declare. -/
theorem spares_of_undeclared {p : Program} {e : Entry} {f : FuncRef} {name : String} {h : Handover}
    {m₀ m : Machine} {past : List Activation} {c : CallSite} {rest : List Step} {a : Activation}
    (reached : Reaches p (.entry e f name h) m₀ past (.body (.call c :: rest) a) m)
    (kind : c.kind = .call) {b : Bank} {r : Nat}
    (undeclared : ¬ a.proto.DeclaresResult past.length b r) :
    ∀ d ∈ (a.handoverFor c).returns, d.Spares (a.slot b r) := by
  intro d hd
  rw [handoverFor, kind] at hd
  obtain ⟨s, hs, rfl⟩ := List.mem_map.1 hd
  have takes := Expects.takes ⟨past, c, rest, m, reached, kind, hs⟩
  refine Descriptor.WellTyped.spares (.inr ⟨_, _, takes⟩) ?_
  rintro ⟨t, s', takes', k, hk, heq⟩
  obtain ⟨rfl, rfl⟩ := takes.unique takes'
  obtain ⟨i, t, t', hi, calls⟩ := reached.position.site
  refine undeclared (declares_of_mem hi calls (List.mem_flatMap.2 ⟨s, hs, ?_⟩))
  exact List.mem_map.2 ⟨k, List.mem_range.2 hk,
    Prod.ext (congrArg Slot.bank heq).symm (congrArg Slot.reg heq).symm⟩

end Activation

/-- The register that is passed by address and its slot agree when the callee begins, and
again when the call resumes. Then the register has the value that all writes to the slot
during the call make of the one it had before. So the last store is what is read, whoever
has made it, and a register keeps its value if it is not a declared result and no native has
stored to its slot. -/
theorem inOuts_coherent {p : Program} {e : Entry} {f : FuncRef} {name : String} {h : Handover}
    {m₀ m m₁ : Machine} {past : List Activation} {c : CallSite} {rest : List Step}
    {a : Activation} {τ : Task}
    (reached : Reaches p (.entry e f name h) m₀ past (.body (.call c :: rest) a) m)
    (callee : p.callee? a c (a.beforeCall m c) = some (τ, m₁)) {b : Bank} {r : Nat}
    (hb : b ≠ .string) (passed : c.PassesAddress a.proto.registers.floats.toNat b r) :
    m₁.load (a.slot b r) = a.read m b r ∧
      ∀ (code : Int32) (m₂ : Machine) (call : Execution p τ m₁ code m₂), c.kind = .call → 0 ≤ code →
        Reaches p (.entry e f name h) m₀ (a :: past) (.body rest (a.afterCall m₂ c)) m₂ ∧
        (a.afterCall m₂ c).read m₂ b r = m₂.load (a.slot b r) ∧
        (a.afterCall m₂ c).read m₂ b r = (a.slot b r).written call.writes (a.read m b r) ∧
        (∀ ws ws' x, call.writes = ws ++ ⟨a.slot b r, ⟨b, x⟩⟩ :: ws' →
          (∀ w ∈ ws', w.slot ≠ a.slot b r) → (a.afterCall m₂ c).read m₂ b r = x) ∧
        (¬ a.proto.DeclaresResult past.length b r → a.slot b r ∉ call.stores →
          (a.afterCall m₂ c).read m₂ b r = a.read m b r) := by
  obtain ⟨i, t, t', -, carries, walked⟩ := reached.position.step
  obtain ⟨-, calls⟩ := Planning.calls_of_next walked
  have sources : ∀ e ∈ c.window.params, a.proto.HasSource e.source := by
    rw [calls.window]
    exact fun e he => (Planning.InRange.of_carries carries).sources e (List.mem_of_mem_drop he)
  have hmem := Activation.mem_inOuts_of_passes sources hb passed
  have hr : r < (a.proto.registers.get b).toNat := Activation.lt_of_mem_inOuts sources hmem
  have hread : a.read m b r = a.locals.get b r := a.read_of_ne_string m hb r
  have begins : m₁.load (a.slot b r) = a.read m b r := by
    rw [Program.load_task _ callee, hread]
    exact Activation.load_flush_of_mem hmem reached.frameSized hr
  refine ⟨begins, ?_⟩
  intro code m₂ call kind resumes
  have keeps := (Execution.holds_callee? callee reached.onStack).keeps (σ := a.slot b r) rfl
  have outside := Task.outside_of_callee? (a.slot b r) callee
  have readBack : (a.afterCall m₂ c).read m₂ b r = m₂.load (a.slot b r) := by
    rw [Activation.read_of_ne_string _ m₂ hb]
    exact Activation.get_refresh_of_mem m₂ (a.mem_inOuts hmem).1 (by rwa [reached.sized b])
      (List.mem_append_left _ hmem)
  -- The callee writes to the slot in the frame, which the register has just been copied to.
  have written : m₂.load (a.slot b r) = (a.slot b r).written call.writes (a.read m b r) := by
    obtain ⟨⟨frame, hframe, hsize⟩, -⟩ :=
      reached.frameSized.call reached.onStack callee call
    rw [← begins]
    exact load_of_written (σ := a.slot b r) hframe (by rwa [Activation.slot, hsize])
      (call.registers?_written keeps outside)
  refine ⟨reached.resumed callee call resumes kind, readBack, readBack.trans written, ?_, ?_⟩
  · intro ws ws' x hwrites hlast
    rw [readBack, written, hwrites]
    exact Slot.written_last (a.slot b r) ws hlast _
  · intro undeclared unstored
    have spares := Activation.spares_of_undeclared reached kind undeclared
    rw [readBack, ← begins]
    exact call.load_eq_of_spares keeps outside
      (Program.spares_callee? a.frame spares callee).returns unstored

/-! ## A native that stores behind the address it gets -/

def pokeNext : Native where
  name := "poke"
  behaviour _ := .want 0 .pointer fun p =>
    match p with
    | .slot s => .store ⟨s.owner, .float, s.reg + 1⟩ (⟨1⟩ : Double) (.finish 0)
    | _ => .finish 0

def pokeProgram : Program where
  natives := [pokeNext]

def pokeTask : Task := .native (.native 0) ⟨[.pointer (.slot ⟨.frame 0, .float, 1⟩)], [], 0⟩

theorem callee?_pokeFloats :
    pokeProgram.callee? pokeFloatsBody pokeFloatsCall
      (pokeFloatsBody.beforeCall pokeFloatsMachine pokeFloatsCall) =
        some (pokeTask, pokeFloatsMachine) := rfl

def pokeRun : Execution pokeProgram pokeTask pokeFloatsMachine 0
    (pokeProgram.nativeCall (.native 0) ⟨[.pointer (.slot ⟨.frame 0, .float, 1⟩)], [], 0⟩
      pokeFloatsMachine).2 :=
  .native rfl

/-- The body reads what the native has stored to its third float, and its second float, whose
address it has passed, is what it was. -/
theorem inOuts_coherent_pokeFloats :
    ∃ m₂, Nonempty (Execution pokeProgram pokeTask pokeFloatsMachine 0 m₂) ∧
      (pokeFloatsBody.afterCall m₂ pokeFloatsCall).read m₂ .float 2 = (⟨1⟩ : Double) ∧
      (pokeFloatsBody.afterCall m₂ pokeFloatsCall).read m₂ .float 1 = Double.zero := by
  have passed : ∀ r, r = 1 ∨ r = 2 → pokeFloatsCall.PassesAddress 3 .float r := by
    intro r hr
    exact ⟨_, List.mem_singleton.2 rfl, 1, rfl, .inr ⟨rfl, by omega, by omega, by omega⟩⟩
  have coherent := fun r hr => (inOuts_coherent (reaches_pokeFloats pokeProgram) callee?_pokeFloats
    (by decide) (passed r hr)).2 0 _ pokeRun rfl (by decide)
  obtain ⟨-, -, -, last, -⟩ := coherent 2 (.inr rfl)
  obtain ⟨-, -, -, -, kept⟩ := coherent 1 (.inl rfl)
  refine ⟨_, ⟨pokeRun⟩, last [] [] ⟨1⟩ rfl nofun, kept ?_ ?_⟩
  · rintro ⟨i, k, j, t, hi, hk, -⟩
    cases hi
    exact absurd hk (Nat.not_lt_zero k)
  · have hstores : pokeRun.stores = [⟨.frame 0, .float, 2⟩] := rfl
    rw [hstores]
    decide

end CallProtocol
