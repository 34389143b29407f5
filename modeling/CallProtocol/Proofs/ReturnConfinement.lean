import CallProtocol.Proofs.Execution.Calling
import CallProtocol.Proofs.Execution.Deliveries
import CallProtocol.Proofs.Plan.Live
import CallProtocol.Session

/-!
# The confinement of return values

A descriptor declares a type and a location. A host function decodes the type before it
writes, compiled code looks at single bits of it. Both write values of the declared kind
only, from the location on and no more of them than the type has components. This is
`Delivery.Confined`, and it holds of whatever is delivered in a run, however the descriptor
has come to the one who uses it.

The descriptors of return storage and those that compiled code makes for the results of a
call are well typed: their locations are in the bank of the type. Through such a
descriptor nothing is changed but the slots that it covers. So return storage that serves
many calls keeps its blank content everywhere else.
-/

namespace CallProtocol

open Machine

namespace Descriptor

/-- The descriptor is for a value of type `t`, which begins at `s` in the bank of the
type. -/
structure Takes (d : Descriptor) (t : RegType) (s : Slot) : Prop where
  location : d.location = some s
  type : d.type = t.bits
  kind : t.kind = .of s.bank

def Covers (d : Descriptor) (σ : Slot) : Prop :=
  ∃ t s, d.Takes t s ∧ ∃ k < t.components, σ = s.offset k

/-- A descriptor that has a location has it in the bank of its type. -/
def WellTyped (d : Descriptor) : Prop := d.location = none ∨ ∃ t s, d.Takes t s

variable {d : Descriptor} {t : RegType} {s : Slot}

theorem Takes.regType? (h : d.Takes t s) : d.regType? = some t := by
  rcases t with ⟨k, m⟩
  have hkind : k = .of s.bank := h.kind
  rw [Descriptor.regType?, h.type, hkind]
  exact RegType.ofBits?_bits_of s.bank m

theorem Takes.unique {t' : RegType} {s' : Slot} (h : d.Takes t s) (h' : d.Takes t' s') :
    t = t' ∧ s = s' :=
  ⟨Option.some.inj (h.regType?.symm.trans h'.regType?),
    Option.some.inj (h.location.symm.trans h'.location)⟩

theorem Takes.width (h : d.Takes t s) : d.width = t.components := by
  rcases t with ⟨k, m⟩
  have hkind : k = .of s.bank := h.kind
  rw [Descriptor.width, h.type, hkind]
  cases s.bank <;> cases m <;> rfl

theorem Takes.tag (h : d.Takes t s) : d.type &&& RegType.bankMask = s.bank.tag := by
  rcases t with ⟨kind, modifier⟩
  obtain rfl : kind = .of s.bank := h.kind
  rw [h.type]
  cases s.bank <;> cases modifier <;> rfl

theorem Takes.bank (h : d.Takes t s) {b : Bank} (htag : d.type &&& RegType.bankMask = b.tag) :
    b = s.bank := by
  have same := congrArg Bank.ofTag? (htag.symm.trans h.tag)
  rw [Bank.ofTag?_tag, Bank.ofTag?_tag] at same
  exact Option.some.inj same

end Descriptor

namespace Descriptor

variable {d : Descriptor} {t : RegType} {s : Slot}

theorem Takes.slot_put (h : d.Takes t s) {b : Bank} {xs : List b.Content} {w : Write}
    (hw : w ∈ d.put b xs) : w.cell.bank = s.bank ∧ ∃ k < t.components, w.slot = s.offset k := by
  obtain ⟨t', ht', hkind, hcell, s', hs', k, hk, hslot⟩ := mem_put hw
  obtain rfl := Option.some.inj (h.regType?.symm.trans ht')
  obtain rfl := Option.some.inj (h.location.symm.trans hs')
  have hb : b = s.bank := Kind.of.inj (hkind.symm.trans h.kind)
  exact ⟨hcell.trans hb, k, hk, hslot⟩

theorem Takes.slot_give (h : d.Takes t s) {b : Bank} {cs : List Cell} {w : Write}
    (hw : w ∈ d.give b cs) : b = s.bank ∧ w.cell ∈ cs ∧ ∃ k < t.components, w.slot = s.offset k := by
  obtain ⟨htag, hcell, s', hs', k, hk, hslot⟩ := mem_give hw
  obtain rfl := Option.some.inj (h.location.symm.trans hs')
  exact ⟨h.bank htag, hcell, k, h.width ▸ hk, hslot⟩

theorem WellTyped.spares (typed : d.WellTyped) {σ : Slot} (uncovered : ¬ d.Covers σ) :
    d.Spares σ := by
  rcases typed with hnone | ⟨t, s, takes⟩
  · constructor
    · intro b xs w hw
      obtain ⟨-, -, -, -, s, hs, -⟩ := mem_put hw
      cases hnone.symm.trans hs
    · intro b cs w hw
      obtain ⟨-, -, s, hs, -⟩ := mem_give hw
      cases hnone.symm.trans hs
  · constructor
    · rintro b xs w hw rfl
      exact uncovered ⟨t, s, takes, (takes.slot_put hw).2⟩
    · rintro b cs w hw rfl
      exact uncovered ⟨t, s, takes, (takes.slot_give hw).2.2⟩

end Descriptor

/-- Whatever the descriptor takes, the delivery is of the declared kind and goes to one of
the slots that the descriptor is for. -/
def Delivery.Confined (δ : Delivery) : Prop :=
  ∀ t s, δ.descriptor.Takes t s →
    δ.write.cell.bank = s.bank ∧ ∃ k < t.components, δ.write.slot = s.offset k

theorem Program.confined_nativePuts {p : Program} {f : FuncRef} {params : List Value}
    {returns : List Descriptor} {m : Machine} {δ : Delivery}
    (h : δ ∈ p.nativePuts f params returns m) : δ.Confined := by
  intro t s takes
  obtain ⟨-, b, xs, hw⟩ := mem_nativePuts h
  exact takes.slot_put hw

/-! ## What compiled code returns -/

theorem Activation.bank_of_cell? {a : Activation} {m : Machine} {source : Source} {c : Cell}
    (h : a.cell? m source = some c) : source.kind = .of c.bank := by
  cases source with
  | nil => cases h
  | _ =>
      cases h
      rfl

theorem Activation.bank_returnCells {a : Activation} {m : Machine} {site : ReturnSite}
    (hkind : site.source.kind = .of site.bank) : ∀ c ∈ a.returnCells m site, c.bank = site.bank := by
  intro c hc
  rw [returnCells] at hc
  split at hc
  · next b r hsource =>
      obtain ⟨k, -, rfl⟩ := List.mem_map.1 hc
      rw [hsource] at hkind
      exact Kind.of.inj hkind
  · exact Kind.of.inj ((bank_of_cell? (Option.mem_toList.1 hc)).symm.trans hkind)

theorem Activation.confined_given {a : Activation} {m : Machine} {site : ReturnSite}
    (hkind : site.source.kind = .of site.bank) {δ : Delivery} (h : δ ∈ a.given m site) :
    δ.Confined := by
  intro t s takes
  obtain ⟨-, hw⟩ := mem_given h
  obtain ⟨hbank, hcell, hslot⟩ := takes.slot_give hw
  exact ⟨(bank_returnCells hkind _ hcell).trans hbank, hslot⟩

/-- The descriptor that a call makes for a result takes values of the type of the
result. -/
theorem Expects.takes {p : Program} {e : Entry} {f : FuncRef} {name : String} {h : Handover}
    {m₀ : Machine} {a : Activation} {s : ResultSpec}
    (expects : Expects p (.entry e f name h) m₀ a s) :
    (a.descriptor s).Takes s.type (a.slot s.bank s.reg) := by
  obtain ⟨past, c, rest, m, reached, -, hs⟩ := expects
  obtain ⟨i, t, t', -, calls⟩ := reached.position.site
  obtain ⟨k, j, -, -, declared⟩ := calls.declared s hs
  exact ⟨rfl, rfl, declared.kind⟩

/-- Whatever a run of an entry delivers is confined, and it goes through a descriptor that
the entry has been handed or through one for the result of a call in the run. -/
theorem Execution.confined {p : Program} {e : Entry} {f : FuncRef} {name : String} {h : Handover}
    {m m' : Machine} {r : Int32} (x : Execution p (.entry e f name h) m r m') {δ : Delivery}
    (hδ : δ ∈ x.deliveries) :
    δ.Confined ∧ (δ.descriptor ∈ h.returns ∨
      ∃ a s, Expects p (.entry e f name h) m a s ∧ δ.descriptor = a.descriptor s) := by
  cases x.delivers hδ with
  | put reached mem =>
      obtain ⟨hd, -⟩ := Program.mem_nativePuts mem
      exact ⟨Program.confined_nativePuts mem, reached.returns (List.mem_of_mem_take hd)⟩
  | given reached mem =>
      obtain ⟨hd, -⟩ := Activation.mem_given mem
      obtain ⟨i, t, t', -, -, hnext⟩ := reached.position.step
      exact ⟨Activation.confined_given (Planning.kind_of_next hnext) mem, reached.returns hd⟩

/-! ## Return storage -/

namespace ReturnBuffer

theorem descriptors_getElem? (ts : List RegType) (i : Nat) :
    (ofTypes ts).descriptors[i]? = (ts[i]?).map (descriptor i) :=
  List.getElem?_mapIdx

theorem takes_descriptor {t : RegType} {b : Bank} (h : t.kind = .of b) (i : Nat) :
    (descriptor i t).Takes t ⟨.output i, b, 0⟩ :=
  ⟨by rw [descriptor, h]; rfl, rfl, h⟩

theorem wellTyped {ts : List RegType} {d : Descriptor} (h : d ∈ (ofTypes ts).descriptors) :
    d.WellTyped := by
  obtain ⟨i, hi⟩ := List.mem_iff_getElem?.1 h
  rw [descriptors_getElem?] at hi
  obtain ⟨t, -, rfl⟩ := Option.map_eq_some_iff.1 hi
  cases hkind : t.kind with
  | of b => exact .inr ⟨t, _, takes_descriptor hkind i⟩
  | nil => exact .inl (by rw [descriptor, hkind]; rfl)

theorem of_covers {ts : List RegType} {d : Descriptor} (h : d ∈ (ofTypes ts).descriptors)
    {i : Nat} {c : Bank} {reg : Nat} (covers : d.Covers ⟨.output i, c, reg⟩) :
    ∃ t, ts[i]? = some t ∧ t.kind = .of c ∧ reg < t.components := by
  obtain ⟨j, hj⟩ := List.mem_iff_getElem?.1 h
  rw [descriptors_getElem?] at hj
  obtain ⟨t, ht, rfl⟩ := Option.map_eq_some_iff.1 hj
  obtain ⟨t', s, takes, k, hk, hslot⟩ := covers
  cases hkind : t.kind with
  | nil =>
      have hnone : (descriptor j t).location = none := by
        rw [descriptor, hkind]
        rfl
      cases hnone.symm.trans takes.location
  | of b =>
      obtain ⟨rfl, rfl⟩ := takes.unique (takes_descriptor hkind j)
      obtain ⟨howner, rfl, hreg⟩ := Slot.mk.inj hslot
      obtain rfl := Owner.output.inj howner
      rw [Nat.zero_add] at hreg
      exact ⟨t', ht, hkind, hreg ▸ hk⟩

/-- Storage that has just been provided is blank. -/
theorem load_ofTypes {m : Machine} {ts : List RegType} (hm : m.outputs = (ofTypes ts).outputs)
    (i : Nat) (c : Bank) (reg : Nat) : m.load ⟨.output i, c, reg⟩ = c.blank := by
  rw [load, registers?, hm, ofTypes, List.getElem?_map]
  cases ts[i]? with
  | none => rfl
  | some t => exact Banks.get_blank _ c reg

end ReturnBuffer

namespace Calling

variable {p : Program} {f : FuncRef} {params : List Value} {returns : List Descriptor}
  {m m' : Machine} {o : Except Abort Int32}

def stores : Calling p f params returns m o m' → List Slot
  | native _ _ => p.nativeStores f params returns m.beginCall
  | missing _ _ => []
  | script _ _ run _ => run.stores

theorem load_eq_of_spares (c : Calling p f params returns m o m') {i : Nat} {b : Bank} {reg : Nat}
    (spares : ∀ d ∈ returns, d.Spares ⟨.output i, b, reg⟩)
    (unstored : (⟨.output i, b, reg⟩ : Slot) ∉ c.stores) :
    m'.load ⟨.output i, b, reg⟩ = m.load ⟨.output i, b, reg⟩ := by
  cases c with
  | native isNative ran =>
      have ended := Program.load_callNative_of_spares ran spares unstored
      exact (load_output rfl (outputs_endCall m _)).trans (ended.trans (load_output rfl rfl))
  | missing isScript none =>
      exact load_output rfl (outputs_endCall m _)
  | @script e r ended o settled isScript entry run answer =>
      have ran := run.load_eq_of_spares (keeps_output rfl _ _) trivial spares unstored
      have settle : settled.outputs = ended.outputs := by
        rcases Program.settle_cases answer with ⟨-, rfl, -⟩ | ⟨-, rfl, -⟩
        · rfl
        · rfl
      have stopped := load_output (σ := ⟨.output i, b, reg⟩) rfl
        ((outputs_endCall m settled).trans settle)
      exact stopped.trans (ran.trans (load_output rfl rfl))

end Calling

/-- Return storage for values of the types `ts` has been in use up to the machine `m`, in
any sequence of calls and other operations and for any programs. `stored` are the slots
that natives have stored to meanwhile by their addresses. -/
inductive Serves (ts : List RegType) : List Slot → Machine → Prop where
  | provided (m : Machine) : Serves ts [] { m with outputs := (ReturnBuffer.ofTypes ts).outputs }
  | called {stored : List Slot} {m m' : Machine} {p : Program} {f : FuncRef} {params : List Value}
    {returns : List Descriptor} {o : Except Abort Int32} (before : Serves ts stored m)
    (handed : ∀ d ∈ returns, d ∈ (ReturnBuffer.ofTypes ts).descriptors)
    (c : Calling p f params returns m o m') : Serves ts (stored ++ c.stores) m'
  | calledNative {stored : List Slot} {m m' : Machine} {p : Program} {f : FuncRef}
    {params : List Value} {returns : List Descriptor} {o : Except Abort Int32}
    (before : Serves ts stored m)
    (handed : ∀ d ∈ returns, d ∈ (ReturnBuffer.ofTypes ts).descriptors)
    (ran : p.callNative f params returns m = (o, m')) :
    Serves ts (stored ++ p.nativeStores f params returns m) m'
  | entered {stored : List Slot} {m m' : Machine} {p : Program} {e : Entry} {f : FuncRef}
    {name : String} {h : Handover} {r : Int32} (before : Serves ts stored m)
    (handed : ∀ d ∈ h.returns, d ∈ (ReturnBuffer.ofTypes ts).descriptors)
    (x : Execution p (.entry e f name h) m r m') : Serves ts (stored ++ x.stores) m'
  /-- The host uses a setter itself. -/
  | set {stored : List Slot} {m : Machine} {d : Descriptor} (before : Serves ts stored m)
    (handed : d ∈ (ReturnBuffer.ofTypes ts).descriptors) (b : Bank) (xs : List b.Content) :
    Serves ts stored (m.write (d.put b xs))
  /-- Any operation that has no part in return values. -/
  | other {stored : List Slot} {m m' : Machine} (before : Serves ts stored m)
    (outputs : m'.outputs = m.outputs) : Serves ts stored m'

/-- Storage that no descriptor covers stays blank. -/
theorem Serves.load_eq_blank {ts : List RegType} {stored : List Slot} {m : Machine}
    (serves : Serves ts stored m) {i : Nat} {c : Bank} {reg : Nat}
    (uncovered : ∀ d ∈ (ReturnBuffer.ofTypes ts).descriptors, ¬ d.Covers ⟨.output i, c, reg⟩)
    (unstored : (⟨.output i, c, reg⟩ : Slot) ∉ stored) :
    m.load ⟨.output i, c, reg⟩ = c.blank := by
  have spares : ∀ d ∈ (ReturnBuffer.ofTypes ts).descriptors, d.Spares ⟨.output i, c, reg⟩ :=
    fun d hd => (ReturnBuffer.wellTyped hd).spares (uncovered d hd)
  induction serves with
  | provided m => exact ReturnBuffer.load_ofTypes rfl i c reg
  | called before handed call ih =>
      obtain ⟨hbefore, hcall⟩ := not_or.1 (mt List.mem_append.2 unstored)
      exact (call.load_eq_of_spares (fun d hd => spares d (handed d hd)) hcall).trans (ih hbefore)
  | calledNative before handed ran ih =>
      obtain ⟨hbefore, hran⟩ := not_or.1 (mt List.mem_append.2 unstored)
      exact (Program.load_callNative_of_spares ran (fun d hd => spares d (handed d hd)) hran).trans
        (ih hbefore)
  | entered before handed x ih =>
      obtain ⟨hbefore, hx⟩ := not_or.1 (mt List.mem_append.2 unstored)
      exact (x.load_eq_of_spares (keeps_output rfl _ _) trivial
        (fun d hd => spares d (handed d hd)) hx).trans (ih hbefore)
  | set before handed b xs ih =>
      exact (load_write _ ((spares _ handed).1 b xs)).trans (ih unstored)
  | other before outputs ih => exact (load_output rfl outputs).trans (ih unstored)

/-- Return values are confined to what their descriptors declare.

The descriptors of return storage are for values of their types in the storage of that
kind, and the descriptors that calls make for their results are so too. Through a
well-typed descriptor only the slots are written to that it covers. In a run of an entry or
of a native each delivery is of the declared kind and goes to one of the first slots of
the declared width, and no other slot changes unless a native stores to it by its address.
So return storage that serves any sequence of calls keeps all other content blank. -/
theorem returns_confined :
    (∀ (ts : List RegType) (i : Nat) (t : RegType) (b : Bank), ts[i]? = some t → t.kind = .of b →
      ∃ d, (ReturnBuffer.ofTypes ts).descriptors[i]? = some d ∧ d.Takes t ⟨.output i, b, 0⟩) ∧
    (∀ (p : Program) (e : Entry) (f : FuncRef) (name : String) (h : Handover) (m : Machine)
      (a : Activation) (s : ResultSpec), Expects p (.entry e f name h) m a s →
        (a.descriptor s).Takes s.type (a.slot s.bank s.reg)) ∧
    (∀ (d : Descriptor) (σ : Slot) (m : Machine), d.WellTyped → ¬ d.Covers σ →
      (∀ b xs, (m.write (d.put b xs)).load σ = m.load σ) ∧
        ∀ b cs, (m.write (d.give b cs)).load σ = m.load σ) ∧
    (∀ (p : Program) (e : Entry) (f : FuncRef) (name : String) (h : Handover) (m m' : Machine)
      (r : Int32) (x : Execution p (.entry e f name h) m r m'),
      (∀ δ ∈ x.deliveries, δ.Confined ∧ (δ.descriptor ∈ h.returns ∨
        ∃ a s, Expects p (.entry e f name h) m a s ∧ δ.descriptor = a.descriptor s)) ∧
      ∀ σ, Keeps σ 0 m → (∀ d ∈ h.returns, d.WellTyped ∧ ¬ d.Covers σ) → σ ∉ x.stores →
        m'.load σ = m.load σ) ∧
    (∀ (p : Program) (f : FuncRef) (params : List Value) (returns : List Descriptor)
      (m m' : Machine) (o : Except Abort Int32), p.callNative f params returns m = (o, m') →
      (∀ δ ∈ p.nativePuts f params returns m, δ.Confined ∧ δ.descriptor ∈ returns) ∧
      ∀ σ, (∀ d ∈ returns, d.WellTyped ∧ ¬ d.Covers σ) →
        σ ∉ p.nativeStores f params returns m → m'.load σ = m.load σ) ∧
    ∀ (ts : List RegType) (stored : List Slot) (m : Machine), Serves ts stored m →
      ∀ (i : Nat) (t : RegType) (b : Bank), ts[i]? = some t → t.kind = .of b →
        ∀ (c : Bank) (reg : Nat), c ≠ b ∨ t.components ≤ reg →
          (⟨.output i, c, reg⟩ : Slot) ∉ stored → m.load ⟨.output i, c, reg⟩ = c.blank := by
  refine ⟨?_, fun p e f name h m a s => Expects.takes, ?_, ?_, ?_, ?_⟩
  · intro ts i t b hi hkind
    refine ⟨_, ?_, ReturnBuffer.takes_descriptor hkind i⟩
    rw [ReturnBuffer.descriptors_getElem?, hi]
    rfl
  · intro d σ m typed uncovered
    have spares := typed.spares uncovered
    exact ⟨fun b xs => m.load_write (spares.1 b xs), fun b cs => m.load_write (spares.2 b cs)⟩
  · intro p e f name h m m' r x
    refine ⟨fun δ hδ => x.confined hδ, fun σ keeps hreturns unstored => ?_⟩
    exact x.load_eq_of_spares keeps trivial
      (fun d hd => (hreturns d hd).1.spares (hreturns d hd).2) unstored
  · intro p f params returns m m' o ran
    refine ⟨fun δ hδ => ⟨Program.confined_nativePuts hδ, (Program.mem_nativePuts hδ).1⟩, ?_⟩
    intro σ hreturns unstored
    exact Program.load_callNative_of_spares ran
      (fun d hd => (hreturns d hd).1.spares (hreturns d hd).2) unstored
  · intro ts stored m serves i t b hi hkind c reg hout unstored
    refine serves.load_eq_blank ?_ unstored
    intro d hd hcovers
    obtain ⟨t', ht', hkind', hreg⟩ := ReturnBuffer.of_covers hd hcovers
    obtain rfl := Option.some.inj (hi.symm.trans ht')
    rcases hout with hbank | hwidth
    · exact hbank (Kind.of.inj (hkind'.symm.trans hkind))
    · exact Nat.not_lt.2 hwidth hreg

/-! ## A vector that is wider than declared -/

def returnTriple : Prototype where
  code := [.ret 0 true ⟨.of .float, .triple⟩ 0]
  registers := { floats := 3 }

def returnTriplePlan : Plan where
  steps := [.ret ⟨0, true, .reg .float 0, 3, .float, ⟨.of .float, .triple⟩⟩]
  layout := { registers := { floats := 3 } }
  states := [⟨[], []⟩]

theorem returnTriple_plan : returnTriple.plan = .ok returnTriplePlan := rfl

def returnTripleCode : Code := ⟨returnTriple, returnTriplePlan, returnTriple_plan⟩

def wantPair : Prototype where
  code := [.callConst 0 0 1, .result ⟨.of .float, .pair⟩ 0]
  constants := { pointers := [.function (.native 0)] }
  registers := { floats := 2 }

def wantPairResult : ResultSpec := ⟨1, ⟨.of .float, .pair⟩, .float, 0⟩

def wantPairPlan : Plan where
  steps := [.call ⟨0, .call, .static 0 true, ⟨0, []⟩, [wantPairResult]⟩, .result wantPairResult]
  layout := { registers := { floats := 2 }, returns := 1 }
  states := [⟨[], [wantPairResult]⟩, ⟨[], []⟩]

theorem wantPair_plan : wantPair.plan = .ok wantPairPlan := rfl

def wantPairCode : Code := ⟨wantPair, wantPairPlan, wantPair_plan⟩

def tripleProgram : Program where
  natives := [{ name := "triple", behaviour := fun _ => .put 0 .float [⟨1⟩, ⟨2⟩, ⟨3⟩] (.finish 1) }]

def pairBuffer : ReturnBuffer := .ofTypes [⟨.of .float, .pair⟩]

def pairMachine : Machine := { outputs := pairBuffer.outputs }

def tripleHandover : Handover := ⟨[.float ⟨1⟩, .float ⟨2⟩, .float ⟨3⟩], pairBuffer.descriptors, 1⟩

theorem pairBuffer_uncovered : ∀ d ∈ pairBuffer.descriptors, ¬ d.Covers ⟨.output 0, .float, 2⟩ := by
  intro d hd hcovers
  obtain ⟨t, ht, -, hlt⟩ := ReturnBuffer.of_covers hd hcovers
  cases ht
  exact absurd hlt (by decide)

/-- Of a vector of three floats the first two arrive where two are wanted, from compiled
code. Nothing arrives from a native, whose setter refuses. The third float stays zero. -/
theorem returns_confined_triple :
    (∃ m', Nonempty (Execution tripleProgram (.entry (.compiled returnTripleCode) (.script 0)
        "triple" tripleHandover) pairMachine 1 m') ∧
      m'.load ⟨.output 0, .float, 1⟩ = (⟨2⟩ : Double) ∧
      m'.load ⟨.output 0, .float, 2⟩ = pairMachine.load ⟨.output 0, .float, 2⟩ ∧
      m'.load ⟨.output 0, .float, 2⟩ = Double.zero ∧ m'.load ⟨.output 0, .int, 0⟩ = (0 : Int32)) ∧
    (∃ o m', tripleProgram.callNative (.native 0) [] pairBuffer.descriptors pairMachine = (o, m') ∧
      m'.load ⟨.output 0, .float, 2⟩ = pairMachine.load ⟨.output 0, .float, 2⟩) ∧
    (∃ d ∈ pairBuffer.descriptors, d.Takes ⟨.of .float, .pair⟩ ⟨.output 0, .float, 0⟩ ∧
      (pairMachine.write (d.put .float [⟨1⟩, ⟨2⟩])).load ⟨.output 0, .float, 2⟩ =
        pairMachine.load ⟨.output 0, .float, 2⟩) ∧
    ∃ a, (a : Activation).frame = 0 ∧ Expects tripleProgram (.entry (.compiled wantPairCode)
        (.script 1) "pair" ⟨[], [], 0⟩) {} a wantPairResult ∧
      (a.descriptor wantPairResult).Takes ⟨.of .float, .pair⟩ (a.slot .float 0) := by
  obtain ⟨provided, made, writes, runs, natives, serving⟩ := returns_confined
  have typed : ∀ d ∈ pairBuffer.descriptors, d.WellTyped ∧ ¬ d.Covers ⟨.output 0, .float, 2⟩ :=
    fun d hd => ⟨ReturnBuffer.wellTyped hd, pairBuffer_uncovered d hd⟩
  refine ⟨?_, ?_, ?_, ?_⟩
  · have room : pairMachine.push returnTriplePlan.layout tripleHandover.params =
        .ok (⟨0, returnTriplePlan.layout, { floats := [⟨1⟩, ⟨2⟩, ⟨3⟩] }⟩, _) := rfl
    let x : Execution tripleProgram (.entry (.compiled returnTripleCode) (.script 0) "triple"
      tripleHandover) pairMachine _ _ := .begun room (.returned [] _ _ rfl)
    have unstored : ∀ σ, σ ∉ x.stores := fun σ => List.not_mem_nil
    have serves : Serves [⟨.of .float, .pair⟩] ([] ++ x.stores) _ :=
      .entered (.provided {}) (fun d hd => hd) x
    refine ⟨_, ⟨x⟩, rfl, ?_, ?_, ?_⟩
    · exact (runs _ _ _ _ _ _ _ _ x).2 _ (keeps_output rfl 0 _) typed (unstored _)
    · exact serving _ _ _ serves 0 _ _ rfl rfl .float 2 (.inr (by decide)) (unstored _)
    · exact serving _ _ _ serves 0 _ _ rfl rfl .int 0 (.inl (by decide)) (unstored _)
  · obtain ⟨o, m', ran⟩ : ∃ o m', tripleProgram.callNative (.native 0) [] pairBuffer.descriptors
        pairMachine = (o, m') := ⟨_, _, rfl⟩
    exact ⟨o, m', ran, (natives _ _ _ _ _ _ _ ran).2 _ typed List.not_mem_nil⟩
  · obtain ⟨d, hd, htakes⟩ := provided [⟨.of .float, .pair⟩] 0 _ _ rfl rfl
    have hmem := List.mem_of_getElem? hd
    exact ⟨d, hmem, htakes,
      (writes d _ pairMachine (typed d hmem).1 (typed d hmem).2).1 .float [⟨1⟩, ⟨2⟩]⟩
  · have room : ({} : Machine).push wantPairPlan.layout [] =
        .ok (⟨0, wantPairPlan.layout, { floats := [⟨0⟩, ⟨0⟩] }⟩, _) := rfl
    have reached : Reaches tripleProgram (.entry (.compiled wantPairCode) (.script 1) "pair"
        ⟨[], [], 0⟩) {} [] (.body wantPairPlan.steps _) _ := .begun .start room
    have expects : Expects tripleProgram (.entry (.compiled wantPairCode) (.script 1) "pair"
        ⟨[], [], 0⟩) {} _ wantPairResult :=
      ⟨[], _, _, _, reached, rfl, List.mem_singleton.2 rfl⟩
    exact ⟨_, rfl, expects, made _ _ _ _ _ _ _ _ expects⟩

end CallProtocol
