import CallProtocol.Proofs.Renaming.Execution
import CallProtocol.Session

/-!
# Machines without addresses of frames to come

A machine is closed if no address in it leads to a frame that has not been pushed yet. For
then a frame can be given any number that is not in use, and nothing changes but its name.

A machine is closed exactly if it is like itself under the renaming that knows the frames
pushed so far. So the calls of a portable program keep a machine closed because a run goes
along with itself.
-/

namespace CallProtocol

open Machine

def Owner.Known (n : Nat) : Owner → Prop
  | .frame s => s < n
  | .output _ => True

def Pointer.Known (n : Nat) (p : Pointer) : Prop := ∀ s, p = .slot s → s.owner.Known n

def Value.Known (n : Nat) (v : Value) : Prop := ∀ p, v.pointer? = some p → p.Known n

def Descriptor.Known (n : Nat) (d : Descriptor) : Prop :=
  ∀ s, d.location = some s → s.owner.Known n

/-- The frames have different numbers, and every address leads to a frame that has been
pushed or to the return storage. -/
structure Machine.Closed (m : Machine) : Prop where
  ordered : m.Ordered
  known : ∀ o r, m.registers? o = some r → ∀ i, Pointer.Known m.stats.pushed (r.get .pointer i)

namespace Renaming

variable {ρ : Renaming} {n : Nat}

theorem SameOwner.of_known (h : ∀ s < n, ρ.frame s s) {o : Owner} (ho : o.Known n) :
    ρ.SameOwner o o := by
  cases o with
  | frame s => exact .frame (h s ho)
  | output i => exact .output i

theorem SameSlot.of_known (h : ∀ s < n, ρ.frame s s) {s : Slot} (hs : s.owner.Known n) :
    ρ.SameSlot s s :=
  .mk (.of_known h hs) s.bank s.reg

theorem SamePointer.of_known (h : ∀ s < n, ρ.frame s s) {p : Pointer} (hp : p.Known n) :
    ρ.SamePointer p p := by
  cases p with
  | address a => exact .address a
  | function f => exact .function f
  | slot s => exact .slot (.of_known h (hp s rfl))

theorem SameDescriptor.of_known (h : ∀ s < n, ρ.frame s s) {d : Descriptor} (hd : d.Known n) :
    ρ.SameDescriptor d d := by
  refine ⟨?_, rfl⟩
  cases hlocation : d.location with
  | none => exact .none
  | some s => exact .some (.of_known h (hd s hlocation))

theorem SameBanks.of_known (h : ∀ s < n, ρ.frame s s) {r : Banks}
    (hr : ∀ i, Pointer.Known n (r.get .pointer i)) : ρ.SameBanks r r where
  size _ := rfl
  get b i := by
    cases b with
    | pointer => exact SamePointer.of_known h (hr i)
    | int | float | string => exact Eq.refl _

def upTo (n : Nat) : Renaming where
  frame s s' := s = s' ∧ s < n
  unique := by
    constructor
    · rintro s t s' ⟨rfl, -⟩ ⟨rfl, -⟩
      rfl
    · rintro s t t' ⟨rfl, -⟩ ⟨rfl, -⟩
      rfl

theorem known_of_upTo {p : Pointer} (h : (upTo n).SamePointer p p) : p.Known n := by
  rintro s rfl
  cases h with
  | slot h =>
      obtain ⟨o, b, r⟩ := s
      cases h with
      | mk h b r =>
          cases h with
          | frame h => exact h.2
          | output i => trivial

end Renaming

namespace Machine

theorem registers?_eq_none {m : Machine} (ordered : m.Ordered) {s : Nat}
    (hs : m.stats.pushed ≤ s) : m.registers? (.frame s) = none := by
  have hbelow := (List.pairwise_cons.1 ordered).1
  have hnone : m.frames.find? (·.serial == s) = none := by
    refine List.find?_eq_none.2 fun x hx => ?_
    have hlt := hbelow x.serial (List.mem_map_of_mem hx)
    simp only [beq_iff_eq]
    omega
  rw [registers?, hnone]
  rfl

theorem closed_withNewContext {m : Machine}
    (h : ∀ r ∈ m.outputs, ∀ i, Pointer.Known 0 (r.get .pointer i)) :
    m.withNewContext.Closed where
  ordered := List.pairwise_singleton _ _
  known := by
    intro o r hr
    cases o with
    | frame s => cases hr
    | output i => exact h r (List.mem_of_getElem? hr)

end Machine

theorem ReturnBuffer.known {ts : List RegType} (n : Nat) :
    ∀ d ∈ (ofTypes ts).descriptors, d.Known n := by
  intro d hd s hs
  obtain ⟨i, hi, rfl⟩ := List.mem_mapIdx.1 hd
  obtain ⟨b, -, rfl⟩ := Option.map_eq_some_iff.1 hs
  trivial

def Comparison.itself (m : Machine) (n : Nat) : Comparison where
  toRenaming := .upTo n
  left := m
  right := m
  room := n - m.stats.pushed
  fresh := fun i hi => ⟨rfl, by omega⟩

namespace Comparison

variable {m : Machine} {n : Nat}

theorem SameMachine.of_closed (closed : m.Closed) (hn : m.stats.pushed ≤ n) :
    (itself m n).SameMachine m m where
  registers := by
    intro o o' ho
    have heq : o = o' := by
      cases ho with
      | frame h => rw [h.1]
      | output i => rfl
    subst heq
    cases hr : m.registers? o with
    | none => exact .none
    | some r =>
        refine .some (Renaming.SameBanks.of_known ?_ (closed.known o r hr))
        exact fun s hs => ⟨rfl, Nat.lt_of_lt_of_le hs hn⟩
  leftStill _ _ := rfl
  rightStill _ _ := rfl
  leftOrdered := closed.ordered
  rightOrdered := closed.ordered
  pushed := ⟨0, rfl, rfl⟩
  popped := ⟨0, rfl, rfl⟩
  callCount := ⟨0, rfl, rfl⟩
  log := ⟨[], [], (List.append_nil _).symm, (List.append_nil _).symm, .nil⟩
  pending := rfl
  clock := rfl
  invoked := rfl
  events := rfl

theorem SameMachine.closed {m₀ : Machine} (h : (itself m₀ m.stats.pushed).SameMachine m m) :
    m.Closed where
  ordered := h.leftOrdered
  known := by
    intro o r hr i
    have hframe : ∀ s < m.stats.pushed, (itself m₀ m.stats.pushed).frame s s :=
      fun s hs => ⟨rfl, hs⟩
    -- a frame on the stack is one of those that have been pushed
    have howner : (itself m₀ m.stats.pushed).SameOwner o o := by
      refine Renaming.SameOwner.of_known hframe ?_
      cases o with
      | output j => trivial
      | frame s =>
          refine Nat.not_le.1 fun hs => ?_
          rw [registers?_eq_none h.leftOrdered hs] at hr
          cases hr
    have hregisters := h.registers howner
    rw [hr] at hregisters
    cases hregisters with
    | some hregs => exact Renaming.known_of_upTo (hregs.get .pointer i)

theorem SameText.refl (t : TextRef) : (itself m n).SameText t t := by
  cases t with
  | null => exact .still nofun nofun rfl
  | text s => exact .still nofun nofun rfl
  | register s r =>
      by_cases hs : s < n
      · refine .register ?_ r
        exact ⟨rfl, hs⟩
      · refine .still ?_ ?_ rfl
        · rintro _ _ ⟨⟩ s' h
          exact hs h.2
        · rintro _ _ ⟨⟩ s' h
          exact hs (h.1 ▸ h.2)

theorem SameValue.of_known {v : Value} {k : Nat} (hv : v.Known k) (hk : k ≤ n) :
    (itself m n).SameValue v v := by
  cases v with
  | int i => exact .int i
  | float x => exact .float x
  | string t => exact .string (.refl t)
  | nil => exact .nil
  | invalid tag => exact .invalid tag
  | pointer q =>
      refine .pointer (Renaming.SamePointer.of_known (n := k) ?_ (hv q rfl))
      exact fun s hs => ⟨rfl, Nat.lt_of_lt_of_le hs hk⟩

theorem SameHandover.of_known {h : Handover} {k : Nat} (hparams : ∀ v ∈ h.params, v.Known k)
    (hreturns : ∀ d ∈ h.returns, d.Known k) (hk : k ≤ n) : (itself m n).SameHandover h h where
  params := List.forall₂_same.2 fun v hv => SameValue.of_known (hparams v hv) hk
  returns := List.forall₂_same.2 fun d hd => by
    have hframe : ∀ s < k, (itself m n).frame s s := fun s hs => ⟨rfl, Nat.lt_of_lt_of_le hs hk⟩
    exact .of_known hframe (hreturns d hd)
  wanted := rfl

end Comparison

namespace Machine.Closed

variable {m m' : Machine}

theorem congr (h : m.Closed) (hframes : m'.frames = m.frames) (houtputs : m'.outputs = m.outputs)
    (hpushed : m'.stats.pushed = m.stats.pushed) : m'.Closed where
  ordered := by
    rw [Ordered, hpushed, serials, hframes]
    exact h.ordered
  known := by
    intro o r hr
    rw [registers?_congr hframes houtputs] at hr
    rw [hpushed]
    exact h.known o r hr

theorem beginCall (h : m.Closed) : m.beginCall.Closed := h.congr rfl rfl rfl

theorem endCall {ended : Machine} (h : ended.Closed) : (m.endCall ended).Closed :=
  h.congr (frames_endCall m ended) (outputs_endCall m ended) (by rw [stats_endCall])

theorem provide (h : m.Closed) (ts : List RegType) :
    ({ m with outputs := (ReturnBuffer.ofTypes ts).outputs } : Machine).Closed where
  ordered := h.ordered
  known := by
    intro o r hr i
    cases o with
    | frame s => exact h.known (.frame s) r hr i
    | output j =>
        have hmem : r ∈ (ReturnBuffer.ofTypes ts).outputs := List.mem_of_getElem? hr
        obtain ⟨t, -, rfl⟩ := List.mem_map.1 hmem
        rw [ReturnBuffer.output, Banks.get_blank]
        rintro s ⟨⟩

theorem push {layout : FrameLayout} {params : List Value} {fr : Frame} (h : m.Closed)
    (hparams : ∀ v ∈ params, v.Known m.stats.pushed)
    (room : Machine.push m layout params = .ok (fr, m')) : m'.Closed := by
  have hpushed : m'.stats.pushed = m.stats.pushed + 1 := by
    obtain ⟨-, rfl⟩ := push_eq_ok room
    rfl
  have hle : m.stats.pushed ≤ m'.stats.pushed := hpushed ▸ Nat.le_succ _
  have same := Comparison.SameMachine.of_closed h hle
  rcases same.push layout (List.forall₂_same.2 fun v hv => .of_known (hparams v hv) hle) with
    ⟨fr₁, fr₁', m₁, m₁', hpush, hpush', -, hrest⟩ | ⟨e, he, -⟩
  · obtain ⟨rfl, rfl⟩ := Prod.mk.inj (Except.ok.inj (room.symm.trans hpush))
    obtain ⟨-, rfl⟩ := Prod.mk.inj (Except.ok.inj (room.symm.trans hpush'))
    exact (hrest (Nat.le_of_eq (Nat.add_sub_of_le hle).symm)).2.closed
  · rw [room] at he
    cases he

theorem pop (h : m.Closed) : (Machine.pop m).Closed where
  ordered := h.ordered.pop
  known := by
    intro o r hr
    rw [pushed_pop]
    cases htop : m.serials.head? with
    | none =>
        have hframes : m.frames = [] := List.map_eq_nil_iff.1 (List.head?_eq_none_iff.1 htop)
        rw [Machine.pop, hframes] at hr
        exact h.known o r hr
    | some s =>
        rw [registers?_of_pop h.ordered htop] at hr
        split at hr
        · cases hr
        · exact h.known o r hr

variable {p : Program} {f : FuncRef}

/-- A native keeps the machine closed, if what it is handed knows no frames to come either. -/
theorem callNative (portable : p.Portable) {params : List Value} {returns : List Descriptor}
    {o : Except Abort Int32} (h : m.Closed) (hparams : ∀ v ∈ params, v.Known m.stats.pushed)
    (hreturns : ∀ d ∈ returns, d.Known m.stats.pushed)
    (ran : p.callNative f params returns m = (o, m')) : m'.Closed := by
  have hle : m.stats.pushed ≤ m'.stats.pushed :=
    Nat.le_of_eq (by rw [(Program.callNative_context ran).stats])
  have hand := Comparison.SameHandover.of_known (m := m) (h := ⟨params, returns, 0⟩) hparams
    hreturns hle
  have same := ((Comparison.SameMachine.of_closed h hle).callNative portable f hand.params
    hand.returns).2
  rw [ran] at same
  exact same.closed

theorem entry (portable : p.Portable) (noHost : ∀ f e, (p.head f).entry ≠ some (.host e))
    {e : Entry} {name : String} {ho : Handover} {r : Int32} (h : m.Closed)
    (hparams : ∀ v ∈ ho.params, v.Known m.stats.pushed)
    (hreturns : ∀ d ∈ ho.returns, d.Known m.stats.pushed) (installed : (p.head f).entry = some e)
    (x : Execution p (.entry e f name ho) m r m') : m'.Closed := by
  have hle : m.stats.pushed ≤ m'.stats.pushed := x.restacked.1
  have task : (Comparison.itself m m'.stats.pushed).SameTask (.entry e f name ho)
      (.entry e f name ho) :=
    .entry (portable.entry noHost _ installed) f name (.of_known hparams hreturns hle)
  obtain ⟨m₁, y, same, -⟩ := Comparison.reproduces portable noHost x
    (Nat.le_of_eq (Nat.add_sub_of_le hle).symm) task (.of_closed h hle) trivial trivial
  obtain ⟨-, rfl⟩ := x.outcome_unique y
  exact same.closed

theorem call (portable : p.Portable) (noHost : ∀ f e, (p.head f).entry ≠ some (.host e))
    {params : List Value} {returns : List Descriptor} {o : Except Abort Int32} (h : m.Closed)
    (hparams : ∀ v ∈ params, v.Known m.stats.pushed)
    (hreturns : ∀ d ∈ returns, d.Known m.stats.pushed)
    (c : Calling p f params returns m o m') : m'.Closed := by
  cases c with
  | missing isScript none => exact h.beginCall.endCall
  | native isNative ran => exact (h.beginCall.callNative portable hparams hreturns ran).endCall
  | @script e r ended o settled isScript installed run answer =>
      have closed : ended.Closed :=
        h.beginCall.entry portable noHost hparams hreturns installed run
      rcases Program.settle_cases answer with ⟨-, rfl, -⟩ | ⟨-, rfl, -⟩
      · have hdepth : ended.depth = m.depth := depth_of_serials
          (run.serials_task? noHost (Program.task?_of_entry isScript installed _))
        rw [popTo_of_depth hdepth]
        have cleared : ended.clearPending.Closed := closed.congr rfl rfl rfl
        exact cleared.endCall
      · exact closed.endCall

end Machine.Closed

end CallProtocol
