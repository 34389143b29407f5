import CallProtocol.Proofs.Execution.Invocations
import CallProtocol.Proofs.Execution.Nested
import CallProtocol.Proofs.Execution.Stores
import CallProtocol.Proofs.Renaming.Machine

/-!
# Runs side by side

A task that is performed on two machines of a comparison is performed in the same way: its
steps do the same, its calls lead to the same functions, and it ends with the same code. So
for each run on one side there is a run on the other, with the same invocations of natives,
and at the end of both the machines are still alike.

Entries of the host are left out. They leave frames behind, and then a body no longer finds
its own frame on top of the stack.
-/

namespace CallProtocol

open Machine

/-- The entry is none of the host, and it holds no address of a frame. -/
def Entry.Portable (ρ : Renaming) : Entry → Prop
  | .stub => True
  | .compiled code => ρ.SameBanks code.proto.constants code.proto.constants
  | .host _ => False

theorem Program.Portable.entry {p : Program} (portable : p.Portable)
    (noHost : ∀ f e, (p.head f).entry ≠ some (.host e)) (ρ : Renaming) {f : FuncRef} {e : Entry}
    (he : (p.head f).entry = some e) : e.Portable ρ := by
  cases e with
  | stub => trivial
  | compiled code => exact portable.constants ρ f code he
  | host e => exact absurd he (noHost f e)

def Task.OnTop (m : Machine) : Task → Prop
  | .body _ a => m.serials.head? = some a.frame
  | _ => True

namespace Comparison

structure SameActivation (κ : Comparison) (a a' : Activation) : Prop where
  proto : a.proto = a'.proto
  name : a.name = a'.name
  frame : κ.frame a.frame a'.frame
  locals : κ.SameBanks a.locals a'.locals
  outgoing : List.Forall₂ κ.SameValue a.outgoing a'.outgoing
  handover : κ.SameHandover a.handover a'.handover
  constants : κ.SameBanks a.proto.constants a.proto.constants

inductive SameTask (κ : Comparison) : Task → Task → Prop
  | entry {e : Entry} (portable : e.Portable κ.toRenaming) (f : FuncRef) (name : String)
    {h h' : Handover} (same : κ.SameHandover h h') : SameTask κ (.entry e f name h) (.entry e f name h')
  | native (f : FuncRef) {h h' : Handover} (same : κ.SameHandover h h') :
    SameTask κ (.native f h) (.native f h')
  | null : SameTask κ .null .null
  | body (steps : List Step) {a a' : Activation} (same : κ.SameActivation a a') :
    SameTask κ (.body steps a) (.body steps a')

variable {κ : Comparison}

theorem SameTask.not_ofHost {τ τ' : Task} (h : κ.SameTask τ τ') : ¬ τ.ofHost ∧ ¬ τ'.ofHost := by
  cases h with
  | @entry e portable f name h h' same =>
      cases e with
      | host e => exact portable.elim
      | stub | compiled code => exact ⟨id, id⟩
  | native f same => exact ⟨id, id⟩
  | null => exact ⟨id, id⟩
  | body steps same => exact ⟨id, id⟩

namespace SameActivation

variable {a a' : Activation} {m m' : Machine}

/-! ## Steps -/

theorem slot (h : κ.SameActivation a a') (b : Bank) (r : Nat) :
    κ.SameSlot (a.slot b r) (a'.slot b r) :=
  .mk (.frame h.frame) b r

theorem read (h : κ.SameActivation a a') (hm : κ.SameMachine m m') (b : Bank) (r : Nat) :
    κ.SameContent b (a.read m b r) (a'.read m' b r) := by
  cases b with
  | string => exact hm.load (.frame h.frame) .string r
  | int | float | pointer => exact h.locals.get _ r

theorem cell? (h : κ.SameActivation a a') (hm : κ.SameMachine m m') (s : Source) :
    Option.Rel κ.SameCell (a.cell? m s) (a'.cell? m' s) := by
  cases s with
  | nil => exact .none
  | reg b r => exact .some (.mk b (h.read hm b r))
  | const b k =>
      rw [Activation.cell?, Activation.cell?, ← h.proto]
      exact .some (.mk b (h.constants.get b k))
  | imm v => exact .some (.mk .int (Eq.refl v))
  | address b r => exact .some (.mk .pointer (.slot (h.slot b r)))

theorem assign (h : κ.SameActivation a a') (hm : κ.SameMachine m m') (b : Bank) (r : Nat)
    {x y : b.Content} (hxy : κ.SameContent b x y) :
    κ.SameActivation (a.assign m b r x).1 (a'.assign m' b r y).1 ∧
      κ.SameMachine (a.assign m b r x).2 (a'.assign m' b r y).2 := by
  rw [Activation.assign, Activation.assign]
  split
  · exact ⟨{ h with locals := h.locals.set r hxy }, hm⟩
  · exact ⟨h, hm.store (h.slot b r) (.mk b hxy)⟩

theorem plain (h : κ.SameActivation a a') (hm : κ.SameMachine m m') (op : PlainOp) :
    κ.SameActivation (a.plain m op).1 (a'.plain m' op).1 ∧
      κ.SameMachine (a.plain m op).2 (a'.plain m' op).2 := by
  cases op with
  | nop => exact ⟨h, hm⟩
  | assign b r source =>
      have hcell := h.cell? hm source
      rw [Activation.plain, Activation.plain]
      generalize a.cell? m source = c, a'.cell? m' source = c' at hcell
      cases hcell with
      | none => exact ⟨h, hm⟩
      | @some c c' hc =>
          have hcontent := hc.as? b
          simp only [Option.bind_some]
          generalize c.as? b = x, c'.as? b = y at hcontent
          cases hcontent with
          | none => exact ⟨h, hm⟩
          | some hxy => exact h.assign hm b r hxy
  | addInts r x y =>
      have hx : a.read m .int x = a'.read m' .int x := h.read hm .int x
      have hy : a.read m .int y = a'.read m' .int y := h.read hm .int y
      rw [Activation.plain, Activation.plain, hx, hy]
      exact h.assign hm .int r (Eq.refl _)
  | addFloats r x y =>
      have hx : a.read m .float x = a'.read m' .float x := h.read hm .float x
      have hy : a.read m .float y = a'.read m' .float y := h.read hm .float y
      rw [Activation.plain, Activation.plain, hx, hy]
      exact h.assign hm .float r (Eq.refl _)

theorem stagedValue (h : κ.SameActivation a a') (hm : κ.SameMachine m m') (s : Source) :
    κ.SameValue (a.stagedValue m s) (a'.stagedValue m' s) := by
  have ofCell : ∀ {c c' : Cell}, κ.SameCell c c' → κ.SameValue (.ofCell c) (.ofCell c') := by
    rintro c c' ⟨b, hxy⟩
    cases b with
    | int | float =>
        obtain rfl := hxy
        constructor
    | string =>
        obtain rfl := hxy
        exact .string (.still nofun nofun rfl)
    | pointer => exact .pointer hxy
  have hcell := h.cell? hm s
  rcases Activation.stagedValue_cases s with ⟨r, rfl⟩ | heq
  · exact .string (.register h.frame r)
  · rw [heq, heq]
    generalize a.cell? m s = c, a'.cell? m' s = c' at hcell
    cases hcell with
    | none => exact .nil
    | some hc => exact ofCell hc

theorem stage (h : κ.SameActivation a a') (hm : κ.SameMachine m m') (slot : Nat)
    (params : List Staged) : κ.SameActivation (a.stage m slot params) (a'.stage m' slot params) := by
  induction params generalizing a a' slot with
  | nil => exact h
  | cons p ps ih =>
      have staged : κ.SameActivation
          { a with outgoing := a.outgoing.set slot (a.stagedValue m p.source) }
          { a' with outgoing := a'.outgoing.set slot (a'.stagedValue m' p.source) } :=
        { h with outgoing := Renaming.rel_set h.outgoing slot (h.stagedValue hm p.source) }
      exact ih staged _

theorem returnCells (h : κ.SameActivation a a') (hm : κ.SameMachine m m') (site : ReturnSite) :
    List.Forall₂ κ.SameCell (a.returnCells m site) (a'.returnCells m' site) := by
  have single : ∀ s, List.Forall₂ κ.SameCell (a.cell? m s).toList (a'.cell? m' s).toList := by
    intro s
    have hcell := h.cell? hm s
    generalize a.cell? m s = c, a'.cell? m' s = c' at hcell
    cases hcell with
    | none => exact .nil
    | some hc => exact .cons hc .nil
  rw [Activation.returnCells, Activation.returnCells]
  cases site.source with
  | reg b i =>
      rw [List.forall₂_map_left_iff, List.forall₂_map_right_iff, List.forall₂_same]
      exact fun k _ => .mk b (h.read hm b (i + k))
  | nil | const b k | imm v | address b r => exact single _

theorem giveBack (h : κ.SameActivation a a') (hm : κ.SameMachine m m') (site : ReturnSite) :
    κ.SameMachine (a.giveBack m site) (a'.giveBack m' site) := by
  have hwants : a.wants site.slot = a'.wants site.slot := by
    rw [Activation.wants, Activation.wants, h.handover.wanted]
  have hslot := Renaming.getElem?_rel h.handover.returns site.slot
  rw [Activation.giveBack, Activation.giveBack, ← hwants]
  split
  · generalize a.handover.returns[site.slot]? = d, a'.handover.returns[site.slot]? = d' at hslot
    cases hslot with
    | none => exact hm
    | some hd => exact hm.write (hd.give site.bank (h.returnCells hm site))
  · exact hm

theorem quiet (h : κ.SameActivation a a') (hm : κ.SameMachine m m') (s : Step) :
    Option.Rel (fun x y => κ.SameActivation x.1 y.1 ∧ κ.SameMachine x.2 y.2) (a.quiet m s)
      (a'.quiet m' s) := by
  cases s with
  | plain op => exact .some (h.plain hm op)
  | stage slot params =>
      have hroom : a.hasRoom slot params = a'.hasRoom slot params := by
        rw [Activation.hasRoom, Activation.hasRoom, h.outgoing.length_eq]
      rw [Activation.quiet, Activation.quiet, ← hroom]
      split
      · exact .some ⟨h.stage hm slot params, hm⟩
      · exact .none
  | call c => exact .none
  | result spec => exact .some ⟨h, hm⟩
  | ret site =>
      rw [Activation.quiet, Activation.quiet]
      split
      · exact .none
      · exact .some ⟨h, h.giveBack hm site⟩

/-! ## Calls -/

theorem inOuts_eq (h : κ.SameActivation a a') (c : CallSite) : a.inOuts c = a'.inOuts c := by
  have hcovered : ∀ b r, a.covered b r = a'.covered b r := by
    intro b r
    cases b with
    | float => rw [Activation.covered, Activation.covered, h.proto]
    | int | string | pointer => rfl
  simp only [Activation.inOuts, hcovered]

theorem beforeCall (h : κ.SameActivation a a') (hm : κ.SameMachine m m') (c : CallSite) :
    κ.SameMachine (a.beforeCall m c) (a'.beforeCall m' c) := by
  rw [Activation.beforeCall, Activation.beforeCall, ← h.inOuts_eq, Activation.flush_eq_write,
    Activation.flush_eq_write]
  refine hm.write ?_
  rw [Activation.flushed, Activation.flushed, List.forall₂_map_left_iff,
    List.forall₂_map_right_iff, List.forall₂_same]
  exact fun q _ => ⟨h.slot q.1 q.2, .mk q.1 (h.locals.get q.1 q.2)⟩

theorem refresh (h : κ.SameActivation a a') (hm : κ.SameMachine m m') (regs : List (Bank × Nat)) :
    κ.SameActivation (a.refresh m regs) (a'.refresh m' regs) := by
  induction regs generalizing a a' with
  | nil => exact h
  | cons q regs ih =>
      rw [Activation.refresh, Activation.refresh, List.foldl_cons, List.foldl_cons]
      split
      · exact ih { h with locals := h.locals.set q.2 (hm.load (.frame h.frame) q.1 q.2) }
      · exact ih h

theorem afterCall (h : κ.SameActivation a a') (hm : κ.SameMachine m m') (c : CallSite) :
    κ.SameActivation (a.afterCall m c) (a'.afterCall m' c) := by
  rw [Activation.afterCall, Activation.afterCall, ← h.inOuts_eq]
  exact h.refresh hm _

theorem handoverFor (h : κ.SameActivation a a') (c : CallSite) :
    κ.SameHandover (a.handoverFor c) (a'.handoverFor c) := by
  have hparams := List.forall₂_take c.window.params.length
    (List.forall₂_drop c.window.start h.outgoing)
  rw [Activation.handoverFor, Activation.handoverFor]
  cases c.kind with
  | tail => exact ⟨hparams, h.handover.returns, h.handover.wanted⟩
  | call =>
      refine ⟨hparams, ?_, rfl⟩
      rw [List.forall₂_map_left_iff, List.forall₂_map_right_iff, List.forall₂_same]
      exact fun s _ => ⟨.some (h.slot s.bank s.reg), rfl⟩

end SameActivation

variable {p : Program} {m m' m₁ : Machine} {τ : Task}

theorem SameMachine.functionTask (hm : κ.SameMachine m m') (portable : p.Portable)
    (noHost : ∀ f e, (p.head f).entry ≠ some (.host e)) {native : Bool} {f : FuncRef}
    {h h' : Handover} (hh : κ.SameHandover h h')
    (hτ : p.functionTask native f h m = some (τ, m₁)) :
    ∃ τ' m₁', p.functionTask native f h' m' = some (τ', m₁') ∧ κ.SameTask τ τ' ∧
      κ.SameMachine m₁ m₁' := by
  rw [Program.functionTask] at hτ
  cases native with
  | true =>
      cases hτ
      exact ⟨_, _, rfl, .native f hh, hm⟩
  | false =>
      obtain ⟨e, he, heq⟩ := Option.map_eq_some_iff.1 hτ
      cases heq
      have counted : κ.SameMachine { m with callCount := m.callCount + 1 }
          { m' with callCount := m'.callCount + 1 } := by
        obtain ⟨n, hleft, hright⟩ := hm.callCount
        exact { hm with
          callCount := ⟨n + 1, congrArg (· + 1) hleft, congrArg (· + 1) hright⟩ }
      refine ⟨_, _, ?_, .entry (portable.entry noHost _ he) f (p.name f) hh, counted⟩
      exact Option.map_eq_some_iff.2 ⟨e, he, rfl⟩

theorem SameActivation.callee? {a a' : Activation} (ha : κ.SameActivation a a')
    (hm : κ.SameMachine m m') (portable : p.Portable)
    (noHost : ∀ f e, (p.head f).entry ≠ some (.host e)) {c : CallSite}
    (hτ : p.callee? a c m = some (τ, m₁)) :
    ∃ τ' m₁', p.callee? a' c m' = some (τ', m₁') ∧ κ.SameTask τ τ' ∧ κ.SameMachine m₁ m₁' := by
  have hh := ha.handoverFor c
  cases hc : c.callee with
  | static k native =>
      rw [Program.callee?_of_static hc] at hτ ⊢
      obtain ⟨f, hf, hτ⟩ := Option.bind_eq_some_iff.1 hτ
      rw [← ha.proto, hf]
      exact hm.functionTask portable noHost hh hτ
  | register r =>
      have hread : κ.SamePointer (a.read m .pointer r) (a'.read m' .pointer r) :=
        ha.read hm .pointer r
      rw [Program.callee?_of_register hc] at hτ ⊢
      rw [← hread.isNull_eq, ← hread.function?_eq]
      split at hτ
      · next hnull =>
          cases hτ
          rw [if_pos hnull]
          exact ⟨_, _, rfl, .null, hm⟩
      · next hnull =>
          obtain ⟨f, hf, hτ⟩ := Option.bind_eq_some_iff.1 hτ
          rw [if_neg hnull, hf]
          exact hm.functionTask portable noHost hh hτ

theorem SameMachine.nativeNote {m m' : Machine} (hm : κ.SameMachine m m') (f : FuncRef)
    {params params' : List Value} (hparams : List.Forall₂ κ.SameValue params params')
    {returns returns' : List Descriptor}
    (hreturns : List.Forall₂ κ.SameDescriptor returns returns') :
    List.Forall₂ κ.SameLogEntry (nativeNote f params returns m)
      (nativeNote f params' returns' m') := by
  cases f with
  | script i => exact .nil
  | native i =>
      rw [CallProtocol.nativeNote, CallProtocol.nativeNote, hparams.length_eq,
        Renaming.SameDescriptor.map_regType?_eq hreturns]
      refine .cons (.native i _ _ ?_) .nil
      rw [List.forall₂_map_left_iff, List.forall₂_map_right_iff]
      exact hparams.imp fun _ _ => hm.arg?

/-- On the other side `τ'` can be performed on `m'` with the same outcome. -/
def Matches {p : Program} {τ : Task} {m : Machine} {r : Int32} {m₂ : Machine} (κ : Comparison)
    (x : Execution p τ m r m₂) (τ' : Task) (m' : Machine) : Prop :=
  ∃ (m₂' : Machine) (y : Execution p τ' m' r m₂'), κ.SameMachine m₂ m₂' ∧
    List.Forall₂ κ.SameLogEntry x.invocations y.invocations

/-- Wherever the other side begins alike, the run can be matched there, as long as there is
room for the frames that it pushes. -/
def Reproduces {p : Program} {τ : Task} {m : Machine} {r : Int32} {m₂ : Machine} (κ : Comparison)
    (x : Execution p τ m r m₂) : Prop :=
  m₂.stats.pushed ≤ κ.left.stats.pushed + κ.room → ∀ {τ' : Task} {m' : Machine},
    κ.SameTask τ τ' → κ.SameMachine m m' → τ.OnTop m → τ'.OnTop m' → κ.Matches x τ' m'

end Comparison

/-! ## Runs -/

/-- Without entries of the host, a callee leaves the stack of its caller as it was. -/
theorem Execution.serials_call {p : Program}
    (noHost : ∀ f e, (p.head f).entry ≠ some (.host e)) {a : Activation} {c : CallSite}
    {m m₁ m₂ : Machine} {τ : Task} {r : Int32}
    (callee : p.callee? a c (a.beforeCall m c) = some (τ, m₁)) (call : Execution p τ m₁ r m₂)
    (hτ : ¬ τ.ofHost) : m₂.serials = m.serials := by
  have restacked := Execution.ofCall callee call.restacked
  rw [call.hostFrames_eq_zero noHost hτ] at restacked
  exact restacked.serials_eq

theorem Execution.serials_task? {p : Program} (noHost : ∀ f e, (p.head f).entry ≠ some (.host e))
    {f : FuncRef} {h : Handover} {τ : Task} (hτ : p.task? f h = some τ) {m e : Machine} {r : Int32}
    (x : Execution p τ m r e) : e.serials = m.serials := by
  have plain : τ.ownFrames = 0 ∧ ¬ τ.ofHost := by
    rcases Program.task?_cases hτ with ⟨-, rfl⟩ | ⟨e, -, he, rfl⟩
    · exact ⟨rfl, id⟩
    · cases e with
      | host e => exact absurd he (noHost f e)
      | stub | compiled code => exact ⟨rfl, id⟩
  have restacked := x.restacked
  rw [plain.1, x.hostFrames_eq_zero noHost plain.2] at restacked
  exact restacked.serials_eq

theorem Program.onTop_callee? {p : Program} {a : Activation} {c : CallSite} {m m₁ : Machine}
    {τ : Task} (hτ : p.callee? a c m = some (τ, m₁)) : τ.OnTop m₁ := by
  rcases callee?_cases hτ with ⟨rfl, -⟩ | ⟨f, rfl, -⟩ | ⟨f, e, -, rfl, -⟩
  · trivial
  · trivial
  · trivial

theorem Task.onTop_start {code : Code} {name : String} {h : Handover} {fr : Frame} {m m₁ : Machine}
    {params : List Value} (room : m.push code.plan.layout params = .ok (fr, m₁)) :
    (Task.body code.plan.steps (.start code name h fr)).OnTop m₁ := by
  obtain ⟨-, rfl⟩ := push_eq_ok room
  rfl

theorem Task.OnTop.quiet {s : Step} {rest : List Step} {a a' : Activation} {m m₁ : Machine}
    (h : (Task.body (s :: rest) a).OnTop m) (step : a.quiet m s = some (a', m₁)) :
    (Task.body rest a').OnTop m₁ := by
  change m₁.serials.head? = some a'.frame
  rw [(Activation.sameContext_quiet step).serials, (Activation.sameBody_quiet step).frame]
  exact h

namespace Comparison

variable {κ : Comparison} {p : Program} {m m' m₁ m₂ : Machine} {τ : Task} {r : Int32}

theorem SameHandover.start {h h' : Handover} (same : κ.SameHandover h h') {code : Code}
    (constants : κ.SameBanks code.proto.constants code.proto.constants) (name : String)
    {fr fr' : Frame} (hframe : κ.frame fr.serial fr'.serial)
    (hregs : κ.SameBanks fr.registers fr'.registers) :
    κ.SameActivation (.start code name h fr) (.start code name h' fr') where
  proto := rfl
  name := rfl
  frame := hframe
  locals := hregs
  outgoing := List.forall₂_same.2 fun v hv => by
    rw [List.eq_of_mem_replicate hv]
    exact .nil
  handover := same
  constants := constants

/-- A call that is made on both sides, if what it leads to can be matched. -/
theorem SameActivation.call {a a' : Activation} (ha : κ.SameActivation a a')
    (hm : κ.SameMachine m m') (portable : p.Portable)
    (noHost : ∀ f e, (p.head f).entry ≠ some (.host e)) {c : CallSite}
    (top : m.serials.head? = some a.frame) (top' : m'.serials.head? = some a'.frame)
    (callee : p.callee? a c (a.beforeCall m c) = some (τ, m₁)) {call : Execution p τ m₁ r m₂}
    (ih : κ.Reproduces call) (room : m₂.stats.pushed ≤ κ.left.stats.pushed + κ.room) :
    ∃ (τ' : Task) (m₁' m₂' : Machine) (y : Execution p τ' m₁' r m₂'),
      p.callee? a' c (a'.beforeCall m' c) = some (τ', m₁') ∧ κ.SameMachine m₂ m₂' ∧
        List.Forall₂ κ.SameLogEntry call.invocations y.invocations ∧
        m₂.serials.head? = some a.frame ∧ m₂'.serials.head? = some a'.frame := by
  obtain ⟨τ', m₁', callee', hτ, hm₁⟩ := ha.callee? (ha.beforeCall hm c) portable noHost callee
  obtain ⟨m₂', y, hm₂, hinvocations⟩ :=
    ih room hτ hm₁ (Program.onTop_callee? callee) (Program.onTop_callee? callee')
  refine ⟨τ', m₁', m₂', y, callee', hm₂, hinvocations, ?_, ?_⟩
  · rw [Execution.serials_call noHost callee call hτ.not_ofHost.1]
    exact top
  · rw [Execution.serials_call noHost callee' y hτ.not_ofHost.2]
    exact top'

/-! ## Runs, rule by rule -/

namespace Reproduces

theorem refused {code : Code} {f : FuncRef} {name : String} {h : Handover} {e : FillError}
    (full : m.push code.plan.layout h.params = .error e) :
    κ.Reproduces (.refused full : Execution p (.entry (.compiled code) f name h) m _ _) := by
  intro room τ' m' hτ hm top top'
  cases hτ with
  | entry portable f name same =>
      rcases hm.push code.plan.layout same.params with ⟨fr, fr', m₁, m₁', hpush, -⟩ | ⟨e', he, he'⟩
      · rw [full] at hpush
        cases hpush
      · obtain rfl := Except.error.inj (full.symm.trans he)
        exact ⟨_, .refused he', hm.raise _, .nil⟩

theorem begun {code : Code} {f : FuncRef} {name : String} {h : Handover} {fr : Frame}
    (pushed : m.push code.plan.layout h.params = .ok (fr, m₁))
    {body : Execution p (.body code.plan.steps (.start code name h fr)) m₁ r m₂}
    (ih : κ.Reproduces body) : κ.Reproduces (.begun (f := f) pushed body) := by
  intro room τ' m' hτ hm top top'
  cases hτ with
  | @entry _ constants f name h h' same =>
      rcases hm.push code.plan.layout same.params with
        ⟨fr₀, fr', m₀, m₁', hpush, hpush', hregs, hrest⟩ | ⟨e, he, -⟩
      · obtain ⟨rfl, rfl⟩ := Prod.mk.inj (Except.ok.inj (pushed.symm.trans hpush))
        obtain ⟨hframe, hm₁⟩ := hrest (Nat.le_trans body.restacked.1 room)
        obtain ⟨m₂', y, hm₂, hinvocations⟩ :=
          ih room (.body _ (same.start constants name hframe hregs)) hm₁
            (Task.onTop_start pushed) (Task.onTop_start hpush')
        exact ⟨m₂', .begun hpush' y, hm₂, hinvocations⟩
      · rw [pushed] at he
        cases he

theorem native (portable : p.Portable) {f : FuncRef} {h : Handover}
    (ran : p.nativeCall f h m = (r, m₂)) : κ.Reproduces (.native ran) := by
  intro room τ' m' hτ hm top top'
  cases hτ with
  | @native f h h' same =>
      obtain ⟨hcode, hm₂⟩ := hm.nativeCall portable f same
      rw [ran] at hcode hm₂
      have hvisible : List.Forall₂ κ.SameDescriptor h.visibleReturns h'.visibleReturns := by
        rw [Handover.visibleReturns, Handover.visibleReturns, same.wanted]
        exact List.forall₂_take _ same.returns
      exact ⟨(p.nativeCall f h' m').2, .native (Prod.ext hcode.symm rfl), hm₂,
        hm.nativeNote f same.params hvisible⟩

theorem quiet {s : Step} {rest : List Step} {a a₁ : Activation}
    (step : a.quiet m s = some (a₁, m₁)) {next : Execution p (.body rest a₁) m₁ r m₂}
    (ih : κ.Reproduces next) : κ.Reproduces (.quiet step next) := by
  intro room τ' m' hτ hm top top'
  cases hτ with
  | @body _ _ a' same =>
      have hstep := same.quiet hm s
      rw [step] at hstep
      generalize hstep' : a'.quiet m' s = q at hstep
      cases hstep with
      | @some _ q h =>
          obtain ⟨m₂', y, hm₂, hinvocations⟩ :=
            ih room (.body rest h.1) h.2 (top.quiet step) (top'.quiet hstep')
          exact ⟨m₂', .quiet hstep' y, hm₂, hinvocations⟩

theorem returned {site : ReturnSite} (rest : List Step) (a : Activation)
    (final : site.final = true) : κ.Reproduces (.returned (p := p) rest a m final) := by
  intro room τ' m' hτ hm top top'
  cases hτ with
  | @body _ _ a' same =>
      have hcode : a'.finalCode site = a.finalCode site := by
        rw [Activation.finalCode, Activation.finalCode, same.handover.wanted]
      have hgiven := (same.giveBack hm site).pop same.frame
        (by rw [(a.sameContext_giveBack m site).serials]; exact top)
        (by rw [(a'.sameContext_giveBack m' site).serials]; exact top')
      obtain ⟨y, hy⟩ : ∃ y : Execution p (.body (.ret site :: rest) a') m' (a.finalCode site)
          (a'.giveBack m' site).pop, y.invocations = [] := by
        rw [← hcode]
        exact ⟨.returned rest a' m' final, rfl⟩
      exact ⟨_, y, hgiven, by rw [hy]; exact .nil⟩

variable {c : CallSite} {rest : List Step} {a : Activation}

theorem unwound (portable : p.Portable) (noHost : ∀ f e, (p.head f).entry ≠ some (.host e))
    (callee : p.callee? a c (a.beforeCall m c) = some (τ, m₁)) {call : Execution p τ m₁ r m₂}
    (ih : κ.Reproduces call) (negative : r < 0) :
    κ.Reproduces (.unwound callee call negative : Execution p (.body (.call c :: rest) a) m r _) := by
  intro room τ' m' hτ hm top top'
  rw [stats_unwind, pushed_pop] at room
  cases hτ with
  | @body _ _ a' same =>
      obtain ⟨τ', m₁', m₂', y, callee', hm₂, hinvocations, htop, htop'⟩ :=
        same.call hm portable noHost top top' callee ih room
      have hunwound := hm₂.unwind same.frame htop htop' a.name
      rw [same.name] at hunwound
      exact ⟨_, .unwound callee' y negative, by rw [same.name]; exact hunwound, hinvocations⟩

theorem tailed (portable : p.Portable) (noHost : ∀ f e, (p.head f).entry ≠ some (.host e))
    (callee : p.callee? a c (a.beforeCall m c) = some (τ, m₁)) {call : Execution p τ m₁ r m₂}
    (ih : κ.Reproduces call) (resumes : 0 ≤ r) (kind : c.kind = .tail) :
    κ.Reproduces
      (.tailed callee call resumes kind : Execution p (.body (.call c :: rest) a) m r _) := by
  intro room τ' m' hτ hm top top'
  rw [pushed_pop] at room
  cases hτ with
  | @body _ _ a' same =>
      obtain ⟨τ', m₁', m₂', y, callee', hm₂, hinvocations, htop, htop'⟩ :=
        same.call hm portable noHost top top' callee ih room
      exact ⟨_, .tailed callee' y resumes kind, hm₂.pop same.frame htop htop', hinvocations⟩

theorem resumed (portable : p.Portable) (noHost : ∀ f e, (p.head f).entry ≠ some (.host e))
    (callee : p.callee? a c (a.beforeCall m c) = some (τ, m₁)) {call : Execution p τ m₁ r m₂}
    (ihcall : κ.Reproduces call) (resumes : 0 ≤ r) (kind : c.kind = .call) {r' : Int32}
    {m₃ : Machine} {next : Execution p (.body rest (a.afterCall m₂ c)) m₂ r' m₃}
    (ihnext : κ.Reproduces next) : κ.Reproduces (.resumed callee call resumes kind next) := by
  intro room τ' m' hτ hm top top'
  cases hτ with
  | @body _ _ a' same =>
      obtain ⟨τ', m₁', m₂', y, callee', hm₂, hinvocations, htop, htop'⟩ :=
        same.call hm portable noHost top top' callee ihcall (Nat.le_trans next.restacked.1 room)
      -- the registers that are loaded again do not change which frame is the body's
      have hframe : (a.afterCall m₂ c).frame = a.frame := (a.sameBody_refresh m₂ _).frame
      have hframe' : (a'.afterCall m₂' c).frame = a'.frame := (a'.sameBody_refresh m₂' _).frame
      obtain ⟨m₃', z, hm₃, hinvocations'⟩ :=
        ihnext room (.body rest (same.afterCall hm₂ c)) hm₂ (htop.trans (congrArg some hframe.symm))
          (htop'.trans (congrArg some hframe'.symm))
      exact ⟨m₃', .resumed callee' y resumes kind z, hm₃,
        List.rel_append hinvocations hinvocations'⟩

end Reproduces

/-- Without entries of the host, a portable program does the same on machines that are alike. -/
theorem reproduces (portable : p.Portable) (noHost : ∀ f e, (p.head f).entry ≠ some (.host e))
    (x : Execution p τ m r m₂) : κ.Reproduces x := by
  induction x with
  | stub f name h m =>
      intro room τ' m' hτ hm top top'
      cases hτ with
      | entry portable f name same => exact ⟨_, .stub f name _ m', hm.raise _, .nil⟩
  | host e f name h m =>
      intro room τ' m' hτ hm top top'
      cases hτ with
      | entry portable f name same => exact portable.elim
  | refused full => exact .refused full
  | begun pushed body ih => exact .begun pushed ih
  | native ran => exact .native portable ran
  | null m =>
      intro room τ' m' hτ hm top top'
      cases hτ
      exact ⟨_, .null m', hm.raise _, .nil⟩
  | fallOff a m =>
      intro room τ' m' hτ hm top top'
      cases hτ with
      | body _ same => exact ⟨_, .fallOff _ m', hm.pop same.frame top top', .nil⟩
  | quiet step next ih => exact .quiet step ih
  | returned rest a m final => exact .returned rest a final
  | unwound callee call negative ih => exact .unwound portable noHost callee ih negative
  | tailed callee call resumes kind ih => exact .tailed portable noHost callee ih resumes kind
  | resumed callee call resumes kind next ihcall ihnext =>
      exact .resumed portable noHost callee ihcall resumes kind ihnext

end Comparison

end CallProtocol
