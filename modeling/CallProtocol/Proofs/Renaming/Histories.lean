import CallProtocol.Proofs.Execution.Residue
import CallProtocol.Proofs.FrameBalance
import CallProtocol.Proofs.Renaming.Tail

/-!
# Contexts with different histories

Two contexts in which different things have been done have pushed different numbers of frames,
and some of their frames are still there. A call goes the same way in both, if frames from
before stand for each other only where they hold the same, and from then on each frame stands
for the one that is pushed as many frames later. The renaming `Renaming.since` says so.

What makes a new frame different from all others is that its number has not been used. In a
context this is so whatever has been done with it: the numbers on its stack fall from the top
to the bottom, and the next one is greater.
-/

namespace CallProtocol

open Machine

/-! ## The stack of a context -/

namespace Machine.Ordered

variable {m m' : Machine}

theorem sublist (h : m.Ordered) (hserials : m'.serials.Sublist m.serials)
    (hpushed : m'.stats.pushed = m.stats.pushed) : m'.Ordered := by
  rw [Ordered, hpushed]
  exact List.Pairwise.sublist (hserials.cons_cons _) h

theorem pushEmpties (h : m.Ordered) (n : Nat) : (Machine.pushEmpties n m).Ordered := by
  induction n with
  | zero => exact h
  | succ n ih =>
      obtain ⟨fr, room⟩ := push_empty (Machine.pushEmpties n m)
      exact ih.push room

theorem callee {p : Program} {a : Activation} {c : CallSite} {τ : Task} (h : m.Ordered)
    (callee : p.callee? a c (a.beforeCall m c) = some (τ, m')) : m'.Ordered := by
  obtain ⟨hserials, hstats, -, -⟩ := Program.callee?_context callee
  exact h.same hserials hstats

theorem afterNative (h : m.Ordered) (after : AfterNative m m') : m'.Ordered :=
  h.same after.serials after.stats

end Machine.Ordered

/-- Whatever is performed, the numbers on the stack stay in order. -/
theorem Execution.ordered {p : Program} {τ : Task} {m m' : Machine} {r : Int32}
    (x : Execution p τ m r m') (h : m.Ordered) : m'.Ordered := by
  induction x with
  | stub f name ho m => exact h.same (serials_raise m _) (stats_raise m _)
  | host e f name ho m =>
      obtain ⟨hframes, hstats, -⟩ := Program.runHostEntry_context e f ho m
      have noted : (Program.noteEntry f ho m).Ordered := h
      exact (noted.pushEmpties e.pushes).same (congrArg (List.map Frame.serial) hframes) hstats
  | refused full => exact h.same (serials_raise _ _) (stats_raise _ _)
  | begun room body ih => exact ih (h.push room)
  | native ran =>
      obtain ⟨hserials, hstats⟩ := Program.nativeCall_context ran
      exact h.same hserials hstats
  | null m => exact h.same (serials_raise m _) (stats_raise m _)
  | fallOff a m => exact h.pop
  | quiet step next ih =>
      have same := Activation.sameContext_quiet step
      exact ih (h.same same.serials same.stats)
  | @returned site rest a m final =>
      have same := a.sameContext_giveBack m site
      exact (h.same same.serials same.stats).pop
  | @unwound c rest a m τ m₁ r m₂ callee call negative ih =>
      refine (ih (h.callee callee)).sublist ?_ (by rw [stats_unwind, pushed_pop])
      rw [serials_unwind]
      exact List.tail_sublist _
  | tailed callee call resumes kind ih => exact (ih (h.callee callee)).pop
  | resumed callee call resumes kind next ihcall ihnext => exact ihnext (ihcall (h.callee callee))

theorem Calling.ordered {p : Program} {f : FuncRef} {params : List Value}
    {returns : List Descriptor} {m m' : Machine} {o : Except Abort Int32}
    (c : Calling p f params returns m o m') (h : m.Ordered) : m'.Ordered := by
  have begun : m.beginCall.Ordered := h
  have stopped : ∀ {ended : Machine}, ended.Ordered → (m.endCall ended).Ordered := by
    intro ended h
    exact h.same (congrArg (List.map Frame.serial) (frames_endCall m ended)) (stats_endCall m ended)
  cases c with
  | native isNative ran => exact stopped (begun.afterNative (Program.callNative_context ran))
  | missing isScript none => exact stopped begun
  | script isScript entry run answer =>
      have ran := run.ordered begun
      rcases Program.settle_cases answer with ⟨-, rfl, -⟩ | ⟨-, rfl, -⟩
      · refine stopped (ran.sublist ?_ rfl)
        exact (List.drop_sublist _ _).map _
      · exact stopped ran

theorem History.ordered {past : List Machine} {m : Machine} (h : History past m) : m.Ordered := by
  induction h with
  | created m => exact List.pairwise_singleton _ _
  | pushed before room ih => exact ih.push room
  | popped before ih => exact ih.pop
  | raised a before ih => exact ih.same (serials_raise _ a) (stats_raise _ a)
  | taken before ih => exact ih
  | calledNative before ran ih => exact ih.afterNative (Program.callNative_context ran)
  | called before c ih => exact c.ordered ih
  | entered before x ih => exact x.ordered ih
  | provided outputs log events before ih => exact ih

/-! ## Frames from before and frames to come -/

namespace Renaming

variable {ρ σ : Renaming}

section Mono

variable (h : ∀ {s s'}, ρ.frame s s' → σ.frame s s')

include h

theorem SameOwner.mono {o o' : Owner} (same : ρ.SameOwner o o') : σ.SameOwner o o' := by
  cases same with
  | frame hs => exact .frame (h hs)
  | output i => exact .output i

theorem SamePointer.mono {q q' : Pointer} (same : ρ.SamePointer q q') : σ.SamePointer q q' := by
  cases same with
  | address a => exact .address a
  | function f => exact .function f
  | slot hslot =>
      cases hslot with
      | mk ho b r => exact .slot (.mk (ho.mono h) b r)

theorem SameBanks.mono {r r' : Banks} (same : ρ.SameBanks r r') : σ.SameBanks r r' where
  size := same.size
  get b i := by
    cases b with
    | pointer => exact SamePointer.mono h (same.get .pointer i)
    | int => exact same.get .int i
    | float => exact same.get .float i
    | string => exact same.get .string i

end Mono

/-- The frames that `ρ` relates among those that have been pushed, and each later one with the
one that is pushed as many frames later on the other side. -/
def since (ρ : Renaming) (n n' : Nat) : Renaming where
  frame s s' := (ρ.frame s s' ∧ s < n ∧ s' < n') ∨ ∃ i, s = n + i ∧ s' = n' + i
  unique := by
    constructor
    · rintro s t s' (⟨hs, -, hlt⟩ | ⟨i, rfl, rfl⟩) (⟨ht, -, hlt'⟩ | ⟨j, rfl, hj⟩)
      · exact ρ.unique.1 hs ht
      · omega
      · omega
      · omega
    · rintro s t t' (⟨hs, hlt, -⟩ | ⟨i, rfl, rfl⟩) (⟨ht, hlt', -⟩ | ⟨j, hj, rfl⟩)
      · exact ρ.unique.2 hs ht
      · omega
      · omega
      · omega

inductive SameParam (ρ : Renaming) : Value → Value → Prop
  | int (i : Int32) : SameParam ρ (.int i) (.int i)
  | float (x : Double) : SameParam ρ (.float x) (.float x)
  | null : SameParam ρ (.string .null) (.string .null)
  | text (s : String) : SameParam ρ (.string (.text s)) (.string (.text s))
  | register {s s' : Nat} (h : ρ.frame s s') (r : Nat) :
    SameParam ρ (.string (.register s r)) (.string (.register s' r))
  | pointer {q q' : Pointer} (h : ρ.SamePointer q q') : SameParam ρ (.pointer q) (.pointer q')
  | nil : SameParam ρ .nil .nil
  | invalid (tag : UInt8) : SameParam ρ (.invalid tag) (.invalid tag)

/-- Frames that stand for each other have been pushed in both contexts, and they hold the same
there, if they are still on the stack. -/
structure Identifies (ρ : Renaming) (m m' : Machine) : Prop where
  pushed : ∀ {s s'}, ρ.frame s s' → s < m.stats.pushed ∧ s' < m'.stats.pushed
  registers : ∀ {s s'}, ρ.frame s s' →
    Option.Rel ρ.SameBanks (m.registers? (.frame s)) (m'.registers? (.frame s'))

end Renaming

open Renaming

def Comparison.since (ρ : Renaming) (m m' : Machine) (room : Nat) : Comparison where
  toRenaming := ρ.since m.stats.pushed m'.stats.pushed
  left := m
  right := m'
  room
  fresh i _ := .inr ⟨i, rfl, rfl⟩

namespace Renaming.Identifies

variable {ρ : Renaming} {m m' : Machine}

theorem frame_since (h : ρ.Identifies m m') {s s' : Nat} (hs : ρ.frame s s') :
    (ρ.since m.stats.pushed m'.stats.pushed).frame s s' :=
  .inl ⟨hs, h.pushed hs⟩

theorem sameValue (h : ρ.Identifies m m') (room : Nat) {v v' : Value} (hv : ρ.SameParam v v') :
    (Comparison.since ρ m m' room).SameValue v v' := by
  cases hv with
  | int i => exact .int i
  | float x => exact .float x
  | null => exact .string (.still nofun nofun rfl)
  | text s => exact .string (.still nofun nofun rfl)
  | register hs r => exact .string (.register (h.frame_since hs) r)
  | pointer hq => exact .pointer (hq.mono h.frame_since)
  | nil => exact .nil
  | invalid tag => exact .invalid tag

/-- Before a call the contexts are alike, if the call finds the same return storage and nothing
is left of earlier ones. -/
theorem sameMachine (h : ρ.Identifies m m') (room : Nat) (ordered : m.Ordered)
    (ordered' : m'.Ordered)
    (outputs : List.Forall₂ (ρ.since m.stats.pushed m'.stats.pushed).SameBanks m.outputs
      m'.outputs)
    (residue : m.residue = m'.residue) (clock : m.clock = m'.clock) :
    (Comparison.since ρ m m' room).SameMachine m m' where
  registers := by
    intro o o' ho
    cases ho with
    | output i => exact getElem?_rel outputs i
    | @frame s s' hs =>
        rcases hs with ⟨hs, -⟩ | ⟨i, rfl, rfl⟩
        · have hregisters := h.registers hs
          generalize m.registers? (.frame s) = regs, m'.registers? (.frame s') = regs'
            at hregisters
          cases hregisters with
          | none => exact .none
          | some hregs => exact .some (hregs.mono h.frame_since)
        · rw [registers?_eq_none ordered (Nat.le_add_right _ i),
            registers?_eq_none ordered' (Nat.le_add_right _ i)]
          exact .none
  leftStill _ _ := rfl
  rightStill _ _ := rfl
  leftOrdered := ordered
  rightOrdered := ordered'
  pushed := ⟨0, rfl, rfl⟩
  popped := ⟨0, rfl, rfl⟩
  callCount := ⟨0, rfl, rfl⟩
  log := ⟨[], [], (List.append_nil _).symm, (List.append_nil _).symm, .nil⟩
  pending := congrArg Residue.pending residue
  clock
  invoked := congrArg Residue.invoked residue
  events := congrArg Residue.events residue

end Renaming.Identifies

/-! ## Calls side by side -/

namespace Comparison.SameMachine

variable {κ : Comparison} {p : Program} {f : FuncRef}

/-- A stack that is as deep as before the call has nothing to give up, so the pending abort is
the answer on both sides. -/
theorem settle {e e' settled : Machine} {depth depth' : Nat} {r : Int32}
    {o : Except Abort Int32} (same : κ.SameMachine e e') (hdepth : e.depth = depth)
    (hdepth' : e'.depth = depth') (answer : Program.settle depth r e = (o, settled)) :
    ∃ settled', Program.settle depth' r e' = (o, settled') ∧ κ.SameMachine settled settled' ∧
      settled.serials = e.serials ∧ settled'.serials = e'.serials := by
  rcases Program.settle_cases answer with ⟨negative, rfl, rfl⟩ | ⟨resumes, rfl, rfl⟩
  · refine ⟨e'.clearPending, ?_, ?_⟩
    · rw [Program.settle, if_pos negative]
      simp only [popTo_of_depth hdepth', same.pending]
    · rw [popTo_of_depth hdepth]
      exact ⟨same.clearPending, rfl, rfl⟩
  · exact ⟨e', by rw [Program.settle, if_neg (Int32.not_lt.2 resumes)], same, rfl, rfl⟩

theorem call {l l' e : Machine} {params params' : List Value} {returns returns' : List Descriptor}
    {o : Except Abort Int32} (portable : p.Portable)
    (noHost : ∀ f e, (p.head f).entry ≠ some (.host e)) (few : returns.length < Nat.pow 2 31)
    (same : κ.SameMachine l.beginCall l'.beginCall) (pending : l.pending = none)
    (hparams : List.Forall₂ κ.SameValue params params')
    (hreturns : List.Forall₂ κ.SameDescriptor returns returns')
    (x : Calling p f params returns l o e)
    (room : e.stats.pushed ≤ κ.left.stats.pushed + κ.room) :
    ∃ settled settled', ∃ y : Calling p f params' returns' l' o (l'.endCall settled'),
      e = l.endCall settled ∧ κ.SameMachine settled settled' ∧
        List.Forall₂ κ.SameLogEntry x.invocations y.invocations ∧
        settled.serials = l.serials ∧ settled'.serials = l'.serials := by
  have hand : κ.SameHandover ⟨params, returns, Int32.ofNat returns.length⟩
      ⟨params', returns', Int32.ofNat returns'.length⟩ :=
    ⟨hparams, hreturns, by rw [hreturns.length_eq]⟩
  have few' : returns'.length < Nat.pow 2 31 := hreturns.length_eq ▸ few
  have pending' : l'.pending = none := same.pending.symm.trans pending
  by_cases defined : f.isNative = true ∨ (p.head f).entry ≠ none
  · obtain ⟨τ, hτ⟩ := Program.exists_task? defined ⟨params, returns, Int32.ofNat returns.length⟩
    obtain ⟨τ', hτ', task⟩ := exists_task? portable noHost hand hτ
    obtain ⟨r, ended, ⟨run, hrun⟩, settled, answer, rfl⟩ :=
      (exists_calling_iff pending few hτ).1 ⟨x, rfl⟩
    have hpushed : ended.stats.pushed = settled.stats.pushed := by
      rcases Program.settle_cases answer with ⟨-, rfl, -⟩ | ⟨-, rfl, -⟩ <;> rfl
    rw [stats_endCall, ← hpushed] at room
    obtain ⟨ended', run', alike, invocations⟩ := reproduces portable noHost run room task same
      (Program.onTop_task? hτ _) (Program.onTop_task? hτ' _)
    have top := run.serials_task? noHost hτ
    have top' := run'.serials_task? noHost hτ'
    obtain ⟨settled', answer', alike', hserials, hserials'⟩ :=
      alike.settle (depth_of_serials top) (depth_of_serials top') answer
    obtain ⟨y, hy⟩ :=
      (exists_calling_iff pending' few' hτ').2 ⟨r, ended', ⟨run', rfl⟩, settled', answer', rfl⟩
    refine ⟨settled, settled', y, rfl, alike', ?_, hserials.trans top, hserials'.trans top'⟩
    rw [← hrun, hy]
    exact invocations
  · obtain ⟨hnative, hentry⟩ := not_or.1 defined
    cases x with
    | native isNative ran => exact absurd isNative hnative
    | script isScript entry run answer => exact absurd (by simp [entry]) hentry
    | missing isScript none =>
        exact ⟨_, _, .missing isScript none, rfl, same, .nil, rfl, rfl⟩

end Comparison.SameMachine

end CallProtocol
