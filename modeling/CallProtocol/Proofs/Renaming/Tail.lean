import CallProtocol.Proofs.AbortChannel
import CallProtocol.Proofs.Renaming.Lead

/-!
# A run above a frame, and without it

The callee of a tail call runs above the frame of its caller. Its run is compared with the one
that it has by itself, under the renaming that skips the number of that frame. The frame stands
for none on the other side, and nothing leads to it but references to its string registers,
which nobody can write to.

`TailAlike` says what the two calls have in common when they have ended. The abort of the one
has gone through the caller, and its frame has been counted.
-/

namespace CallProtocol

open Machine

/-- The frames of two runs, of which the left one has used the number `n` for a frame that
the right one does not have. -/
def Renaming.skip (n : Nat) : Renaming where
  frame s s' := s = if s' < n then s' else s' + 1
  unique := by
    constructor
    · rintro s s' t h h'
      exact h.trans h'.symm
    · intro s t t' h h'
      grind

theorem Renaming.frame_skip_of_lt {n s : Nat} (h : s < n) : (skip n).frame s s :=
  (if_pos h).symm

theorem Renaming.not_frame_skip (n s' : Nat) : ¬ (skip n).frame n s' := by
  intro h
  have h : n = if s' < n then s' else s' + 1 := h
  split at h <;> omega

def Value.captured (text : TextRef → Option String) : Value → Value
  | .string t => .string ((text t).elim .null .text)
  | v => v

namespace Machine

theorem endCall_eq (m ended : Machine) :
    m.endCall ended =
      { ended with clock := if m.clock.running then ended.clock else ended.clock.pause } := by
  rw [endCall]
  cases m.clock.running <;> rfl

end Machine

def Comparison.tail (left right : Machine) (room : Nat)
    (h : left.stats.pushed = right.stats.pushed + 1) : Comparison where
  toRenaming := .skip right.stats.pushed
  left
  right
  room
  fresh i _ := by
    change left.stats.pushed + i = if right.stats.pushed + i < right.stats.pushed then
      right.stats.pushed + i else right.stats.pushed + i + 1
    rw [if_neg (by omega)]
    omega

/-- What the call of `f`, which tail calls `g`, has in common with the call of `g`, where
both begin on `m`. All frames that are pushed later are renamed. -/
structure TailAlike (p : Program) (f g : FuncRef) (m : Machine) (o o' : Except Abort Int32)
    (ended ended' : Machine) (invocations invocations' : List LogEntry) : Prop where
  outcome : o = o'.mapError (·.through (p.name f))
  invocations : List.Forall₂ (Renaming.skip m.stats.pushed).SameLogEntry invocations invocations'
  /-- The return storage and the frames of the context are the same. -/
  registers : ∀ {σ σ' : Owner}, (Renaming.skip m.stats.pushed).SameOwner σ σ' →
    Option.Rel (Renaming.skip m.stats.pushed).SameBanks (ended.registers? σ) (ended'.registers? σ')
  frames : ended.serials = m.serials ∧ ended'.serials = m.serials
  pushed : ended.stats.pushed = ended'.stats.pushed + 1
  popped : ended.stats.popped = ended'.stats.popped + 1
  callCount : ended.callCount = ended'.callCount + if g.isNative then 0 else 1
  pending : ended.pending = none ∧ ended'.pending = none
  clock : ended.clock = ended'.clock
  invoked : ended.invoked = ended'.invoked
  events : ended.events = ended'.events
  log : ∃ new new', ended.log = m.log ++ new ∧ ended'.log = m.log ++ new' ∧
    List.Forall₂ (Renaming.skip m.stats.pushed).SameLogEntry new new'

/-- An abort has one more line in its trace, and is the same otherwise. -/
theorem TailAlike.abort {p : Program} {f g : FuncRef} {m ended ended' : Machine} {b : Abort}
    {o' : Except Abort Int32} {invocations invocations' : List LogEntry}
    (h : TailAlike p f g m (.error b) o' ended ended' invocations invocations') :
    ∃ b', o' = .error b' ∧ b.kind = b'.kind ∧ b.message = b'.message ∧ b.printed = b'.printed ∧
      b.stacktrace = b'.stacktrace ++ Abort.callerLine (p.name f) := by
  have houtcome := h.outcome
  cases o' with
  | ok n => cases houtcome
  | error b' =>
      cases houtcome
      exact ⟨b', rfl, rfl, rfl, rfl, b'.stacktrace_through (p.name f)⟩

/-- The code `r` of the callee, which has ended on `e` above the frame of `f` and on `e'`
without it, leads to answers that are alike. -/
def SettledAlike (p : Program) (f g : FuncRef) (m : Machine) (r : Int32) (e e' : Machine)
    (invocations invocations' : List LogEntry) : Prop :=
  ∃ o, Program.settle m.depth r (if r < 0 then e.unwind (p.name f) else e.pop) =
      (o.mapError (·.through (p.name f)), e.pop.clearPending) ∧
    Program.settle m.depth r e' = (o, e'.clearPending) ∧
      TailAlike p f g m (o.mapError (·.through (p.name f))) o (m.endCall e.pop.clearPending)
        (m.endCall e'.clearPending) invocations invocations'

/-- When the callee has ended, its answers to the caller and to the outside are settled
alike. -/
theorem settle_tail {m e e' : Machine} {n : Nat} {r : Int32} (name : String)
    (top : e.serials = n :: m.serials) (top' : e'.serials = m.serials)
    (pending : e.pending = e'.pending) (negative : r < 0 → ∃ b, e.pending = some b)
    (resumes : 0 ≤ r → e.pending = none) :
    ∃ o, Program.settle m.depth r (if r < 0 then e.unwind name else e.pop) =
        (o.mapError (·.through name), e.pop.clearPending) ∧
      Program.settle m.depth r e' = (o, e'.clearPending) := by
  have hdepth' : e'.depth = m.depth := depth_of_serials top'
  by_cases hr : r < 0
  · obtain ⟨b, hb⟩ := negative hr
    have hdepth : (e.unwind name).depth = m.depth := by
      refine depth_of_serials ?_
      rw [serials_unwind, top]
      rfl
    have hunwound : (e.unwind name).clearPending = e.pop.clearPending := by
      rw [unwind_eq, hb]
      exact clearPending_raise rfl _
    refine ⟨.error b, ?_, ?_⟩
    · rw [if_pos hr, Program.settle, if_pos hr]
      simp only [popTo_of_depth hdepth, (unwind_of_pending hb name).1, hunwound, Option.getD_some]
      rfl
    · rw [Program.settle, if_pos hr]
      simp only [popTo_of_depth hdepth', ← pending, hb, Option.getD_some]
  · have hnone := resumes (Int32.not_lt.1 hr)
    have cleared : ∀ {m : Machine}, m.pending = none → m.clearPending = m := by
      intro m h
      rw [clearPending, ← h]
    refine ⟨.ok r, ?_, ?_⟩
    · rw [if_neg hr, Program.settle, if_neg hr, cleared ((pending_pop e).trans hnone)]
      rfl
    · rw [Program.settle, if_neg hr, cleared (pending.symm.trans hnone)]

/-! ## The comparison -/

theorem Program.onTop_task? {p : Program} {f : FuncRef} {h : Handover} {τ : Task}
    (hτ : p.task? f h = some τ) (m : Machine) : τ.OnTop m := by
  rcases task?_cases hτ with ⟨-, rfl⟩ | ⟨e, -, -, rfl⟩
  · trivial
  · trivial

/-- If nothing was pending, then an abort is pending after a call exactly if its code is
negative. -/
theorem Execution.pending_task? {p : Program} (noHost : ∀ f e, (p.head f).entry ≠ some (.host e))
    {f : FuncRef} {h : Handover} {τ : Task} (hτ : p.task? f h = some τ) (wanted : 0 ≤ h.wanted)
    {m e : Machine} {r : Int32} (x : Execution p τ m r e) (pending : m.pending = none) :
    (r < 0 → ∃ b, e.pending = some b) ∧ (0 ≤ r → e.pending = none) := by
  have hostFree := Program.hostFree_of_noHost noHost
  have regular : τ.Regular := by
    rcases Program.task?_cases hτ with ⟨hf, rfl⟩ | ⟨e, hf, he, rfl⟩
    · exact hf
    · exact ⟨fun x => hostFree f e x hf he, wanted⟩
  have channel := (x.answers_of_hostFree hostFree regular).channel
  constructor
  · intro negative
    obtain ⟨-, b, names, -, hb⟩ := channel.negative negative
    exact ⟨_, hb⟩
  · intro resumes
    rw [(channel.resumes resumes).2, pending]

namespace Comparison

theorem exists_task? {κ : Comparison} {p : Program} (portable : p.Portable)
    (noHost : ∀ f e, (p.head f).entry ≠ some (.host e)) {f : FuncRef} {h h' : Handover} {τ : Task}
    (hh : κ.SameHandover h h') (hτ : p.task? f h = some τ) :
    ∃ τ', p.task? f h' = some τ' ∧ κ.SameTask τ τ' := by
  rcases Program.task?_cases hτ with ⟨hf, rfl⟩ | ⟨e, hf, he, rfl⟩
  · refine ⟨_, ?_, .native f hh⟩
    rw [Program.task?, hf]
    rfl
  · exact ⟨_, Program.task?_of_entry hf he h',
      .entry (portable.entry noHost _ he) f (p.name f) hh⟩

/-- A staged value and its copy with the text it refers to are alike, as long as the text
stays where it is. -/
theorem SameValue.captured {left right : Machine} {room : Nat}
    (h : left.stats.pushed = right.stats.pushed + 1) {v : Value}
    (hv : v.Within (.skip right.stats.pushed) right.stats.pushed) :
    (tail left right room h).SameValue v (v.captured left.text) := by
  cases hv with
  | nil => exact .nil
  | register r =>
      refine .string (.still ?_ nofun rfl)
      rintro _ _ ⟨⟩ s' hs
      exact Renaming.not_frame_skip _ s' hs
  | @ofCell c hc =>
      obtain ⟨b, x⟩ := c
      cases hc with
      | mk b hx =>
          cases b with
          | int => exact .int x
          | float => exact .float x
          | string => exact .string (.still nofun nofun rfl)
          | pointer => exact .pointer hx

theorem SameMachine.tail {m m₀ m₁ : Machine} {layout : FrameLayout} {fr : Frame}
    {a₀ a : Activation} (g : FuncRef) (closed : m.Closed)
    (pushed : m.beginCall.push layout [] = .ok (fr, m₀)) (hframe : a₀.frame = fr.serial)
    (led : Activation.Led (.skip m.stats.pushed) a₀ m₀ a m₁) (room : Nat)
    (h : (Program.counted g m₁).stats.pushed = m.beginCall.stats.pushed + 1) :
    (Comparison.tail (Program.counted g m₁) m.beginCall room h).SameMachine
      (Program.counted g m₁) m.beginCall := by
  have hserial : fr.serial = m.stats.pushed := (push_eq_ok pushed).1
  have others : ∀ o, o ≠ .frame m.stats.pushed →
      (Program.counted g m₁).registers? o = m.beginCall.registers? o := by
    intro o ho
    rw [← hserial] at ho
    have hled : m₁.registers? o = m₀.registers? o := led.others o (hframe ▸ ho)
    exact hled.trans ((registers?_of_push pushed o).trans (if_neg ho))
  have known : ∀ o, Option.Rel (Renaming.skip m.stats.pushed).SameBanks (m.beginCall.registers? o)
      (m.beginCall.registers? o) := by
    intro o
    cases hr : m.beginCall.registers? o with
    | none => exact .none
    | some r =>
        exact .some (.of_known (fun _ => Renaming.frame_skip_of_lt) (closed.beginCall.known o r hr))
  have ordered : m₁.Ordered :=
    (closed.beginCall.ordered.push pushed).same led.context.serials led.context.stats
  obtain ⟨-, rfl⟩ := push_eq_ok pushed
  exact {
    registers := by
      intro o o' ho
      cases ho with
      | output i =>
          rw [others (.output i) nofun]
          exact known (.output i)
      | @frame s s' hs =>
          have hs : s = if s' < m.stats.pushed then s' else s' + 1 := hs
          split at hs
          · next hlt =>
              subst hs
              rw [others _ fun heq => Nat.ne_of_lt hlt (Owner.frame.inj heq)]
              exact known (.frame s)
          · next hle =>
              have hle := Nat.not_lt.1 hle
              subst hs
              rw [others _ fun heq => Nat.ne_of_gt (Nat.lt_succ_of_le hle) (Owner.frame.inj heq),
                registers?_eq_none closed.beginCall.ordered (Nat.le_succ_of_le hle),
                registers?_eq_none closed.beginCall.ordered hle]
              exact .none
    leftStill := fun _ _ => rfl
    rightStill := fun _ _ => rfl
    leftOrdered := ordered
    rightOrdered := closed.beginCall.ordered
    pushed := ⟨0, rfl, rfl⟩
    popped := ⟨0, rfl, rfl⟩
    callCount := ⟨0, rfl, rfl⟩
    log := ⟨[], [], (List.append_nil _).symm, (List.append_nil _).symm, .nil⟩
    pending := led.context.pending
    clock := led.context.clock
    invoked := led.context.invoked
    events := led.context.events }

/-- The machines on which the callee has ended are alike once the frame of its caller is
gone. -/
theorem SameMachine.tailAlike {p : Program} {f g : FuncRef} {m m₀ m₁ e e' : Machine}
    {layout : FrameLayout} {fr : Frame} {ρ : Renaming} {a₀ a : Activation} {room : Nat}
    {h : (Program.counted g m₁).stats.pushed = m.beginCall.stats.pushed + 1}
    (pushed : m.beginCall.push layout [] = .ok (fr, m₀)) (led : Activation.Led ρ a₀ m₀ a m₁)
    (same : (Comparison.tail (Program.counted g m₁) m.beginCall room h).SameMachine e e')
    (top : e.serials = m.stats.pushed :: m.serials) (top' : e'.serials = m.serials)
    (o : Except Abort Int32) {L L' : List LogEntry}
    (invocations : List.Forall₂ (Renaming.skip m.stats.pushed).SameLogEntry L L') :
    TailAlike p f g m (o.mapError (·.through (p.name f))) o (m.endCall e.pop.clearPending)
      (m.endCall e'.clearPending) L L' := by
  have htop : e.serials.head? = some m.stats.pushed := by
    rw [top]
    rfl
  -- The frame that is popped is the only one that stands for none on the right.
  have registers : ∀ {σ σ' : Owner}, (Renaming.skip m.stats.pushed).SameOwner σ σ' →
      Option.Rel (Renaming.skip m.stats.pushed).SameBanks (e.pop.registers? σ)
        (e'.registers? σ') := by
    intro σ σ' hσ
    have hne : σ ≠ .frame m.stats.pushed := by
      rintro rfl
      cases hσ with
      | frame hs => exact Renaming.not_frame_skip _ _ hs
    rw [registers?_of_pop same.leftOrdered htop, if_neg hne]
    exact same.registers hσ
  have serials : e.pop.serials = m.serials := by
    rw [serials_pop, top]
    rfl
  have hlog := led.log
  have hcallCount := led.context.callCount
  have hpopped := congrArg (·.popped) led.context.stats
  obtain ⟨-, rfl⟩ := push_eq_ok pushed
  rw [endCall_eq, endCall_eq]
  rw [pop_of_top htop] at registers serials ⊢
  exact {
    outcome := rfl
    invocations
    registers
    frames := ⟨serials, top'⟩
    pushed := by
      obtain ⟨n, hleft, hright⟩ := same.pushed
      have h : m₁.stats.pushed = m.stats.pushed + 1 := h
      have hleft : e.stats.pushed = m₁.stats.pushed + n := hleft
      have hright : e'.stats.pushed = m.stats.pushed + n := hright
      change e.stats.pushed = e'.stats.pushed + 1
      omega
    popped := by
      obtain ⟨n, hleft, hright⟩ := same.popped
      have hleft : e.stats.popped = m₁.stats.popped + n := hleft
      have hright : e'.stats.popped = m.stats.popped + n := hright
      have hpopped : m₁.stats.popped = m.stats.popped := hpopped
      change e.stats.popped + 1 = e'.stats.popped + 1
      omega
    callCount := by
      obtain ⟨n, hleft, hright⟩ := same.callCount
      have hleft : e.callCount = m₁.callCount + (if g.isNative then 0 else 1) + n := hleft
      have hright : e'.callCount = m.callCount + n := hright
      have hcallCount : m₁.callCount = m.callCount := hcallCount
      change e.callCount = e'.callCount + if g.isNative then 0 else 1
      omega
    pending := ⟨rfl, rfl⟩
    clock := congrArg (fun k : Clock => if m.clock.running then k else k.pause) same.clock
    invoked := same.invoked
    events := same.events
    log := by
      obtain ⟨new, new', hleft, hright, hnew⟩ := same.log
      have hleft : e.log = m₁.log ++ new := hleft
      rw [hlog] at hleft
      exact ⟨new, new', hleft, hright, hnew⟩ }

/-- Runs of the callee that are alike lead to answers that are. -/
theorem SameMachine.settledAlike {p : Program} {f g : FuncRef} {m m₀ m₁ e e' : Machine}
    {layout : FrameLayout} {fr : Frame} {ρ : Renaming} {a₀ a : Activation} {room : Nat}
    {h : (Program.counted g m₁).stats.pushed = m.beginCall.stats.pushed + 1}
    {ho ho' : Handover} {τ τ' : Task} {r : Int32} {L L' : List LogEntry}
    (noHost : ∀ f e, (p.head f).entry ≠ some (.host e))
    (pushed : m.beginCall.push layout [] = .ok (fr, m₀)) (led : Activation.Led ρ a₀ m₀ a m₁)
    (pending : m.pending = none) (hτ : p.task? g ho = some τ) (hτ' : p.task? g ho' = some τ')
    (wanted : 0 ≤ ho'.wanted)
    (same : (Comparison.tail (Program.counted g m₁) m.beginCall room h).SameMachine e e')
    (x : Execution p τ (Program.counted g m₁) r e) (y : Execution p τ' m.beginCall r e')
    (invocations : List.Forall₂ (Renaming.skip m.stats.pushed).SameLogEntry L L') :
    SettledAlike p f g m r e e' L L' := by
  have stack : m₁.serials = m.stats.pushed :: m.serials := by
    rw [led.context.serials]
    obtain ⟨hserial, rfl⟩ := push_eq_ok pushed
    exact congrArg (· :: m.serials) hserial
  have top : e.serials = m.stats.pushed :: m.serials := (x.serials_task? noHost hτ).trans stack
  have top' : e'.serials = m.serials := y.serials_task? noHost hτ'
  obtain ⟨negative, resumes⟩ := y.pending_task? noHost hτ' wanted pending
  rw [← same.pending] at negative resumes
  obtain ⟨o, answer, answer'⟩ := settle_tail (p.name f) top top' same.pending negative resumes
  exact ⟨o, answer, answer', same.tailAlike pushed led top top' o invocations⟩

/-- The callee is performed alike above the frame of its caller and without it. -/
theorem exists_settledAlike {p : Program} {f g : FuncRef} {m m₀ m₁ : Machine}
    {layout : FrameLayout} {fr : Frame} {a₀ a : Activation} {ho ho' : Handover} {τ τ' : Task}
    (noHost : ∀ f e, (p.head f).entry ≠ some (.host e)) (portable : p.Portable)
    (closed : m.Closed) (pending : m.pending = none)
    (pushed : m.beginCall.push layout [] = .ok (fr, m₀)) (hframe : a₀.frame = fr.serial)
    (led : Activation.Led (.skip m.stats.pushed) a₀ m₀ a m₁)
    (h : (Program.counted g m₁).stats.pushed = m.beginCall.stats.pushed + 1)
    (hand : ∀ n, (Comparison.tail (Program.counted g m₁) m.beginCall n h).SameHandover ho ho')
    (hτ : p.task? g ho = some τ) (hτ' : p.task? g ho' = some τ') (wanted : 0 ≤ ho'.wanted)
    {r : Int32} :
    (∀ {e L}, Performs p τ (Program.counted g m₁) r e L →
      ∃ e' L', Performs p τ' m.beginCall r e' L' ∧ SettledAlike p f g m r e e' L L') ∧
    ∀ {e' L'}, Performs p τ' m.beginCall r e' L' →
      ∃ e L, Performs p τ (Program.counted g m₁) r e L ∧ SettledAlike p f g m r e e' L L' := by
  have begun := fun n => SameMachine.tail g closed pushed hframe led n h
  have onTop := Program.onTop_task? hτ (Program.counted g m₁)
  have onTop' := Program.onTop_task? hτ' m.beginCall
  constructor
  · rintro e _ ⟨x, rfl⟩
    obtain ⟨τ₁, hτ₁, task⟩ := exists_task? portable noHost (hand e.stats.pushed) hτ
    obtain rfl := Option.some.inj (hτ₁.symm.trans hτ')
    obtain ⟨e', y, same, invocations⟩ :=
      reproduces portable noHost x (Nat.le_add_left _ _) task (begun _) onTop onTop'
    exact ⟨e', _, ⟨y, rfl⟩,
      same.settledAlike noHost pushed led pending hτ hτ' wanted x y invocations⟩
  · rintro e' _ ⟨y, rfl⟩
    obtain ⟨τ₁, hτ₁, task⟩ := exists_task? portable noHost (hand e'.stats.pushed).symm hτ'
    obtain rfl := Option.some.inj (hτ₁.symm.trans hτ)
    obtain ⟨e, x, same, invocations⟩ :=
      reproduces portable noHost y (Nat.le_add_left _ _) task (begun _).symm onTop' onTop
    have flipped := invocations.flip.imp fun _ _ => Renaming.SameLogEntry.symm
    exact ⟨e, _, ⟨x, rfl⟩,
      same.symm.settledAlike (h := h) noHost pushed led pending hτ hτ' wanted x y flipped⟩

end Comparison

end CallProtocol
