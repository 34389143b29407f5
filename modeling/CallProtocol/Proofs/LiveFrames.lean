import CallProtocol.Proofs.Execution.Moments
import CallProtocol.Proofs.Execution.Outgoing
import CallProtocol.Proofs.FrameBalance
import CallProtocol.Proofs.InOutCoherence
import CallProtocol.Proofs.StackTrace

/-!
# Live frames

An activation gives up its frame by popping whatever is on top of the stack, and an entry
of the host may have left frames there. So the frame that goes need not be its own, and the
stack is more than the live frames. What holds is a bound from below: the frames of the
activations that have begun and not yet returned are on the stack in their order, above
those that were there before the run.

So an address that is handed to a callee leads to the stack as long as the callee runs.
-/

namespace CallProtocol

open Machine

namespace Machine

/-- The frames are on the stack in their order, above those of `m₀`, and they are newer than
those. -/
structure Stacked (m₀ : Machine) (frames : List Nat) (m : Machine) : Prop where
  sublist : (frames ++ m₀.serials).Sublist m.serials
  ordered : frames.Pairwise (· > ·)
  fresh : ∀ k ∈ frames, m₀.stats.pushed ≤ k ∧ k < m.stats.pushed
  grown : m₀.stats.pushed ≤ m.stats.pushed

namespace Stacked

variable {m₀ m m' : Machine} {frames : List Nat}

theorem refl (m : Machine) : Stacked m [] m :=
  ⟨List.Sublist.refl _, .nil, by simp, Nat.le_refl _⟩

theorem same (h : Stacked m₀ frames m) (hserials : m'.serials = m.serials)
    (hstats : m'.stats = m.stats) : Stacked m₀ frames m' where
  sublist := hserials ▸ h.sublist
  ordered := h.ordered
  fresh := hstats ▸ h.fresh
  grown := hstats ▸ h.grown

theorem push {layout : FrameLayout} {params : List Value} {fr : Frame} (h : Stacked m₀ frames m)
    (room : m.push layout params = .ok (fr, m')) : Stacked m₀ (fr.serial :: frames) m' := by
  obtain ⟨hfr, rfl⟩ := push_eq_ok room
  refine ⟨h.sublist.cons_cons fr.serial, ?_, ?_, Nat.le_succ_of_le h.grown⟩
  · exact .cons (fun k hk => hfr ▸ (h.fresh k hk).2) h.ordered
  · intro k hk
    rcases List.mem_cons.1 hk with rfl | hk
    · rw [hfr]
      exact ⟨h.grown, Nat.lt_succ_self _⟩
    · exact ⟨(h.fresh k hk).1, Nat.lt_succ_of_lt (h.fresh k hk).2⟩

/-- However many frames have come on top before, taking as many as there are innermost ones
leaves the others. -/
theorem restacked {own : List Nat} {n : Nat} (h : Stacked m₀ (own ++ frames) m)
    (hr : Restacked own.length n m m') : Stacked m₀ frames m' := by
  obtain ⟨hle, new, -, -, hserials⟩ := hr
  refine ⟨?_, (List.pairwise_append.1 h.ordered).2.1, ?_, Nat.le_trans h.grown hle⟩
  · have hsub := h.sublist
    rw [List.append_assoc] at hsub
    have hdrop := (hsub.trans (List.sublist_append_right new m.serials)).drop own.length
    rwa [List.drop_left, ← hserials] at hdrop
  · intro k hk
    have hfresh := h.fresh k (List.mem_append_right own hk)
    exact ⟨hfresh.1, Nat.lt_of_lt_of_le hfresh.2 hle⟩

end Stacked

end Machine

/-- A task takes as many frames as it has live activations, so those of its callers stay. -/
theorem Execution.stacked {p : Program} {τ : Task} {m : Machine} {r : Int32} {m' m₀ : Machine}
    {frames : List Nat} (x : Execution p τ m r m')
    (h : Stacked m₀ (τ.running.map (·.frame) ++ frames) m) : Stacked m₀ frames m' := by
  have hr := x.restacked
  rw [τ.ownFrames_eq] at hr
  exact h.restacked hr

theorem Machine.Stacked.call {p : Program} {c : CallSite} {a : Activation} {m m₁ m₂ m₀ : Machine}
    {τ : Task} {r : Int32} {frames : List Nat} (h : Stacked m₀ frames m)
    (callee : p.callee? a c (a.beforeCall m c) = some (τ, m₁)) (call : Execution p τ m₁ r m₂) :
    Stacked m₀ frames m₂ := by
  obtain ⟨hserials, hstats, -, -⟩ := Program.callee?_context callee
  refine call.stacked ?_
  rw [Program.running_callee? callee]
  exact h.same hserials hstats

section Entry

variable {p : Program} {e : Entry} {f : FuncRef} {name : String} {h : Handover}
  {m m₀ s : Machine} {τ : Task} {chain live : List Activation}

/-- The frames of the activations in the chain, and of the body that is being performed, are
on the stack. -/
theorem Nested.stacked (nested : Nested p (.entry e f name h) m₀ chain τ m) :
    Stacked m₀ ((τ.running ++ chain).map (·.frame)) m := by
  induction nested with
  | start => exact .refl m₀
  | @advanced chain τ τ' m m' prior step ih =>
      cases step with
      | begun room => exact ih.push room
      | quiet step =>
          have same := Activation.sameContext_quiet step
          have hframe := (Activation.sameBody_quiet step).frame
          simp only [Task.running, List.singleton_append, List.map_cons, hframe] at ih ⊢
          exact ih.same same.serials same.stats
      | @resumed c rest a m m₁ m₂ τ r callee call resumes kind =>
          have hframe : (a.afterCall m' c).frame = a.frame := (a.sameBody_refresh m' _).frame
          simp only [Task.running, List.singleton_append, List.map_cons, hframe] at ih ⊢
          exact ih.call callee call
  | called prior callee ih =>
      obtain ⟨hserials, hstats, -, -⟩ := Program.callee?_context callee
      rw [Program.running_callee? callee]
      exact ih.same hserials hstats

theorem Moment.stacked (moment : Moment p (.entry e f name h) m₀ live s) :
    Stacked m₀ (live.map (·.frame)) s := by
  cases moment with
  | performing nested => exact nested.stacked
  | @calling _ c _ a m nested =>
      have same : SameContext m (a.beforeCall m c) := a.sameContext_flush m _
      exact nested.stacked.same same.serials same.stats
  | @hosting _ g h m _ nested visited =>
      cases g with
      | script i => cases visited
      | native i =>
          have same := sameContext_of_mem_hostVisited visited
          exact nested.stacked.same same.serials same.stats
  | @pushing _ e g name h m nested count =>
      have noted : Stacked m₀ ([] ++ live.map (·.frame)) (Program.noteEntry g h m) :=
        nested.stacked.same rfl rfl
      exact noted.restacked (restacked_pushEmpties count _)
  | @returning _ site _ a m nested =>
      have same := a.sameContext_giveBack m site
      exact nested.stacked.same same.serials same.stats
  | ended nested run =>
      have stacked := nested.stacked
      rw [List.map_append] at stacked
      exact run.stacked stacked

/-! ## The slots that a call hands on -/

theorem Nested.exists_reaches {τ₀ : Task} (nested : Nested p τ₀ m₀ chain τ m) :
    ∃ past, Reaches p τ₀ m₀ past τ m := by
  induction nested with
  | start => exact ⟨_, .start⟩
  | advanced prior step ih =>
      obtain ⟨past, reached⟩ := ih
      cases step with
      | begun room => exact ⟨_, reached.begun room⟩
      | quiet step => exact ⟨_, reached.quiet step⟩
      | resumed callee call resumes kind => exact ⟨_, reached.resumed callee call resumes kind⟩
  | called prior callee ih =>
      obtain ⟨past, reached⟩ := ih
      exact ⟨_, reached.called callee⟩

end Entry

def Slot.OnStack (σ : Slot) (m : Machine) : Prop := ∃ k ∈ m.serials, σ.owner = .frame k

/-- The slot that a parameter refers to: the register whose address it is, or the string
register that it is read from. -/
def Source.slot? (a : Activation) : Source → Option Slot
  | .address b r => some (a.slot b r)
  | .reg .string r => some (a.slot .string r)
  | _ => none

def Value.slot? : Value → Option Slot
  | .pointer (.slot σ) => some σ
  | .string (.register frame r) => some ⟨.frame frame, .string, r⟩
  | _ => none

/-- A parameter that refers to a slot has a record that does, from when it is staged on. -/
theorem Staged.MadeIn.slot? {past : List Activation} {a : Activation} {q : Staged} {v : Value}
    {σ : Slot} (made : q.MadeIn past a v) (hσ : q.source.slot? a = some σ) : v.slot? = some σ := by
  cases hq : q.source with
  | address b r =>
      rw [hq] at hσ
      rw [made.address hq, ← hσ]
      rfl
  | reg b r =>
      rw [hq] at hσ
      cases b with
      | string =>
          rw [made.string hq, ← hσ]
          rfl
      | _ => cases hσ
  | _ =>
      rw [hq] at hσ
      cases hσ

theorem Source.owner_of_slot? {a : Activation} {source : Source} {σ : Slot}
    (h : source.slot? a = some σ) : σ.owner = .frame a.frame := by
  cases source with
  | address b r =>
      cases h
      rfl
  | reg b r =>
      cases b with
      | string =>
          cases h
          rfl
      | _ => cases h
  | _ => cases h

def Descriptor.LeadsTo (d : Descriptor) (live : List Activation) : Prop :=
  ∃ σ, d.location = some σ ∧ ∃ a ∈ live, σ.owner = .frame a.frame

theorem Descriptor.leadsTo_handoverFor {a : Activation} {c : CallSite} {d : Descriptor}
    {chain : List Activation} {outer : List Descriptor} (h : d ∈ (a.handoverFor c).returns)
    (handed : d ∈ a.handover.returns → d ∈ outer ∨ d.LeadsTo chain) :
    d ∈ outer ∨ d.LeadsTo (a :: chain) := by
  rcases Activation.mem_returns_handoverFor h with ⟨-, s, -, rfl⟩ | ⟨-, h⟩
  · exact .inr ⟨_, rfl, a, List.mem_cons_self, rfl⟩
  · refine (handed h).imp_right ?_
    rintro ⟨σ, hσ, b, hb, howner⟩
    exact ⟨σ, hσ, b, List.mem_cons_of_mem a hb, howner⟩

/-- A descriptor that a task has been handed comes from outside, or it is for a result of an
activation that is in the middle of a call. A tail call is one, and passes on what its
activation has been handed. -/
theorem Nested.returns {p : Program} {τ₀ τ : Task} {m₀ m : Machine} {chain : List Activation}
    (nested : Nested p τ₀ m₀ chain τ m) {d : Descriptor} (h : d ∈ τ.returns) :
    d ∈ τ₀.returns ∨ d.LeadsTo chain := by
  induction nested with
  | start => exact .inl h
  | @advanced chain τ τ' m m' prior step ih =>
      cases step with
      | begun room => exact ih h
      | quiet step =>
          refine ih ?_
          rwa [Task.returns, (Activation.sameBody_quiet step).handover] at h
      | @resumed c rest a m m₁ m₂ τ r callee call resumes kind =>
          have same : a.SameBody (a.afterCall m' c) := a.sameBody_refresh m' _
          refine ih ?_
          rwa [Task.returns, same.handover] at h
  | called prior callee ih =>
      exact Descriptor.leadsTo_handoverFor (Program.mem_returns_of_callee? callee h) ih

/-- A call from outside takes no frame away that was there before. -/
theorem Calling.serials_suffix {p : Program} {f : FuncRef} {params : List Value}
    {returns : List Descriptor} {m m' : Machine} {o : Except Abort Int32}
    (c : Calling p f params returns m o m') : m.serials <:+ m'.serials := by
  have ofEnded : ∀ ended : Machine, (m.endCall ended).serials = ended.serials := by
    intro ended
    rw [serials, frames_endCall, serials]
  cases c with
  | native isNative ran =>
      rw [ofEnded, (Program.callNative_context ran).serials]
      exact List.suffix_rfl
  | missing isScript none =>
      rw [ofEnded]
      exact List.suffix_rfl
  | @script e r ended o settled isScript entry run answer =>
      obtain ⟨-, new, -, -, hserials⟩ := run.restacked
      have hserials : ended.serials = new ++ m.serials := hserials
      rw [ofEnded]
      rcases Program.settle_cases answer with ⟨-, rfl, -⟩ | ⟨-, rfl, -⟩
      · -- What is given up are the frames above the depth of the caller.
        have hsurplus : ended.frames.length - m.depth = new.length := by
          have hlength := congrArg List.length hserials
          rw [List.length_append, length_serials, length_serials] at hlength
          have hdepth : ended.frames.length = ended.depth := rfl
          omega
        have hpopped : (ended.popTo m.depth).clearPending.serials = ended.serials.drop new.length := by
          rw [← hsurplus]
          exact List.map_drop
        have left : ended.serials.drop new.length = m.serials := by rw [hserials, List.drop_left]
        exact ⟨[], (hpopped.trans left).symm⟩
      · rw [hserials]
        exact List.suffix_append new m.serials

/-- No live frame is taken from the stack. At every moment of a run the frames of the
activations that have begun and not yet returned are on the stack in their order, above
those that were there before, and a call from outside leaves these in place, too.

So while a call is performed, as a tail call or not, the frames of its activation and of
those in whose calls it is stay on the stack. The callee is handed addresses of registers
and texts in the frame of its caller, and descriptors that come from outside or lead to one
of these frames. -/
theorem live_frames_stacked {p : Program} {e : Entry} {f : FuncRef} {name : String} {h : Handover}
    {m₀ : Machine} :
    (∀ live s, Moment p (.entry e f name h) m₀ live s →
      (live.map (·.frame) ++ m₀.serials).Sublist s.serials ∧
        (live.map (·.frame)).Pairwise (· > ·) ∧ ∀ a ∈ live, m₀.stats.pushed ≤ a.frame) ∧
      (∀ r m' (x : Execution p (.entry e f name h) m₀ r m'), ∀ s ∈ x.visited,
        ∃ live, Moment p (.entry e f name h) m₀ live s) ∧
      (∀ chain c rest a m τ m₁,
        Nested p (.entry e f name h) m₀ chain (.body (.call c :: rest) a) m →
        p.callee? a c (a.beforeCall m c) = some (τ, m₁) → ∀ live s, Moment p τ m₁ live s →
          ((live ++ a :: chain).map (·.frame) ++ m₀.serials).Sublist s.serials ∧
          (∀ (j : Nat) q σ, c.window.params[j]? = some q → q.source.slot? a = some σ →
            (∃ v, (a.handoverFor c).params[j]? = some v ∧ v.slot? = some σ) ∧ σ.OnStack s) ∧
          ∀ d ∈ (a.handoverFor c).returns, d ∈ h.returns ∨
            ∃ σ, d.location = some σ ∧ σ.OnStack s) ∧
      ∀ limit params returns m o m', p.call limit f params returns m = some (o, m') →
        m.serials <:+ m'.serials := by
  refine ⟨?_, ?_, ?_, ?_⟩
  · intro live s moment
    have stacked := moment.stacked
    exact ⟨stacked.sublist, stacked.ordered,
      fun a ha => (stacked.fresh _ (List.mem_map_of_mem ha)).1⟩
  · intro r m' x s hs
    exact x.exists_moment hs
  · intro chain c rest a m τ m₁ nested callee live s moment
    have stacked := (moment.within (nested.called callee)).stacked.sublist
    have onStack : ∀ {σ : Slot} {b : Activation}, b ∈ a :: chain → σ.owner = .frame b.frame →
        σ.OnStack s := by
      intro σ b hb howner
      refine ⟨b.frame, stacked.mem (List.mem_append_left _ ?_), howner⟩
      exact List.mem_map_of_mem (List.mem_append_right live hb)
    refine ⟨stacked, ?_, ?_⟩
    · intro j q σ hq hσ
      obtain ⟨past, reached⟩ := nested.exists_reaches
      obtain ⟨v, hv, made⟩ := reached.handed_getElem? hq
      exact ⟨⟨v, hv, made.slot? hσ⟩, onStack List.mem_cons_self (Source.owner_of_slot? hσ)⟩
    · intro d hd
      refine (Descriptor.leadsTo_handoverFor hd nested.returns).imp_right ?_
      rintro ⟨σ, hσ, b, hb, howner⟩
      exact ⟨σ, hσ, onStack hb howner⟩
  · intro limit params returns m o m' ran
    obtain ⟨c⟩ := Calling.ofCall ran
    exact c.serials_suffix

/-! ## Frames that an entry of the host leaves on top -/

def leakyTask : Task := .entry (.compiled callFirstCode) (.script 1) "caller" ⟨[], [], 0⟩

/-- The frame of a script stays below the frames that its callee has left, also when the
script is about to return. The address that a native is handed leads to the stack while the
native runs. A frame that has been there before a call is there after it. -/
theorem live_frames_stacked_leaky :
    (∃ a s, Moment leakyProgram leakyTask {} [a] s ∧ s.serials = [2, 1, 0] ∧
      [a.frame].Sublist s.serials) ∧
    (∃ m', ∃ x : Execution leakyProgram leakyTask {} 0 m', m'.serials = [1, 0] ∧
      m' ∈ x.visited ∧ ∃ live, Moment leakyProgram leakyTask {} live m') ∧
    (∃ s, Moment pokeProgram pokeTask pokeFloatsMachine [] s ∧
      ∃ v, (pokeFloatsBody.handoverFor pokeFloatsCall).params[0]? = some v ∧
        v.slot? = some ⟨.frame 0, .float, 1⟩ ∧ (⟨.frame 0, .float, 1⟩ : Slot).OnStack s) ∧
    ∃ o m', leakyProgram.call 2 (.script 1) [] [] (pushEmpty {}) = some (o, m') ∧
      (pushEmpty {}).serials <:+ m'.serials ∧ m'.serials = [2, 1, 0] := by
  have begun : Nested leakyProgram leakyTask {} [] (.body callFirstPlan.steps _) _ :=
    .advanced .start (.begun rfl)
  have resumed := begun.advanced (.resumed rfl (.host _ _ _ _ _) (by decide) rfl)
  refine ⟨?_, ?_, ?_, ?_⟩
  · have moment := Moment.performing resumed
    obtain ⟨stacked, -, -⟩ := live_frames_stacked.1 _ _ moment
    exact ⟨_, _, moment, rfl, stacked⟩
  · let x : Execution leakyProgram leakyTask {} 0 _ :=
      .begun rfl (.resumed rfl (.host _ _ _ _ _) (by decide) rfl (.returned _ _ _ rfl))
    have visited : _ ∈ x.visited := List.mem_of_getLast? rfl
    exact ⟨_, x, rfl, visited, live_frames_stacked.2.1 _ _ x _ visited⟩
  · have nested : Nested pokeProgram (.entry (.compiled pokeFloatsCode) (.script 0) "poker"
        ⟨[], [], 0⟩) {} [] (.body (.call pokeFloatsCall :: pokeFloatsPlan.steps.drop 2)
          pokeFloatsBody) pokeFloatsMachine :=
      .advanced (.advanced .start (.begun rfl)) (.quiet rfl)
    have moment : Moment pokeProgram pokeTask pokeFloatsMachine [] _ :=
      .hosting .start List.mem_cons_self
    obtain ⟨-, handed, -⟩ :=
      live_frames_stacked.2.2.1 _ _ _ _ _ _ _ nested callee?_pokeFloats _ _ moment
    obtain ⟨⟨v, hv, hσ⟩, onStack⟩ := handed 0 _ _ rfl rfl
    exact ⟨_, moment, v, hv, hσ, onStack⟩
  · obtain ⟨o, m', ran, hserials⟩ : ∃ o m',
        leakyProgram.call 2 (.script 1) [] [] (pushEmpty {}) = some (o, m') ∧
          m'.serials = [2, 1, 0] := ⟨_, _, rfl, rfl⟩
    have kept := (@live_frames_stacked leakyProgram (.compiled callFirstCode) (.script 1) "caller"
      ⟨[], [], 0⟩ {}).2.2.2 _ _ _ _ _ _ ran
    exact ⟨o, m', ran, kept, hserials⟩

end CallProtocol
