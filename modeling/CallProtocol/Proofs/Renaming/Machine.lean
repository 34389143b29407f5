import CallProtocol.Proofs.Execution.Context
import CallProtocol.Proofs.Machine.Writes
import CallProtocol.Proofs.Renaming.Basic

/-!
# Machines that run side by side

Two runs that do the same may begin on machines that differ: the stack of one is deeper,
its counters are ahead, and it may have frames that the other one knows nothing of. A
`Comparison` fixes the two machines that the runs begin on and the renaming between their
frames, also of those that are still to come. `Comparison.SameMachine` then relates the
machines of the two runs at any later time. What the runs have done since they began is the
same up to the renaming, and what is in a frame that stands for none of the other run has
stayed as it was. So a string may be kept in such a frame and be passed by reference.

Each operation of the machine has one lemma here: applied on both sides, it gives the same
answer and keeps the relation.
-/

namespace CallProtocol

open Machine

/-- The serial numbers on the stack fall from the top to the bottom, and the next one is
greater than all of them. -/
def Machine.Ordered (m : Machine) : Prop := (m.stats.pushed :: m.serials).Pairwise (· > ·)

namespace Machine.Ordered

variable {m m' : Machine}

theorem same (h : m.Ordered) (hserials : m'.serials = m.serials) (hstats : m'.stats = m.stats) :
    m'.Ordered := by
  rw [Ordered, hserials, hstats]
  exact h

theorem push {layout : FrameLayout} {params : List Value} {fr : Frame} (h : m.Ordered)
    (room : Machine.push m layout params = .ok (fr, m')) : m'.Ordered := by
  obtain ⟨hfr, rfl⟩ := push_eq_ok room
  change ((m.stats.pushed + 1) :: fr.serial :: m.serials).Pairwise (· > ·)
  rw [hfr]
  refine List.pairwise_cons.2 ⟨?_, h⟩
  intro s hs
  rcases List.mem_cons.1 hs with rfl | hs
  · exact Nat.lt_succ_self _
  · exact Nat.lt_succ_of_lt ((List.pairwise_cons.1 h).1 s hs)

theorem pop (h : m.Ordered) : (Machine.pop m).Ordered := by
  rw [Ordered, pushed_pop, serials_pop]
  obtain ⟨hnext, hserials⟩ := List.pairwise_cons.1 h
  exact List.pairwise_cons.2 ⟨fun s hs => hnext s (List.mem_of_mem_tail hs), hserials.tail⟩

end Machine.Ordered

namespace Machine

theorem push_of_fill {m : Machine} {layout : FrameLayout} {params : List Value} {r : Banks}
    (h : Frame.fill m.text 0 (fun _ => 0) (.blank layout.registers) params = .ok r) :
    ∃ m', m.push layout params = .ok (⟨m.stats.pushed, layout, r⟩, m') := by
  rw [push, Frame.ofParams, h]
  exact ⟨_, rfl⟩

theorem exists_push_nil (m : Machine) (layout : FrameLayout) :
    ∃ m', m.push layout [] = .ok (⟨m.stats.pushed, layout, .blank layout.registers⟩, m') :=
  push_of_fill rfl

theorem registers?_of_push {m m' : Machine} {layout : FrameLayout} {params : List Value}
    {fr : Frame} (room : m.push layout params = .ok (fr, m')) (o : Owner) :
    m'.registers? o = if o = .frame fr.serial then some fr.registers else m.registers? o := by
  obtain ⟨-, rfl⟩ := push_eq_ok room
  cases o with
  | output i => simp [registers?]
  | frame s =>
      by_cases hs : fr.serial = s
      · simp [registers?, hs]
      · simp [registers?, hs, Ne.symm hs]

theorem pop_of_top {m : Machine} {s : Nat} (top : m.serials.head? = some s) :
    m.pop = { m with
      frames := m.frames.tail
      stats := { m.stats with popped := m.stats.popped + 1 } } := by
  rw [pop]
  cases hframes : m.frames with
  | nil =>
      rw [serials, hframes] at top
      cases top
  | cons fr frs => rfl

/-- With all serial numbers different, the frame on top is gone once it is popped. -/
theorem registers?_of_pop {m : Machine} (ordered : m.Ordered) {s : Nat}
    (top : m.serials.head? = some s) (o : Owner) :
    m.pop.registers? o = if o = .frame s then none else m.registers? o := by
  rw [pop]
  cases hframes : m.frames with
  | nil =>
      rw [serials, hframes] at top
      cases top
  | cons fr frs =>
      have hserials : m.serials = fr.serial :: frs.map (·.serial) := by rw [serials, hframes]; rfl
      rw [hserials] at top
      obtain rfl := Option.some.inj top
      cases o with
      | output i => simp [registers?]
      | frame k =>
          by_cases hk : fr.serial = k
          · subst hk
            rw [Ordered, hserials] at ordered
            have hbelow := (List.pairwise_cons.1 (List.pairwise_cons.1 ordered).2).1
            have hnone : frs.find? (·.serial == fr.serial) = none := by
              refine List.find?_eq_none.2 fun x hx => ?_
              have hlt := hbelow x.serial (List.mem_map_of_mem hx)
              simp only [beq_iff_eq]
              omega
            simp [registers?, hnone]
          · simp [registers?, hframes, hk, Ne.symm hk]

theorem log_store (m : Machine) (s : Slot) (c : Cell) : (m.store s c).log = m.log := by
  obtain ⟨o, b, r⟩ := s
  cases o <;> rfl

theorem log_write (m : Machine) (ws : List Write) : (m.write ws).log = m.log := by
  induction ws generalizing m with
  | nil => rfl
  | cons w ws ih => exact (ih _).trans (m.log_store w.slot w.cell)

end Machine

/-- Two machines that runs begin on, and which frames of the runs stand for each other. The
next frames that are pushed do, as many of them as there is room for. -/
structure Comparison extends Renaming where
  left : Machine
  right : Machine
  room : Nat
  fresh : ∀ i < room, frame (left.stats.pushed + i) (right.stats.pushed + i)

namespace Comparison

def symm (κ : Comparison) : Comparison where
  toRenaming := κ.toRenaming.symm
  left := κ.right
  right := κ.left
  room := κ.room
  fresh := κ.fresh

/-- Texts that are read alike: from a register of frames that stand for each other, or from
somewhere that does not change. -/
inductive SameText (κ : Comparison) : TextRef → TextRef → Prop
  | register {s s' : Nat} (h : κ.frame s s') (r : Nat) :
    SameText κ (.register s r) (.register s' r)
  | still {t t' : TextRef} (left : ∀ s r, t = .register s r → ∀ s', ¬ κ.frame s s')
    (right : ∀ s r, t' = .register s r → ∀ s', ¬ κ.frame s' s)
    (h : κ.left.text t = κ.right.text t') : SameText κ t t'

inductive SameValue (κ : Comparison) : Value → Value → Prop
  | int (i : Int32) : SameValue κ (.int i) (.int i)
  | float (x : Double) : SameValue κ (.float x) (.float x)
  | string {t t' : TextRef} (h : κ.SameText t t') : SameValue κ (.string t) (.string t')
  | pointer {p p' : Pointer} (h : κ.SamePointer p p') : SameValue κ (.pointer p) (.pointer p')
  | nil : SameValue κ .nil .nil
  | invalid (tag : UInt8) : SameValue κ (.invalid tag) (.invalid tag)

structure SameHandover (κ : Comparison) (h h' : Handover) : Prop where
  params : List.Forall₂ κ.SameValue h.params h'.params
  returns : List.Forall₂ κ.SameDescriptor h.returns h'.returns
  wanted : h.wanted = h'.wanted

/-- The machines of two runs that have done the same so far. -/
structure SameMachine (κ : Comparison) (m m' : Machine) : Prop where
  registers : ∀ {o o' : Owner}, κ.SameOwner o o' →
    Option.Rel κ.SameBanks (m.registers? o) (m'.registers? o')
  leftStill : ∀ s, (∀ s', ¬ κ.frame s s') →
    m.registers? (.frame s) = κ.left.registers? (.frame s)
  rightStill : ∀ s, (∀ s', ¬ κ.frame s' s) →
    m'.registers? (.frame s) = κ.right.registers? (.frame s)
  leftOrdered : m.Ordered
  rightOrdered : m'.Ordered
  pushed : ∃ n, m.stats.pushed = κ.left.stats.pushed + n ∧
    m'.stats.pushed = κ.right.stats.pushed + n
  popped : ∃ n, m.stats.popped = κ.left.stats.popped + n ∧
    m'.stats.popped = κ.right.stats.popped + n
  callCount : ∃ n, m.callCount = κ.left.callCount + n ∧ m'.callCount = κ.right.callCount + n
  log : ∃ new new', m.log = κ.left.log ++ new ∧ m'.log = κ.right.log ++ new' ∧
    List.Forall₂ κ.SameLogEntry new new'
  pending : m.pending = m'.pending
  clock : m.clock = m'.clock
  invoked : m.invoked = m'.invoked
  events : m.events = m'.events

variable {κ : Comparison}

/-! ## The other way round -/

theorem SameText.symm {t t' : TextRef} (h : κ.SameText t t') : κ.symm.SameText t' t := by
  cases h with
  | register h r =>
      refine .register ?_ r
      exact h
  | still left right h => exact .still right left h.symm

theorem SameValue.symm {v v' : Value} (h : κ.SameValue v v') : κ.symm.SameValue v' v := by
  cases h with
  | int i => exact .int i
  | float x => exact .float x
  | string h => exact .string h.symm
  | pointer h => exact .pointer h.symm
  | nil => exact .nil
  | invalid tag => exact .invalid tag

theorem SameValue.kind?_eq {v v' : Value} (h : κ.SameValue v v') : v.kind? = v'.kind? := by
  cases h <;> rfl

theorem SameValue.tag_eq {v v' : Value} (h : κ.SameValue v v') : v.tag = v'.tag := by
  cases h <;> rfl

theorem SameHandover.symm {h h' : Handover} (same : κ.SameHandover h h') :
    κ.symm.SameHandover h' h where
  params := same.params.flip.imp fun _ _ => SameValue.symm
  returns := same.returns.flip.imp fun _ _ => Renaming.SameDescriptor.symm
  wanted := same.wanted.symm

theorem SameMachine.symm {m m' : Machine} (h : κ.SameMachine m m') : κ.symm.SameMachine m' m where
  registers ho := Renaming.optionRel_symm Renaming.SameBanks.symm (h.registers ho.symm)
  leftStill := h.rightStill
  rightStill := h.leftStill
  leftOrdered := h.rightOrdered
  rightOrdered := h.leftOrdered
  pushed := h.pushed.imp fun _ => And.symm
  popped := h.popped.imp fun _ => And.symm
  callCount := h.callCount.imp fun _ => And.symm
  log := by
    obtain ⟨new, new', hlog, hlog', hnew⟩ := h.log
    exact ⟨new', new, hlog', hlog, hnew.flip.imp fun _ _ => Renaming.SameLogEntry.symm⟩
  pending := h.pending.symm
  clock := h.clock.symm
  invoked := h.invoked.symm
  events := h.events.symm

namespace SameMachine

variable {m m' : Machine}

/-! ## Reading -/

theorem load (h : κ.SameMachine m m') {o o' : Owner} (ho : κ.SameOwner o o') (b : Bank) (r : Nat) :
    κ.SameContent b (m.load ⟨o, b, r⟩) (m'.load ⟨o', b, r⟩) := by
  have hregisters := h.registers ho
  simp only [Machine.load]
  generalize m.registers? o = regs, m'.registers? o' = regs' at hregisters
  cases hregisters with
  | none => exact .blank b
  | some hregs => exact hregs.get b r

theorem text_eq (h : κ.SameMachine m m') {t t' : TextRef} (ht : κ.SameText t t') :
    m.text t = m'.text t' := by
  -- A text that is not read from a frame is the same on every machine.
  have still : ∀ {m m₀ : Machine} {t : TextRef}, (∀ s r, t = .register s r →
      m.registers? (.frame s) = m₀.registers? (.frame s)) → m.text t = m₀.text t := by
    intro m m₀ t ht
    cases t with
    | null => rfl
    | text s => rfl
    | register s r =>
        rw [Machine.text, Machine.text, load_of_registers? (ht s r rfl)]
  cases ht with
  | @register s s' hs r =>
      have heq : m.load ⟨.frame s, .string, r⟩ = m'.load ⟨.frame s', .string, r⟩ :=
        h.load (.frame hs) .string r
      exact congrArg some heq
  | still left right heq =>
      rw [still fun s r ht => h.leftStill s (left s r ht), heq,
        still fun s r ht => h.rightStill s (right s r ht)]

theorem contentFor (h : κ.SameMachine m m') {v v' : Value} (hv : κ.SameValue v v') (b : Bank) :
    κ.SameContent b (v.contentFor m.text b) (v'.contentFor m'.text b) := by
  cases hv with
  | int i | float x | nil | invalid tag => cases b <;> first | exact .blank _ | exact Eq.refl _
  | pointer hp =>
      cases b with
      | pointer => exact hp
      | int | float | string => exact .blank _
  | @string t t' ht =>
      cases b with
      | string =>
          have heq : (m.text t).getD (Bank.blank .string) = (m'.text t').getD (Bank.blank .string) := by
            rw [h.text_eq ht]
          exact heq
      | int | float | pointer => exact .blank _

theorem arg? (h : κ.SameMachine m m') {v v' : Value} (hv : κ.SameValue v v') :
    Option.Rel κ.SameArg (v.arg? m.text) (v'.arg? m'.text) := by
  cases hv with
  | int i => exact .some (.of (.mk .int (Eq.refl i)))
  | float x => exact .some (.of (.mk .float (Eq.refl x)))
  | pointer hp => exact .some (.of (.mk .pointer hp))
  | nil => exact .some .nil
  | invalid tag => exact .none
  | string ht =>
      rw [Value.arg?, Value.arg?, h.text_eq ht]
      cases m'.text _ with
      | none => exact .none
      | some s => exact .some (.of (.mk .string (Eq.refl s)))

/-! ## Writing -/

theorem write (h : κ.SameMachine m m') {ws ws' : List Write}
    (hws : List.Forall₂ κ.SameWrite ws ws') : κ.SameMachine (m.write ws) (m'.write ws') := by
  have left := m.sameContext_write ws
  have right := m'.sameContext_write ws'
  refine {
    registers := ?_
    leftStill := ?_
    rightStill := ?_
    leftOrdered := h.leftOrdered.same left.serials left.stats
    rightOrdered := h.rightOrdered.same right.serials right.stats
    pushed := by rw [left.stats, right.stats]; exact h.pushed
    popped := by rw [left.stats, right.stats]; exact h.popped
    callCount := by rw [left.callCount, right.callCount]; exact h.callCount
    log := by rw [log_write, log_write]; exact h.log
    pending := by rw [left.pending, right.pending]; exact h.pending
    clock := by rw [left.clock, right.clock]; exact h.clock
    invoked := by rw [left.invoked, right.invoked]; exact h.invoked
    events := by rw [left.events, right.events]; exact h.events }
  · intro o o' ho
    have hregisters := h.registers ho
    rw [registers?_write, registers?_write]
    generalize m.registers? o = regs, m'.registers? o' = regs' at hregisters
    cases hregisters with
    | none => exact .none
    | some hregs => exact .some (.written ho hws hregs)
  · intro s hs
    have unwritten := Renaming.SameWrite.owner_ne hws hs
    rw [registers?_write, Owner.written_of_forall_ne unwritten, Option.map_id_apply]
    exact h.leftStill s hs
  · intro s hs
    have hflip := hws.flip.imp fun _ _ => Renaming.SameWrite.symm
    have unwritten := Renaming.SameWrite.owner_ne hflip hs
    rw [registers?_write, Owner.written_of_forall_ne unwritten, Option.map_id_apply]
    exact h.rightStill s hs

theorem store (h : κ.SameMachine m m') {s s' : Slot} (hs : κ.SameSlot s s') {c c' : Cell}
    (hc : κ.SameCell c c') : κ.SameMachine (m.store s c) (m'.store s' c') := by
  have written : List.Forall₂ κ.SameWrite [⟨s, c⟩] [⟨s', c'⟩] := .cons ⟨hs, hc⟩ .nil
  exact h.write written

/-! ## Aborts -/

theorem raise (h : κ.SameMachine m m') (a : Abort) : κ.SameMachine (m.raise a) (m'.raise a) := by
  have hpending := h.pending
  have hevents := h.events
  rw [Machine.raise, Machine.raise]
  cases hp : m.pending with
  | none =>
      rw [hp] at hpending
      simp only [← hpending]
      exact { h with pending := rfl }
  | some previous =>
      rw [hp] at hpending
      simp only [← hpending]
      exact { h with pending := rfl, events := congrArg (· ++ _) hevents }

theorem report (h : κ.SameMachine m m') (e : Event) :
    κ.SameMachine (m.report e) (m'.report e) :=
  { h with events := congrArg (· ++ [e]) h.events }

theorem clearPending (h : κ.SameMachine m m') : κ.SameMachine m.clearPending m'.clearPending :=
  { h with pending := rfl }

/-! ## Frames -/

/-- As long as there is room, the next frame stands for the next one on the other side. -/
theorem next (h : κ.SameMachine m m') (hroom : m.stats.pushed < κ.left.stats.pushed + κ.room) :
    κ.frame m.stats.pushed m'.stats.pushed := by
  obtain ⟨n, hleft, hright⟩ := h.pushed
  rw [hleft, hright]
  exact κ.fresh n (by omega)

/-- Parameters that are alike fill a frame alike, or do not fit for the same reason. -/
theorem fill (h : κ.SameMachine m m') {vs vs' : List Value}
    (hvs : List.Forall₂ κ.SameValue vs vs') (index : Nat) (next : Bank → Nat) {r r' : Banks}
    (hr : κ.SameBanks r r') :
    (∃ s s', Frame.fill m.text index next r vs = .ok s ∧
        Frame.fill m'.text index next r' vs' = .ok s' ∧ κ.SameBanks s s') ∨
      ∃ e, Frame.fill m.text index next r vs = .error e ∧
        Frame.fill m'.text index next r' vs' = .error e := by
  induction hvs generalizing index next r r' with
  | nil => exact .inl ⟨r, r', rfl, rfl, hr⟩
  | @cons v v' vs vs' hv hvs ih =>
      rw [Frame.fill, Frame.fill, ← hv.kind?_eq]
      cases hkind : v.kind? with
      | none => exact .inr ⟨_, rfl, by rw [hv.tag_eq]⟩
      | some k =>
          cases k with
          | nil => exact ih (index + 1) next hr
          | of b =>
              simp only [← hr.size b]
              split
              · exact ih (index + 1) _ (hr.set (next b) (h.contentFor hv b))
              · exact .inr ⟨_, rfl, rfl⟩

/-- A frame that is pushed on both sides, and whose number stands for the other one. -/
theorem push (h : κ.SameMachine m m') (layout : FrameLayout) {vs vs' : List Value}
    (hvs : List.Forall₂ κ.SameValue vs vs') :
    (∃ fr fr' m₁ m₁', m.push layout vs = .ok (fr, m₁) ∧ m'.push layout vs' = .ok (fr', m₁') ∧
        κ.SameBanks fr.registers fr'.registers ∧
        (m₁.stats.pushed ≤ κ.left.stats.pushed + κ.room →
          κ.frame fr.serial fr'.serial ∧ κ.SameMachine m₁ m₁')) ∨
      ∃ e, m.push layout vs = .error e ∧ m'.push layout vs' = .error e := by
  have filled := h.fill hvs 0 (fun _ => 0) (.blank layout.registers)
  rcases filled with ⟨r, r', hr, hr', hrr⟩ | ⟨e, he, he'⟩
  · obtain ⟨m₁, room⟩ := push_of_fill hr
    obtain ⟨m₁', room'⟩ := push_of_fill hr'
    obtain ⟨-, hm₁⟩ := push_eq_ok room
    obtain ⟨-, hm₁'⟩ := push_eq_ok room'
    subst hm₁ hm₁'
    refine .inl ⟨_, _, _, _, room, room', hrr, fun hle => ?_⟩
    have hnext := h.next (Nat.lt_of_succ_le hle)
    have hnew : κ.SameOwner (.frame m.stats.pushed) (.frame m'.stats.pushed) := .frame hnext
    refine ⟨hnext, { h with
      registers := ?_
      leftStill := ?_
      rightStill := ?_
      leftOrdered := h.leftOrdered.push room
      rightOrdered := h.rightOrdered.push room'
      pushed := ?_ }⟩
    · intro o o' ho
      have hiff := ho.eq_iff hnew
      rw [registers?_of_push room, registers?_of_push room']
      by_cases hown : o = .frame m.stats.pushed
      · rw [if_pos hown, if_pos (hiff.1 hown)]
        exact .some hrr
      · rw [if_neg hown, if_neg fun hown' => hown (hiff.2 hown')]
        exact h.registers ho
    · intro s hs
      rw [registers?_of_push room, if_neg (Renaming.frame_ne_left hnext hs)]
      exact h.leftStill s hs
    · intro s hs
      rw [registers?_of_push room', if_neg (Renaming.frame_ne_right hnext hs)]
      exact h.rightStill s hs
    · obtain ⟨n, hleft, hright⟩ := h.pushed
      exact ⟨n + 1, congrArg (· + 1) hleft, congrArg (· + 1) hright⟩
  · refine .inr ⟨e, ?_, ?_⟩
    · rw [Machine.push, Frame.ofParams, he]
      rfl
    · rw [Machine.push, Frame.ofParams, he']
      rfl

theorem pop (h : κ.SameMachine m m') {s s' : Nat} (hs : κ.frame s s')
    (top : m.serials.head? = some s) (top' : m'.serials.head? = some s') :
    κ.SameMachine m.pop m'.pop := by
  have htop : κ.SameOwner (.frame s) (.frame s') := .frame hs
  have hregisters := fun o => registers?_of_pop h.leftOrdered top o
  have hregisters' := fun o => registers?_of_pop h.rightOrdered top' o
  have ordered := h.leftOrdered.pop
  have ordered' := h.rightOrdered.pop
  rw [pop_of_top top] at hregisters ordered ⊢
  rw [pop_of_top top'] at hregisters' ordered' ⊢
  refine { h with
    registers := ?_
    leftStill := ?_
    rightStill := ?_
    leftOrdered := ordered
    rightOrdered := ordered'
    popped := ?_ }
  · intro o o' ho
    have hiff := ho.eq_iff htop
    rw [hregisters, hregisters']
    by_cases hown : o = .frame s
    · rw [if_pos hown, if_pos (hiff.1 hown)]
      exact .none
    · rw [if_neg hown, if_neg fun hown' => hown (hiff.2 hown')]
      exact h.registers ho
  · intro k hk
    rw [hregisters, if_neg (Renaming.frame_ne_left hs hk)]
    exact h.leftStill k hk
  · intro k hk
    rw [hregisters', if_neg (Renaming.frame_ne_right hs hk)]
    exact h.rightStill k hk
  · obtain ⟨n, hleft, hright⟩ := h.popped
    exact ⟨n + 1, congrArg (· + 1) hleft, congrArg (· + 1) hright⟩

theorem unwind (h : κ.SameMachine m m') {s s' : Nat} (hs : κ.frame s s')
    (top : m.serials.head? = some s) (top' : m'.serials.head? = some s') (name : String) :
    κ.SameMachine (m.unwind name) (m'.unwind name) := by
  have popped := h.pop hs top top'
  rw [unwind_eq, unwind_eq, ← h.pending]
  cases m.pending with
  | some a => exact popped.clearPending.raise _
  | none => exact (popped.report _).raise _

/-! ## Host functions -/

theorem get? (h : κ.SameMachine m m') {args args' : Arguments}
    (params : List.Forall₂ κ.SameValue args.params args'.params)
    (defaults : List.Forall₂ κ.SameCell args.defaults args'.defaults) (i : Nat) :
    Option.Rel κ.SameArg (args.get? m.text i) (args'.get? m'.text i) := by
  have hparam := Renaming.getElem?_rel params i
  have hdefault := Renaming.getElem?_rel defaults i
  rw [Arguments.get?, Arguments.get?]
  generalize args.params[i]? = v, args'.params[i]? = v' at hparam
  cases hparam with
  | some hv => exact h.arg? hv
  | none =>
      generalize args.defaults[i]? = c, args'.defaults[i]? = c' at hdefault
      cases hdefault with
      | none => exact .none
      | some hc => exact .some (.of hc)

theorem runHost (h : κ.SameMachine m m') {args args' : Arguments}
    (params : List.Forall₂ κ.SameValue args.params args'.params)
    (defaults : List.Forall₂ κ.SameCell args.defaults args'.defaults)
    {returns returns' : List Descriptor}
    (hreturns : List.Forall₂ κ.SameDescriptor returns returns') {host host' : Host}
    (hhost : κ.SameHost host host') :
    (Machine.runHost args returns host m).1 = (Machine.runHost args' returns' host' m').1 ∧
      κ.SameMachine (Machine.runHost args returns host m).2
        (Machine.runHost args' returns' host' m').2 := by
  induction hhost generalizing m m' with
  | finish count => exact ⟨rfl, h⟩
  | abort a => exact ⟨rfl, h⟩
  | panic p => exact ⟨rfl, h⟩
  | put slot b values _ ih =>
      have hslot := Renaming.getElem?_rel hreturns slot
      simp only [Machine.runHost, hreturns.length_eq]
      generalize returns[slot]? = d, returns'[slot]? = d' at hslot
      cases hslot with
      | none => exact ⟨rfl, h⟩
      | some hd => exact ih (h.write (hd.put b values))
  | arg i _ ih => exact ih _ _ (h.get? params defaults i) h
  | load owner b r _ ih => exact ih _ _ (h.load owner b r) h
  | store owner b r value _ ih => exact ih (h.store (.mk owner b r) (.mk b value))
  | note entry _ ih =>
      refine ih { h with log := ?_ }
      obtain ⟨new, new', hlog, hlog', hnew⟩ := h.log
      refine ⟨new ++ [_], new' ++ [_], ?_, ?_, List.rel_append hnew (.cons entry .nil)⟩
      · rw [hlog, List.append_assoc]
      · rw [hlog', List.append_assoc]

variable {p : Program}

theorem callNative (h : κ.SameMachine m m') (portable : p.Portable) (f : FuncRef)
    {params params' : List Value} (hparams : List.Forall₂ κ.SameValue params params')
    {returns returns' : List Descriptor}
    (hreturns : List.Forall₂ κ.SameDescriptor returns returns') :
    (p.callNative f params returns m).1 = (p.callNative f params' returns' m').1 ∧
      κ.SameMachine (p.callNative f params returns m).2 (p.callNative f params' returns' m').2 := by
  cases f with
  | script i => exact ⟨rfl, h⟩
  | native i =>
      have begun : κ.SameMachine (Program.beforeNative i m) (Program.beforeNative i m') :=
        { h with
          clock := congrArg Clock.pause h.clock
          invoked := congrArg (· ++ [i]) h.invoked }
      have hinvocation : p.invocation i params returns m = p.invocation i params' returns' m' := by
        rw [Program.invocation, Program.invocation, h.invoked, hparams.length_eq,
          Renaming.SameDescriptor.map_regType?_eq hreturns]
      have ran : (p.runNative i params returns m).1 = (p.runNative i params' returns' m').1 ∧
          κ.SameMachine (p.runNative i params returns m).2 (p.runNative i params' returns' m').2 := by
        rw [Program.runNative, Program.runNative, hinvocation]
        exact begun.runHost hparams (portable.defaults κ.toRenaming i) hreturns
          (portable.behaviour κ.toRenaming i _)
      simp only [Program.callNative]
      generalize p.runNative i params returns m = run, p.runNative i params' returns' m' = run'
        at ran
      obtain ⟨o, ended⟩ := run
      obtain ⟨o', ended'⟩ := run'
      obtain ⟨rfl, same⟩ := ran
      have clock : m.clock.restore ended.clock = m'.clock.restore ended'.clock := by
        rw [h.clock, same.clock]
      cases o with
      | ok count => exact ⟨rfl, { same with clock }⟩
      | error a =>
          simp only [reportAbort_eq]
          exact ⟨trivial, { same with clock, events := congrArg (· ++ notice a) same.events }⟩

theorem nativeCall (h : κ.SameMachine m m') (portable : p.Portable) (f : FuncRef)
    {ho ho' : Handover} (hh : κ.SameHandover ho ho') :
    (p.nativeCall f ho m).1 = (p.nativeCall f ho' m').1 ∧
      κ.SameMachine (p.nativeCall f ho m).2 (p.nativeCall f ho' m').2 := by
  have hreturns : List.Forall₂ κ.SameDescriptor ho.visibleReturns ho'.visibleReturns := by
    rw [Handover.visibleReturns, Handover.visibleReturns, hh.wanted]
    exact List.forall₂_take _ hh.returns
  have called := h.callNative portable f hh.params hreturns
  rw [Program.nativeCall, Program.nativeCall]
  generalize p.callNative f ho.params ho.visibleReturns m = run,
    p.callNative f ho'.params ho'.visibleReturns m' = run' at called
  obtain ⟨o, ended⟩ := run
  obtain ⟨o', ended'⟩ := run'
  obtain ⟨rfl, same⟩ := called
  cases o with
  | ok count => exact ⟨rfl, same⟩
  | error a => exact ⟨rfl, same.raise a⟩

end SameMachine

end Comparison

end CallProtocol
