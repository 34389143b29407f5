import CallProtocol.Proofs.Execution.Invocations
import CallProtocol.Proofs.PlanSafety
import CallProtocol.Proofs.Renaming.Closed
import CallProtocol.Proofs.SlotCoherence

/-!
# The way to a call

The steps in front of the first call of a body are plain instructions and instructions that
stage parameters. If none of them takes the address of a register, then what the activation
gets to know of frames are the string registers of its own, which it stages by reference.
`Activation.Led` says so, and that nothing but the frame of the activation has changed.
-/

namespace CallProtocol

open Machine

def Source.isAddress : Source → Bool
  | .address _ _ => true
  | _ => false

def Step.leads : Step → Bool
  | .plain _ => true
  | .stage _ params => params.all fun e => !e.source.isAddress
  | _ => false

def PlainOp.source? : PlainOp → Option Source
  | .assign _ _ source => some source
  | _ => none

/-! ## The plan -/

namespace Prototype

variable {p : Prototype} {plan : Plan}

theorem not_isAddress_of_plainOp {pc : Nat} {i : Instr} {op : PlainOp} {source : Source}
    (h : p.plainOp pc i = .ok op) (hs : op.source? = some source) : source.isAddress = false := by
  have ofLoad : ∀ {b}, p.loadConst pc b i = .ok op → source.isAddress = false := by
    intro b h
    obtain ⟨_, -, h⟩ := bind_eq_ok h
    obtain ⟨s, hconst, h⟩ := bind_eq_ok h
    cases h
    cases hs
    obtain ⟨_, -, hconst⟩ := bind_eq_ok hconst
    cases hconst
    rfl
  have ofMove : ∀ {b}, p.moveReg pc b i = .ok op → source.isAddress = false := by
    intro b h
    obtain ⟨_, -, h⟩ := bind_eq_ok h
    obtain ⟨s, hreg, h⟩ := bind_eq_ok h
    cases h
    cases hs
    obtain ⟨_, -, hreg⟩ := bind_eq_ok hreg
    cases hreg
    rfl
  have ofAdd : ∀ {b f}, (∀ r x y, PlainOp.source? (f r x y) = none) →
      p.addRegs pc b f i = .ok op → source.isAddress = false := by
    intro b f hf h
    obtain ⟨_, -, h⟩ := bind_eq_ok h
    obtain ⟨_, -, h⟩ := bind_eq_ok h
    obtain ⟨_, -, h⟩ := bind_eq_ok h
    cases h
    rw [hf] at hs
    cases hs
  rw [plainOp] at h
  split at h
  · obtain ⟨_, -, h⟩ := bind_eq_ok h
    cases h
    cases hs
    rfl
  · exact ofLoad h
  · exact ofLoad h
  · exact ofLoad h
  · exact ofLoad h
  · exact ofMove h
  · exact ofMove h
  · exact ofMove h
  · exact ofAdd (fun _ _ _ => rfl) h
  · exact ofAdd (fun _ _ _ => rfl) h
  · cases h
    cases hs

theorem not_isAddress_of_mem (planned : p.plan = .ok plan) {op : PlainOp} {source : Source}
    (h : .plain op ∈ plan.steps) (hs : op.source? = some source) : source.isAddress = false := by
  obtain ⟨n, hn⟩ := List.mem_iff_getElem?.1 h
  obtain ⟨i, s, s', -, -, walked⟩ := step_instr planned hn
  obtain ⟨pc, i, hop⟩ : ∃ pc i, p.plainOp pc i = .ok op := by
    rw [Planning.next] at walked
    split at walked
    · obtain ⟨_, -, walked⟩ := bind_eq_ok walked
      obtain ⟨_, -, walked⟩ := bind_eq_ok walked
      cases walked
    · cases walked
    · obtain ⟨_, heq, -⟩ := Planning.call_eq_ok walked
      cases heq
    · obtain ⟨_, heq, -⟩ := Planning.call_eq_ok walked
      cases heq
    · obtain ⟨_, heq, -⟩ := Planning.call_eq_ok walked
      cases heq
    · obtain ⟨_, heq, -⟩ := Planning.call_eq_ok walked
      cases heq
    · rw [Planning.result] at walked
      split at walked
      · split at walked
        · cases walked
        · cases walked
      · cases walked
    · obtain ⟨_, -, walked⟩ := bind_eq_ok walked
      cases walked
    · cases walked
    · obtain ⟨op', hop, walked⟩ := bind_eq_ok walked
      cases walked
      exact ⟨n, i, hop⟩
  exact not_isAddress_of_plainOp hop hs

theorem exists_calls (planned : p.plan = .ok plan) {lead rest : List Step} {c : CallSite}
    (steps : plan.steps = lead ++ .call c :: rest) :
    ∃ i s s', p.code[lead.length]? = some i ∧ p.Carries lead.length s ∧
      s.Calls p lead.length i c s' := by
  have hn : plan.steps[lead.length]? = some (.call c) := by
    rw [steps, List.getElem?_append_right (Nat.le_refl _), Nat.sub_self]
    rfl
  obtain ⟨i, s, s', hi, carries, walked⟩ := step_instr planned hn
  exact ⟨i, s, s', hi, carries, (Planning.calls_of_next walked).2⟩

/-- A call takes as many parameters as its instruction says. -/
theorem length_window (planned : p.plan = .ok plan) {lead rest : List Step} {c : CallSite}
    (steps : plan.steps = lead ++ .call c :: rest) :
    ∃ i, p.code[lead.length]? = some i ∧ c.window.params.length = i.b.toNat := by
  obtain ⟨i, s, s', hi, -, calls⟩ := exists_calls planned steps
  have enough := calls.enough
  refine ⟨i, hi, ?_⟩
  rw [calls.window, List.length_drop]
  omega

/-- What the call takes has been staged on the way to it. -/
theorem not_isAddress_of_window (planned : p.plan = .ok plan) {lead rest : List Step}
    {c : CallSite} (steps : plan.steps = lead ++ .call c :: rest)
    (leads : ∀ s ∈ lead, s.leads = true) : ∀ e ∈ c.window.params, e.source.isAddress = false := by
  intro e he
  obtain ⟨i, s, s', -, carries, calls⟩ := exists_calls planned steps
  rw [calls.window] at he
  obtain ⟨slot, hslot⟩ := List.mem_iff_getElem?.1 (List.mem_of_mem_drop he)
  obtain ⟨before, ⟨step, hstep, hwrites⟩, -⟩ := carries.lastWrite planned slot e hslot
  have hlead : step ∈ lead := by
    rw [steps, List.getElem?_append_left before] at hstep
    exact List.mem_of_getElem? hstep
  have hleads := leads step hlead
  cases step with
  | stage start params =>
      rw [Step.writes?] at hwrites
      split at hwrites
      · have hall := List.all_eq_true.1 hleads e (List.mem_of_getElem? hwrites)
        simpa using hall
      · cases hwrites
  | plain op | call c | result spec | ret site => cases hwrites

end Prototype

/-! ## The run -/

/-- The value leads to no frame but by a reference to a string register of the frame `n`. -/
inductive Value.Within (ρ : Renaming) (n : Nat) : Value → Prop
  | nil : Within ρ n .nil
  | ofCell {c : Cell} (h : ρ.SameCell c c) : Within ρ n (.ofCell c)
  | register (r : Nat) : Within ρ n (.string (.register n r))

/-- What has become of the activation `a₀` on the machine `m₀`. Only its own frame has
changed, and it has not got hold of the address of a frame. -/
structure Activation.Led (ρ : Renaming) (a₀ : Activation) (m₀ : Machine) (a : Activation)
    (m : Machine) : Prop where
  body : a₀.SameBody a
  context : SameContext m₀ m
  log : m.log = m₀.log
  others : ∀ o, o ≠ .frame a₀.frame → m.registers? o = m₀.registers? o
  room : a.outgoing.length = a₀.outgoing.length
  locals : ρ.SameBanks a.locals a.locals
  outgoing : ∀ v ∈ a.outgoing, v.Within ρ a₀.frame

namespace Activation.Led

variable {ρ : Renaming} {a₀ a a' : Activation} {m₀ m m' : Machine}

theorem cell? (h : Led ρ a₀ m₀ a m)
    (constants : ρ.SameBanks a₀.proto.constants a₀.proto.constants) {s : Source}
    (hs : s.isAddress = false) {c : Cell} (hc : a.cell? m s = some c) : ρ.SameCell c c := by
  cases s with
  | nil => cases hc
  | imm v =>
      cases hc
      exact .mk .int (Eq.refl v)
  | const b k =>
      cases hc
      rw [h.body.proto]
      exact .mk b (constants.get b k)
  | reg b r =>
      cases hc
      cases b with
      | string => exact .mk .string (Eq.refl _)
      | int | float | pointer => exact .mk _ (h.locals.get _ r)
  | address b r => cases hs

theorem stagedValue (h : Led ρ a₀ m₀ a m)
    (constants : ρ.SameBanks a₀.proto.constants a₀.proto.constants) {s : Source}
    (hs : s.isAddress = false) : (a.stagedValue m s).Within ρ a₀.frame := by
  rcases Activation.stagedValue_cases s with ⟨r, rfl⟩ | heq
  · rw [← h.body.frame]
    exact .register r
  · rw [heq]
    cases hc : a.cell? m s with
    | none => exact .nil
    | some c => exact .ofCell (h.cell? constants hs hc)

theorem assign (h : Led ρ a₀ m₀ a m) (b : Bank) (r : Nat) {x : b.Content}
    (hx : ρ.SameContent b x x) : Led ρ a₀ m₀ (a.assign m b r x).1 (a.assign m b r x).2 := by
  rcases a.assign_cases m b r x with ⟨-, heq⟩ | ⟨-, heq⟩
  · rw [heq]
    exact { h with
      body := h.body.trans ⟨rfl, rfl, rfl, rfl⟩
      locals := h.locals.set r hx }
  · rw [heq]
    refine { h with
      context := h.context.trans (m.sameContext_store (a.slot b r) ⟨b, x⟩)
      log := (m.log_store (a.slot b r) ⟨b, x⟩).trans h.log
      others := fun o ho => ?_ }
    have hne : ∀ w ∈ [(⟨a.slot b r, ⟨b, x⟩⟩ : Write)], w.slot.owner ≠ o := by
      refine List.forall_mem_singleton.2 ?_
      change Owner.frame a.frame ≠ o
      rw [h.body.frame]
      exact ho.symm
    rw [registers?_store, Owner.written_of_forall_ne hne, Option.map_id_apply]
    exact h.others o ho

theorem plain (h : Led ρ a₀ m₀ a m)
    (constants : ρ.SameBanks a₀.proto.constants a₀.proto.constants) {op : PlainOp}
    (hop : ∀ s, op.source? = some s → s.isAddress = false) :
    Led ρ a₀ m₀ (a.plain m op).1 (a.plain m op).2 := by
  cases op with
  | nop => exact h
  | addInts r x y => exact h.assign .int r (Eq.refl _)
  | addFloats r x y => exact h.assign .float r (Eq.refl _)
  | assign b r source =>
      rw [Activation.plain]
      cases hc : a.cell? m source with
      | none => exact h
      | some c =>
          have has := (h.cell? constants (hop source rfl) hc).as? b
          rw [Option.bind_some]
          generalize c.as? b = x at has
          cases has with
          | none => exact h
          | some hx => exact h.assign b r hx

theorem stage (h : Led ρ a₀ m₀ a m)
    (constants : ρ.SameBanks a₀.proto.constants a₀.proto.constants) (slot : Nat)
    {params : List Staged} (hparams : ∀ e ∈ params, e.source.isAddress = false) :
    Led ρ a₀ m₀ (a.stage m slot params) m := by
  induction params generalizing a slot with
  | nil => exact h
  | cons e params ih =>
      obtain ⟨he, hparams⟩ := List.forall_mem_cons.1 hparams
      have staged : Led ρ a₀ m₀
          { a with outgoing := a.outgoing.set slot (a.stagedValue m e.source) } m :=
        { h with
          body := h.body.trans ⟨rfl, rfl, rfl, rfl⟩
          room := List.length_set.trans h.room
          outgoing := fun v hv => by
            rcases List.mem_or_eq_of_mem_set hv with hv | rfl
            · exact h.outgoing v hv
            · exact h.stagedValue constants he }
      exact ih staged (slot + 1) hparams

/-- The steps on the way can all be done. -/
theorem exists_quietAll {lead : List Step} (h : Led ρ a₀ m₀ a m)
    (constants : ρ.SameBanks a₀.proto.constants a₀.proto.constants)
    (leads : ∀ s ∈ lead, s.leads = true)
    (plains : ∀ op s, .plain op ∈ lead → op.source? = some s → s.isAddress = false)
    (stages : ∀ slot params, .stage slot params ∈ lead →
      slot + params.length ≤ a₀.outgoing.length) :
    ∃ a' m', a.quietAll lead m = some (a', m') ∧ Led ρ a₀ m₀ a' m' := by
  induction lead generalizing a m with
  | nil => exact ⟨a, m, rfl, h⟩
  | cons s lead ih =>
      obtain ⟨hs, leads⟩ := List.forall_mem_cons.1 leads
      obtain ⟨a₁, m₁, step, h₁⟩ : ∃ a₁ m₁, a.quiet m s = some (a₁, m₁) ∧ Led ρ a₀ m₀ a₁ m₁ := by
        cases s with
        | plain op =>
            exact ⟨_, _, rfl, h.plain constants fun s hs => plains op s List.mem_cons_self hs⟩
        | stage slot params =>
            have hroom : a.hasRoom slot params = true :=
              decide_eq_true (h.room ▸ stages slot params List.mem_cons_self)
            refine ⟨_, _, if_pos hroom, h.stage constants slot fun e he => ?_⟩
            simpa using List.all_eq_true.1 hs e he
        | call c | result spec | ret site => cases hs
      obtain ⟨a', m', steps, h'⟩ := ih h₁ leads
        (fun op s hop => plains op s (List.mem_cons_of_mem _ hop))
        (fun slot params hstage => stages slot params (List.mem_cons_of_mem _ hstage))
      refine ⟨a', m', ?_, h'⟩
      rw [quietAll, step]
      exact steps

end Activation.Led

end CallProtocol
