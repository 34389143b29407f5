import CallProtocol.Run

/-!
# What an operation leaves of the context

Most of what running code does changes the contents of slots and nothing else.
`Machine.SameContext m m'` says so: the frames on the stack are the same, and so are
the counters, the clock, the pending abort and the events. What a host function does
is of this kind.

The operations that do change the context are few, and each has a lemma that says
what becomes of the stack, the statistics, the pending abort and the events.
`Machine.Reports S m m'` is the part about events: those reported in between satisfy
`S`.
-/

namespace CallProtocol

namespace Machine

def serials (m : Machine) : List Nat := m.frames.map (·.serial)

theorem length_serials (m : Machine) : m.serials.length = m.depth := by
  simp [serials, depth]

theorem depth_of_serials {m m' : Machine} (h : m'.serials = m.serials) : m'.depth = m.depth := by
  rw [← length_serials, h, length_serials]

/-- The machines differ in the contents of slots, in the return storage and in the log
only. -/
structure SameContext (m m' : Machine) : Prop where
  serials : m'.serials = m.serials
  stats : m'.stats = m.stats
  pending : m'.pending = m.pending
  events : m'.events = m.events
  callCount : m'.callCount = m.callCount
  clock : m'.clock = m.clock
  invoked : m'.invoked = m.invoked

namespace SameContext

theorem refl (m : Machine) : SameContext m m := ⟨rfl, rfl, rfl, rfl, rfl, rfl, rfl⟩

theorem trans {m₁ m₂ m₃ : Machine} (h : SameContext m₁ m₂) (h' : SameContext m₂ m₃) :
    SameContext m₁ m₃ where
  serials := h'.serials.trans h.serials
  stats := h'.stats.trans h.stats
  pending := h'.pending.trans h.pending
  events := h'.events.trans h.events
  callCount := h'.callCount.trans h.callCount
  clock := h'.clock.trans h.clock
  invoked := h'.invoked.trans h.invoked

theorem depth {m m' : Machine} (h : SameContext m m') : m'.depth = m.depth :=
  depth_of_serials h.serials

end SameContext

theorem sameContext_modifyRegisters (m : Machine) (f : Banks → Banks) (o : Owner) :
    SameContext m (m.modifyRegisters f o) := by
  cases o with
  | output i => exact ⟨rfl, rfl, rfl, rfl, rfl, rfl, rfl⟩
  | frame serial =>
      refine ⟨?_, rfl, rfl, rfl, rfl, rfl, rfl⟩
      simp only [serials, modifyRegisters, List.map_map]
      apply List.map_congr_left
      intro fr _
      simp only [Function.comp_apply]
      split <;> rfl

theorem sameContext_store (m : Machine) (s : Slot) (c : Cell) : SameContext m (m.store s c) :=
  m.sameContext_modifyRegisters _ _

theorem sameContext_write (m : Machine) (ws : List Write) : SameContext m (m.write ws) := by
  induction ws generalizing m with
  | nil => exact .refl m
  | cons w ws ih => exact (m.sameContext_store w.slot w.cell).trans (ih _)

/-- A host function reaches slots, return storage and the log. -/
theorem sameContext_runHost (args : Arguments) (returns : List Descriptor) (host : Host)
    (m : Machine) : SameContext m (runHost args returns host m).2 := by
  induction host generalizing m with
  | finish n => exact .refl m
  | abort a => exact .refl m
  | panic p => exact .refl m
  | put slot b xs next ih =>
      simp only [runHost]
      split
      · next d _ => exact (m.sameContext_write _).trans (ih _)
      · exact .refl m
  | arg i next ih => exact ih _ m
  | load s next ih => exact ih _ m
  | store s x next ih => exact (m.sameContext_store _ _).trans (ih _)
  | note e next ih =>
      have noted : SameContext m { m with log := m.log ++ [e] } := ⟨rfl, rfl, rfl, rfl, rfl, rfl, rfl⟩
      exact noted.trans (ih _)

/-- The events reported between `m` and `m'` satisfy `S`. -/
def Reports (S : Event → Prop) (m m' : Machine) : Prop :=
  ∃ new, m'.events = m.events ++ new ∧ ∀ e ∈ new, S e

namespace Reports

theorem of_eq {S : Event → Prop} {m m' : Machine} (h : m'.events = m.events) : Reports S m m' :=
  ⟨[], by simp [h], by simp⟩

theorem trans {S : Event → Prop} {m₁ m₂ m₃ : Machine} (h : Reports S m₁ m₂)
    (h' : Reports S m₂ m₃) : Reports S m₁ m₃ := by
  obtain ⟨new, hnew, hS⟩ := h
  obtain ⟨new', hnew', hS'⟩ := h'
  refine ⟨new ++ new', by rw [hnew', hnew, List.append_assoc], ?_⟩
  intro e he
  rcases List.mem_append.1 he with he | he
  · exact hS e he
  · exact hS' e he

theorem mono {S S' : Event → Prop} {m m' : Machine} (h : Reports S m m')
    (hS : ∀ e, S e → S' e) : Reports S' m m' := by
  obtain ⟨new, hnew, hnewS⟩ := h
  exact ⟨new, hnew, fun e he => hS e (hnewS e he)⟩

end Reports

/-! ## Aborts -/

@[simp] theorem frames_raise (m : Machine) (a : Abort) : (m.raise a).frames = m.frames := by
  rw [raise]
  cases m.pending <;> rfl

@[simp] theorem stats_raise (m : Machine) (a : Abort) : (m.raise a).stats = m.stats := by
  rw [raise]
  cases m.pending <;> rfl

@[simp] theorem pending_raise (m : Machine) (a : Abort) : (m.raise a).pending = some a := by
  rw [raise]

theorem events_raise (m : Machine) (a : Abort) :
    (m.raise a).events = m.events ++ m.pending.toList.map .replacingPending := by
  rw [raise]
  cases m.pending with
  | none => simp
  | some previous => rfl

theorem reports_raise (m : Machine) (a : Abort) :
    Reports (fun e => ∃ previous, m.pending = some previous ∧ e = .replacingPending previous) m
      (m.raise a) := by
  refine ⟨_, events_raise m a, ?_⟩
  intro e he
  obtain ⟨previous, hprevious, rfl⟩ := List.mem_map.1 he
  exact ⟨previous, Option.mem_toList.1 hprevious, rfl⟩

@[simp] theorem serials_raise (m : Machine) (a : Abort) : (m.raise a).serials = m.serials := by
  simp [serials]

@[simp] theorem depth_raise (m : Machine) (a : Abort) : (m.raise a).depth = m.depth := by
  simp [depth]

/-- What is reported of an abort that leaves host code: its message, the first time. -/
def notice (a : Abort) : List Event :=
  if a.printed then [] else [.hostAbort a.kind a.message]

theorem reportAbort_eq (m : Machine) (a : Abort) :
    m.reportAbort a = (a.report, { m with events := m.events ++ notice a }) := by
  obtain ⟨kind, message, heading, callers, printed⟩ := a
  cases printed with
  | true => simp [reportAbort, notice, Abort.report]
  | false => rfl

/-! ## Frames -/

/-- A new frame is on top of the others, and its number has not been used before. -/
theorem push_eq_ok {m m' : Machine} {layout : FrameLayout} {params : List Value} {fr : Frame}
    (h : m.push layout params = .ok (fr, m')) :
    fr.serial = m.stats.pushed ∧
      m' = { m with
        frames := fr :: m.frames
        stats := { m.stats with
          pushed := m.stats.pushed + 1
          maxDepth := max m.stats.maxDepth (m.depth + 1) } } := by
  rw [push, Frame.ofParams] at h
  cases hfill : Frame.fill m.text 0 (fun _ => 0) (.blank layout.registers) params with
  | error e =>
      rw [hfill] at h
      cases h
  | ok r =>
      rw [hfill] at h
      cases h
      exact ⟨rfl, rfl⟩

@[simp] theorem pending_pop (m : Machine) : m.pop.pending = m.pending := by
  rw [pop]
  cases m.frames <;> rfl

@[simp] theorem serials_pop (m : Machine) : m.pop.serials = m.serials.tail := by
  rw [pop]
  cases h : m.frames with
  | nil => simp [serials, report, h]
  | cons fr frs => simp [serials, h]

theorem events_pop (m : Machine) (h : 0 < m.depth) : m.pop.events = m.events := by
  rw [pop]
  cases hf : m.frames with
  | nil => simp [depth, hf] at h
  | cons fr frs => rfl

@[simp] theorem depth_pop (m : Machine) : m.pop.depth = m.depth - 1 := by
  rw [← length_serials, serials_pop, List.length_tail, length_serials]

/-! ## Unwinding -/

theorem unwind_eq (m : Machine) (name : String) :
    m.unwind name =
      match m.pending with
      | some a => m.pop.clearPending.raise (a.through name)
      | none => (m.pop.report (.unwoundWithoutAbort name)).raise (orphanAbort name) := by
  have hpop := pending_pop m
  cases hp : m.pending with
  | some a =>
      rw [hp] at hpop
      simp only [unwind, hpop]
  | none =>
      rw [hp] at hpop
      simp only [unwind, hpop]

@[simp] theorem serials_unwind (m : Machine) (name : String) :
    (m.unwind name).serials = m.serials.tail := by
  rw [unwind_eq, ← serials_pop]
  cases m.pending <;> simp [serials, clearPending, report]

@[simp] theorem stats_unwind (m : Machine) (name : String) :
    (m.unwind name).stats = m.pop.stats := by
  rw [unwind_eq]
  cases m.pending <;> simp [clearPending, report]

@[simp] theorem depth_unwind (m : Machine) (name : String) :
    (m.unwind name).depth = m.depth - 1 := by
  rw [← length_serials, serials_unwind, List.length_tail, length_serials]

theorem unwind_of_pending {m : Machine} {a : Abort} (h : m.pending = some a) (name : String) :
    (m.unwind name).pending = some (a.through name) ∧ (m.unwind name).events = m.pop.events := by
  rw [unwind_eq, h]
  exact ⟨pending_raise _ _, by simp [events_raise, clearPending]⟩

theorem unwind_of_not_pending {m : Machine} (h : m.pending = none) (name : String) :
    (m.unwind name).pending = some (orphanAbort name) ∧
      (m.unwind name).events = m.pop.events ++ [.unwoundWithoutAbort name] := by
  rw [unwind_eq, h]
  refine ⟨pending_raise _ _, ?_⟩
  simp [events_raise, report, h]

theorem reports_unwind {m : Machine} (h : 0 < m.depth) (name : String) :
    Reports (· ≠ .frameUnderflow) m (m.unwind name) := by
  cases hp : m.pending with
  | some a =>
      obtain ⟨-, hevents⟩ := unwind_of_pending hp name
      exact .of_eq (by rw [hevents, events_pop m h])
  | none =>
      obtain ⟨-, hevents⟩ := unwind_of_not_pending hp name
      exact ⟨[.unwoundWithoutAbort name], by rw [hevents, events_pop m h], by simp⟩

end Machine

end CallProtocol
