import CallProtocol.Proofs.Execution.Activation
import CallProtocol.Proofs.Execution.Stack
import CallProtocol.Proofs.Machine.Writes

/-!
# Who writes to a slot

A slot is written to in three ways: by the activation whose frame it is in, through a
return descriptor, and by a native that has got hold of its address. What a run writes in
the second way are its deliveries, and `Execution.deliveries` lists them, each with the
descriptor it goes through. `Execution.stores` lists the slots that are written to in the
third way.

`Execution.writes` lists what is written in the second way and the third, in the order in
which it happens, and `Execution.registers?_written` says that there is no other way: a run
changes the return storage and the frames below its own by these writes. So it leaves a slot
of them alone unless it delivers to the slot or a native stores to it.
-/

namespace CallProtocol

open Machine

/-- A write through a descriptor. -/
structure Delivery where
  descriptor : Descriptor
  write : Write

namespace Descriptor

def deliver (d : Descriptor) (ws : List Write) : List Delivery := ws.map (Delivery.mk d)

theorem map_write_deliver (d : Descriptor) (ws : List Write) :
    (d.deliver ws).map (·.write) = ws := by
  rw [deliver, List.map_map]
  exact List.map_id ws

end Descriptor

def Machine.hostPuts (args : Arguments) (returns : List Descriptor) :
    Host → Machine → List Delivery
  | .finish _, _ => []
  | .abort _, _ => []
  | .panic _, _ => []
  | .put slot b xs next, m =>
    match returns[slot]? with
    | some d => d.deliver (d.put b xs) ++ hostPuts args returns next (m.write (d.put b xs))
    | none => []
  | .arg i next, m => hostPuts args returns (next (args.get? m.text i)) m
  | .load s next, m => hostPuts args returns (next (m.load s)) m
  | .store s x next, m => hostPuts args returns next (m.store s ⟨s.bank, x⟩)
  | .note e next, m => hostPuts args returns next { m with log := m.log ++ [e] }

def Machine.hostStores (args : Arguments) (returns : List Descriptor) : Host → Machine → List Slot
  | .finish _, _ => []
  | .abort _, _ => []
  | .panic _, _ => []
  | .put slot b xs next, m =>
    match returns[slot]? with
    | some d => hostStores args returns next (m.write (d.put b xs))
    | none => []
  | .arg i next, m => hostStores args returns (next (args.get? m.text i)) m
  | .load s next, m => hostStores args returns (next (m.load s)) m
  | .store s x next, m => s :: hostStores args returns next (m.store s ⟨s.bank, x⟩)
  | .note e next, m => hostStores args returns next { m with log := m.log ++ [e] }

def Machine.hostWrites (args : Arguments) (returns : List Descriptor) : Host → Machine → List Write
  | .finish _, _ => []
  | .abort _, _ => []
  | .panic _, _ => []
  | .put slot b xs next, m =>
    match returns[slot]? with
    | some d => d.put b xs ++ hostWrites args returns next (m.write (d.put b xs))
    | none => []
  | .arg i next, m => hostWrites args returns (next (args.get? m.text i)) m
  | .load s next, m => hostWrites args returns (next (m.load s)) m
  | .store s x next, m =>
    ⟨s, ⟨s.bank, x⟩⟩ :: hostWrites args returns next (m.store s ⟨s.bank, x⟩)
  | .note e next, m => hostWrites args returns next { m with log := m.log ++ [e] }

namespace Machine

variable {args : Arguments} {returns : List Descriptor}

theorem registers?_runHost (host : Host) (m : Machine) (o : Owner) :
    (runHost args returns host m).2.registers? o =
      (m.registers? o).map (o.written (hostWrites args returns host m)) := by
  have nothing : ∀ m : Machine, m.registers? o = (m.registers? o).map (o.written []) :=
    fun m => Option.map_id_apply.symm
  induction host generalizing m with
  | finish n => exact nothing m
  | abort a => exact nothing m
  | panic p => exact nothing m
  | put slot b xs next ih =>
      simp only [runHost, hostWrites]
      cases returns[slot]? with
      | none => exact nothing m
      | some d => rw [ih, registers?_write, map_written_append]
  | arg i next ih => exact ih _ m
  | load s next ih => exact ih _ m
  | store s x next ih =>
      simp only [runHost, hostWrites]
      rw [ih, registers?_store, map_written_append, List.singleton_append]
  | note e next ih => exact ih _

/-- A host function writes what its setters deliver and to the slots that it stores to. -/
theorem mem_hostWrites {host : Host} {m : Machine} {w : Write}
    (h : w ∈ hostWrites args returns host m) :
    (∃ δ ∈ hostPuts args returns host m, δ.write = w) ∨
      w.slot ∈ hostStores args returns host m := by
  induction host generalizing m with
  | finish n => cases h
  | abort a => cases h
  | panic p => cases h
  | put slot b xs next ih =>
      simp only [hostWrites, hostPuts, hostStores] at h ⊢
      split at h
      · next d hd =>
          rcases List.mem_append.1 h with h | h
          · exact .inl ⟨⟨d, w⟩, List.mem_append_left _ (List.mem_map_of_mem h), rfl⟩
          · refine (ih h).imp_left ?_
            rintro ⟨δ, hδ, hw⟩
            exact ⟨δ, List.mem_append_right _ hδ, hw⟩
      · cases h
  | arg i next ih => exact ih _ h
  | load s next ih => exact ih _ h
  | store s x next ih =>
      rcases List.mem_cons.1 h with rfl | h
      · exact .inr List.mem_cons_self
      · exact (ih h).imp_right (List.mem_cons_of_mem s)
  | note e next ih => exact ih h

end Machine

namespace Program

def nativePuts (p : Program) (f : FuncRef) (params : List Value) (returns : List Descriptor)
    (m : Machine) : List Delivery :=
  match f with
  | .script _ => []
  | .native i =>
    hostPuts ⟨params, (p.native i).defaults⟩ returns
      ((p.native i).behaviour (p.invocation i params returns m)) (beforeNative i m)

def nativeStores (p : Program) (f : FuncRef) (params : List Value) (returns : List Descriptor)
    (m : Machine) : List Slot :=
  match f with
  | .script _ => []
  | .native i =>
    hostStores ⟨params, (p.native i).defaults⟩ returns
      ((p.native i).behaviour (p.invocation i params returns m)) (beforeNative i m)

def nativeWrites (p : Program) (f : FuncRef) (params : List Value) (returns : List Descriptor)
    (m : Machine) : List Write :=
  match f with
  | .script _ => []
  | .native i =>
    hostWrites ⟨params, (p.native i).defaults⟩ returns
      ((p.native i).behaviour (p.invocation i params returns m)) (beforeNative i m)

variable {p : Program} {f : FuncRef} {params : List Value} {returns : List Descriptor}
  {m m' : Machine}

theorem registers?_callNative {o : Except Abort Int32}
    (ran : p.callNative f params returns m = (o, m')) (owner : Owner) :
    m'.registers? owner =
      (m.registers? owner).map (owner.written (p.nativeWrites f params returns m)) := by
  cases f with
  | script i =>
      cases ran
      exact Option.map_id_apply.symm
  | native i =>
      have hrun : (p.runNative i params returns m).2.registers? owner = _ :=
        registers?_runHost _ _ _
      have hslots : m'.registers? owner = (p.runNative i params returns m).2.registers? owner := by
        rw [callNative] at ran
        cases houtcome : p.runNative i params returns m with
        | mk outcome ended =>
            rw [houtcome] at ran
            cases outcome with
            | ok count =>
                cases ran
                exact registers?_congr rfl rfl owner
            | error a =>
                simp only [reportAbort] at ran
                split at ran
                · cases ran
                  exact registers?_congr rfl rfl owner
                · cases ran
                  exact registers?_congr rfl rfl owner
      exact hslots.trans hrun

theorem mem_nativeWrites {w : Write} (h : w ∈ p.nativeWrites f params returns m) :
    (∃ δ ∈ p.nativePuts f params returns m, δ.write = w) ∨
      w.slot ∈ p.nativeStores f params returns m := by
  cases f with
  | script i => cases h
  | native i => exact mem_hostWrites h

theorem load_callNative {o : Except Abort Int32} {σ : Slot}
    (ran : p.callNative f params returns m = (o, m'))
    (undelivered : ∀ δ ∈ p.nativePuts f params returns m, δ.write.slot ≠ σ)
    (unstored : σ ∉ p.nativeStores f params returns m) : m'.load σ = m.load σ := by
  refine load_of_unwritten (registers?_callNative ran σ.owner) ?_
  rintro w hw rfl
  rcases mem_nativeWrites hw with ⟨δ, hδ, rfl⟩ | hw
  · exact undelivered δ hδ rfl
  · exact unstored hw

end Program

namespace Activation

def given (a : Activation) (m : Machine) (site : ReturnSite) : List Delivery :=
  if a.wants site.slot then
    match a.handover.returns[site.slot]? with
    | some d => d.deliver (d.give site.bank (a.returnCells m site))
    | none => []
  else []

def givenBy (a : Activation) (m : Machine) : Step → List Delivery
  | .ret site => a.given m site
  | _ => []

end Activation

namespace Execution

/-- What is delivered during a run. -/
def deliveries {p : Program} {τ : Task} {m : Machine} {r : Int32} {m' : Machine} :
    Execution p τ m r m' → List Delivery
  | stub _ _ _ _ => []
  | host _ _ _ _ _ => []
  | refused _ => []
  | begun _ body => body.deliveries
  | @native _ f h m _ _ _ => p.nativePuts f h.params h.visibleReturns m
  | null _ => []
  | fallOff _ _ => []
  | @quiet _ s _ a m _ _ _ _ _ next => a.givenBy m s ++ next.deliveries
  | @returned _ site _ a m _ => a.given m site
  | unwound _ call _ => call.deliveries
  | tailed _ call _ _ => call.deliveries
  | resumed _ call _ _ next => call.deliveries ++ next.deliveries

def stores {p : Program} {τ : Task} {m : Machine} {r : Int32} {m' : Machine} :
    Execution p τ m r m' → List Slot
  | stub _ _ _ _ => []
  | host _ _ _ _ _ => []
  | refused _ => []
  | begun _ body => body.stores
  | @native _ f h m _ _ _ => p.nativeStores f h.params h.visibleReturns m
  | null _ => []
  | fallOff _ _ => []
  | quiet _ next => next.stores
  | returned _ _ _ _ => []
  | unwound _ call _ => call.stores
  | tailed _ call _ _ => call.stores
  | resumed _ call _ _ next => call.stores ++ next.stores

/-- What is written during a run in either way, in its order. What a body writes to its own
frame is not among it. -/
def writes {p : Program} {τ : Task} {m : Machine} {r : Int32} {m' : Machine} :
    Execution p τ m r m' → List Write
  | stub _ _ _ _ => []
  | host _ _ _ _ _ => []
  | refused _ => []
  | begun _ body => body.writes
  | @native _ f h m _ _ _ => p.nativeWrites f h.params h.visibleReturns m
  | null _ => []
  | fallOff _ _ => []
  | @quiet _ s _ a m _ _ _ _ _ next => (a.givenBy m s).map (·.write) ++ next.writes
  | @returned _ site _ a m _ => (a.given m site).map (·.write)
  | unwound _ call _ => call.writes
  | tailed _ call _ _ => call.writes
  | resumed _ call _ _ next => call.writes ++ next.writes

theorem mem_writes {p : Program} {τ : Task} {m : Machine} {r : Int32} {m' : Machine}
    (x : Execution p τ m r m') {w : Write} (h : w ∈ x.writes) :
    (∃ δ ∈ x.deliveries, δ.write = w) ∨ w.slot ∈ x.stores := by
  induction x with
  | stub f name h m => cases h
  | host e f name h m => cases h
  | refused full => cases h
  | begun room body ih => exact ih h
  | native ran => exact Program.mem_nativeWrites h
  | null m => cases h
  | fallOff a m => cases h
  | quiet step next ih =>
      rcases List.mem_append.1 h with h | h
      · obtain ⟨δ, hδ, hw⟩ := List.mem_map.1 h
        exact .inl ⟨δ, List.mem_append_left _ hδ, hw⟩
      · refine (ih h).imp_left ?_
        rintro ⟨δ, hδ, hw⟩
        exact ⟨δ, List.mem_append_right _ hδ, hw⟩
  | returned rest a m final =>
      obtain ⟨δ, hδ, hw⟩ := List.mem_map.1 h
      exact .inl ⟨δ, hδ, hw⟩
  | unwound callee call negative ih => exact ih h
  | tailed callee call resumes kind ih => exact ih h
  | resumed callee call resumes kind next ihcall ihnext =>
      rcases List.mem_append.1 h with h | h
      · refine (ihcall h).imp ?_ (List.mem_append_left _)
        rintro ⟨δ, hδ, hw⟩
        exact ⟨δ, List.mem_append_left _ hδ, hw⟩
      · refine (ihnext h).imp ?_ (List.mem_append_right _)
        rintro ⟨δ, hδ, hw⟩
        exact ⟨δ, List.mem_append_right _ hδ, hw⟩

end Execution

namespace Activation

def flushed (a : Activation) (regs : List (Bank × Nat)) : List Write :=
  regs.map fun q => ⟨a.slot q.1 q.2, ⟨q.1, a.locals.get q.1 q.2⟩⟩

theorem flush_eq_write (a : Activation) (m : Machine) (regs : List (Bank × Nat)) :
    a.flush m regs = m.write (a.flushed regs) := by
  rw [flush, flushed, write, List.foldl_map]

theorem load_flush {a : Activation} {m : Machine} {regs : List (Bank × Nat)} {σ : Slot}
    (h : ∀ p ∈ regs, a.slot p.1 p.2 ≠ σ) : (a.flush m regs).load σ = m.load σ := by
  rw [flush_eq_write]
  exact m.load_write (List.forall_mem_map.2 h)

variable {a a' : Activation} {m m' : Machine} {o : Owner}

theorem registers?_giveBack (a : Activation) (m : Machine) (site : ReturnSite) (o : Owner) :
    (a.giveBack m site).registers? o =
      (m.registers? o).map (o.written ((a.given m site).map (·.write))) := by
  rw [giveBack, given]
  cases a.wants site.slot with
  | false => exact Option.map_id_apply.symm
  | true =>
      cases a.handover.returns[site.slot]? with
      | none => exact Option.map_id_apply.symm
      | some d => exact Descriptor.map_write_deliver d _ ▸ m.registers?_write _ o

/-- A step writes to the frame of its activation and through the descriptors of its
caller, and to nothing else. -/
theorem registers?_quiet {s : Step} (step : a.quiet m s = some (a', m'))
    (outside : o ≠ .frame a.frame) :
    m'.registers? o = (m.registers? o).map (o.written ((a.givenBy m s).map (·.write))) := by
  rcases quiet_cases step with ⟨op, rfl, hop⟩ | ⟨_, _, rfl, -, -, rfl⟩ | ⟨_, rfl, -, rfl⟩ |
    ⟨site, rfl, -, -, rfl⟩
  · have hsnd : m' = (a.plain m op).2 := by rw [hop]
    refine Eq.trans ?_ Option.map_id_apply.symm
    rw [hsnd]
    rcases a.plain_cases m op with hplain | ⟨b, r, x, hplain⟩
    · rw [hplain]
    · rw [hplain]
      rcases a.assign_cases m b r x with ⟨-, hassign⟩ | ⟨-, hassign⟩
      · rw [hassign]
      · have hne : ∀ w ∈ [(⟨a.slot b r, ⟨b, x⟩⟩ : Write)], w.slot.owner ≠ o :=
          List.forall_mem_singleton.2 outside.symm
        rw [hassign, registers?_store, Owner.written_of_forall_ne hne, Option.map_id_apply]
  · exact Option.map_id_apply.symm
  · exact Option.map_id_apply.symm
  · exact a.registers?_giveBack m site o

end Activation

/-- The slot is not in the frame that the task runs in. -/
def Task.Outside (σ : Slot) : Task → Prop
  | .body _ a => σ.owner ≠ .frame a.frame
  | _ => True

namespace Task

theorem outside_of_callee? {p : Program} {a : Activation} {c : CallSite} {m m₁ : Machine}
    {τ : Task} (σ : Slot) (callee : p.callee? a c m = some (τ, m₁)) : τ.Outside σ := by
  cases τ with
  | body steps a' => exact (Program.callee?_ne_body callee).elim
  | _ => trivial

theorem outside_start {σ : Slot} {n : Nat} {code : Code} {h : Handover} {m m₁ : Machine}
    {fr : Frame} (name : String) (keeps : Keeps σ n m)
    (room : m.push code.plan.layout h.params = .ok (fr, m₁)) :
    (Task.body code.plan.steps (.start code name h fr)).Outside σ := by
  intro hσ
  obtain ⟨hfr, -⟩ := push_eq_ok room
  exact Nat.lt_irrefl _ (hfr ▸ (keeps _ hσ).1)

theorem Outside.of_sameBody {σ : Slot} {steps rest : List Step} {a a' : Activation}
    (h : (Task.body steps a).Outside σ) (same : a.SameBody a') : (Task.body rest a').Outside σ := by
  rwa [Outside, same.frame]

end Task

namespace Program

theorem registers?_task {p : Program} {a : Activation} {c : CallSite} {m m₁ : Machine} {τ : Task}
    (hτ : p.callee? a c m = some (τ, m₁)) (o : Owner) : m₁.registers? o = m.registers? o := by
  rcases callee?_cases hτ with ⟨-, rfl⟩ | ⟨f, -, rfl⟩ | ⟨f, e, -, -, rfl⟩
  · rfl
  · rfl
  · exact registers?_congr rfl rfl o

theorem load_task {p : Program} {a : Activation} {c : CallSite} {m m₁ : Machine} {τ : Task}
    (σ : Slot) (hτ : p.callee? a c m = some (τ, m₁)) : m₁.load σ = m.load σ :=
  load_of_registers? (registers?_task hτ σ.owner)

/-- Making a call writes to the frame of the caller only. -/
theorem load_callee? {p : Program} {a : Activation} {c : CallSite} {m m₁ : Machine} {τ : Task}
    {σ : Slot} (hslots : ∀ q ∈ a.inOuts c, a.slot q.1 q.2 ≠ σ)
    (hτ : p.callee? a c (a.beforeCall m c) = some (τ, m₁)) : m₁.load σ = m.load σ :=
  (load_task σ hτ).trans (Activation.load_flush hslots)

end Program

namespace Execution

theorem holds_callee? {p : Program} {k n : Nat} {a : Activation} {c : CallSite} {m m₁ : Machine}
    {τ : Task} (callee : p.callee? a c (a.beforeCall m c) = some (τ, m₁)) (holds : Holds k n m) :
    Holds k τ.ownFrames m₁ := by
  obtain ⟨hserials, hstats, -, -⟩ := Program.callee?_context callee
  rw [Program.ownFrames_callee? callee]
  exact (holds.same hserials hstats).mono (Nat.zero_le n)

theorem holdsCall {p : Program} {k n : Nat} {a : Activation} {c : CallSite} {m m₁ m₂ : Machine}
    {τ : Task} {r : Int32} (callee : p.callee? a c (a.beforeCall m c) = some (τ, m₁))
    (call : Execution p τ m₁ r m₂) (holds : Holds k n m) :
    Holds k τ.ownFrames m₁ ∧ Holds k n m₂ := by
  refine ⟨holds_callee? callee holds, ?_⟩
  exact (holds.restacked (ofCall callee call.restacked) (Nat.zero_le n)).mono (by omega)

theorem keepsCall {p : Program} {σ : Slot} {n : Nat} {a : Activation} {c : CallSite}
    {m m₁ m₂ : Machine} {τ : Task} {r : Int32}
    (callee : p.callee? a c (a.beforeCall m c) = some (τ, m₁)) (call : Execution p τ m₁ r m₂)
    (keeps : Keeps σ n m) : Keeps σ τ.ownFrames m₁ ∧ Keeps σ n m₂ :=
  ⟨fun k hk => (holdsCall callee call (keeps k hk)).1,
    fun k hk => (holdsCall callee call (keeps k hk)).2⟩

/-- What a body does to the registers of another owner by making a call is what its callee
does. -/
theorem registersCall {p : Program} {σ : Slot} {a : Activation} {c : CallSite} {rest : List Step}
    {m m₁ m₂ : Machine} {τ : Task} {r : Int32} {ws : List Write}
    (callee : p.callee? a c (a.beforeCall m c) = some (τ, m₁)) (call : Execution p τ m₁ r m₂)
    (outside : (Task.body (.call c :: rest) a).Outside σ) (keeps : Keeps σ 1 m)
    (ih : Keeps σ τ.ownFrames m₁ → τ.Outside σ →
      m₂.registers? σ.owner = (m₁.registers? σ.owner).map (σ.owner.written ws)) :
    m₂.registers? σ.owner = (m.registers? σ.owner).map (σ.owner.written ws) ∧ Keeps σ 1 m₂ := by
  obtain ⟨keeps₁, keeps₂⟩ := keepsCall callee call keeps
  have made : m₁.registers? σ.owner = m.registers? σ.owner := by
    have hown : ∀ w ∈ a.flushed (a.inOuts c), w.slot.owner ≠ σ.owner :=
      List.forall_mem_map.2 fun q _ => Ne.symm outside
    rw [Program.registers?_task callee, Activation.beforeCall, Activation.flush_eq_write,
      registers?_write, Owner.written_of_forall_ne hown, Option.map_id_apply]
  rw [← made]
  exact ⟨ih keeps₁ (Task.outside_of_callee? σ callee), keeps₂⟩

/-- A run changes the registers of a frame below its own, or of the return storage, by what
it delivers and by what natives store, in this order. -/
theorem registers?_written {p : Program} {σ : Slot} {τ : Task} {m : Machine} {r : Int32}
    {m' : Machine} (x : Execution p τ m r m') (keeps : Keeps σ τ.ownFrames m)
    (outside : τ.Outside σ) :
    m'.registers? σ.owner = (m.registers? σ.owner).map (σ.owner.written x.writes) := by
  have nothing : ∀ {m m' : Machine}, m'.registers? σ.owner = m.registers? σ.owner →
      m'.registers? σ.owner = (m.registers? σ.owner).map (σ.owner.written []) :=
    fun h => h.trans Option.map_id_apply.symm
  -- The frame of the slot stays below those of the task, so that none of its pops takes it away.
  induction x with
  | stub f name h m => exact nothing (registers?_raise m _ σ.owner)
  | host e f name h m =>
      have noted : Keeps σ 0 (Program.noteEntry f h m) := keeps.same rfl rfl
      have pushed := noted.registers?_pushEmpties e.pushes
      refine nothing (Eq.trans ?_ (pushed.trans (registers?_congr rfl rfl σ.owner)))
      simp only [Program.runHostEntry]
      cases e.raises with
      | none => rfl
      | some a => exact registers?_raise _ a σ.owner
  | refused full => exact nothing (registers?_raise _ _ σ.owner)
  | @begun code f name h m fr m₁ r m' room body ih =>
      have keeps₁ : Keeps σ 1 m₁ := keeps.restacked (.push room) (Nat.zero_le _)
      rw [← keeps.registers?_push room]
      exact ih keeps₁ (Task.outside_start name keeps room)
  | @native f h m r m' ran =>
      rcases Program.nativeCall_cases ran with ⟨hcall, -⟩ | ⟨a, m₁, hcall, -, rfl⟩
      · exact Program.registers?_callNative hcall σ.owner
      · exact (registers?_raise m₁ a σ.owner).trans (Program.registers?_callNative hcall σ.owner)
  | null m => exact nothing (registers?_raise m _ σ.owner)
  | fallOff a m => exact nothing keeps.registers?_pop
  | quiet step next ih =>
      have same := Activation.sameContext_quiet step
      have rest := ih (keeps.same same.serials same.stats)
        (outside.of_sameBody (Activation.sameBody_quiet step))
      rw [rest, Activation.registers?_quiet step outside]
      exact map_written_append _ _ _ _
  | @returned site rest a m final =>
      have same := a.sameContext_giveBack m site
      have keeps' : Keeps σ 1 (a.giveBack m site) := keeps.same same.serials same.stats
      exact keeps'.registers?_pop.trans (a.registers?_giveBack m site σ.owner)
  | @unwound c rest a m τ m₁ r m₂ callee call negative ih =>
      obtain ⟨called, keeps₂⟩ := registersCall callee call outside keeps ih
      exact (m₂.registers?_unwind a.name σ.owner).trans (keeps₂.registers?_pop.trans called)
  | tailed callee call resumes kind ih =>
      obtain ⟨called, keeps₂⟩ := registersCall callee call outside keeps ih
      exact keeps₂.registers?_pop.trans called
  | @resumed c rest a m τ m₁ r m₂ r' m' callee call resumes kind next ihcall ihnext =>
      obtain ⟨called, keeps₂⟩ := registersCall callee call outside keeps ihcall
      have same : a.SameBody (a.afterCall m₂ c) := a.sameBody_refresh m₂ _
      rw [ihnext keeps₂ (outside.of_sameBody same), called]
      exact map_written_append _ _ _ _

/-- A run leaves a slot of the return storage alone, or of a frame below its own, unless
it delivers to the slot or a native stores to it. -/
theorem load_eq_of_unwritten {p : Program} {σ : Slot} {τ : Task} {m : Machine} {r : Int32}
    {m' : Machine} (x : Execution p τ m r m') (keeps : Keeps σ τ.ownFrames m)
    (outside : τ.Outside σ) (undelivered : ∀ δ ∈ x.deliveries, δ.write.slot ≠ σ)
    (unstored : σ ∉ x.stores) : m'.load σ = m.load σ := by
  refine load_of_unwritten (x.registers?_written keeps outside) ?_
  rintro w hw rfl
  rcases x.mem_writes hw with ⟨δ, hδ, rfl⟩ | hw
  · exact undelivered δ hδ rfl
  · exact unstored hw

end Execution

end CallProtocol
