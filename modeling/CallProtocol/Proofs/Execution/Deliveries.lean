import CallProtocol.Proofs.Execution.Reaches
import CallProtocol.Proofs.Execution.Stores

/-!
# Where deliveries come from

What a run delivers is put by a native that it comes to or given back by a body that it
comes to. Either has been handed the descriptor. A tail call passes on what its body has
been handed, so a descriptor goes back to the task that the run began with, or to a call
of a body on the way that is to resume.

So a run has no way to a slot if the descriptors that its task has been handed have none:
all other descriptors lead to frames that are newer.
-/

namespace CallProtocol

open Machine

/-- No value that is returned through the descriptor gets to the slot. -/
def Descriptor.Spares (d : Descriptor) (σ : Slot) : Prop :=
  (∀ b xs, ∀ w ∈ d.put b xs, w.slot ≠ σ) ∧ ∀ b cs, ∀ w ∈ d.give b cs, w.slot ≠ σ

namespace Descriptor

theorem mem_writesFrom {s : Slot} {k : Nat} {cs : List Cell} {w : Write}
    (h : w ∈ writesFrom s k cs) : ∃ i < cs.length, w.slot = s.offset (k + i) ∧ w.cell ∈ cs := by
  induction cs generalizing k with
  | nil => cases h
  | cons c cs ih =>
      rcases List.mem_cons.1 h with rfl | h
      · exact ⟨0, Nat.succ_pos _, rfl, List.mem_cons_self⟩
      · obtain ⟨i, hi, hw, hcell⟩ := ih h
        refine ⟨i + 1, Nat.succ_lt_succ hi, ?_, List.mem_cons_of_mem c hcell⟩
        rw [hw, Nat.add_assoc, Nat.add_comm 1 i]

theorem mem_writes {d : Descriptor} {cs : List Cell} {w : Write} (h : w ∈ d.writes cs) :
    ∃ s i, d.location = some s ∧ i < cs.length ∧ w.slot = s.offset i ∧ w.cell ∈ cs := by
  rw [writes] at h
  split at h
  · next s hs =>
      obtain ⟨i, hi, hw, hcell⟩ := mem_writesFrom h
      exact ⟨s, i, hs, hi, by rw [hw, Nat.zero_add], hcell⟩
  · cases h

theorem mem_put {d : Descriptor} {b : Bank} {xs : List b.Content} {w : Write}
    (h : w ∈ d.put b xs) : ∃ t, d.regType? = some t ∧ t.kind = .of b ∧ w.cell.bank = b ∧
      ∃ s, d.location = some s ∧ ∃ k < t.components, w.slot = s.offset k := by
  rw [put] at h
  split at h
  · next haccepts =>
      rw [accepts] at haccepts
      split at haccepts
      · next t ht =>
          obtain ⟨hkind, hfit⟩ := Bool.and_eq_true_iff.1 haccepts
          obtain ⟨s, k, hs, hk, hslot, hcell⟩ := mem_writes h
          obtain ⟨x, -, hx⟩ := List.mem_map.1 hcell
          rw [List.length_map] at hk
          exact ⟨t, ht, eq_of_beq hkind, by rw [← hx], s, hs, k,
            Nat.lt_of_lt_of_le hk (of_decide_eq_true hfit), hslot⟩
      · cases haccepts
  · cases h

/-- Compiled code writes at most as many cells as the bits of the type leave room for. -/
theorem mem_give {d : Descriptor} {b : Bank} {cs : List Cell} {w : Write} (h : w ∈ d.give b cs) :
    d.type &&& RegType.bankMask = b.tag ∧ w.cell ∈ cs ∧
      ∃ s, d.location = some s ∧ ∃ k < d.width, w.slot = s.offset k := by
  rw [give] at h
  split at h
  · next htag =>
      obtain ⟨s, k, hs, hk, hslot, hcell⟩ := mem_writes h
      rw [List.length_take] at hk
      exact ⟨htag, List.mem_of_mem_take hcell, s, hs, k, Nat.lt_of_lt_of_le hk (Nat.min_le_left _ _),
        hslot⟩
  · cases h

/-- A descriptor spares what its location cannot reach, wherever in a bank that is. -/
theorem spares_of_location {d : Descriptor} {s σ : Slot} (hs : d.location = some s)
    (h : s.owner ≠ σ.owner ∨ s.bank ≠ σ.bank) : d.Spares σ := by
  have of_offset : ∀ {k : Nat}, s.offset k ≠ σ := by
    rintro k rfl
    rcases h with h | h
    · exact h rfl
    · exact h rfl
  constructor
  · intro b xs w hw
    obtain ⟨t, -, -, -, s', hs', k, -, hslot⟩ := mem_put hw
    obtain rfl := Option.some.inj (hs.symm.trans hs')
    rw [hslot]
    exact of_offset
  · intro b cs w hw
    obtain ⟨-, -, s', hs', k, -, hslot⟩ := mem_give hw
    obtain rfl := Option.some.inj (hs.symm.trans hs')
    rw [hslot]
    exact of_offset

/-- A descriptor for one text spares all texts but that at its location. -/
theorem spares_of_string {d : Descriptor} {s σ : Slot} (hs : d.location = some s)
    (htype : d.type = (RegType.of .string).bits) (h : s ≠ σ) : d.Spares σ := by
  constructor
  · intro b xs w hw
    obtain ⟨t, ht, -, -, s', hs', k, hk, hslot⟩ := mem_put hw
    obtain rfl := Option.some.inj (hs.symm.trans hs')
    have hreg : d.regType? = some (.of .string) := by
      rw [regType?, htype]
      rfl
    obtain rfl := Option.some.inj (hreg.symm.trans ht)
    obtain rfl : k = 0 := Nat.lt_one_iff.1 hk
    rw [hslot]
    exact h
  · intro b cs w hw
    obtain ⟨-, -, s', hs', k, hk, hslot⟩ := mem_give hw
    obtain rfl := Option.some.inj (hs.symm.trans hs')
    have hwidth : d.width = 1 := by
      rw [width, htype]
      rfl
    obtain rfl : k = 0 := Nat.lt_one_iff.1 (hwidth ▸ hk)
    rw [hslot]
    exact h

end Descriptor

/-- A host function delivers through the descriptors that it sees. -/
theorem Machine.mem_hostPuts {args : Arguments} {returns : List Descriptor} {host : Host}
    {m : Machine} {δ : Delivery} (h : δ ∈ hostPuts args returns host m) :
    δ.descriptor ∈ returns ∧ ∃ b xs, δ.write ∈ δ.descriptor.put b xs := by
  induction host generalizing m with
  | finish n => cases h
  | abort a => cases h
  | panic p => cases h
  | put slot b xs next ih =>
      simp only [hostPuts] at h
      split at h
      · next d hd =>
          rcases List.mem_append.1 h with h | h
          · obtain ⟨w, hw, rfl⟩ := List.mem_map.1 h
            exact ⟨List.mem_of_getElem? hd, b, xs, hw⟩
          · exact ih h
      · cases h
  | arg i next ih => exact ih _ h
  | load s next ih => exact ih _ h
  | store s x next ih => exact ih h
  | note e next ih => exact ih h

theorem Program.mem_nativePuts {p : Program} {f : FuncRef} {params : List Value}
    {returns : List Descriptor} {m : Machine} {δ : Delivery}
    (h : δ ∈ p.nativePuts f params returns m) :
    δ.descriptor ∈ returns ∧ ∃ b xs, δ.write ∈ δ.descriptor.put b xs := by
  cases f with
  | script i => cases h
  | native i => exact mem_hostPuts h

theorem Activation.mem_given {a : Activation} {m : Machine} {site : ReturnSite} {δ : Delivery}
    (h : δ ∈ a.given m site) :
    δ.descriptor ∈ a.handover.returns ∧
      δ.write ∈ δ.descriptor.give site.bank (a.returnCells m site) := by
  rw [given] at h
  split at h
  · split at h
    · next d hd =>
        obtain ⟨w, hw, rfl⟩ := List.mem_map.1 h
        exact ⟨List.mem_of_getElem? hd, hw⟩
    · cases h
  · cases h

def Task.returns : Task → List Descriptor
  | .entry _ _ _ h => h.returns
  | .native _ h => h.returns
  | .null => []
  | .body _ a => a.handover.returns

/-- A call hands on descriptors for its results, a tail call what its activation has been
handed. -/
theorem Activation.mem_returns_handoverFor {a : Activation} {c : CallSite} {d : Descriptor}
    (h : d ∈ (a.handoverFor c).returns) :
    (c.kind = .call ∧ ∃ s ∈ c.results, d = a.descriptor s) ∨
      (c.kind = .tail ∧ d ∈ a.handover.returns) := by
  rw [handoverFor] at h
  cases hkind : c.kind with
  | call =>
      rw [hkind] at h
      obtain ⟨s, hs, rfl⟩ := List.mem_map.1 h
      exact .inl ⟨rfl, s, hs, rfl⟩
  | tail =>
      rw [hkind] at h
      exact .inr ⟨rfl, h⟩

theorem Program.mem_returns_of_callee? {p : Program} {a : Activation} {c : CallSite}
    {m m₁ : Machine} {τ : Task} {d : Descriptor} (callee : p.callee? a c m = some (τ, m₁))
    (h : d ∈ τ.returns) : d ∈ (a.handoverFor c).returns := by
  rcases callee?_cases callee with ⟨rfl, -⟩ | ⟨f, rfl, -⟩ | ⟨f, e, -, rfl, -⟩
  · cases h
  · exact h
  · exact h

/-- A native or a body that is reached from `τ₀` sends the delivery. -/
inductive Delivers (p : Program) (τ₀ : Task) (m₀ : Machine) (δ : Delivery) : Prop where
  | put {past : List Activation} {f : FuncRef} {h : Handover} {m : Machine}
    (reached : Reaches p τ₀ m₀ past (.native f h) m)
    (mem : δ ∈ p.nativePuts f h.params h.visibleReturns m)
  | given {past : List Activation} {site : ReturnSite} {rest : List Step} {a : Activation}
    {m : Machine} (reached : Reaches p τ₀ m₀ past (.body (.ret site :: rest) a) m)
    (mem : δ ∈ a.given m site)

theorem Execution.delivers_of_reaches {p : Program} {τ₀ τ : Task} {m₀ m : Machine} {r : Int32}
    {m' : Machine} {past : List Activation} (x : Execution p τ m r m')
    (reached : Reaches p τ₀ m₀ past τ m) {δ : Delivery} (h : δ ∈ x.deliveries) :
    Delivers p τ₀ m₀ δ := by
  induction x generalizing past with
  | stub f name h m => cases h
  | host e f name h m => cases h
  | refused full => cases h
  | begun room body ih => exact ih (reached.begun room) h
  | native ran => exact .put reached h
  | null m => cases h
  | fallOff a m => cases h
  | @quiet s rest a m a' m₁ r m' step next ih =>
      rcases List.mem_append.1 h with h | h
      · cases s with
        | ret site => exact .given reached h
        | _ => cases h
      · exact ih (reached.quiet step) h
  | returned rest a m final => exact .given reached h
  | unwound callee call negative ih => exact ih (reached.called callee) h
  | tailed callee call resumes kind ih => exact ih (reached.called callee) h
  | resumed callee call resumes kind next ihcall ihnext =>
      rcases List.mem_append.1 h with h | h
      · exact ihcall (reached.called callee) h
      · exact ihnext (reached.resumed callee call resumes kind) h

theorem Execution.delivers {p : Program} {τ : Task} {m : Machine} {r : Int32} {m' : Machine}
    (x : Execution p τ m r m') {δ : Delivery} (h : δ ∈ x.deliveries) : Delivers p τ m δ :=
  x.delivers_of_reaches .start h

/-- The body with the activation `a` is reached from `τ₀` and makes a call that is to
receive the result `s`. -/
def Expects (p : Program) (τ₀ : Task) (m₀ : Machine) (a : Activation) (s : ResultSpec) : Prop :=
  ∃ past c rest m, Reaches p τ₀ m₀ past (.body (.call c :: rest) a) m ∧ c.kind = .call ∧
    s ∈ c.results

namespace Reaches

/-- A descriptor that a reached task has been handed has been handed to the first one, or
it is for a result of a call on the way. -/
theorem returns {p : Program} {τ₀ τ : Task} {m₀ m : Machine} {past : List Activation}
    (reached : Reaches p τ₀ m₀ past τ m) {d : Descriptor} (h : d ∈ τ.returns) :
    d ∈ τ₀.returns ∨ ∃ a s, Expects p τ₀ m₀ a s ∧ d = a.descriptor s := by
  induction reached with
  | start => exact .inl h
  | begun prior room ih => exact ih h
  | quiet prior step ih =>
      refine ih ?_
      rwa [Task.returns, (Activation.sameBody_quiet step).handover] at h
  | @called past c rest a m m₁ τ prior callee ih =>
      have handed := Program.mem_returns_of_callee? callee h
      rcases Activation.mem_returns_handoverFor handed with ⟨kind, s, hs, rfl⟩ | ⟨-, handed⟩
      · exact .inr ⟨a, s, ⟨past, c, rest, m, prior, kind, hs⟩, rfl⟩
      · exact ih handed
  | @resumed past c rest a m m₁ m₂ τ r prior callee call resumes kind ih =>
      have same : a.SameBody (a.afterCall m₂ c) := a.sameBody_refresh m₂ _
      refine ih ?_
      rwa [Task.returns, same.handover] at h

/-- What is out of the way of the first task stays so. -/
theorem outside {p : Program} {τ₀ τ : Task} {m₀ m : Machine} {past : List Activation} {σ : Slot}
    (reached : Reaches p τ₀ m₀ past τ m) (keeps : Keeps σ τ₀.ownFrames m₀) (h : τ₀.Outside σ) :
    Keeps σ τ.ownFrames m ∧ τ.Outside σ := by
  induction reached with
  | start => exact ⟨keeps, h⟩
  | begun prior room ih =>
      obtain ⟨keeps, -⟩ := ih
      exact ⟨keeps.restacked (.push room) (Nat.zero_le _), Task.outside_start _ keeps room⟩
  | quiet prior step ih =>
      obtain ⟨keeps, outside⟩ := ih
      have same := Activation.sameContext_quiet step
      exact ⟨keeps.same same.serials same.stats,
        outside.of_sameBody (Activation.sameBody_quiet step)⟩
  | called prior callee ih =>
      obtain ⟨keeps, -⟩ := ih
      exact ⟨fun k hk => Execution.holds_callee? callee (keeps k hk),
        Task.outside_of_callee? σ callee⟩
  | @resumed past c rest a m m₁ m₂ τ r prior callee call resumes kind ih =>
      obtain ⟨keeps, outside⟩ := ih
      exact ⟨(Execution.keepsCall callee call keeps).2,
        outside.of_sameBody (a.sameBody_refresh m₂ _)⟩

end Reaches

/-- The results of calls on the way land in frames that the slot is not in. -/
theorem Expects.spares {p : Program} {τ₀ : Task} {m₀ : Machine} {a : Activation} {s : ResultSpec}
    {σ : Slot} (expects : Expects p τ₀ m₀ a s) (keeps : Keeps σ τ₀.ownFrames m₀)
    (outside : τ₀.Outside σ) : (a.descriptor s).Spares σ := by
  obtain ⟨past, c, rest, m, reached, -, -⟩ := expects
  refine Descriptor.spares_of_location rfl (.inl ?_)
  intro howner
  exact (reached.outside keeps outside).2 howner.symm

theorem Program.load_callNative_of_spares {p : Program} {f : FuncRef} {params : List Value}
    {returns : List Descriptor} {m m' : Machine} {o : Except Abort Int32} {σ : Slot}
    (ran : p.callNative f params returns m = (o, m')) (spares : ∀ d ∈ returns, d.Spares σ)
    (unstored : σ ∉ p.nativeStores f params returns m) : m'.load σ = m.load σ := by
  refine load_callNative ran ?_ unstored
  intro δ hδ
  obtain ⟨hd, b, xs, hw⟩ := mem_nativePuts hδ
  exact (spares _ hd).1 b xs _ hw

/-- A run delivers nothing to a slot that none of the descriptors it has been handed gets
to. -/
theorem Execution.undelivered_of_spares {p : Program} {σ : Slot} {τ : Task} {m : Machine}
    {r : Int32} {m' : Machine} (x : Execution p τ m r m') (keeps : Keeps σ τ.ownFrames m)
    (outside : τ.Outside σ) (spares : ∀ d ∈ τ.returns, d.Spares σ) :
    ∀ δ ∈ x.deliveries, δ.write.slot ≠ σ := by
  have of_returns : ∀ {past τ' m₁ d}, Reaches p τ m past τ' m₁ → d ∈ τ'.returns → d.Spares σ := by
    intro past τ' m₁ d reached hd
    rcases reached.returns hd with hd | ⟨a, s, expects, rfl⟩
    · exact spares d hd
    · exact expects.spares keeps outside
  intro δ hδ
  cases x.delivers hδ with
  | put reached mem =>
      obtain ⟨hd, b, xs, hw⟩ := Program.mem_nativePuts mem
      exact (of_returns reached (List.mem_of_mem_take hd)).1 b xs _ hw
  | given reached mem =>
      obtain ⟨hd, hw⟩ := Activation.mem_given mem
      exact (of_returns reached hd).2 _ _ _ hw

/-- A run leaves a slot alone that none of the descriptors it has been handed gets to,
unless a native stores to it. -/
theorem Execution.load_eq_of_spares {p : Program} {σ : Slot} {τ : Task} {m : Machine} {r : Int32}
    {m' : Machine} (x : Execution p τ m r m') (keeps : Keeps σ τ.ownFrames m)
    (outside : τ.Outside σ) (spares : ∀ d ∈ τ.returns, d.Spares σ) (unstored : σ ∉ x.stores) :
    m'.load σ = m.load σ :=
  x.load_eq_of_unwritten keeps outside (x.undelivered_of_spares keeps outside spares) unstored

/-- A task has no way to the slot: no descriptor it has been handed gets there, and a
body does not run in the frame. -/
def Task.Spares (σ : Slot) (k : Nat) : Task → Prop
  | .entry _ _ _ h => ∀ d ∈ h.returns, d.Spares σ
  | .native _ h => ∀ d ∈ h.returns, d.Spares σ
  | .null => True
  | .body _ a => a.frame ≠ k ∧ ∀ d ∈ a.handover.returns, d.Spares σ

namespace Task.Spares

variable {σ : Slot} {k : Nat} {τ : Task}

theorem returns (h : τ.Spares σ k) : ∀ d ∈ τ.returns, d.Spares σ := by
  cases τ with
  | null => exact fun d hd => nomatch hd
  | body steps a => exact h.2
  | _ => exact h

theorem outside (h : τ.Spares σ k) (hσ : σ.owner = .frame k) : τ.Outside σ := by
  cases τ with
  | body steps a =>
      intro hframe
      exact h.1 (Owner.frame.inj (hframe.symm.trans hσ))
  | _ => trivial

end Task.Spares

theorem Program.spares_callee? {p : Program} {a : Activation} {c : CallSite} {m m₁ : Machine}
    {τ : Task} {σ : Slot} (k : Nat) (h : ∀ d ∈ (a.handoverFor c).returns, d.Spares σ)
    (hτ : p.callee? a c m = some (τ, m₁)) : τ.Spares σ k := by
  rcases callee?_cases hτ with ⟨rfl, -⟩ | ⟨f, rfl, -⟩ | ⟨f, e, -, rfl, -⟩
  · trivial
  · exact h
  · exact h

/-- A run that has no way to a slot of a frame below its own leaves it alone, unless a
native stores to it. -/
theorem Execution.load_eq {p : Program} {σ : Slot} {k : Nat} (hσ : σ.owner = .frame k) {τ : Task}
    {m : Machine} {r : Int32} {m' : Machine} (x : Execution p τ m r m') (spares : τ.Spares σ k)
    (holds : Holds k τ.ownFrames m) (unstored : σ ∉ x.stores) : m'.load σ = m.load σ :=
  x.load_eq_of_spares (holds.keeps hσ) (spares.outside hσ) spares.returns unstored

end CallProtocol
