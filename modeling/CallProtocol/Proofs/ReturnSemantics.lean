import CallProtocol.Proofs.ReturnStorage

/-!
# What a script returns

A script returns values one by one, wherever its body says so, and goes on until a final
return. What its caller finds in the end is the result code and the contents of the return
storage. Both are read off the instructions here: the code off the first final return, the
storage off all returns up to it, in their order.

`Execution.performed` lists the states on which a body performs its instructions. Which
values a return takes from such a state is said by the instruction alone.
-/

namespace CallProtocol

open Machine

/-! ## The values of a return -/

namespace Activation

def returned? (a : Activation) (m : Machine) (i : Instr) : Option Returned :=
  match i.op with
  | .ret => do
    let t ← RegType.ofBits? i.b
    let b ← t.kind.bank?
    return ⟨i.slot.toNat, b,
      if t.isConstant then [a.proto.constants.get b i.c.toNat]
      else (List.range t.components).map fun k => a.read m b (i.c.toNat + k)⟩
  | .reti => some ⟨i.slot.toNat, .int, [i.sbx.toInt32]⟩
  | _ => none

theorem returned?_of_not_returns {i : Instr} (h : i.op.returns = false) (a : Activation)
    (m : Machine) : a.returned? m i = none := by
  rw [returned?]
  cases hop : i.op <;> first | rfl | (rw [hop] at h; cases h)

theorem returned?_of_next {a : Activation} {n : Nat} {i : Instr} {s s' : Planning}
    {site : ReturnSite}
    (h : s.next a.proto n i (a.proto.code.drop (n + 1)) = .ok (.ret site, s')) (m : Machine) :
    ∃ q, a.returned? m i = some q ∧ q.slot = site.slot ∧ q.bank = site.bank ∧
      q.cells = a.returnCells m site := by
  rcases Planning.returns_of_next h with ⟨-, hne⟩ | ⟨site', hsite, ⟨hop, hplanned⟩ | ⟨hop, rfl⟩⟩
  · exact absurd rfl (hne site)
  · cases hsite
    obtain ⟨hslot, -, htype, hkind, hsource⟩ := Prototype.returnSite_cases hplanned
    have returned : a.returned? m i = some ⟨i.slot.toNat, site.bank,
        if site.type.isConstant then [a.proto.constants.get site.bank i.c.toNat]
        else (List.range site.type.components).map
          fun k => a.read m site.bank (i.c.toNat + k)⟩ := by
      rw [returned?, hop]
      simp only [htype, hkind, Option.bind_eq_bind, Option.bind_some, Kind.bank?_of]
      rfl
    refine ⟨_, returned, hslot.symm, rfl, ?_⟩
    rcases hsource with ⟨hconstant, hsource⟩ | ⟨hconstant, hsource, hwidth⟩
    · rw [returnCells, hsource, Returned.cells, hconstant]
      rfl
    · rw [returnCells, hsource, hwidth, Returned.cells, hconstant]
      exact List.map_map
  · cases hsite
    exact ⟨⟨i.slot.toNat, .int, [i.sbx.toInt32]⟩, by rw [returned?, hop], rfl, rfl, rfl⟩

end Activation

/-! ## Instructions of a run -/

theorem Machine.registers?_pop_output (m : Machine) (j : Nat) :
    m.pop.registers? (.output j) = m.registers? (.output j) :=
  (keeps_output (σ := ⟨.output j, .int, 0⟩) rfl 1 m).registers?_pop

/-- An instruction that is performed: the state that it finds, and what its callee writes
if it calls one. -/
structure Performed where
  activation : Activation
  machine : Machine
  written : List Write := []

namespace Performed

def returned? (e : Performed) (i : Instr) : Option Returned := e.activation.returned? e.machine i

/-- What the instruction leaves of the storage with index `j`, which its caller has for
values of the types `ts`. -/
def leave (e : Performed) (i : Instr) (ts : List RegType) (j : Nat) (r : Banks) : Banks :=
  Owner.written (.output j) e.written ((e.returned? i).elim r (·.arrive ts j r))

end Performed

def Execution.performed {p : Program} {τ : Task} {m : Machine} {r : Int32} {m' : Machine} :
    Execution p τ m r m' → List Performed
  | begun _ body => body.performed
  | @quiet _ _ _ a m _ _ _ _ _ next => ⟨a, m, []⟩ :: next.performed
  | returned _ a m _ => [⟨a, m, []⟩]
  | @unwound _ _ _ a m _ _ _ _ _ call _ => [⟨a, m, call.writes⟩]
  | @tailed _ _ _ a m _ _ _ _ _ call _ _ => [⟨a, m, call.writes⟩]
  | @resumed _ _ _ a m _ _ _ _ _ _ _ call _ _ next => ⟨a, m, call.writes⟩ :: next.performed
  | _ => []

def storageAfter (ts : List RegType) (j : Nat) (code : List Instr) (trace : List Performed)
    (r : Banks) : Banks :=
  (code.zip trace).foldl (fun r q => q.2.leave q.1 ts j r) r

def valuesOf (code : List Instr) (trace : List Performed) : List Returned :=
  (code.zip trace).filterMap fun q => q.2.returned? q.1

/-- If nothing is stored by its address, then the storage receives the values that are
returned and is left alone otherwise. -/
theorem storageAfter_eq_foldl {j : Nat} {trace : List Performed}
    (unstored : ∀ e ∈ trace, ∀ w ∈ e.written, w.slot.owner ≠ .output j) (ts : List RegType)
    (code : List Instr) (r : Banks) :
    storageAfter ts j code trace r =
      (valuesOf code trace).foldl (fun r q => q.arrive ts j r) r := by
  induction trace generalizing code r with
  | nil => cases code <;> rfl
  | cons e trace ih =>
      cases code with
      | nil => rfl
      | cons i code =>
          have head : e.leave i ts j r = (e.returned? i).elim r (·.arrive ts j r) := by
            rw [Performed.leave, Owner.written_of_forall_ne (unstored e List.mem_cons_self)]
            rfl
          have rest := ih (fun e' he' => unstored e' (List.mem_cons_of_mem e he')) code
            ((e.returned? i).elim r (·.arrive ts j r))
          rw [storageAfter, List.zip_cons_cons, List.foldl_cons, head, ← storageAfter, rest,
            valuesOf, valuesOf, List.zip_cons_cons, List.filterMap_cons]
          cases e.returned? i <;> rfl

/-- The result code of code that does not unwind, for a caller that wants `wanted` values. -/
def finalCount (wanted : Int) (code : List Instr) : Int :=
  (code.find? Instr.finalReturn).elim 0 fun i => min ((i.slot.toNat : Int) + 1) wanted

/-- The instructions of `code` have been performed on `m` as `trace` says, with the code `r`
on `m'`. `stored` are the slots that natives have stored to meanwhile. -/
structure Completed (ts : List RegType) (code : List Instr) (m : Machine)
    (trace : List Performed) (stored : List Slot) (r : Int32) (m' : Machine) : Prop where
  length : trace.length = (live code).length
  count : r.toInt = finalCount (Int32.ofNat ts.length).toInt code
  storage : ∀ j, m'.registers? (.output j) =
    (m.registers? (.output j)).map (storageAfter ts j (live code) trace)
  stores : ∀ e ∈ trace, ∀ w ∈ e.written, ∀ j, w.slot.owner = .output j → w.slot ∈ stored

namespace Completed

variable {ts : List RegType} {i : Instr} {e : Performed} {m m₁ m' : Machine} {r : Int32}

theorem fallOff (ts : List RegType) (m : Machine) : Completed ts [] m [] [] 0 m.pop where
  length := rfl
  count := rfl
  storage j := (m.registers?_pop_output j).trans Option.map_id_apply.symm
  stores _ he := nomatch he

theorem final (final : i.finalReturn = true) (rest : List Instr)
    (quiet : e.written = [])
    (count : r.toInt = min ((i.slot.toNat : Int) + 1) (Int32.ofNat ts.length).toInt)
    (storage : ∀ j, m'.registers? (.output j) = (m.registers? (.output j)).map (e.leave i ts j)) :
    Completed ts (i :: rest) m [e] [] r m' where
  length := by rw [live_cons_of_leaves (by rw [Instr.leaves, final, Bool.true_or])]; rfl
  count := by rw [count, finalCount, List.find?_cons_of_pos final, Option.elim_some]
  storage j := by
    rw [live_cons_of_leaves (by rw [Instr.leaves, final, Bool.true_or]), storage]
    rfl
  stores e' he' w hw := by
    rw [List.mem_singleton.1 he', quiet] at hw
    cases hw

theorem next {rest : List Instr} {trace : List Performed} {stored stored' : List Slot}
    (stays : i.leaves = false) (completed : Completed ts rest m₁ trace stored' r m')
    (storage : ∀ j, m₁.registers? (.output j) = (m.registers? (.output j)).map (e.leave i ts j))
    (stores : ∀ w ∈ e.written, ∀ j, w.slot.owner = .output j → w.slot ∈ stored) :
    Completed ts (i :: rest) m (e :: trace) (stored ++ stored') r m' where
  length := by
    rw [live_cons_of_not_leaves stays, List.length_cons, List.length_cons, completed.length]
  count := by
    have goes : ¬ i.finalReturn = true := by
      intro final
      rw [Instr.leaves, final, Bool.true_or] at stays
      cases stays
    rw [completed.count, finalCount, finalCount, List.find?_cons_of_neg goes]
  storage j := by
    rw [completed.storage, storage, Option.map_map, live_cons_of_not_leaves stays]
    rfl
  stores e' he' w hw j howner := by
    rcases List.mem_cons.1 he' with rfl | he'
    · exact List.mem_append_left _ (stores w hw j howner)
    · exact List.mem_append_right _ (completed.stores e' he' w hw j howner)

end Completed

namespace Activation

variable {a a' : Activation} {ts : List RegType} {m m' : Machine} {n : Nat} {i : Instr}
  {t t' : Planning}

theorem Serves.leave {site : ReturnSite} (serves : a.Serves ts)
    (planned : t.next a.proto n i (a.proto.code.drop (n + 1)) = .ok (.ret site, t')) (m : Machine)
    (j : Nat) :
    Owner.written (.output j) ((a.given m site).map (·.write)) =
      Performed.leave ⟨a, m, []⟩ i ts j := by
  obtain ⟨q, hq, slot, bank, cells⟩ := returned?_of_next planned m
  funext r
  rw [serves.written_given slot bank cells, Performed.leave, Performed.returned?, hq]
  rfl

theorem Serves.registers?_quiet {s : Step} (serves : a.Serves ts)
    (planned : t.next a.proto n i (a.proto.code.drop (n + 1)) = .ok (s, t'))
    (step : a.quiet m s = some (a', m')) (j : Nat) :
    m'.registers? (.output j) =
      (m.registers? (.output j)).map (Performed.leave ⟨a, m, []⟩ i ts j) := by
  rw [Activation.registers?_quiet step (by simp)]
  congr 1
  rcases Planning.returns_of_next planned with ⟨hop, hne⟩ | ⟨site, rfl, -⟩
  · have nothing : a.givenBy m s = [] := by
      cases s with
      | ret site => exact absurd rfl (hne site)
      | _ => rfl
    funext r
    rw [nothing, Performed.leave, Performed.returned?, returned?_of_not_returns hop]
    rfl
  · exact serves.leave planned m j

theorem quiet_leaves {s : Step} (step : a.quiet m s = some (a', m')) : s.leaves = false := by
  cases s with
  | call c => cases step
  | ret site =>
      rw [quiet] at step
      split at step
      · cases step
      · next final => exact Bool.eq_false_iff.2 final
  | _ => rfl

/-- The result code of a final return, as a number. -/
theorem toInt_finalCode (a : Activation) (site : ReturnSite) :
    (a.finalCode site).toInt = min ((site.slot : Int) + 1) a.handover.wanted.toInt := by
  have hlt := a.handover.wanted.toInt_lt
  have hle := a.handover.wanted.le_toInt
  rw [finalCode]
  exact Int32.toInt_ofInt_of_le (by omega) (by omega)

end Activation

/-! ## Calls on the way -/

/-- A callee has no way to the return storage of the body that it returns to, unless by the
address of the storage. -/
theorem Execution.stores_of_output {p : Program} {a : Activation} {c : CallSite}
    {m m₁ m₂ : Machine} {τ : Task} {r : Int32}
    (callee : p.callee? a c m = some (τ, m₁)) (kind : c.kind = .call)
    (call : Execution p τ m₁ r m₂) {w : Write} (hw : w ∈ call.writes) {j : Nat}
    (howner : w.slot.owner = .output j) : w.slot ∈ call.stores := by
  have spares : ∀ d ∈ τ.returns, d.Spares w.slot := by
    intro d hd
    rcases Activation.mem_returns_handoverFor (Program.mem_returns_of_callee? callee hd) with
      ⟨-, s, -, rfl⟩ | ⟨tail, -⟩
    · refine Descriptor.spares_of_location rfl (.inl fun heq => ?_)
      cases heq.trans howner
    · rw [kind] at tail
      cases tail
  have undelivered := call.undelivered_of_spares (keeps_output howner _ _)
    (Task.outside_of_callee? w.slot callee) spares
  rcases call.mem_writes hw with ⟨δ, hδ, heq⟩ | hstored
  · exact absurd (congrArg Write.slot heq) (undelivered δ hδ)
  · exact hstored

theorem Task.At.planned {s : Step} {rest : List Step} {a : Activation} {n : Nat}
    (h : (Task.body (s :: rest) a).At n) :
    ∃ (i : Instr) (t t' : Planning),
      a.proto.code.drop n = i :: a.proto.code.drop (n + 1) ∧
      t.next a.proto n i (a.proto.code.drop (n + 1)) = .ok (s, t') := by
  obtain ⟨i, t, t', hi, -, hnext⟩ := h.step
  obtain ⟨hn, rfl⟩ := List.getElem?_eq_some_iff.1 hi
  exact ⟨_, t, t', List.drop_eq_getElem_cons hn, hnext⟩

theorem Task.At.drop_eq_nil {a : Activation} {n : Nat} (h : (Task.body [] a).At n) :
    a.proto.code.drop n = [] := by
  refine List.drop_eq_nil_iff.2 (Nat.not_lt.1 fun hn => ?_)
  obtain ⟨s, rest, hsteps⟩ := h.steps (List.getElem?_eq_getElem hn)
  cases hsteps

/-- A call that resumes its caller writes to the return storage what its callee writes there. -/
theorem Execution.registers?_resumed {p : Program} {a : Activation} {c : CallSite} {i : Instr}
    {n : Nat} {t t' : Planning} {m m₁ m₂ : Machine} {τ : Task} {r : Int32}
    (planned : t.next a.proto n i (a.proto.code.drop (n + 1)) = .ok (.call c, t'))
    (callee : p.callee? a c (a.beforeCall m c) = some (τ, m₁)) (call : Execution p τ m₁ r m₂)
    (ts : List RegType) (j : Nat) :
    m₂.registers? (.output j) =
      (m.registers? (.output j)).map (Performed.leave ⟨a, m, call.writes⟩ i ts j) := by
  have outside : (Task.body [.call c] a).Outside ⟨.output j, .int, 0⟩ := by
    intro howner
    cases howner
  obtain ⟨called, -⟩ :=
    registersCall callee call outside (keeps_output rfl 1 m) call.registers?_written
  have hop : i.op.returns = false := by
    refine Bool.eq_false_iff.2 fun returns => ?_
    cases (Planning.calls_of_next planned).1.symm.trans (Opcode.of_returns returns).1
  rw [called]
  congr 1
  funext regs
  rw [Performed.leave, Performed.returned?, Activation.returned?_of_not_returns hop]
  rfl

/-- The body is at its instruction `n`, its caller wants values of the types `ts`, and no tail
call is to come. -/
structure Returning (ts : List RegType) (steps : List Step) (a : Activation) (n : Nat) :
    Prop where
  position : (Task.body steps a).At n
  serves : a.Serves ts
  noTail : ∀ i ∈ live (a.proto.code.drop n), i.op.callKind? ≠ some .tail

namespace Returning

variable {ts : List RegType} {s : Step} {rest : List Step} {a a' : Activation} {n : Nat}

theorem next (h : Returning ts (s :: rest) a n) (stays : s.leaves = false)
    (same : a.SameBody a') : Returning ts rest a' (n + 1) where
  position := h.position.next same
  serves := h.serves.of_sameBody same
  noTail i hi := by
    obtain ⟨i₀, t, t', hcode, hnext⟩ := h.position.planned
    refine h.noTail i ?_
    rw [hcode, live_cons_of_not_leaves ((Planning.leaves_of_next hnext).trans stays), ← same.proto]
    exact List.mem_cons_of_mem _ hi

theorem kind_ne_tail {c : CallSite} (h : Returning ts (.call c :: rest) a n) :
    c.kind ≠ .tail := by
  intro kind
  obtain ⟨i, t, t', hcode, hnext⟩ := h.position.planned
  have leaves : i.leaves = true := by
    rw [Planning.leaves_of_next hnext, Step.leaves, kind]
    rfl
  refine h.noTail i ?_ ((Planning.calls_of_next hnext).1.trans (congrArg some kind))
  rw [hcode, live_cons_of_leaves leaves]
  exact List.mem_singleton.2 rfl

end Returning

/-- A body that ends without unwinding has performed its code up to the final return. -/
theorem Execution.completed {p : Program} {ts : List RegType} {τ : Task} {m : Machine} {r : Int32}
    {m' : Machine} (x : Execution p τ m r m') {steps : List Step} {a : Activation} {n : Nat}
    (hτ : τ = .body steps a) (returning : Returning ts steps a n) (resumes : 0 ≤ r) :
    Completed ts (a.proto.code.drop n) m x.performed x.stores r m' := by
  -- The steps that are left stay those of the instructions from `n` on, and the storage serves
  -- the caller, whatever has been performed.
  induction x generalizing steps a n with
  | fallOff a m =>
      cases hτ
      rw [returning.position.drop_eq_nil]
      exact .fallOff ts m
  | @quiet s rest a m a' m₁ r m' step next ih =>
      cases hτ
      obtain ⟨i, t, t', hcode, hnext⟩ := returning.position.planned
      have stays := Activation.quiet_leaves step
      have same := Activation.sameBody_quiet step
      have completed := ih rfl (returning.next stays same) resumes
      rw [same.proto] at completed
      have continued : Completed ts (i :: a.proto.code.drop (n + 1)) m
          (⟨a, m, []⟩ :: next.performed) ([] ++ next.stores) r m' :=
        completed.next ((Planning.leaves_of_next hnext).trans stays)
          (returning.serves.registers?_quiet hnext step) fun w hw => absurd hw List.not_mem_nil
      rw [hcode]
      exact continued
  | @returned site rest a m final =>
      cases hτ
      obtain ⟨i, t, t', hcode, hnext⟩ := returning.position.planned
      obtain ⟨hop, hslot, hfinal⟩ := Planning.slot_of_next hnext
      rw [hcode]
      refine .final ?_ _ rfl ?_ ?_
      · rw [Instr.finalReturn, hop, ← hfinal, final]
        rfl
      · rw [a.toInt_finalCode, hslot, returning.serves.wanted]
      · intro j
        rw [Machine.registers?_pop_output, a.registers?_giveBack, returning.serves.leave hnext]
  | unwound callee call negative =>
      exact absurd negative (Int32.not_lt.2 resumes)
  | tailed callee call resumes' kind =>
      cases hτ
      exact absurd kind returning.kind_ne_tail
  | @resumed c rest a m τ m₁ r₁ m₂ r' m' callee call resumes' kind next ihcall ihnext =>
      cases hτ
      obtain ⟨i, t, t', hcode, hnext⟩ := returning.position.planned
      have stays : (Step.call c).leaves = false := by
        rw [Step.leaves, kind]
        rfl
      have same : a.SameBody (a.afterCall m₂ c) := a.sameBody_refresh m₂ _
      have completed := ihnext rfl (returning.next stays same) resumes
      rw [same.proto] at completed
      rw [hcode]
      exact completed.next ((Planning.leaves_of_next hnext).trans stays)
        (registers?_resumed hnext callee call ts)
        fun w hw j howner => stores_of_output callee kind call hw howner
  | _ => cases hτ

namespace Calling

def performed {p : Program} {f : FuncRef} {params : List Value} {returns : List Descriptor}
    {m : Machine} {o : Except Abort Int32} {m' : Machine} :
    Calling p f params returns m o m' → List Performed
  | native _ _ => []
  | missing _ _ => []
  | script _ _ run _ => run.performed

theorem completed {p : Program} {f : FuncRef} {code : Code} {params : List Value}
    {ts : List RegType} {m m' : Machine} {n : Int32}
    (c : Calling p f params (ReturnBuffer.ofTypes ts).descriptors m (.ok n) m')
    (compiled : (p.head f).entry = some (.compiled code)) (isScript : f.isNative = false)
    (noTail : ∀ i ∈ live code.proto.code, i.op.callKind? ≠ some .tail) :
    Completed ts code.proto.code m c.performed c.stores n m' := by
  cases c with
  | native isNative ran =>
      rw [isScript] at isNative
      cases isNative
  | @script e r ended _ settled isScript entry run answer =>
      obtain rfl := Option.some.inj (compiled.symm.trans entry)
      rcases Program.settle_cases answer with ⟨-, -, herror⟩ | ⟨resumes, rfl, hok⟩
      · cases herror
      obtain rfl := Except.ok.inj hok
      cases run with
      | refused full => exact absurd resumes (by decide)
      | @begun _ _ _ _ _ fr m₁ _ _ room body =>
          have serves : (Activation.start code (p.name f) ⟨params,
              (ReturnBuffer.ofTypes ts).descriptors,
              Int32.ofNat (ReturnBuffer.ofTypes ts).descriptors.length⟩ fr).Serves ts :=
            ⟨rfl, congrArg Int32.ofNat (List.length_mapIdx)⟩
          have position : (Task.body code.plan.steps (.start code (p.name f) ⟨params,
              (ReturnBuffer.ofTypes ts).descriptors,
              Int32.ofNat (ReturnBuffer.ofTypes ts).descriptors.length⟩ fr)).At 0 :=
            ⟨code, rfl, rfl⟩
          have completed := body.completed rfl ⟨position, serves, noTail⟩ resumes
          refine ⟨completed.length, completed.count, fun j => ?_, completed.stores⟩
          have ended := registers?_congr (frames_endCall m settled) (outputs_endCall m settled)
            (.output j)
          have begun : m₁.registers? (.output j) = m.beginCall.registers? (.output j) :=
            (keeps_output (σ := ⟨.output j, .int, 0⟩) rfl 0 m.beginCall).registers?_push room
          exact ended.trans ((completed.storage j).trans (congrArg _ begun))

end Calling

/-- What a script returns.

A compiled script is called for return values of the types `ts`, ends without unwinding and
performs no tail call. Then it has performed its instructions up to the first final return.
The result code is the number of values up to the slot of that return, as far as they are
wanted, and zero without such a return. The storage of a slot receives the values that the
performed returns have for it, in their order. A callee can write to it only if a native has
its address and stores to it; what is stored comes in its order too. What a value makes of
the storage is what the setter for it does, provided that the value is no wider than declared
or of another kind. -/
theorem return_semantics {p : Program} {limit : Nat} {f : FuncRef} {code : Code}
    {params : List Value} {ts : List RegType} {m m' : Machine} {n : Int32}
    (compiled : (p.head f).entry = some (.compiled code)) (isScript : f.isNative = false)
    (noTail : ∀ i ∈ live code.proto.code, i.op.callKind? ≠ some .tail)
    (ran : p.call limit f params (ReturnBuffer.ofTypes ts).descriptors m = some (.ok n, m')) :
    n.toInt = finalCount (Int32.ofNat ts.length).toInt code.proto.code ∧
    (∃ c : Calling p f params (ReturnBuffer.ofTypes ts).descriptors m (.ok n) m',
      c.performed.length = (live code.proto.code).length ∧
      (∀ e ∈ c.performed, ∀ w ∈ e.written, ∀ j, w.slot.owner = .output j → w.slot ∈ c.stores) ∧
      (∀ j : Nat, m'.outputs[j]? =
        (m.outputs[j]?).map (storageAfter ts j (live code.proto.code) c.performed)) ∧
      ∀ j : Nat, (∀ σ ∈ c.stores, σ.owner ≠ .output j) →
        m'.outputs[j]? = (m.outputs[j]?).map fun r =>
          (valuesOf (live code.proto.code) c.performed).foldl (fun r q => q.arrive ts j r) r) ∧
    ∀ (q : Returned) (t : RegType) (s : Machine),
      (t.kind = .of q.bank → q.values.length ≤ t.components) →
        s.write ((ReturnBuffer.descriptor q.slot t).put q.bank q.values) =
          { s with outputs := s.outputs.modify q.slot (q.receive t) } := by
  obtain ⟨c⟩ := Calling.ofCall ran
  have completed := c.completed compiled isScript noTail
  refine ⟨completed.count, ⟨c, completed.length, completed.stores, completed.storage, ?_⟩, ?_⟩
  · intro j unstored
    have values := storageAfter_eq_foldl
      (fun e he w hw howner => unstored _ (completed.stores e he w hw j howner) howner) ts
      (live code.proto.code)
    exact (completed.storage j).trans (congrArg (fun g => (m.outputs[j]?).map g) (funext values))
  · intro q t s fits
    exact ReturnBuffer.write_put fits s

/-! ## Returns of one slot in any order -/

def returnOften : Prototype where
  code := [.retImm 0 false 5, .ret 1 false ⟨.of .float, .triple⟩ 0, .retImm 1 false 9,
    .retImm 2 false 3, .retImm 0 true 7, .retImm 0 true 8]
  registers := { floats := 3 }

def returnOftenPlan : Plan where
  steps := [.ret ⟨0, false, .imm 5, 1, .int, .of .int⟩,
    .ret ⟨1, false, .reg .float 0, 3, .float, ⟨.of .float, .triple⟩⟩,
    .ret ⟨1, false, .imm 9, 1, .int, .of .int⟩, .ret ⟨2, false, .imm 3, 1, .int, .of .int⟩,
    .ret ⟨0, true, .imm 7, 1, .int, .of .int⟩, .ret ⟨0, true, .imm 8, 1, .int, .of .int⟩]
  layout := { registers := { floats := 3 } }
  states := List.replicate 6 ⟨[], []⟩

theorem returnOften_plan : returnOften.plan = .ok returnOftenPlan := rfl

def returnOftenProgram : Program where
  scripts := [{ name := "often", entry := some (.compiled ⟨returnOften, _, returnOften_plan⟩) }]

def intAndPair : List RegType := [.of .int, ⟨.of .float, .pair⟩]

def intAndPairMachine : Machine := { outputs := (ReturnBuffer.ofTypes intAndPair).outputs }

/-- The last int arrives in the first slot, and two of the three floats in the second. The
result code is that of the first slot. -/
theorem return_semantics_returnOften :
    ∃ m', returnOftenProgram.call 1 (.script 0) [.float ⟨1⟩, .float ⟨2⟩, .float ⟨3⟩]
        (ReturnBuffer.ofTypes intAndPair).descriptors intAndPairMachine = some (.ok 1, m') ∧
      (1 : Int32).toInt = finalCount (Int32.ofNat 2).toInt returnOften.code ∧
      m'.outputs = [{ ReturnBuffer.output with ints := [7] },
        { ReturnBuffer.output with floats := [⟨1⟩, ⟨2⟩, ⟨0⟩] }] ∧
      ∃ trace, trace.length = 5 ∧ m'.outputs[1]? =
        some (storageAfter intAndPair 1 (live returnOften.code) trace ReturnBuffer.output) := by
  have compiled : (returnOftenProgram.head (.script 0)).entry =
      some (.compiled ⟨returnOften, _, returnOften_plan⟩) := rfl
  have ran : returnOftenProgram.call 1 (.script 0) [.float ⟨1⟩, .float ⟨2⟩, .float ⟨3⟩]
      (ReturnBuffer.ofTypes intAndPair).descriptors intAndPairMachine = some (.ok 1, _) := rfl
  obtain ⟨count, ⟨c, length, -, storage, -⟩, -⟩ :=
    return_semantics compiled rfl (by decide) ran
  exact ⟨_, ran, count, rfl, c.performed, length, storage 1⟩

end CallProtocol
