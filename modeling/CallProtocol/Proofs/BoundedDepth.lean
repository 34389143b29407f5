import CallProtocol.Proofs.Execution.Dispatches
import CallProtocol.Proofs.Execution.Invocations
import CallProtocol.Proofs.Execution.Moments
import CallProtocol.Proofs.PlanSafety
import CallProtocol.Proofs.StackTrace

/-!
# Programs without callees from registers

A prototype is made with the functions that its constants refer to, so a function comes
after those in its pool. If the code that a function leads to calls nothing but constants,
then each call goes down in the table, and it does so whatever the callees are handed and
answer. No measure of the machine gets smaller. It is the table that bounds the nesting of
calls, and with it the stack.

A tail call keeps the frame of its caller, so it counts like any other call. What counts
for nothing are natives, null and stubs, which get no frame.
-/

namespace CallProtocol

open Machine

namespace Program

/-- The code that begins with script `i` comes to call script `j`: it is `i`, or it is a
constant that the code of such a script calls. -/
inductive Leads (p : Program) (i : Nat) : Nat → Prop where
  | self : Leads p i i
  | calls {j k : Nat} {instr : Instr} (prior : Leads p i j)
    (member : instr ∈ (p.script j).proto.code) (op : instr.op = .callk ∨ instr.op = .tailk)
    (constant : Pointer.function? ((p.script j).proto.constants.get .pointer instr.a.toNat) =
      some (.script k)) : Leads p i k

/-- The table has been made from the bottom up. The compiled code of a script is that of
its own prototype, and the scripts among its constants come before it. -/
structure Layered (p : Program) : Prop where
  own : ∀ j code, (p.script j).entry = some (.compiled code) → code.proto = (p.script j).proto
  earlier : ∀ j n k, Pointer.function? ((p.script j).proto.constants.get .pointer n) =
    some (.script k) → k < j

/-- No code that script `i` leads to calls through a register. -/
def StaticFrom (p : Program) (i : Nat) : Prop :=
  ∀ j, p.Leads i j → ∀ instr ∈ (p.script j).proto.code, instr.op ≠ .call ∧ instr.op ≠ .tail

/-- The parameters that code which script `i` leads to stages at once can be counted in the
32 bits of a capacity. -/
def CountableFrom (p : Program) (i : Nat) : Prop :=
  ∀ j code, p.Leads i j → (p.script j).entry = some (.compiled code) → code.plan.Countable

end Program

/-- A call that names no register names a function of the constants. -/
theorem Prototype.callee_of_constant {p : Prototype} {pc : Nat} {i : Instr} {callee : Callee}
    (h : p.callee pc i = .ok callee) (hop : i.op ≠ .call ∧ i.op ≠ .tail) :
    ∃ f, Pointer.function? (p.constants.get .pointer i.a.toNat) = some f ∧
      callee = .static i.a.toNat f.isNative := by
  rw [Prototype.callee] at h
  split at h
  · next hcall => exact absurd hcall hop.1
  · next htail => exact absurd htail hop.2
  · obtain ⟨-, -, h⟩ := bind_eq_ok h
    split at h
    · next f hf =>
        cases h
        exact ⟨f, hf, rfl⟩
    · cases h

/-- What a plan stages has its place in the outgoing array. -/
theorem Code.stage_le {code : Code} (countable : code.plan.Countable) {slot : Nat}
    {params : List Staged} (h : .stage slot params ∈ code.plan.steps) :
    slot + params.length ≤ code.plan.layout.params.toNat := by
  obtain ⟨n, hn⟩ := Prototype.stage_of_mem code.planned h
  rw [← hn]
  exact Prototype.length_stagedBefore_le code.planned countable n

section Static

variable {p : Program} {i j : Nat} {a : Activation} {c : CallSite} {rest : List Step}

theorem Program.lt_of_entry (has : (p.script j).entry ≠ none) : j < p.scripts.length := by
  refine Nat.lt_of_not_le fun hge => has ?_
  rw [script, List.getD_eq_getElem?_getD, List.getElem?_eq_none hge]
  rfl

/-- A call of such code leads to a native, or to a script that comes earlier. -/
theorem Program.exists_callee (hp : p.OnlyCompiled) (layered : p.Layered)
    (static : p.StaticFrom i) (leads : p.Leads i j) (has : (p.script j).entry ≠ none)
    (hproto : a.proto = (p.script j).proto) (runs : a.Runs (.call c :: rest)) (m : Machine) :
    ∃ τ m₁, p.callee? a c m = some (τ, m₁) ∧
      ((∃ f, τ = .native f (a.handoverFor c)) ∨
        ∃ k e, p.Leads i k ∧ k < j ∧ (p.script k).entry = some e ∧
          τ = .entry e (.script k) (p.name (.script k)) (a.handoverFor c)) := by
  obtain ⟨n, instr, s, s', hinstr, hkind, -, calls⟩ := runs.instr
  have hcallee := calls.callee
  rw [hproto] at hinstr hcallee
  have member := List.mem_of_getElem? hinstr
  have named := static j leads instr member
  obtain ⟨f, hf, hc⟩ := Prototype.callee_of_constant hcallee named
  rw [callee?_of_static hc, hproto, hf, Option.bind_some]
  cases f with
  | native k => exact ⟨_, _, rfl, .inl ⟨_, rfl⟩⟩
  | script k =>
      have op : instr.op = .callk ∨ instr.op = .tailk := by
        cases h : instr.op <;> simp_all [Opcode.callKind?]
      have hk := layered.earlier j _ k hf
      obtain ⟨e, he⟩ := Option.ne_none_iff_exists'.1
        (hp.has_entry (Nat.lt_trans hk (lt_of_entry has)))
      rw [functionTask_eq, task?_of_entry rfl he]
      exact ⟨_, _, rfl, .inr ⟨k, e, leads.calls member op hf, hk, he, rfl⟩⟩

/-! ## Termination -/

/-- A body ends if its callees do. -/
theorem Program.runSteps_terminates (hp : p.OnlyCompiled) (layered : p.Layered)
    (static : p.StaticFrom i) (leads : p.Leads i j) {code : Code}
    (entry : (p.script j).entry = some (.compiled code)) (countable : code.plan.Countable)
    {limit : Nat}
    (callees : ∀ k e h m, p.Leads i k → k < j → (p.script k).entry = some e →
      ∃ out, p.perform limit (.entry e (.script k) (p.name (.script k)) h) m = some out)
    {steps : List Step} (hsteps : steps <:+ code.plan.steps) (hproto : a.proto = code.proto)
    (room : a.outgoing.length = code.plan.layout.params.toNat) (m : Machine) :
    ∃ out, p.runSteps (p.enter limit) steps a m = some out := by
  induction steps generalizing a m with
  | nil => exact ⟨_, rfl⟩
  | cons s rest ih =>
      have hrest := (List.suffix_cons s rest).trans hsteps
      cases hq : a.quiet m s with
      | some x =>
          obtain ⟨a', m'⟩ := x
          have same := Activation.sameBody_quiet hq
          rw [runSteps_quiet hq]
          exact ih hrest (same.proto.trans hproto)
            ((Activation.length_outgoing_quiet hq).trans room) m'
      | none =>
          cases s with
          | plain op => cases hq
          | result spec => cases hq
          | stage slot params =>
              have fits : a.hasRoom slot params = true := by
                rw [Activation.hasRoom, room]
                exact decide_eq_true (Code.stage_le countable (hsteps.mem List.mem_cons_self))
              rw [Activation.quiet, if_pos fits] at hq
              cases hq
          | ret site =>
              rw [Activation.quiet] at hq
              split at hq
              · next final =>
                  rw [runSteps, if_pos final]
                  exact ⟨_, rfl⟩
              · cases hq
          | call c =>
              have own := layered.own j code entry
              have has : (p.script j).entry ≠ none := by simp [entry]
              obtain ⟨τ, m₁, callee, kinds⟩ := exists_callee hp layered static leads has
                (hproto.trans own) ⟨code, hproto, hsteps⟩ (a.beforeCall m c)
              obtain ⟨⟨r, m₂⟩, hout⟩ : ∃ out, p.perform limit τ m₁ = some out := by
                rcases kinds with ⟨f, rfl⟩ | ⟨k, e, hk, hlt, he, rfl⟩
                · exact ⟨_, perform_native p limit f _ m₁⟩
                · exact callees k e _ m₁ hk hlt he
              rw [runSteps_call, callee, Option.bind_some, hout, Option.bind_some]
              split
              · exact ⟨_, rfl⟩
              · cases c.kind with
                | tail => exact ⟨_, rfl⟩
                | call =>
                    refine ih hrest ?_ ?_ m₂
                    · exact (a.sameBody_refresh m₂ _).proto.trans hproto
                    · rw [Activation.afterCall, a.outgoing_refresh]
                      exact room

/-- An entry ends within as many nested entries as there are scripts up to its own. -/
theorem Program.perform_terminates (hp : p.OnlyCompiled) (layered : p.Layered)
    (static : p.StaticFrom i) (countable : p.CountableFrom i) (leads : p.Leads i j) {limit : Nat}
    (enough : j < limit) {e : Entry} (entry : (p.script j).entry = some e) (h : Handover)
    (m : Machine) :
    ∃ out, p.perform limit (.entry e (.script j) (p.name (.script j)) h) m = some out := by
  -- A callee comes earlier in the table, so its place falls together with the bound.
  induction j using Nat.strongRecOn generalizing limit e h m with
  | ind j ih =>
      obtain ⟨limit, rfl⟩ : ∃ l, limit = l + 1 := ⟨limit - 1, by omega⟩
      cases e with
      | stub => exact ⟨_, rfl⟩
      | host x => exact absurd rfl (hp.entry (f := .script j) rfl entry x)
      | compiled code =>
          rw [perform_compiled]
          cases m.push code.plan.layout h.params with
          | error e => exact ⟨_, rfl⟩
          | ok x =>
              obtain ⟨fr, m₁⟩ := x
              simp only [perform_body]
              refine runSteps_terminates hp layered static leads entry
                (countable j code leads entry) ?_ List.suffix_rfl rfl List.length_replicate m₁
              intro k e h m hk hlt he
              exact ih k hlt hk (by omega) he h m

/-! ## Depth -/

/-- What is performed `level` calls deep: the code of a script that comes at least as many
places before script `i`, or a native or null that such code calls. -/
def Task.Within (p : Program) (i level : Nat) : Task → Prop
  | entry e f _ _ => ∃ j, f = .script j ∧ p.Leads i j ∧ (p.script j).entry = some e ∧ level + j ≤ i
  | body steps a => ∃ j, p.Leads i j ∧ (p.script j).entry ≠ none ∧
      a.proto = (p.script j).proto ∧ a.Runs steps ∧ level + j ≤ i
  | native _ _ => level ≤ i + 1
  | null => level ≤ i + 1

theorem Task.Within.next {level : Nat} {s : Step} {a' : Activation}
    (h : (Task.body (s :: rest) a).Within p i level) (same : a.SameBody a') :
    (Task.body rest a').Within p i level := by
  obtain ⟨j, leads, has, hproto, runs, hlevel⟩ := h
  exact ⟨j, leads, has, same.proto.trans hproto, runs.next same, hlevel⟩

theorem Task.Within.le {τ : Task} {level : Nat} (h : τ.Within p i level) :
    τ.running.length + level ≤ i + 1 := by
  cases τ with
  | entry e f name h' =>
      obtain ⟨j, -, -, -, hlevel⟩ := h
      change 0 + level ≤ i + 1
      omega
  | body steps a =>
      obtain ⟨j, -, -, -, -, hlevel⟩ := h
      change 1 + level ≤ i + 1
      omega
  | native f h' =>
      have hlevel : level ≤ i + 1 := h
      exact (Nat.zero_add level).symm ▸ hlevel
  | null =>
      have hlevel : level ≤ i + 1 := h
      exact (Nat.zero_add level).symm ▸ hlevel

/-- The table goes down by one place at least with each call. -/
theorem Nested.within (hp : p.OnlyCompiled) (layered : p.Layered) (static : p.StaticFrom i)
    {τ τ₀ : Task} {m m₀ : Machine} {chain : List Activation} (h : Nested p τ₀ m₀ chain τ m)
    (hτ₀ : τ₀.Within p i 0) : τ.Within p i chain.length := by
  induction h with
  | start => exact hτ₀
  | advanced prior step ih =>
      cases step with
      | @begun code f name h m m₁ fr room =>
          obtain ⟨j, rfl, leads, entry, hlevel⟩ := ih
          exact ⟨j, leads, by simp [entry], layered.own j code entry,
            Activation.runs_start code name h fr, hlevel⟩
      | quiet step => exact ih.next (Activation.sameBody_quiet step)
      | resumed callee call resumes kind => exact ih.next (Activation.sameBody_refresh _ _ _)
  | @called chain c rest a m m₁ τ prior callee ih =>
      obtain ⟨j, leads, has, hproto, runs, hlevel⟩ := ih
      obtain ⟨τ', m₂, callee', kinds⟩ :=
        Program.exists_callee hp layered static leads has hproto runs (a.beforeCall m c)
      obtain ⟨rfl, rfl⟩ := Prod.mk.inj (Option.some.inj (callee.symm.trans callee'))
      rcases kinds with ⟨f, rfl⟩ | ⟨k, e, hk, hlt, he, rfl⟩
      · change chain.length + 1 ≤ i + 1
        omega
      · refine ⟨k, rfl, hk, he, ?_⟩
        rw [List.length_cons]
        omega

theorem Task.Within.not_ofHost (hp : p.OnlyCompiled) {τ : Task} {level : Nat}
    (h : τ.Within p i level) : ¬ τ.ofHost := by
  intro host
  cases τ with
  | entry e f name h' =>
      obtain ⟨j, rfl, -, he, -⟩ := h
      cases e with
      | host x => exact hp.entry (f := .script j) rfl he x rfl
      | stub | compiled code => exact host
  | body steps a | native f h' | null => exact host

/-- At no moment are there more live activations than scripts up to the first one. -/
theorem Moment.length_le (hp : p.OnlyCompiled) (layered : p.Layered) (static : p.StaticFrom i)
    {τ₀ : Task} {m₀ s : Machine} {live : List Activation} (moment : Moment p τ₀ m₀ live s)
    (hτ₀ : τ₀.Within p i 0) : live.length ≤ i + 1 := by
  cases moment with
  | performing nested =>
      rw [List.length_append]
      exact (nested.within hp layered static hτ₀).le
  | calling nested | returning nested =>
      rw [List.length_cons, Nat.add_comm]
      exact (nested.within hp layered static hτ₀).le
  | hosting nested _ | pushing nested _ | ended nested _ =>
      exact Nat.le_trans (Nat.le_add_left _ _) (nested.within hp layered static hτ₀).le

end Static

/-- Without entries of the host, the frames above those that were there before are those of
the live activations. -/
theorem Moment.depth_eq {p : Program} {τ₀ : Task} {m₀ s : Machine} {live : List Activation}
    (moment : Moment p τ₀ m₀ live s) (noHost : τ₀.NoHost p m₀) (hown : τ₀.ownSerials = []) :
    s.depth = live.length + m₀.depth := by
  have nestedDepth : ∀ {chain τ m}, Nested p τ₀ m₀ chain τ m →
      m.depth = τ.running.length + chain.length + m₀.depth := by
    intro chain τ m nested
    have serials := congrArg List.length (nested.serials_of_noHost noHost hown)
    have own : τ.ownSerials.length = τ.running.length := by cases τ <;> rfl
    rw [length_serials, List.length_append, List.length_append, List.length_map, own,
      length_serials] at serials
    omega
  cases moment with
  | performing nested =>
      rw [nestedDepth nested, List.length_append]
  | @calling chain c rest a m nested =>
      have same : SameContext m (a.beforeCall m c) := a.sameContext_flush m _
      rw [same.depth, nestedDepth nested, List.length_cons]
      exact congrArg (· + m₀.depth) (Nat.add_comm _ _)
  | @hosting chain f h m s nested visited =>
      cases f with
      | script i => cases visited
      | native i =>
          have same : m.depth = s.depth := (sameContext_of_mem_hostVisited visited).depth.symm
          rw [← same, nestedDepth nested]
          exact congrArg (· + m₀.depth) (Nat.zero_add _)
  | pushing nested count => exact absurd trivial (noHost _ _ _ nested)
  | @returning chain site rest a m nested =>
      have same := a.sameContext_giveBack m site
      rw [same.depth, nestedDepth nested, List.length_cons]
      exact congrArg (· + m₀.depth) (Nat.add_comm _ _)
  | @ended chain τ m r m' nested run =>
      have restacked := run.restacked.depth_eq
      rw [run.hostFrames_eq_zero_of_nested (nested.noHost noHost), nestedDepth nested] at restacked
      have own : τ.ownFrames = τ.running.length := by cases τ <;> rfl
      omega

/-- Without entries of the host, no state of a call from outside is deeper than its moments. -/
theorem Calling.depth_le {p : Program} {i n : Nat} {params : List Value}
    {returns : List Descriptor} {m m' s : Machine} {o : Except Abort Int32}
    (c : Calling p (.script i) params returns m o m')
    (noHost : ∀ e, (p.script i).entry = some e →
      (p.outermost e i params returns).NoHost p m.beginCall)
    (bounded : ∀ e, (p.script i).entry = some e → ∀ live s,
      Moment p (p.outermost e i params returns) m.beginCall live s → s.depth ≤ m.depth + n)
    (hs : s ∈ c.visited) : s.depth ≤ m.depth + n := by
  cases c with
  | native isNative ran => cases isNative
  | missing isScript none =>
      have unchanged : s.depth = m.depth := by
        rcases List.mem_cons.1 hs with rfl | hs
        · rfl
        · rw [List.mem_singleton.1 hs]
          exact depth_endCall _ _
      omega
  | @script e r ended o settled isScript entry run answer =>
      have depth : ended.depth = m.depth := by
        have restacked := run.restacked
        rw [run.hostFrames_eq_zero_of_nested (noHost e entry)] at restacked
        exact depth_of_serials restacked.serials_eq
      have settledDepth := (Program.settle_context answer depth).2.2
      rcases List.mem_append.1 hs with hs | hs
      · rcases List.mem_cons.1 hs with rfl | hs
        · exact Nat.le_add_right _ _
        · obtain ⟨live, moment⟩ := run.exists_moment hs
          exact bounded e entry live s moment
      · rcases List.mem_cons.1 hs with rfl | hs
        · omega
        · rw [List.mem_singleton.1 hs, depth_endCall]
          omega

/-- Programs without callees from registers end, and their stacks are bounded.

Take a table of functions that has been made from the bottom up, and a script whose code
leads to no call through a register. Each script may have been compiled or not, and no entry
is one of the host. Then every call of the script ends, whatever it is handed and however
the stack stands, with no more entries nested in each other than there are scripts up to it.
At no point are there more frames above those that were there before. This holds for all
states that the call goes through, also when it unwinds, and for those within natives, which
end like all host functions here. A call of a native from outside needs no frame at all. -/
theorem static_calls_bounded {p : Program} (hp : p.OnlyCompiled) (layered : p.Layered) {i : Nat}
    (static : p.StaticFrom i) (countable : p.CountableFrom i) (params : List Value)
    (returns : List Descriptor) (m : Machine) :
    (∃ o m', p.call (i + 1) (.script i) params returns m = some (o, m')) ∧
      (∀ o m' (c : Calling p (.script i) params returns m o m'), ∀ s ∈ c.visited,
        s.depth ≤ m.depth + (i + 1)) ∧
      (∀ e, (p.script i).entry = some e → ∀ live s,
        Moment p (p.outermost e i params returns) m.beginCall live s →
          s.depth = live.length + m.depth ∧ live.length ≤ i + 1) ∧
      ∀ k limit, ∃ o m', p.call limit (.native k) params returns m = some (o, m') ∧
        ∀ s ∈ p.nativeVisited (.native k) params returns m.beginCall, s.depth = m.depth := by
  have outermost : ∀ {e}, (p.script i).entry = some e →
      (p.outermost e i params returns).Within p i 0 :=
    fun he => ⟨i, rfl, .self, he, Nat.le_of_eq (Nat.zero_add i)⟩
  have quietly : ∀ {e}, (p.script i).entry = some e →
      (p.outermost e i params returns).NoHost p m.beginCall :=
    fun he _ _ _ nested => (nested.within hp layered static (outermost he)).not_ofHost hp
  have bounded : ∀ e, (p.script i).entry = some e → ∀ live s,
      Moment p (p.outermost e i params returns) m.beginCall live s →
        s.depth = live.length + m.depth ∧ live.length ≤ i + 1 :=
    fun e he live s moment =>
      ⟨moment.depth_eq (quietly he) rfl, moment.length_le hp layered static (outermost he)⟩
  refine ⟨?_, ?_, bounded, ?_⟩
  · have ended : ∃ out, p.callScript (i + 1) (.script i) params returns m.beginCall = some out := by
      rw [Program.callScript]
      cases he : (p.head (.script i)).entry with
      | none => exact ⟨_, rfl⟩
      | some e =>
          obtain ⟨out, hout⟩ := Program.perform_terminates hp layered static countable .self
            (Nat.lt_succ_self i) he ⟨params, returns, Int32.ofNat returns.length⟩ m.beginCall
          rw [Program.enter_eq_perform, he, Option.bind_some, hout]
          exact ⟨_, rfl⟩
    obtain ⟨⟨o, m'⟩, hout⟩ := ended
    refine ⟨o, m.endCall m', ?_⟩
    change Option.map _ (p.callScript (i + 1) (.script i) params returns m.beginCall) = _
    rw [hout]
    rfl
  · intro o m' c s hs
    refine c.depth_le (fun e he => quietly he) (fun e he live s moment => ?_) hs
    obtain ⟨hdepth, hlive⟩ := bounded e he live s moment
    omega
  · intro k limit
    refine ⟨_, _, rfl, fun s hs => ?_⟩
    exact (sameContext_of_mem_hostVisited hs).depth

/-! ## A call above a tail call -/

def towerProgram : Program where
  scripts := [{ name := "inner", entry := some (.compiled tailFirstCode), proto := tailFirst },
    { name := "outer", entry := some (.compiled callFirstCode), proto := callFirst }]
  natives := [{ name := "seven", behaviour := fun _ => .finish 7 }]

theorem towerProgram_onlyCompiled : towerProgram.OnlyCompiled := by
  intro s hs
  rcases List.mem_cons.1 hs with rfl | hs
  · exact .inr ⟨_, rfl⟩
  · rw [List.mem_singleton.1 hs]
    exact .inr ⟨_, rfl⟩

theorem towerProgram_layered : towerProgram.Layered where
  own := by
    intro j code entry
    match j with
    | 0 | 1 =>
        cases entry
        rfl
    | j + 2 => cases entry
  earlier := by
    intro j n k constant
    match j, n with
    | 0, 0 => cases constant
    | 1, 0 =>
        cases constant
        decide
    | 0, n + 1 | 1, n + 1 => cases constant
    | j + 2, n => cases constant

theorem towerProgram_static : towerProgram.StaticFrom 1 := by
  rintro j - instr member
  match j with
  | 0 =>
      rw [List.mem_singleton.1 member]
      decide
  | 1 =>
      rcases List.mem_cons.1 member with rfl | member
      · decide
      · rw [List.mem_singleton.1 member]
        decide
  | j + 2 => cases member

theorem towerProgram_countable : towerProgram.CountableFrom 1 := by
  rintro j code - entry state hstate
  have none_staged : state.staged = [] := by
    match j with
    | 0 =>
        cases entry
        rw [List.mem_singleton.1 hstate]
    | 1 =>
        cases entry
        rcases List.mem_cons.1 hstate with rfl | hstate
        · rfl
        · rw [List.mem_singleton.1 hstate]
    | j + 2 => cases entry
  rw [none_staged]
  exact Nat.two_pow_pos 32

/-- Two frames are enough, with the frame of the tail call kept. -/
theorem static_calls_bounded_tower :
    ∃ o m', towerProgram.call 2 (.script 1) [] [] {} = some (o, m') ∧
      ∀ c : Calling towerProgram (.script 1) [] [] {} o m', ∀ s ∈ c.visited, s.depth ≤ 2 := by
  obtain ⟨⟨o, m', ran⟩, visited, -, -⟩ :=
    static_calls_bounded towerProgram_onlyCompiled towerProgram_layered towerProgram_static
      towerProgram_countable [] [] {}
  exact ⟨o, m', ran, fun c s hs => visited o m' c s hs⟩

end CallProtocol
