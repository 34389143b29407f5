import CallProtocol.Proofs.Execution.Activation
import CallProtocol.Proofs.Execution.Calling

/-!
# The abort channel

A callee says with a negative code that an abort is pending, and everyone in between
hands the code on. `Execution.raised` lists the aborts that a run raises: the places
where an abort comes into being, that is, and not those where one that is pending gets
another name. The list has at most one element, and `Channel` says how it is tied to the
code and to what is pending.

The entries have to be compiled code or stubs. An entry of the host can break the rule
by itself.
-/

namespace CallProtocol

open Machine

/-- Every script has been compiled, or has the entry it was created with. -/
def Program.OnlyCompiled (p : Program) : Prop :=
  ∀ s ∈ p.scripts, s.entry = some .stub ∨ ∃ code, s.entry = some (.compiled code)

def Abort.throughAll (a : Abort) (names : List String) : Abort :=
  { a with callers := a.callers ++ names }

theorem Abort.throughAll_nil (a : Abort) : a.throughAll [] = a := by
  simp [throughAll]

theorem Abort.through_throughAll (a : Abort) (names : List String) (name : String) :
    (a.throughAll names).through name = a.throughAll (names ++ [name]) := by
  simp [throughAll, through]

namespace Execution

def raised {p : Program} {τ : Task} {m : Machine} {r : Int32} {m' : Machine} :
    Execution p τ m r m' → List Abort
  | stub _ name _ _ => [Program.stubAbort name]
  | host e _ _ _ _ => e.raises.toList
  | @refused _ _ _ name _ _ e _ => [e.abort.through name]
  | begun _ body => body.raised
  | @native _ f h m _ _ _ =>
    match (p.callNative f h.params h.visibleReturns m).1 with
    | .ok _ => []
    | .error a => [a]
  | null _ => [Program.nullAbort]
  | fallOff _ _ => []
  | quiet _ next => next.raised
  | returned _ _ _ _ => []
  | @unwound _ _ _ a _ _ _ _ m₂ _ call _ =>
    call.raised ++
      match m₂.pending with
      | some _ => []
      | none => [orphanAbort a.name]
  | tailed _ call _ _ => call.raised
  | resumed _ call _ _ next => call.raised ++ next.raised

end Execution

/-- How a run from `m` to `m'` that raises the aborts `raised` answers. -/
inductive Channel (m : Machine) (raised : List Abort) (r : Int32) (m' : Machine) : Prop where
  /-- Nothing is raised, and what was pending still is. -/
  | clear (none : raised = []) (resumes : 0 ≤ r) (pending : m'.pending = m.pending)
  /-- One abort is raised, and it is pending with the names of the functions that have
  been unwound. -/
  | aborted (a : Abort) (names : List String) (one : raised = [a]) (code : r = unwoundCode)
    (pending : m'.pending = some (a.throughAll names))

namespace Channel

variable {m m' : Machine} {raised : List Abort} {r : Int32}

theorem of_raise {m₁ : Machine} (a : Abort) : Channel m [a] unwoundCode (m₁.raise a) :=
  .aborted a [] rfl rfl (by rw [pending_raise, Abort.throughAll_nil])

theorem negative (h : Channel m raised r m') (hr : r < 0) :
    r = unwoundCode ∧ ∃ a names, raised = [a] ∧ m'.pending = some (a.throughAll names) := by
  cases h with
  | clear none resumes pending => exact absurd hr (Int32.not_lt.2 resumes)
  | aborted a names one code pending => exact ⟨code, a, names, one, pending⟩

theorem resumes (h : Channel m raised r m') (hr : 0 ≤ r) :
    raised = [] ∧ m'.pending = m.pending := by
  cases h with
  | clear none resumes pending => exact ⟨none, pending⟩
  | aborted a names one code pending =>
      subst code
      exact absurd hr (by decide)

theorem negative_iff (h : Channel m raised r m') : r < 0 ↔ raised ≠ [] := by
  constructor
  · intro hr
    obtain ⟨-, a, names, one, -⟩ := h.negative hr
    simp [one]
  · intro hraised
    exact Int32.not_le.1 fun hr => hraised (h.resumes hr).1

theorem before {m₀ : Machine} (h : Channel m raised r m') (hpending : m.pending = m₀.pending) :
    Channel m₀ raised r m' := by
  cases h with
  | clear none resumes pending => exact .clear none resumes (pending.trans hpending)
  | aborted a names one code pending => exact .aborted a names one code pending

end Channel

def Event.ofChannel : Event → Prop
  | .replacingPending _ => True
  | .unwoundWithoutAbort _ => True
  | _ => False

/-- The reports of a run that begins on `m`: it replaces an abort only if one was pending
at its beginning, and there always is one to unwind. -/
def Machine.Foresees (m : Machine) : Event → Prop
  | .replacingPending previous => m.pending = some previous
  | .unwoundWithoutAbort _ => False
  | _ => True

/-- What is asked of a task for the abort channel to be sound: an entry is none of the
host, at least no values are wanted, and a body is that of compiled code. Only natives are
called as natives. -/
def Task.Regular : Task → Prop
  | .entry e _ _ h => (∀ x, e ≠ .host x) ∧ 0 ≤ h.wanted
  | .native f _ => f.isNative = true
  | .null => True
  | .body steps a => a.Runs steps ∧ 0 ≤ a.handover.wanted

theorem Task.Regular.next {s : Step} {rest : List Step} {a a' : Activation}
    (h : (Task.body (s :: rest) a).Regular) (same : a.SameBody a') :
    (Task.body rest a').Regular :=
  ⟨h.1.next same, by rw [same.handover]; exact h.2⟩

theorem Program.OnlyCompiled.entry {p : Program} (hp : p.OnlyCompiled) {f : FuncRef}
    (hf : f.isNative = false) {e : Entry} (he : (p.head f).entry = some e) (x : HostEntry) :
    e ≠ .host x := by
  cases f with
  | native i => cases hf
  | script i =>
      have hget : (p.scripts.getD i { name := "" }).entry = some e := he
      rw [List.getD_eq_getElem?_getD] at hget
      cases hi : p.scripts[i]? with
      | none =>
          rw [hi] at hget
          cases hget
      | some s =>
          rw [hi] at hget
          have hget : s.entry = some e := hget
          rcases hp s (List.mem_of_getElem? hi) with h | ⟨code, h⟩
          · rw [h] at hget
            cases hget
            simp
          · rw [h] at hget
            cases hget
            simp

def Program.HostFree (p : Program) : Prop :=
  ∀ f e x, f.isNative = false → (p.head f).entry = some e → e ≠ .host x

theorem Program.hostFree_of_noHost {p : Program}
    (noHost : ∀ f e, (p.head f).entry ≠ some (.host e)) : p.HostFree := by
  rintro f e x - he rfl
  exact noHost f x he

theorem Program.OnlyCompiled.hostFree {p : Program} (hp : p.OnlyCompiled) : p.HostFree :=
  fun _ _ x hf he => hp.entry hf he x

theorem Program.HostFree.callee {p : Program} (hp : p.HostFree) {c : CallSite}
    {rest : List Step} {a : Activation} {m m₁ : Machine} {τ : Task}
    (h : (Task.body (.call c :: rest) a).Regular) (hτ : p.callee? a c m = some (τ, m₁)) :
    τ.Regular := by
  obtain ⟨runs, wanted⟩ := h
  rcases callee?_of_runs runs hτ with rfl | ⟨f, hnative, rfl⟩ | ⟨f, e, hscript, he, rfl⟩
  · trivial
  · exact hnative
  · refine ⟨fun x => hp f e x hscript he, ?_⟩
    rw [Activation.handoverFor]
    cases c.kind with
    | tail => exact wanted
    | call =>
        obtain ⟨n, i, s, s', -, calls⟩ := runs.site
        have few := calls.few
        change (0 : Int32) ≤ Int32.ofNat c.results.length
        exact zero_le_ofNat (Nat.lt_of_le_of_lt few (by decide))

theorem Program.OnlyCompiled.callee {p : Program} (hp : p.OnlyCompiled) {c : CallSite}
    {rest : List Step} {a : Activation} {m m₁ : Machine} {τ : Task}
    (h : (Task.body (.call c :: rest) a).Regular) (hτ : p.callee? a c m = some (τ, m₁)) :
    τ.Regular :=
  hp.hostFree.callee h hτ

/-- A final return answers the number of values up to its slot, which is negative for no
number of wanted values. -/
theorem Activation.zero_le_finalCode {a : Activation} (h : 0 ≤ a.handover.wanted)
    (site : ReturnSite) : 0 ≤ a.finalCode site := by
  have hwanted : 0 ≤ a.handover.wanted.toInt := Int32.le_iff_toInt_le.1 h
  have hlt := a.handover.wanted.toInt_lt
  rw [finalCode, Int32.le_iff_toInt_le, Int32.toInt_ofInt_of_le]
  · change (0 : Int) ≤ _
    omega
  · omega
  · omega

namespace Machine

theorem reports_pop (m : Machine) : Reports (· = .frameUnderflow) m m.pop := by
  rw [pop]
  cases m.frames with
  | nil => exact ⟨[.frameUnderflow], rfl, by simp⟩
  | cons fr frs => exact .of_eq rfl

theorem Reports.of_none {m₀ m m' : Machine} (h : Reports m₀.Foresees m m')
    (hnone : m₀.pending = none) : Reports (fun event => ¬ event.ofChannel) m m' := by
  refine h.mono ?_
  intro event hevent hchannel
  cases event with
  | replacingPending previous =>
      have hpending : m₀.pending = some previous := hevent
      rw [hnone] at hpending
      cases hpending
  | unwoundWithoutAbort name => exact hevent
  | compiled _ _ _ _ => exact hchannel
  | hostAbort _ _ => exact hchannel
  | frameUnderflow => exact hchannel

theorem Foresees.congr {m₀ m : Machine} (h : m.pending = m₀.pending) {e : Event}
    (he : m.Foresees e) : m₀.Foresees e := by
  cases e with
  | replacingPending previous =>
      change m₀.pending = some previous
      rw [← h]
      exact he
  | unwoundWithoutAbort name => exact he
  | compiled _ _ _ _ => trivial
  | hostAbort _ _ => trivial
  | frameUnderflow => trivial

theorem Reports.foreseen_pop {m₀ m : Machine} : Reports m₀.Foresees m m.pop := by
  refine m.reports_pop.mono ?_
  rintro e rfl
  trivial

theorem Reports.foreseen_raise (m : Machine) (a : Abort) : Reports m.Foresees m (m.raise a) := by
  refine (reports_raise m a).mono ?_
  rintro e ⟨previous, hprevious, rfl⟩
  exact hprevious

theorem Reports.foreseen_native {m m' : Machine} (h : AfterNative m m') :
    Reports m.Foresees m m' := by
  refine h.reports.mono ?_
  rintro e ⟨kind, message, rfl⟩
  trivial

end Machine

structure Answers (m : Machine) (raised : List Abort) (r : Int32) (m' : Machine) : Prop where
  channel : Channel m raised r m'
  reports : Reports m.Foresees m m'

namespace Answers

theorem of_raise (m : Machine) (a : Abort) : Answers m [a] unwoundCode (m.raise a) :=
  ⟨.of_raise a, .foreseen_raise m a⟩

theorem after {m₀ m m' : Machine} {raised : List Abort} {r : Int32} (h : Answers m raised r m')
    (hpending : m.pending = m₀.pending) (hreports : Reports m₀.Foresees m₀ m) :
    Answers m₀ raised r m' := by
  refine ⟨h.channel.before hpending, hreports.trans (h.reports.mono ?_)⟩
  intro e he
  exact he.congr hpending

theorem of_callee {p : Program} {a : Activation} {c : CallSite} {m m₁ m₂ : Machine}
    {τ : Task} {r : Int32} {raised : List Abort}
    (callee : p.callee? a c (a.beforeCall m c) = some (τ, m₁)) (call : Answers m₁ raised r m₂) :
    Answers m raised r m₂ := by
  obtain ⟨-, -, hpending, hevents⟩ := Program.callee?_context callee
  exact call.after hpending (.of_eq hevents)

end Answers

namespace Execution

/-- Every run of a regular task keeps the abort channel. -/
theorem answers_of_hostFree {p : Program} (hp : p.HostFree) {τ : Task} {m : Machine} {r : Int32}
    {m' : Machine} (x : Execution p τ m r m') (hτ : τ.Regular) : Answers m x.raised r m' := by
  -- A caller that resumes has had nothing raised by its callee, so what is raised
  -- is raised by the rest of its body.
  induction x with
  | stub f name h m => exact .of_raise m _
  | host e f name h m => exact absurd rfl (hτ.1 e)
  | refused full => exact .of_raise _ _
  | @begun code f name h m fr m₁ r m' room body ih =>
      obtain ⟨-, hm₁⟩ := push_eq_ok room
      have hpending : m₁.pending = m.pending := by rw [hm₁]
      have hevents : m₁.events = m.events := by rw [hm₁]
      exact (ih ⟨Activation.runs_start code name h fr, hτ.2⟩).after hpending (.of_eq hevents)
  | native ran =>
      rcases Program.nativeCall_cases ran with ⟨hcall, hr⟩ | ⟨a, m₁, hcall, rfl, rfl⟩
      · have after := Program.callNative_context hcall
        rw [raised, hcall]
        exact ⟨.clear rfl hr after.pending, .foreseen_native after⟩
      · have after := Program.callNative_context hcall
        rw [raised, hcall]
        exact (Answers.of_raise m₁ a).after after.pending (.foreseen_native after)
  | null m => exact .of_raise m _
  | fallOff a m => exact ⟨.clear rfl (by decide) (pending_pop m), .foreseen_pop⟩
  | quiet step next ih =>
      have same := Activation.sameContext_quiet step
      have regular := hτ.next (Activation.sameBody_quiet step)
      exact (ih regular).after same.pending (.of_eq same.events)
  | @returned site rest a m final =>
      have same := a.sameContext_giveBack m site
      refine ⟨.clear rfl (a.zero_le_finalCode hτ.2 site) ?_, ?_⟩
      · rw [pending_pop, same.pending]
      · exact Reports.trans (.of_eq same.events) .foreseen_pop
  | @unwound c rest a m τ m₁ r m₂ callee call negative ih =>
      obtain ⟨hchannel, hreports⟩ := Answers.of_callee callee (ih (hp.callee hτ callee))
      obtain ⟨hr, b, names, hraised, hpending⟩ := hchannel.negative negative
      -- There is an abort to unwind, so none is raised in its place.
      obtain ⟨hunwound, hevents⟩ := unwind_of_pending hpending a.name
      have popped : Reports m.Foresees m₂ m₂.pop := .foreseen_pop
      refine ⟨.aborted b (names ++ [a.name]) ?_ hr ?_, ?_⟩
      · rw [raised, hraised, hpending]
        rfl
      · rw [hunwound, Abort.through_throughAll]
      · exact hreports.trans (popped.trans (.of_eq hevents))
  | tailed callee call resumes kind ih =>
      obtain ⟨hchannel, hreports⟩ := Answers.of_callee callee (ih (hp.callee hτ callee))
      obtain ⟨hraised, hpending⟩ := hchannel.resumes resumes
      exact ⟨.clear hraised resumes (by rw [pending_pop, hpending]), hreports.trans .foreseen_pop⟩
  | @resumed c rest a m τ m₁ r m₂ r' m' callee call resumes kind next ihcall ihnext =>
      obtain ⟨hchannel, hreports⟩ := Answers.of_callee callee (ihcall (hp.callee hτ callee))
      obtain ⟨hraised, hpending⟩ := hchannel.resumes resumes
      have regular : (Task.body rest (a.afterCall m₂ c)).Regular :=
        hτ.next (a.sameBody_refresh m₂ _)
      rw [raised, hraised, List.nil_append]
      exact (ihnext regular).after hpending hreports

theorem answers {p : Program} (hp : p.OnlyCompiled) {τ : Task} {m : Machine} {r : Int32}
    {m' : Machine} (x : Execution p τ m r m') (hτ : τ.Regular) : Answers m x.raised r m' :=
  x.answers_of_hostFree hp.hostFree hτ

end Execution

def Calling.raised {p : Program} {f : FuncRef} {params : List Value} {returns : List Descriptor}
    {m : Machine} {o : Except Abort Int32} {m' : Machine} :
    Calling p f params returns m o m' → List Abort
  | native _ _ =>
    match o with
    | .ok _ => []
    | .error a => [a]
  | missing _ _ => []
  | script _ _ run _ => run.raised

/-- A native that answers a count below zero is seen with the count zero, and no abort
comes of it. -/
theorem Program.nativeCall_of_negative {p : Program} {k : Nat} {h : Handover} {m m' : Machine}
    {n r : Int32} (ran : (p.runNative k h.params h.visibleReturns m).1 = .ok n)
    (negative : n < 0) (hcall : p.nativeCall (.native k) h m = (r, m')) :
    r = 0 ∧ m'.pending = m.pending := by
  rcases nativeCall_cases hcall with ⟨hok, -⟩ | ⟨a, m₁, herror, -, -⟩
  · obtain ⟨after, -, k', count, hk, hcount, hmax⟩ := callNative_ok hok
    cases hk
    have hn : count = n := Except.ok.inj (hcount.symm.trans ran)
    refine ⟨?_, after.pending⟩
    rw [hmax, hn]
    exact if_pos (Int32.le_of_lt negative)
  · rw [callNative] at herror
    cases hrun : p.runNative k h.params h.visibleReturns m with
    | mk outcome ended =>
        rw [hrun] at herror ran
        cases ran
        cases herror

theorem Program.OnlyCompiled.has_entry {p : Program} (hp : p.OnlyCompiled) {i : Nat}
    (hi : i < p.scripts.length) : (p.head (.script i)).entry ≠ none := by
  have hget : (p.head (.script i)).entry = p.scripts[i].entry := by
    simp [head, script, hi]
  rw [hget]
  rcases hp p.scripts[i] (List.getElem_mem hi) with h | ⟨code, h⟩
  · simp [h]
  · simp [h]

theorem Program.OnlyCompiled.noHost {p : Program} (hp : p.OnlyCompiled)
    (natives : ∀ n ∈ p.natives, n.entry = none) (f : FuncRef) (x : HostEntry) :
    (p.head f).entry ≠ some (.host x) := by
  intro he
  cases f with
  | script i => exact hp.entry (f := .script i) rfl he x rfl
  | native i =>
      have hget : (p.natives.getD i { name := "", behaviour := fun _ => .finish 0 }).entry =
          some (.host x) := he
      rw [List.getD_eq_getElem?_getD] at hget
      cases hi : p.natives[i]? with
      | none =>
          rw [hi] at hget
          cases hget
      | some n =>
          rw [hi] at hget
          have hnone := natives n (List.mem_of_getElem? hi)
          rw [Option.getD_some, hnone] at hget
          cases hget

theorem Calling.answers {p : Program} (hp : p.OnlyCompiled) {i : Nat}
    (hi : i < p.scripts.length) {params : List Value} {returns : List Descriptor}
    (hreturns : 0 ≤ Int32.ofNat returns.length) {m m' : Machine} {o : Except Abort Int32}
    (c : Calling p (.script i) params returns m o m') :
    ((∃ b, o = .error b ∧ m'.pending = none ∧ ∃ a names, c.raised = [a] ∧ b = a.throughAll names) ∨
      (∃ n, o = .ok n ∧ m'.pending = m.pending ∧ c.raised = [])) ∧ Reports m.Foresees m m' := by
  cases c with
  | native isNative ran => cases isNative
  | missing isScript none => exact absurd none (hp.has_entry hi)
  | @script e r ended o settled isScript entry run answer =>
      obtain ⟨hchannel, hreports⟩ := run.answers hp ⟨hp.entry isScript entry, hreturns⟩
      rcases Program.settle_cases answer with ⟨hr, rfl, rfl⟩ | ⟨hr, rfl, rfl⟩
      · obtain ⟨-, a, names, hraised, hpending⟩ := hchannel.negative hr
        constructor
        · refine .inl ⟨_, rfl, pending_endCall m _, a, names, hraised, ?_⟩
          rw [hpending]
          rfl
        · exact Reports.trans hreports (.of_eq (events_endCall m _))
      · obtain ⟨hraised, hpending⟩ := hchannel.resumes hr
        constructor
        · exact .inr ⟨r, rfl, (pending_endCall m _).trans hpending, hraised⟩
        · exact Reports.trans hreports (.of_eq (events_endCall m _))

/-- The abort channel is sound if no entry is one of the host.

An invocation of a script answers a negative code exactly if an abort is raised in it.
It then answers the code of an unwinding callee, and the abort is pending with the names
of the functions it went through. Otherwise the pending abort is the one from before. A
native's count below zero is none of this, it is seen as zero. So a call from outside is
answered with an abort exactly if one is raised in it, with this abort, and none is
pending afterwards. No abort is replaced that was not pending before the call, and no
function unwinds without one. -/
theorem abort_channel_sound (p : Program) (hp : p.OnlyCompiled) (i : Nat) :
    (∀ (e : Entry) (limit : Nat) (name : String) (h : Handover) (m m' : Machine) (r : Int32),
      (p.head (.script i)).entry = some e → 0 ≤ h.wanted →
        p.runEntry (p.enter limit) e (.script i) name h m = some (r, m') →
          Nonempty (Execution p (.entry e (.script i) name h) m r m') ∧
            ∀ x : Execution p (.entry e (.script i) name h) m r m',
              (r < 0 ↔ x.raised ≠ []) ∧
                (r < 0 → r = unwoundCode ∧
                  ∃ a names, x.raised = [a] ∧ m'.pending = some (a.throughAll names)) ∧
                (0 ≤ r → m'.pending = m.pending) ∧
                (m.pending = none → Reports (fun event => ¬ event.ofChannel) m m')) ∧
      (∀ (k : Nat) (h : Handover) (m m' : Machine) (n r : Int32),
        (p.runNative k h.params h.visibleReturns m).1 = .ok n → n < 0 →
          p.nativeCall (.native k) h m = (r, m') → r = 0 ∧ m'.pending = m.pending) ∧
      ∀ (limit : Nat) (params : List Value) (returns : List Descriptor) (m m' : Machine)
        (o : Except Abort Int32),
        i < p.scripts.length → 0 ≤ Int32.ofNat returns.length →
          p.call limit (.script i) params returns m = some (o, m') →
            Nonempty (Calling p (.script i) params returns m o m') ∧
              ∀ c : Calling p (.script i) params returns m o m',
                ((∃ b, o = .error b) ↔ c.raised ≠ []) ∧
                  (∀ b, o = .error b → m'.pending = none ∧
                    ∃ a names, c.raised = [a] ∧ b = a.throughAll names) ∧
                  (∀ n, o = .ok n → m'.pending = m.pending) ∧
                  (m.pending = none → Reports (fun event => ¬ event.ofChannel) m m') := by
  refine ⟨?_, fun k h m m' n r => Program.nativeCall_of_negative, ?_⟩
  · intro e limit name h m m' r he wanted ran
    have performed : p.perform (limit + 1) (.entry e (.script i) name h) m = some (r, m') := ran
    refine ⟨Execution.ofPerform performed, fun x => ?_⟩
    obtain ⟨hchannel, hreports⟩ := x.answers hp ⟨hp.entry rfl he, wanted⟩
    exact ⟨hchannel.negative_iff, hchannel.negative, fun hr => (hchannel.resumes hr).2,
      fun hnone => hreports.of_none hnone⟩
  · intro limit params returns m m' o hi hreturns ran
    refine ⟨Calling.ofCall ran, fun c => ?_⟩
    obtain ⟨houtcome, hreports⟩ := c.answers hp hi hreturns
    rcases houtcome with ⟨b, rfl, hpending, a, names, hraised, hb⟩ | ⟨n, rfl, hpending, hraised⟩
    · refine ⟨by simp [hraised], ?_, by simp, fun hnone => hreports.of_none hnone⟩
      intro b' hb'
      cases hb'
      exact ⟨hpending, a, names, hraised, hb⟩
    · refine ⟨by simp [hraised], by simp, ?_, fun hnone => hreports.of_none hnone⟩
      intro n' _
      exact hpending

/-! ## A call of a script that has not been compiled -/

def abortingProgram : Program where
  scripts := [{ name := "stub", entry := some .stub },
    { name := "caller", entry := some (.compiled ⟨callFirst, callFirstPlan, callFirst_plan⟩) }]
  natives := [{ name := "minus", behaviour := fun _ => .finish (-5) }]

theorem abortingProgram_onlyCompiled : abortingProgram.OnlyCompiled := by
  intro s hs
  rcases List.mem_cons.1 hs with rfl | hs
  · exact .inl rfl
  · rw [List.mem_singleton.1 hs]
    exact .inr ⟨_, rfl⟩

/-- The abort of the stub unwinds through its caller and is the answer to a call. -/
theorem abort_channel_sound_stub :
    (∃ m', abortingProgram.runEntry (abortingProgram.enter 1)
        (.compiled ⟨callFirst, callFirstPlan, callFirst_plan⟩) (.script 1) "caller" ⟨[], [], 0⟩ {} =
          some (unwoundCode, m') ∧
        ∃ a names, m'.pending = some (Abort.throughAll a names)) ∧
      abortingProgram.nativeCall (.native 0) ⟨[], [], 0⟩ {} =
        (0, (abortingProgram.nativeCall (.native 0) ⟨[], [], 0⟩ {}).2) ∧
      ∃ b m', abortingProgram.call 2 (.script 1) [] [] {} = some (.error b, m') ∧
        m'.pending = none ∧ Reports (fun event => ¬ event.ofChannel) {} m' := by
  have sound := abort_channel_sound abortingProgram abortingProgram_onlyCompiled 1
  refine ⟨?_, ?_, ?_⟩
  · obtain ⟨m', ran⟩ : ∃ m', abortingProgram.runEntry (abortingProgram.enter 1)
        (.compiled ⟨callFirst, callFirstPlan, callFirst_plan⟩) (.script 1) "caller" ⟨[], [], 0⟩ {} =
          some (unwoundCode, m') := ⟨_, rfl⟩
    obtain ⟨⟨x⟩, h⟩ := sound.1 _ _ _ _ _ _ _ rfl (by decide) ran
    obtain ⟨-, a, names, -, hpending⟩ := (h x).2.1 (by decide)
    exact ⟨m', ran, a, names, hpending⟩
  · have h := sound.2.1 0 ⟨[], [], 0⟩ {} _ (-5) _ rfl (by decide) rfl
    exact Prod.ext h.1 rfl
  · obtain ⟨b, m', ran⟩ : ∃ b m', abortingProgram.call 2 (.script 1) [] [] {} =
        some (.error b, m') := ⟨_, _, rfl⟩
    obtain ⟨⟨c⟩, h⟩ := sound.2.2 _ _ _ _ _ _ (by decide) (by decide) ran
    exact ⟨b, m', ran, ((h c).2.1 b rfl).1, (h c).2.2.2 rfl⟩

end CallProtocol
