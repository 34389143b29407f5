import CallProtocol.Proofs.Renaming.Host
import CallProtocol.Proofs.Renaming.Tail

/-!
# Tail calls are transparent

A tail call does not take the frame of its caller away. The callee runs above it, and when
it ends the caller's frame goes too and its answer is handed on. So calling a function that
does nothing but stage parameters and tail call is not the same as calling its callee: all
frames of the callee have other numbers, and its string parameters may be references to the
frame of the caller.

Nobody can tell the difference. The call of the function is taken apart into what is performed
for its callee and what becomes of the outcome, and so is the call of the callee by itself. What
is performed is compared in the module on runs above a frame.
-/

namespace CallProtocol

open Machine

/-! ## The call of the caller -/

theorem exists_tail_calling_iff {p : Program} {i : Nat} {code : Code} {lead rest : List Step}
    {c : CallSite} {m m₀ m₁ mτ m' : Machine} {fr : Frame} {a : Activation} {τ : Task}
    {returns : List Descriptor} {o : Except Abort Int32} {L : List LogEntry}
    (entry : (p.head (.script i)).entry = some (.compiled code))
    (steps : code.plan.steps = lead ++ .call c :: rest) (kind : c.kind = .tail)
    (pending : m.pending = none) (few : returns.length < Nat.pow 2 31)
    (room : m.beginCall.push code.plan.layout [] = .ok (fr, m₀))
    (quiet : (Activation.start code (p.name (.script i))
      ⟨[], returns, Int32.ofNat returns.length⟩ fr).quietAll lead m₀ = some (a, m₁))
    (hname : a.name = p.name (.script i))
    (callee : p.callee? a c (a.beforeCall m₁ c) = some (τ, mτ)) :
    (∃ x : Calling p (.script i) [] returns m o m', x.invocations = L) ↔
      ∃ r e, Performs p τ mτ r e L ∧ ∃ settled,
        Program.settle m.depth r (if r < 0 then e.unwind (p.name (.script i)) else e.pop) =
            (o, settled) ∧
          m' = m.endCall settled := by
  have task := Program.task?_of_entry (p := p) rfl entry
    ⟨[], returns, Int32.ofNat returns.length⟩
  have body : ∀ {r : Int32} {ended : Machine},
      Performs p (.entry (.compiled code) (.script i) (p.name (.script i))
        ⟨[], returns, Int32.ofNat returns.length⟩) m.beginCall r ended L ↔
          ∃ e, Performs p τ mτ r e L ∧
            ended = if r < 0 then e.unwind (p.name (.script i)) else e.pop := by
    intro r ended
    rw [performs_begun (h := ⟨[], returns, Int32.ofNat returns.length⟩) room, steps,
      performs_quietAll quiet, performs_tail kind callee, hname]
  rw [exists_calling_iff pending few task]
  simp only [body]
  constructor
  · rintro ⟨r, _, ⟨e, he, rfl⟩, settled⟩
    exact ⟨r, e, he, settled⟩
  · rintro ⟨r, e, he, settled⟩
    exact ⟨r, _, ⟨e, he, rfl⟩, settled⟩

/-! ## The function that does nothing but call -/

namespace Activation

/-- What the call takes over, with the texts that are passed by reference. -/
def captured (a : Activation) (m : Machine) (c : CallSite) : List Value :=
  (a.handoverFor c).params.map (·.captured m.text)

theorem handoverFor_tail {a : Activation} {c : CallSite} (kind : c.kind = .tail) :
    a.handoverFor c = { a.handover with params := (a.handoverFor c).params } := by
  rw [handoverFor, kind]

/-- If no address is passed, there is nothing to store before the call. -/
theorem beforeCall_eq {a : Activation} {c : CallSite}
    (h : ∀ e ∈ c.window.params, e.source.isAddress = false) (m : Machine) : a.beforeCall m c = m := by
  have hnone : c.inOuts = [] := by
    rw [CallSite.inOuts, List.filterMap_eq_nil_iff]
    intro e he
    have hsource := h e he
    split
    · next heq =>
        rw [heq] at hsource
        cases hsource
    · rfl
  rw [beforeCall, inOuts, hnone]
  rfl

end Activation

theorem Comparison.sameHandover_captured {m m₁ left : Machine} {room : Nat}
    {h : left.stats.pushed = m.beginCall.stats.pushed + 1} {a₀ a : Activation} {m₀ : Machine}
    {c : CallSite} {returns : List Descriptor} (kind : c.kind = .tail)
    (led : Activation.Led (.skip m.stats.pushed) a₀ m₀ a m₁)
    (hframe : a₀.frame = m.stats.pushed) (htext : left.text = m₁.text)
    (hreturns : a₀.handover.returns = returns)
    (known : ∀ d ∈ returns, d.Known m.stats.pushed) :
    (Comparison.tail left m.beginCall room h).SameHandover (a.handoverFor c)
      ⟨a.captured m₁ c, returns, a₀.handover.wanted⟩ := by
  have hhandover := led.body.handover
  rw [Activation.handoverFor_tail kind, hhandover]
  refine ⟨?_, ?_, rfl⟩
  · rw [Activation.captured, List.forall₂_map_right_iff, List.forall₂_same]
    intro v hv
    rw [a.params_handoverFor] at hv
    have within := led.outgoing v (List.mem_of_mem_drop (List.mem_of_mem_take hv))
    rw [hframe] at within
    rw [← htext]
    exact SameValue.captured h within
  · rw [hreturns, List.forall₂_same]
    exact fun d hd => .of_known (fun _ => Renaming.frame_skip_of_lt) (known d hd)

/-- Nothing has happened yet to an activation that begins. -/
theorem Activation.led_start {code : Code} {ρ : Renaming} (name : String) (h : Handover)
    {m m₀ : Machine} {fr : Frame} (room : m.push code.plan.layout [] = .ok (fr, m₀)) :
    Activation.Led ρ (.start code name h fr) m₀ (.start code name h fr) m₀ where
  body := .refl _
  context := .refl _
  log := rfl
  others _ _ := rfl
  room := rfl
  locals := by
    obtain ⟨m₀', room'⟩ := m.exists_push_nil code.plan.layout
    obtain ⟨rfl, -⟩ := Prod.mk.inj (Except.ok.inj (room.symm.trans room'))
    exact .blank _
  outgoing v hv := by
    rw [List.eq_of_mem_replicate hv]
    exact .nil

/-- A function without parameters gets as far as its first call, if it takes no address on
the way. -/
theorem Code.exists_led {code : Code} {lead rest : List Step} {c : CallSite} {ρ : Renaming}
    (constants : ρ.SameBanks code.proto.constants code.proto.constants)
    (short : code.proto.code.length < Nat.pow 2 30)
    (steps : code.plan.steps = lead ++ .call c :: rest) (leads : ∀ s ∈ lead, s.leads = true)
    (name : String) (h : Handover) (m : Machine) :
    ∃ fr m₀ a m₁, m.push code.plan.layout [] = .ok (fr, m₀) ∧
      (Activation.start code name h fr).quietAll lead m₀ = some (a, m₁) ∧
        Activation.Led ρ (.start code name h fr) m₀ a m₁ := by
  obtain ⟨m₀, room⟩ := m.exists_push_nil code.plan.layout
  have hmem : ∀ s ∈ lead, s ∈ code.plan.steps := by
    intro s hs
    rw [steps]
    exact List.mem_append_left _ hs
  have fits := Prototype.fitsLayout code.planned short
  obtain ⟨a, m₁, quiet, led⟩ := (Activation.led_start name h room).exists_quietAll constants leads
    (fun op s hop => Prototype.not_isAddress_of_mem code.planned (hmem _ hop))
    (fun slot params hstage => by
      have hroom := fits.stage slot params (hmem _ hstage)
      rwa [Activation.start, List.length_replicate])
  exact ⟨_, m₀, a, m₁, room, quiet, led⟩

/-- A function that does nothing but stage parameters and tail call is as good as its callee.
It gets as far as the tail call, and from there on whatever can come of calling it can come of
calling the callee with what it has staged, and the other way round: `TailAlike` says what is
the same and how the counters differ.

Natives may do with an address whatever does not depend on which number the frame has, as
scripted ones do. The context may be any whose addresses lead to frames that have been pushed:
a new one is such, and `Machine.Closed.push`, `pop` and `call` keep it so. What has been planned
for the tail call apart from its parameters does not matter, nor what comes behind it. -/
theorem tail_call_transparent {p : Program} {i : Nat} {code : Code} {lead rest : List Step}
    {c : CallSite} {m : Machine} {returns : List Descriptor}
    (noHost : ∀ f e, (p.head f).entry ≠ some (.host e)) (portable : p.Portable)
    (entry : (p.head (.script i)).entry = some (.compiled code))
    (short : code.proto.code.length < Nat.pow 2 30)
    (steps : code.plan.steps = lead ++ .call c :: rest) (leads : ∀ s ∈ lead, s.leads = true)
    (kind : c.kind = .tail) (closed : m.Closed) (pending : m.pending = none)
    (known : ∀ d ∈ returns, d.Known m.stats.pushed) (few : returns.length < Nat.pow 2 31) :
    ∃ fr m₀ a m₁, m.beginCall.push code.plan.layout [] = .ok (fr, m₀) ∧
      (Activation.start code (p.name (.script i))
        ⟨[], returns, Int32.ofNat returns.length⟩ fr).quietAll lead m₀ = some (a, m₁) ∧
      (∃ j, code.proto.code[lead.length]? = some j ∧ (a.captured m₁ c).length = j.b.toNat) ∧
      ∀ g, a.called? m₁ c = some g → (g.isNative = true ∨ (p.head g).entry ≠ none) →
        (∀ {o m'} (x : Calling p (.script i) [] returns m o m'),
          ∃ (o' : Except Abort Int32) (m'' : Machine)
            (y : Calling p g (a.captured m₁ c) returns m o' m''),
            TailAlike p (.script i) g m o o' m' m'' x.invocations y.invocations) ∧
        ∀ {o' m''} (y : Calling p g (a.captured m₁ c) returns m o' m''),
          ∃ (o : Except Abort Int32) (m' : Machine) (x : Calling p (.script i) [] returns m o m'),
            TailAlike p (.script i) g m o o' m' m'' x.invocations y.invocations := by
  obtain ⟨fr, m₀, a, m₁, room, quiet, led⟩ := code.exists_led
    (portable.constants (.skip m.stats.pushed) _ code entry) short steps leads
    (p.name (.script i)) ⟨[], returns, Int32.ofNat returns.length⟩ m.beginCall
  have hserial : fr.serial = m.stats.pushed := (push_eq_ok room).1
  refine ⟨fr, m₀, a, m₁, room, quiet, ?_, ?_⟩
  · have fits := (Prototype.fitsLayout code.planned short).window c
      (Plan.mem_calls.2 (steps ▸ List.mem_append_right _ List.mem_cons_self))
    have hroom : a.outgoing.length = code.plan.layout.params.toNat :=
      led.room.trans List.length_replicate
    obtain ⟨j, hj, hlength⟩ := Prototype.length_window code.planned steps
    refine ⟨j, hj, ?_⟩
    rw [Activation.captured, List.length_map, a.params_handoverFor, List.length_take,
      List.length_drop, ← hlength]
    omega
  intro g called defined
  have still : a.beforeCall m₁ c = m₁ := Activation.beforeCall_eq
    (Prototype.not_isAddress_of_window code.planned steps leads) m₁
  have runs : a.Runs (.call c :: rest) :=
    ⟨code, led.body.proto, steps ▸ List.suffix_append lead _⟩
  obtain ⟨τ, hτ⟩ := Program.exists_task? defined (a.handoverFor c)
  have callee : p.callee? a c (a.beforeCall m₁ c) = some (τ, Program.counted g m₁) := by
    rw [still, Program.callee?_of_called runs called, hτ]
    rfl
  have pushed : (Program.counted g m₁).stats.pushed = m.beginCall.stats.pushed + 1 := by
    have hstats := congrArg (·.pushed) led.context.stats
    obtain ⟨-, rfl⟩ := push_eq_ok room
    exact hstats
  have hand : ∀ n, (Comparison.tail (Program.counted g m₁) m.beginCall n pushed).SameHandover
      (a.handoverFor c) ⟨a.captured m₁ c, returns, Int32.ofNat returns.length⟩ :=
    fun n => Comparison.sameHandover_captured kind led hserial rfl rfl known
  have wanted : 0 ≤ Int32.ofNat returns.length := by
    rw [Int32.le_iff_toInt_le, Int32.toInt_ofNat_of_lt few]
    exact Int.natCast_nonneg _
  obtain ⟨τ', hτ', -⟩ := Comparison.exists_task? portable noHost (hand 0) hτ
  have matched := fun r => Comparison.exists_settledAlike (f := .script i) (r := r) noHost portable
    closed pending room rfl led pushed hand hτ hτ' wanted
  -- Either call is its lead and a run of the callee, and these runs have been matched.
  constructor
  · intro o m' x
    obtain ⟨r, e, run, settled, answer, rfl⟩ :=
      (exists_tail_calling_iff entry steps kind pending few room quiet led.body.name callee).1
        ⟨x, rfl⟩
    obtain ⟨e', L', run', o', answer₁, answer', alike⟩ := (matched r).1 run
    obtain ⟨rfl, rfl⟩ := Prod.mk.inj (answer.symm.trans answer₁)
    obtain ⟨y, rfl⟩ := (exists_calling_iff pending few hτ').2 ⟨r, e', run', _, answer', rfl⟩
    exact ⟨o', _, y, alike⟩
  · intro o' m'' y
    obtain ⟨r, e', run', settled, answer', rfl⟩ :=
      (exists_calling_iff pending few hτ').1 ⟨y, rfl⟩
    obtain ⟨e, L, run, o, answer, answer₁, alike⟩ := (matched r).2 run'
    obtain ⟨rfl, rfl⟩ := Prod.mk.inj (answer'.symm.trans answer₁)
    obtain ⟨x, rfl⟩ :=
      (exists_tail_calling_iff entry steps kind pending few room quiet led.body.name callee).2
        ⟨r, e, run, _, answer, rfl⟩
    exact ⟨_, _, x, alike⟩

/-! ## A text that is passed by reference -/

def passText : Prototype where
  code := [.ofBx .lks 0 0, .param (.of .string) 0, .tailConst 0 1]
  constants := { strings := ["hey"], pointers := [.function (.native 0)] }
  registers := { strings := 1 }

def passTextCall : CallSite := ⟨2, .tail, .static 0 true, ⟨0, [⟨1, .reg .string 0⟩]⟩, []⟩

def passTextPlan : Plan where
  steps := [.plain (.assign .string 0 (.const .string 0)), .stage 0 [⟨1, .reg .string 0⟩]] ++
    [.call passTextCall]
  layout := { registers := { strings := 1 }, params := 1 }
  states := [⟨[], []⟩, ⟨[⟨1, .reg .string 0⟩], []⟩, ⟨[], []⟩]

theorem passText_plan : passText.plan = .ok passTextPlan := rfl

def passTextCode : Code := ⟨passText, passTextPlan, passText_plan⟩

def exclaim : Native where
  name := "exclaim"
  behaviour := HostAction.behaviour 0
    [.put 0 .string [.append (.arg .string 0) (.const .string "!")], .count 1]

def passTextProgram : Program where
  scripts := [{ name := "pass", entry := some (.compiled passTextCode) }]
  natives := [exclaim]

theorem passTextProgram_entry {f : FuncRef} {e : Entry}
    (h : (passTextProgram.head f).entry = some e) : e = .compiled passTextCode := by
  rcases f with (_ | i) | (_ | i)
  · exact (Option.some.inj h).symm
  · cases h
  · cases h
  · cases h

theorem passTextProgram_portable : passTextProgram.Portable where
  constants ρ f code h := by
    obtain rfl := Entry.compiled.inj (passTextProgram_entry h)
    have known : ∀ i, Pointer.Known 0 (passText.constants.get .pointer i) := by
      rintro (_ | i) s hs
      · cases hs
      · cases hs
    exact .of_known (fun _ hs => absurd hs (Nat.not_lt_zero _)) known
  defaults ρ i := by
    rcases i with _ | i
    · exact .nil
    · exact .nil
  behaviour ρ i inv := by
    rcases i with _ | i
    · refine HostAction.behaviour_same 0 _ ?_ inv
      simp [HostAction.ListPortable, HostAction.Portable, HostExpr.Portable, Renaming.SameContent]
    · exact .finish 0

def textBuffer : ReturnBuffer := .ofTypes [.of .string]

def textMachine : Machine := Machine.withNewContext { outputs := textBuffer.outputs }

theorem textMachine_closed : textMachine.Closed :=
  (closed_withNewContext (m := {}) nofun).provide [.of .string]

/-- The text is in the frame of the body, which is no longer there when the native is called
by itself. -/
theorem tail_call_transparent_passText :
    ∃ (o' : Except Abort Int32) (m' m'' : Machine)
      (x : Calling passTextProgram (.script 0) [] textBuffer.descriptors textMachine (.ok 1) m')
      (y : Calling passTextProgram (.native 0) [.string (.text "hey")] textBuffer.descriptors
        textMachine o' m''),
      m'.load ⟨.output 0, .string, 0⟩ = ("hey!" : String) ∧
        TailAlike passTextProgram (.script 0) (.native 0) textMachine (.ok 1) o' m' m''
          x.invocations y.invocations := by
  have noHost : ∀ f e, (passTextProgram.head f).entry ≠ some (.host e) := by
    intro f e h
    cases passTextProgram_entry h
  have steps : passTextCode.plan.steps =
      [.plain (.assign .string 0 (.const .string 0)), .stage 0 [⟨1, .reg .string 0⟩]] ++
        .call passTextCall :: [] := rfl
  obtain ⟨fr, m₀, a, m₁, room, quiet, -, transparent⟩ :=
    tail_call_transparent noHost passTextProgram_portable (i := 0) rfl (by decide) steps
      (by decide) rfl textMachine_closed rfl (ReturnBuffer.known _)
      (by decide : textBuffer.descriptors.length < Nat.pow 2 31)
  cases room
  cases quiet
  obtain ⟨m', ran, text⟩ : ∃ m', passTextProgram.call 1 (.script 0) [] textBuffer.descriptors
      textMachine = some (.ok 1, m') ∧ m'.load ⟨.output 0, .string, 0⟩ = ("hey!" : String) :=
    ⟨_, rfl, rfl⟩
  obtain ⟨x⟩ := Calling.ofCall ran
  obtain ⟨o', m'', y, alike⟩ := (transparent (.native 0) rfl (.inl rfl)).1 x
  exact ⟨o', m', m'', x, y, text, alike⟩

end CallProtocol
