import CallProtocol.Proofs.Execution.Outgoing
import CallProtocol.Proofs.Execution.Proceeds
import CallProtocol.Proofs.Machine.Parameters

/-!
# Texts are passed by reference

A parameter record holds an int, a float or a pointer itself, but of a string register it
holds the place. Who reads the record finds the text that is there at that time. Between
the instruction that stages it and the call that takes it a body may do anything, other
calls included, so the text may have been overwritten meanwhile.

What is certain is the text at the call: it is what the register held when it was staged,
after the writes to it in between, and each kind of callee gets this text.
-/

namespace CallProtocol

open Machine

def Prototype.Stages (p : Prototype) (n : Nat) (sources : List Source) : Prop :=
  ∃ i, p.code[n]? = some i ∧ ((i.op = .parami ∧ sources = [.imm i.sax]) ∨
    (i.op = .param ∧ ∃ t, RegType.ofBits? i.b = some t ∧
      p.paramSources n t i.c.toNat = .ok sources))

namespace Prototype

variable {p : Prototype} {n : Nat} {i : Instr} {s : Planning} {sources : List Source}

theorem Carries.stagedBy (hs : p.Carries n s) {e : Staged} (he : e ∈ s.staging.entries) :
    ∃ sources, p.Stages e.pc sources ∧ e.source ∈ sources := by
  induction hs with
  | start => cases he
  | @next n s i step s' prior instr walked ih =>
      rcases Planning.next_cases walked with ⟨kind, c, -, -, -, calls⟩ |
        ⟨sources, -, -, hsources, -, hentries⟩ | ⟨-, -, hstaging, -, -⟩
      · rw [calls.entries] at he
        exact ih (List.mem_of_mem_take he)
      · rw [hentries] at he
        rcases List.mem_append.1 he with he | he
        · exact ih he
        · obtain ⟨source, hsource, rfl⟩ := List.mem_map.1 he
          exact ⟨sources, ⟨i, instr, hsources⟩, hsource⟩
      · rw [hstaging] at he
        exact ih he

theorem Stages.string (h : p.Stages n sources) (hi : p.code[n]? = some i) (param : i.op = .param)
    (type : RegType.ofBits? i.b = some (.of .string)) :
    sources = [.reg .string i.c.toNat] ∧
      i.c.toNat < (p.registers.get .string).toNat := by
  obtain ⟨j, hj, staged⟩ := h
  obtain rfl := Option.some.inj (hi.symm.trans hj)
  rcases staged with ⟨hop, -⟩ | ⟨-, t, ht, hsources⟩
  · rw [param] at hop
    cases hop
  · obtain rfl := Option.some.inj (type.symm.trans ht)
    obtain ⟨source, hsource, hpure⟩ := bind_eq_ok hsources
    obtain ⟨u, hreg, hsource⟩ := bind_eq_ok hsource
    cases hsource
    cases hpure
    exact ⟨rfl, (checkReg_eq_ok.1 hreg).1⟩

end Prototype

/-- An int, float or pointer register is captured when it is staged. -/
theorem Staged.MadeIn.captured {past : List Activation} {a : Activation} {q : Staged} {v : Value}
    {b : Bank} {r : Nat} (made : q.MadeIn past a v) (source : q.source = .reg b r)
    (hb : b ≠ .string) :
    ∃ a', past.reverse[q.pc]? = some a' ∧ v = .ofCell ⟨b, a'.locals.get b r⟩ := by
  obtain ⟨a', hpast, -, value⟩ := made
  refine ⟨a', hpast, ?_⟩
  rw [value {}, source, Activation.stagedValue_reg]
  cases b with
  | string => exact absurd rfl hb
  | _ => rfl

/-- What a string parameter is to its callee, whatever the callee is: the argument of a native
at its place, what an entry of the host notes, and in compiled code the text of the register
that it lands in. -/
structure Task.Receives (p : Program) (τ : Task) (m : Machine) (j : Nat) (text : String) : Prop where
  native : ∀ g h, τ = .native (.native g) h →
    Arguments.get? (Program.beforeNative g m).text ⟨h.params, (p.native g).defaults⟩ j =
      some (.of (.string text))
  host : ∀ e g name h, τ = .entry (.host e) g name h →
    (h.params.map (·.arg? m.text))[j]? = some (some (.of (.string text)))
  compiled : ∀ code g name h fr m', τ = .entry (.compiled code) g name h →
    m.push code.plan.layout h.params = .ok (fr, m') →
      (Activation.start code name h fr).read m' .string
        ((h.params.take j).countP (Value.takes .string)) = text

/-- A callee that is handed the place of a text gets the text that is there when it begins. -/
theorem Task.receives_of_register {p : Program} {τ : Task} {h : Handover} {m : Machine}
    {j frame r : Nat} (handed : τ = .null ∨ τ.handover? = some h)
    (hj : h.params[j]? = some (.string (.register frame r))) :
    τ.Receives p m j (m.load ⟨.frame frame, .string, r⟩) where
  native := by
    rintro g h' rfl
    obtain rfl := Option.some.inj (handed.resolve_left nofun)
    simp only [Arguments.get?, hj]
    rfl
  host := by
    rintro e g name h' rfl
    obtain rfl := Option.some.inj (handed.resolve_left nofun)
    rw [List.getElem?_map, hj]
    rfl
  compiled := by
    rintro code g name h' fr m' rfl room
    obtain rfl := Option.some.inj (handed.resolve_left nofun)
    exact load_push room hj rfl

/-- A string register that is staged by value reaches the callee by reference. The record names
the place of the register, and the callee gets the text that the register holds when the
call is made. That is the text that it held when it was staged, after all that has been
written to it since; so it is the same text if nothing has been, and the last one that was
loaded otherwise. Registers of the other banks are captured when they are staged. -/
theorem text_arguments_by_reference {p : Program} {e : Entry} {f : FuncRef} {name : String}
    {h : Handover} {m₀ m m₁ m₂ : Machine} {past : List Activation} {steps : List Step}
    {a a₁ : Activation} {i : Instr} {ws : List Write} {c : CallSite} {rest : List Step} {τ : Task}
    {j : Nat} {q : Staged}
    (reached : Reaches p (.entry e f name h) m₀ past (.body steps a₁) m₁)
    (hi : a₁.proto.code[past.length]? = some i) (param : i.op = .param)
    (type : RegType.ofBits? i.b = some (.of .string))
    (onward : Proceeds p steps a₁ m₁ ws (.call c :: rest) a m)
    (consumed : c.window.params[j]? = some q) (staged : q.pc = past.length)
    (callee : p.callee? a c (a.beforeCall m c) = some (τ, m₂)) :
    (a.handoverFor c).params[j]? = some (.string (.register a₁.frame i.c.toNat)) ∧
      (τ = .null ∨ τ.handover? = some (a.handoverFor c)) ∧
      τ.Receives p m₂ j (a.read m .string i.c.toNat) ∧
      a.read m .string i.c.toNat =
        (a₁.slot .string i.c.toNat).written ws (a₁.read m₁ .string i.c.toNat) ∧
      ((∀ w ∈ ws, w.slot ≠ a₁.slot .string i.c.toNat) →
        a.read m .string i.c.toNat = a₁.read m₁ .string i.c.toNat) ∧
      (∀ ws₁ ws₂ text, ws = ws₁ ++ ⟨a₁.slot .string i.c.toNat, .string text⟩ :: ws₂ →
        (∀ w ∈ ws₂, w.slot ≠ a₁.slot .string i.c.toNat) →
          a.read m .string i.c.toNat = text) ∧
      ∃ later, Reaches p (.entry e f name h) m₀ (later ++ past) (.body (.call c :: rest) a) m ∧
        ∀ (k : Nat) q' b r, c.window.params[k]? = some q' → q'.source = .reg b r → b ≠ .string →
          ∃ a', (later ++ past).reverse[q'.pc]? = some a' ∧
            (a.handoverFor c).params[k]? = some (.ofCell ⟨b, a'.locals.get b r⟩) := by
  obtain ⟨later, reached'⟩ := onward.reaches reached
  have same := onward.sameBody
  obtain ⟨v, hv, made⟩ := reached'.handed_getElem? consumed
  have proto : a.proto.code[q.pc]? = some i := by rw [same.proto, staged, hi]
  -- The plan knows that the entry is the register of the instruction.
  obtain ⟨source, hr⟩ : q.source = .reg .string i.c.toNat ∧
      i.c.toNat < (a₁.proto.registers.get .string).toNat := by
    obtain ⟨k, t, t', -, carries, walked⟩ := reached'.position.step
    obtain ⟨-, calls⟩ := Planning.calls_of_next walked
    have hmem : q ∈ t.staging.entries := by
      have hq := List.mem_of_getElem? consumed
      rw [calls.window] at hq
      exact List.mem_of_mem_drop hq
    obtain ⟨sources, stages, hsource⟩ := carries.stagedBy hmem
    obtain ⟨rfl, hr⟩ := stages.string proto param type
    exact ⟨List.mem_singleton.1 hsource, same.proto ▸ hr⟩
  have params : (a.handoverFor c).params[j]? = some (.string (.register a.frame i.c.toNat)) := by
    rw [hv, made.string source]
  have handed : τ = .null ∨ τ.handover? = some (a.handoverFor c) := by
    rcases Program.callee?_cases callee with ⟨rfl, -⟩ | ⟨g, rfl, -⟩ | ⟨g, e', -, rfl, -⟩
    · exact .inl rfl
    · exact .inr rfl
    · exact .inr rfl
  have begun : m₂.load (a.slot .string i.c.toNat) = a.read m .string i.c.toNat :=
    Program.load_callee? (fun _ hq => Activation.slot_inOuts_ne hq _) callee
  have written := onward.read_string reached hr
  refine ⟨same.frame ▸ params, handed, begun ▸ Task.receives_of_register handed params, written,
    ?_, ?_, later, reached', ?_⟩
  · intro unwritten
    exact written.trans (Slot.written_of_forall_ne unwritten _)
  · rintro ws₁ ws₂ text rfl last
    exact written.trans (Slot.written_last (a₁.slot .string i.c.toNat) ws₁ last _)
  · intro k q' b r hq' source' hb
    obtain ⟨v', hv', made'⟩ := reached'.handed_getElem? hq'
    obtain ⟨a', ha', rfl⟩ := made'.captured source' hb
    exact ⟨a', ha', hv'⟩

/-! ## A text that is overwritten before the call -/

def reloadText : Prototype where
  code := [.ofBx .lks 0 0, .param (.of .string) 0, .ofBx .lks 0 1, .callConst 0 1 0]
  constants := { strings := ["first", "second"], pointers := [.function (.native 0)] }
  registers := { strings := 1 }

def reloadTextCall : CallSite :=
  ⟨3, .call, .static 0 true, ⟨0, [⟨1, .reg .string 0⟩]⟩, []⟩

def reloadTextPlan : Plan where
  steps := [.plain (.assign .string 0 (.const .string 0)), .stage 0 [⟨1, .reg .string 0⟩],
    .plain (.assign .string 0 (.const .string 1)), .call reloadTextCall]
  layout := { registers := { strings := 1 }, params := 1 }
  states := [⟨[], []⟩, ⟨[⟨1, .reg .string 0⟩], []⟩, ⟨[⟨1, .reg .string 0⟩], []⟩, ⟨[], []⟩]

theorem reloadText_plan : reloadText.plan = .ok reloadTextPlan := rfl

def reloadTextCode : Code := ⟨reloadText, reloadTextPlan, reloadText_plan⟩

def reloadTextTask : Task := .entry (.compiled reloadTextCode) (.script 0) "reload" ⟨[], [], 0⟩

def reloadTextProgram : Program where
  natives := [{ name := "echo", behaviour := fun _ => .finish 0 }]

def reloadTextMachine (text : String) : Machine where
  frames := [⟨0, reloadTextPlan.layout, { strings := [text] }⟩]
  stats := { pushed := 1, maxDepth := 1 }

def reloadTextStart : Activation :=
  .start reloadTextCode "reload" ⟨[], [], 0⟩ ⟨0, reloadTextPlan.layout, .blank reloadText.registers⟩

def reloadTextBody : Activation :=
  { reloadTextStart with outgoing := [.string (.register 0 0)] }

theorem reaches_reloadText :
    Reaches reloadTextProgram reloadTextTask {} [reloadTextStart]
      (.body (reloadTextPlan.steps.drop 1) reloadTextStart) (reloadTextMachine "first") :=
  .quiet (.begun .start rfl) rfl

theorem proceeds_reloadText :
    Proceeds reloadTextProgram (reloadTextPlan.steps.drop 1) reloadTextStart
      (reloadTextMachine "first") [⟨⟨.frame 0, .string, 0⟩, .string "second"⟩]
      [.call reloadTextCall] reloadTextBody (reloadTextMachine "second") := by
  have staged : Proceeds reloadTextProgram (reloadTextPlan.steps.drop 1) reloadTextStart
      (reloadTextMachine "first") [] (reloadTextPlan.steps.drop 2) reloadTextBody
      (reloadTextMachine "first") :=
    .quiet .start (s := .stage 0 [⟨1, .reg .string 0⟩]) rfl
  exact staged.quiet (s := .plain (.assign .string 0 (.const .string 1))) rfl

def reloadTextCallee : Task := .native (.native 0) ⟨[.string (.register 0 0)], [], 0⟩

theorem consumed_reloadText : reloadTextCall.window.params[0]? = some ⟨1, .reg .string 0⟩ := rfl

theorem callee?_reloadText :
    reloadTextProgram.callee? reloadTextBody reloadTextCall
      (reloadTextBody.beforeCall (reloadTextMachine "second") reloadTextCall) =
        some (reloadTextCallee, reloadTextMachine "second") := rfl

/-- The native gets the second text. -/
theorem text_arguments_by_reference_reloadText :
    Arguments.get? (Program.beforeNative 0 (reloadTextMachine "second")).text
      ⟨[.string (.register 0 0)], []⟩ 0 = some (.of (.string "second")) := by
  obtain ⟨-, -, receives, -, -, last, -⟩ := text_arguments_by_reference reaches_reloadText rfl rfl rfl
    proceeds_reloadText consumed_reloadText rfl callee?_reloadText
  have text := last [] [] "second" rfl nofun
  rw [text] at receives
  exact receives.native 0 _ rfl

/-- The text is not captured when it is staged: the register held the first text then. -/
theorem text_arguments_not_captured :
    ¬ ∀ (p : Program) (e : Entry) (f : FuncRef) (name : String) (h : Handover)
      (m₀ m m₁ m₂ : Machine) (past : List Activation) (steps : List Step) (a a₁ : Activation)
      (i : Instr) (ws : List Write) (c : CallSite) (rest : List Step) (τ : Task) (j : Nat)
      (q : Staged), Reaches p (.entry e f name h) m₀ past (.body steps a₁) m₁ →
      a₁.proto.code[past.length]? = some i → i.op = .param →
      RegType.ofBits? i.b = some (.of .string) →
      Proceeds p steps a₁ m₁ ws (.call c :: rest) a m → c.window.params[j]? = some q →
      q.pc = past.length → p.callee? a c (a.beforeCall m c) = some (τ, m₂) →
        τ.Receives p m₂ j (a₁.read m₁ .string i.c.toNat) := by
  intro captured
  have receives := captured _ _ _ _ _ _ _ _ _ _ _ _ _ _ _ _ _ _ _ _ reaches_reloadText rfl rfl rfl
    proceeds_reloadText consumed_reloadText rfl callee?_reloadText
  have first := receives.native 0 _ rfl
  have equal : some (Arg.of (.string "second")) = some (Arg.of (.string "first")) := first
  exact absurd equal (by decide)

end CallProtocol
