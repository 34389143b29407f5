import CallProtocol.Proofs.Machine.Parameters
import CallProtocol.Session

/-!
# The distribution of parameters

The registers of a new frame are handed out to its parameters in one pass, with a counter
for each bank. `Frame.Dealt` says what the registers are after some of the parameters: each
bank begins with the contents of the parameters of its kind and is blank behind them. One
more parameter extends this by one register, or the parameter is a `Misfit` and the pass
ends there with its abort.

The counters are then the numbers of the parameters of each kind so far. So a list of
parameters is accepted if it `Fits` as a whole, and else the first misfit decides about the
abort.
-/

namespace CallProtocol

theorem Kind.tag_of_ofTag? {t : UInt8} {k : Kind} (h : ofTag? t = some k) : k.tag = t := by
  rw [ofTag?] at h
  split at h
  · next ht =>
      obtain rfl := Option.some.inj h
      exact ht.symm
  · obtain ⟨b, hb, rfl⟩ := Option.map_eq_some_iff.1 h
    rw [Bank.ofTag?] at hb
    have found := List.find?_some hb
    exact beq_iff_eq.1 found

namespace Value

@[simp] theorem kind?_ofRecord (tag : UInt8) (payload : UInt64) :
    (ofRecord tag payload).kind? = Kind.ofTag? tag := by
  rw [ofRecord]
  rcases Kind.ofTag? tag with _ | (_ | _ | _ | _) | _ <;> rfl

theorem tag_of_kind? {v : Value} {k : Kind} (h : v.kind? = some k) : v.tag = k.tag := by
  cases v with
  | invalid t => cases h
  | _ => cases h; rfl

@[simp] theorem tag_ofRecord (tag : UInt8) (payload : UInt64) :
    (ofRecord tag payload).tag = tag := by
  cases hk : Kind.ofTag? tag with
  | none =>
      rw [ofRecord, hk]
      rfl
  | some k =>
      have hkind : (ofRecord tag payload).kind? = some k := (kind?_ofRecord tag payload).trans hk
      exact (tag_of_kind? hkind).trans (Kind.tag_of_ofTag? hk)

@[simp] theorem contentFor_ofCell (text : TextRef → Option String)
    (htext : ∀ s, text (.text s) = some s) (c : Cell) :
    (ofCell c).contentFor text c.bank = c.content := by
  rcases c with ⟨_ | _ | _ | _, x⟩
  · rfl
  · rfl
  · exact congrArg (Option.getD · "") (htext x)
  · rfl

theorem takes_iff {b : Bank} {v : Value} : v.takes b = true ↔ v.kind? = some (.of b) :=
  decide_eq_true_iff

theorem takes_of_kind?_of {b c : Bank} {v : Value} (h : v.kind? = some (.of b)) :
    v.takes c = decide (c = b) := by
  rw [takes, h, decide_eq_decide, Option.some.injEq, Kind.of.injEq]
  exact eq_comm

theorem takes_of_kind?_nil {v : Value} (h : v.kind? = some .nil) (b : Bank) :
    v.takes b = false := by
  rw [takes, h]
  rfl

end Value

namespace Frame

def counters (params : List Value) : Bank → Nat := fun b => params.countP (Value.takes b)

section Counters

variable {before : List Value} {v : Value} {b : Bank}

theorem counters_snoc_of (h : v.kind? = some (.of b)) :
    counters (before ++ [v]) = advance (counters before) b := by
  funext c
  rw [counters, List.countP_append, List.countP_singleton, Value.takes_of_kind?_of h, advance]
  by_cases hc : c = b
  · simp only [hc, decide_true, if_true, counters]
  · simp only [hc, decide_false, Bool.false_eq_true, if_false, Nat.add_zero, counters]

theorem counters_snoc_nil (h : v.kind? = some .nil) :
    counters (before ++ [v]) = counters before := by
  funext c
  rw [counters, List.countP_append, List.countP_singleton, Value.takes_of_kind?_nil h]
  rfl

theorem counters_take_le (params : List Value) (j : Nat) (b : Bank) :
    counters (params.take j) b ≤ counters params b :=
  (List.take_sublist j params).countP_le

end Counters

/-- All parameters have a kind, and no bank has fewer registers than parameters. -/
structure Fits (counts : RegisterCounts) (params : List Value) : Prop where
  known : ∀ v ∈ params, v.kind? ≠ none
  room : ∀ b, counters params b ≤ (counts.get b).toNat

/-- The parameter at `j` gets no register and is not nil: its tag is no kind, or the
parameters before it take all registers of its bank. The frame is refused with this
abort. -/
inductive Misfit (counts : RegisterCounts) (params : List Value) (j : Nat) : Abort → Prop where
  | invalid {v : Value} (param : params[j]? = some v) (noKind : v.kind? = none) :
    Misfit counts params j
      { kind := .badArgument
        message := "parameter " ++ toString j ++ " has invalid tag " ++ toString v.tag.toNat }
  | surplus {v : Value} {b : Bank} (param : params[j]? = some v) (kind : v.kind? = some (.of b))
    (full : (counts.get b).toNat ≤ counters (params.take j) b) :
    Misfit counts params j
      { kind := .tooManyParameters
        message := "too many " ++ b.name ++ " parameters (" ++
          toString (counts.get b).toNat ++ " registers)" }

def FirstMisfit (counts : RegisterCounts) (params : List Value) (j : Nat) (a : Abort) : Prop :=
  Misfit counts params j a ∧ ∀ i < j, ∀ a', ¬ Misfit counts params i a'

section Misfits

variable {counts : RegisterCounts} {params : List Value} {i j : Nat} {a a' : Abort}

/-- A parameter with a kind fits behind others if there is room for all of them. -/
theorem Fits.snoc {before : List Value} {v : Value} {k : Kind} (h : Fits counts before)
    (hv : v.kind? = some k) (room : ∀ b, counters (before ++ [v]) b ≤ (counts.get b).toNat) :
    Fits counts (before ++ [v]) where
  known w hw := by
    rcases List.mem_append.1 hw with hw | hw
    · exact h.known w hw
    · rw [List.mem_singleton.1 hw, hv]
      exact Option.some_ne_none k
  room := room

theorem Fits.take (h : Fits counts params) (j : Nat) : Fits counts (params.take j) where
  known v hv := h.known v (List.mem_of_mem_take hv)
  room b := Nat.le_trans (counters_take_le params j b) (h.room b)

/-- No list of parameters that fits reaches a misfit. -/
theorem Misfit.not_fits (h : Misfit counts params j a) : ¬ Fits counts (params.take (j + 1)) := by
  intro fits
  cases h with
  | @invalid v param noKind =>
      have hmem : v ∈ params.take (j + 1) := by
        rw [List.take_add_one, param]
        exact List.mem_append_right _ (List.mem_singleton_self v)
      exact fits.known v hmem noKind
  | @surplus v b param kind full =>
      have room := fits.room b
      rw [List.take_add_one, param, Option.toList_some, counters_snoc_of kind, advance,
        if_pos rfl] at room
      omega

theorem Misfit.unique (h : Misfit counts params j a) (h' : Misfit counts params j a') :
    a = a' := by
  cases h with
  | invalid param noKind =>
      cases h' with
      | invalid param' _ =>
          obtain rfl := Option.some.inj (param.symm.trans param')
          rfl
      | surplus param' kind _ =>
          obtain rfl := Option.some.inj (param.symm.trans param')
          cases noKind.symm.trans kind
  | surplus param kind _ =>
      cases h' with
      | invalid param' noKind =>
          obtain rfl := Option.some.inj (param.symm.trans param')
          cases noKind.symm.trans kind
      | surplus param' kind' _ =>
          obtain rfl := Option.some.inj (param.symm.trans param')
          cases kind.symm.trans kind'
          rfl

theorem FirstMisfit.unique (h : FirstMisfit counts params i a)
    (h' : FirstMisfit counts params j a') : i = j ∧ a = a' := by
  obtain ⟨misfit, first⟩ := h
  obtain ⟨misfit', first'⟩ := h'
  have hij : i = j := by
    rcases Nat.lt_trichotomy i j with hlt | heq | hlt
    · exact absurd misfit (first' i hlt a)
    · exact heq
    · exact absurd misfit' (first j hlt a')
  subst hij
  exact ⟨rfl, misfit.unique misfit'⟩

/-- A misfit behind parameters that fit is the first one. -/
theorem Misfit.first (h : Misfit counts params j a) (fits : Fits counts (params.take j)) :
    FirstMisfit counts params j a := by
  refine ⟨h, ?_⟩
  intro i hi a' earlier
  have hprefix := fits.take (i + 1)
  rw [List.take_take, Nat.min_eq_left hi] at hprefix
  exact earlier.not_fits hprefix

end Misfits

theorem set_first_blank {α : Type} (xs : List α) (x blank : α) (n : Nat) :
    (xs ++ List.replicate (n + 1) blank).set xs.length x =
      xs ++ [x] ++ List.replicate n blank := by
  rw [List.set_append_right _ _ (Nat.le_refl _), Nat.sub_self, List.replicate_succ,
    List.set_cons_zero, List.append_assoc, List.singleton_append]

/-- The parameters have been given their registers. Each bank begins with the contents of
the parameters of its kind, in order, and is blank behind them. -/
structure Dealt (text : TextRef → Option String) (counts : RegisterCounts) (params : List Value)
    (regs : Banks) : Prop extends Fits counts params where
  bank : ∀ b, regs.bank b =
    (params.filter (Value.takes b)).map (fun v => v.contentFor text b) ++
      List.replicate ((counts.get b).toNat - counters params b) b.blank

namespace Dealt

variable {text : TextRef → Option String} {counts : RegisterCounts} {before : List Value}
  {v : Value} {regs : Banks}

theorem blank (text : TextRef → Option String) (counts : RegisterCounts) :
    Dealt text counts [] (.blank counts) where
  known _ hv := nomatch hv
  room _ := Nat.zero_le _
  bank b := Banks.bank_blank counts b

theorem size (h : Dealt text counts before regs) (b : Bank) :
    regs.size b = (counts.get b).toNat := by
  have room := h.room b
  rw [Banks.size, h.bank, List.length_append, List.length_map, ← List.countP_eq_length_filter,
    List.length_replicate]
  exact Nat.add_sub_cancel' room

theorem snoc_nil (h : Dealt text counts before regs) (hv : v.kind? = some .nil) :
    Dealt text counts (before ++ [v]) regs where
  toFits := h.toFits.snoc hv (by rw [counters_snoc_nil hv]; exact h.room)
  bank b := by
    have untaken : [v].filter (Value.takes b) = [] := by
      rw [List.filter_cons, Value.takes_of_kind?_nil hv]
      rfl
    rw [counters_snoc_nil hv, List.filter_append, untaken, List.append_nil]
    exact h.bank b

/-- A parameter that is not nil takes the first blank register of its bank. -/
theorem snoc_of {b : Bank} (h : Dealt text counts before regs) (hv : v.kind? = some (.of b))
    (free : counters before b < (counts.get b).toNat) :
    Dealt text counts (before ++ [v]) (regs.set b (counters before b) (v.contentFor text b)) where
  toFits := by
    refine h.toFits.snoc hv ?_
    intro c
    rw [counters_snoc_of hv, advance]
    split
    · next hc =>
        subst hc
        exact free
    · exact h.room c
  bank c := by
    rw [counters_snoc_of hv, advance, List.filter_append, List.map_append, Banks.set]
    by_cases hc : c = b
    · subst hc
      have taken : [v].filter (Value.takes c) = [v] := by
        rw [List.filter_cons, Value.takes_iff.2 hv]
        rfl
      have hcount : ((before.filter (Value.takes c)).map fun v => v.contentFor text c).length =
          counters before c := by
        rw [List.length_map, ← List.countP_eq_length_filter]
        rfl
      have hfree : (counts.get c).toNat - counters before c =
          (counts.get c).toNat - (counters before c + 1) + 1 := by omega
      rw [Banks.bank_modify_self, h.bank, hfree, ← hcount, set_first_blank, taken, if_pos rfl]
      rfl
    · have untaken : [v].filter (Value.takes c) = [] := by
        rw [List.filter_cons, Value.takes_of_kind?_of hv, decide_eq_false hc]
        rfl
      rw [Banks.bank_modify_of_ne _ _ _ _ hc, h.bank, untaken, if_neg hc]
      rw [List.map_nil, List.append_nil]

/-- The pass over the rest of the parameters deals them out too, or it ends with the abort
of the first misfit. -/
theorem fill (h : Dealt text counts before regs) (rest : List Value) :
    (∃ regs', Frame.fill text before.length (counters before) regs rest = .ok regs' ∧
      Dealt text counts (before ++ rest) regs') ∨
      ∃ e j, Frame.fill text before.length (counters before) regs rest = .error e ∧
        FirstMisfit counts (before ++ rest) j e.abort := by
  -- The pass knows no more of the parameters before than how many registers they have taken.
  induction rest generalizing before regs with
  | nil =>
      refine .inl ⟨regs, rfl, ?_⟩
      rwa [List.append_nil]
  | cons v rest ih =>
      have param : (before ++ v :: rest)[before.length]? = some v := by simp
      have prior : (before ++ v :: rest).take before.length = before := by simp
      have hsnoc : before ++ v :: rest = before ++ [v] ++ rest := by simp
      have hlength : before.length + 1 = (before ++ [v]).length := by simp
      rw [Frame.fill]
      cases hv : v.kind? with
      | none =>
          refine .inr ⟨.invalidTag before.length v.tag, before.length, rfl, ?_⟩
          refine Misfit.first (.invalid param hv) ?_
          rw [prior]
          exact h.toFits
      | some k =>
          cases k with
          | nil =>
              have hcounters : counters (before ++ [v]) = counters before := counters_snoc_nil hv
              dsimp only
              rw [hsnoc, hlength, ← hcounters]
              exact ih (h.snoc_nil hv)
          | of b =>
              have hcounters : counters (before ++ [v]) = advance (counters before) b :=
                counters_snoc_of hv
              dsimp only
              by_cases free : counters before b < regs.size b
              · rw [if_pos free, hsnoc, hlength, ← hcounters]
                rw [h.size] at free
                exact ih (h.snoc_of hv free)
              · rw [if_neg free]
                refine .inr ⟨.tooMany b (regs.size b), before.length, rfl, ?_⟩
                rw [h.size] at free ⊢
                refine Misfit.first (.surplus param hv ?_) ?_
                · rw [prior]
                  exact Nat.le_of_not_lt free
                · rw [prior]
                  exact h.toFits

end Dealt

end Frame

namespace Machine

/-- A new frame has its parameters dealt out, or the first misfit is why there is none. -/
theorem push_dealt (m : Machine) (layout : FrameLayout) (params : List Value) :
    (∃ fr m', m.push layout params = .ok (fr, m') ∧ fr.layout = layout ∧
      Frame.Dealt m.text layout.registers params fr.registers) ∨
      ∃ e j, m.push layout params = .error e ∧
        Frame.FirstMisfit layout.registers params j e.abort := by
  rcases (Frame.Dealt.blank m.text layout.registers).fill params with
    ⟨regs, filled, dealt⟩ | ⟨e, j, refused, first⟩
  · have hparams : Frame.ofParams m.text m.stats.pushed layout params =
        .ok ⟨m.stats.pushed, layout, regs⟩ := congrArg (Except.map _) filled
    rw [List.nil_append] at dealt
    rw [push, hparams]
    exact .inl ⟨_, _, rfl, rfl, dealt⟩
  · have hparams : Frame.ofParams m.text m.stats.pushed layout params = .error e :=
      congrArg (Except.map _) refused
    rw [push, hparams]
    exact .inr ⟨e, j, rfl, first⟩

end Machine

namespace Session

variable {s : Session} {layout : FrameLayout} {params : List Value}

theorem pushFrame_eq_ok_iff {fr : Frame} {m' : Machine} :
    s.pushFrame layout params = .ok (fr, m') ↔ s.machine.push layout params = .ok (fr, m') := by
  rw [pushFrame]
  cases s.machine.push layout params with
  | ok x =>
      constructor
      · intro h
        exact congrArg Except.ok (Except.ok.inj h)
      · intro h
        exact congrArg Except.ok (Except.ok.inj h)
  | error e =>
      constructor
      · intro h
        cases h
      · intro h
        cases h

theorem pushFrame_eq_error_iff {a : Abort} :
    s.pushFrame layout params = .error a ↔
      ∃ e, s.machine.push layout params = .error e ∧ e.abort = a := by
  rw [pushFrame]
  cases s.machine.push layout params with
  | ok x =>
      constructor
      · intro h
        cases h
      · rintro ⟨e, h, -⟩
        cases h
  | error e =>
      constructor
      · intro h
        exact ⟨e, rfl, Except.error.inj h⟩
      · rintro ⟨e', h, rfl⟩
        obtain rfl := Except.error.inj h
        rfl

end Session

/-- A frame can be pushed if all its parameters have kinds and none of its banks has fewer
registers than parameters. Then its registers have been dealt out, and the context is the
same but for the new frame and its count. Otherwise the abort is that of the first misfit,
and there is no new context. Compiled code that is refused its frame unwinds with this abort
from a stack with the same frames and counts.

A record of any tag is a parameter. Its content is that of its cell, and a string without a
text is empty. -/
theorem parameters_distributed (s : Session) :
    (∀ (layout : FrameLayout) (params : List Value),
      ((∃ fr m', s.pushFrame layout params = .ok (fr, m')) ↔
        (∀ v ∈ params, v.kind? ≠ none) ∧
          ∀ b, params.countP (Value.takes b) ≤ (layout.registers.get b).toNat) ∧
      (∀ fr m', s.pushFrame layout params = .ok (fr, m') →
        (∀ b, fr.registers.bank b =
          (params.filter (Value.takes b)).map (fun v => v.contentFor s.machine.text b) ++
            List.replicate ((layout.registers.get b).toNat - params.countP (Value.takes b))
              b.blank) ∧
          fr.layout = layout ∧ m'.depth = s.machine.depth + 1 ∧
          m' = { s.machine with
            frames := fr :: s.machine.frames
            stats := { s.machine.stats with
              pushed := s.machine.stats.pushed + 1
              maxDepth := max s.machine.stats.maxDepth (s.machine.depth + 1) } }) ∧
      ∀ a, s.pushFrame layout params = .error a ↔
        ∃ j, Frame.FirstMisfit layout.registers params j a) ∧
      (∀ (p : Program) (invoke : Invoke) (code : Code) (name : String) (h : Handover) (a : Abort),
        s.pushFrame code.plan.layout h.params = .error a →
          ∃ m', p.runCode invoke code name h s.machine = some (unwoundCode, m') ∧
            m'.pending = some (a.through name) ∧ m'.frames = s.machine.frames ∧
            m'.stats = s.machine.stats) ∧
      (∀ tag payload, (Value.ofRecord tag payload).kind? = Kind.ofTag? tag ∧
        (Value.ofRecord tag payload).tag = tag) ∧
      (∀ c : Cell, (Value.ofCell c).contentFor s.machine.text c.bank = c.content) ∧
      (Value.string .null).contentFor s.machine.text .string = "" := by
  refine ⟨?_, ?_, ?_, ?_, rfl⟩
  · intro layout params
    rcases s.machine.push_dealt layout params with
      ⟨fr, m', room, hlayout, dealt⟩ | ⟨e, j, refused, first⟩
    · have pushed := Session.pushFrame_eq_ok_iff.2 room
      refine ⟨⟨fun _ => ⟨dealt.known, dealt.room⟩, fun _ => ⟨fr, m', pushed⟩⟩, ?_, ?_⟩
      · intro fr₁ m₁ pushed₁
        obtain ⟨rfl, rfl⟩ := Prod.mk.inj (Except.ok.inj (pushed.symm.trans pushed₁))
        obtain ⟨-, rfl⟩ := Machine.push_eq_ok room
        exact ⟨dealt.bank, hlayout, rfl, rfl⟩
      · intro a
        constructor
        · intro refused
          cases pushed.symm.trans refused
        · rintro ⟨j, misfit, -⟩
          exact absurd (dealt.toFits.take (j + 1)) misfit.not_fits
    · have refused := Session.pushFrame_eq_error_iff.2 ⟨e, refused, rfl⟩
      refine ⟨⟨?_, ?_⟩, ?_, ?_⟩
      · rintro ⟨fr, m', pushed⟩
        cases refused.symm.trans pushed
      · rintro ⟨known, room⟩
        have fits : Frame.Fits layout.registers params := ⟨known, room⟩
        exact absurd (fits.take (j + 1)) first.1.not_fits
      · intro fr m' pushed
        cases refused.symm.trans pushed
      · intro a
        constructor
        · intro refused₁
          obtain rfl := Except.error.inj (refused.symm.trans refused₁)
          exact ⟨j, first⟩
        · rintro ⟨i, first₁⟩
          obtain ⟨-, rfl⟩ := first.unique first₁
          exact refused
  · intro p invoke code name h a refused
    obtain ⟨e, full, rfl⟩ := Session.pushFrame_eq_error_iff.1 refused
    refine ⟨s.machine.raise (e.abort.through name), ?_, Machine.pending_raise _ _,
      Machine.frames_raise _ _, Machine.stats_raise _ _⟩
    rw [Program.runCode, full]
  · intro tag payload
    exact ⟨Value.kind?_ofRecord tag payload, Value.tag_ofRecord tag payload⟩
  · exact Value.contentFor_ofCell s.machine.text fun _ => rfl

def freshSession : Session where
  engine := { program := {} }

def takeTwo : Prototype where
  code := [.retImm 0 true 0]
  registers := { ints := 2, strings := 1 }

def takeTwoPlan : Plan where
  steps := [.ret ⟨0, true, .imm 0, 1, .int, .of .int⟩]
  layout := { registers := { ints := 2, strings := 1 } }
  states := [⟨[], []⟩]

theorem takeTwo_plan : takeTwo.plan = .ok takeTwoPlan := rfl

/-- Two ints and a string fit whatever nil is between them. Of a third int and an unknown
tag, the one that comes first is refused. -/
theorem parameters_distributed_takeTwo :
    (∃ fr m', freshSession.pushFrame takeTwoPlan.layout
        [.int 7, .nil, .string .null, .int 8] = .ok (fr, m') ∧
      fr.registers.bank .int = [7, 8] ∧ fr.registers.bank .string = [""]) ∧
      (∃ j, Frame.FirstMisfit takeTwoPlan.layout.registers
        [.int 7, .int 8, .int 9, .invalid 77] j
          { kind := .tooManyParameters, message := "too many int parameters (2 registers)" }) ∧
      ∃ m', Program.runCode {} (fun _ _ _ => none) ⟨takeTwo, takeTwoPlan, takeTwo_plan⟩ "taker"
          ⟨[.int 7, .invalid 77, .int 8, .int 9], [], 0⟩ {} = some (unwoundCode, m') ∧
        m'.frames = [] ∧ m'.pending.map (·.message) = some "parameter 1 has invalid tag 77" := by
  obtain ⟨distributed, refuses, -⟩ := parameters_distributed freshSession
  refine ⟨?_, ?_, ?_⟩
  · obtain ⟨accepts, dealt, -⟩ := distributed takeTwoPlan.layout
      [.int 7, .nil, .string .null, .int 8]
    have fits : ∀ b, List.countP (Value.takes b) [.int 7, .nil, .string .null, .int 8] ≤
        (takeTwoPlan.layout.registers.get b).toNat := by
      intro b
      cases b <;> decide
    obtain ⟨fr, m', pushed⟩ := accepts.2 ⟨by decide, fits⟩
    obtain ⟨banks, -⟩ := dealt fr m' pushed
    exact ⟨fr, m', pushed, banks .int, banks .string⟩
  · obtain ⟨-, -, blames⟩ := distributed takeTwoPlan.layout [.int 7, .int 8, .int 9, .invalid 77]
    exact (blames _).1 rfl
  · obtain ⟨m', ran, pending, frames, -⟩ := refuses {} (fun _ _ _ => none)
      ⟨takeTwo, takeTwoPlan, takeTwo_plan⟩ "taker"
      ⟨[.int 7, .invalid 77, .int 8, .int 9], [], 0⟩ _ rfl
    exact ⟨m', ran, frames, by rw [pending]; rfl⟩

end CallProtocol
