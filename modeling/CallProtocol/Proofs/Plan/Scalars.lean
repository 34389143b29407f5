import CallProtocol.Proofs.Plan.LookAhead
import Mathlib.Data.List.Forall2

/-!
# Scalar parameters

A parameter instruction for a float of several components stages them one by one. So do as
many instructions for single floats, which is what `Prototype.scalarized` puts in its place.
All that comes behind is at another place then. The map from the old places to the new ones is
`Prototype.scalarPc`: the instructions that stand for the one at `n` begin at `scalarPc n` and
end before `scalarPc (n + 1)`.

An instruction is planned alike wherever it stands. The place is only looked at when a fault is
blamed, and when a result is taken off the queue. So the walk over the new body carries the same
as the walk over the old one, up to the places that staged parameters and results remember.
-/

namespace CallProtocol

/-! ## The place of an instruction -/

/-- What the first check accepts the second one accepts too. The answers are the same up to what
`φ` makes of them. -/
def Moves {α : Type} (φ : α → α) (x y : Except PlanError α) : Prop :=
  ∀ a, x = .ok a → y = .ok (φ a)

namespace Moves

variable {α β : Type}

theorem ok {φ : α → α} (a : α) : Moves φ (.ok a) (.ok (φ a)) := by
  intro b h
  cases h
  rfl

theorem error {φ : α → α} (e e' : PlanError) : Moves φ (.error e) (.error e') := by
  intro a h
  cases h

theorem bind {φ : β → β} {x y : Except PlanError α} {f g : α → Except PlanError β}
    (h : Moves id x y)
    (hf : ∀ a, Moves φ (f a) (g a)) : Moves φ (x >>= f) (y >>= g) := by
  intro b hb
  obtain ⟨a, ha, hb⟩ := bind_eq_ok hb
  rw [h a ha]
  exact hf a b hb

end Moves

namespace Prototype

variable (p : Prototype) (pc pc' : Nat) (b : Bank) (i : Instr)

theorem moves_checkReg (reg : Nat) : Moves id (p.checkReg pc b reg) (p.checkReg pc' b reg) := by
  intro u h
  rw [checkReg_eq_ok] at h ⊢
  exact h

theorem moves_checkConst (index : Nat) :
    Moves id (p.checkConst pc b index) (p.checkConst pc' b index) := by
  intro u h
  rw [checkConst_eq_ok] at h ⊢
  exact h

theorem moves_decode (bits : UInt8) : Moves id (decode pc bits) (decode pc' bits) := by
  intro t h
  rw [decode_eq_ok] at h ⊢
  exact h

theorem moves_regOperand (reg : Nat) : Moves id (p.regOperand pc b reg) (p.regOperand pc' b reg) :=
  (p.moves_checkReg pc pc' b reg).bind fun _ => .ok _

theorem moves_constOperand (index : Nat) :
    Moves id (p.constOperand pc b index) (p.constOperand pc' b index) :=
  (p.moves_checkConst pc pc' b index).bind fun _ => .ok _

theorem moves_paramSources (t : RegType) (index : Nat) :
    Moves id (p.paramSources pc t index) (p.paramSources pc' t index) := by
  rw [paramSources, paramSources]
  split
  · exact .ok _
  · exact (p.moves_regOperand pc pc' _ index).bind fun _ => .ok _
  · exact (p.moves_constOperand pc pc' _ index).bind fun _ => .ok _
  · exact (p.moves_checkReg pc pc' _ index).bind fun _ => .ok _
  · exact (p.moves_checkReg pc pc' _ _).bind fun _ => .ok _
  · exact .error _ _

theorem moves_callee : Moves id (p.callee pc i) (p.callee pc' i) := by
  rw [callee, callee]
  split
  · exact (p.moves_checkReg pc pc' _ _).bind fun _ => .ok _
  · exact (p.moves_checkReg pc pc' _ _).bind fun _ => .ok _
  · refine (p.moves_checkConst pc pc' _ _).bind fun _ => ?_
    split
    · exact .ok _
    · exact .error _ _

theorem moves_returnSite : Moves id (p.returnSite pc i) (p.returnSite pc' i) := by
  refine (moves_decode pc pc' i.b).bind fun t => ?_
  split
  · exact (p.moves_regOperand pc pc' _ _).bind fun _ => .ok _
  · exact (p.moves_constOperand pc pc' _ _).bind fun _ => .ok _
  · exact (p.moves_checkReg pc pc' _ _).bind fun _ => .ok _
  · exact (p.moves_checkReg pc pc' _ _).bind fun _ => .ok _
  · exact .error _ _

theorem moves_plainOp : Moves id (p.plainOp pc i) (p.plainOp pc' i) := by
  have loaded : ∀ b, Moves id (p.loadConst pc b i) (p.loadConst pc' b i) := fun b =>
    (p.moves_checkReg pc pc' b _).bind fun _ =>
      (p.moves_constOperand pc pc' b _).bind fun _ => .ok _
  have moved : ∀ b, Moves id (p.moveReg pc b i) (p.moveReg pc' b i) := fun b =>
    (p.moves_checkReg pc pc' b _).bind fun _ =>
      (p.moves_regOperand pc pc' b _).bind fun _ => .ok _
  have added : ∀ b op, Moves id (p.addRegs pc b op i) (p.addRegs pc' b op i) := fun b op =>
    (p.moves_checkReg pc pc' b _).bind fun _ => (p.moves_checkReg pc pc' b _).bind fun _ =>
      (p.moves_checkReg pc pc' b _).bind fun _ => .ok _
  rw [plainOp, plainOp]
  split
  · exact (p.moves_checkReg pc pc' _ _).bind fun _ => .ok _
  · exact loaded _
  · exact loaded _
  · exact loaded _
  · exact loaded _
  · exact moved _
  · exact moved _
  · exact moved _
  · exact added _ _
  · exact added _ _
  · exact .ok _

theorem moves_resultSpec :
    Moves (fun r => { r with pc := pc' }) (p.resultSpec pc i) (p.resultSpec pc' i) := by
  refine (moves_decode pc pc' i.b).bind fun t => ?_
  split
  · exact .error _ _
  · exact (p.moves_checkReg pc pc' _ _).bind fun _ => .ok _
  · exact (p.moves_checkReg pc pc' _ _).bind fun _ => .ok _
  · exact (p.moves_checkReg pc pc' _ _).bind fun _ => .ok _
  · exact .error _ _

end Prototype

/-! ## The scalar body -/

namespace Instr

/-- The instructions that stage the components of a float one by one. An instruction that stages
no such float stays as it is. -/
def scalars (i : Instr) : List Instr :=
  match i.op, RegType.ofBits? i.b with
  | .param, some ⟨.of .float, .pair⟩ =>
    [param (.of .float) i.c, param (.of .float) (i.c + 1)]
  | .param, some ⟨.of .float, .triple⟩ =>
    [param (.of .float) i.c, param (.of .float) (i.c + 1), param (.of .float) (i.c + 2)]
  | _, _ => [i]

theorem scalars_of_components {i : Instr} {t : RegType} (ht : RegType.ofBits? i.b = some t)
    (h : t.components = 1) : i.scalars = [i] := by
  rw [scalars]
  split
  · next ht' =>
      cases ht.symm.trans ht'
      cases h
  · next ht' =>
      cases ht.symm.trans ht'
      cases h
  · rfl

theorem scalars_of_ne_param {i : Instr} (h : i.op ≠ .param) : i.scalars = [i] := by
  rw [scalars]
  split
  · next hop _ => exact absurd hop h
  · next hop _ => exact absurd hop h
  · rfl

end Instr

def Step.singles : Nat → List Staged → List Step
  | _, [] => []
  | slot, e :: es => .stage slot [e] :: singles (slot + 1) es

namespace Prototype

def scalarized (p : Prototype) : Prototype := p.withCode (p.code.flatMap Instr.scalars)

def scalarPc (p : Prototype) (n : Nat) : Nat := ((p.code.take n).flatMap Instr.scalars).length

theorem scalarPc_succ {p : Prototype} {n : Nat} {i : Instr} (hi : p.code[n]? = some i) :
    p.scalarPc (n + 1) = p.scalarPc n + i.scalars.length := by
  rw [scalarPc, scalarPc, List.take_add_one, hi, Option.toList_some, List.flatMap_append,
    List.length_append, List.flatMap_singleton]

theorem scalarPc_succ_single {p : Prototype} {n : Nat} {i : Instr} (hi : p.code[n]? = some i)
    (single : i.scalars = [i]) : p.scalarPc (n + 1) = p.scalarPc n + 1 := by
  rw [scalarPc_succ hi, single]
  rfl

/-- The parameter is staged from the same source, by one of the instructions that stand for the
one that stages it. -/
structure StagedAs (p : Prototype) (e e' : Staged) : Prop where
  source : e'.source = e.source
  first : p.scalarPc e.pc ≤ e'.pc
  last : e'.pc < p.scalarPc (e.pc + 1)

def scalarResult (p : Prototype) (r : ResultSpec) : ResultSpec := { r with pc := p.scalarPc r.pc }

/-- The call site is the same up to places. -/
structure CallAs (p : Prototype) (c c' : CallSite) : Prop where
  pc : c'.pc = p.scalarPc c.pc
  kind : c'.kind = c.kind
  callee : c'.callee = c.callee
  start : c'.window.start = c.window.start
  params : List.Forall₂ p.StagedAs c.window.params c'.window.params
  results : c'.results = c.results.map p.scalarResult

/-- The steps that stand for a step in the plan of the scalar body. -/
inductive Splits (p : Prototype) : Step → List Step → Prop where
  | plain (op : PlainOp) : p.Splits (.plain op) [.plain op]
  | stage {slot : Nat} {params params' : List Staged} (some : params ≠ [])
    (same : List.Forall₂ p.StagedAs params params') :
    p.Splits (.stage slot params) (Step.singles slot params')
  | call {c c' : CallSite} (same : p.CallAs c c') : p.Splits (.call c) [.call c']
  | result (r : ResultSpec) : p.Splits (.result r) [.result (p.scalarResult r)]
  | ret (site : ReturnSite) : p.Splits (.ret site) [.ret site]

end Prototype

structure Staging.ScalarizedBy (p : Prototype) (s s' : Staging) : Prop where
  entries : List.Forall₂ p.StagedAs s.entries s'.entries
  highWater : s'.highWater = s.highWater

structure Planning.ScalarizedBy (p : Prototype) (s s' : Planning) : Prop where
  staging : s.staging.ScalarizedBy p s'.staging
  pending : s'.pending = s.pending.map p.scalarResult
  mostResults : s'.mostResults = s.mostResults

variable {p : Prototype} {n : Nat} {i : Instr}

namespace Staging.ScalarizedBy

variable {s s' : Staging}

theorem pushAll {ps ps' : List Staged} (h : s.ScalarizedBy p s')
    (same : List.Forall₂ p.StagedAs ps ps') : (s.pushAll ps).ScalarizedBy p (s'.pushAll ps') := by
  induction same generalizing s s' with
  | nil => exact h
  | cons head _ ih =>
      refine ih ⟨?_, ?_⟩
      · rw [entries_push, entries_push]
        exact List.rel_append h.entries (.cons head .nil)
      · rw [highWater_push, highWater_push, h.highWater, h.entries.length_eq]

theorem take {pc count : Nat} {window : Window} {t : Staging} (h : s.ScalarizedBy p s')
    (taken : s.take pc count = .ok (window, t)) (pc' : Nat) : ∃ window' t',
      s'.take pc' count = .ok (window', t') ∧ window'.start = window.start ∧
        List.Forall₂ p.StagedAs window.params window'.params ∧ t.ScalarizedBy p t' := by
  have length := h.entries.length_eq
  rw [Staging.take] at taken
  split at taken
  · next enough =>
      cases taken
      refine ⟨_, _, if_pos (length ▸ enough), ?_, ?_, ?_, h.highWater⟩
      · rw [length]
      · rw [length]
        exact List.forall₂_drop _ h.entries
      · rw [length]
        exact List.forall₂_take _ h.entries
  · cases taken

end Staging.ScalarizedBy

theorem Prototype.resultSpecs_scalarized {count : Nat} {rest : List Instr} {rs : List ResultSpec}
    (hrest : p.code.drop n = rest) (h : p.resultSpecs n count rest = .ok rs) :
    p.scalarized.resultSpecs (p.scalarPc n) count (rest.flatMap Instr.scalars) =
      .ok (rs.map p.scalarResult) := by
  induction count generalizing n rest rs with
  | zero =>
      rw [resultSpecs] at h
      cases h
      rw [resultSpecs]
      rfl
  | succ count ih =>
      cases rest with
      | nil => cases h
      | cons i rest =>
          rw [resultSpecs] at h
          split at h
          · next hop =>
              obtain ⟨r, hr, h⟩ := bind_eq_ok h
              obtain ⟨rs₁, hrs, h⟩ := bind_eq_ok h
              cases h
              have hi : p.code[n]? = some i := by
                rw [← List.head?_drop, hrest]
                rfl
              have single : i.scalars = [i] := Instr.scalars_of_ne_param (by rw [hop]; decide)
              have place : r.pc = n := congrArg ResultSpec.pc
                (Except.ok.inj (hr.symm.trans (p.moves_resultSpec n n i r hr)))
              have received :
                  p.scalarized.resultSpec (p.scalarPc n) i = .ok (p.scalarResult r) := by
                rw [scalarResult, place]
                exact p.moves_resultSpec n (p.scalarPc n) i r hr
              have behind := ih (by rw [← List.tail_drop, hrest]; rfl) hrs
              rw [scalarPc_succ_single hi single] at behind
              rw [List.flatMap_cons, single, List.singleton_append, resultSpecs, if_pos hop,
                received]
              change (p.scalarized.resultSpecs (p.scalarPc n + 1) count _ >>= _) = _
              rw [behind]
              rfl
          · cases h

namespace Planning

variable {s s₁ s' : Planning} {step : Step} {rest : List Instr}

theorem ScalarizedBy.call {kind : CallKind} (h : s.ScalarizedBy p s') (hi : p.code[n]? = some i)
    (single : i.scalars = [i]) (hrest : p.code.drop (n + 1) = rest)
    (called : s.call p n kind i rest = .ok (step, s₁)) : ∃ step' s₁',
      s'.call p.scalarized (p.scalarPc n) kind i (rest.flatMap Instr.scalars) = .ok (step', s₁') ∧
        p.Splits step [step'] ∧ s₁.ScalarizedBy p s₁' := by
  rw [Planning.call] at called
  obtain ⟨callee, hcallee, called⟩ := bind_eq_ok called
  obtain ⟨⟨window, staging⟩, htake, called⟩ := bind_eq_ok called
  obtain ⟨results, hresults, called⟩ := bind_eq_ok called
  cases called
  obtain ⟨window', staging', htake', start, params, kept⟩ :=
    h.staging.take htake (p.scalarPc n)
  have hcallee' : p.scalarized.callee (p.scalarPc n) i = .ok callee :=
    p.moves_callee n (p.scalarPc n) i callee hcallee
  have hresults' : p.scalarized.callResults (p.scalarPc n) kind i (rest.flatMap Instr.scalars) =
      .ok (results.map p.scalarResult) := by
    cases kind with
    | tail =>
        cases hresults
        rfl
    | call =>
        have looked := Prototype.resultSpecs_scalarized hrest hresults
        rwa [Prototype.scalarPc_succ_single hi single] at looked
  refine ⟨.call ⟨p.scalarPc n, kind, callee, window', results.map p.scalarResult⟩,
    ⟨staging', s'.pending ++ results.map p.scalarResult,
      max s'.mostResults (results.map p.scalarResult).length⟩,
    ?_, .call ⟨rfl, rfl, rfl, start, params, rfl⟩, kept, ?_, ?_⟩
  · rw [Planning.call, hcallee']
    change (s'.staging.take (p.scalarPc n) i.b.toNat >>= _) = _
    rw [htake']
    change (p.scalarized.callResults (p.scalarPc n) kind i (rest.flatMap Instr.scalars) >>= _) = _
    rw [hresults']
    rfl
  · rw [h.pending, List.map_append]
  · rw [h.mostResults, List.length_map]

theorem ScalarizedBy.result (h : s.ScalarizedBy p s') (walked : s.result n = .ok (step, s₁)) :
    ∃ step' s₁', s'.result (p.scalarPc n) = .ok (step', s₁') ∧ p.Splits step [step'] ∧
      s₁.ScalarizedBy p s₁' := by
  rw [Planning.result] at walked
  split at walked
  · next r rs hpending =>
      split at walked
      · next place =>
          cases walked
          have moved : s'.pending = p.scalarResult r :: rs.map p.scalarResult := by
            rw [h.pending, hpending]
            rfl
          refine ⟨.result (p.scalarResult r), { s' with pending := rs.map p.scalarResult }, ?_,
            .result r, h.staging, rfl, h.mostResults⟩
          rw [Planning.result, moved, ← place]
          exact if_pos rfl
      · cases walked
  · cases walked

theorem ScalarizedBy.next (h : s.ScalarizedBy p s') (hi : p.code[n]? = some i)
    (hparam : i.op ≠ .param) (hrest : p.code.drop (n + 1) = rest)
    (walked : s.next p n i rest = .ok (step, s₁)) : ∃ step' s₁',
      s'.next p.scalarized (p.scalarPc n) i (rest.flatMap Instr.scalars) = .ok (step', s₁') ∧
        p.Splits step [step'] ∧ s₁.ScalarizedBy p s₁' := by
  have single := Instr.scalars_of_ne_param hparam
  have here := Prototype.scalarPc_succ_single hi single
  rw [Planning.next] at walked ⊢
  cases hop : i.op with
  | param => exact absurd hop hparam
  | call | callk =>
      rw [hop] at walked
      exact h.call hi single hrest walked
  | tail | tailk =>
      rw [hop] at walked
      exact h.call hi single hrest walked
  | parami =>
      rw [hop] at walked
      cases walked
      have same : List.Forall₂ p.StagedAs [⟨n, .imm i.sax⟩] [⟨p.scalarPc n, .imm i.sax⟩] :=
        .cons ⟨rfl, Nat.le_refl _, by rw [here]; exact Nat.lt_succ_self _⟩ .nil
      have split : p.Splits (.stage s.staging.entries.length [⟨n, .imm i.sax⟩])
          [.stage s.staging.entries.length [⟨p.scalarPc n, .imm i.sax⟩]] :=
        .stage (List.cons_ne_nil _ _) same
      refine ⟨_, _, rfl, ?_, h.staging.pushAll same, h.pending, h.mostResults⟩
      rwa [h.staging.entries.length_eq] at split ⊢
  | result =>
      rw [hop] at walked
      exact h.result walked
  | ret =>
      rw [hop] at walked
      obtain ⟨site, hsite, walked⟩ := bind_eq_ok walked
      cases walked
      have hsite' : p.scalarized.returnSite (p.scalarPc n) i = .ok site :=
        p.moves_returnSite n (p.scalarPc n) i site hsite
      refine ⟨_, _, ?_, .ret site, h⟩
      dsimp only
      rw [hsite']
      rfl
  | reti =>
      rw [hop] at walked
      cases walked
      exact ⟨_, _, rfl, .ret _, h⟩
  | _ =>
      rw [hop] at walked
      obtain ⟨op, hplain, walked⟩ := bind_eq_ok walked
      cases walked
      have hplain' : p.scalarized.plainOp (p.scalarPc n) i = .ok op :=
        p.moves_plainOp n (p.scalarPc n) i op hplain
      refine ⟨_, _, ?_, .plain op, h⟩
      dsimp only
      rw [hplain']
      rfl

end Planning

/-! ## Parameter instructions -/

def Prototype.StagesOne (p : Prototype) (i : Instr) (source : Source) : Prop :=
  i.op = .param ∧ ∃ t, RegType.ofBits? i.b = some t ∧
    ∀ pc, p.paramSources pc t i.c.toNat = .ok [source]

theorem Prototype.stagesOne_float {c : UInt8} {r : Nat} (hr : c.toNat = r)
    (has : p.HasReg .float r) : p.StagesOne (.param (.of .float) c) (.reg .float r) := by
  subst hr
  refine ⟨rfl, .of .float, RegType.ofBits?_bits_of .float .plain, fun pc => ?_⟩
  change ((p.checkReg pc .float c.toNat >>= _) >>= _) = _
  rw [(checkReg_eq_ok (u := ())).2 has]
  rfl

/-- The register of a component is one of the first 256, so its number fits in the operand. -/
theorem Prototype.HasReg.toNat_add {c : UInt8} {k : Nat} (has : p.HasReg .float (c.toNat + k)) :
    (c + UInt8.ofNat k).toNat = c.toNat + k := by
  have := has.2
  rw [UInt8.toNat_add, UInt8.toNat_ofNat', Nat.add_mod_mod]
  exact Nat.mod_eq_of_lt (by omega)

theorem Prototype.stagesOne_scalars {t : RegType} {sources : List Source} (hop : i.op = .param)
    (ht : RegType.ofBits? i.b = some t) (h : p.paramSources n t i.c.toNat = .ok sources) :
    List.Forall₂ p.StagesOne i.scalars sources := by
  have single : t.components = 1 → List.Forall₂ p.StagesOne i.scalars sources := by
    intro one
    have length := length_paramSources h
    rw [one] at length
    obtain ⟨source, rfl⟩ := List.length_eq_one_iff.1 length
    rw [Instr.scalars_of_components ht one]
    exact .cons ⟨hop, t, ht, fun pc => p.moves_paramSources n pc t _ _ h⟩ .nil
  rcases t with ⟨kind, modifier⟩
  cases modifier with
  | plain | constant | address => exact single rfl
  | pair =>
      rcases kind with (_ | _ | _ | _) | _
      · cases h
      · obtain ⟨_, hreg, h⟩ := bind_eq_ok h
        cases h
        have has := checkReg_last_eq_ok.1 hreg
        rw [Instr.scalars, hop, ht]
        exact .cons (stagesOne_float rfl (has 0 (by decide)))
          (.cons (stagesOne_float (has 1 (by decide)).toNat_add (has 1 (by decide))) .nil)
      · cases h
      · cases h
      · cases h
  | triple =>
      rcases kind with (_ | _ | _ | _) | _
      · cases h
      · obtain ⟨_, hreg, h⟩ := bind_eq_ok h
        cases h
        have has := checkReg_last_eq_ok.1 hreg
        rw [Instr.scalars, hop, ht]
        exact .cons (stagesOne_float rfl (has 0 (by decide)))
          (.cons (stagesOne_float (has 1 (by decide)).toNat_add (has 1 (by decide)))
            (.cons (stagesOne_float (has 2 (by decide)).toNat_add (has 2 (by decide))) .nil))
      · cases h
      · cases h
      · cases h

namespace Planning

variable {s s₁ s' : Planning} {step : Step} {rest : List Instr}

/-- Instructions that stage one parameter each. -/
theorem walk_stagesOne {code : List Instr} {sources : List Source}
    (one : List.Forall₂ p.StagesOne code sources) (s : Planning) (rest : List Instr) :
    ∃ params new, params.map Staged.source = sources ∧
      (∀ e ∈ params, n ≤ e.pc ∧ e.pc < n + code.length) ∧
      new.map Prod.fst = Step.singles s.staging.entries.length params ∧
      walk p n s (code ++ rest) =
        (walk p (n + code.length) { s with staging := s.staging.pushAll params } rest).map
          fun out => (new ++ out.1, out.2) := by
  induction one generalizing n s with
  | nil =>
      refine ⟨[], [], rfl, by simp, rfl, ?_⟩
      rw [List.nil_append]
      cases h : walk p n s rest <;> simp [h, Except.map]
  | @cons i source code sources head tail ih =>
      obtain ⟨hop, t, ht, hsources⟩ := head
      let e : Staged := ⟨n, source⟩
      have hnext : s.next p n i (code ++ rest) =
          .ok (.stage s.staging.entries.length [e], { s with staging := s.staging.push e }) := by
        rw [Planning.next, hop]
        change (Prototype.decode n i.b >>= _) = _
        rw [Prototype.decode_eq_ok.2 ht]
        change (p.paramSources n t i.c.toNat >>= _) = _
        rw [hsources n]
        rfl
      obtain ⟨params, new, hsource, places, hnew, hwalk⟩ :=
        ih (n := n + 1) { s with staging := s.staging.push e }
      refine ⟨e :: params, (.stage s.staging.entries.length [e],
          Planning.snapshot { s with staging := s.staging.push e }) :: new, ?_, ?_, ?_, ?_⟩
      · rw [List.map_cons, hsource]
      · intro e' he'
        rw [List.length_cons]
        rcases List.mem_cons.1 he' with rfl | he'
        · exact ⟨Nat.le_refl n, Nat.lt_add_of_pos_right (Nat.succ_pos _)⟩
        · obtain ⟨hle, hlt⟩ := places e' he'
          exact ⟨by omega, by omega⟩
      · rw [List.map_cons, hnew, Staging.entries_push, List.length_append]
        rfl
      · rw [List.cons_append, walk, hnext]
        change (walk p (n + 1) { s with staging := s.staging.push e } (code ++ rest) >>= _) = _
        have place : n + (code.length + 1) = n + 1 + code.length := by omega
        rw [hwalk, List.length_cons, Staging.pushAll_cons, place]
        cases walk p (n + 1 + code.length)
          { s with staging := (s.staging.push e).pushAll params } rest <;> rfl

/-- A parameter instruction is planned as the instructions that stand for it. -/
theorem ScalarizedBy.param {code : List Instr} (h : s.ScalarizedBy p s')
    (hi : p.code[n]? = some i) (hop : i.op = .param)
    (planned : s.next p n i code = .ok (step, s₁)) (rest : List Instr) : ∃ new s₁',
      p.Splits step (new.map Prod.fst) ∧ s₁.ScalarizedBy p s₁' ∧
        walk p.scalarized (p.scalarPc n) s' (i.scalars ++ rest) =
          (walk p.scalarized (p.scalarPc (n + 1)) s₁' rest).map
            fun out => (new ++ out.1, out.2) := by
  rw [Planning.next, hop] at planned
  obtain ⟨t, ht, planned⟩ := bind_eq_ok planned
  obtain ⟨sources, hsources, planned⟩ := bind_eq_ok planned
  cases planned
  have one : List.Forall₂ p.scalarized.StagesOne i.scalars sources :=
    Prototype.stagesOne_scalars hop (Prototype.ofBits?_of_decode ht) hsources
  obtain ⟨params, new, rfl, places, hnew, hwalk⟩ := walk_stagesOne (n := p.scalarPc n) one s' rest
  have same : List.Forall₂ p.StagedAs ((params.map Staged.source).map (Staged.mk n)) params := by
    rw [List.map_map, List.forall₂_map_left_iff, List.forall₂_same]
    intro e he
    obtain ⟨hle, hlt⟩ := places e he
    exact ⟨rfl, hle, Nat.lt_of_lt_of_eq hlt (Prototype.scalarPc_succ hi).symm⟩
  have some : (params.map Staged.source).map (Staged.mk n) ≠ [] := by
    have length := Prototype.length_paramSources hsources
    have pos : 0 < t.components := t.modifier.components_pos
    rw [List.ne_nil_iff_length_pos, List.length_map, length]
    exact pos
  have kept : ScalarizedBy p (s.stage n (params.map Staged.source)).2
      { s' with staging := s'.staging.pushAll params } :=
    ⟨h.staging.pushAll same, h.pending, h.mostResults⟩
  refine ⟨new, _, ?_, kept, ?_⟩
  · rw [hnew, ← h.staging.entries.length_eq]
    exact .stage some same
  · rw [hwalk, Prototype.scalarPc_succ hi]

/-- The instructions that stand for an instruction make the steps that stand for its step. -/
theorem ScalarizedBy.walk_scalars (h : s.ScalarizedBy p s') (hi : p.code[n]? = some i)
    (hrest : p.code.drop (n + 1) = rest) (planned : s.next p n i rest = .ok (step, s₁)) :
    ∃ new s₁', p.Splits step (new.map Prod.fst) ∧ s₁.ScalarizedBy p s₁' ∧
      walk p.scalarized (p.scalarPc n) s' (i.scalars ++ rest.flatMap Instr.scalars) =
        (walk p.scalarized (p.scalarPc (n + 1)) s₁' (rest.flatMap Instr.scalars)).map
          fun out => (new ++ out.1, out.2) := by
  by_cases hop : i.op = .param
  · exact h.param hi hop planned _
  · obtain ⟨step', s₁', planned', split, kept⟩ := h.next hi hop hrest planned
    have single := Instr.scalars_of_ne_param hop
    refine ⟨[(step', s₁'.snapshot)], s₁', split, kept, ?_⟩
    rw [Prototype.scalarPc_succ_single hi single, single, List.singleton_append, walk, planned']
    change (walk p.scalarized (p.scalarPc n + 1) s₁' (rest.flatMap Instr.scalars) >>= _) = _
    cases walk p.scalarized (p.scalarPc n + 1) s₁' (rest.flatMap Instr.scalars) <;> rfl

/-- The walk over the scalar body makes of each instruction the steps that stand for its step. -/
theorem walk_scalarized {code : List Instr} {steps : List (Step × Snapshot)} {last : Planning}
    (hcode : p.code.drop n = code) (h : s.ScalarizedBy p s')
    (walked : walk p n s code = .ok (steps, last)) : ∃ steps' news last',
      walk p.scalarized (p.scalarPc n) s' (code.flatMap Instr.scalars) = .ok (steps', last') ∧
        steps'.map Prod.fst = news.flatten ∧
        List.Forall₂ p.Splits (steps.map Prod.fst) news ∧ last.ScalarizedBy p last' := by
  induction code generalizing n s s' steps with
  | nil =>
      cases walked
      exact ⟨[], [], s', rfl, rfl, .nil, h⟩
  | cons i rest ih =>
      rw [walk] at walked
      obtain ⟨⟨step, s₁⟩, hnext, walked⟩ := bind_eq_ok walked
      obtain ⟨⟨steps₁, last₁⟩, hwalk, walked⟩ := bind_eq_ok walked
      cases walked
      have hi : p.code[n]? = some i := by
        rw [← List.head?_drop, hcode]
        rfl
      have hrest : p.code.drop (n + 1) = rest := by
        rw [← List.tail_drop, hcode]
        rfl
      obtain ⟨new, s₁', split, kept, first⟩ := h.walk_scalars hi hrest hnext
      obtain ⟨steps', news, last', hwalk', hnews, splits, hlast⟩ := ih hrest kept hwalk
      refine ⟨new ++ steps', new.map Prod.fst :: news, last', ?_, ?_, .cons split splits, hlast⟩
      · rw [List.flatMap_cons, first, hwalk']
        rfl
      · rw [List.map_append, hnews, List.flatten_cons]

end Planning

/-- The scalar body has a plan if the body has one. The layout is the same, and the steps are
those that stand for the steps of the body. -/
theorem Prototype.plan_scalarized {plan : Plan} (planned : p.plan = .ok plan) : ∃ plan' news,
    p.scalarized.plan = .ok plan' ∧ plan'.layout = plan.layout ∧
      plan'.steps = news.flatten ∧ List.Forall₂ p.Splits plan.steps news := by
  obtain ⟨steps, last, walked, hsteps, -, hlayout⟩ := plan_eq_ok planned
  have start : Planning.ScalarizedBy p {} {} := ⟨⟨.nil, rfl⟩, rfl, rfl⟩
  obtain ⟨steps', news, last', walked', hnews, splits, hlast⟩ :=
    Planning.walk_scalarized List.drop_zero start walked
  have hplan : p.scalarized.plan = .ok ⟨steps'.map (·.1),
      ⟨p.registers, UInt32.ofNat last'.staging.highWater, UInt32.ofNat last'.mostResults⟩,
      steps'.map (·.2)⟩ := by
    rw [Prototype.plan]
    change (Planning.walk p.scalarized (p.scalarPc 0) {} (p.code.flatMap Instr.scalars) >>= _) = _
    rw [walked']
    rfl
  refine ⟨_, news, hplan, ?_, hnews, hsteps ▸ splits⟩
  rw [hlayout, hlast.staging.highWater, hlast.mostResults]

theorem Step.call?_singles (slot : Nat) (params : List Staged) :
    (singles slot params).filterMap call? = [] := by
  induction params generalizing slot with
  | nil => rfl
  | cons e params ih => exact ih (slot + 1)

theorem Prototype.callAs_of_splits {plan plan' : Plan} {news : List (List Step)}
    (steps : plan'.steps = news.flatten) (h : List.Forall₂ p.Splits plan.steps news) :
    List.Forall₂ p.CallAs plan.calls plan'.calls := by
  rw [Plan.calls_eq, Plan.calls_eq, steps]
  clear steps
  generalize plan.steps = steps at h
  induction h with
  | nil => exact .nil
  | cons head _ ih =>
      rw [List.flatten_cons, List.filterMap_append]
      cases head with
      | call same => exact .cons same ih
      | stage some same =>
          rw [Step.call?_singles, List.nil_append]
          exact ih
      | plain op => exact ih
      | result r => exact ih
      | ret site => exact ih

end CallProtocol
