import CallProtocol.Proofs.ArgumentFidelity
import Mathlib.Data.List.Forall2

/-!
# Where the records of a call come from

The plan of a call knows the source of each of its parameters and the instruction that
stages it. What the callee is handed for the parameter is the record that the source gave
when that instruction was executed. This ties the window of a call site, which is found by
planning, to the states that its activation has gone through.

A source gives its record without looking at the machine, since the register variables are
in the activation and a text is passed on by its place.
-/

namespace CallProtocol

theorem Activation.stagedValue_eq (a : Activation) (m m' : Machine) (s : Source) :
    a.stagedValue m s = a.stagedValue m' s := by
  cases s with
  | reg b r => rw [stagedValue_reg, stagedValue_reg]
  | _ => rfl

/-- The record has been made for the staged parameter by the state of the activation in which
its instruction was executed. -/
def Staged.MadeIn (past : List Activation) (a : Activation) (e : Staged) (v : Value) : Prop :=
  ∃ a', past.reverse[e.pc]? = some a' ∧ a'.SameBody a ∧ ∀ m, v = a'.stagedValue m e.source

namespace Staged

variable {past : List Activation} {a a' : Activation}

theorem madeIn_cons (m : Machine) (source : Source) (same : a.SameBody a') :
    MadeIn (a :: past) a' ⟨past.length, source⟩ (a.stagedValue m source) := by
  refine ⟨a, ?_, same, fun m' => a.stagedValue_eq m m' source⟩
  rw [List.reverse_cons, List.getElem?_append_right (by simp)]
  simp

theorem MadeIn.mono {e : Staged} {v : Value} (h : MadeIn past a e v) (same : a.SameBody a') :
    MadeIn (a :: past) a' e v := by
  obtain ⟨b, hb, made, value⟩ := h
  refine ⟨b, ?_, made.trans same, value⟩
  rw [List.reverse_cons, List.getElem?_append_left (List.getElem?_eq_some_iff.1 hb).1, hb]

theorem MadeIn.address {e : Staged} {v : Value} {b : Bank} {r : Nat} (h : MadeIn past a e v)
    (source : e.source = .address b r) : v = .pointer (.slot (a.slot b r)) := by
  obtain ⟨a', -, same, value⟩ := h
  rw [value {}, source, Activation.slot, same.frame]
  rfl

theorem MadeIn.string {e : Staged} {v : Value} {r : Nat} (h : MadeIn past a e v)
    (source : e.source = .reg .string r) : v = .string (.register a.frame r) := by
  obtain ⟨a', -, same, value⟩ := h
  rw [value {}, source, same.frame]
  rfl

end Staged

namespace Reaches

variable {p : Program} {e : Entry} {f : FuncRef} {name : String} {h : Handover} {m₀ m : Machine}
  {past : List Activation} {a : Activation}

/-- The records that wait for a call are those of the entries that the plan has staged. -/
theorem recorded {steps : List Step}
    (reached : Reaches p (.entry e f name h) m₀ past (.body steps a) m) :
    ∃ s, a.proto.Carries past.length s ∧
      List.Forall₂ (Staged.MadeIn past a) s.staging.entries (a.proto.waiting past) := by
  refine reached.invariant (P := fun past _ a _ => ∃ s, a.proto.Carries past.length s ∧
    List.Forall₂ (Staged.MadeIn past a) s.staging.entries (a.proto.waiting past)) ?_ ?_ ?_
  · intro code name h m m₁ fr room
    exact ⟨{}, .start, .nil⟩
  · intro past s rest a a' m m₁ prior recorded step
    obtain ⟨t, ht, made⟩ := recorded
    obtain ⟨i, u, u', hi, hu, hnext⟩ := prior.position.step
    obtain rfl := ht.unique hu
    have same := Activation.sameBody_quiet step
    have kept := made.imp fun _ _ hmade => hmade.mono same
    rw [same.proto]
    refine ⟨u', ht.next hi hnext, ?_⟩
    rcases Planning.next_cases hnext with ⟨kind, c, -, rfl, -, -⟩ |
      ⟨sources, -, hop, hsources, -, hentries⟩ | ⟨hstages, hop, hstaging, -, -⟩
    · cases step
    · rw [Prototype.waiting_cons a hi hop, hentries, ← Activation.map_stagedValue hsources m]
      refine List.rel_append kept ?_
      rw [List.forall₂_map_left_iff, List.forall₂_map_right_iff, List.forall₂_same]
      exact fun source _ => Staged.madeIn_cons m source same
    · rw [Prototype.waiting_cons a hi hop, Activation.records_eq_nil hstages, List.append_nil,
        hstaging]
      exact kept
  · intro past c rest a m m₁ m₂ τ r prior recorded callee call resumes kind
    obtain ⟨t, ht, made⟩ := recorded
    obtain ⟨i, u, u', hi, hu, hnext⟩ := prior.position.step
    obtain rfl := ht.unique hu
    obtain ⟨hop, calls⟩ := Planning.calls_of_next hnext
    have same : a.SameBody (a.afterCall m₂ c) := a.sameBody_refresh m₂ _
    have kept := made.imp fun _ _ hmade => hmade.mono same
    rw [same.proto]
    refine ⟨u', ht.next hi hnext, ?_⟩
    rw [Prototype.waiting_call a hi hop, calls.entries, made.length_eq]
    exact List.forall₂_take _ kept

/-- The callee gets the records that have been made for the parameters in the window of the
call. -/
theorem handed {c : CallSite} {rest : List Step}
    (reached : Reaches p (.entry e f name h) m₀ past (.body (.call c :: rest) a) m) :
    List.Forall₂ (Staged.MadeIn past a) c.window.params (a.handoverFor c).params := by
  obtain ⟨t, ht, made⟩ := reached.recorded
  obtain ⟨i, u, u', hi, hu, hnext⟩ := reached.position.step
  obtain rfl := ht.unique hu
  obtain ⟨-, calls⟩ := Planning.calls_of_next hnext
  obtain ⟨v, hv, -, htake⟩ := reached.staged
  obtain rfl := ht.unique hv
  rw [Activation.params_handoverFor, calls.window, List.length_drop, ← List.drop_take, htake]
  exact List.forall₂_drop _ made

theorem handed_getElem? {c : CallSite} {rest : List Step}
    (reached : Reaches p (.entry e f name h) m₀ past (.body (.call c :: rest) a) m) {j : Nat}
    {q : Staged} (hq : c.window.params[j]? = some q) :
    ∃ v, (a.handoverFor c).params[j]? = some v ∧ q.MadeIn past a v := by
  have handed := reached.handed
  obtain ⟨hj, hget⟩ := List.getElem?_eq_some_iff.1 hq
  have hj' : j < (a.handoverFor c).params.length := by rwa [← handed.length_eq]
  refine ⟨_, List.getElem?_eq_getElem hj', ?_⟩
  rw [← hget]
  exact handed.get hj hj'

end Reaches

end CallProtocol
