import CallProtocol.Proofs.Machine.Slots

/-!
# Where parameters land

The parameters of a call are dealt out to the first registers of their banks. So a
parameter lands in the register whose number is that of the parameters of its bank before
it, and nothing that comes behind it takes the register again.
-/

namespace CallProtocol

def Value.takes (b : Bank) (v : Value) : Bool := v.kind? = some (.of b)

namespace Frame

variable {text : TextRef → Option String} {next : Bank → Nat} {regs regs' : Banks}
  {params : List Value} {index : Nat}

theorem le_advance (next : Bank → Nat) (b c : Bank) : next c ≤ advance next b c := by
  rw [advance]
  split
  · exact Nat.le_succ _
  · exact Nat.le_refl _

theorem get_fill_of_lt (h : fill text index next regs params = .ok regs') {b : Bank} {i : Nat}
    (hi : i < next b) : regs'.get b i = regs.get b i := by
  induction params generalizing index next regs with
  | nil =>
      cases h
      rfl
  | cons v params ih =>
      rw [fill] at h
      split at h
      · cases h
      · exact ih h hi
      · next c hc =>
          split at h
          · refine (ih h (Nat.lt_of_lt_of_le hi (le_advance next c b))).trans ?_
            refine Banks.get_set_of_ne _ _ ?_
            rintro heq
            obtain ⟨rfl, hreg⟩ := Prod.mk.inj heq
            exact Nat.ne_of_gt hi hreg
          · cases h

/-- A parameter lands in the first register of its bank that none of those before it has
taken. -/
theorem get_fill (h : fill text index next regs params = .ok regs') {j : Nat} {v : Value}
    (hv : params[j]? = some v) {b : Bank} (hb : v.kind? = some (.of b)) :
    regs'.get b (next b + (params.take j).countP (Value.takes b)) = v.contentFor text b := by
  induction params generalizing index next regs j with
  | nil => cases hv
  | cons w params ih =>
      rw [fill] at h
      cases j with
      | zero =>
          obtain rfl := Option.some.inj hv
          rw [hb] at h
          dsimp only at h
          split at h
          · next room =>
              have taken : next b < advance next b b := by
                rw [advance, if_pos rfl]
                exact Nat.lt_succ_self _
              exact (get_fill_of_lt h taken).trans (Banks.get_set_self _ _ _ _ room)
          · cases h
      | succ j =>
          rw [List.take_succ_cons, List.countP_cons]
          split at h
          · cases h
          · next hw =>
              have untaken : w.takes b = false := by simp [Value.takes, hw]
              simpa [untaken] using ih h hv
          · next c hc =>
              split at h
              · have counted : advance next c b = next b + if w.takes b then 1 else 0 := by
                  by_cases hcb : b = c
                  · simp [advance, Value.takes, hc, hcb]
                  · simp [advance, Value.takes, hc, hcb, Ne.symm hcb]
                have landed := ih h hv
                rwa [counted, Nat.add_assoc, Nat.add_comm (if w.takes b then 1 else 0)] at landed
              · cases h

end Frame

namespace Machine

/-- What a callee finds in the register that a parameter lands in. -/
theorem load_push {m m' : Machine} {layout : FrameLayout} {params : List Value} {fr : Frame}
    (room : m.push layout params = .ok (fr, m')) {j : Nat} {v : Value}
    (hv : params[j]? = some v) {b : Bank} (hb : v.kind? = some (.of b)) :
    m'.load ⟨.frame fr.serial, b, (params.take j).countP (Value.takes b)⟩ =
      v.contentFor m.text b := by
  have registers : m'.registers? (.frame fr.serial) = some fr.registers := by
    obtain ⟨-, rfl⟩ := push_eq_ok room
    simp [registers?]
  rw [push, Frame.ofParams] at room
  cases hfill : Frame.fill m.text 0 (fun _ => 0) (.blank layout.registers) params with
  | error e =>
      rw [hfill] at room
      cases room
  | ok regs =>
      rw [hfill] at room
      cases room
      have landed := Frame.get_fill hfill hv hb
      rw [Nat.zero_add] at landed
      rw [load, registers]
      exact landed

end Machine

end CallProtocol
