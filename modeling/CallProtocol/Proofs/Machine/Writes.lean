import CallProtocol.Proofs.Machine.Slots

/-!
# Writes in their order

Several writes may go to one slot, and a write may change a part of the bits only. So what
a slot holds after a list of writes is a fold of `Cell.overlay` over those of them that go
to it. `Owner.written` says the same of all registers of one owner at once, which also
tells how many they are.
-/

namespace CallProtocol

namespace Banks

/-- The registers after a write to one of them. Which owner the write is for is left
aside. -/
def write (r : Banks) (w : Write) : Banks :=
  r.set w.slot.bank w.slot.reg
    (Cell.overlay w.slot.bank (r.get w.slot.bank w.slot.reg) w.cell)

theorem get_of_size_le {r : Banks} {b : Bank} {i : Nat} (h : r.size b ≤ i) :
    r.get b i = b.blank := by
  rw [get, List.getElem?_eq_none h]
  rfl

@[simp] theorem size_write (r : Banks) (w : Write) (b : Bank) : (r.write w).size b = r.size b :=
  r.size_set _ b _ _

end Banks

def Owner.written (o : Owner) (ws : List Write) (r : Banks) : Banks :=
  (ws.filter fun w => w.slot.owner = o).foldl Banks.write r

def Slot.written (σ : Slot) (ws : List Write) (x : σ.bank.Content) : σ.bank.Content :=
  (ws.filter fun w => w.slot = σ).foldl (fun x w => Cell.overlay σ.bank x w.cell) x

namespace Slot

theorem written_append (σ : Slot) (ws ws' : List Write) (x : σ.bank.Content) :
    σ.written (ws ++ ws') x = σ.written ws' (σ.written ws x) := by
  rw [written, written, written, List.filter_append, List.foldl_append]

theorem written_of_forall_ne {σ : Slot} {ws : List Write} (h : ∀ w ∈ ws, w.slot ≠ σ)
    (x : σ.bank.Content) : σ.written ws x = x := by
  have hnone : ws.filter (fun w => w.slot = σ) = [] :=
    List.filter_eq_nil_iff.2 fun w hw => by simpa using h w hw
  rw [written, hnone]
  rfl

theorem written_cons_of_eq (w : Write) (ws : List Write) (x : w.slot.bank.Content) :
    w.slot.written (w :: ws) x = w.slot.written ws (Cell.overlay w.slot.bank x w.cell) := by
  rw [written, List.filter_cons_of_pos (by simp)]
  rfl

theorem written_cons_of_ne {σ : Slot} {w : Write} (h : w.slot ≠ σ) (ws : List Write)
    (x : σ.bank.Content) : σ.written (w :: ws) x = σ.written ws x := by
  rw [written, List.filter_cons_of_neg (by simpa using h)]
  rfl

/-- If all writes to a slot write the same content of its bank, then that is what it holds. -/
theorem written_of_forall_eq {σ : Slot} {ws : List Write} {y : σ.bank.Content}
    (hall : ∀ w ∈ ws, w.slot = σ → w.cell = ⟨σ.bank, y⟩) (hmem : ∃ w ∈ ws, w.slot = σ)
    (x : σ.bank.Content) : σ.written ws x = y := by
  induction ws generalizing x with
  | nil =>
      obtain ⟨w, hw, -⟩ := hmem
      cases hw
  | cons w ws ih =>
      have hrest := fun w' hw' => hall w' (List.mem_cons_of_mem w hw')
      by_cases hlater : ∃ w' ∈ ws, w'.slot = σ
      · by_cases hslot : w.slot = σ
        · subst hslot
          rw [written_cons_of_eq]
          exact ih hrest hlater _
        · rw [written_cons_of_ne hslot]
          exact ih hrest hlater x
      · -- the head is the only write to the slot
        have hslot : w.slot = σ := by
          obtain ⟨w', hw', hslot'⟩ := hmem
          rcases List.mem_cons.1 hw' with rfl | hw'
          · exact hslot'
          · exact absurd ⟨w', hw', hslot'⟩ hlater
        subst hslot
        rw [written_cons_of_eq, hall w List.mem_cons_self rfl, Cell.overlay_self]
        exact written_of_forall_ne (fun w' hw' hslot' => hlater ⟨w', hw', hslot'⟩) y

theorem written_last (σ : Slot) (ws : List Write) {ws' : List Write} {y : σ.bank.Content}
    (hlast : ∀ w ∈ ws', w.slot ≠ σ) (x : σ.bank.Content) :
    σ.written (ws ++ ⟨σ, ⟨σ.bank, y⟩⟩ :: ws') x = y := by
  rw [written_append]
  refine (written_cons_of_eq ⟨σ, ⟨σ.bank, y⟩⟩ ws' _).trans ?_
  rw [Cell.overlay_self, written_of_forall_ne hlast]

end Slot

namespace Owner

theorem written_append (o : Owner) (ws ws' : List Write) (r : Banks) :
    o.written (ws ++ ws') r = o.written ws' (o.written ws r) := by
  rw [written, written, written, List.filter_append, List.foldl_append]

theorem written_of_forall_ne {o : Owner} {ws : List Write} (h : ∀ w ∈ ws, w.slot.owner ≠ o) :
    o.written ws = id := by
  have hnone : ws.filter (fun w => w.slot.owner = o) = [] :=
    List.filter_eq_nil_iff.2 fun w hw => by simpa using h w hw
  funext r
  rw [written, hnone]
  rfl

theorem written_cons_of_eq {o : Owner} {w : Write} (h : w.slot.owner = o) (ws : List Write)
    (r : Banks) : o.written (w :: ws) r = o.written ws (r.write w) := by
  rw [written, List.filter_cons_of_pos (by simpa using h)]
  rfl

theorem written_cons_of_ne {o : Owner} {w : Write} (h : w.slot.owner ≠ o) (ws : List Write)
    (r : Banks) : o.written (w :: ws) r = o.written ws r := by
  rw [written, List.filter_cons_of_neg (by simpa using h)]
  rfl

@[simp] theorem size_written (o : Owner) (ws : List Write) (r : Banks) (b : Bank) :
    (o.written ws r).size b = r.size b := by
  induction ws generalizing r with
  | nil => rfl
  | cons w ws ih =>
      by_cases h : w.slot.owner = o
      · rw [written_cons_of_eq h, ih, Banks.size_write]
      · rw [written_cons_of_ne h, ih]

theorem get_written {σ : Slot} {r : Banks} (h : σ.reg < r.size σ.bank) (ws : List Write) :
    (σ.owner.written ws r).get σ.bank σ.reg = σ.written ws (r.get σ.bank σ.reg) := by
  induction ws generalizing r with
  | nil => rfl
  | cons w ws ih =>
      by_cases hslot : w.slot = σ
      · subst hslot
        rw [written_cons_of_eq rfl, Slot.written_cons_of_eq, ih (by rwa [Banks.size_write]),
          Banks.write, Banks.get_set_self _ _ _ _ h]
      · rw [Slot.written_cons_of_ne hslot]
        by_cases howner : w.slot.owner = σ.owner
        · have hkept : (r.write w).get σ.bank σ.reg = r.get σ.bank σ.reg := by
            refine Banks.get_set_of_ne _ _ fun heq => hslot ?_
            obtain ⟨hbank, hreg⟩ := Prod.mk.inj heq
            rcases hw : w.slot with ⟨o, b, i⟩
            rcases σ with ⟨o', b', i'⟩
            rw [hw] at howner hbank hreg
            simp only at howner hbank hreg
            rw [howner, hbank, hreg]
          rw [written_cons_of_eq howner, ih (by rwa [Banks.size_write]), hkept]
        · rw [written_cons_of_ne howner]
          exact ih h

theorem get_written_of_forall_ne {σ : Slot} {ws : List Write} (h : ∀ w ∈ ws, w.slot ≠ σ)
    (r : Banks) : (σ.owner.written ws r).get σ.bank σ.reg = r.get σ.bank σ.reg := by
  by_cases hreg : σ.reg < r.size σ.bank
  · rw [get_written hreg, Slot.written_of_forall_ne h]
  · have hle := Nat.not_lt.1 hreg
    rw [Banks.get_of_size_le hle, Banks.get_of_size_le (by rwa [size_written])]

end Owner

namespace Machine

theorem registers?_store (m : Machine) (s : Slot) (c : Cell) (o : Owner) :
    (m.store s c).registers? o = (m.registers? o).map (o.written [⟨s, c⟩]) := by
  rw [store, registers?_modifyRegisters]
  by_cases h : s.owner = o
  · rw [if_pos h]
    congr 1
    funext r
    rw [Owner.written_cons_of_eq h]
    rfl
  · rw [if_neg h, Owner.written_of_forall_ne (by simpa using h), Option.map_id_apply]

theorem map_written_append (r : Option Banks) (o : Owner) (ws ws' : List Write) :
    (r.map (o.written ws)).map (o.written ws') = r.map (o.written (ws ++ ws')) := by
  rw [Option.map_map]
  refine congrArg (fun f => r.map f) ?_
  funext regs
  exact (o.written_append ws ws' regs).symm

theorem registers?_write (m : Machine) (ws : List Write) (o : Owner) :
    (m.write ws).registers? o = (m.registers? o).map (o.written ws) := by
  induction ws generalizing m with
  | nil => exact (Option.map_id_apply).symm
  | cons w ws ih =>
      have hrest := ih (m.store w.slot w.cell)
      rw [registers?_store, map_written_append] at hrest
      exact hrest

theorem load_of_written {m m' : Machine} {ws : List Write} {σ : Slot} {r : Banks}
    (hr : m.registers? σ.owner = some r) (hreg : σ.reg < r.size σ.bank)
    (h : m'.registers? σ.owner = (m.registers? σ.owner).map (σ.owner.written ws)) :
    m'.load σ = σ.written ws (m.load σ) := by
  rw [load, load, h, hr]
  exact Owner.get_written hreg ws

theorem load_of_unwritten {m m' : Machine} {ws : List Write} {σ : Slot}
    (h : m'.registers? σ.owner = (m.registers? σ.owner).map (σ.owner.written ws))
    (unwritten : ∀ w ∈ ws, w.slot ≠ σ) : m'.load σ = m.load σ := by
  rw [load, load, h]
  cases m.registers? σ.owner with
  | none => rfl
  | some r => exact Owner.get_written_of_forall_ne unwritten r

end Machine

end CallProtocol
