import CallProtocol.Proofs.ReturnConfinement

/-!
# What a returned value makes of return storage

A returned value is a list of contents of one bank, and the first registers of that bank in
the storage of its slot are overwritten with them. There is none of this if the declared
type is of another kind or if the caller does not want so many values.

A setter of a host function refuses a value that is wider than declared, and compiled code
cuts it. Apart from that they write the same.
-/

namespace CallProtocol

open Machine

def Banks.overwrite (r : Banks) (b : Bank) : Nat → List b.Content → Banks
  | _, [] => r
  | k, x :: xs => (r.set b k x).overwrite b (k + 1) xs

theorem Owner.written_writesFrom (s : Slot) (k : Nat) (xs : List s.bank.Content) (r : Banks) :
    s.owner.written (Descriptor.writesFrom s k (xs.map (Cell.mk s.bank))) r =
      r.overwrite s.bank (s.reg + k) xs := by
  induction xs generalizing k r with
  | nil => rfl
  | cons x xs ih =>
      have head : r.write ⟨s.offset k, ⟨s.bank, x⟩⟩ = r.set s.bank (s.reg + k) x :=
        congrArg (r.set s.bank (s.reg + k)) (Cell.overlay_self s.bank _ x)
      refine (Owner.written_cons_of_eq (w := ⟨s.offset k, ⟨s.bank, x⟩⟩) rfl _ r).trans ?_
      rw [head, Banks.overwrite, Nat.add_assoc]
      exact ih (k + 1) _

theorem Machine.write_output {j : Nat} {ws : List Write} (h : ∀ w ∈ ws, w.slot.owner = .output j)
    (m : Machine) :
    m.write ws = { m with outputs := m.outputs.modify j (Owner.written (.output j) ws) } := by
  induction ws generalizing m with
  | nil =>
      rw [Owner.written_of_forall_ne (by simp), List.modify_id]
      rfl
  | cons w ws ih =>
      have howner := h w List.mem_cons_self
      have head : m.store w.slot w.cell = { m with outputs := m.outputs.modify j (·.write w) } := by
        rw [store, howner, modifyRegisters]
        rfl
      have written : Owner.written (.output j) (w :: ws) =
          Owner.written (.output j) ws ∘ (·.write w) :=
        funext fun r => Owner.written_cons_of_eq howner ws r
      have rest := ih (fun w' hw' => h w' (List.mem_cons_of_mem w hw')) (m.store w.slot w.cell)
      rw [write, List.foldl_cons, written, ← List.modify_modify_eq]
      exact rest.trans (by rw [head])

structure Returned where
  slot : Nat
  bank : Bank
  values : List bank.Content

namespace Returned

def cells (q : Returned) : List Cell := q.values.map (Cell.mk q.bank)

/-- What the value makes of storage for a value of type `t`. -/
def receive (q : Returned) (t : RegType) (r : Banks) : Banks :=
  if t.kind = .of q.bank then r.overwrite q.bank 0 (q.values.take t.components) else r

end Returned

namespace ReturnBuffer

/-- Compiled code goes by the kind of the declared type and cuts the value to its
width. -/
theorem give_descriptor (j : Nat) (t : RegType) (b : Bank) (cs : List Cell) :
    (descriptor j t).give b cs =
      if t.kind = .of b then Descriptor.writesFrom ⟨.output j, b, 0⟩ 0 (cs.take t.components)
      else [] := by
  cases hkind : t.kind with
  | nil =>
      rw [if_neg (by simp), Descriptor.give, Descriptor.writes, descriptor, hkind]
      split <;> rfl
  | of b' =>
      have takes := takes_descriptor hkind j
      rw [Descriptor.give, Descriptor.writes, takes.location, takes.width]
      by_cases hb : b' = b
      · subst hb
        rw [if_pos takes.tag, if_pos rfl]
      · have tag : (descriptor j t).type &&& RegType.bankMask ≠ b.tag :=
          fun tag => hb (takes.bank tag).symm
        rw [if_neg tag, if_neg fun heq => hb (Kind.of.inj heq)]

/-- A setter writes what compiled code does, unless the value is wider than declared. -/
theorem put_descriptor {t : RegType} {b : Bank} {xs : List b.Content}
    (fits : t.kind = .of b → xs.length ≤ t.components) (j : Nat) :
    (descriptor j t).put b xs = (descriptor j t).give b (xs.map (Cell.mk b)) := by
  rw [give_descriptor]
  cases hkind : t.kind with
  | nil =>
      rw [if_neg (by simp), Descriptor.put, Descriptor.writes, descriptor, hkind]
      split <;> rfl
  | of b' =>
      have takes := takes_descriptor hkind j
      rw [Descriptor.put, Descriptor.accepts, takes.regType?, Descriptor.writes, takes.location]
      by_cases hb : b' = b
      · subst hb
        have hlength : (xs.map (Cell.mk b')).length ≤ t.components := by
          rw [List.length_map]
          exact fits hkind
        rw [if_pos rfl, List.take_of_length_le hlength]
        simp [hkind, fits hkind]
      · rw [if_neg fun heq => hb (Kind.of.inj heq)]
        simp [hkind, hb]

/-- What compiled code makes of the storage with index `j` when it returns a value. -/
theorem written_give (q : Returned) (t : RegType) (j : Nat) (r : Banks) :
    Owner.written (.output j) ((descriptor q.slot t).give q.bank q.cells) r =
      if q.slot = j then q.receive t r else r := by
  rw [give_descriptor, Returned.receive, Returned.cells, ← List.map_take]
  by_cases hkind : t.kind = .of q.bank
  · rw [if_pos hkind, if_pos hkind]
    by_cases hslot : q.slot = j
    · subst hslot
      rw [if_pos rfl]
      exact Owner.written_writesFrom ⟨.output q.slot, q.bank, 0⟩ 0 _ r
    · rw [if_neg hslot, Owner.written_of_forall_ne]
      · rfl
      · intro w hw howner
        obtain ⟨i, -, hi, -⟩ := Descriptor.mem_writesFrom hw
        rw [hi] at howner
        exact hslot (Owner.output.inj howner)
  · rw [if_neg hkind, if_neg hkind]
    split <;> rfl

theorem write_put {q : Returned} {t : RegType}
    (fits : t.kind = .of q.bank → q.values.length ≤ t.components) (m : Machine) :
    m.write ((descriptor q.slot t).put q.bank q.values) =
      { m with outputs := m.outputs.modify q.slot (q.receive t) } := by
  rw [put_descriptor fits]
  have owner : ∀ w ∈ (descriptor q.slot t).give q.bank q.cells, w.slot.owner = .output q.slot := by
    intro w hw
    rw [give_descriptor] at hw
    split at hw
    · obtain ⟨i, -, hi, -⟩ := Descriptor.mem_writesFrom hw
      rw [hi]
      rfl
    · cases hw
  have written : Owner.written (.output q.slot) ((descriptor q.slot t).give q.bank q.cells) =
      q.receive t :=
    funext fun r => (written_give q t q.slot r).trans (if_pos rfl)
  rw [← written]
  exact write_output owner m

/-- The declared type of slot `j` of the caller, if it is among those that the caller wants.
Their number is a 32-bit int. -/
def wanted? (ts : List RegType) (j : Nat) : Option RegType :=
  if (j : Int) < (Int32.ofNat ts.length).toInt then ts[j]? else none

end ReturnBuffer

def Returned.arrive (q : Returned) (ts : List RegType) (j : Nat) (r : Banks) : Banks :=
  if q.slot = j then (ReturnBuffer.wanted? ts j).elim r (q.receive · r) else r

structure Activation.Serves (a : Activation) (ts : List RegType) : Prop where
  returns : a.handover.returns = (ReturnBuffer.ofTypes ts).descriptors
  wanted : a.handover.wanted = Int32.ofNat ts.length

namespace Activation

theorem Serves.of_sameBody {a a' : Activation} {ts : List RegType} (h : a.Serves ts)
    (same : a.SameBody a') : a'.Serves ts where
  returns := (congrArg Handover.returns same.handover).trans h.returns
  wanted := (congrArg Handover.wanted same.handover).trans h.wanted

/-- What a return makes of the storage. -/
theorem Serves.written_given {a : Activation} {ts : List RegType} (serves : a.Serves ts)
    {m : Machine} {site : ReturnSite} {q : Returned} (slot : q.slot = site.slot)
    (bank : q.bank = site.bank) (cells : q.cells = a.returnCells m site) (j : Nat) (r : Banks) :
    Owner.written (.output j) ((a.given m site).map (·.write)) r = q.arrive ts j r := by
  rw [given, wants, serves.returns, serves.wanted, ← slot, ← bank, ← cells,
    ReturnBuffer.descriptors_getElem?, Returned.arrive, ReturnBuffer.wanted?]
  by_cases hwanted : (q.slot : Int) < (Int32.ofNat ts.length).toInt
  · rw [if_pos (decide_eq_true hwanted)]
    cases ht : ts[q.slot]? with
    | none =>
        by_cases hslot : q.slot = j
        · subst hslot
          rw [if_pos rfl, if_pos hwanted, ht]
          rfl
        · rw [if_neg hslot]
          rfl
    | some t =>
        simp only [Option.map_some]
        rw [Descriptor.map_write_deliver, ReturnBuffer.written_give]
        by_cases hslot : q.slot = j
        · subst hslot
          rw [if_pos rfl, if_pos rfl, if_pos hwanted, ht]
          rfl
        · rw [if_neg hslot, if_neg hslot]
  · rw [if_neg (by simpa using hwanted)]
    by_cases hslot : q.slot = j
    · subst hslot
      rw [if_pos rfl, if_neg hwanted]
      rfl
    · rw [if_neg hslot]
      rfl

end Activation

end CallProtocol
