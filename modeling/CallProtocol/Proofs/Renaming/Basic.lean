import CallProtocol.Program
import CallProtocol.Proofs.Machine.Writes
import Mathlib.Data.List.Forall2
import Mathlib.Logic.Relator

/-!
# Renamed frames

The serial number of a frame is a name. Two runs that push their frames at different times
give them different names, and the addresses of slots in one run are then not those in the
other. `Renaming` says which frames of one run stand for which frames of another, and
everything that can hold an address is compared up to such a renaming.

A frame of one run may stand for no frame of the other. Then no address leads to it in
anything that is compared.

A program is `Portable` if it does the same under every renaming: it holds no address of a
frame by itself, and its natives treat the addresses they get as names.
-/

namespace CallProtocol

/-- Which frames of one run stand for which frames of another. -/
structure Renaming where
  frame : Nat → Nat → Prop
  unique : Relator.BiUnique frame

namespace Renaming

def symm (ρ : Renaming) : Renaming where
  frame s t := ρ.frame t s
  unique := ⟨fun _ _ _ h h' => ρ.unique.2 h h', fun _ _ _ h h' => ρ.unique.1 h h'⟩

/-! ## What is compared -/

inductive SameOwner (ρ : Renaming) : Owner → Owner → Prop
  | frame {s t : Nat} (h : ρ.frame s t) : SameOwner ρ (.frame s) (.frame t)
  | output (i : Nat) : SameOwner ρ (.output i) (.output i)

inductive SameSlot (ρ : Renaming) : Slot → Slot → Prop
  | mk {o o' : Owner} (h : ρ.SameOwner o o') (b : Bank) (r : Nat) :
    SameSlot ρ ⟨o, b, r⟩ ⟨o', b, r⟩

inductive SamePointer (ρ : Renaming) : Pointer → Pointer → Prop
  | address (a : UInt64) : SamePointer ρ (.address a) (.address a)
  | function (f : FuncRef) : SamePointer ρ (.function f) (.function f)
  | slot {s s' : Slot} (h : ρ.SameSlot s s') : SamePointer ρ (.slot s) (.slot s')

def SameContent (ρ : Renaming) : (b : Bank) → b.Content → b.Content → Prop
  | .pointer => ρ.SamePointer
  | _ => Eq

inductive SameCell (ρ : Renaming) : Cell → Cell → Prop
  | mk (b : Bank) {x y : b.Content} (h : ρ.SameContent b x y) : SameCell ρ ⟨b, x⟩ ⟨b, y⟩

structure SameBanks (ρ : Renaming) (r r' : Banks) : Prop where
  size : ∀ b, r.size b = r'.size b
  get : ∀ b i, ρ.SameContent b (r.get b i) (r'.get b i)

structure SameWrite (ρ : Renaming) (w w' : Write) : Prop where
  slot : ρ.SameSlot w.slot w'.slot
  cell : ρ.SameCell w.cell w'.cell

structure SameDescriptor (ρ : Renaming) (d d' : Descriptor) : Prop where
  location : Option.Rel ρ.SameSlot d.location d'.location
  type : d.type = d'.type

inductive SameArg (ρ : Renaming) : Arg → Arg → Prop
  | nil : SameArg ρ .nil .nil
  | of {c c' : Cell} (h : ρ.SameCell c c') : SameArg ρ (.of c) (.of c')

inductive SameLogEntry (ρ : Renaming) : LogEntry → LogEntry → Prop
  | native (i n : Nat) {args args' : List (Option Arg)} (types : List (Option RegType))
    (h : List.Forall₂ (Option.Rel ρ.SameArg) args args') :
    SameLogEntry ρ (.native i n args types) (.native i n args' types)
  | entry (f : FuncRef) {args args' : List (Option Arg)}
    (h : List.Forall₂ (Option.Rel ρ.SameArg) args args') :
    SameLogEntry ρ (.entry f args) (.entry f args')

/-- Host functions that ask for the same things, and go on in the same way if they get the
same answers. -/
inductive SameHost (ρ : Renaming) : Host → Host → Prop
  | finish (count : Int32) : SameHost ρ (.finish count) (.finish count)
  | abort (a : Abort) : SameHost ρ (.abort a) (.abort a)
  | panic (p : Panic) : SameHost ρ (.panic p) (.panic p)
  | put (slot : Nat) (b : Bank) {xs ys : List b.Content} {next next' : Host}
    (values : List.Forall₂ (ρ.SameContent b) xs ys) (h : SameHost ρ next next') :
    SameHost ρ (.put slot b xs next) (.put slot b ys next')
  | arg (i : Nat) {next next' : Option Arg → Host}
    (h : ∀ g g', Option.Rel ρ.SameArg g g' → SameHost ρ (next g) (next' g')) :
    SameHost ρ (.arg i next) (.arg i next')
  | load {o o' : Owner} (owner : ρ.SameOwner o o') (b : Bank) (r : Nat)
    {next next' : b.Content → Host}
    (h : ∀ x y, ρ.SameContent b x y → SameHost ρ (next x) (next' y)) :
    SameHost ρ (.load ⟨o, b, r⟩ next) (.load ⟨o', b, r⟩ next')
  | store {o o' : Owner} (owner : ρ.SameOwner o o') (b : Bank) (r : Nat) {x y : b.Content}
    {next next' : Host} (value : ρ.SameContent b x y) (h : SameHost ρ next next') :
    SameHost ρ (.store ⟨o, b, r⟩ x next) (.store ⟨o', b, r⟩ y next')
  | note {e e' : LogEntry} {next next' : Host} (entry : ρ.SameLogEntry e e')
    (h : SameHost ρ next next') : SameHost ρ (.note e next) (.note e' next')

variable {ρ : Renaming}

/-! ## The other way round -/

theorem SameOwner.symm {o o' : Owner} (h : ρ.SameOwner o o') : ρ.symm.SameOwner o' o := by
  cases h with
  | frame h => exact .frame h
  | output i => exact .output i

theorem SameSlot.symm {s s' : Slot} (h : ρ.SameSlot s s') : ρ.symm.SameSlot s' s := by
  cases h with
  | mk h b r => exact .mk h.symm b r

theorem SamePointer.symm {p p' : Pointer} (h : ρ.SamePointer p p') : ρ.symm.SamePointer p' p := by
  cases h with
  | address a => exact .address a
  | function f => exact .function f
  | slot h => exact .slot h.symm

theorem SameContent.symm {b : Bank} {x y : b.Content} (h : ρ.SameContent b x y) :
    ρ.symm.SameContent b y x := by
  cases b with
  | pointer => exact SamePointer.symm h
  | int | float | string => exact Eq.symm h

theorem SameCell.symm {c c' : Cell} (h : ρ.SameCell c c') : ρ.symm.SameCell c' c := by
  cases h with
  | mk b h => exact .mk b h.symm

theorem SameBanks.symm {r r' : Banks} (h : ρ.SameBanks r r') : ρ.symm.SameBanks r' r where
  size b := (h.size b).symm
  get b i := (h.get b i).symm

theorem SameWrite.symm {w w' : Write} (h : ρ.SameWrite w w') : ρ.symm.SameWrite w' w :=
  ⟨h.slot.symm, h.cell.symm⟩

theorem SameArg.symm {a a' : Arg} (h : ρ.SameArg a a') : ρ.symm.SameArg a' a := by
  cases h with
  | nil => exact .nil
  | of h => exact .of h.symm

theorem optionRel_symm {α : Type} {R S : α → α → Prop} (hRS : ∀ {x y}, R x y → S y x)
    {o o' : Option α} (h : Option.Rel R o o') : Option.Rel S o' o := by
  cases h with
  | none => exact .none
  | some h => exact .some (hRS h)

theorem getElem?_rel {α : Type} {R : α → α → Prop} {xs ys : List α} (h : List.Forall₂ R xs ys)
    (i : Nat) : Option.Rel R xs[i]? ys[i]? := by
  induction h generalizing i with
  | nil => exact .none
  | cons hxy _ ih =>
      cases i with
      | zero => exact .some hxy
      | succ i => exact ih i

theorem rel_set {α : Type} {R : α → α → Prop} {xs ys : List α} (h : List.Forall₂ R xs ys) (i : Nat)
    {x y : α} (hxy : R x y) : List.Forall₂ R (xs.set i x) (ys.set i y) := by
  induction h generalizing i with
  | nil => exact .nil
  | cons h hs ih =>
      cases i with
      | zero => exact .cons hxy hs
      | succ i => exact .cons h (ih i)

theorem SameDescriptor.symm {d d' : Descriptor} (h : ρ.SameDescriptor d d') :
    ρ.symm.SameDescriptor d' d :=
  ⟨optionRel_symm SameSlot.symm h.location, h.type.symm⟩

theorem SameLogEntry.symm {e e' : LogEntry} (h : ρ.SameLogEntry e e') :
    ρ.symm.SameLogEntry e' e := by
  cases h with
  | native i n types h => exact .native i n types (h.flip.imp fun _ _ => optionRel_symm SameArg.symm)
  | entry f h => exact .entry f (h.flip.imp fun _ _ => optionRel_symm SameArg.symm)

theorem SameSlot.owner {s s' : Slot} (h : ρ.SameSlot s s') : ρ.SameOwner s.owner s'.owner := by
  cases h with
  | mk h b r => exact h

theorem SameSlot.offset {s s' : Slot} (h : ρ.SameSlot s s') (k : Nat) :
    ρ.SameSlot (s.offset k) (s'.offset k) := by
  cases h with
  | mk h b r => exact .mk h b (r + k)

theorem SameOwner.eq_iff {o₁ o₂ o₁' o₂' : Owner} (h₁ : ρ.SameOwner o₁ o₁')
    (h₂ : ρ.SameOwner o₂ o₂') : o₁ = o₂ ↔ o₁' = o₂' := by
  cases h₁ with
  | output i =>
      cases h₂ with
      | output j => rfl
      | frame h₂ => exact ⟨nofun, nofun⟩
  | frame h₁ =>
      cases h₂ with
      | output j => exact ⟨nofun, nofun⟩
      | frame h₂ =>
          rw [Owner.frame.injEq, Owner.frame.injEq]
          constructor
          · rintro rfl
            exact ρ.unique.2 h₁ h₂
          · rintro rfl
            exact ρ.unique.1 h₁ h₂

theorem frame_ne_left {s s' k : Nat} (h : ρ.frame s s') (hk : ∀ k', ¬ ρ.frame k k') :
    Owner.frame k ≠ .frame s := by
  rintro heq
  cases heq
  exact hk s' h

theorem frame_ne_right {s s' k : Nat} (h : ρ.frame s s') (hk : ∀ k', ¬ ρ.frame k' k) :
    Owner.frame k ≠ .frame s' := by
  rintro heq
  cases heq
  exact hk s h

/-- What is written on both sides is in no frame that stands for none of the other. -/
theorem SameWrite.owner_ne {ws ws' : List Write} (h : List.Forall₂ ρ.SameWrite ws ws') {s : Nat}
    (hs : ∀ s', ¬ ρ.frame s s') : ∀ w ∈ ws, w.slot.owner ≠ .frame s := by
  induction h with
  | nil => exact nofun
  | @cons w w' ws ws' hw hws ih =>
      refine List.forall_mem_cons.2 ⟨fun heq => ?_, ih⟩
      have howner := hw.slot.owner
      rw [heq] at howner
      generalize w'.slot.owner = o' at howner
      cases howner with
      | frame hframe => exact hs _ hframe

/-! ## Contents -/

theorem SameContent.blank (b : Bank) : ρ.SameContent b b.blank b.blank := by
  cases b with
  | pointer => exact .address 0
  | int | float | string => exact Eq.refl _

theorem SamePointer.isNull_eq {p p' : Pointer} (h : ρ.SamePointer p p') :
    p.isNull = p'.isNull := by
  cases h <;> rfl

theorem SamePointer.function?_eq {p p' : Pointer} (h : ρ.SamePointer p p') :
    p.function? = p'.function? := by
  cases h <;> rfl

theorem SameCell.as? {c c' : Cell} (h : ρ.SameCell c c') (b : Bank) :
    Option.Rel (ρ.SameContent b) (c.as? b) (c'.as? b) := by
  cases h with
  | mk b' h =>
      by_cases hb : b' = b
      · subst hb
        rw [Cell.as?_self, Cell.as?_self]
        exact .some h
      · rw [Cell.as?_eq_none _ b hb, Cell.as?_eq_none _ b hb]
        exact .none

theorem SameCell.bits?_eq {c c' : Cell} (h : ρ.SameCell c c') : c.bits? = c'.bits? := by
  cases h with
  | mk b h =>
      cases b with
      | pointer => cases h <;> rfl
      | int | float | string =>
          obtain rfl := h
          rfl

theorem SameContent.overlay {b : Bank} {old old' : b.Content} {c c' : Cell}
    (h : ρ.SameContent b old old') (hc : ρ.SameCell c c') :
    ρ.SameContent b (Cell.overlay b old c) (Cell.overlay b old' c') := by
  have hbits := hc.bits?_eq
  have has := hc.as? b
  rw [Cell.overlay, Cell.overlay, hbits]
  generalize c'.bits? = bits
  generalize c.as? b = x at has
  generalize c'.as? b = y at has
  cases has with
  | some hxy => exact hxy
  | none =>
      cases b with
      | int | float | string =>
          obtain rfl := h
          exact Eq.refl _
      | pointer =>
          cases h with
          | address a => cases bits <;> exact .address _
          | function f => exact .function f
          | slot h => exact .slot h

/-! ## Registers -/

namespace SameBanks

variable {r r' : Banks}

theorem blank (counts : RegisterCounts) : ρ.SameBanks (.blank counts) (.blank counts) where
  size _ := rfl
  get b i := by
    rw [Banks.get_blank]
    exact .blank b

theorem set (h : ρ.SameBanks r r') {b : Bank} (i : Nat) {x y : b.Content}
    (hxy : ρ.SameContent b x y) : ρ.SameBanks (r.set b i x) (r'.set b i y) where
  size c := by rw [Banks.size_set, Banks.size_set, h.size c]
  get c j := by
    by_cases hreg : (b, i) = (c, j)
    · cases hreg
      by_cases hi : i < r.size b
      · rw [Banks.get_set_self _ _ _ _ hi, Banks.get_set_self _ _ _ _ (h.size b ▸ hi)]
        exact hxy
      · have hle := Nat.not_lt.1 hi
        rw [Banks.get_of_size_le (by rwa [Banks.size_set]),
          Banks.get_of_size_le (by rwa [Banks.size_set, ← h.size b])]
        exact .blank b
    · rw [Banks.get_set_of_ne _ _ hreg, Banks.get_set_of_ne _ _ hreg]
      exact h.get c j

theorem write (h : ρ.SameBanks r r') {w w' : Write} (hw : ρ.SameWrite w w') :
    ρ.SameBanks (r.write w) (r'.write w') := by
  obtain ⟨slot, cell⟩ := w
  obtain ⟨slot', cell'⟩ := w'
  obtain ⟨hslot, hcell⟩ := hw
  cases hslot with
  | mk howner b i => exact h.set i ((h.get b i).overlay hcell)

theorem written {o o' : Owner} (howner : ρ.SameOwner o o') {ws ws' : List Write}
    (hws : List.Forall₂ ρ.SameWrite ws ws') (h : ρ.SameBanks r r') :
    ρ.SameBanks (o.written ws r) (o'.written ws' r') := by
  induction hws generalizing r r' with
  | nil => exact h
  | @cons w w' ws ws' hw hws ih =>
      have hsame := hw.slot.owner
      by_cases ho : w.slot.owner = o
      · rw [Owner.written_cons_of_eq ho, Owner.written_cons_of_eq ((hsame.eq_iff howner).1 ho)]
        exact ih (h.write hw)
      · rw [Owner.written_cons_of_ne ho,
          Owner.written_cons_of_ne fun ho' => ho ((hsame.eq_iff howner).2 ho')]
        exact ih h

end SameBanks

/-! ## Descriptors -/

namespace SameDescriptor

variable {d d' : Descriptor}

theorem writesFrom {s s' : Slot} (hs : ρ.SameSlot s s') {cs cs' : List Cell}
    (h : List.Forall₂ ρ.SameCell cs cs') (k : Nat) :
    List.Forall₂ ρ.SameWrite (Descriptor.writesFrom s k cs) (Descriptor.writesFrom s' k cs') := by
  induction h generalizing k with
  | nil => exact .nil
  | cons hc hcs ih => exact .cons ⟨hs.offset k, hc⟩ (ih (k + 1))

theorem writes (h : ρ.SameDescriptor d d') {cs cs' : List Cell}
    (hcs : List.Forall₂ ρ.SameCell cs cs') :
    List.Forall₂ ρ.SameWrite (d.writes cs) (d'.writes cs') := by
  have hlocation := h.location
  rw [Descriptor.writes, Descriptor.writes]
  generalize d.location = l, d'.location = l' at hlocation
  cases hlocation with
  | none => exact .nil
  | some hs => exact writesFrom hs hcs 0

theorem regType?_eq (h : ρ.SameDescriptor d d') : d.regType? = d'.regType? := by
  rw [Descriptor.regType?, Descriptor.regType?, h.type]

theorem map_regType?_eq {ds ds' : List Descriptor} (h : List.Forall₂ ρ.SameDescriptor ds ds') :
    ds.map (·.regType?) = ds'.map (·.regType?) := by
  induction h with
  | nil => rfl
  | cons hd _ ih => rw [List.map_cons, List.map_cons, hd.regType?_eq, ih]

theorem put (h : ρ.SameDescriptor d d') (b : Bank) {xs ys : List b.Content}
    (hxs : List.Forall₂ (ρ.SameContent b) xs ys) :
    List.Forall₂ ρ.SameWrite (d.put b xs) (d'.put b ys) := by
  have haccepts : d.accepts b xs.length = d'.accepts b ys.length := by
    rw [Descriptor.accepts, Descriptor.accepts, h.regType?_eq, hxs.length_eq]
  rw [Descriptor.put, Descriptor.put, haccepts]
  split
  · refine h.writes ?_
    rw [List.forall₂_map_left_iff, List.forall₂_map_right_iff]
    exact hxs.imp fun _ _ => .mk b
  · exact .nil

theorem give (h : ρ.SameDescriptor d d') (b : Bank) {cs cs' : List Cell}
    (hcs : List.Forall₂ ρ.SameCell cs cs') :
    List.Forall₂ ρ.SameWrite (d.give b cs) (d'.give b cs') := by
  rw [Descriptor.give, Descriptor.give, Descriptor.width, Descriptor.width, h.type]
  split
  · exact h.writes (List.forall₂_take _ hcs)
  · exact .nil

end SameDescriptor

end Renaming

/-- The program does the same whatever frames are called. -/
structure Program.Portable (p : Program) : Prop where
  constants : ∀ (ρ : Renaming) (f : FuncRef) (code : Code),
    (p.head f).entry = some (.compiled code) →
      ρ.SameBanks code.proto.constants code.proto.constants
  defaults : ∀ (ρ : Renaming) (i : Nat),
    List.Forall₂ ρ.SameCell (p.native i).defaults (p.native i).defaults
  behaviour : ∀ (ρ : Renaming) (i : Nat) (inv : Invocation),
    ρ.SameHost ((p.native i).behaviour inv) ((p.native i).behaviour inv)

end CallProtocol
