import CallProtocol.Cell
import CallProtocol.Layout

/-!
# Register banks

A list of contents for each bank. The registers of a frame have this form, the
register variables of a running body, the constant pools of a function, and the
storage behind a return descriptor.

`Banks.bank` selects a list and `Banks.modify` changes one. Everything else goes
through these two, so the laws of `get` and `set` hold for all four banks at
once. Reading outside of a bank gives the blank content, writing outside of it
changes nothing.
-/

namespace CallProtocol

structure Banks where
  ints : List Int32 := []
  floats : List Double := []
  strings : List String := []
  pointers : List Pointer := []
  deriving DecidableEq

namespace Banks

def bank (r : Banks) : (b : Bank) → List b.Content
  | .int => r.ints
  | .float => r.floats
  | .string => r.strings
  | .pointer => r.pointers

def modify (r : Banks) : (b : Bank) → (List b.Content → List b.Content) → Banks
  | .int, f => { r with ints := f r.ints }
  | .float, f => { r with floats := f r.floats }
  | .string, f => { r with strings := f r.strings }
  | .pointer, f => { r with pointers := f r.pointers }

def size (r : Banks) (b : Bank) : Nat := (r.bank b).length

def get (r : Banks) (b : Bank) (i : Nat) : b.Content := (r.bank b)[i]?.getD b.blank

def set (r : Banks) (b : Bank) (i : Nat) (x : b.Content) : Banks := r.modify b (·.set i x)

def blank (counts : RegisterCounts) : Banks where
  ints := List.replicate counts.ints.toNat (Bank.blank .int)
  floats := List.replicate counts.floats.toNat (Bank.blank .float)
  strings := List.replicate counts.strings.toNat (Bank.blank .string)
  pointers := List.replicate counts.pointers.toNat (Bank.blank .pointer)

@[simp] theorem bank_modify_self (r : Banks) (b : Bank) (f : List b.Content → List b.Content) :
    (r.modify b f).bank b = f (r.bank b) := by
  cases b <;> rfl

theorem bank_modify_of_ne (r : Banks) (b c : Bank) (f : List b.Content → List b.Content)
    (h : c ≠ b) : (r.modify b f).bank c = r.bank c := by
  cases b <;> cases c <;> first | rfl | exact absurd rfl h

@[simp] theorem bank_blank (counts : RegisterCounts) (b : Bank) :
    (blank counts).bank b = List.replicate (counts.get b).toNat b.blank := by
  cases b <;> rfl

@[simp] theorem size_blank (counts : RegisterCounts) (b : Bank) :
    (blank counts).size b = (counts.get b).toNat := by
  simp [size]

@[simp] theorem get_blank (counts : RegisterCounts) (b : Bank) (i : Nat) :
    (blank counts).get b i = b.blank := by
  simp [get, List.getElem?_replicate]
  split <;> rfl

@[simp] theorem size_set (r : Banks) (b c : Bank) (i : Nat) (x : b.Content) :
    (r.set b i x).size c = r.size c := by
  by_cases h : c = b
  · subst h; simp [size, set]
  · simp [size, set, bank_modify_of_ne _ _ _ _ h]

theorem get_set_self (r : Banks) (b : Bank) (i : Nat) (x : b.Content) (h : i < r.size b) :
    (r.set b i x).get b i = x := by
  have h' : i < (r.bank b).length := h
  simp [get, set, h']

theorem get_set_of_ne_reg (r : Banks) (b : Bank) (i j : Nat) (x : b.Content) (h : i ≠ j) :
    (r.set b i x).get b j = r.get b j := by
  simp [get, set, h]

theorem get_set_of_ne_bank (r : Banks) (b c : Bank) (i j : Nat) (x : b.Content) (h : c ≠ b) :
    (r.set b i x).get c j = r.get c j := by
  simp [get, set, bank_modify_of_ne _ _ _ _ h]

end Banks

end CallProtocol
