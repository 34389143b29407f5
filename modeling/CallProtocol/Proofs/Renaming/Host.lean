import CallProtocol.Host.Action
import CallProtocol.Proofs.Renaming.Basic

/-!
# Scripted host functions do not look at names

A list of actions can get hold of an address only as an argument, by reading a slot it has
the address of, or as a constant. So if it has no address of a frame among its constants, it
does the same under every renaming, whatever it does with the addresses it gets.
-/

namespace CallProtocol

variable {ρ : Renaming}

def HostExpr.Portable (ρ : Renaming) : {b : Bank} → HostExpr b → Prop
  | b, .const _ x => ρ.SameContent b x x
  | _, .addInt x y => x.Portable ρ ∧ y.Portable ρ
  | _, .mulInt x y => x.Portable ρ ∧ y.Portable ρ
  | _, .addFloat x y => x.Portable ρ ∧ y.Portable ρ
  | _, .mulFloat x y => x.Portable ρ ∧ y.Portable ρ
  | _, .append x y => x.Portable ρ ∧ y.Portable ρ
  | _, _ => True

mutual

def HostAction.Portable (ρ : Renaming) : HostAction → Prop
  | .put _ _ values => ∀ e ∈ values, e.Portable ρ
  | .poke _ _ _ value => value.Portable ρ
  | .select lists => HostAction.AllPortable ρ lists
  | _ => True

def HostAction.ListPortable (ρ : Renaming) : List HostAction → Prop
  | [] => True
  | a :: as => HostAction.Portable ρ a ∧ HostAction.ListPortable ρ as

def HostAction.AllPortable (ρ : Renaming) : List (List HostAction) → Prop
  | [] => True
  | as :: rest => HostAction.ListPortable ρ as ∧ HostAction.AllPortable ρ rest

end

namespace Renaming.SameHost

theorem want (i : Nat) (b : Bank) {next next' : b.Content → Host}
    (h : ∀ x y, ρ.SameContent b x y → ρ.SameHost (next x) (next' y)) :
    ρ.SameHost (.want i b next) (.want i b next') := by
  refine .arg i fun g g' hg => ?_
  cases hg with
  | none => exact .abort _
  | some ha =>
      cases ha with
      | nil => exact .abort _
      | @of c c' hc =>
          have hbank : c.bank = c'.bank := by cases hc; rfl
          have has := hc.as? b
          simp only [Arguments.want]
          generalize c.as? b = x, c'.as? b = y at has
          cases has with
          | none =>
              simp only [Arguments.mismatch, Arg.kindName, hbank]
              exact .abort _
          | some hxy => exact h _ _ hxy

theorem wantSlot (i : Nat) {next next' : Slot → Host}
    (h : ∀ s s', ρ.SameSlot s s' → ρ.SameHost (next s) (next' s')) :
    ρ.SameHost (.wantSlot i next) (.wantSlot i next') := by
  refine want i .pointer fun q q' hq => ?_
  cases hq with
  | slot hs => exact h _ _ hs
  | address a =>
      simp only
      split <;> exact .abort _
  | function f => exact .abort _

theorem loadAs {s s' : Slot} (hs : ρ.SameSlot s s') (b : Bank) {next next' : b.Content → Host}
    (h : ∀ x y, ρ.SameContent b x y → ρ.SameHost (next x) (next' y)) :
    ρ.SameHost (.loadAs s b next) (.loadAs s' b next') := by
  cases hs with
  | mk ho b' r =>
      by_cases hb : b' = b
      · subst hb
        rw [Host.loadAs, Host.loadAs, dif_pos rfl, dif_pos rfl]
        exact .load ho b' r h
      · rw [Host.loadAs, Host.loadAs, dif_neg hb, dif_neg hb]
        exact h _ _ (.blank b)

theorem storeAs {s s' : Slot} (hs : ρ.SameSlot s s') (b : Bank) {x y : b.Content}
    (hxy : ρ.SameContent b x y) {next next' : Host} (h : ρ.SameHost next next') :
    ρ.SameHost (.storeAs s b x next) (.storeAs s' b y next') := by
  cases hs with
  | mk ho b' r =>
      by_cases hb : b' = b
      · subst hb
        rw [Host.storeAs, Host.storeAs, dif_pos rfl, dif_pos rfl]
        exact .store ho b' r hxy h
      · rw [Host.storeAs, Host.storeAs, dif_neg hb, dif_neg hb]
        exact h

theorem args (is : List Nat) {next next' : List (Option Arg) → Host}
    (h : ∀ as as', List.Forall₂ (Option.Rel ρ.SameArg) as as' →
      ρ.SameHost (next as) (next' as')) :
    ρ.SameHost (.args is next) (.args is next') := by
  induction is generalizing next next' with
  | nil => exact h [] [] .nil
  | cons i is ih =>
      exact .arg i fun g g' hg => ih fun as as' has => h (g :: as) (g' :: as') (.cons hg has)

end Renaming.SameHost

open Renaming

theorem HostExpr.run_same (inv : Invocation) {b : Bank} (e : HostExpr b) (he : e.Portable ρ)
    {next next' : b.Content → Host}
    (h : ∀ x y, ρ.SameContent b x y → ρ.SameHost (next x) (next' y)) :
    ρ.SameHost (e.run inv next) (e.run inv next') := by
  induction e with
  | const b x => exact h x x he
  | arg b i => exact .want i b h
  | deref b i k => exact .wantSlot i fun s s' hs => .loadAs (hs.offset k) b h
  | paramCount => exact h _ _ (Eq.refl _)
  | earlier => exact h _ _ (Eq.refl _)
  | addInt x y ihx ihy | mulInt x y ihx ihy | addFloat x y ihx ihy | mulFloat x y ihx ihy
  | append x y ihx ihy =>
      refine ihx he.1 fun u u' hu => ihy he.2 fun v v' hv => ?_
      obtain rfl := hu
      obtain rfl := hv
      exact h _ _ (Eq.refl _)

theorem HostExpr.runAll_same (inv : Invocation) {b : Bank} (es : List (HostExpr b))
    (hes : ∀ e ∈ es, e.Portable ρ) {next next' : List b.Content → Host}
    (h : ∀ xs ys, List.Forall₂ (ρ.SameContent b) xs ys → ρ.SameHost (next xs) (next' ys)) :
    ρ.SameHost (runAll inv es next) (runAll inv es next') := by
  induction es generalizing next next' with
  | nil => exact h [] [] .nil
  | cons e es ih =>
      obtain ⟨he, hes⟩ := List.forall_mem_cons.1 hes
      exact e.run_same inv he fun x y hxy =>
        ih hes fun xs ys hxs => h (x :: xs) (y :: ys) (.cons hxy hxs)

namespace HostAction

mutual

theorem run_same (index : Nat) (inv : Invocation) (a : HostAction) (ha : a.Portable ρ) (n : Int32)
    (next next' : Int32 → Host) (h : ∀ n, ρ.SameHost (next n) (next' n)) :
    ρ.SameHost (run index inv a n next) (run index inv a n next') := by
  cases a with
  | put slot b values =>
      rw [run, run]
      rw [HostAction.Portable] at ha
      exact HostExpr.runAll_same inv values ha fun xs ys hxs => .put slot b hxs (h n)
  | poke b i k value =>
      rw [run, run]
      rw [HostAction.Portable] at ha
      exact value.run_same inv ha fun x y hxy =>
        .wantSlot i fun s s' hs => .storeAs (hs.offset k) b hxy (h n)
  | count m =>
      rw [run, run]
      exact h m
  | abort kind message =>
      rw [run, run]
      exact .abort _
  | panic p =>
      rw [run, run]
      exact .panic p
  | select lists =>
      rw [run, run]
      rw [HostAction.Portable] at ha
      exact runNth_same index inv lists ha inv.earlier n next next' h
  | log =>
      rw [run, run]
      exact .args _ fun as as' has => .note (.native index inv.params inv.returns has) (h n)

theorem runList_same (index : Nat) (inv : Invocation) (as : List HostAction)
    (has : ListPortable ρ as) (n : Int32) (next next' : Int32 → Host)
    (h : ∀ n, ρ.SameHost (next n) (next' n)) :
    ρ.SameHost (runList index inv as n next) (runList index inv as n next') := by
  cases as with
  | nil =>
      rw [runList, runList]
      exact h n
  | cons a as =>
      rw [runList, runList]
      rw [ListPortable] at has
      exact run_same index inv a has.1 n _ _ fun n =>
        runList_same index inv as has.2 n next next' h

theorem runNth_same (index : Nat) (inv : Invocation) (lists : List (List HostAction))
    (hlists : AllPortable ρ lists) (k : Nat) (n : Int32) (next next' : Int32 → Host)
    (h : ∀ n, ρ.SameHost (next n) (next' n)) :
    ρ.SameHost (runNth index inv lists k n next) (runNth index inv lists k n next') := by
  cases lists with
  | nil =>
      rw [runNth, runNth]
      exact h n
  | cons as rest =>
      rw [AllPortable] at hlists
      cases rest with
      | nil =>
          rw [runNth, runNth]
          exact runList_same index inv as hlists.1 n next next' h
      | cons bs rest =>
          cases k with
          | zero =>
              rw [runNth, runNth]
              exact runList_same index inv as hlists.1 n next next' h
          | succ k =>
              rw [runNth, runNth]
              exact runNth_same index inv (bs :: rest) hlists.2 k n next next' h

end

/-- A native that is given by a list of actions does the same whatever frames are called. -/
theorem behaviour_same (index : Nat) (actions : List HostAction) (h : ListPortable ρ actions)
    (inv : Invocation) : ρ.SameHost (behaviour index actions inv) (behaviour index actions inv) := by
  rw [behaviour]
  exact runList_same index inv actions h 0 _ _ .finish

end HostAction

end CallProtocol
