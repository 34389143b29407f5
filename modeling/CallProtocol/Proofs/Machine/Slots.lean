import CallProtocol.Proofs.Machine.Stack

/-!
# What a slot holds

Loading a slot looks for the registers of its owner. So a slot keeps its content under a
store to any other slot, and when other frames come and go.

`Machine.Holds k n m` says that the frame `k` is on the stack with at least `n` frames
above it, all of them newer. The frames above are those that may still be popped before
`k` is on top. `Machine.Keeps σ n m` says the same of the frame of a slot. A slot of the
return storage has none, and no pop reaches it.
-/

namespace CallProtocol

namespace Banks

theorem get_set_of_ne (r : Banks) {b c : Bank} {i j : Nat} (x : b.Content)
    (h : (b, i) ≠ (c, j)) : (r.set b i x).get c j = r.get c j := by
  by_cases hb : c = b
  · subst hb
    refine r.get_set_of_ne_reg c i j x ?_
    rintro rfl
    exact h rfl
  · exact r.get_set_of_ne_bank b c i j x hb

end Banks

namespace Machine

theorem load_of_registers? {m m' : Machine} {σ : Slot}
    (h : m'.registers? σ.owner = m.registers? σ.owner) : m'.load σ = m.load σ := by
  rw [load, load, h]

theorem registers?_congr {m m' : Machine} (hframes : m'.frames = m.frames)
    (houtputs : m'.outputs = m.outputs) (o : Owner) : m'.registers? o = m.registers? o := by
  cases o with
  | frame serial => rw [registers?, hframes, registers?]
  | output i => rw [registers?, houtputs, registers?]

theorem load_output {m m' : Machine} {σ : Slot} {i : Nat} (hσ : σ.owner = .output i)
    (h : m'.outputs = m.outputs) : m'.load σ = m.load σ := by
  refine load_of_registers? ?_
  rw [hσ, registers?, h, registers?]

theorem registers?_modifyRegisters (m : Machine) (f : Banks → Banks) (o o' : Owner) :
    (m.modifyRegisters f o).registers? o' =
      if o = o' then (m.registers? o').map f else m.registers? o' := by
  cases o with
  | output i =>
      cases o' with
      | frame serial => rfl
      | output j =>
          by_cases h : i = j
          · simp [modifyRegisters, registers?, h]
          · simp [modifyRegisters, registers?, h]
  | frame serial =>
      cases o' with
      | output j => rfl
      | frame k =>
          have hserial : ((fun x : Frame => x.serial == k) ∘ fun x : Frame =>
              if x.serial = serial then { x with registers := f x.registers } else x) =
                fun x => x.serial == k := by
            funext x
            simp only [Function.comp_apply]
            split <;> rfl
          simp only [registers?, modifyRegisters, List.find?_map, hserial]
          cases hfind : m.frames.find? (·.serial == k) with
          | none => simp
          | some fr =>
              have hk : fr.serial = k := by simpa using List.find?_some hfind
              by_cases h : serial = k
              · simp [hk, h]
              · simp [hk, h, Ne.symm h]

theorem load_store_of_ne (m : Machine) {s σ : Slot} (c : Cell) (h : s ≠ σ) :
    (m.store s c).load σ = m.load σ := by
  by_cases howner : s.owner = σ.owner
  · rw [load, load, store, registers?_modifyRegisters, if_pos howner]
    cases m.registers? σ.owner with
    | none => rfl
    | some regs =>
        refine Banks.get_set_of_ne _ _ ?_
        intro hreg
        obtain ⟨hbank, hindex⟩ := Prod.mk.inj hreg
        rcases s with ⟨owner, b, r⟩
        rcases σ with ⟨owner', b', r'⟩
        simp only at howner hbank hindex
        exact h (by rw [howner, hbank, hindex])
  · refine load_of_registers? ?_
    rw [store, registers?_modifyRegisters, if_neg howner]

theorem load_write (m : Machine) {σ : Slot} {ws : List Write} (h : ∀ w ∈ ws, w.slot ≠ σ) :
    (m.write ws).load σ = m.load σ := by
  induction ws generalizing m with
  | nil => rfl
  | cons w ws ih =>
      have hrest := ih (m.store w.slot w.cell) fun w' hw' => h w' (List.mem_cons_of_mem w hw')
      exact hrest.trans (m.load_store_of_ne w.cell (h w List.mem_cons_self))

theorem outputs_raise (m : Machine) (a : Abort) : (m.raise a).outputs = m.outputs := by
  rw [raise]
  cases m.pending <;> rfl

theorem registers?_raise (m : Machine) (a : Abort) (o : Owner) :
    (m.raise a).registers? o = m.registers? o :=
  registers?_congr (frames_raise m a) (outputs_raise m a) o

/-- An activation that unwinds does to its frame what any other does that leaves. -/
theorem registers?_unwind (m : Machine) (name : String) (o : Owner) :
    (m.unwind name).registers? o = m.pop.registers? o := by
  rw [unwind_eq]
  cases m.pending with
  | some a => exact (registers?_raise _ _ o).trans (registers?_congr rfl rfl o)
  | none => exact (registers?_raise _ _ o).trans (registers?_congr rfl rfl o)

/-! ## Frames below others -/

/-- The frame `k` is on the stack, with at least `n` newer frames above it. -/
def Holds (k n : Nat) (m : Machine) : Prop :=
  k < m.stats.pushed ∧
    ∃ above below, m.serials = above ++ k :: below ∧ n ≤ above.length ∧ ∀ s ∈ above, k < s

namespace Holds

theorem push {m m' : Machine} {layout : FrameLayout} {params : List Value} {fr : Frame}
    (h : m.push layout params = .ok (fr, m')) : Holds fr.serial 0 m' := by
  obtain ⟨hfr, rfl⟩ := push_eq_ok h
  refine ⟨hfr ▸ Nat.lt_succ_self _, [], m.serials, rfl, Nat.zero_le _, by simp⟩

theorem mono {k n n' : Nat} {m : Machine} (h : Holds k n m) (hn : n' ≤ n) : Holds k n' m := by
  obtain ⟨hk, above, below, hserials, hlength, habove⟩ := h
  exact ⟨hk, above, below, hserials, Nat.le_trans hn hlength, habove⟩

/-- New frames come above the frame, and as many may be taken as are above it. -/
theorem restacked {k n own count : Nat} {m m' : Machine} (h : Holds k n m)
    (hr : Restacked own count m m') (hown : own ≤ n) : Holds k (n + count - own) m' := by
  obtain ⟨hk, above, below, hserials, hn, habove⟩ := h
  obtain ⟨hle, new, hlength, hnew, hserials'⟩ := hr
  refine ⟨Nat.lt_of_lt_of_le hk hle, (new ++ above).drop own, below, ?_, ?_, ?_⟩
  · have hle' : own ≤ (new ++ above).length := by
      rw [List.length_append]
      omega
    rw [hserials', hserials, ← List.append_assoc, List.drop_append_of_le_length hle']
  · rw [List.length_drop, List.length_append]
    omega
  · intro s hs
    rcases List.mem_append.1 (List.mem_of_mem_drop hs) with hs | hs
    · exact Nat.lt_of_lt_of_le hk (hnew s hs)
    · exact habove s hs

theorem same {k n : Nat} {m m' : Machine} (h : Holds k n m) (hserials : m'.serials = m.serials)
    (hstats : m'.stats = m.stats) : Holds k n m' := by
  obtain ⟨hk, rest⟩ := h
  exact ⟨by rwa [hstats], by rwa [hserials]⟩

theorem registers?_pop {k n : Nat} {m : Machine} (h : Holds k (n + 1) m) :
    m.pop.registers? (.frame k) = m.registers? (.frame k) := by
  obtain ⟨-, above, below, hserials, hn, habove⟩ := h
  cases above with
  | nil => exact absurd hn (Nat.not_succ_le_zero n)
  | cons s above =>
      rw [pop]
      cases hframes : m.frames with
      | nil => rw [registers?, registers?, report]
      | cons fr frs =>
          have hfr : fr.serial = s := by
            rw [serials, hframes] at hserials
            exact (List.cons.inj hserials).1
          have hne : (fr.serial == k) = false := by
            rw [beq_eq_false_iff_ne, hfr]
            exact Nat.ne_of_gt (habove s List.mem_cons_self)
          simp only [registers?, hframes, List.find?_cons, hne]

end Holds

def Keeps (σ : Slot) (n : Nat) (m : Machine) : Prop :=
  ∀ k, σ.owner = .frame k → Holds k n m

theorem keeps_output {σ : Slot} {i : Nat} (h : σ.owner = .output i) (n : Nat) (m : Machine) :
    Keeps σ n m := by
  intro k hk
  cases h.symm.trans hk

theorem Holds.keeps {σ : Slot} {k n : Nat} {m : Machine} (h : Holds k n m)
    (hσ : σ.owner = .frame k) : Keeps σ n m := by
  intro k' hk'
  obtain rfl := Owner.frame.inj (hσ.symm.trans hk')
  exact h

namespace Keeps

variable {σ : Slot} {n : Nat} {m m' : Machine}

theorem restacked {own count : Nat} (h : Keeps σ n m) (hr : Restacked own count m m')
    (hown : own ≤ n) : Keeps σ (n + count - own) m' :=
  fun k hk => (h k hk).restacked hr hown

theorem same (h : Keeps σ n m) (hserials : m'.serials = m.serials) (hstats : m'.stats = m.stats) :
    Keeps σ n m' :=
  fun k hk => (h k hk).same hserials hstats

theorem registers?_pop (h : Keeps σ (n + 1) m) :
    m.pop.registers? σ.owner = m.registers? σ.owner := by
  cases hσ : σ.owner with
  | frame k => exact (h k hσ).registers?_pop
  | output i =>
      rw [pop]
      cases m.frames <;> rfl

/-- A new frame is none that has been on the stack before. -/
theorem registers?_push {layout : FrameLayout} {params : List Value} {fr : Frame}
    (h : Keeps σ n m) (room : m.push layout params = .ok (fr, m')) :
    m'.registers? σ.owner = m.registers? σ.owner := by
  obtain ⟨hfr, rfl⟩ := push_eq_ok room
  cases hσ : σ.owner with
  | frame k =>
      have hne : (fr.serial == k) = false := by
        rw [beq_eq_false_iff_ne, hfr]
        exact Nat.ne_of_gt (h k hσ).1
      simp only [registers?, List.find?_cons, hne]
  | output i => rfl

theorem registers?_pushEmpties (h : Keeps σ n m) (count : Nat) :
    (m.pushEmpties count).registers? σ.owner = m.registers? σ.owner := by
  induction count with
  | zero => rfl
  | succ count ih =>
      obtain ⟨fr, hpush⟩ := push_empty (m.pushEmpties count)
      have h' := h.restacked (restacked_pushEmpties count m) (Nat.zero_le n)
      exact (h'.registers?_push hpush).trans ih

end Keeps

end Machine

end CallProtocol
