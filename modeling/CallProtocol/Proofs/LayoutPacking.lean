import CallProtocol.Layout

/-!
# Packed layouts

A layout and its two words say the same. Each field has bits of its own, and all bits of
both words belong to a field, so packing loses nothing and every pair of words is the
packed form of a layout. As the words are carried as signed immediates, large counts make
them negative.

The words are read as numbers: the fields are their digits, from the low ones up.
-/

namespace CallProtocol

namespace FrameLayout

/-! ## Words as numbers -/

theorem toNat_ofNat_mod {k : Nat} (hk : k < 64) : (UInt64.ofNat k).toNat % 64 = k := by
  rw [UInt64.toNat_ofNat_of_lt' (Nat.lt_trans hk (by decide)), Nat.mod_eq_of_lt hk]

/-- A field above the low bits of a word adds a multiple of their range. -/
theorem toNat_or_shiftLeft (low field : UInt64) (k scale : Nat) (hk : k < 64)
    (hscale : Nat.pow 2 k = scale) (hlow : low.toNat < scale)
    (hfield : field.toNat * scale < UInt64.size) :
    (low ||| field <<< UInt64.ofNat k).toNat = low.toNat + field.toNat * scale := by
  subst hscale
  have shifted : (field <<< UInt64.ofNat k).toNat = field.toNat <<< k := by
    rw [UInt64.toNat_shiftLeft, toNat_ofNat_mod hk]
    exact Nat.mod_eq_of_lt (Nat.shiftLeft_eq _ _ ▸ hfield)
  rw [UInt64.toNat_or, shifted, Nat.or_comm, ← Nat.shiftLeft_add_eq_or_of_lt hlow,
    Nat.shiftLeft_eq, Nat.add_comm]
  rfl

theorem toNat_shiftRight (w : UInt64) (k scale : Nat) (hk : k < 64)
    (hscale : Nat.pow 2 k = scale) : (w >>> UInt64.ofNat k).toNat = w.toNat / scale := by
  rw [UInt64.toNat_shiftRight, toNat_ofNat_mod hk, Nat.shiftRight_eq_div_pow, ← hscale]
  rfl

theorem toNat_pack_registers (l : FrameLayout) :
    l.pack.1.toNat = l.registers.ints.toNat + l.registers.floats.toNat * 65536 +
      l.registers.strings.toNat * 4294967296 + l.registers.pointers.toNat * 281474976710656 := by
  have hsize : UInt64.size = 18446744073709551616 := rfl
  have hints := l.registers.ints.toNat_lt
  have hfloats := l.registers.floats.toNat_lt
  have hstrings := l.registers.strings.toNat_lt
  have hpointers := l.registers.pointers.toNat_lt
  have upToFloats := toNat_or_shiftLeft l.registers.ints.toUInt64 l.registers.floats.toUInt64 16
    65536 (by decide) rfl (by rw [UInt16.toNat_toUInt64]; omega)
    (by rw [UInt16.toNat_toUInt64]; omega)
  rw [UInt16.toNat_toUInt64, UInt16.toNat_toUInt64] at upToFloats
  have upToStrings := toNat_or_shiftLeft _ l.registers.strings.toUInt64 32 4294967296
    (by decide) rfl (by rw [upToFloats]; omega) (by rw [UInt16.toNat_toUInt64]; omega)
  rw [upToFloats, UInt16.toNat_toUInt64] at upToStrings
  have upToPointers := toNat_or_shiftLeft _ l.registers.pointers.toUInt64 48 281474976710656
    (by decide) rfl (by rw [upToStrings]; omega) (by rw [UInt16.toNat_toUInt64]; omega)
  rw [upToStrings, UInt16.toNat_toUInt64] at upToPointers
  exact upToPointers

theorem toNat_pack_capacities (l : FrameLayout) :
    l.pack.2.toNat = l.params.toNat + l.returns.toNat * 4294967296 := by
  have hsize : UInt64.size = 18446744073709551616 := rfl
  have hparams := l.params.toNat_lt
  have hreturns := l.returns.toNat_lt
  have upToReturns := toNat_or_shiftLeft l.params.toUInt64 l.returns.toUInt64 32 4294967296
    (by decide) rfl (by rw [UInt32.toNat_toUInt64]; omega) (by rw [UInt32.toNat_toUInt64]; omega)
  rw [UInt32.toNat_toUInt64, UInt32.toNat_toUInt64] at upToReturns
  exact upToReturns

theorem toNat_unpack_registers (w : UInt64 × UInt64) :
    (unpack w).registers.ints.toNat = w.1.toNat % 65536 ∧
      (unpack w).registers.floats.toNat = w.1.toNat / 65536 % 65536 ∧
      (unpack w).registers.strings.toNat = w.1.toNat / 4294967296 % 65536 ∧
      (unpack w).registers.pointers.toNat = w.1.toNat / 281474976710656 % 65536 := by
  have digit : ∀ k scale : Nat, k < 64 → Nat.pow 2 k = scale →
      (w.1 >>> UInt64.ofNat k).toUInt16.toNat = w.1.toNat / scale % 65536 := by
    intro k scale hk hscale
    rw [UInt64.toNat_toUInt16, toNat_shiftRight w.1 k scale hk hscale]
  exact ⟨UInt64.toNat_toUInt16 w.1, digit 16 65536 (by decide) rfl,
    digit 32 4294967296 (by decide) rfl, digit 48 281474976710656 (by decide) rfl⟩

theorem toNat_unpack_capacities (w : UInt64 × UInt64) :
    (unpack w).params.toNat = w.2.toNat % 4294967296 ∧
      (unpack w).returns.toNat = w.2.toNat / 4294967296 % 4294967296 := by
  refine ⟨UInt64.toNat_toUInt32 w.2, ?_⟩
  change (w.2 >>> UInt64.ofNat 32).toUInt32.toNat = _
  rw [UInt64.toNat_toUInt32, toNat_shiftRight w.2 32 4294967296 (by decide) rfl]

/-! ## Round trips -/

theorem eq_of_toNat {l l' : FrameLayout} (hints : l.registers.ints.toNat = l'.registers.ints.toNat)
    (hfloats : l.registers.floats.toNat = l'.registers.floats.toNat)
    (hstrings : l.registers.strings.toNat = l'.registers.strings.toNat)
    (hpointers : l.registers.pointers.toNat = l'.registers.pointers.toNat)
    (hparams : l.params.toNat = l'.params.toNat) (hreturns : l.returns.toNat = l'.returns.toNat) :
    l = l' := by
  obtain ⟨⟨ints, floats, strings, pointers⟩, params, returns⟩ := l
  obtain ⟨⟨ints', floats', strings', pointers'⟩, params', returns'⟩ := l'
  obtain rfl := UInt16.toNat_inj.1 hints
  obtain rfl := UInt16.toNat_inj.1 hfloats
  obtain rfl := UInt16.toNat_inj.1 hstrings
  obtain rfl := UInt16.toNat_inj.1 hpointers
  obtain rfl := UInt32.toNat_inj.1 hparams
  obtain rfl := UInt32.toNat_inj.1 hreturns
  rfl

theorem unpack_pack (l : FrameLayout) : unpack l.pack = l := by
  obtain ⟨hints, hfloats, hstrings, hpointers⟩ := toNat_unpack_registers l.pack
  obtain ⟨hparams, hreturns⟩ := toNat_unpack_capacities l.pack
  rw [l.toNat_pack_registers] at hints hfloats hstrings hpointers
  rw [l.toNat_pack_capacities] at hparams hreturns
  have := l.registers.ints.toNat_lt
  have := l.registers.floats.toNat_lt
  have := l.registers.strings.toNat_lt
  have := l.registers.pointers.toNat_lt
  have := l.params.toNat_lt
  have := l.returns.toNat_lt
  refine eq_of_toNat ?_ ?_ ?_ ?_ ?_ ?_
  · omega
  · omega
  · omega
  · omega
  · omega
  · omega

theorem pack_unpack (w : UInt64 × UInt64) : (unpack w).pack = w := by
  obtain ⟨hints, hfloats, hstrings, hpointers⟩ := toNat_unpack_registers w
  obtain ⟨hparams, hreturns⟩ := toNat_unpack_capacities w
  have hregs := (unpack w).toNat_pack_registers
  have hcaps := (unpack w).toNat_pack_capacities
  have := w.1.toNat_lt
  have := w.2.toNat_lt
  refine Prod.ext (UInt64.toNat_inj.1 ?_) (UInt64.toNat_inj.1 ?_)
  · omega
  · omega

end FrameLayout

/-- Layouts and pairs of signed immediates are in bijection. A layout is packed into the
words whose digits, from the low ones up, are its fields: the four register counts make up
the first word and the two capacities the second. -/
theorem layout_packing_bijective :
    (∀ l : FrameLayout, FrameLayout.ofImmediates l.immediates = l) ∧
      (∀ w : Int64 × Int64, (FrameLayout.ofImmediates w).immediates = w) ∧
      ∀ l : FrameLayout,
        l.immediates.1.toUInt64.toNat = l.registers.ints.toNat + l.registers.floats.toNat * 65536 +
          l.registers.strings.toNat * 4294967296 +
            l.registers.pointers.toNat * 281474976710656 ∧
        l.immediates.2.toUInt64.toNat = l.params.toNat + l.returns.toNat * 4294967296 := by
  refine ⟨?_, ?_, ?_⟩
  · intro l
    exact l.unpack_pack
  · intro w
    have packed := FrameLayout.pack_unpack (w.1.toUInt64, w.2.toUInt64)
    rw [FrameLayout.immediates, FrameLayout.ofImmediates, packed]
    exact Prod.ext (Int64.toInt64_toUInt64 w.1) (Int64.toInt64_toUInt64 w.2)
  · intro l
    exact ⟨l.toNat_pack_registers, l.toNat_pack_capacities⟩

/-- Full counts of the last fields make both immediates negative. -/
example : FrameLayout.ofImmediates (-281474976710656, -4294967296) =
    ⟨⟨0, 0, 0, 65535⟩, 0, 4294967295⟩ := by decide

end CallProtocol
