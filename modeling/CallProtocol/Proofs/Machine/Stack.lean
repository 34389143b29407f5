import CallProtocol.Proofs.Machine.Context

/-!
# The stack of frames and its statistics

`Machine.Restacked own n m m'` describes how the stack of `m'` comes from that of `m`:
`n` new frames have been put on top of it, and then `own` frames have been taken from
the top. Which frames are taken is left open to the position alone. After an entry that
leaves frames behind, the frame on top need not be the one that is meant.

`Machine.Tracks m past m'` is about the statistics. Whatever states lie between the two
machines, `past` lists them, and the greatest depth among them is what the statistics
say. Both relations compose, so each operation of the machine has one lemma for each.
-/

namespace CallProtocol

namespace Machine

/-- `n` frames that are newer than those of `m` have come on top of its stack, and then
`own` frames are gone from the top. -/
def Restacked (own n : Nat) (m m' : Machine) : Prop :=
  m.stats.pushed ≤ m'.stats.pushed ∧
    ∃ new : List Nat, new.length = n ∧ (∀ s ∈ new, m.stats.pushed ≤ s) ∧
      m'.serials = (new ++ m.serials).drop own

namespace Restacked

theorem same {m m' : Machine} (hserials : m'.serials = m.serials) (hstats : m'.stats = m.stats) :
    Restacked 0 0 m m' :=
  ⟨Nat.le_of_eq (by rw [hstats]), [], rfl, by simp, by simpa using hserials⟩

theorem trans {own n₁ n₂ : Nat} {m m₁ m₂ : Machine} (h : Restacked 0 n₁ m m₁)
    (h' : Restacked own n₂ m₁ m₂) : Restacked own (n₁ + n₂) m m₂ := by
  obtain ⟨hle, new, hlength, hnew, hserials⟩ := h
  obtain ⟨hle', new', hlength', hnew', hserials'⟩ := h'
  refine ⟨Nat.le_trans hle hle', new' ++ new, ?_, ?_, ?_⟩
  · rw [List.length_append, hlength, hlength', Nat.add_comm]
  · intro s hs
    rcases List.mem_append.1 hs with hs | hs
    · exact Nat.le_trans hle (hnew' s hs)
    · exact hnew s hs
  · rw [hserials', hserials, List.drop_zero, List.append_assoc]

theorem after_same {own n : Nat} {m m₁ m₂ : Machine} (h : Restacked own n m₁ m₂)
    (hserials : m₁.serials = m.serials) (hstats : m₁.stats = m.stats) :
    Restacked own n m m₂ := by
  have h' := (Restacked.same hserials hstats).trans h
  rwa [Nat.zero_add] at h'

theorem push {m m' : Machine} {layout : FrameLayout} {params : List Value} {fr : Frame}
    (h : m.push layout params = .ok (fr, m')) : Restacked 0 1 m m' := by
  obtain ⟨hfr, rfl⟩ := push_eq_ok h
  exact ⟨Nat.le_succ _, [fr.serial], rfl, by simp [hfr], rfl⟩

theorem pop {n : Nat} {m m₁ m₂ : Machine} (h : Restacked 0 n m m₁)
    (hserials : m₂.serials = m₁.serials.tail) (hpushed : m₂.stats.pushed = m₁.stats.pushed) :
    Restacked 1 n m m₂ := by
  obtain ⟨hle, new, hlength, hnew, hstack⟩ := h
  refine ⟨hpushed ▸ hle, new, hlength, hnew, ?_⟩
  rw [hserials, hstack, List.drop_zero, List.drop_one]

/-- The frame that is put on top for a body and the frame that the body takes from the
top cancel, whether or not it is the same frame. -/
theorem cancel {n : Nat} {m m₁ m₂ : Machine} (h : Restacked 0 1 m m₁)
    (h' : Restacked 1 n m₁ m₂) : Restacked 0 n m m₂ := by
  obtain ⟨hle, new, hlength, hnew, hserials⟩ := h.trans h'
  cases new with
  | nil =>
      rw [List.length_nil] at hlength
      omega
  | cons x new =>
      refine ⟨hle, new, ?_, fun s hs => hnew s (List.mem_cons_of_mem x hs), hserials⟩
      rw [List.length_cons] at hlength
      omega

theorem serials_eq {m m' : Machine} (h : Restacked 0 0 m m') : m'.serials = m.serials := by
  obtain ⟨-, new, hlength, -, hserials⟩ := h
  rw [hserials, List.length_eq_zero_iff.1 hlength]
  rfl

theorem depth_eq {own n : Nat} {m m' : Machine} (h : Restacked own n m m') :
    m'.depth = n + m.depth - own := by
  obtain ⟨-, new, hlength, -, hserials⟩ := h
  rw [← length_serials m', hserials, List.length_drop, List.length_append, hlength,
    length_serials]

end Restacked

/-! ## Statistics -/

theorem pushed_pop (m : Machine) : m.pop.stats.pushed = m.stats.pushed := by
  rw [pop]
  cases m.frames <;> rfl

/-- The frames pushed are those popped and those on the stack, and no stack was deeper
than the statistics say. -/
structure Balanced (m : Machine) : Prop where
  pushed : m.stats.pushed = m.stats.popped + m.depth
  deepest : m.depth ≤ m.stats.maxDepth

def deepest (start : Nat) (past : List Machine) : Nat := past.foldl (fun d s => max d s.depth) start

theorem deepest_append (start : Nat) (past past' : List Machine) :
    deepest start (past ++ past') = deepest (deepest start past) past' :=
  List.foldl_append

theorem le_deepest (start : Nat) (past : List Machine) : start ≤ deepest start past := by
  induction past generalizing start with
  | nil => exact Nat.le_refl _
  | cons s past ih => exact Nat.le_trans (Nat.le_max_left _ _) (ih _)

theorem depth_le_deepest (start : Nat) {past : List Machine} {s : Machine} (h : s ∈ past) :
    s.depth ≤ deepest start past := by
  induction past generalizing start with
  | nil => cases h
  | cons t past ih =>
      rcases List.mem_cons.1 h with rfl | h
      · exact Nat.le_trans (Nat.le_max_right _ _) (le_deepest _ past)
      · exact ih _ h

theorem deepest_attained (start : Nat) (past : List Machine) :
    deepest start past = start ∨ ∃ s ∈ past, s.depth = deepest start past := by
  induction past generalizing start with
  | nil => exact .inl rfl
  | cons t past ih =>
      change deepest (max start t.depth) past = start ∨
        ∃ s ∈ t :: past, s.depth = deepest (max start t.depth) past
      rcases ih (max start t.depth) with h | ⟨s, hs, h⟩
      · rcases Nat.le_total start t.depth with hle | hle
        · rw [Nat.max_eq_right hle] at h ⊢
          exact .inr ⟨t, List.mem_cons_self, h.symm⟩
        · rw [Nat.max_eq_left hle] at h ⊢
          exact .inl h
      · exact .inr ⟨s, List.mem_cons_of_mem t hs, h⟩

def Tracks (m : Machine) (past : List Machine) (m' : Machine) : Prop :=
  m.Balanced → m'.Balanced ∧ (∀ s ∈ past, s.Balanced) ∧
    m'.stats.maxDepth = deepest m.stats.maxDepth past

namespace Tracks

theorem one {m m' : Machine} (h : m.Balanced →
    m'.Balanced ∧ m'.stats.maxDepth = max m.stats.maxDepth m'.depth) : Tracks m [m'] m' := by
  intro hm
  obtain ⟨hm', hdepth⟩ := h hm
  refine ⟨hm', ?_, hdepth⟩
  intro s hs
  rwa [List.mem_singleton.1 hs]

theorem trans {m m₁ m₂ : Machine} {past past' : List Machine} (h : Tracks m past m₁)
    (h' : Tracks m₁ past' m₂) : Tracks m (past ++ past') m₂ := by
  intro hm
  obtain ⟨hm₁, hpast, hdepth⟩ := h hm
  obtain ⟨hm₂, hpast', hdepth'⟩ := h' hm₁
  refine ⟨hm₂, ?_, by rw [hdepth', hdepth, deepest_append]⟩
  intro s hs
  rcases List.mem_append.1 hs with hs | hs
  · exact hpast s hs
  · exact hpast' s hs

theorem same {m m' : Machine} (hdepth : m'.depth = m.depth) (hstats : m'.stats = m.stats) :
    Tracks m [m'] m' := by
  refine one fun hm => ?_
  have hbalanced : m'.Balanced := by
    constructor
    · rw [hstats, hdepth, hm.pushed]
    · rw [hstats, hdepth]
      exact hm.deepest
  refine ⟨hbalanced, ?_⟩
  rw [hstats, hdepth, Nat.max_eq_left hm.deepest]

theorem after_same {m m₁ m₂ : Machine} {past : List Machine} (h : Tracks m₁ past m₂)
    (hdepth : m₁.depth = m.depth) (hstats : m₁.stats = m.stats) : Tracks m past m₂ := by
  intro hm
  rw [← hstats]
  exact h ⟨by rw [hstats, hdepth, hm.pushed], by rw [hstats, hdepth]; exact hm.deepest⟩

theorem push {m m' : Machine} {layout : FrameLayout} {params : List Value} {fr : Frame}
    (h : m.push layout params = .ok (fr, m')) : Tracks m [m'] m' := by
  obtain ⟨-, rfl⟩ := push_eq_ok h
  refine one fun hm => ⟨⟨?_, Nat.le_max_right _ _⟩, rfl⟩
  change m.stats.pushed + 1 = m.stats.popped + (m.depth + 1)
  rw [hm.pushed, Nat.add_assoc]

theorem popped {m m' : Machine} (hdepth : m'.depth = m.depth - 1)
    (hstats : m'.stats = m.pop.stats) : Tracks m [m'] m' := by
  refine one fun hm => ?_
  have hpop : m.pop.stats.pushed = m.pop.stats.popped + (m.depth - 1) ∧
      m.pop.stats.maxDepth = m.stats.maxDepth := by
    rw [Machine.pop]
    have hpushed := hm.pushed
    cases hframes : m.frames with
    | nil =>
        simp only [Machine.depth, hframes, List.length_nil] at hpushed ⊢
        exact ⟨hpushed, rfl⟩
    | cons fr frs =>
        simp only [Machine.depth, hframes, List.length_cons] at hpushed ⊢
        exact ⟨by omega, trivial⟩
  have hle : m'.depth ≤ m.stats.maxDepth := by
    have hdeepest := hm.deepest
    omega
  refine ⟨⟨by rw [hstats, hdepth, hpop.1], by rwa [hstats, hpop.2]⟩, ?_⟩
  rw [hstats, hpop.2, Nat.max_eq_left hle]

theorem pop (m : Machine) : Tracks m [m.pop] m.pop := .popped (depth_pop m) rfl

theorem poppedTo {m m' : Machine} {depth : Nat} (hdepth : m'.depth = (m.popTo depth).depth)
    (hstats : m'.stats = (m.popTo depth).stats) : Tracks m [m'] m' := by
  refine one fun hm => ?_
  have hpushed : m.stats.pushed = m.stats.popped + m.frames.length := hm.pushed
  have hdeepest : m.frames.length ≤ m.stats.maxDepth := hm.deepest
  have hdepth' : m'.depth = m.frames.length - (m.frames.length - depth) := by
    rw [hdepth]
    exact List.length_drop
  have hle : m'.depth ≤ m.stats.maxDepth := by omega
  rw [Machine.popTo] at hstats
  refine ⟨⟨?_, by rwa [hstats]⟩, by rw [hstats, Nat.max_eq_left hle]⟩
  rw [hstats, hdepth']
  change m.stats.pushed = m.stats.popped + (m.frames.length - depth) + _
  omega

end Tracks

/-! ## Empty frames -/

theorem push_empty (m : Machine) : ∃ fr : Frame, m.push {} [] = .ok (fr, m.pushEmpty) :=
  ⟨⟨m.stats.pushed, {}, .blank {}⟩, rfl⟩

theorem restacked_pushEmpties (n : Nat) (m : Machine) : Restacked 0 n m (m.pushEmpties n) := by
  induction n with
  | zero => exact .same rfl rfl
  | succ n ih =>
      obtain ⟨fr, hpush⟩ := push_empty (m.pushEmpties n)
      exact ih.trans (.push hpush)

theorem tracks_pushEmpties (n : Nat) (m : Machine) :
    Tracks m ((List.range n).map fun k => m.pushEmpties (k + 1)) (m.pushEmpties n) := by
  induction n with
  | zero => exact fun hm => ⟨hm, by simp, rfl⟩
  | succ n ih =>
      obtain ⟨fr, hpush⟩ := push_empty (m.pushEmpties n)
      rw [List.range_succ, List.map_append]
      exact ih.trans (.push hpush)

theorem context_pushEmpties (n : Nat) (m : Machine) :
    (m.pushEmpties n).pending = m.pending ∧ (m.pushEmpties n).events = m.events := by
  induction n with
  | zero => exact ⟨rfl, rfl⟩
  | succ n ih =>
      obtain ⟨fr, hpush⟩ := push_empty (m.pushEmpties n)
      obtain ⟨-, heq⟩ := push_eq_ok hpush
      change (m.pushEmpties n).pushEmpty.pending = _ ∧ (m.pushEmpties n).pushEmpty.events = _
      rw [heq]
      exact ih

end Machine

end CallProtocol
