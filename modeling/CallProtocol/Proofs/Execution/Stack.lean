import CallProtocol.Proofs.Execution.Context
import CallProtocol.Proofs.Execution.Outcome
import CallProtocol.Proofs.Machine.Stack

/-!
# The stack over a run

The frames that entries of the host leave behind are the only ones that a run adds to
the stack. `Execution.hostFrames` counts them along the tree, and
`Execution.restacked` is the discipline that every task keeps, however the entries
behave: an entry leaves the stack as it was, with the frames of the host on top, and a
body takes one frame from the top.

`Execution.visited` lists the machines that a run goes through.
-/

namespace CallProtocol

open Machine

/-- The frames that a task finds on the stack as its own and takes from it. -/
def Task.ownFrames : Task → Nat
  | .body _ _ => 1
  | _ => 0

def Task.ofHost : Task → Prop
  | .entry (.host _) _ _ _ => True
  | _ => False

theorem Program.ownFrames_callee? {p : Program} {a : Activation} {c : CallSite} {m m₁ : Machine}
    {τ : Task} (hτ : p.callee? a c m = some (τ, m₁)) : τ.ownFrames = 0 := by
  rcases callee?_cases hτ with ⟨rfl, -⟩ | ⟨f, rfl, -⟩ | ⟨f, e, -, rfl, -⟩
  · rfl
  · rfl
  · rfl

namespace Execution

def hostFrames {p : Program} {τ : Task} {m : Machine} {r : Int32} {m' : Machine} :
    Execution p τ m r m' → Nat
  | stub _ _ _ _ => 0
  | host e _ _ _ _ => e.pushes
  | refused _ => 0
  | begun _ body => body.hostFrames
  | native _ => 0
  | null _ => 0
  | fallOff _ _ => 0
  | quiet _ next => next.hostFrames
  | returned _ _ _ _ => 0
  | unwound _ call _ => call.hostFrames
  | tailed _ call _ _ => call.hostFrames
  | resumed _ call _ _ next => call.hostFrames + next.hostFrames

def visited {p : Program} {τ : Task} {m : Machine} {r : Int32} {m' : Machine} :
    Execution p τ m r m' → List Machine
  | stub _ name _ m => [m.raise (Program.stubAbort name)]
  | host e f _ h m =>
    (List.range e.pushes).map (fun k => (Program.noteEntry f h m).pushEmpties (k + 1)) ++
      [(Program.runHostEntry e f h m).2]
  | @refused _ _ _ name _ m e _ => [m.raise (e.abort.through name)]
  | @begun _ _ _ _ _ _ _ m₁ _ _ _ body => m₁ :: body.visited
  | @native _ _ _ _ _ m' _ => [m']
  | null m => [m.raise Program.nullAbort]
  | fallOff _ m => [m.pop]
  | @quiet _ _ _ _ _ _ m₁ _ _ _ next => m₁ :: next.visited
  | @returned _ site _ a m _ => [a.giveBack m site, (a.giveBack m site).pop]
  | @unwound _ c _ a m _ m₁ _ m₂ _ call _ =>
    a.beforeCall m c :: m₁ :: call.visited ++ [m₂.unwind a.name]
  | @tailed _ c _ a m _ m₁ _ m₂ _ call _ _ => a.beforeCall m c :: m₁ :: call.visited ++ [m₂.pop]
  | @resumed _ c _ a m _ m₁ _ _ _ _ _ call _ _ next =>
    a.beforeCall m c :: m₁ :: call.visited ++ next.visited

theorem ofCall {p : Program} {a : Activation} {c : CallSite} {m m₁ m₂ : Machine} {τ : Task}
    {n : Nat} (callee : p.callee? a c (a.beforeCall m c) = some (τ, m₁))
    (call : Restacked τ.ownFrames n m₁ m₂) : Restacked 0 n m m₂ := by
  obtain ⟨hserials, hstats, -, -⟩ := Program.callee?_context callee
  rw [Program.ownFrames_callee? callee] at call
  exact call.after_same hserials hstats

/-- A task takes its own frames from the stack, and what else it leaves there are the
frames of the host. -/
theorem restacked {p : Program} {τ : Task} {m : Machine} {r : Int32} {m' : Machine}
    (x : Execution p τ m r m') : Restacked τ.ownFrames x.hostFrames m m' := by
  induction x with
  | stub f name h m => exact .same (serials_raise m _) (stats_raise m _)
  | host e f name h m =>
      obtain ⟨hframes, hstats, -⟩ := Program.runHostEntry_context e f h m
      have hserials := congrArg (List.map Frame.serial) hframes
      have noted : (Program.noteEntry f h m).serials = m.serials := rfl
      have pushed := (restacked_pushEmpties e.pushes _).after_same noted rfl
      exact pushed.trans (.same hserials hstats)
  | refused full => exact .same (serials_raise _ _) (stats_raise _ _)
  | begun room body ih => exact (Restacked.push room).cancel ih
  | native ran =>
      obtain ⟨hserials, hstats⟩ := Program.nativeCall_context ran
      exact .same hserials hstats
  | null m => exact .same (serials_raise m _) (stats_raise m _)
  | fallOff a m => exact .pop (.same rfl rfl) (serials_pop m) (pushed_pop m)
  | quiet step next ih =>
      have same := Activation.sameContext_quiet step
      exact ih.after_same same.serials same.stats
  | @returned site rest a m final =>
      have same := a.sameContext_giveBack m site
      exact .pop (.same same.serials same.stats) (serials_pop _) (pushed_pop _)
  | unwound callee call negative ih =>
      exact .pop (ofCall callee ih) (serials_unwind _ _) (by rw [stats_unwind, pushed_pop])
  | tailed callee call resumes kind ih =>
      exact .pop (ofCall callee ih) (serials_pop _) (pushed_pop _)
  | resumed callee call resumes kind next ihcall ihnext => exact (ofCall callee ihcall).trans ihnext

/-- What a callee reports, seen from a caller whose own frame is on the stack. It still
is when the callee has ended. -/
theorem reportsCall {p : Program} {a : Activation} {c : CallSite} {m m₁ m₂ : Machine}
    {τ : Task} {r : Int32} {S : Event → Prop}
    (callee : p.callee? a c (a.beforeCall m c) = some (τ, m₁)) (call : Execution p τ m₁ r m₂)
    (own : 0 < m.depth) (reports : τ.ownFrames ≤ m₁.depth → Reports S m₁ m₂) :
    Reports S m m₂ ∧ 0 < m₂.depth := by
  obtain ⟨-, -, -, hevents⟩ := Program.callee?_context callee
  have hown : τ.ownFrames ≤ m₁.depth := by
    rw [Program.ownFrames_callee? callee]
    exact Nat.zero_le _
  have hdepth := (ofCall callee call.restacked).depth_eq
  exact ⟨Reports.trans (.of_eq hevents) (reports hown), by omega⟩

/-- Tasks that find their own frames on the stack never find it empty. -/
theorem no_underflow {p : Program} {τ : Task} {m : Machine} {r : Int32} {m' : Machine}
    (x : Execution p τ m r m') (own : τ.ownFrames ≤ m.depth) :
    Reports (· ≠ .frameUnderflow) m m' := by
  have of_raise : ∀ (m : Machine) (a : Abort), Reports (· ≠ .frameUnderflow) m (m.raise a) := by
    intro m a
    refine (reports_raise m a).mono ?_
    rintro e ⟨previous, -, rfl⟩
    simp
  -- A task that finds its own frames on the stack leaves those of its callers there.
  induction x with
  | stub f name h m => exact of_raise m _
  | host e f name h m =>
      obtain ⟨-, -, hreports⟩ := Program.runHostEntry_context e f h m
      have hevents := (context_pushEmpties e.pushes (Program.noteEntry f h m)).2
      refine Reports.trans (.of_eq hevents) (hreports.mono ?_)
      rintro e ⟨previous, rfl⟩
      simp
  | refused full => exact of_raise _ _
  | begun room body ih =>
      have pushed := (Restacked.push room).depth_eq
      obtain ⟨-, rfl⟩ := push_eq_ok room
      exact ih (by rw [pushed]; exact Nat.le_add_right 1 _)
  | native ran =>
      have noted : ∀ {m m' : Machine}, AfterNative m m' → Reports (· ≠ .frameUnderflow) m m' := by
        intro m m' after
        refine after.reports.mono ?_
        rintro e ⟨kind, message, rfl⟩
        simp
      rcases Program.nativeCall_cases ran with ⟨hcall, -⟩ | ⟨a, m₁, hcall, -, rfl⟩
      · exact noted (Program.callNative_context hcall)
      · exact (noted (Program.callNative_context hcall)).trans (of_raise m₁ a)
  | null m => exact of_raise m _
  | fallOff a m => exact .of_eq (events_pop m own)
  | quiet step next ih =>
      have same := Activation.sameContext_quiet step
      exact Reports.trans (.of_eq same.events) (ih (by rwa [same.depth]))
  | @returned site rest a m final =>
      have same := a.sameContext_giveBack m site
      exact .of_eq (by rw [events_pop _ (by rwa [same.depth]), same.events])
  | unwound callee call negative ih =>
      obtain ⟨hreports, hdepth⟩ := reportsCall callee call own ih
      exact hreports.trans (reports_unwind hdepth _)
  | tailed callee call resumes kind ih =>
      obtain ⟨hreports, hdepth⟩ := reportsCall callee call own ih
      exact hreports.trans (.of_eq (events_pop _ hdepth))
  | resumed callee call resumes kind next ihcall ihnext =>
      obtain ⟨hreports, hdepth⟩ := reportsCall callee call own ihcall
      exact hreports.trans (ihnext hdepth)

theorem tracksCall {p : Program} {a : Activation} {c : CallSite} {m m₁ m₂ : Machine} {τ : Task}
    {past : List Machine} (callee : p.callee? a c (a.beforeCall m c) = some (τ, m₁))
    (call : Tracks m₁ past m₂) : Tracks m (a.beforeCall m c :: m₁ :: past) m₂ := by
  have same : SameContext m (a.beforeCall m c) := a.sameContext_flush m _
  obtain ⟨hserials, hstats, -, -⟩ := Program.callee?_context callee
  have prepared : Tracks m [a.beforeCall m c] (a.beforeCall m c) := .same same.depth same.stats
  have hdepth : m₁.depth = (a.beforeCall m c).depth := by
    rw [same.depth, depth_of_serials hserials]
  have begun : Tracks (a.beforeCall m c) [m₁] m₁ := .same hdepth (hstats.trans same.stats.symm)
  exact prepared.trans (begun.trans call)

/-- Along a run the frames stay balanced, and the greatest depth among the visited
machines is recorded. -/
theorem tracks {p : Program} {τ : Task} {m : Machine} {r : Int32} {m' : Machine}
    (x : Execution p τ m r m') : Tracks m x.visited m' := by
  induction x with
  | stub f name h m => exact .same (depth_raise m _) (stats_raise m _)
  | host e f name h m =>
      obtain ⟨hframes, hstats, -⟩ := Program.runHostEntry_context e f h m
      have noted : (Program.noteEntry f h m).depth = m.depth := rfl
      have pushed := (tracks_pushEmpties e.pushes _).after_same noted rfl
      exact pushed.trans (.same (congrArg List.length hframes) hstats)
  | refused full => exact .same (depth_raise _ _) (stats_raise _ _)
  | begun room body ih => exact (Tracks.push room).trans ih
  | native ran =>
      obtain ⟨hserials, hstats⟩ := Program.nativeCall_context ran
      exact .same (depth_of_serials hserials) hstats
  | null m => exact .same (depth_raise m _) (stats_raise m _)
  | fallOff a m => exact .pop m
  | quiet step next ih =>
      have same := Activation.sameContext_quiet step
      exact (Tracks.same same.depth same.stats).trans ih
  | @returned site rest a m final =>
      have same := a.sameContext_giveBack m site
      exact (Tracks.same same.depth same.stats).trans (.pop _)
  | unwound callee call negative ih =>
      exact (tracksCall callee ih).trans (.popped (depth_unwind _ _) (stats_unwind _ _))
  | tailed callee call resumes kind ih => exact (tracksCall callee ih).trans (.pop _)
  | resumed callee call resumes kind next ihcall ihnext =>
      exact (tracksCall callee ihcall).trans ihnext

end Execution

end CallProtocol
