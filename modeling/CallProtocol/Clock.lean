/-!
# The cycle clock

The clock runs while script code runs and stands still while host code runs. How
much time it has counted is not part of the model, only whether it is running.
-/

namespace CallProtocol

structure Clock where
  running : Bool := false
  deriving DecidableEq

namespace Clock

def resume (_ : Clock) : Clock := ⟨true⟩

def pause (_ : Clock) : Clock := ⟨false⟩

def restore (before : Clock) (now : Clock) : Clock :=
  if before.running then now.resume else now

@[simp] theorem running_resume (c : Clock) : c.resume.running = true := rfl

@[simp] theorem running_pause (c : Clock) : c.pause.running = false := rfl

@[simp] theorem restore_pause (c : Clock) : restore c c.pause = c := by
  rcases c with ⟨_ | _⟩ <;> rfl

end Clock

end CallProtocol
