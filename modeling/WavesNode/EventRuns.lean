/-
Runs of a component that handles one event at a time.

The component is a total step on its state, and a run is the fold of the step over
the events handled so far, in any order the environment chose. What holds of every
run is proved by induction from the right: the history so far, and one more event.
-/
import Mathlib.Data.List.Induction

set_option autoImplicit false

namespace EventRun

variable {σ ε : Type} (step : σ → ε → σ) (s₀ : σ)

/-- The state after the events. -/
def after (events : List ε) : σ := events.foldl step s₀

@[simp] theorem after_nil : after step s₀ [] = s₀ := rfl

@[simp] theorem after_concat (past : List ε) (e : ε) :
    after step s₀ (past ++ [e]) = step (after step s₀ past) e := by
  unfold after
  rw [List.foldl_append]
  rfl

theorem after_append (past later : List ε) :
    after step s₀ (past ++ later) = after step (after step s₀ past) later :=
  List.foldl_append

/-- **The run rule**: what holds at the start and survives one more event, whatever
the history before it, holds after every history. -/
theorem invariant {I : List ε → σ → Prop} (start : I [] s₀)
    (next : ∀ past e, I past (after step s₀ past) →
      I (past ++ [e]) (step (after step s₀ past) e)) (events : List ε) :
    I events (after step s₀ events) := by
  induction events using List.reverseRecOn with
  | nil => exact start
  | append_singleton past e ih =>
    rw [after_concat]
    exact next past e ih

/-- What no event can undo still holds later. -/
theorem stable {P : σ → Prop} (next : ∀ s e, P s → P (step s e)) {s : σ} (h : P s)
    (later : List ε) : P (after step s later) := by
  induction later generalizing s with
  | nil => exact h
  | cons e later ih => exact ih (next s e h)

end EventRun
