/-
Computations with a state that survives exceptions.

A method of a stateful object that returns `Left`, or throws, has made the assignments it
reached: the state is not rolled back. `Effect σ ε α` is such a computation, `exec` runs
it, and the lemmas say what each of the few statements it is made of does to the outcome
and to the state.
-/
import Mathlib.Init

set_option autoImplicit false

/-- A computation that answers or fails, and leaves a state in either case. -/
abbrev Effect (σ ε α : Type) := ExceptT ε (StateM σ) α

namespace Effect

variable {σ ε α β : Type}

/-- The outcome and the state that is left. -/
def exec (x : Effect σ ε α) (s : σ) : Except ε α × σ := Id.run (StateT.run (ExceptT.run x) s)

/-- What is known to answer or to fail already. -/
def lift (v : Except ε α) : Effect σ ε α := ExceptT.mk (StateT.pure v)

def read : Effect σ ε σ := get

/-- An assignment. -/
def update (f : σ → σ) : Effect σ ε Unit := modify f

@[simp] theorem exec_pure (a : α) (s : σ) : (pure a : Effect σ ε α).exec s = (.ok a, s) := rfl

@[simp] theorem exec_lift (v : Except ε α) (s : σ) :
    (lift v : Effect σ ε α).exec s = (v, s) := rfl

@[simp] theorem exec_read (s : σ) : (read : Effect σ ε σ).exec s = (.ok s, s) := rfl

@[simp] theorem exec_update (f : σ → σ) (s : σ) :
    (update f : Effect σ ε Unit).exec s = (.ok (), f s) := rfl

/-- A sequence goes on from the state its first part left, unless that failed. -/
theorem exec_bind (x : Effect σ ε α) (f : α → Effect σ ε β) (s : σ) :
    (x >>= f).exec s =
      match x.exec s with
      | (.ok a, s') => (f a).exec s'
      | (.error e, s') => (.error e, s') := by
  have hrun : (x >>= f).exec s =
      Id.run (StateT.run (ExceptT.bindCont f (x.exec s).1) (x.exec s).2) := rfl
  rw [hrun]
  obtain ⟨e | a, s'⟩ := x.exec s <;> rfl

/-- After a part that answered, the rest runs. -/
theorem exec_bind_ok {x : Effect σ ε α} {f : α → Effect σ ε β} {s s' : σ} {a : α}
    (h : x.exec s = (.ok a, s')) : (x >>= f).exec s = (f a).exec s' := by
  rw [exec_bind, h]

/-- After a part that failed, nothing runs. -/
theorem exec_bind_error {x : Effect σ ε α} {f : α → Effect σ ε β} {s s' : σ} {e : ε}
    (h : x.exec s = (.error e, s')) : (x >>= f).exec s = (.error e, s') := by
  rw [exec_bind, h]

/-- A known value is bound as it is. -/
theorem exec_lift_bind (v : Except ε α) (f : α → Effect σ ε β) (s : σ) :
    (lift v >>= f).exec s =
      match v with
      | .ok a => (f a).exec s
      | .error e => (.error e, s) := by
  cases v <;> rfl

@[simp] theorem exec_update_bind (g : σ → σ) (f : Unit → Effect σ ε β) (s : σ) :
    (update g >>= f).exec s = (f ()).exec (g s) := rfl

@[simp] theorem exec_read_bind (f : σ → Effect σ ε β) (s : σ) :
    (read >>= f).exec s = (f s).exec s := rfl

end Effect
