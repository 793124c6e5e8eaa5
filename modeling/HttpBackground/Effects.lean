import Mathlib.Logic.Basic

/-!
# Computations with a state and exceptions

What a computation has done to the state stays done when an exception leaves
it. `exec` runs one, and a sequence is run through the outcome of its first
part.
-/
namespace HttpBackground

namespace Effects

variable {ε σ α β : Type}

/-- The outcome and the state after it. -/
def exec (x : ExceptT ε (StateM σ) α) (s : σ) : Except ε α × σ := x.run.run s

variable {x : ExceptT ε (StateM σ) α} {f : α → ExceptT ε (StateM σ) β} {s s' : σ} {a : α} {e : ε}

@[simp] theorem exec_pure : exec (pure a : ExceptT ε (StateM σ) α) s = (.ok a, s) := rfl

@[simp] theorem exec_throw : exec (throw e : ExceptT ε (StateM σ) α) s = (.error e, s) := rfl

@[simp] theorem exec_get : exec (get : ExceptT ε (StateM σ) σ) s = (.ok s, s) := rfl

@[simp] theorem exec_set : exec (set s' : ExceptT ε (StateM σ) PUnit) s = (.ok ⟨⟩, s') := rfl

@[simp] theorem exec_modify {g : σ → σ} :
    exec (modify g : ExceptT ε (StateM σ) PUnit) s = (.ok ⟨⟩, g s) := rfl

theorem exec_bind : exec (x >>= f) s = (ExceptT.bindCont f (exec x s).1).run (exec x s).2 := rfl

/-- The second part runs in the state the first has left. -/
theorem exec_bind_of_ok (h : exec x s = (.ok a, s')) : exec (x >>= f) s = exec (f a) s' := by
  rw [exec_bind, h]
  rfl

/-- An exception skips the second part. -/
theorem exec_bind_of_error (h : exec x s = (.error e, s')) :
    exec (x >>= f) s = (.error e, s') := by
  rw [exec_bind, h]
  rfl

@[simp] theorem exec_get_bind {g : σ → ExceptT ε (StateM σ) β} :
    exec (get >>= g) s = exec (g s) s := rfl

@[simp] theorem exec_set_bind {g : PUnit → ExceptT ε (StateM σ) β} :
    exec (set s' >>= g) s = exec (g ⟨⟩) s' := rfl

@[simp] theorem exec_modify_bind {g : PUnit → ExceptT ε (StateM σ) β} {k : σ → σ} :
    exec (modify k >>= g) s = exec (g ⟨⟩) (k s) := rfl

/-- What holds before a computation holds after it, however it ends. -/
def Keeps (P : σ → Prop) (x : ExceptT ε (StateM σ) α) : Prop := ∀ s, P s → P (exec x s).2

variable {P : σ → Prop}

theorem Keeps.pure (a : α) : Keeps P (pure a : ExceptT ε (StateM σ) α) := fun _ h => h

theorem Keeps.throw (e : ε) : Keeps P (throw e : ExceptT ε (StateM σ) α) := fun _ h => h

theorem Keeps.modify {g : σ → σ} (h : ∀ s, P s → P (g s)) :
    Keeps P (modify g : ExceptT ε (StateM σ) PUnit) := h

theorem Keeps.bind (hx : Keeps P x) (hf : ∀ a, Keeps P (f a)) : Keeps P (x >>= f) := by
  intro s hs
  have h := hx s hs
  rcases hexec : exec x s with ⟨e | a, s'⟩
  · rw [exec_bind_of_error hexec]
    rwa [hexec] at h
  · rw [exec_bind_of_ok hexec]
    rw [hexec] at h
    exact hf a s' h

/-- A computation that looks at the state first. -/
theorem Keeps.get_bind {g : σ → ExceptT ε (StateM σ) β} (h : ∀ s, P s → P (exec (g s) s).2) :
    Keeps P (get >>= g) := h

end Effects

end HttpBackground
