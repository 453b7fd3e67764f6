import Mathlib

/-!
# Computations that fail and keep their state

A computation over a state `S` returns a value or throws an `E`, and the state
stays either way: what happened before the throw has happened. `exec` runs one,
with an equation for every construct. A relation of states that every step keeps
is kept by the whole (`Keeps`), by rules for each construct if the relation is
reflexive and transitive.
-/

namespace Tabulark

/-- A computation that may throw; the state stays. -/
def Async (S E α : Type) : Type := S → Except E α × S

namespace Async

variable {S E α β : Type}

/-- Runs a computation. -/
def exec (x : Async S E α) (s : S) : Except E α × S := x s

instance : Monad (Async S E) where
  pure a s := (.ok a, s)
  bind x f s := match x s with
    | (.ok a, s') => f a s'
    | (.error e, s') => (.error e, s')

instance : MonadExceptOf E (Async S E) where
  throw e s := (.error e, s)
  tryCatch x f s := match x s with
    | (.ok a, s') => (.ok a, s')
    | (.error e, s') => f e s'

instance : MonadStateOf S (Async S E) where
  get s := (.ok s, s)
  set s _ := (.ok ⟨⟩, s)
  modifyGet f s := (.ok (f s).1, (f s).2)

/-- `finally` runs either way, and what it throws comes first. -/
def finallyDo (x : Async S E α) (y : Async S E β) : Async S E α := fun s =>
  match x s with
  | (r, s') => match y s' with
    | (.ok _, s'') => (r, s'')
    | (.error e, s'') => (.error e, s'')

/-! ## Equations -/

@[simp] theorem exec_pure (a : α) (s : S) : exec (pure a : Async S E α) s = (.ok a, s) := rfl

@[simp] theorem exec_throw (e : E) (s : S) : exec (throw e : Async S E α) s = (.error e, s) := rfl

@[simp] theorem exec_get (s : S) : exec (get : Async S E S) s = (.ok s, s) := rfl

@[simp] theorem exec_modify (f : S → S) (s : S) :
    exec (modify f : Async S E PUnit) s = (.ok ⟨⟩, f s) := rfl

theorem exec_bind (x : Async S E α) (f : α → Async S E β) (s : S) :
    exec (x >>= f) s = match exec x s with
      | (.ok a, s') => exec (f a) s'
      | (.error e, s') => (.error e, s') := rfl

theorem exec_bind_ok {x : Async S E α} {f : α → Async S E β} {s s' : S} {a : α}
    (h : exec x s = (.ok a, s')) : exec (x >>= f) s = exec (f a) s' := by
  rw [exec_bind, h]

theorem exec_tryCatch (x : Async S E α) (f : E → Async S E α) (s : S) :
    exec (tryCatch x f) s = match exec x s with
      | (.ok a, s') => (.ok a, s')
      | (.error e, s') => exec (f e) s' := rfl

theorem exec_finallyDo (x : Async S E α) (y : Async S E β) (s : S) :
    exec (finallyDo x y) s = match exec x s with
      | (r, s') => match exec y s' with
        | (.ok _, s'') => (r, s'')
        | (.error e, s'') => (.error e, s'') := rfl

/-! ## Relations that are kept -/

/-- A computation relates the state before it to the one after it. -/
def Keeps (R : S → S → Prop) (x : Async S E α) : Prop := ∀ s, R s (exec x s).2

namespace Keeps

variable {R : S → S → Prop}

theorem modify {f : S → S} (hf : ∀ s, R s (f s)) : Keeps R (modify f : Async S E PUnit) := hf

theorem mono {R' : S → S → Prop} {x : Async S E α} (hR : ∀ s s', R s s' → R' s s')
    (hx : Keeps R x) : Keeps R' x := fun s => hR _ _ (hx s)

variable [IsPreorder S R] {x : Async S E α}

theorem pure (a : α) : Keeps R (Pure.pure a : Async S E α) := fun s => refl_of R s

theorem throw (e : E) : Keeps R (throw e : Async S E α) := fun s => refl_of R s

theorem get : Keeps R (MonadState.get : Async S E S) := fun s => refl_of R s

theorem bind {f : α → Async S E β} (hx : Keeps R x) (hf : ∀ a, Keeps R (f a)) :
    Keeps R (x >>= f) := by
  intro s
  have hfirst := hx s
  rw [exec_bind]
  rcases hexec : exec x s with ⟨e | a, s'⟩
  · rwa [hexec] at hfirst
  · rw [hexec] at hfirst
    exact trans_of R hfirst (hf a s')

end Keeps

end Async

end Tabulark
