import Mathlib

/-!
# Updates in place

An update reads and assigns the fields of a state and may fail on the way. What
it assigned before it failed stays, so that an update is atomic only if it fails
before it assigns, or restores what it assigned.
-/

namespace Tabulark

/-- An update of a state, with a result or an error. -/
def Update (ε σ α : Type) : Type := σ → Except ε α × σ

namespace Update

variable {ε σ α β : Type}

/-- What an update makes of a state. -/
def on (u : Update ε σ α) (s : σ) : Except ε α × σ := u s

/-- Goes on with what a first part made of the state, unless it failed. -/
def andThen (u : Update ε σ α) (f : α → Update ε σ β) : Update ε σ β := fun s =>
  match u.on s with
  | (.ok a, s') => (f a).on s'
  | (.error e, s') => (.error e, s')

instance : Monad (Update ε σ) where
  pure a := fun s => (.ok a, s)
  bind := andThen

/-- A computation that does not touch the state. -/
def of (x : Except ε α) : Update ε σ α := fun s => (x, s)

/-- Fails. -/
def fail (e : ε) : Update ε σ α := fun s => (.error e, s)

/-- Assigns to the state. -/
def assign (f : σ → σ) : Update ε σ Unit := fun s => (.ok (), f s)

/-- Reads the state. -/
def read : Update ε σ σ := fun s => (.ok s, s)

variable {s s' : σ} {u : Update ε σ α} {f : α → Update ε σ β}

@[simp] theorem on_pure (a : α) : (pure a : Update ε σ α).on s = (.ok a, s) := rfl

theorem on_bind : (u >>= f).on s =
    match u.on s with
    | (.ok a, s') => (f a).on s'
    | (.error e, s') => (.error e, s') := rfl

theorem on_bind_of_ok {a : α} (h : u.on s = (.ok a, s')) : (u >>= f).on s = (f a).on s' := by
  rw [on_bind, h]

theorem on_bind_of_error {e : ε} (h : u.on s = (.error e, s')) :
    (u >>= f).on s = (.error e, s') := by
  rw [on_bind, h]

@[simp] theorem on_read_bind (f : σ → Update ε σ β) : (read >>= f).on s = (f s).on s := rfl

@[simp] theorem on_assign (g : σ → σ) : (assign g : Update ε σ Unit).on s = (.ok (), g s) := rfl

@[simp] theorem on_assign_bind (g : σ → σ) (f : Unit → Update ε σ β) :
    (assign g >>= f).on s = (f ()).on (g s) := rfl

@[simp] theorem on_ok_bind (a : α) : ((of (.ok a) : Update ε σ α) >>= f).on s = (f a).on s := rfl

/-- A computation that does not touch the state, in front of an update. -/
theorem on_of_bind_cases {x : Except ε α} {motive : Except ε β × σ → Prop}
    (herror : ∀ e, x = .error e → motive (.error e, s))
    (hok : ∀ a, x = .ok a → motive ((f a).on s)) : motive ((of x >>= f).on s) := by
  cases x with
  | error e => exact herror e rfl
  | ok a => exact hok a rfl

end Update

end Tabulark
