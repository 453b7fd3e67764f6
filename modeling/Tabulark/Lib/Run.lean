import Mathlib

/-!
# Runs

A machine takes one event after another. `Along P` says that `P` holds of every
step of a run, and `along_iff` compares two such properties step by step, given
an invariant that good steps keep.
-/

namespace Tabulark.Run

variable {S E : Type*} (step : S → E → S)

/-- The state after some events. -/
def run (s : S) (es : List E) : S := es.foldl step s

/-- Every event of a run meets `P` in the state it finds. -/
def Along (P : S → E → Prop) : S → List E → Prop
  | _, [] => True
  | s, e :: es => P s e ∧ Along P (step s e) es

@[simp] theorem run_nil (s : S) : run step s [] = s := rfl

@[simp] theorem run_cons (s : S) (e : E) (es : List E) :
    run step s (e :: es) = run step (step s e) es := rfl

theorem run_append (s : S) (es fs : List E) :
    run step s (es ++ fs) = run step (run step s es) fs := List.foldl_append

variable {step} {P Q Inv : S → E → Prop} {I : S → Prop} {s : S} {es : List E}

theorem along_true (s : S) (es : List E) : Along step (fun _ _ => True) s es := by
  induction es generalizing s with
  | nil => trivial
  | cons e es ih => exact ⟨trivial, ih _⟩

theorem along_append (s : S) (es fs : List E) :
    Along step P s (es ++ fs) ↔ Along step P s es ∧ Along step P (run step s es) fs := by
  induction es generalizing s with
  | nil => exact (iff_of_eq (true_and _)).symm
  | cons e es ih => exact (and_congr_right fun _ => ih _).trans and_assoc.symm

theorem Along.and (hP : Along step P s es) (hQ : Along step Q s es) :
    Along step (fun s e => P s e ∧ Q s e) s es := by
  induction es generalizing s with
  | nil => trivial
  | cons e es ih => exact ⟨⟨hP.1, hQ.1⟩, ih hP.2 hQ.2⟩

/-- An invariant that steps with `P` keep holds before every step and after the last. -/
theorem Along.invariant (hstep : ∀ s e, I s → P s e → I (step s e)) (h : Along step P s es)
    (hs : I s) : Along step (fun s e => I s ∧ P s e) s es ∧ I (run step s es) := by
  induction es generalizing s with
  | nil => exact ⟨trivial, hs⟩
  | cons e es ih =>
    obtain ⟨hall, hlast⟩ := ih h.2 (hstep s e hs h.1)
    exact ⟨⟨⟨hs, h.1⟩, hall⟩, hlast⟩

theorem Along.imp (hPQ : ∀ s e, P s e → Q s e) (h : Along step P s es) : Along step Q s es := by
  induction es generalizing s with
  | nil => trivial
  | cons e es ih => exact ⟨hPQ _ _ h.1, ih h.2⟩

/-- An invariant that every step keeps holds after every run. -/
theorem invariant (hstep : ∀ s e, I s → I (step s e)) (hs : I s) (es : List E) :
    I (run step s es) :=
  ((along_true s es).invariant (fun s e h _ => hstep s e h) hs).2

/-- Where the invariant holds `P` and `Q` are the same of one step, and such steps keep it: they
    are the same of all steps of a run. -/
theorem along_iff (hstep : ∀ s e, I s → Q s e → I (step s e))
    (hPQ : ∀ s e, I s → (P s e ↔ Q s e)) (hs : I s) :
    Along step P s es ↔ Along step Q s es := by
  induction es generalizing s with
  | nil => exact Iff.rfl
  | cons e es ih =>
    constructor
    · intro h
      have hQ := (hPQ s e hs).1 h.1
      exact ⟨hQ, (ih (hstep s e hs hQ)).1 h.2⟩
    · intro h
      exact ⟨(hPQ s e hs).2 h.1, (ih (hstep s e hs h.1)).2 h.2⟩

end Tabulark.Run
