import Mathlib
import Tabulark.Lib.Run

/-!
# Two parties and the messages between them

Two parties, left and right, are joined by two channels that keep the order of
what is sent. A party acts by itself or takes the first message of the channel
to it; either changes its state and sends messages.

* `Parties.step_keeps`: an invariant is kept if each of the four kinds of moves
  keeps it;
* `Follows.append`: what one party makes of all messages on their way to it stays
  known when the other one sends more.
-/

namespace Tabulark.Duplex

/-- Two parties and the messages on their way, the oldest first. -/
structure Link (L R A B : Type*) where
  left : L
  right : R
  toRight : List A
  toLeft : List B

/-- How two parties act by themselves and on a message: the next state and what is sent. -/
structure Parties (L R A B E F : Type*) where
  actLeft : L → E → L × List A
  actRight : R → F → R × List B
  onLeft : L → B → L × List A
  onRight : R → A → R × List B

/-- A party acts by itself or takes the next message to it. -/
inductive Move (E F : Type*)
  | left (e : E)
  | right (f : F)
  | deliverLeft
  | deliverRight
  deriving DecidableEq, Repr

variable {L R A B E F : Type*}

/-- Nothing is on its way. -/
def Link.Quiet (s : Link L R A B) : Prop := s.toRight = [] ∧ s.toLeft = []

/-- The left party goes on to a state and sends messages. -/
def Link.leftTo (s : Link L R A B) (next : L × List A) : Link L R A B :=
  { s with left := next.1, toRight := s.toRight ++ next.2 }

/-- The right party goes on to a state and sends messages. -/
def Link.rightTo (s : Link L R A B) (next : R × List B) : Link L R A B :=
  { s with right := next.1, toLeft := s.toLeft ++ next.2 }

@[simp] theorem Link.leftTo_nil (s : Link L R A B) (l : L) :
    s.leftTo (l, []) = { s with left := l } := by
  rw [leftTo, List.append_nil]

/-- A move of one party. -/
def Parties.step (p : Parties L R A B E F) (s : Link L R A B) : Move E F → Link L R A B
  | .left e => s.leftTo (p.actLeft s.left e)
  | .right f => s.rightTo (p.actRight s.right f)
  | .deliverLeft =>
      match s.toLeft with
      | [] => s
      | m :: rest => { s with toLeft := rest }.leftTo (p.onLeft s.left m)
  | .deliverRight =>
      match s.toRight with
      | [] => s
      | m :: rest => { s with toRight := rest }.rightTo (p.onRight s.right m)

/-- An invariant that the acts of both parties and the delivery of every first message keep. -/
theorem Parties.step_keeps {p : Parties L R A B E F} {I : Link L R A B → Prop}
    (hleft : ∀ s e, I s → I (s.leftTo (p.actLeft s.left e)))
    (hright : ∀ s f, I s → I (s.rightTo (p.actRight s.right f)))
    (honLeft : ∀ s m rest, s.toLeft = m :: rest → I s →
      I ({ s with toLeft := rest }.leftTo (p.onLeft s.left m)))
    (honRight : ∀ s m rest, s.toRight = m :: rest → I s →
      I ({ s with toRight := rest }.rightTo (p.onRight s.right m)))
    (s : Link L R A B) (move : Move E F) (hs : I s) : I (p.step s move) := by
  cases move with
  | left e => exact hleft s e hs
  | right f => exact hright s f hs
  | deliverLeft =>
    unfold Parties.step
    cases hto : s.toLeft with
    | nil => exact hs
    | cons m rest => exact honLeft s m rest hto hs
  | deliverRight =>
    unfold Parties.step
    cases hto : s.toRight with
    | nil => exact hs
    | cons m rest => exact honRight s m rest hto hs

/-! ## Following the messages -/

section Follows

variable {V : Type*} (see : V → B → V) (Good : V → B → Prop) (Settled : R → V → Prop)

/-- What the left party keeps of the messages, `see`, meets `Good` at every message on its way
    and fits the right party after the last of them. -/
def Follows (r : R) (v : V) (msgs : List B) : Prop :=
  Run.Along see Good v msgs ∧ Settled r (Run.run see v msgs)

variable {see Good Settled}

/-- Messages that are sent by a party in a state that fits extend those on their way. -/
theorem Follows.append {r r' : R} {v : V} {msgs out : List B}
    (h : Follows see Good Settled r v msgs)
    (hout : ∀ v, Settled r v → Follows see Good Settled r' v out) :
    Follows see Good Settled r' v (msgs ++ out) := by
  obtain ⟨halong, hsettled⟩ := hout _ h.2
  exact ⟨(Run.along_append v msgs out).2 ⟨h.1, halong⟩, by rwa [Run.run_append]⟩

/-- The first message is taken. -/
theorem Follows.tail {r : R} {v : V} {m : B} {msgs : List B}
    (h : Follows see Good Settled r v (m :: msgs)) :
    Good v m ∧ Follows see Good Settled r (see v m) msgs := ⟨h.1.1, h.1.2, h.2⟩

end Follows

end Tabulark.Duplex
