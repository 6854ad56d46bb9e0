import DataReel.Library.Exec

/-! # Two runs of one program

A program with a state and an error is run from two related states. The runs
are coupled when they end alike, with the same result or the same error, in
states that are related again.
-/

namespace DataReel

universe u

variable {ε σ α β : Type u}

/-- How two runs end: with equal results and states that `Q` relates, or with equal errors and
states that `E` relates. -/
inductive EndAlike (Q : α → σ → σ → Prop) (E : σ → σ → Prop) :
    EStateM.Result ε σ α → EStateM.Result ε σ α → Prop
  | ok {a : α} {s t : σ} (h : Q a s t) : EndAlike Q E (.ok a s) (.ok a t)
  | error {e : ε} {s t : σ} (h : E s t) : EndAlike Q E (.error e s) (.error e t)

/-- The runs of `x` from states that `P` relates end alike. -/
def Coupled (P : σ → σ → Prop) (x : EStateM ε σ α) (Q : α → σ → σ → Prop) (E : σ → σ → Prop) :
    Prop := ∀ s t, P s t → EndAlike Q E (x s) (x t)

namespace Coupled

variable {P P' E : σ → σ → Prop} {Q : α → σ → σ → Prop} {x : EStateM ε σ α}

theorem pure {a : α} (h : ∀ s t, P s t → Q a s t) :
    Coupled P (Pure.pure a : EStateM ε σ α) Q E := fun s t hP => .ok (h s t hP)

theorem throw {e : ε} (h : ∀ s t, P s t → E s t) :
    Coupled P (MonadExcept.throw e : EStateM ε σ α) Q E := fun s t hP => .error (h s t hP)

theorem update {g : σ → σ} {Q : PUnit → σ → σ → Prop} (h : ∀ s t, P s t → Q ⟨⟩ (g s) (g t)) :
    Coupled P (modify g : EStateM ε σ PUnit) Q E := fun s t hP => .ok (h s t hP)

theorem bind {f : α → EStateM ε σ β} {Q' : β → σ → σ → Prop} (hx : Coupled P x Q E)
    (hf : ∀ a, Coupled (Q a) (f a) Q' E) : Coupled P (x >>= f) Q' E := by
  intro s t hP
  have hEnds := hx s t hP
  generalize hs : x s = r at hEnds
  generalize ht : x t = r' at hEnds
  cases hEnds with
  | ok h =>
    rw [Exec.bind_ok hs, Exec.bind_ok ht]
    exact hf _ _ _ h
  | error h =>
    rw [Exec.bind_error hs, Exec.bind_error ht]
    exact .error h

theorem get {f : σ → EStateM ε σ α} (hSame : ∀ s t, P s t → f s = f t)
    (hf : ∀ s, Coupled P (f s) Q E) : Coupled P (MonadState.get >>= f) Q E := by
  intro s t hP
  rw [Exec.bind_ok (Exec.get_run s), Exec.bind_ok (Exec.get_run t), ← hSame s t hP]
  exact hf s s t hP

theorem ite {c : Prop} [Decidable c] {y : EStateM ε σ α} (hx : Coupled P x Q E)
    (hy : Coupled P y Q E) : Coupled P (if c then x else y) Q E := by
  split
  · exact hx
  · exact hy

theorem weaken (hx : Coupled P x Q E) (h : ∀ s t, P' s t → P s t) : Coupled P' x Q E :=
  fun s t hP => hx s t (h s t hP)

theorem mono {Q' : α → σ → σ → Prop} (hx : Coupled P x Q E) (h : ∀ a s t, Q a s t → Q' a s t) :
    Coupled P x Q' E := by
  intro s t hP
  have hEnds := hx s t hP
  generalize x s = r at hEnds
  generalize x t = r' at hEnds
  cases hEnds with
  | ok hQ => exact .ok (h _ _ _ hQ)
  | error hE => exact .error hE

end Coupled

end DataReel
