import Mathlib.Data.Finset.Card
import Mathlib.Data.Fintype.Pigeonhole
import Mathlib.Data.Set.Finite.Basic

/-! # Loops that may not end

A loop goes from state to state until there is no next one. Over finitely many
places it ends exactly if it does not come back to a state it has been in.
-/

namespace DataReel.Loop

universe u v w

variable {σ : Type u} (next : σ → Option σ)

/-- The state after some turns, `none` if the loop has ended by then. -/
def after : Nat → σ → Option σ
  | 0, s => some s
  | n + 1, s => (next s).bind (after n)

def Ends (s : σ) : Prop := ∃ n, after next n s = none

/-- The loop comes to a state that it comes to again. -/
def Circles (s : σ) : Prop :=
  ∃ i k t, after next i s = some t ∧ after next (k + 1) t = some t

variable {next} {s t : σ} {n k : Nat}

theorem after_add : after next (n + k) s = (after next n s).bind (after next k) := by
  induction n generalizing s with
  | zero => rw [Nat.zero_add, after, Option.bind_some]
  | succ n ih =>
    rw [Nat.add_right_comm, after, after, Option.bind_assoc]
    exact congrArg _ (funext fun t => ih)

theorem after_none_mono (h : after next n s = none) (hnk : n ≤ k) : after next k s = none := by
  obtain ⟨m, rfl⟩ := Nat.exists_eq_add_of_le hnk
  rw [after_add, h, Option.bind_none]

theorem after_succ (h : after next n s = some t) : after next (n + 1) s = next t := by
  rw [after_add, h, Option.bind_some, after]
  cases next t <;> rfl

theorem Circles.not_ends (h : Circles next s) : ¬ Ends next s := by
  obtain ⟨i, k, t, hTo, hRound⟩ := h
  rintro ⟨n, hEnd⟩
  have hRounds (m : Nat) : after next (i + m * (k + 1)) s = some t := by
    induction m with
    | zero => rwa [Nat.zero_mul, Nat.add_zero]
    | succ m ih => rw [Nat.succ_mul, ← Nat.add_assoc, after_add, ih, Option.bind_some, hRound]
  have hLate : n ≤ i + n * (k + 1) := by
    rw [Nat.mul_succ]
    omega
  have hNone := after_none_mono hEnd hLate
  rw [hRounds n] at hNone
  cases hNone

section Key

variable (key : σ → Nat) (N : Nat) (hBound : ∀ s t, next s = some t → key s < N)
  (hKey : ∀ s s' t t', next s = some t → next s' = some t' → key s = key s' → t = t')

include hBound hKey

/-- A loop that turns more often than there are places comes to a place twice. -/
theorem circles_of_turns (h : after next (N + 1) s ≠ none) : Circles next s := by
  have hState (i : Nat) (hi : i ≤ N + 1) : ∃ t, after next i s = some t := by
    refine Option.ne_none_iff_exists'.mp fun hNone => ?_
    exact h (after_none_mono hNone hi)
  have hTurn (i : Nat) (hi : i ≤ N) : ∃ t t', after next i s = some t ∧ next t = some t' ∧
      after next (i + 1) s = some t' := by
    obtain ⟨t, ht⟩ := hState i (by omega)
    obtain ⟨t', ht'⟩ := hState (i + 1) (by omega)
    exact ⟨t, t', ht, (after_succ ht).symm.trans ht', ht'⟩
  obtain ⟨i, hi, j, hj, hne, hSame⟩ := Finset.exists_ne_map_eq_of_card_lt_of_maps_to
    (s := Finset.range (N + 1)) (t := Finset.range N) (by simp)
    (f := fun i => ((after next i s).map key).getD 0) (by
      intro i hi
      obtain ⟨t, t', ht, hNext, -⟩ := hTurn i (by simpa [Nat.lt_succ_iff] using hi)
      simpa [ht] using hBound t t' hNext)
  have hLe {i : Nat} (hi : i ∈ Finset.range (N + 1)) : i ≤ N := by
    simpa [Nat.lt_succ_iff] using hi
  wlog hLess : i < j generalizing i j
  · exact this j hj i hi hne.symm hSame.symm (by omega)
  obtain ⟨t, t', ht, hNext, hAfter⟩ := hTurn i (hLe hi)
  obtain ⟨u, u', hu, hNext', hAfter'⟩ := hTurn j (hLe hj)
  simp only [ht, hu, Option.map_some, Option.getD_some] at hSame
  obtain rfl := hKey t u t' u' hNext hNext' hSame
  refine ⟨i + 1, j - i - 1, t', hAfter, ?_⟩
  have hSplit : j + 1 = (i + 1) + (j - i - 1 + 1) := by omega
  rw [hSplit, after_add, hAfter, Option.bind_some] at hAfter'
  exact hAfter'

theorem ends_iff : Ends next s ↔ ¬ Circles next s := by
  constructor
  · exact fun hEnds hCircles => hCircles.not_ends hEnds
  · intro hNot
    refine ⟨N + 1, Classical.not_not.mp fun hTurns => ?_⟩
    exact hNot (circles_of_turns key N hBound hKey hTurns)

end Key

/-- A loop that goes through finitely many states ends exactly if it does not circle. -/
theorem ends_iff_of_finite {S : Set σ} (hFinite : S.Finite)
    (hNext : ∀ s t, next s = some t → t ∈ S) : Ends next s ↔ ¬ Circles next s := by
  refine ⟨fun hEnds hCircles => hCircles.not_ends hEnds, fun hNot => ?_⟩
  by_contra hEndless
  have hState (i : Nat) : ∃ t ∈ S, after next (i + 1) s = some t := by
    obtain ⟨u, hu⟩ := Option.ne_none_iff_exists'.mp fun hNone => hEndless ⟨i, hNone⟩
    obtain ⟨t, ht⟩ := Option.ne_none_iff_exists'.mp fun hNone => hEndless ⟨i + 1, hNone⟩
    exact ⟨t, hNext u t ((after_succ hu).symm.trans ht), ht⟩
  choose state hMem hAfter using hState
  have := hFinite.to_subtype
  obtain ⟨i, j, hne, hMap⟩ := Finite.exists_ne_map_eq_of_infinite fun i => (⟨state i, hMem i⟩ : S)
  have hSame : state i = state j := congrArg Subtype.val hMap
  clear hMap
  wlog hLess : i < j generalizing i j
  · exact this j i hne.symm hSame.symm (Nat.lt_of_le_of_ne (Nat.le_of_not_lt hLess) hne.symm)
  refine hNot ⟨i + 1, j - i - 1, state i, hAfter i, ?_⟩
  have hSplit : j + 1 = (i + 1) + (j - i - 1 + 1) := by omega
  have hRound := hAfter j
  rwa [hSplit, after_add, hAfter i, Option.bind_some, ← hSame] at hRound

/-! ## Loops with a result -/

section Result

variable {ρ : Type v} {τ : Type w} (turn : σ → ρ ⊕ σ)

/-- What a loop returns whose body returns or goes on, if it does so in a number of turns. -/
def result : Nat → σ → Option ρ
  | 0, _ => none
  | n + 1, s =>
    match turn s with
    | .inl r => some r
    | .inr t => result n t

def Returns (s : σ) : Prop := ∃ n, (result turn n s).isSome

variable {turn} {s : σ}

theorem returns_of_inl {r : ρ} (h : turn s = .inl r) : Returns turn s := ⟨1, by rw [result, h]; rfl⟩

theorem returns_of_inr {t : σ} (h : turn s = .inr t) (ht : Returns turn t) : Returns turn s := by
  obtain ⟨n, hn⟩ := ht
  exact ⟨n + 1, by rwa [result, h]⟩

/-- A loop whose turns go forward returns. -/
theorem returns_of_measure {I : σ → Prop} (m : σ → Nat)
    (hTurn : ∀ s t, I s → turn s = .inr t → I t ∧ m t < m s) (hI : I s) : Returns turn s := by
  induction hm : m s using Nat.strong_induction_on generalizing s with
  | _ k ih =>
    cases hNext : turn s with
    | inl r => exact returns_of_inl hNext
    | inr t =>
      obtain ⟨hIt, hLess⟩ := hTurn s t hI hNext
      exact returns_of_inr hNext (ih (m t) (hm ▸ hLess) hIt rfl)

/-- A loop that goes along with one that ends returns. -/
theorem returns_of_ends {next : τ → Option τ} {π : σ → τ} {I : σ → Prop}
    (hTurn : ∀ s t, I s → turn s = .inr t → I t ∧ next (π s) = some (π t)) (hI : I s)
    (hEnds : Ends next (π s)) : Returns turn s := by
  obtain ⟨n, hn⟩ := hEnds
  induction n generalizing s with
  | zero => cases hn
  | succ n ih =>
    cases hNext : turn s with
    | inl r => exact returns_of_inl hNext
    | inr t =>
      obtain ⟨hIt, hAlong⟩ := hTurn s t hI hNext
      rw [after, hAlong, Option.bind_some] at hn
      exact returns_of_inr hNext (ih hIt hn)

/-- A loop that goes along with another one to its end returns only if that one ends. -/
theorem ends_of_returns {next : τ → Option τ} {π : σ → τ} {I : σ → Prop}
    (hStop : ∀ s r, I s → turn s = .inl r → next (π s) = none)
    (hTurn : ∀ s t, I s → turn s = .inr t → I t ∧ next (π s) = some (π t)) (hI : I s)
    (hReturns : Returns turn s) : Ends next (π s) := by
  obtain ⟨n, hn⟩ := hReturns
  refine ⟨n, ?_⟩
  induction n generalizing s with
  | zero => cases hn
  | succ n ih =>
    rw [after]
    cases hNext : turn s with
    | inl r => rw [hStop s r hI hNext, Option.bind_none]
    | inr t =>
      obtain ⟨hIt, hAlong⟩ := hTurn s t hI hNext
      rw [result, hNext] at hn
      rw [hAlong, Option.bind_some]
      exact ih hIt hn

/-- A loop returns exactly if the loop that its states go along with ends. -/
theorem returns_iff_ends {next : τ → Option τ} {π : σ → τ} {I : σ → Prop}
    (hStop : ∀ s r, I s → turn s = .inl r → next (π s) = none)
    (hTurn : ∀ s t, I s → turn s = .inr t → I t ∧ next (π s) = some (π t)) (hI : I s) :
    Returns turn s ↔ Ends next (π s) :=
  ⟨ends_of_returns hStop hTurn hI, returns_of_ends hTurn hI⟩

end Result

end DataReel.Loop
