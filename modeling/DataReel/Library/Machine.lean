/-! # Deterministic machines that answer calls

A machine takes calls one by one, answers each and goes to its next state. Two
machines are compared by a relation between their states under which a call
gets the same answer from both.
-/

namespace DataReel

universe u v w z

/-- Calls `γ`, answers `ρ` and states `σ`. -/
structure Machine (γ : Type u) (ρ : Type v) (σ : Type w) where
  step : γ → σ → ρ × σ

namespace Machine

variable {γ : Type u} {ρ : Type v} {σ τ : Type w} (M : Machine γ ρ σ)

/-- The answers to a sequence of calls, with the last state. -/
def run : List γ → σ → List ρ × σ
  | [], s => ([], s)
  | c :: cs, s => ((M.step c s).1 :: (run cs (M.step c s).2).1, (run cs (M.step c s).2).2)

/-- `P` holds of every call with the state it starts from. -/
def Along (P : γ → σ → Prop) : List γ → σ → Prop
  | [], _ => True
  | c :: cs, s => P c s ∧ Along P cs (M.step c s).2

variable {M}

instance decidableAlong {P : γ → σ → Prop} [∀ c s, Decidable (P c s)] :
    ∀ cs s, Decidable (M.Along P cs s)
  | [], _ => isTrue trivial
  | c :: cs, s => @instDecidableAnd (P c s) _ _ (decidableAlong cs (M.step c s).2)

theorem run_append (cs ds : List γ) (s : σ) :
    M.run (cs ++ ds) s =
      ((M.run cs s).1 ++ (M.run ds (M.run cs s).2).1, (M.run ds (M.run cs s).2).2) := by
  induction cs generalizing s with
  | nil => rfl
  | cons c cs ih =>
    rw [List.cons_append, run, ih]
    rfl

theorem along_append {P : γ → σ → Prop} (cs ds : List γ) (s : σ) :
    M.Along P (cs ++ ds) s ↔ M.Along P cs s ∧ M.Along P ds (M.run cs s).2 := by
  induction cs generalizing s with
  | nil => exact ⟨fun h => ⟨trivial, h⟩, And.right⟩
  | cons c cs ih =>
    rw [List.cons_append, Along, Along, ih, and_assoc]
    rfl

theorem Along.mono {P Q : γ → σ → Prop} {cs : List γ} {s : σ} (h : M.Along P cs s)
    (hPQ : ∀ c ∈ cs, ∀ t, P c t → Q c t) : M.Along Q cs s := by
  induction cs generalizing s with
  | nil => trivial
  | cons c cs ih =>
    exact ⟨hPQ c List.mem_cons_self s h.1, ih h.2 fun d hd => hPQ d (List.mem_cons_of_mem _ hd)⟩

theorem Along.and {P Q : γ → σ → Prop} {cs : List γ} {s : σ} (hP : M.Along P cs s)
    (hQ : M.Along Q cs s) : M.Along (fun c t => P c t ∧ Q c t) cs s := by
  induction cs generalizing s with
  | nil => trivial
  | cons c cs ih => exact ⟨⟨hP.1, hQ.1⟩, ih hP.2 hQ.2⟩

theorem along_of_forall {P : γ → Prop} {cs : List γ} (h : ∀ c ∈ cs, P c) (s : σ) :
    M.Along (fun c _ => P c) cs s := by
  induction cs generalizing s with
  | nil => trivial
  | cons c cs ih =>
    exact ⟨h c List.mem_cons_self, ih (fun d hd => h d (List.mem_cons_of_mem _ hd)) _⟩

/-- What one call preserves, a run preserves. -/
theorem run_invariant {I : σ → Prop} {P : γ → σ → Prop}
    (hStep : ∀ c s, I s → P c s → I (M.step c s).2) {cs : List γ} {s : σ} (hI : I s)
    (hP : M.Along P cs s) : I (M.run cs s).2 := by
  induction cs generalizing s with
  | nil => exact hI
  | cons c cs ih => exact ih (hStep c s hI hP.1) hP.2

theorem along_of_invariant {I : σ → Prop} {P Q : γ → σ → Prop}
    (hStep : ∀ c s, I s → P c s → Q c s ∧ I (M.step c s).2) {cs : List γ} {s : σ} (hI : I s)
    (hP : M.Along P cs s) : M.Along Q cs s := by
  induction cs generalizing s with
  | nil => trivial
  | cons c cs ih =>
    obtain ⟨hQ, hNext⟩ := hStep c s hI hP.1
    exact ⟨hQ, ih hNext hP.2⟩

/-- Calls with their answers that take an abstract state to another, each as `A` allows it. -/
inductive Traces {α : Type z} (A : γ → ρ → α → α → Prop) : List γ → List ρ → α → α → Prop
  | nil (x : α) : Traces A [] [] x x
  | cons {c : γ} {r : ρ} {cs : List γ} {rs : List ρ} {x y y' : α} (hStep : A c r x y)
      (hRest : Traces A cs rs y y') : Traces A (c :: cs) (r :: rs) x y'

/-- What one call does to the abstract state, a run does call by call. -/
theorem run_traces {α : Type z} {A : γ → ρ → α → α → Prop} {I : σ → α → Prop} {P : γ → σ → Prop}
    (hStep : ∀ c s x, I s x → P c s → ∃ y, A c (M.step c s).1 x y ∧ I (M.step c s).2 y) {cs : List γ} {s : σ}
    {x : α} (hI : I s x) (hP : M.Along P cs s) :
    ∃ y, Traces A cs (M.run cs s).1 x y ∧ I (M.run cs s).2 y := by
  induction cs generalizing s x with
  | nil => exact ⟨x, .nil x, hI⟩
  | cons c cs ih =>
    obtain ⟨y, hFirst, hNext⟩ := hStep c s x hI hP.1
    obtain ⟨z, hRest, hLast⟩ := ih hNext hP.2
    exact ⟨z, .cons hFirst hRest, hLast⟩

/-- The states of `M` are related to those of `N` so that calls get the same answers. -/
structure Simulates (M : Machine γ ρ σ) (N : Machine γ ρ τ) (P : γ → σ → Prop) (R : σ → τ → Prop) :
    Prop where
  answer : ∀ {c s t}, R s t → P c s → (M.step c s).1 = (N.step c t).1
  next : ∀ {c s t}, R s t → P c s → R (M.step c s).2 (N.step c t).2

/-- Related machines answer a whole run alike. -/
theorem Simulates.run {N : Machine γ ρ τ} {P : γ → σ → Prop} {R : σ → τ → Prop}
    (hSim : M.Simulates N P R) {cs : List γ} {s : σ} {t : τ} (hR : R s t) (hP : M.Along P cs s) :
    (M.run cs s).1 = (N.run cs t).1 ∧ R (M.run cs s).2 (N.run cs t).2 := by
  induction cs generalizing s t with
  | nil => exact ⟨rfl, hR⟩
  | cons c cs ih =>
    obtain ⟨hAnswers, hLast⟩ := ih (hSim.next hR hP.1) hP.2
    refine ⟨?_, hLast⟩
    rw [Machine.run, Machine.run, hSim.answer hR hP.1, hAnswers]

/-- A call after a run needs the relation alone to be answered alike. -/
theorem Simulates.run_last {N : Machine γ ρ τ} {P : γ → σ → Prop} {R : σ → τ → Prop}
    (hSim : M.Simulates N P R) {cs : List γ} {c : γ} {s : σ} {t : τ} (hR : R s t)
    (hP : M.Along P cs s) (hLast : ∀ s t, R s t → (M.step c s).1 = (N.step c t).1) :
    (M.run (cs ++ [c]) s).1 = (N.run (cs ++ [c]) t).1 := by
  obtain ⟨hAnswers, hRun⟩ := hSim.run hR hP
  rw [run_append, run_append, hAnswers]
  change _ ++ [(M.step c _).1] = _ ++ [(N.step c _).1]
  rw [hLast _ _ hRun]

end Machine

end DataReel
