import DataReel.Library.Exec

/-! # Programs and their environment

A program keeps a state and asks its environment, which may answer as it likes
by all that it was asked before. The trace is what was asked and answered, the
last first.
-/

namespace DataReel

/-- What may answer the requests `ρ` of a program. -/
def Environment {ρ : Type} (A : ρ → Type) : Type := List (Sigma A) → (r : ρ) → A r

structure Dialogue {ρ : Type} (A : ρ → Type) (σ : Type) where
  state : σ
  trace : List (Sigma A)

/-- Programs that may stop with an `ε`. -/
abbrev Program {ρ : Type} (A : ρ → Type) (ε σ : Type) := EStateM ε (Dialogue A σ)

namespace Program

variable {ρ : Type} {A : ρ → Type} {ε σ α β : Type}

def ask (env : Environment A) (r : ρ) : Program A ε σ (A r) := fun s =>
  .ok (env s.trace r) { s with trace := ⟨r, env s.trace r⟩ :: s.trace }

def read : Program A ε σ σ := fun s => .ok s.state s

/-- What was asked and answered so far. -/
def history : Program A ε σ (List (Sigma A)) := fun s => .ok s.trace s

def update (f : σ → σ) : Program A ε σ Unit := fun s => .ok () { s with state := f s.state }

/-- A program on a part of the state. -/
def zoom {τ : Type} (get : σ → τ) (set : τ → σ → σ) (x : Program A ε τ α) : Program A ε σ α :=
  fun s =>
    match x { state := get s.state, trace := s.trace } with
    | .ok a t => .ok a { state := set t.state s.state, trace := t.trace }
    | .error e t => .error e { state := set t.state s.state, trace := t.trace }

/-- The state in which a program ended or stopped. -/
def last : EStateM.Result ε σ α → σ
  | .ok _ t => t
  | .error _ t => t

/-- The program ends with `Q` or stops with `E`. -/
def Ends (x : EStateM ε σ α) (s : σ) (Q : α → σ → Prop) (E : σ → Prop) : Prop :=
  match x s with
  | .ok a t => Q a t
  | .error _ t => E t

/-- The program does not stop, and its value and last state satisfy `Q`. -/
def Runs (x : EStateM ε σ α) (s : σ) (Q : α → σ → Prop) : Prop :=
  ∃ a t, x s = .ok a t ∧ Q a t

section Ends

variable {Q R : α → σ → Prop} {E F : σ → Prop}

theorem Ends.mono {x : EStateM ε σ α} {s : σ} (h : Ends x s Q E) (hQR : ∀ a t, Q a t → R a t)
    (hEF : ∀ t, E t → F t) : Ends x s R F := by
  unfold Ends at *
  split at h
  · exact hQR _ _ h
  · exact hEF _ h

theorem Ends.last {x : EStateM ε σ α} {s : σ} (h : Ends x s (fun _ => E) E) :
    E (Program.last (x s)) := by
  unfold Ends at h
  cases hRun : x s <;> rwa [hRun] at h

theorem ends_bind {x : EStateM ε σ α} {f : α → EStateM ε σ β} {s : σ} {R : β → σ → Prop} :
    Ends (x >>= f) s R E ↔ Ends x s (fun a t => Ends (f a) t R E) E := by
  change Ends (EStateM.bind x f) s R E ↔ _
  unfold Ends EStateM.bind
  cases x s <;> rfl

theorem ends_pure {a : α} {s : σ} : Ends (pure a : EStateM ε σ α) s Q E ↔ Q a s := Iff.rfl

theorem ends_ite {c : Prop} [Decidable c] {x y : EStateM ε σ α} {s : σ} :
    Ends (if c then x else y) s Q E ↔ (c → Ends x s Q E) ∧ (¬ c → Ends y s Q E) := by
  by_cases hc : c <;> simp [hc]

end Ends

section Keeps

/-- The program keeps `I`, whether it ends or stops. -/
def Keeps (I : σ → Prop) (x : EStateM ε σ α) : Prop := ∀ s, I s → Ends x s (fun _ t => I t) I

variable {I : σ → Prop}

theorem Keeps.bind {x : EStateM ε σ α} {f : α → EStateM ε σ β} (hx : Keeps I x)
    (hf : ∀ a, Keeps I (f a)) : Keeps I (x >>= f) := fun s hs =>
  ends_bind.mpr ((hx s hs).mono (fun a t ht => hf a t ht) fun _ => id)

theorem Keeps.ends_bind {x : EStateM ε σ α} {f : α → EStateM ε σ β} {s : σ} {Q : β → σ → Prop}
    (hx : Keeps I x) (hs : I s) (hf : ∀ a t, I t → Ends (f a) t Q I) : Ends (x >>= f) s Q I :=
  Program.ends_bind.mpr ((hx s hs).mono (fun a t ht => hf a t ht) fun _ => id)

theorem keeps_pure (a : α) : Keeps I (pure a : EStateM ε σ α) := fun _ hs => hs

theorem keeps_read {I : Dialogue A σ → Prop} : Keeps I (read : Program A ε σ σ) := fun _ hs => hs

theorem keeps_throw (e : ε) : Keeps I (throw e : EStateM ε σ α) := fun _ hs => hs

theorem Keeps.ite {c : Prop} [Decidable c] {x y : EStateM ε σ α} (hx : Keeps I x)
    (hy : Keeps I y) : Keeps I (if c then x else y) := by
  split <;> assumption

theorem Keeps.zoom {ρ : Type} {A : ρ → Type} {τ : Type} {get : σ → τ} {set : τ → σ → σ}
    {x : Program A ε τ α} {I : Dialogue A τ → Prop} {J : Dialogue A σ → Prop} (hx : Keeps I x)
    (hget : ∀ D, J D → I { state := get D.state, trace := D.trace })
    (hset : ∀ D t, J D → I t → J { state := set t.state D.state, trace := t.trace }) :
    Keeps J (Program.zoom get set x) := by
  intro D hD
  have hEnds := hx _ (hget D hD)
  unfold Ends Program.zoom at *
  cases hRun : x { state := get D.state, trace := D.trace } with
  | ok a t =>
    rw [hRun] at hEnds
    exact hset D t hD hEnds
  | error e t =>
    rw [hRun] at hEnds
    exact hset D t hD hEnds

end Keeps

section Asking

variable {Q : α → Dialogue A σ → Prop} {E : Dialogue A σ → Prop} {s : Dialogue A σ}

theorem ends_ask {env : Environment A} {r : ρ} {Q : A r → Dialogue A σ → Prop} :
    Ends (ask env r : Program A ε σ (A r)) s Q E ↔
      Q (env s.trace r) { s with trace := ⟨r, env s.trace r⟩ :: s.trace } := Iff.rfl

theorem ends_read {Q : σ → Dialogue A σ → Prop} :
    Ends (read : Program A ε σ σ) s Q E ↔ Q s.state s := Iff.rfl

theorem ends_history {Q : List (Sigma A) → Dialogue A σ → Prop} :
    Ends (history : Program A ε σ (List (Sigma A))) s Q E ↔ Q s.trace s := Iff.rfl

theorem ends_update {f : σ → σ} {Q : Unit → Dialogue A σ → Prop} :
    Ends (update f : Program A ε σ Unit) s Q E ↔ Q () { s with state := f s.state } := Iff.rfl

theorem ends_zoom {τ : Type} {get : σ → τ} {set : τ → σ → σ} {x : Program A ε τ α} :
    Ends (zoom get set x) s Q E ↔
      Ends x { state := get s.state, trace := s.trace }
        (fun a t => Q a { state := set t.state s.state, trace := t.trace })
        (fun t => E { state := set t.state s.state, trace := t.trace }) := by
  unfold Ends zoom
  cases x { state := get s.state, trace := s.trace } <;> rfl

end Asking

section Rules

variable {s : Dialogue A σ}

theorem Runs.mono {x : EStateM ε σ α} {s : σ} {Q R : α → σ → Prop} (h : Runs x s Q)
    (hQR : ∀ a t, Q a t → R a t) : Runs x s R := by
  obtain ⟨a, t, hRun, hQ⟩ := h
  exact ⟨a, t, hRun, hQR a t hQ⟩

theorem Runs.bind {x : EStateM ε σ α} {f : α → EStateM ε σ β} {s : σ} {Q : α → σ → Prop}
    {R : β → σ → Prop} (hx : Runs x s Q) (hf : ∀ a t, Q a t → Runs (f a) t R) :
    Runs (x >>= f) s R := by
  obtain ⟨a, t, hRun, hQ⟩ := hx
  obtain ⟨b, u, hNext, hR⟩ := hf a t hQ
  exact ⟨b, u, (Exec.bind_ok hRun).trans hNext, hR⟩

theorem runs_bind {x : EStateM ε σ α} {f : α → EStateM ε σ β} {s : σ} {Q : β → σ → Prop} :
    Runs (x >>= f) s Q ↔ Runs x s fun a t => Runs (f a) t Q := by
  constructor
  · rintro ⟨b, u, hRun, hQ⟩
    obtain ⟨a, t, hFirst, hRest⟩ := Exec.of_bind_ok hRun
    exact ⟨a, t, hFirst, b, u, hRest, hQ⟩
  · exact fun h => h.bind fun _ _ hf => hf

theorem runs_pure {a : α} {s : σ} {Q : α → σ → Prop} :
    Runs (pure a : EStateM ε σ α) s Q ↔ Q a s := by
  constructor
  · rintro ⟨b, t, hRun, hQ⟩
    cases hRun
    exact hQ
  · exact fun h => ⟨a, s, rfl, h⟩

theorem runs_ask {env : Environment A} {r : ρ} {Q : A r → Dialogue A σ → Prop} :
    Runs (ask env r : Program A ε σ (A r)) s Q ↔
      Q (env s.trace r) { s with trace := ⟨r, env s.trace r⟩ :: s.trace } := by
  constructor
  · rintro ⟨b, t, hRun, hQ⟩
    cases hRun
    exact hQ
  · exact fun h => ⟨_, _, rfl, h⟩

theorem runs_read {Q : σ → Dialogue A σ → Prop} :
    Runs (read : Program A ε σ σ) s Q ↔ Q s.state s := by
  constructor
  · rintro ⟨b, t, hRun, hQ⟩
    cases hRun
    exact hQ
  · exact fun h => ⟨_, _, rfl, h⟩

theorem runs_update {f : σ → σ} {Q : Unit → Dialogue A σ → Prop} :
    Runs (update f : Program A ε σ Unit) s Q ↔ Q () { s with state := f s.state } := by
  constructor
  · rintro ⟨b, t, hRun, hQ⟩
    cases hRun
    exact hQ
  · exact fun h => ⟨_, _, rfl, h⟩

end Rules

end Program

namespace Dialogue

variable {ρ : Type} {A : ρ → Type} {σ : Type} {s t u : Dialogue A σ}

/-- What was asked and answered from `s` to `t`. -/
def since (s t : Dialogue A σ) : List (Sigma A) := t.trace.take (t.trace.length - s.trace.length)

theorem since_of_eq {l : List (Sigma A)} (h : t.trace = l ++ s.trace) : since s t = l := by
  rw [since, h, List.length_append, Nat.add_sub_cancel_right, List.take_left]

theorem trace_eq (h : s.trace <:+ t.trace) : t.trace = since s t ++ s.trace := by
  obtain ⟨l, hl⟩ := h
  rw [since_of_eq hl.symm, hl]

theorem since_trans (h : s.trace <:+ t.trace) (h' : t.trace <:+ u.trace) :
    since s u = since t u ++ since s t :=
  since_of_eq (by rw [List.append_assoc, ← trace_eq h, ← trace_eq h'])

end Dialogue

section Entries

variable {ε : Type} {P Q : List ε → ε → Prop} {l k : List ε}

/-- Each entry of a trace has `P` with those before it. -/
def Each (P : List ε → ε → Prop) : List ε → Prop
  | [] => True
  | e :: l => P l e ∧ Each P l

theorem Each.mono (h : Each P l) (hPQ : ∀ k e, P k e → Q k e) : Each Q l := by
  induction l with
  | nil => trivial
  | cons e l ih => exact ⟨hPQ l e h.1, ih h.2⟩

/-- What is known of later entries is known of them after earlier ones. -/
theorem Each.append (hl : Each P l) (hk : Each P k) (hMore : ∀ j e, P j e → P (j ++ k) e) : Each P (l ++ k) := by
  induction l with
  | nil => exact hk
  | cons e l ih => exact ⟨hMore l e hl.1, ih hl.2⟩

theorem Each.of_forall (h : ∀ e ∈ l, ∀ k, P k e) : Each P l := by
  induction l with
  | nil => trivial
  | cons e l ih => exact ⟨h e List.mem_cons_self l, ih fun f hf => h f (List.mem_cons_of_mem e hf)⟩

end Entries

end DataReel
