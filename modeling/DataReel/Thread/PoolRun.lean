import DataReel.Thread.PoolSound
import Mathlib.Algebra.BigOperators.Group.List.Basic

/-! # Runs of the thread pool

What a run promises: the tasks are taken in the order of queueing, each by one
worker, `Wait` returns on an idle pool, no wake-up is lost, and the destructor
waits for every task that was queued while a worker was in its loop.
-/

namespace DataReel.ThreadPool

universe u

variable {τ : Type u} {s t : ThreadPool τ} {c w n : Nat}

/-- The tasks that were taken are the first of those queued, in their order. -/
def inOrder (s : ThreadPool τ) : Prop := s.queued = s.taken.map Prod.fst ++ s.tasks

/-- Every task that was taken runs on the worker that took it and nowhere else, or has
finished, once. -/
def takenOnce (s : ThreadPool τ) : Prop :=
  (∀ w n, s.workers[w]? = some (Worker.running n) → ∃ task, s.taken[n]? = some (task, w)) ∧
    (s.running ++ s.finished).Perm (List.range s.taken.length)

/-- `Wait` of thread `c` returns in this step. -/
def waitReturns (c : Nat) (s t : ThreadPool τ) : Prop :=
  s.checkIdle c = some t ∧ t.calls[c]? = some .out

/-- A task is queued, every worker is blocked, and nobody is about to notify one. -/
def lostWakeup (s : ThreadPool τ) : Prop :=
  s.tasks ≠ [] ∧ (∀ w ∈ s.workers, w = .blocked) ∧ PoolCall.notifying ∉ s.calls

instance (c : Nat) (s t : ThreadPool τ) [DecidableEq τ] : Decidable (waitReturns c s t) :=
  inferInstanceAs (Decidable (_ ∧ _))

section Step

theorem Sound.length_queued (hs : s.Sound) :
    s.queued.length = s.taken.length + s.tasks.length := by
  rw [hs.fifo, List.length_append, List.length_map]

theorem submit_eq {task : τ} (h : s.submit c task = some t) :
    t.queued = s.queued ++ [task] ∧ t.workers = s.workers := by
  obtain ⟨u, hCall, hQueue⟩ := Option.bind_eq_some_iff.mp h
  obtain ⟨-, -, rfl⟩ := call_eq_some.mp hCall
  obtain rfl := Option.some.inj hQueue
  exact ⟨rfl, rfl⟩

theorem working_move {old new : Worker} (h : s.workers[w]? = some old) (hNew : new ≠ .returned) :
    (s.move w new).working := by
  obtain ⟨hw, -⟩ := List.getElem?_eq_some_iff.mp h
  exact ⟨new, List.mem_set hw new, hNew⟩

/-- No task is taken back, and the last worker leaves an empty queue. -/
structure Kept (s t : ThreadPool τ) : Prop where
  queued : s.queued <+: t.queued
  taken : s.taken.length ≤ t.taken.length
  working : s.working → t.working ∨ t.tasks = []

theorem kept_of_call {before after : PoolCall} (h : s.call c before after = some t) : Kept s t := by
  obtain ⟨-, -, rfl⟩ := call_eq_some.mp h
  exact ⟨List.prefix_rfl, Nat.le_refl _, Or.inl⟩

theorem take_kept (h : s.take w = some t) : Kept s t := by
  obtain ⟨hLooping, h⟩ := Option.ite_none_right_eq_some.mp h
  split at h
  · split at h
    · next hTasks =>
      obtain rfl := Option.some.inj h
      exact ⟨List.prefix_rfl, Nat.le_refl _, fun _ => Or.inr hTasks⟩
    · obtain rfl := Option.some.inj h
      refine ⟨List.prefix_rfl, ?_, fun _ => Or.inl (working_move hLooping nofun)⟩
      rw [List.length_append]
      exact Nat.le_add_right _ _
  · obtain rfl := Option.some.inj h
    exact ⟨List.prefix_rfl, Nat.le_refl _, fun _ => Or.inl (working_move hLooping nofun)⟩

theorem finish_kept (h : s.finish w = some t) : Kept s t := by
  rw [finish] at h
  split at h
  · next n hRun =>
    obtain ⟨-, h⟩ := Option.ite_none_right_eq_some.mp h
    have hWorking : (s.move w .looping).working := working_move hRun (by simp)
    dsimp only at h
    split at h
    · obtain rfl := Option.some.inj h
      exact ⟨List.prefix_rfl, Nat.le_refl _, fun _ => Or.inl hWorking⟩
    · obtain rfl := Option.some.inj h
      exact ⟨List.prefix_rfl, Nat.le_refl _, fun _ => Or.inl hWorking⟩
  · cases h

theorem notifyAll_kept (h : s.notifyAll = some t) : Kept s t := by
  obtain ⟨-, hEq⟩ := Option.ite_none_right_eq_some.mp h
  obtain rfl := Option.some.inj hEq
  refine ⟨List.prefix_rfl, Nat.le_refl _, ?_⟩
  rintro ⟨w, hMem, hw⟩
  refine Or.inl ⟨_, List.mem_map_of_mem hMem, ?_⟩
  split_ifs
  · exact nofun
  · exact hw

theorem step_kept {a : Action τ} (h : (system τ).step a s = some t) : Kept s t := by
  cases a with
  | submit c task =>
    obtain ⟨u, hCall, hQueue⟩ := Option.bind_eq_some_iff.mp h
    obtain ⟨-, -, rfl⟩ := call_eq_some.mp hCall
    obtain rfl := Option.some.inj hQueue
    exact ⟨List.prefix_append _ _, Nat.le_refl _, Or.inl⟩
  | notifyOne c woken =>
    obtain ⟨u, hCall, hWoken⟩ := Option.bind_eq_some_iff.mp h
    have hKept := kept_of_call hCall
    cases woken with
    | none =>
      obtain ⟨-, hEq⟩ := Option.ite_none_left_eq_some.mp hWoken
      obtain rfl := Option.some.inj hEq
      exact hKept
    | some w =>
      obtain ⟨hBlocked, hEq⟩ := Option.ite_none_right_eq_some.mp hWoken
      obtain rfl := Option.some.inj hEq
      exact { hKept with working := fun _ => Or.inl (working_move hBlocked nofun) }
  | wait c => exact kept_of_call h
  | checkIdle c =>
    change s.checkIdle c = some t at h
    rw [checkIdle] at h
    split at h
    · exact kept_of_call h
    · exact kept_of_call h
  | spuriousIdle c => exact kept_of_call h
  | take w => exact take_kept h
  | spuriousWork w =>
    obtain ⟨hBlocked, hEq⟩ := Option.ite_none_right_eq_some.mp h
    obtain rfl := Option.some.inj hEq
    exact ⟨List.prefix_rfl, Nat.le_refl _, fun _ => Or.inl (working_move hBlocked nofun)⟩
  | finish w => exact finish_kept h
  | stop =>
    obtain ⟨-, hEq⟩ := Option.ite_none_right_eq_some.mp h
    obtain rfl := Option.some.inj hEq
    exact ⟨List.prefix_rfl, Nat.le_refl _, Or.inl⟩
  | notifyAll => exact notifyAll_kept h
  | join =>
    change s.join = some t at h
    rw [join] at h
    split at h
    · obtain ⟨-, hEq⟩ := Option.ite_none_right_eq_some.mp h
      obtain rfl := Option.some.inj hEq
      exact ⟨List.prefix_rfl, Nat.le_refl _, Or.inl⟩
    · cases h

end Step

section Run

variable {actions : List (Action τ)}

theorem Sound.run (hs : s.Sound) (hRun : (system τ).run actions s = some t) : t.Sound :=
  Transition.run_invariant (fun _ _ _ hStep hu => hu.step hStep) hRun hs

/-- A task that was queued in time is taken before the last worker leaves. -/
theorem inTime_run {task : τ} (hRun : (system τ).run actions s = some t) (hs : s.Sound)
    (hWorking : s.working) (hTask : s.queued[n]? = some task) :
    t.queued[n]? = some task ∧ (t.working ∨ n < t.taken.length) := by
  have hInv : t.Sound ∧ t.queued[n]? = some task ∧ (t.working ∨ n < t.taken.length) := by
    refine Transition.run_invariant
      (I := fun u => u.Sound ∧ u.queued[n]? = some task ∧ (u.working ∨ n < u.taken.length))
      (fun a u v hStep hu => ?_) hRun ⟨hs, hTask, Or.inl hWorking⟩
    obtain ⟨hu, hQueued, hPlace⟩ := hu
    have hKept := step_kept hStep
    have hv := hu.step hStep
    have hQueued : v.queued[n]? = some task := by
      obtain ⟨more, hMore⟩ := hKept.queued
      rw [← hMore, List.getElem?_append_left (List.getElem?_eq_some_iff.mp hQueued).1, hQueued]
    refine ⟨hv, hQueued, ?_⟩
    rcases hPlace with hWorking | hTaken
    · rcases hKept.working hWorking with hWorking | hEmpty
      · exact Or.inl hWorking
      · have hLength := hv.length_queued
        have := (List.getElem?_eq_some_iff.mp hQueued).1
        rw [hEmpty, List.length_nil] at hLength
        exact Or.inr (by omega)
    · exact Or.inr (Nat.lt_of_lt_of_le hTaken hKept.taken)
  exact hInv.2

theorem Sound.returned_of_joined (hs : s.Sound) (hJoined : s.joined) :
    ∀ w ∈ s.workers, w = .returned := by
  intro w hMem
  obtain ⟨i, hi, rfl⟩ := List.getElem_of_mem hMem
  have hDestructor := hs.destructor
  simp only [destructorSound, of_decide_eq_true hJoined] at hDestructor
  have := hDestructor.2.2 i hi
  rw [List.getElem?_eq_getElem hi] at this
  exact Option.some.inj this

theorem Sound.finished_of_joined (hs : s.Sound) (hJoined : s.joined) (hn : n < s.taken.length) :
    n ∈ s.finished := by
  have hReturned := hs.returned_of_joined hJoined
  have hRunning : s.running = [] := by
    rw [running, List.filterMap_eq_nil_iff]
    intro w hMem
    rw [hReturned w hMem]
    rfl
  have hNumbers := hs.numbers
  rw [hRunning, List.nil_append] at hNumbers
  exact hNumbers.mem_iff.mpr (List.mem_range.mpr hn)

/-- While the destructor joins a worker, that worker has returned or is not blocked. -/
theorem join_progress (hs : s.Sound) {k : Nat} (hJoining : s.destructor = .joining k)
    (hk : k < s.workers.length) :
    s.join.isSome ∨ (s.take k).isSome ∨ ∃ n, s.workers[k]? = some (.running n) := by
  have hDestructor := hs.destructor
  simp only [destructorSound, hJoining] at hDestructor
  obtain ⟨hStopping, hBlocked, -⟩ := hDestructor
  have hWorker := List.getElem?_eq_getElem hk
  cases hPlace : s.workers[k] with
  | looping =>
    rw [hPlace] at hWorker
    refine Or.inr (Or.inl ?_)
    rw [take, if_pos hWorker, hStopping, Bool.true_or, if_pos rfl]
    split <;> rfl
  | blocked => exact absurd (hPlace ▸ List.getElem_mem hk) hBlocked
  | running n => exact Or.inr (Or.inr ⟨n, by rw [hWorker, hPlace]⟩)
  | returned =>
    rw [hPlace] at hWorker
    refine Or.inl ?_
    simp only [join, hJoining]
    rw [if_pos hWorker]
    rfl

end Run

section Pool

theorem Sound.not_lostWakeup (hs : s.Sound) : ¬ s.lostWakeup := by
  rintro ⟨hTasks, hBlocked, hNotifying⟩
  have hSum : (s.workers.map Worker.wakeup).sum = 0 := by
    refine List.sum_eq_zero ?_
    intro k hMem
    obtain ⟨w, hw, rfl⟩ := List.mem_map.mp hMem
    rw [hBlocked w hw]
    rfl
  have hAwake := hs.awake (hBlocked _ (List.getElem_mem hs.staffed) ▸ List.getElem_mem hs.staffed)
  rw [wakeups, hSum, List.count_eq_zero_of_not_mem hNotifying] at hAwake
  exact hTasks (List.eq_nil_of_length_eq_zero (Nat.le_zero.mp hAwake))

theorem Sound.idle_of_waitReturns (hs : s.Sound) (hReturns : waitReturns c s t) :
    s.tasks = [] ∧ s.running = [] := by
  obtain ⟨hCheck, hOut⟩ := hReturns
  rw [ThreadPool.checkIdle] at hCheck
  split at hCheck
  · next hIdle =>
    obtain ⟨hTasks, hActive⟩ : s.tasks = [] ∧ s.active = 0 := by simpa [isIdle] using hIdle
    rw [hs.active] at hActive
    exact ⟨hTasks, List.eq_nil_of_length_eq_zero hActive⟩
  · obtain ⟨-, -, rfl⟩ := call_eq_some.mp hCheck
    rw [ThreadPool.setCall, List.getElem?_set] at hOut
    split_ifs at hOut with hEq
    · cases hOut
    · exact absurd rfl hEq

/-- Any number of workers, of outside threads and of steps in any order. -/
theorem pool_run (numThreads hardwareConcurrency outside : Nat) (actions : List (Action τ))
    (hRun : (system τ).run actions (create numThreads hardwareConcurrency outside) = some s) :
    s.inOrder ∧ s.takenOnce ∧ ¬ s.lostWakeup ∧
      (∀ c t, waitReturns c s t → s.tasks = [] ∧ s.running = []) ∧
      ∀ c task t rest u, (system τ).step (.submit c task) s = some t → s.working →
        (system τ).run rest t = some u → u.joined →
        ∃ w, u.taken[s.queued.length]? = some (task, w) ∧ s.queued.length ∈ u.finished := by
  have hs : s.Sound := (create_sound _ _ _).run hRun
  refine ⟨hs.fifo, ⟨hs.owner, hs.numbers⟩, hs.not_lostWakeup,
    fun c t => hs.idle_of_waitReturns, ?_⟩
  intro c task t rest u hSubmit hWorking hRest hJoined
  have hu := (hs.step hSubmit).run hRest
  obtain ⟨hQueued, hPlace⟩ : u.queued[s.queued.length]? = some task ∧
      (u.working ∨ s.queued.length < u.taken.length) := by
    obtain ⟨hAppended, hWorkers⟩ := submit_eq hSubmit
    refine inTime_run hRest (hs.step hSubmit) ?_ ?_
    · rwa [working, hWorkers]
    · rw [hAppended, List.getElem?_concat_length]
  have hTaken : s.queued.length < u.taken.length := by
    refine hPlace.resolve_left ?_
    rintro ⟨w, hMem, hw⟩
    exact hw (hu.returned_of_joined hJoined w hMem)
  refine ⟨u.taken[s.queued.length].2, ?_, hu.finished_of_joined hJoined hTaken⟩
  rw [hu.fifo, List.getElem?_append_left (by rwa [List.length_map]), List.getElem?_map,
    List.getElem?_eq_getElem hTaken] at hQueued
  rw [List.getElem?_eq_getElem hTaken, ← Option.some.inj hQueued]

/-- One worker and one task, queued by thread 1 while the worker is in its loop. -/
theorem pool_run_one :
    ∃ u, (system Nat).run [.submit 1 7, .notifyOne 1 none, .stop, .take 0, .notifyAll, .finish 0,
        .take 0, .join] (create 1 4 1) = some u ∧
      ∃ w, u.taken[0]? = some (7, w) ∧ 0 ∈ u.finished :=
  ⟨_, rfl, (pool_run 1 4 1 [] rfl).2.2.2.2 1 7 _ [.notifyOne 1 none, .stop, .take 0, .notifyAll, .finish 0, .take 0, .join] _
    rfl (by decide) rfl (by decide)⟩

/-- A task that is queued after the last worker has left stays in the queue. -/
theorem pool_run_late :
    ¬ ∀ (actions : List (Action Nat)) (s : ThreadPool Nat),
      (system Nat).run actions (create 1 4 1) = some s → s.joined →
        ∀ n < s.queued.length, n ∈ s.finished := by
  intro h
  have := h [.stop, .notifyAll, .take 0, .submit 1 7, .join] _ rfl (by decide) 0 (by decide)
  exact absurd this (by decide)

end Pool

end DataReel.ThreadPool
