import DataReel.Thread.ThreadPool
import Mathlib.Algebra.GroupWithZero.Nat
import Mathlib.Data.List.Perm.Basic
import Mathlib.Data.List.Range

/-! # What holds of the pool in every order of its steps

The tasks that were taken are the first of those queued, each of them runs on
the worker that took it or has finished, and while a worker is blocked there
are as many threads awake or about to notify as there are tasks to take.
-/

namespace DataReel

universe u

namespace Worker

/-- The number of the task that a worker runs. -/
def task : Worker → Option Nat
  | .running n => some n
  | _ => none

/-- A worker that looks at the queue before it blocks is worth one notification. -/
def wakeup : Worker → Nat
  | .looping | .running _ => 1
  | .blocked | .returned => 0

end Worker

namespace ThreadPool

variable {τ : Type u} {s t : ThreadPool τ} {c w n : Nat} {before after : PoolCall}

/-- The numbers of the tasks that run. -/
def running (s : ThreadPool τ) : List Nat := s.workers.filterMap Worker.task

/-- The workers that are to look at the queue and the notifications to come. -/
def wakeups (s : ThreadPool τ) : Nat :=
  (s.workers.map Worker.wakeup).sum + s.calls.count .notifying

def destructorSound (s : ThreadPool τ) : Prop :=
  match s.destructor with
  | .alive => s.stopping = false
  | .stopped => s.stopping = true
  | .joining k => s.stopping = true ∧ Worker.blocked ∉ s.workers ∧
      ∀ i < k, s.workers[i]? = some .returned

/-- The invariant of the pool. -/
structure Sound (s : ThreadPool τ) : Prop where
  staffed : 0 < s.workers.length
  fifo : s.queued = s.taken.map Prod.fst ++ s.tasks
  active : s.active = s.running.length
  numbers : (s.running ++ s.finished).Perm (List.range s.taken.length)
  owner : ∀ w n, s.workers[w]? = some (Worker.running n) → ∃ task, s.taken[n]? = some (task, w)
  awake : Worker.blocked ∈ s.workers → s.tasks.length ≤ s.wakeups
  waiters : PoolCall.idle ∈ s.calls → s.isIdle = false
  leaving : Worker.returned ∈ s.workers → s.stopping = true
  destructor : s.destructorSound

theorem exists_set {α : Type u} {l : List α} {i : Nat} {a : α} (h : l[i]? = some a) :
    ∃ xs ys, l = xs ++ a :: ys ∧ ∀ b, l.set i b = xs ++ b :: ys := by
  obtain ⟨hi, rfl⟩ := List.getElem?_eq_some_iff.mp h
  refine ⟨l.take i, l.drop (i + 1), ?_, fun b => ?_⟩
  · rw [List.getElem_cons_drop, List.take_append_drop]
  · rw [List.set_eq_take_append_cons_drop, if_pos hi]

section Call

theorem call_eq_some :
    s.call c before after = some t ↔
      s.callable c ∧ s.calls[c]? = some before ∧ s.setCall c after = t := by
  simp only [call, Option.ite_none_right_eq_some, Option.some.injEq, and_assoc]

theorem count_set {l : List PoolCall} (h : l[c]? = some before) (after x : PoolCall) :
    (l.set c after).count x + (if before = x then 1 else 0) =
      l.count x + if after = x then 1 else 0 := by
  obtain ⟨xs, ys, hList, hSet⟩ := exists_set h
  rw [hSet, hList]
  simp only [List.count_append, List.count_cons, beq_iff_eq]
  omega

theorem setCall_wakeups (h : s.calls[c]? = some before) (after : PoolCall) :
    (s.setCall c after).wakeups + (if before = .notifying then 1 else 0) =
      s.wakeups + if after = .notifying then 1 else 0 := by
  have := count_set h after .notifying
  simp only [wakeups, setCall]
  omega

theorem Sound.setCall (hs : s.Sound)
    (hAwake : Worker.blocked ∈ s.workers → s.tasks.length ≤ (s.setCall c after).wakeups)
    (hIdle : after = .idle → s.isIdle = false) : (s.setCall c after).Sound :=
  { hs with
    awake := hAwake
    waiters := fun hMem => by
      rcases List.mem_or_eq_of_mem_set hMem with hMem | hAfter
      · exact hs.waiters hMem
      · exact hIdle hAfter.symm }

theorem Sound.call (hs : s.Sound) (h : s.call c before after = some t)
    (hBefore : before ≠ .notifying) (hIdle : after = .idle → s.isIdle = false) : t.Sound := by
  obtain ⟨-, hCall, rfl⟩ := call_eq_some.mp h
  refine hs.setCall (fun hBlocked => ?_) hIdle
  have hWakeups := setCall_wakeups hCall after
  rw [if_neg hBefore] at hWakeups
  have := hs.awake hBlocked
  omega

end Call

section Move

variable {old new : Worker}

theorem move_running (h : s.workers[w]? = some old) (new : Worker) :
    (old.task.toList ++ (s.move w new).running).Perm (new.task.toList ++ s.running) := by
  obtain ⟨xs, ys, hList, hSet⟩ := exists_set h
  have hMoved : (s.move w new).workers = xs ++ new :: ys := hSet new
  simp only [running, hMoved, hList, List.filterMap_append, List.filterMap_cons]
  cases old.task <;> cases new.task <;> simp only [Option.toList, List.nil_append,
    List.singleton_append]
  · rfl
  · exact List.perm_middle
  · exact List.perm_middle.symm
  · exact (List.perm_middle.cons _).trans
      ((List.Perm.swap _ _ _).trans (List.perm_middle.symm.cons _))

theorem move_wakeups (h : s.workers[w]? = some old) (new : Worker) :
    (s.move w new).wakeups + old.wakeup = s.wakeups + new.wakeup := by
  obtain ⟨xs, ys, hList, hSet⟩ := exists_set h
  have hMoved : (s.move w new).workers = xs ++ new :: ys := hSet new
  have hCalls : (s.move w new).calls = s.calls := rfl
  simp only [wakeups, hMoved, hCalls, hList, List.map_append, List.sum_append, List.map_cons,
    List.sum_cons]
  omega

theorem mem_of_mem_move (hMem : old ∈ (s.move w new).workers) (hNe : old ≠ new) :
    old ∈ s.workers := (List.mem_or_eq_of_mem_set hMem).resolve_right hNe

theorem running_of_move (hNew : new.task = none)
    (h : (s.move w new).workers[c]? = some (.running n)) : s.workers[c]? = some (.running n) := by
  rw [move, List.getElem?_set] at h
  split_ifs at h with hEq hLength
  · obtain rfl := Option.some.inj h
    cases hNew
  · exact h

theorem move_destructorSound (hs : s.destructorSound) (h : s.workers[w]? = some old)
    (hOld : old ≠ .returned) (hNew : new = .blocked → s.stopping = false) :
    (s.move w new).destructorSound := by
  simp only [destructorSound, move] at hs ⊢
  split at hs
  · exact hs
  · exact hs
  · obtain ⟨hStopping, hBlocked, hJoined⟩ := hs
    refine ⟨hStopping, fun hMem => ?_, fun i hi => ?_⟩
    · rcases List.mem_or_eq_of_mem_set hMem with hMem | hEq
      · exact hBlocked hMem
      · rw [hNew hEq.symm] at hStopping
        cases hStopping
    · rw [List.getElem?_set_ne]
      · exact hJoined i hi
      · rintro rfl
        rw [hJoined w hi] at h
        exact hOld (Option.some.inj h).symm

theorem Sound.move (hs : s.Sound) (h : s.workers[w]? = some old) (hOld : old.task = none)
    (hStayed : old ≠ .returned) (hNew : new.task = none)
    (hAwake : Worker.blocked ∈ (s.move w new).workers → s.tasks.length ≤ (s.move w new).wakeups)
    (hBlocked : new = .blocked → s.stopping = false)
    (hReturned : new = .returned → s.stopping = true) : (s.move w new).Sound := by
  have hRunning : (s.move w new).running.Perm s.running := by
    have := move_running h new
    rwa [hOld, hNew] at this
  exact
    { hs with
      staffed := hs.staffed.trans_eq List.length_set.symm
      active := hs.active.trans hRunning.length_eq.symm
      numbers := (hRunning.append_right _).trans hs.numbers
      owner := fun v n hRun => hs.owner v n (running_of_move hNew hRun)
      awake := hAwake
      leaving := fun hMem => by
        rcases List.mem_or_eq_of_mem_set hMem with hMem | hEq
        · exact hs.leaving hMem
        · exact hReturned hEq.symm
      destructor := move_destructorSound hs.destructor h hStayed hBlocked }

theorem Sound.wake (hs : s.Sound) (h : s.workers[w]? = some .blocked) :
    (s.move w .looping).Sound := by
  refine hs.move h rfl (by decide) rfl (fun _ => ?_) nofun nofun
  have hWakeups := move_wakeups h .looping
  have := hs.awake (List.mem_of_getElem? h)
  simp only [Worker.wakeup] at hWakeups
  omega

end Move

section Steps

theorem Sound.submit {task : τ} (hs : s.Sound) (h : s.submit c task = some t) : t.Sound := by
  obtain ⟨u, hCall, hQueue⟩ := Option.bind_eq_some_iff.mp h
  obtain ⟨-, hOut, rfl⟩ := call_eq_some.mp hCall
  have hWakeups := setCall_wakeups hOut .notifying
  obtain rfl := Option.some.inj hQueue
  refine
    { hs with
      fifo := ?_
      awake := fun hBlocked => ?_
      waiters := fun _ => by simp [isIdle] }
  · change s.queued ++ [task] = s.taken.map Prod.fst ++ (s.tasks ++ [task])
    rw [hs.fifo, List.append_assoc]
  · have := hs.awake hBlocked
    change (s.tasks ++ [task]).length ≤ (s.setCall c .notifying).wakeups
    rw [List.length_append, List.length_singleton]
    rw [if_neg (by decide), if_pos rfl] at hWakeups
    omega

theorem Sound.notifyOne {woken : Option Nat} (hs : s.Sound) (h : s.notifyOne c woken = some t) :
    t.Sound := by
  obtain ⟨u, hCall, hWoken⟩ := Option.bind_eq_some_iff.mp h
  obtain ⟨-, hNotifying, rfl⟩ := call_eq_some.mp hCall
  cases woken with
  | none =>
    obtain ⟨hBlocked, hEq⟩ := Option.ite_none_left_eq_some.mp hWoken
    obtain rfl := Option.some.inj hEq
    exact hs.setCall (fun hMem => absurd hMem hBlocked) nofun
  | some w =>
    obtain ⟨hBlocked, hEq⟩ := Option.ite_none_right_eq_some.mp hWoken
    obtain rfl := Option.some.inj hEq
    -- the worker that wakes up makes up for the notification
    have hWakeups := setCall_wakeups (s := s.move w .looping) hNotifying .out
    have hMoved := move_wakeups (s := s) hBlocked .looping
    have := hs.awake (List.mem_of_getElem? hBlocked)
    refine (hs.wake hBlocked).setCall (fun _ => ?_) nofun
    change s.tasks.length ≤ _
    rw [if_pos rfl, if_neg (by decide)] at hWakeups
    simp only [Worker.wakeup] at hMoved
    omega

theorem Sound.checkIdle (hs : s.Sound) (h : s.checkIdle c = some t) : t.Sound := by
  rw [ThreadPool.checkIdle] at h
  split at h
  · exact hs.call h (by decide) nofun
  · next hBusy => exact hs.call h (by decide) fun _ => eq_false_of_ne_true hBusy

theorem Sound.take_task {task : τ} {tasks : List τ} (hs : s.Sound)
    (hLooping : s.workers[w]? = some .looping) (hTasks : s.tasks = task :: tasks) :
    { s.move w (.running s.taken.length) with
      tasks := tasks
      active := s.active + 1
      taken := s.taken ++ [(task, w)] : ThreadPool τ }.Sound := by
  have hRunning := move_running hLooping (.running s.taken.length)
  have hWakeups := move_wakeups hLooping (.running s.taken.length)
  refine
    { staffed := hs.staffed.trans_eq List.length_set.symm
      fifo := ?_
      active := ?_
      numbers := ?_
      owner := fun v n hRun => ?_
      awake := fun hBlocked => ?_
      waiters := fun _ => by simp [isIdle]
      leaving := fun hMem => hs.leaving (mem_of_mem_move hMem (by simp))
      destructor := move_destructorSound hs.destructor hLooping (by decide) nofun }
  · change s.queued = (s.taken ++ [(task, w)]).map Prod.fst ++ tasks
    rw [hs.fifo, hTasks, List.map_append, List.append_assoc]
    rfl
  · have := hRunning.length_eq
    simp only [Worker.task, Option.toList, List.nil_append, List.singleton_append,
      List.length_cons] at this
    change s.active + 1 = (s.move w _).running.length
    rw [this, hs.active]
  · change ((s.move w _).running ++ s.finished).Perm (List.range (s.taken ++ [(task, w)]).length)
    rw [List.length_append, List.length_singleton, List.range_succ]
    refine (hRunning.append_right s.finished).trans ?_
    refine List.Perm.trans ?_ (List.perm_append_comm)
    exact hs.numbers.cons _
  · change ∃ task', (s.taken ++ [(task, w)])[n]? = some (task', v)
    rw [ThreadPool.move, List.getElem?_set] at hRun
    split_ifs at hRun with hEq hLength
    · obtain ⟨rfl⟩ := Option.some.inj hRun
      exact ⟨task, by rw [List.getElem?_concat_length, hEq]⟩
    · obtain ⟨task', hTask⟩ := hs.owner v n hRun
      refine ⟨task', ?_⟩
      rw [List.getElem?_append_left, hTask]
      exact (List.getElem?_eq_some_iff.mp hTask).1
  · have := hs.awake (mem_of_mem_move hBlocked nofun)
    simp only [Worker.wakeup] at hWakeups
    rw [hTasks, List.length_cons] at this
    change tasks.length ≤ (s.move w _).wakeups
    omega

theorem Sound.take (hs : s.Sound) (h : s.take w = some t) : t.Sound := by
  obtain ⟨hLooping, h⟩ := Option.ite_none_right_eq_some.mp h
  have hMoved (new : Worker) := move_wakeups hLooping new
  split at h
  · next hLook =>
    split at h
    · next hTasks =>
      obtain rfl := Option.some.inj h
      refine hs.move hLooping rfl (by decide) rfl (fun _ => ?_) nofun fun _ => ?_
      · rw [hTasks]
        exact Nat.zero_le _
      · simpa [hTasks] using hLook
    · next task tasks hTasks =>
      obtain rfl := Option.some.inj h
      exact hs.take_task hLooping hTasks
  · next hNone =>
    obtain ⟨hStopping, hTasks⟩ : s.stopping = false ∧ s.tasks = [] := by simpa using hNone
    obtain rfl := Option.some.inj h
    refine hs.move hLooping rfl (by decide) rfl (fun _ => ?_) (fun _ => hStopping) nofun
    rw [hTasks]
    exact Nat.zero_le _

theorem notifyIdle_wakeups (s : ThreadPool τ) : s.notifyIdle.wakeups = s.wakeups := by
  have hCount : ∀ l : List PoolCall,
      (l.map fun c => if c = .idle then .waiting else c).count .notifying = l.count .notifying := by
    intro l
    induction l with
    | nil => rfl
    | cons c l ih =>
      rw [List.map_cons, List.count_cons, List.count_cons, ih]
      cases c <;> rfl
  simp only [wakeups, notifyIdle, hCount]

theorem not_idle_notifyIdle (s : ThreadPool τ) : PoolCall.idle ∉ s.notifyIdle.calls := by
  intro hMem
  obtain ⟨c, -, hEq⟩ := List.mem_map.mp hMem
  cases c <;> cases hEq

theorem Sound.notifyIdle (hs : s.Sound) : s.notifyIdle.Sound :=
  { hs with
    awake := fun hBlocked => by
      rw [notifyIdle_wakeups]
      exact hs.awake hBlocked
    waiters := fun hMem => absurd hMem (not_idle_notifyIdle s) }

theorem Sound.finish_task (hs : s.Sound) (hRun : s.workers[w]? = some (.running n))
    (hIdle : PoolCall.idle ∈ s.calls → (s.tasks.isEmpty && s.active - 1 == 0) = false) :
    { s.move w .looping with
      active := s.active - 1
      finished := s.finished ++ [n] : ThreadPool τ }.Sound := by
  have hRunning : (n :: (s.move w .looping).running).Perm s.running :=
    move_running hRun .looping
  have hWakeups := move_wakeups hRun .looping
  refine
    { staffed := hs.staffed.trans_eq List.length_set.symm
      fifo := hs.fifo
      active := ?_
      numbers := ?_
      owner := fun v n hRun => hs.owner v n (running_of_move rfl hRun)
      awake := fun hBlocked => ?_
      waiters := hIdle
      leaving := fun hMem => hs.leaving (mem_of_mem_move hMem nofun)
      destructor := move_destructorSound hs.destructor hRun nofun nofun }
  · change s.active - 1 = (s.move w .looping).running.length
    rw [hs.active, ← hRunning.length_eq]
    rfl
  · change ((s.move w .looping).running ++ (s.finished ++ [n])).Perm (List.range s.taken.length)
    rw [← List.append_assoc]
    refine List.perm_append_comm.trans ?_
    exact (hRunning.append_right s.finished).trans hs.numbers
  · have := hs.awake (mem_of_mem_move hBlocked nofun)
    simp only [Worker.wakeup] at hWakeups
    change s.tasks.length ≤ (s.move w .looping).wakeups
    omega

theorem Sound.finish (hs : s.Sound) (h : s.finish w = some t) : t.Sound := by
  rw [ThreadPool.finish] at h
  split at h
  · next n hRun =>
    obtain ⟨-, h⟩ := Option.ite_none_right_eq_some.mp h
    dsimp only at h
    split at h
    · obtain rfl := Option.some.inj h
      exact hs.notifyIdle.finish_task hRun fun hMem => absurd hMem (not_idle_notifyIdle s)
    · next hBusy =>
      obtain rfl := Option.some.inj h
      exact hs.finish_task hRun fun _ => eq_false_of_ne_true hBusy
  · cases h

theorem Sound.stop (hs : s.Sound) (h : s.stop = some t) : t.Sound := by
  obtain ⟨-, hEq⟩ := Option.ite_none_right_eq_some.mp h
  obtain rfl := Option.some.inj hEq
  exact { hs with leaving := fun _ => rfl, destructor := rfl }

theorem Sound.notifyAll (hs : s.Sound) (h : s.notifyAll = some t) : t.Sound := by
  obtain ⟨hStopped, hEq⟩ := Option.ite_none_right_eq_some.mp h
  obtain rfl := Option.some.inj hEq
  have hRunning : (s.workers.map fun w => if w = .blocked then .looping else w).filterMap
      Worker.task = s.running := by
    rw [List.filterMap_map, running]
    congr 1
    funext w
    cases w <;> rfl
  have hBlocked : Worker.blocked ∉
      s.workers.map fun w => if w = .blocked then .looping else w := by
    intro hMem
    obtain ⟨w, -, hEq⟩ := List.mem_map.mp hMem
    cases w <;> cases hEq
  have hDestructor := hs.destructor
  simp only [destructorSound, hStopped] at hDestructor
  refine
    { hs with
      staffed := hs.staffed.trans_eq (List.length_map _).symm
      active := hs.active.trans (congrArg List.length hRunning.symm)
      numbers := ?_
      owner := fun w n hRun => ?_
      awake := fun hMem => absurd hMem hBlocked
      leaving := fun _ => hDestructor
      destructor := ⟨hDestructor, hBlocked, fun i hi => absurd hi (Nat.not_lt_zero i)⟩ }
  · rw [running, hRunning]
    exact hs.numbers
  · rw [List.getElem?_map, Option.map_eq_some_iff] at hRun
    obtain ⟨v, hv, hEq⟩ := hRun
    cases v <;> cases hEq
    exact hs.owner w n hv

theorem Sound.join (hs : s.Sound) (h : s.join = some t) : t.Sound := by
  rw [ThreadPool.join] at h
  split at h
  · next k hJoining =>
    obtain ⟨hReturned, hEq⟩ := Option.ite_none_right_eq_some.mp h
    obtain rfl := Option.some.inj hEq
    have hDestructor := hs.destructor
    simp only [destructorSound, hJoining] at hDestructor
    obtain ⟨hStopping, hBlocked, hJoined⟩ := hDestructor
    refine { hs with destructor := ⟨hStopping, hBlocked, fun i hi => ?_⟩ }
    rcases Nat.lt_succ_iff_lt_or_eq.mp hi with hi | rfl
    · exact hJoined i hi
    · exact hReturned
  · cases h

theorem Sound.step {a : Action τ} (hs : s.Sound) (h : (system τ).step a s = some t) : t.Sound := by
  cases a with
  | submit c task => exact hs.submit h
  | notifyOne c woken => exact hs.notifyOne h
  | wait c => exact hs.call h (by decide) nofun
  | checkIdle c => exact hs.checkIdle h
  | spuriousIdle c => exact hs.call h (by decide) nofun
  | take w => exact hs.take h
  | spuriousWork w =>
    obtain ⟨hBlocked, hEq⟩ := Option.ite_none_right_eq_some.mp h
    obtain rfl := Option.some.inj hEq
    exact hs.wake hBlocked
  | finish w => exact hs.finish h
  | stop => exact hs.stop h
  | notifyAll => exact hs.notifyAll h
  | join => exact hs.join h

theorem create_sound (numThreads hardwareConcurrency outside : Nat) :
    (create numThreads hardwareConcurrency outside : ThreadPool τ).Sound := by
  have hRunning : ∀ n, (List.replicate n Worker.looping).filterMap Worker.task = [] := by
    intro n
    rw [List.filterMap_replicate_of_none rfl]
  exact
    { staffed := by
        rw [create, List.length_replicate]
        exact workerCount_pos _ _
      fifo := rfl
      active := by rw [running, create, hRunning]; rfl
      numbers := by rw [running, create, hRunning]; rfl
      owner := fun w n hRun => by
        cases List.eq_of_mem_replicate (List.mem_of_getElem? hRun)
      awake := fun hMem => by cases List.eq_of_mem_replicate hMem
      waiters := fun hMem => by cases List.eq_of_mem_replicate hMem
      leaving := fun hMem => by cases List.eq_of_mem_replicate hMem
      destructor := rfl }

end Steps

end ThreadPool

end DataReel
