import DataReel.Library.Transition

/-! # The thread pool

The steps of `ThreadPool`: the critical sections under the mutex, the waits on
the condition variables and the notifications, taken in any order. Thread `i`
is worker `i` where there is one, and a thread outside of the pool otherwise.
-/

namespace DataReel

universe u

/-- Where a thread is in a call of the pool. -/
inductive PoolCall where
  | out
  | notifying  -- `Submit` has queued its task and is to notify a worker
  | waiting    -- `Wait` is to lock the mutex
  | idle       -- `Wait` is blocked on `idle_cv`
  deriving DecidableEq, Repr

/-- Where a worker is in `WorkerLoop`. The number of a task that runs counts the tasks
taken before it. -/
inductive Worker where
  | looping              -- to lock the mutex and look for a task
  | blocked              -- blocked on `work_cv`
  | running (task : Nat)
  | returned
  deriving DecidableEq, Repr

inductive PoolDestructor where
  | alive
  | stopped              -- `stopping` is set and all workers are to be notified
  | joining (joined : Nat)
  deriving DecidableEq, Repr

structure ThreadPool (τ : Type u) where
  workers : List Worker
  tasks : List τ
  active : Nat
  stopping : Bool
  -- the threads that run all this
  calls : List PoolCall
  destructor : PoolDestructor
  -- what has happened: the tasks queued, the tasks taken with their workers, the
  -- numbers of the tasks that have finished
  queued : List τ
  taken : List (τ × Nat)
  finished : List Nat
  deriving DecidableEq, Repr

namespace ThreadPool

variable {τ : Type u}

/-- The number of workers that the constructor starts. -/
def workerCount (numThreads hardwareConcurrency : Nat) : Nat :=
  let numThreads := if numThreads = 0 then hardwareConcurrency else numThreads
  if numThreads = 0 then 1 else numThreads

theorem workerCount_pos (numThreads hardwareConcurrency : Nat) :
    0 < workerCount numThreads hardwareConcurrency := by
  simp only [workerCount]
  split_ifs <;> omega

/-- A new pool, beside a number of threads that may call it. -/
def create (numThreads hardwareConcurrency outside : Nat) : ThreadPool τ :=
  let workers := workerCount numThreads hardwareConcurrency
  { workers := List.replicate workers .looping
    tasks := []
    active := 0
    stopping := false
    calls := List.replicate (workers + outside) .out
    destructor := .alive
    queued := []
    taken := []
    finished := [] }

def joined (s : ThreadPool τ) : Bool := s.destructor = .joining s.workers.length

/-- Thread `c` runs code that can call the pool: that of a task, or its own. -/
def callable (s : ThreadPool τ) (c : Nat) : Bool :=
  match s.workers[c]? with
  | some (.running _) | none => !s.joined
  | some _ => false

def setCall (c : Nat) (after : PoolCall) (s : ThreadPool τ) : ThreadPool τ :=
  { s with calls := s.calls.set c after }

def call (c : Nat) (before after : PoolCall) (s : ThreadPool τ) : Option (ThreadPool τ) :=
  if s.callable c ∧ s.calls[c]? = some before then some (s.setCall c after) else none

def move (w : Nat) (after : Worker) (s : ThreadPool τ) : ThreadPool τ :=
  { s with workers := s.workers.set w after }

/-- The condition of `Wait`. -/
def isIdle (s : ThreadPool τ) : Bool := s.tasks.isEmpty && s.active == 0

/-- `Submit`: the critical section. -/
def submit (c : Nat) (task : τ) (s : ThreadPool τ) : Option (ThreadPool τ) := do
  let s ← s.call c .out .notifying
  return { s with tasks := s.tasks ++ [task], queued := s.queued ++ [task] }

/-- `Submit`: `notify_one` wakes a blocked worker where there is one. -/
def notifyOne (c : Nat) (woken : Option Nat) (s : ThreadPool τ) : Option (ThreadPool τ) := do
  let s ← s.call c .notifying .out
  match woken with
  | some w => if s.workers[w]? = some .blocked then return s.move w .looping else none
  | none => if .blocked ∈ s.workers then none else return s

/-- `Wait`: the call begins. -/
def wait (c : Nat) (s : ThreadPool τ) : Option (ThreadPool τ) := s.call c .out .waiting

/-- `Wait`: the critical section, which returns or blocks. -/
def checkIdle (c : Nat) (s : ThreadPool τ) : Option (ThreadPool τ) :=
  if s.isIdle then s.call c .waiting .out else s.call c .waiting .idle

/-- A thread wakes up from `idle_cv` by itself. -/
def spuriousIdle (c : Nat) (s : ThreadPool τ) : Option (ThreadPool τ) := s.call c .idle .waiting

/-- `WorkerLoop`: the critical section before the task. -/
def take (w : Nat) (s : ThreadPool τ) : Option (ThreadPool τ) :=
  if s.workers[w]? = some .looping then
    if s.stopping || !s.tasks.isEmpty then
      match s.tasks with
      | [] => some (s.move w .returned) -- stopping and drained
      | task :: tasks =>
        some { s.move w (.running s.taken.length) with
          tasks := tasks
          active := s.active + 1
          taken := s.taken ++ [(task, w)] }
    else some (s.move w .blocked)
  else none

/-- A worker wakes up from `work_cv` by itself. -/
def spuriousWork (w : Nat) (s : ThreadPool τ) : Option (ThreadPool τ) :=
  if s.workers[w]? = some .blocked then some (s.move w .looping) else none

/-- Every thread that is blocked on `idle_cv` wakes up. -/
def notifyIdle (s : ThreadPool τ) : ThreadPool τ :=
  { s with calls := s.calls.map fun c => if c = .idle then .waiting else c }

/-- `WorkerLoop`: the critical section after the task. -/
def finish (w : Nat) (s : ThreadPool τ) : Option (ThreadPool τ) :=
  match s.workers[w]? with
  | some (.running n) =>
    if s.calls[w]? = some .out then
      let s := { s.move w .looping with active := s.active - 1, finished := s.finished ++ [n] }
      if s.isIdle then some s.notifyIdle else some s
    else none
  | _ => none

/-- The destructor: the critical section. -/
def stop (s : ThreadPool τ) : Option (ThreadPool τ) :=
  if s.destructor = .alive then some { s with stopping := true, destructor := .stopped } else none

/-- The destructor: every worker that is blocked on `work_cv` wakes up. -/
def notifyAll (s : ThreadPool τ) : Option (ThreadPool τ) :=
  if s.destructor = .stopped then
    some { s with
      workers := s.workers.map fun w => if w = .blocked then .looping else w
      destructor := .joining 0 }
  else none

/-- The destructor: the next `join` returns. -/
def join (s : ThreadPool τ) : Option (ThreadPool τ) :=
  match s.destructor with
  | .joining k =>
    if s.workers[k]? = some .returned then some { s with destructor := .joining (k + 1) } else none
  | _ => none

inductive Action (τ : Type u) where
  | submit (c : Nat) (task : τ)
  | notifyOne (c : Nat) (woken : Option Nat)
  | wait (c : Nat)
  | checkIdle (c : Nat)
  | spuriousIdle (c : Nat)
  | take (w : Nat)
  | spuriousWork (w : Nat)
  | finish (w : Nat)
  | stop
  | notifyAll
  | join

/-- The pool and the threads around it. -/
def system (τ : Type u) : Transition (Action τ) (ThreadPool τ) where
  step
    | .submit c task => submit c task
    | .notifyOne c woken => notifyOne c woken
    | .wait c => wait c
    | .checkIdle c => checkIdle c
    | .spuriousIdle c => spuriousIdle c
    | .take w => take w
    | .spuriousWork w => spuriousWork w
    | .finish w => finish w
    | .stop => stop
    | .notifyAll => notifyAll
    | .join => join

/-- A worker has not left its loop. -/
def working (s : ThreadPool τ) : Prop := ∃ w ∈ s.workers, w ≠ .returned

instance (s : ThreadPool τ) : Decidable s.working :=
  inferInstanceAs (Decidable (∃ w ∈ s.workers, w ≠ .returned))

end ThreadPool

end DataReel
