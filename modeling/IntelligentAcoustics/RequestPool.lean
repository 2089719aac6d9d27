import IntelligentAcoustics.Library.BlockHeap
import IntelligentAcoustics.Library.LinkedChain
import IntelligentAcoustics.Library.Transition

/-!
The thread pool of `common/pthreadpool.h` and `msr/pthread_pool.c`: one pool object with
everything that happens to it, the calls of `Ai_Requset_pool_add`, the workers that run
`thread_routine` on it and the caller of `Ai_Requset_pool_destroy`.

A section between lock and unlock is one step, except that a worker which is about to
sleep keeps the mutex until `pthread_cond_wait` has put it to sleep. What the code does
without the mutex is a step of its own. A dereference outside live memory, a second free
and a loop that never ends are faults.
-/

set_option autoImplicit false

namespace IntelligentAcoustics.Pool
open Transition BlockHeap LinkedChain

abbrev Addr := Nat

structure PoolTask (α β : Type) where
  process : α
  arg : β
  next : Option Addr
  deriving DecidableEq, Repr

inductive ThreadIds where
  | null | block (ids : List Nat) | freed
  deriving DecidableEq, Repr

/-- `mutex` holds the worker that owns the lock. `curRequestSize` counts live nodes, of
which memory never holds as many as an `int` can count. -/
structure PoolCreate where
  pthreadID : ThreadIds
  mutex : Option Nat
  apiRequestHead : Option Addr
  maxRequestNum : Nat
  curRequestSize : Int
  shutdown : Int
  deriving DecidableEq, Repr

inductive WorkerPc where
  | lock
  /-- Owns the mutex and has found nothing to do: about to call `pthread_cond_wait`. -/
  | wait
  | asleep
  | woken
  | call (task : Addr)
  | running (task : Addr)
  | release (task : Addr)
  | exiting
  | exited
  deriving DecidableEq, Repr

inductive AddPc (α β : Type) where
  | ready (newtask : Addr) (process : α) (arg : β)
  | signal
  | returned
  deriving DecidableEq, Repr

inductive DestroyPc where
  | idle | write | broadcast
  | join (i : Nat)
  | freeIds | drain
  | returned (ret : Int)
  deriving DecidableEq, Repr

/-- What has happened so far: the tasks in the order of the lock, and the nodes freed by
the workers and by the drain of `Ai_Requset_pool_destroy`. -/
structure History (α β : Type) where
  appended : List (Addr × α × β)
  taken : List (Addr × α × β)
  invoked : List (Addr × α × β)
  freed : List Addr
  drained : List (Addr × α × β)
  deriving DecidableEq, Repr

structure State (α β : Type) where
  heap : Heap (PoolTask α β)
  pool : PoolCreate
  workers : List WorkerPc
  adds : List (AddPc α β)
  destroyer : DestroyPc
  hist : History α β
  deriving DecidableEq, Repr

variable {α β : Type}

def taskView (h : Heap (PoolTask α β)) : View (α × β) := fun a =>
  (h.read a).map fun t => ((t.process,t.arg),t.next)

/-! ### `Ai_Requset_pool_add` -/

def aiRequsetPoolAddStart (s : State α β) (process : α) (arg : β) : Outcome (State α β) :=
  .next { s with
    heap := s.heap.malloc ⟨process,arg,none⟩
    adds := s.adds ++ [.ready s.heap.size process arg] }

def appendTask (h : Heap (PoolTask α β)) (head : Option Addr) (newtask : Addr) :
    Outcome (Heap (PoolTask α β) × Option Addr) :=
  match head with
  | none => .next (h, some newtask)
  | some member =>
    match walk (taskView h) h.size member with
    | .stop last =>
      match h.read last with
      | none => .fault
      | some t => .next (h.write last { t with next := some newtask }, head)
    | .fault | .diverge => .fault

/-- The locked section: append at the tail and count. -/
def aiRequsetPoolAddAppend (s : State α β) (k : Nat) : Outcome (State α β) :=
  match s.adds[k]? with
  | some (.ready newtask process arg) =>
    if s.pool.mutex = none then
      (appendTask s.heap s.pool.apiRequestHead newtask).bind fun (heap,head) =>
        .next { s with
          heap := heap
          pool := { s.pool with
            apiRequestHead := head
            curRequestSize := s.pool.curRequestSize + 1 }
          adds := s.adds.set k .signal
          hist := { s.hist with appended := s.hist.appended ++ [(newtask,process,arg)] } }
    else .blocked
  | _ => .blocked

/-- `pthread_cond_signal` wakes one of the sleepers; it is lost only if there is none.
A signal that wakes several is this step and then wakeups. -/
def aiRequsetPoolAddSignal (s : State α β) (k : Nat) (sleeper : Option Nat) :
    Outcome (State α β) :=
  match s.adds[k]? with
  | some .signal =>
    match sleeper with
    | some i =>
      if s.workers[i]? = some .asleep then
        .next { s with adds := s.adds.set k .returned, workers := s.workers.set i .woken }
      else .blocked
    | none =>
      if .asleep ∈ s.workers then .blocked
      else .next { s with adds := s.adds.set k .returned }
  | _ => .blocked

/-! ### `thread_routine` -/

def WorkerPc.retests : WorkerPc → Bool
  | .lock | .woken => true
  | _ => false

def dequeue (s : State α β) (i : Nat) : Outcome (State α β) :=
  match s.pool.apiRequestHead with
  | none => .fault
  | some task =>
    match s.heap.read task with
    | none => .fault
    | some t => .next { s with
        pool := { s.pool with
          curRequestSize := s.pool.curRequestSize - 1
          apiRequestHead := t.next }
        workers := s.workers.set i (.call task)
        hist := { s.hist with taken := s.hist.taken ++ [(task,t.process,t.arg)] } }

/-- Take the mutex, at the top of the loop or inside `pthread_cond_wait`, test the wait
condition, and unless it holds go on to the unlock. -/
def threadRoutineTest (s : State α β) (i : Nat) : Outcome (State α β) :=
  match s.workers[i]? with
  | none => .blocked
  | some pc =>
    if pc.retests ∧ s.pool.mutex = none then
      if 0 = s.pool.curRequestSize ∧ 0 = s.pool.shutdown then
        .next { s with pool := { s.pool with mutex := some i }, workers := s.workers.set i .wait }
      else if s.pool.shutdown ≠ 0 then
        .next { s with workers := s.workers.set i .exiting }
      else dequeue s i
    else .blocked

/-- `pthread_cond_wait`: unlock and fall asleep at once. -/
def threadRoutineSleep (s : State α β) (i : Nat) : Outcome (State α β) :=
  if s.workers[i]? = some .wait then
    .next { s with pool := { s.pool with mutex := none }, workers := s.workers.set i .asleep }
  else .blocked

def threadRoutineWakeup (s : State α β) (i : Nat) : Outcome (State α β) :=
  if s.workers[i]? = some .asleep then .next { s with workers := s.workers.set i .woken }
  else .blocked

def threadRoutineInvoke (s : State α β) (i : Nat) : Outcome (State α β) :=
  match s.workers[i]? with
  | some (.call task) =>
    match s.heap.read task with
    | none => .fault
    | some t => .next { s with
        workers := s.workers.set i (.running task)
        hist := { s.hist with invoked := s.hist.invoked ++ [(task,t.process,t.arg)] } }
  | _ => .blocked

def threadRoutineReturn (s : State α β) (i : Nat) : Outcome (State α β) :=
  match s.workers[i]? with
  | some (.running task) => .next { s with workers := s.workers.set i (.release task) }
  | _ => .blocked

def threadRoutineFree (s : State α β) (i : Nat) : Outcome (State α β) :=
  match s.workers[i]? with
  | some (.release task) =>
    match s.heap.read task with
    | none => .fault
    | some _ => .next { s with
        heap := s.heap.free task
        workers := s.workers.set i .lock
        hist := { s.hist with freed := s.hist.freed ++ [task] } }
  | _ => .blocked

def threadRoutineExit (s : State α β) (i : Nat) : Outcome (State α β) :=
  if s.workers[i]? = some .exiting then .next { s with workers := s.workers.set i .exited }
  else .blocked

/-! ### `Ai_Requset_pool_destroy` -/

def DestroyPc.callable : DestroyPc → Bool
  | .idle | .returned _ => true
  | _ => false

def aiRequsetPoolDestroyTest (s : State α β) : Outcome (State α β) :=
  if s.destroyer.callable then
    if s.pool.shutdown ≠ 0 then .next { s with destroyer := .returned (-1) }
    else .next { s with destroyer := .write }
  else .blocked

def aiRequsetPoolDestroyWrite (s : State α β) : Outcome (State α β) :=
  if s.destroyer = .write then
    .next { s with pool := { s.pool with shutdown := 1 }, destroyer := .broadcast }
  else .blocked

def WorkerPc.wake : WorkerPc → WorkerPc
  | .asleep => .woken
  | pc => pc

def aiRequsetPoolDestroyBroadcast (s : State α β) : Outcome (State α β) :=
  if s.destroyer = .broadcast then
    .next { s with workers := s.workers.map WorkerPc.wake, destroyer := .join 0 }
  else .blocked

/-- `pthread_join(pthreadID[i])` returns only when that worker has exited. -/
def aiRequsetPoolDestroyJoin (s : State α β) : Outcome (State α β) :=
  match s.destroyer with
  | .join i =>
    if i < s.pool.maxRequestNum then
      match s.pool.pthreadID with
      | .block ids =>
        match ids[i]? with
        | none => .fault
        | some tid =>
          if s.workers[tid]? = some .exited then .next { s with destroyer := .join (i+1) }
          else .blocked
      | .null | .freed => .fault
    else .next { s with destroyer := .freeIds }
  | _ => .blocked

def ThreadIds.free : ThreadIds → Outcome ThreadIds
  | .null => .next .null
  | .block _ => .next .freed
  | .freed => .fault

def aiRequsetPoolDestroyFreeIds (s : State α β) : Outcome (State α β) :=
  if s.destroyer = .freeIds then
    s.pool.pthreadID.free.bind fun ids =>
      .next { s with pool := { s.pool with pthreadID := ids }, destroyer := .drain }
  else .blocked

def aiRequsetPoolDestroyDrain (s : State α β) : Outcome (State α β) :=
  if s.destroyer = .drain then
    match s.pool.apiRequestHead with
    | none => .next { s with destroyer := .returned 0 }
    | some head =>
      match s.heap.read head with
      | none => .fault
      | some t => .next { s with
          heap := s.heap.free head
          pool := { s.pool with apiRequestHead := t.next }
          hist := { s.hist with drained := s.hist.drained ++ [(head,t.process,t.arg)] } }
  else .blocked

inductive Action (α β : Type) where
  | addStart (process : α) (arg : β)
  | addAppend (k : Nat)
  | addSignal (k : Nat) (sleeper : Option Nat)
  | test (i : Nat)
  | sleep (i : Nat)
  | wakeup (i : Nat)
  | invoke (i : Nat)
  | taskReturn (i : Nat)
  | free (i : Nat)
  | exit (i : Nat)
  | destroyTest | destroyWrite | destroyBroadcast | destroyJoin | destroyFreeIds | destroyDrain
  deriving DecidableEq, Repr

def step (s : State α β) : Action α β → Outcome (State α β)
  | .addStart process arg => aiRequsetPoolAddStart s process arg
  | .addAppend k => aiRequsetPoolAddAppend s k
  | .addSignal k sleeper => aiRequsetPoolAddSignal s k sleeper
  | .test i => threadRoutineTest s i
  | .sleep i => threadRoutineSleep s i
  | .wakeup i => threadRoutineWakeup s i
  | .invoke i => threadRoutineInvoke s i
  | .taskReturn i => threadRoutineReturn s i
  | .free i => threadRoutineFree s i
  | .exit i => threadRoutineExit s i
  | .destroyTest => aiRequsetPoolDestroyTest s
  | .destroyWrite => aiRequsetPoolDestroyWrite s
  | .destroyBroadcast => aiRequsetPoolDestroyBroadcast s
  | .destroyJoin => aiRequsetPoolDestroyJoin s
  | .destroyFreeIds => aiRequsetPoolDestroyFreeIds s
  | .destroyDrain => aiRequsetPoolDestroyDrain s

def History.empty : History α β := ⟨[],[],[],[],[]⟩

def started (n : Nat) : State α β where
  heap := .empty
  pool := ⟨.block (List.range n),none,none,n,0,0⟩
  workers := List.replicate n .lock
  adds := []
  destroyer := .idle
  hist := .empty

end IntelligentAcoustics.Pool
