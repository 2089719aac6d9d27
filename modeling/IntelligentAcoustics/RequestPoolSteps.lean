import IntelligentAcoustics.RequestPool

/-!
What each step of the pool can do, said once: the guard it found true and the state it
leaves. Every invariant of the pool is derived from these lemmas.
-/

set_option autoImplicit false

namespace IntelligentAcoustics.Pool
open Transition BlockHeap LinkedChain
variable {α β : Type} {s s' : State α β}

theorem addAppend_next {k : Nat} (h : aiRequsetPoolAddAppend s k = .next s') :
    ∃ newtask process arg heap head,
      s.adds[k]? = some (.ready newtask process arg) ∧ s.pool.mutex = none ∧
      appendTask s.heap s.pool.apiRequestHead newtask = .next (heap,head) ∧
      s' = { s with
        heap := heap
        pool := { s.pool with
          apiRequestHead := head
          curRequestSize := s.pool.curRequestSize + 1 }
        adds := s.adds.set k .signal
        hist := { s.hist with appended := s.hist.appended ++ [(newtask,process,arg)] } } := by
  unfold aiRequsetPoolAddAppend at h
  split at h
  · rename_i newtask process arg hk
    split at h
    · rename_i hm
      obtain ⟨⟨heap,head⟩,ha,hs⟩ := Outcome.bind_eq_next.mp h
      exact ⟨newtask,process,arg,heap,head,hk,hm,ha,by simpa using hs.symm⟩
    · simp at h
  · simp at h

theorem addSignal_next {k : Nat} {sleeper : Option Nat}
    (h : aiRequsetPoolAddSignal s k sleeper = .next s') :
    s.adds[k]? = some .signal ∧
      ((∃ i, s.workers[i]? = some .asleep ∧
          s' = { s with adds := s.adds.set k .returned, workers := s.workers.set i .woken }) ∨
        (.asleep ∉ s.workers ∧ s' = { s with adds := s.adds.set k .returned })) := by
  unfold aiRequsetPoolAddSignal at h
  split at h
  · rename_i hk
    refine ⟨hk,?_⟩
    split at h
    · rename_i i
      split at h
      · rename_i hi
        exact .inl ⟨i,hi,by simpa using h.symm⟩
      · simp at h
    · split at h
      · simp at h
      · rename_i hn
        exact .inr ⟨hn,by simpa using h.symm⟩
  · simp at h

theorem dequeue_next {i : Nat} (h : dequeue s i = .next s') :
    ∃ task t, s.pool.apiRequestHead = some task ∧ s.heap.read task = some t ∧
      s' = { s with
        pool := { s.pool with
          curRequestSize := s.pool.curRequestSize - 1
          apiRequestHead := t.next }
        workers := s.workers.set i (.call task)
        hist := { s.hist with taken := s.hist.taken ++ [(task,t.process,t.arg)] } } := by
  unfold dequeue at h
  split at h
  · simp at h
  · rename_i task hh
    split at h
    · simp at h
    · rename_i t ht
      exact ⟨task,t,hh,ht,by simpa using h.symm⟩

theorem test_next {i : Nat} (h : threadRoutineTest s i = .next s') :
    ∃ pc, s.workers[i]? = some pc ∧ pc.retests = true ∧ s.pool.mutex = none ∧
      ((s.pool.curRequestSize = 0 ∧ s.pool.shutdown = 0 ∧
          s' = { s with
            pool := { s.pool with mutex := some i }
            workers := s.workers.set i .wait }) ∨
        (s.pool.shutdown ≠ 0 ∧ s' = { s with workers := s.workers.set i .exiting }) ∨
        (s.pool.curRequestSize ≠ 0 ∧ s.pool.shutdown = 0 ∧ dequeue s i = .next s')) := by
  unfold threadRoutineTest at h
  split at h
  · simp at h
  · rename_i pc hi
    split at h
    · rename_i hg
      refine ⟨pc,hi,hg.1,hg.2,?_⟩
      split at h
      · rename_i hc
        exact .inl ⟨hc.1.symm,hc.2.symm,by simpa using h.symm⟩
      · rename_i hc
        split at h
        · rename_i hd
          exact .inr (.inl ⟨hd,by simpa using h.symm⟩)
        · rename_i hd
          have hd := Classical.not_not.mp hd
          exact .inr (.inr ⟨fun hz => hc ⟨hz.symm,hd.symm⟩,hd,h⟩)
    · simp at h

theorem sleep_next {i : Nat} (h : threadRoutineSleep s i = .next s') :
    s.workers[i]? = some .wait ∧ s' = { s with
      pool := { s.pool with mutex := none }
      workers := s.workers.set i .asleep } := by
  unfold threadRoutineSleep at h
  split at h
  · exact ⟨‹_›,by simpa using h.symm⟩
  · simp at h

theorem wakeup_next {i : Nat} (h : threadRoutineWakeup s i = .next s') :
    s.workers[i]? = some .asleep ∧ s' = { s with workers := s.workers.set i .woken } := by
  unfold threadRoutineWakeup at h
  split at h
  · exact ⟨‹_›,by simpa using h.symm⟩
  · simp at h

theorem invoke_next {i : Nat} (h : threadRoutineInvoke s i = .next s') :
    ∃ task t, s.workers[i]? = some (.call task) ∧ s.heap.read task = some t ∧
      s' = { s with
        workers := s.workers.set i (.running task)
        hist := { s.hist with invoked := s.hist.invoked ++ [(task,t.process,t.arg)] } } := by
  unfold threadRoutineInvoke at h
  split at h
  · rename_i task hi
    split at h
    · simp at h
    · rename_i t ht
      exact ⟨task,t,hi,ht,by simpa using h.symm⟩
  · simp at h

theorem taskReturn_next {i : Nat} (h : threadRoutineReturn s i = .next s') :
    ∃ task, s.workers[i]? = some (.running task) ∧
      s' = { s with workers := s.workers.set i (.release task) } := by
  unfold threadRoutineReturn at h
  split at h
  · exact ⟨_,‹_›,by simpa using h.symm⟩
  · simp at h

theorem free_next {i : Nat} (h : threadRoutineFree s i = .next s') :
    ∃ task t, s.workers[i]? = some (.release task) ∧ s.heap.read task = some t ∧
      s' = { s with
        heap := s.heap.free task
        workers := s.workers.set i .lock
        hist := { s.hist with freed := s.hist.freed ++ [task] } } := by
  unfold threadRoutineFree at h
  split at h
  · rename_i task hi
    split at h
    · simp at h
    · rename_i t ht
      exact ⟨task,t,hi,ht,by simpa using h.symm⟩
  · simp at h

theorem exit_next {i : Nat} (h : threadRoutineExit s i = .next s') :
    s.workers[i]? = some .exiting ∧ s' = { s with workers := s.workers.set i .exited } := by
  unfold threadRoutineExit at h
  split at h
  · exact ⟨‹_›,by simpa using h.symm⟩
  · simp at h

theorem destroyTest_next (h : aiRequsetPoolDestroyTest s = .next s') :
    s.destroyer.callable = true ∧
      ((s.pool.shutdown ≠ 0 ∧ s' = { s with destroyer := .returned (-1) }) ∨
        (s.pool.shutdown = 0 ∧ s' = { s with destroyer := .write })) := by
  unfold aiRequsetPoolDestroyTest at h
  split at h
  · refine ⟨‹_›,?_⟩
    split at h
    · exact .inl ⟨‹_›,by simpa using h.symm⟩
    · exact .inr ⟨Classical.not_not.mp ‹_›,by simpa using h.symm⟩
  · simp at h

theorem destroyWrite_next (h : aiRequsetPoolDestroyWrite s = .next s') :
    s.destroyer = .write ∧
      s' = { s with pool := { s.pool with shutdown := 1 }, destroyer := .broadcast } := by
  unfold aiRequsetPoolDestroyWrite at h
  split at h
  · exact ⟨‹_›,by simpa using h.symm⟩
  · simp at h

theorem destroyBroadcast_next (h : aiRequsetPoolDestroyBroadcast s = .next s') :
    s.destroyer = .broadcast ∧
      s' = { s with workers := s.workers.map WorkerPc.wake, destroyer := .join 0 } := by
  unfold aiRequsetPoolDestroyBroadcast at h
  split at h
  · exact ⟨‹_›,by simpa using h.symm⟩
  · simp at h

theorem destroyJoin_next (h : aiRequsetPoolDestroyJoin s = .next s') :
    ∃ i, s.destroyer = .join i ∧
      ((∃ ids tid, i < s.pool.maxRequestNum ∧ s.pool.pthreadID = .block ids ∧
          ids[i]? = some tid ∧ s.workers[tid]? = some .exited ∧
          s' = { s with destroyer := .join (i+1) }) ∨
        (s.pool.maxRequestNum ≤ i ∧ s' = { s with destroyer := .freeIds })) := by
  unfold aiRequsetPoolDestroyJoin at h
  split at h
  · rename_i i hd
    refine ⟨i,hd,?_⟩
    split at h
    · rename_i hi
      split at h
      · rename_i ids hp
        split at h
        · simp at h
        · rename_i tid ht
          split at h
          · exact .inl ⟨ids,tid,hi,hp,ht,‹_›,by simpa using h.symm⟩
          · simp at h
      · simp at h
      · simp at h
    · rename_i hi
      exact .inr ⟨Nat.not_lt.mp hi,by simpa using h.symm⟩
  · simp at h

theorem destroyFreeIds_next (h : aiRequsetPoolDestroyFreeIds s = .next s') :
    s.destroyer = .freeIds ∧ ∃ ids, s.pool.pthreadID.free = .next ids ∧
      s' = { s with pool := { s.pool with pthreadID := ids }, destroyer := .drain } := by
  unfold aiRequsetPoolDestroyFreeIds at h
  split at h
  · obtain ⟨ids,hf,hs⟩ := Outcome.bind_eq_next.mp h
    exact ⟨‹_›,ids,hf,by simpa using hs.symm⟩
  · simp at h

theorem destroyDrain_next (h : aiRequsetPoolDestroyDrain s = .next s') :
    s.destroyer = .drain ∧
      ((s.pool.apiRequestHead = none ∧ s' = { s with destroyer := .returned 0 }) ∨
        (∃ head t, s.pool.apiRequestHead = some head ∧ s.heap.read head = some t ∧
          s' = { s with
            heap := s.heap.free head
            pool := { s.pool with apiRequestHead := t.next }
            hist := { s.hist with drained := s.hist.drained ++ [(head,t.process,t.arg)] } })) := by
  unfold aiRequsetPoolDestroyDrain at h
  split at h
  · rename_i hd
    refine ⟨hd,?_⟩
    split at h
    · rename_i hh
      exact .inl ⟨hh,by simpa using h.symm⟩
    · rename_i head hh
      split at h
      · simp at h
      · rename_i t ht
        exact .inr ⟨head,t,hh,ht,by simpa using h.symm⟩
  · simp at h

end IntelligentAcoustics.Pool
