import IntelligentAcoustics.Library.Progress
import IntelligentAcoustics.PoolDisposal
import IntelligentAcoustics.PoolSignal

/-!
What the pool does when it is left alone: no new call, and no wakeup without a signal. The
steps that the workers, the unfinished adds and an unfinished destroy can still take are
bounded, and where they end everything is done, or a worker has missed the broadcast.
-/

set_option autoImplicit false

namespace IntelligentAcoustics.Pool
open Transition BlockHeap LinkedChain ThreadList
variable {α β : Type} {s s' : State α β} {q : List (Addr × α × β)}

def Action.internal : Action α β → Bool
  | .addStart _ _ | .wakeup _ | .destroyTest => false
  | .addAppend _ | .addSignal _ _ | .test _ | .sleep _ | .invoke _ | .taskReturn _ | .free _ |
    .exit _ | .destroyWrite | .destroyBroadcast | .destroyJoin | .destroyFreeIds |
    .destroyDrain => true

/-! ### The load of a state -/

/-- The steps up to the next sleep, those of the task in hand included. -/
def WorkerPc.load : WorkerPc → Nat
  | .asleep | .exited => 0
  | .wait | .exiting => 1
  | .lock | .woken => 2
  | .release _ => 3
  | .running _ => 4
  | .call _ => 5

def AddPc.load : AddPc α β → Nat
  | .returned => 0
  | .signal => 3
  | .ready _ _ _ => 8

def DestroyPc.load (n : Nat) : DestroyPc → Nat
  | .idle | .returned _ => 0
  | .drain => 1
  | .freeIds => 2
  | .join i => 3 + (n - i)
  | .broadcast => 4 + 3*n
  | .write => 5 + 3*n

def History.waiting (hist : History α β) : Nat :=
  hist.appended.length - (hist.taken.length + hist.drained.length)

def State.load (s : State α β) : Nat :=
  (s.workers.map WorkerPc.load).sum + 4 * s.hist.waiting + (s.adds.map AddPc.load).sum +
    s.destroyer.load s.workers.length

theorem Inv.waiting (inv : Inv s q) :
    s.hist.taken.length + s.hist.drained.length + q.length = s.hist.appended.length := by
  simp only [← inv.custody.order,List.length_append]

def WorkerPc.leaving : WorkerPc → Bool
  | .exiting | .exited => true
  | .lock | .wait | .asleep | .woken | .call _ | .running _ | .release _ => false

/-- The mutex is held between a test and a sleep only, and a worker leaves only when the
pool is being shut down. -/
structure Paced (s : State α β) : Prop where
  owner : ∀ i, s.pool.mutex = some i → s.workers[i]? = some .wait
  stays : s.pool.shutdown = 0 → ∀ pc ∈ s.workers, pc.leaving = false

theorem paced_started (n : Nat) : Paced (started n : State α β) where
  owner i hi := by simp [started] at hi
  stays _ pc hpc := by
    simp only [started,List.mem_replicate] at hpc
    rw [hpc.2]
    rfl

theorem Paced.move (p : Paced s) {i : Nat} {pc : WorkerPc} (pc' : WorkerPc)
    (hi : s.workers[i]? = some pc) (hw : pc ≠ .wait) (hl : pc'.leaving = false) :
    Paced { s with workers := s.workers.set i pc' } where
  owner j hj := by
    have hown := p.owner j hj
    have hne : i ≠ j := by
      rintro rfl
      exact hw (Option.some.inj (hi.symm.trans hown))
    rw [List.getElem?_set_ne hne]
    exact hown
  stays hs c hc := by
    rcases List.mem_or_eq_of_mem_set hc with hc | rfl
    · exact p.stays hs c hc
    · exact hl

theorem Paced.test (p : Paced s) {i : Nat} (h : threadRoutineTest s i = .next s') :
    Paced s' := by
  obtain ⟨pc,hi,hpc,hm,hcase⟩ := test_next h
  have hlt := (List.getElem?_eq_some_iff.mp hi).1
  have hfree : pc ≠ .wait := fun he => by simp [he,WorkerPc.retests] at hpc
  rcases hcase with ⟨-,-,rfl⟩ | ⟨hs,rfl⟩ | ⟨-,hs,hq⟩
  · refine ⟨fun j hj => ?_,(p.move .wait hi hfree rfl).stays⟩
    obtain rfl : i = j := by simpa using hj
    simp [hlt]
  · exact ⟨fun j hj => by simp [hm] at hj,fun hz => absurd hz hs⟩
  · obtain ⟨task,t,-,-,rfl⟩ := dequeue_next hq
    exact ⟨fun j hj => by simp [hm] at hj,(p.move (.call task) hi hfree rfl).stays⟩

theorem Paced.broadcast (p : Paced s) (h : aiRequsetPoolDestroyBroadcast s = .next s') :
    Paced s' := by
  obtain ⟨-,rfl⟩ := destroyBroadcast_next h
  refine ⟨fun i hi => ?_,fun hs pc hpc => ?_⟩
  · simp [p.owner i hi,WorkerPc.wake]
  · obtain ⟨c,hc,rfl⟩ := List.mem_map.mp hpc
    have hstay := p.stays hs c hc
    cases c <;> simp_all [WorkerPc.wake,WorkerPc.leaving]

theorem Paced.step (p : Paced s) {a : Action α β} (h : step s a = .next s') : Paced s' := by
  cases a with
  | addStart process arg =>
    simp only [Pool.step,aiRequsetPoolAddStart,Outcome.next.injEq] at h
    exact h ▸ ⟨p.owner,p.stays⟩
  | addAppend k =>
    obtain ⟨_,_,_,_,_,-,-,-,rfl⟩ := addAppend_next h
    exact ⟨p.owner,p.stays⟩
  | addSignal k sleeper =>
    obtain ⟨-,⟨i,hi,rfl⟩ | ⟨-,rfl⟩⟩ := addSignal_next h
    · have hmv := p.move .woken hi (by simp) rfl
      exact ⟨hmv.owner,hmv.stays⟩
    · exact ⟨p.owner,p.stays⟩
  | test i => exact p.test h
  | sleep i =>
    obtain ⟨hi,rfl⟩ := sleep_next h
    refine ⟨fun j hj => by simp at hj,fun hs pc hpc => ?_⟩
    rcases List.mem_or_eq_of_mem_set hpc with hpc | rfl
    · exact p.stays hs pc hpc
    · rfl
  | wakeup i =>
    obtain ⟨hi,rfl⟩ := wakeup_next h
    exact p.move .woken hi (by simp) rfl
  | invoke i =>
    obtain ⟨task,_,hi,-,rfl⟩ := invoke_next h
    have hmv := p.move (.running task) hi (by simp) rfl
    exact ⟨hmv.owner,hmv.stays⟩
  | taskReturn i =>
    obtain ⟨task,hi,rfl⟩ := taskReturn_next h
    exact p.move (.release task) hi (by simp) rfl
  | free i =>
    obtain ⟨task,_,hi,-,rfl⟩ := free_next h
    have hmv := p.move .lock hi (by simp) rfl
    exact ⟨hmv.owner,hmv.stays⟩
  | exit i =>
    obtain ⟨hi,rfl⟩ := exit_next h
    have hshut : s.pool.shutdown ≠ 0 := fun hz => by
      simpa [WorkerPc.leaving] using p.stays hz _ (List.mem_of_getElem? hi)
    refine ⟨fun j hj => ?_,fun hz => absurd hz hshut⟩
    have hown := p.owner j hj
    have hne : i ≠ j := by
      rintro rfl
      simp [hi] at hown
    rw [List.getElem?_set_ne hne]
    exact hown
  | destroyTest =>
    obtain ⟨-,⟨-,rfl⟩ | ⟨-,rfl⟩⟩ := destroyTest_next h
    all_goals exact ⟨p.owner,p.stays⟩
  | destroyWrite =>
    obtain ⟨-,rfl⟩ := destroyWrite_next h
    exact ⟨p.owner,fun hz => by simp at hz⟩
  | destroyBroadcast => exact p.broadcast h
  | destroyJoin =>
    obtain ⟨i,-,⟨-,-,-,-,-,-,rfl⟩ | ⟨-,rfl⟩⟩ := destroyJoin_next h
    all_goals exact ⟨p.owner,p.stays⟩
  | destroyFreeIds =>
    obtain ⟨-,ids,-,rfl⟩ := destroyFreeIds_next h
    exact ⟨p.owner,p.stays⟩
  | destroyDrain =>
    obtain ⟨-,⟨-,rfl⟩ | ⟨-,-,-,-,rfl⟩⟩ := destroyDrain_next h
    all_goals exact ⟨p.owner,p.stays⟩

theorem paced_reachable {n : Nat} (h : Reachable step (started n) s) : Paced s :=
  invariant_reachable (fun _ _ _ p hs => p.step hs) h (paced_started n)

abbrev Resting (s : State α β) : Prop := Stuck step (fun a => a.internal = true) s

theorem Inv.blocked (inv : Inv s q) (h : Resting s) {a : Action α β} (ha : a.internal = true) :
    Pool.step s a = .blocked := by
  cases hs : Pool.step s a with
  | blocked => rfl
  | fault => exact absurd hs (inv.no_fault a)
  | next t => exact absurd hs (h a ha t)

section
variable (inv : Inv s q) (p : Paced s) (h : Resting s)
include inv p h

theorem resting_mutex : s.pool.mutex = none := by
  cases hm : s.pool.mutex with
  | none => rfl
  | some i =>
    have hb := inv.blocked h (a := .sleep i) rfl
    simp [Pool.step,threadRoutineSleep,p.owner i hm] at hb

theorem resting_worker {i : Nat} {pc : WorkerPc} (hi : s.workers[i]? = some pc) :
    pc = .asleep ∨ pc = .exited := by
  have hm := resting_mutex inv p h
  have hlive : ∀ task, task ∈ pc.held → ∃ t, s.heap.read task = some t :=
    fun task ht => inv.held_live hi ht
  cases pc with
  | asleep => exact .inl rfl
  | exited => exact .inr rfl
  | wait =>
    have hb := inv.blocked h (a := .sleep i) rfl
    simp [Pool.step,threadRoutineSleep,hi] at hb
  | lock | woken =>
    exfalso
    have hb := inv.blocked h (a := .test i) rfl
    simp only [Pool.step,threadRoutineTest,hi,WorkerPc.retests,hm,and_self,if_true] at hb
    split at hb
    · simp at hb
    · split at hb
      · simp at hb
      · unfold Pool.dequeue at hb
        split at hb
        · simp at hb
        · split at hb <;> simp at hb
  | call task =>
    obtain ⟨t,ht⟩ := hlive task (by simp [WorkerPc.held])
    have hb := inv.blocked h (a := .invoke i) rfl
    simp [Pool.step,threadRoutineInvoke,hi,ht] at hb
  | running task =>
    have hb := inv.blocked h (a := .taskReturn i) rfl
    simp [Pool.step,threadRoutineReturn,hi] at hb
  | release task =>
    obtain ⟨t,ht⟩ := hlive task (by simp [WorkerPc.held])
    have hb := inv.blocked h (a := .free i) rfl
    simp [Pool.step,threadRoutineFree,hi,ht] at hb
  | exiting =>
    have hb := inv.blocked h (a := .exit i) rfl
    simp [Pool.step,threadRoutineExit,hi] at hb

theorem resting_destroyer : s.destroyer = .idle ∨ (∃ r, s.destroyer = .returned r) ∨
    ∃ i, s.destroyer = .join i ∧ s.workers[i]? = some .asleep := by
  cases hd : s.destroyer with
  | idle => exact .inl rfl
  | returned r => exact .inr (.inl ⟨r,rfl⟩)
  | write =>
    have hb := inv.blocked h (a := .destroyWrite) rfl
    simp [Pool.step,aiRequsetPoolDestroyWrite,hd] at hb
  | broadcast =>
    have hb := inv.blocked h (a := .destroyBroadcast) rfl
    simp [Pool.step,aiRequsetPoolDestroyBroadcast,hd] at hb
  | freeIds =>
    have hb := inv.blocked h (a := .destroyFreeIds) rfl
    have hids := inv.teardown.ids (by simp [hd,DestroyPc.beforeDrain])
    simp [Pool.step,aiRequsetPoolDestroyFreeIds,hd,hids,ThreadIds.free] at hb
  | drain =>
    have hb := inv.blocked h (a := .destroyDrain) rfl
    simp only [Pool.step,aiRequsetPoolDestroyDrain,hd,if_true] at hb
    split at hb
    · simp at hb
    · split at hb <;> simp at hb
  | join i =>
    have hids := inv.teardown.ids (by simp [hd,DestroyPc.beforeDrain])
    have hb := inv.blocked h (a := .destroyJoin) rfl
    simp only [Pool.step,aiRequsetPoolDestroyJoin,hd,inv.teardown.count,hids] at hb
    split at hb
    · rename_i hi
      simp only [List.getElem?_range hi] at hb
      split at hb
      · simp at hb
      · rename_i hx
        have hget : s.workers[i]? = some s.workers[i] := List.getElem?_eq_getElem hi
        refine .inr (.inr ⟨i,rfl,?_⟩)
        rcases resting_worker inv p h hget with ha | he
        · rw [hget,ha]
        · exact absurd (he ▸ hget) hx
    · simp at hb

end

/-- Where a started `Ai_Requset_pool_destroy` is left alone: it has returned, or it waits
for a worker that sleeps and that nobody will wake. -/
theorem destroy_hangs_iff {n : Nat} (h : Reachable step (started n) s) (hr : Resting s)
    (hd : s.destroyer ≠ .idle) :
    ((∃ r, s.destroyer = .returned r) ↔ .asleep ∉ s.workers) ∧
      ((¬ ∃ r, s.destroyer = .returned r) →
        ∃ i, s.destroyer = .join i ∧ s.workers[i]? = some .asleep) := by
  obtain ⟨q,inv⟩ := inv_reachable h
  have hcase := resting_destroyer inv (paced_reachable h) hr
  refine ⟨⟨?_,fun hno => ?_⟩,fun hret => ?_⟩
  · rintro ⟨r,hret⟩ hm
    obtain ⟨i,hlt,hi⟩ := List.mem_iff_getElem.mp hm
    have hx := inv.teardown.joined i (by simpa [hret,DestroyPc.joined] using hlt)
    simp [List.getElem?_eq_getElem hlt,hi] at hx
  · rcases hcase with hidle | hret | ⟨i,-,hi⟩
    · exact absurd hidle hd
    · exact hret
    · exact absurd (List.mem_of_getElem? hi) hno
  · rcases hcase with hidle | hret' | hjoin
    · exact absurd hidle hd
    · exact absurd hret' hret
    · exact hjoin

def wakeupLost : State Nat Nat where
  heap := ⟨[]⟩
  pool := ⟨.block [0],none,none,1,0,1⟩
  workers := [.asleep]
  adds := []
  destroyer := .join 0
  hist := .empty

theorem resting_wakeupLost : Resting wakeupLost := by
  have hworker : ∀ {i : Nat} {pc : WorkerPc}, wakeupLost.workers[i]? = some pc → pc = .asleep :=
    fun hi => List.mem_singleton.mp (List.mem_of_getElem? hi)
  intro a ha t hs
  cases a with
  | addStart process arg | wakeup i | destroyTest => simp [Action.internal] at ha
  | addAppend k => simp [Pool.step,aiRequsetPoolAddAppend,wakeupLost] at hs
  | addSignal k sleeper => simp [Pool.step,aiRequsetPoolAddSignal,wakeupLost] at hs
  | test i =>
    obtain ⟨pc,hi,hpc,-⟩ := test_next hs
    simp [hworker hi,WorkerPc.retests] at hpc
  | sleep i => simpa using hworker (sleep_next hs).1
  | invoke i =>
    obtain ⟨_,_,hi,-⟩ := invoke_next hs
    simpa using hworker hi
  | taskReturn i =>
    obtain ⟨_,hi,-⟩ := taskReturn_next hs
    simpa using hworker hi
  | free i =>
    obtain ⟨_,_,hi,-⟩ := free_next hs
    simpa using hworker hi
  | exit i => simpa using hworker (exit_next hs).1
  | destroyWrite => simpa [wakeupLost] using (destroyWrite_next hs).1
  | destroyBroadcast => simpa [wakeupLost] using (destroyBroadcast_next hs).1
  | destroyJoin =>
    have hb : Pool.step wakeupLost .destroyJoin = .blocked := rfl
    simp [hb] at hs
  | destroyFreeIds => simpa [wakeupLost] using (destroyFreeIds_next hs).1
  | destroyDrain => simpa [wakeupLost] using (destroyDrain_next hs).1

theorem destroy_hangs_iff_wakeupLost : ¬ ∃ r, wakeupLost.destroyer = .returned r := by
  have hr : Reachable step (started 1) wakeupLost :=
    ⟨[.test 0,.destroyTest,.destroyWrite,.destroyBroadcast,.sleep 0],by rfl⟩
  rw [(destroy_hangs_iff hr resting_wakeupLost (by decide)).1]
  decide

end IntelligentAcoustics.Pool
