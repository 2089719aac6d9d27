import IntelligentAcoustics.PoolFifo

/-!
The signal of `Ai_Requset_pool_add` comes after the unlock. While a worker sleeps, every
queued task is matched by a worker that is about to test again or by a signal to come.
-/

set_option autoImplicit false

namespace IntelligentAcoustics.Pool
open Transition BlockHeap LinkedChain ThreadList
variable {α β : Type} {s s' : State α β}

def AddPc.owesSignal : AddPc α β → Bool
  | .signal => true
  | _ => false

structure Matched (s : State α β) : Prop where
  waitOwns : ∀ i, s.workers[i]? = some .wait → s.pool.mutex = some i
  waitEmpty : .wait ∈ s.workers → s.pool.curRequestSize = 0
  enough : s.pool.shutdown = 0 → .asleep ∈ s.workers → s.pool.curRequestSize ≤
    (s.workers.countP WorkerPc.retests + s.adds.countP AddPc.owesSignal : Nat)

theorem matched_started (n : Nat) : Matched (started n : State α β) where
  waitOwns i hi := by
    have hm := List.mem_of_getElem? hi
    simp [started] at hm
  waitEmpty hw := by simp [started] at hw
  enough _ hw := by simp [started] at hw

theorem mem_set_of_ne {ws : List WorkerPc} {i : Nat} {pc pc' : WorkerPc}
    (hm : pc ∈ ws.set i pc') (hne : pc ≠ pc') : pc ∈ ws := by
  rcases List.mem_or_eq_of_mem_set hm with hm | rfl
  · exact hm
  · exact absurd rfl hne

theorem Matched.no_wait (m : Matched s) (hm : s.pool.mutex = none) : .wait ∉ s.workers := by
  intro hw
  obtain ⟨i,hi⟩ := List.mem_iff_getElem?.mp hw
  simp [m.waitOwns i hi] at hm

theorem Matched.move (m : Matched s) {i : Nat} {pc : WorkerPc} (pc' : WorkerPc)
    (hi : s.workers[i]? = some pc) (hr : pc.retests = false) (hw : pc' ≠ .wait)
    (ha : pc' ≠ .asleep) : Matched { s with workers := s.workers.set i pc' } where
  waitOwns j hj := by
    rcases getElem?_set_cases hj with ⟨-,he⟩ | ⟨-,hj⟩
    · exact absurd he.symm hw
    · exact m.waitOwns j hj
  waitEmpty hm := m.waitEmpty (mem_set_of_ne hm hw.symm)
  enough hs hm := by
    have he := m.enough hs (mem_set_of_ne hm ha.symm)
    have hc := countP_set hi pc' WorkerPc.retests
    simp only [hr,Bool.false_eq_true,↓reduceIte] at hc
    simp only
    omega

theorem Matched.append (m : Matched s) {k : Nat} (h : aiRequsetPoolAddAppend s k = .next s') :
    Matched s' := by
  obtain ⟨newtask,process,arg,heap,head,hk,hm,-,rfl⟩ := addAppend_next h
  refine ⟨m.waitOwns,fun hw => absurd hw (m.no_wait hm),fun hs ha => ?_⟩
  have he := m.enough hs ha
  have hc := countP_set hk .signal AddPc.owesSignal
  simp only [AddPc.owesSignal,Bool.false_eq_true,↓reduceIte] at hc
  simp only
  omega

theorem Matched.signal (m : Matched s) {k : Nat} {sleeper : Option Nat}
    (h : aiRequsetPoolAddSignal s k sleeper = .next s') : Matched s' := by
  obtain ⟨hk,⟨i,hi,rfl⟩ | ⟨hn,rfl⟩⟩ := addSignal_next h
  · have hmv := m.move .woken hi rfl (by simp) (by simp)
    refine ⟨hmv.waitOwns,hmv.waitEmpty,fun hs ha => ?_⟩
    have he := m.enough hs (mem_set_of_ne ha (by simp))
    have hw := countP_set hi .woken WorkerPc.retests
    have hc := countP_set hk .returned AddPc.owesSignal
    simp only [AddPc.owesSignal,Bool.false_eq_true,↓reduceIte] at hc
    simp only [WorkerPc.retests,Bool.false_eq_true,↓reduceIte] at hw
    simp only
    omega
  · exact ⟨m.waitOwns,m.waitEmpty,fun _ ha => absurd ha hn⟩

theorem Matched.test (m : Matched s) {i : Nat} (h : threadRoutineTest s i = .next s') :
    Matched s' := by
  obtain ⟨pc,hi,hpc,hm,hcase⟩ := test_next h
  have hno := m.no_wait hm
  rcases hcase with ⟨hz,-,rfl⟩ | ⟨hs,rfl⟩ | ⟨-,hs,hq⟩
  · refine ⟨fun j hj => ?_,fun _ => hz,fun _ _ => ?_⟩
    · rcases getElem?_set_cases hj with ⟨rfl,-⟩ | ⟨-,hj⟩
      · rfl
      · exact absurd (List.mem_of_getElem? hj) hno
    · simp only [hz]
      omega
  · refine ⟨fun j hj => ?_,fun hw => ?_,fun hz => absurd hz hs⟩
    · rcases getElem?_set_cases hj with ⟨-,he⟩ | ⟨-,hj⟩
      · simp at he
      · exact m.waitOwns j hj
    · exact absurd (mem_set_of_ne hw (by simp)) hno
  · obtain ⟨task,t,-,-,rfl⟩ := dequeue_next hq
    refine ⟨fun j hj => ?_,fun hw => ?_,fun hz ha => ?_⟩
    · rcases getElem?_set_cases hj with ⟨-,he⟩ | ⟨-,hj⟩
      · simp at he
      · exact m.waitOwns j hj
    · exact absurd (mem_set_of_ne hw (by simp)) hno
    · have he := m.enough hz (mem_set_of_ne ha (by simp))
      have hc := countP_set hi (.call task) WorkerPc.retests
      have hcall : (WorkerPc.call task).retests = false := rfl
      simp only [hpc,hcall,Bool.false_eq_true,↓reduceIte] at hc
      simp only
      omega

theorem Matched.sleep (m : Matched s) {i : Nat} (h : threadRoutineSleep s i = .next s') :
    Matched s' := by
  obtain ⟨hi,rfl⟩ := sleep_next h
  have hz := m.waitEmpty (List.mem_of_getElem? hi)
  refine ⟨fun j hj => ?_,fun _ => hz,fun _ _ => ?_⟩
  · rcases getElem?_set_cases hj with ⟨-,he⟩ | ⟨hne,hj⟩
    · simp at he
    · have h₁ := m.waitOwns i hi
      have h₂ := m.waitOwns j hj
      rw [h₁] at h₂
      exact absurd (Option.some.inj h₂).symm hne
  · simp only [hz]
    omega

theorem Matched.broadcast (m : Matched s) (t : Teardown s)
    (h : aiRequsetPoolDestroyBroadcast s = .next s') : Matched s' := by
  obtain ⟨hd,rfl⟩ := destroyBroadcast_next h
  have hwake : ∀ pc : WorkerPc, pc.wake = .wait → pc = .wait := by
    intro pc hpc
    cases pc <;> simp_all [WorkerPc.wake]
  refine ⟨fun j hj => ?_,fun hw => ?_,fun hz => ?_⟩
  · simp only [List.getElem?_map,Option.map_eq_some_iff] at hj
    obtain ⟨pc,hj,hpc⟩ := hj
    exact m.waitOwns j (hwake pc hpc ▸ hj)
  · obtain ⟨pc,hw,hpc⟩ := List.mem_map.mp hw
    exact m.waitEmpty (hwake pc hpc ▸ hw)
  · rcases t.openIff.mp hz with hdes | hdes <;> simp [hd] at hdes

theorem Matched.step (m : Matched s) (t : Teardown s) {a : Action α β}
    (h : step s a = .next s') : Matched s' := by
  cases a with
  | addStart process arg =>
    simp only [Pool.step,aiRequsetPoolAddStart,Outcome.next.injEq] at h
    subst h
    refine ⟨m.waitOwns,m.waitEmpty,fun hs ha => ?_⟩
    simpa [AddPc.owesSignal] using m.enough hs ha
  | addAppend k => exact m.append h
  | addSignal k sleeper => exact m.signal h
  | test i => exact m.test h
  | sleep i => exact m.sleep h
  | wakeup i =>
    obtain ⟨hi,rfl⟩ := wakeup_next h
    exact m.move _ hi rfl (by simp) (by simp)
  | invoke i =>
    obtain ⟨task,-,hi,-,rfl⟩ := invoke_next h
    have hmv := m.move (.running task) hi rfl (by simp) (by simp)
    exact ⟨hmv.waitOwns,hmv.waitEmpty,hmv.enough⟩
  | taskReturn i =>
    obtain ⟨task,hi,rfl⟩ := taskReturn_next h
    exact m.move _ hi rfl (by simp) (by simp)
  | free i =>
    obtain ⟨task,-,hi,-,rfl⟩ := free_next h
    have hmv := m.move .lock hi rfl (by simp) (by simp)
    exact ⟨hmv.waitOwns,hmv.waitEmpty,hmv.enough⟩
  | exit i =>
    obtain ⟨hi,rfl⟩ := exit_next h
    exact m.move _ hi rfl (by simp) (by simp)
  | destroyTest =>
    obtain ⟨-,⟨-,rfl⟩ | ⟨-,rfl⟩⟩ := destroyTest_next h
    all_goals exact ⟨m.waitOwns,m.waitEmpty,m.enough⟩
  | destroyWrite =>
    obtain ⟨-,rfl⟩ := destroyWrite_next h
    exact ⟨m.waitOwns,m.waitEmpty,fun hz => by simp at hz⟩
  | destroyBroadcast => exact m.broadcast t h
  | destroyJoin =>
    obtain ⟨i,-,⟨-,-,-,-,-,-,rfl⟩ | ⟨-,rfl⟩⟩ := destroyJoin_next h
    all_goals exact ⟨m.waitOwns,m.waitEmpty,m.enough⟩
  | destroyFreeIds =>
    obtain ⟨-,ids,-,rfl⟩ := destroyFreeIds_next h
    exact ⟨m.waitOwns,m.waitEmpty,m.enough⟩
  | destroyDrain =>
    obtain ⟨-,⟨-,rfl⟩ | ⟨-,-,-,-,rfl⟩⟩ := destroyDrain_next h
    all_goals exact ⟨m.waitOwns,m.waitEmpty,m.enough⟩

theorem matched_reachable {n : Nat} (h : Reachable step (started n) s) : Matched s := by
  refine (invariant_reachable (I := fun s => (∃ q, Inv s q) ∧ Matched s) ?_ h
    ⟨⟨[],inv_started n⟩,matched_started n⟩).2
  rintro s a t ⟨⟨q,inv⟩,m⟩ hs
  exact ⟨inv.step hs,m.step inv.teardown hs⟩

theorem no_stranded_task {n : Nat} (h : Reachable step (started n) s)
    (hs : s.pool.shutdown = 0) :
    (.asleep ∈ s.workers → s.pool.curRequestSize ≤
      (s.workers.countP WorkerPc.retests + s.adds.countP AddPc.owesSignal : Nat)) ∧
    (s.workers ≠ [] → (∀ pc ∈ s.workers, pc = .asleep) → (∀ c ∈ s.adds, c = .returned) →
      s.pool.apiRequestHead = none) := by
  have m := matched_reachable h
  obtain ⟨q,inv⟩ := inv_reachable h
  refine ⟨m.enough hs,fun hne hall hret => ?_⟩
  obtain ⟨pc,hpc⟩ := List.exists_mem_of_ne_nil _ hne
  have he := m.enough hs (hall pc hpc ▸ hpc)
  have hw : s.workers.countP WorkerPc.retests = 0 :=
    List.countP_eq_zero.mpr fun pc hm => by simp [hall pc hm,WorkerPc.retests]
  have ha : s.adds.countP AddPc.owesSignal = 0 :=
    List.countP_eq_zero.mpr fun c hm => by simp [hret c hm,AddPc.owesSignal]
  rw [hw,ha] at he
  have hz : q.length = 0 := by
    have := inv.size
    omega
  have hc := inv.custody.chain
  rw [List.length_eq_zero_iff.mp hz] at hc
  exact hc

def signalToCome : State Nat Nat where
  heap := ⟨[some ⟨7,70,none⟩]⟩
  pool := ⟨.block [0],none,some 0,1,1,0⟩
  workers := [.asleep]
  adds := [.signal]
  destroyer := .idle
  hist := ⟨[(0,7,70)],[],[],[],[]⟩

theorem no_stranded_task_signalToCome : signalToCome.pool.curRequestSize ≤
    (signalToCome.workers.countP WorkerPc.retests +
      signalToCome.adds.countP AddPc.owesSignal : Nat) := by
  have hr : Reachable step (started 1) signalToCome :=
    ⟨[.test 0,.sleep 0,.addStart 7 70,.addAppend 0],by rfl⟩
  exact (no_stranded_task hr rfl).1 (by decide)

end IntelligentAcoustics.Pool
