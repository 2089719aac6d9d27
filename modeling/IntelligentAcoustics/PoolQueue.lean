import IntelligentAcoustics.Library.ThreadList
import IntelligentAcoustics.RequestPoolSteps
import IntelligentAcoustics.TaskCustody

/-!
The queue of the pool under any interleaving: the counter is the length of the chain, the
chain with the tasks already taken is what was appended, and no step faults.
-/

set_option autoImplicit false

namespace IntelligentAcoustics.Pool
open Transition BlockHeap LinkedChain ThreadList
variable {α β : Type} {s s' : State α β} {q : List (Addr × α × β)}

def WorkerPc.held : WorkerPc → List Addr
  | .call task | .running task | .release task => [task]
  | _ => []

def WorkerPc.begun : WorkerPc → List Addr
  | .running task | .release task => [task]
  | _ => []

def AddPc.pending : AddPc α β → List (Addr × α × β)
  | .ready newtask process arg => [(newtask,process,arg)]
  | _ => []

/-- How many of the `n` workers `Ai_Requset_pool_destroy` knows to be gone. -/
def DestroyPc.joined (n : Nat) : DestroyPc → Nat
  | .idle | .write | .broadcast => 0
  | .join i => i
  | .freeIds | .drain | .returned _ => n

def DestroyPc.beforeDrain : DestroyPc → Bool
  | .drain | .returned _ => false
  | _ => true

structure Teardown (s : State α β) : Prop where
  openIff : s.pool.shutdown = 0 ↔ s.destroyer = .idle ∨ s.destroyer = .write
  count : s.pool.maxRequestNum = s.workers.length
  ids : s.destroyer.beforeDrain = true → s.pool.pthreadID = .block (List.range s.workers.length)
  undrained : s.destroyer.beforeDrain = true → s.hist.drained = []
  joined : ∀ j < s.destroyer.joined s.workers.length, s.workers[j]? = some .exited

structure Inv (s : State α β) (q : List (Addr × α × β)) : Prop where
  custody : Custody s.heap s.pool.apiRequestHead q (s.workers.flatMap WorkerPc.held)
    (s.workers.flatMap WorkerPc.begun) (s.adds.flatMap AddPc.pending) s.hist
  size : s.pool.curRequestSize = q.length + s.hist.drained.length
  teardown : Teardown s

theorem inv_started (n : Nat) : Inv (started n : State α β) [] where
  custody := by
    have hheld : (List.replicate n WorkerPc.lock).flatMap WorkerPc.held = [] := by
      simp [List.flatMap_eq_nil_iff,WorkerPc.held]
    have hbegun : (List.replicate n WorkerPc.lock).flatMap WorkerPc.begun = [] := by
      simp [List.flatMap_eq_nil_iff,WorkerPc.begun]
    constructor <;> simp [started,History.empty,Chain,hheld,hbegun]
  size := by simp [started,History.empty]
  teardown := by
    constructor <;> simp [started,History.empty,DestroyPc.joined]

theorem retests_free_handed {pc : WorkerPc} (h : pc.retests = true) :
    pc.held = [] ∧ pc.begun = [] ∧ pc ≠ .exited := by
  cases pc <;> simp_all [WorkerPc.retests,WorkerPc.held,WorkerPc.begun]

theorem wake_held (pc : WorkerPc) : pc.wake.held = pc.held := by cases pc <;> rfl

theorem wake_begun (pc : WorkerPc) : pc.wake.begun = pc.begun := by cases pc <;> rfl

theorem flatMap_wake {γ : Type} {f : WorkerPc → List γ} (hf : ∀ pc, f pc.wake = f pc)
    (ws : List WorkerPc) : (ws.map WorkerPc.wake).flatMap f = ws.flatMap f := by
  induction ws with
  | nil => rfl
  | cons pc ws ih => simp [hf,ih]

/-! ### One step -/

theorem Teardown.undrained_of_open (t : Teardown s) (h : s.pool.shutdown = 0) :
    s.hist.drained = [] := by
  apply t.undrained
  rcases t.openIff.mp h with hd | hd <;> simp [hd,DestroyPc.beforeDrain]

theorem Teardown.move (t : Teardown s) {i : Nat} {pc : WorkerPc} (pc' : WorkerPc)
    (hi : s.workers[i]? = some pc) (hne : pc ≠ .exited) :
    Teardown { s with workers := s.workers.set i pc' } where
  openIff := t.openIff
  count := by simpa using t.count
  ids := by simpa using t.ids
  undrained := t.undrained
  joined := by
    intro j hj
    have hx := t.joined j (by simpa using hj)
    have hij : i ≠ j := by
      rintro rfl
      rw [hi] at hx
      exact hne (Option.some.inj hx)
    simpa [List.getElem?_set_ne hij] using hx

theorem Inv.move (inv : Inv s q) {i : Nat} {pc : WorkerPc} (pc' : WorkerPc)
    (hi : s.workers[i]? = some pc) (hne : pc ≠ .exited) (hh : pc'.held = pc.held) (hb : pc'.begun = pc.begun) :
    Inv { s with workers := s.workers.set i pc' } q where
  custody := by
    simp only [flatMap_set_eq hi hh,flatMap_set_eq hi hb]
    exact inv.custody
  size := inv.size
  teardown := inv.teardown.move pc' hi hne

theorem Inv.mutex (inv : Inv s q) (m : Option Nat) :
    Inv { s with pool := { s.pool with mutex := m } } q :=
  have t := inv.teardown
  ⟨inv.custody,inv.size,⟨t.openIff,t.count,t.ids,t.undrained,t.joined⟩⟩

theorem Inv.addStart (inv : Inv s q) {process : α} {arg : β}
    (h : aiRequsetPoolAddStart s process arg = .next s') : Inv s' q := by
  simp only [aiRequsetPoolAddStart,Outcome.next.injEq] at h
  subst h
  have t := inv.teardown
  refine ⟨?_,inv.size,⟨t.openIff,t.count,t.ids,t.undrained,t.joined⟩⟩
  simpa [AddPc.pending] using inv.custody.malloc process arg

theorem Inv.append (inv : Inv s q) {k : Nat} (h : aiRequsetPoolAddAppend s k = .next s') :
    ∃ t, s'.hist.appended = s.hist.appended ++ [t] ∧ Inv s' (q ++ [t]) := by
  obtain ⟨newtask,process,arg,heap,head,hk,hm,ha,rfl⟩ := addAppend_next h
  have hp : ((newtask,process,arg) :: (s.adds.set k .signal).flatMap AddPc.pending).Perm
      (s.adds.flatMap AddPc.pending) := by
    simpa [AddPc.pending] using flatMap_set hk .signal AddPc.pending
  obtain ⟨h',head',happ,hc⟩ := (inv.custody.perm (.refl _) (.refl _) hp).appendTask_spec
  rw [ha] at happ
  simp only [Outcome.next.injEq,Prod.mk.injEq] at happ
  obtain ⟨rfl,rfl⟩ := happ
  have t := inv.teardown
  refine ⟨_,rfl,hc,?_,⟨t.openIff,t.count,t.ids,t.undrained,t.joined⟩⟩
  have := inv.size
  simp only [List.length_append,List.length_cons,List.length_nil]
  omega

theorem Inv.addSignal (inv : Inv s q) {k : Nat} {sleeper : Option Nat}
    (h : aiRequsetPoolAddSignal s k sleeper = .next s') : Inv s' q := by
  obtain ⟨hk,⟨i,hi,rfl⟩ | ⟨-,rfl⟩⟩ := addSignal_next h
  all_goals
    have hp : (s.adds.set k .returned).flatMap AddPc.pending = s.adds.flatMap AddPc.pending :=
      flatMap_set_eq hk rfl
  · have hw := inv.move .woken hi (by simp) rfl rfl
    have t := hw.teardown
    refine ⟨?_,inv.size,⟨t.openIff,t.count,t.ids,t.undrained,t.joined⟩⟩
    simpa only [hp] using hw.custody
  · have t := inv.teardown
    refine ⟨?_,inv.size,⟨t.openIff,t.count,t.ids,t.undrained,t.joined⟩⟩
    simpa only [hp] using inv.custody

theorem Inv.dequeue (inv : Inv s q) {i : Nat} {pc : WorkerPc} (hi : s.workers[i]? = some pc)
    (hpc : pc.retests = true) (hd : s.pool.shutdown = 0) (h : dequeue s i = .next s') :
    ∃ t q', q = t :: q' ∧ s'.hist.taken = s.hist.taken ++ [t] ∧ Inv s' q' := by
  obtain ⟨task,t,hhead,ht,rfl⟩ := dequeue_next h
  obtain ⟨hh,hb,hne⟩ := retests_free_handed hpc
  have hc := inv.custody
  rw [hhead] at hc
  obtain ⟨q',rfl,hc'⟩ := hc.take (inv.teardown.undrained_of_open hd) (taskView_read ht)
  have hheld := flatMap_set hi (.call task) WorkerPc.held
  have hbegun := flatMap_set hi (.call task) WorkerPc.begun
  simp only [hh,hb,List.nil_append] at hheld hbegun
  have t' := inv.teardown.move (.call task) hi hne
  refine ⟨_,q',rfl,rfl,hc'.perm hheld hbegun (.refl _),?_,
    ⟨t'.openIff,t'.count,t'.ids,t'.undrained,t'.joined⟩⟩
  have := inv.size
  simp only [List.length_cons] at this
  simp only
  omega

theorem Inv.test (inv : Inv s q) {i : Nat} (h : threadRoutineTest s i = .next s') :
    ∃ q', Inv s' q' := by
  obtain ⟨pc,hi,hpc,hm,hcase⟩ := test_next h
  obtain ⟨hh,hb,hne⟩ := retests_free_handed hpc
  rcases hcase with ⟨-,-,rfl⟩ | ⟨-,rfl⟩ | ⟨-,hd,hq⟩
  · exact ⟨q,(inv.move .wait hi hne hh.symm hb.symm).mutex (some i)⟩
  · exact ⟨q,inv.move _ hi hne hh.symm hb.symm⟩
  · obtain ⟨-,q',-,-,hq'⟩ := inv.dequeue hi hpc hd hq
    exact ⟨q',hq'⟩

theorem Inv.invoke (inv : Inv s q) {i : Nat} (h : threadRoutineInvoke s i = .next s') :
    Inv s' q := by
  obtain ⟨task,t,hi,ht,rfl⟩ := invoke_next h
  have hheld : task ∈ s.workers.flatMap WorkerPc.held :=
    mem_flatMap_of_getElem? hi (by simp [WorkerPc.held])
  have hbegun := flatMap_set hi (.running task) WorkerPc.begun
  simp only [WorkerPc.begun,List.nil_append] at hbegun
  have hc := (inv.custody.invoke hheld (taskView_read ht)).perm (.refl _) hbegun (.refl _)
  have t' := inv.teardown.move (.running task) hi (by simp)
  refine ⟨?_,inv.size,⟨t'.openIff,t'.count,t'.ids,t'.undrained,t'.joined⟩⟩
  simpa only [flatMap_set_eq hi (f := WorkerPc.held) (y := .running task) rfl] using hc

theorem Inv.free (inv : Inv s q) {i : Nat} (h : threadRoutineFree s i = .next s') :
    Inv s' q := by
  obtain ⟨task,t,hi,ht,rfl⟩ := free_next h
  have hheld := flatMap_set hi .lock WorkerPc.held
  have hbegun := flatMap_set hi .lock WorkerPc.begun
  have hc := (inv.custody.perm hheld hbegun (.refl _)).free
  have t' := inv.teardown.move .lock hi (by simp)
  exact ⟨hc,inv.size,⟨t'.openIff,t'.count,t'.ids,t'.undrained,t'.joined⟩⟩

theorem Inv.destroyTest (inv : Inv s q) (h : aiRequsetPoolDestroyTest s = .next s') :
    Inv s' q := by
  obtain ⟨hd,hcase⟩ := destroyTest_next h
  have t := inv.teardown
  rcases hcase with ⟨hshut,rfl⟩ | ⟨hshut,rfl⟩
  · refine ⟨inv.custody,inv.size,⟨?_,t.count,?_,?_,?_⟩⟩
    · simp [hshut]
    · simp [DestroyPc.beforeDrain]
    · simp [DestroyPc.beforeDrain]
    · cases hdes : s.destroyer with
      | idle => exact absurd (t.openIff.mpr (.inl hdes)) hshut
      | returned r => simpa [hdes,DestroyPc.joined] using t.joined
      | _ => simp [hdes,DestroyPc.callable] at hd
  · have hidle : s.destroyer = .idle := by
      rcases t.openIff.mp hshut with hdes | hdes
      · exact hdes
      · simp [hdes,DestroyPc.callable] at hd
    refine ⟨inv.custody,inv.size,⟨?_,t.count,?_,?_,?_⟩⟩
    · simp [hshut]
    · exact fun _ => t.ids (by simp [hidle,DestroyPc.beforeDrain])
    · exact fun _ => t.undrained_of_open hshut
    · simp [DestroyPc.joined]

theorem Inv.destroyWrite (inv : Inv s q) (h : aiRequsetPoolDestroyWrite s = .next s') :
    Inv s' q := by
  obtain ⟨hd,rfl⟩ := destroyWrite_next h
  have t := inv.teardown
  have hb : s.destroyer.beforeDrain = true := by simp [hd,DestroyPc.beforeDrain]
  refine ⟨inv.custody,inv.size,⟨?_,t.count,fun _ => t.ids hb,fun _ => t.undrained hb,?_⟩⟩
  · simp
  · simp [DestroyPc.joined]

theorem Inv.destroyBroadcast (inv : Inv s q) (h : aiRequsetPoolDestroyBroadcast s = .next s') :
    Inv s' q := by
  obtain ⟨hd,rfl⟩ := destroyBroadcast_next h
  have t := inv.teardown
  have hb : s.destroyer.beforeDrain = true := by simp [hd,DestroyPc.beforeDrain]
  have hopen : s.pool.shutdown ≠ 0 := fun hz => by
    rcases t.openIff.mp hz with hdes | hdes <;> simp [hd] at hdes
  refine ⟨?_,inv.size,⟨?_,by simpa using t.count,?_,fun _ => t.undrained hb,?_⟩⟩
  · simpa only [flatMap_wake wake_held,flatMap_wake wake_begun] using inv.custody
  · simp [hopen]
  · exact fun _ => by simpa using t.ids hb
  · simp [DestroyPc.joined]

theorem Inv.destroyJoin (inv : Inv s q) (h : aiRequsetPoolDestroyJoin s = .next s') :
    Inv s' q := by
  obtain ⟨i,hd,hcase⟩ := destroyJoin_next h
  have t := inv.teardown
  have hb : s.destroyer.beforeDrain = true := by simp [hd,DestroyPc.beforeDrain]
  have hopen : s.pool.shutdown ≠ 0 := fun hz => by
    rcases t.openIff.mp hz with hdes | hdes <;> simp [hd] at hdes
  have hj := t.joined
  simp only [hd,DestroyPc.joined] at hj
  rcases hcase with ⟨ids,tid,hi,hp,ht,hx,rfl⟩ | ⟨hi,rfl⟩
  · refine ⟨inv.custody,inv.size,⟨?_,t.count,fun _ => t.ids hb,fun _ => t.undrained hb,?_⟩⟩
    · simp [hopen]
    · have hids := t.ids hb
      rw [hp] at hids
      simp only [ThreadIds.block.injEq] at hids
      subst hids
      have htid : tid = i := by
        obtain ⟨_,he⟩ := List.getElem?_eq_some_iff.mp ht
        simpa using he.symm
      subst htid
      intro j hlt
      rcases Nat.lt_or_eq_of_le (Nat.lt_succ_iff.mp hlt) with hlt | rfl
      · exact hj j hlt
      · exact hx
  · refine ⟨inv.custody,inv.size,⟨?_,t.count,fun _ => t.ids hb,fun _ => t.undrained hb,?_⟩⟩
    · simp [hopen]
    · intro j hlt
      have hc := t.count
      simp only [DestroyPc.joined] at hlt
      exact hj j (by omega)

theorem Inv.destroyFreeIds (inv : Inv s q) (h : aiRequsetPoolDestroyFreeIds s = .next s') :
    Inv s' q := by
  obtain ⟨hd,ids,-,rfl⟩ := destroyFreeIds_next h
  have t := inv.teardown
  have hopen : s.pool.shutdown ≠ 0 := fun hz => by
    rcases t.openIff.mp hz with hdes | hdes <;> simp [hd] at hdes
  refine ⟨inv.custody,inv.size,⟨?_,t.count,?_,?_,?_⟩⟩
  · simp [hopen]
  · simp [DestroyPc.beforeDrain]
  · simp [DestroyPc.beforeDrain]
  · simpa [hd,DestroyPc.joined] using t.joined

theorem Inv.destroyDrain (inv : Inv s q) (h : aiRequsetPoolDestroyDrain s = .next s') :
    ∃ q', Inv s' q' := by
  obtain ⟨hd,hcase⟩ := destroyDrain_next h
  have t := inv.teardown
  have hopen : s.pool.shutdown ≠ 0 := fun hz => by
    rcases t.openIff.mp hz with hdes | hdes <;> simp [hd] at hdes
  have hj := t.joined
  simp only [hd,DestroyPc.joined] at hj
  rcases hcase with ⟨hhead,rfl⟩ | ⟨head,task,hhead,hr,rfl⟩
  · refine ⟨q,inv.custody,inv.size,⟨?_,t.count,?_,?_,?_⟩⟩
    · simp [hopen]
    · simp [DestroyPc.beforeDrain]
    · simp [DestroyPc.beforeDrain]
    · simpa [DestroyPc.joined] using hj
  · have hc := inv.custody
    rw [hhead] at hc
    obtain ⟨q',rfl,hc'⟩ := hc.drain (taskView_read hr)
    refine ⟨q',hc',?_,⟨?_,t.count,?_,?_,?_⟩⟩
    · have := inv.size
      simp only [List.length_cons] at this
      simp only [List.length_append,List.length_cons,List.length_nil]
      omega
    · simp [hopen,hd]
    · simp [hd,DestroyPc.beforeDrain]
    · simp [hd,DestroyPc.beforeDrain]
    · simpa [hd,DestroyPc.joined] using hj

theorem Inv.step (inv : Inv s q) {a : Action α β} (h : step s a = .next s') :
    ∃ q', Inv s' q' := by
  cases a with
  | addStart process arg => exact ⟨q,inv.addStart h⟩
  | addAppend k =>
    obtain ⟨t,-,hi⟩ := inv.append h
    exact ⟨_,hi⟩
  | addSignal k sleeper => exact ⟨q,inv.addSignal h⟩
  | test i => exact inv.test h
  | sleep i =>
    obtain ⟨hi,rfl⟩ := sleep_next h
    exact ⟨q,(inv.move .asleep hi (by simp) rfl rfl).mutex none⟩
  | wakeup i =>
    obtain ⟨hi,rfl⟩ := wakeup_next h
    exact ⟨q,inv.move _ hi (by simp) rfl rfl⟩
  | invoke i => exact ⟨q,inv.invoke h⟩
  | taskReturn i =>
    obtain ⟨task,hi,rfl⟩ := taskReturn_next h
    exact ⟨q,inv.move _ hi (by simp) rfl rfl⟩
  | free i => exact ⟨q,inv.free h⟩
  | exit i =>
    obtain ⟨hi,rfl⟩ := exit_next h
    exact ⟨q,inv.move _ hi (by simp) rfl rfl⟩
  | destroyTest => exact ⟨q,inv.destroyTest h⟩
  | destroyWrite => exact ⟨q,inv.destroyWrite h⟩
  | destroyBroadcast => exact ⟨q,inv.destroyBroadcast h⟩
  | destroyJoin => exact ⟨q,inv.destroyJoin h⟩
  | destroyFreeIds => exact ⟨q,inv.destroyFreeIds h⟩
  | destroyDrain => exact inv.destroyDrain h

theorem inv_reachable {n : Nat} (h : Reachable step (started n) s) : ∃ q, Inv s q :=
  invariant_reachable (I := fun s => ∃ q, Inv s q)
    (fun _ _ _ ⟨_,inv⟩ hs => inv.step hs) h ⟨[],inv_started n⟩

/-! ### No step faults -/

theorem Inv.head_live (inv : Inv s q) {a : Addr} (h : s.pool.apiRequestHead = some a) :
    ∃ t, s.heap.read a = some t := by
  have hc := inv.custody.chain
  rw [h] at hc
  obtain ⟨k,n,-,-,hv,-⟩ := chain_head hc
  exact ⟨_,read_of_taskView hv⟩

theorem Inv.held_live (inv : Inv s q) {i : Nat} {pc : WorkerPc} {a : Addr}
    (hi : s.workers[i]? = some pc) (ha : a ∈ pc.held) : ∃ t, s.heap.read a = some t := by
  obtain ⟨k,n,hv,-⟩ := inv.custody.heldLive a (mem_flatMap_of_getElem? hi ha)
  exact ⟨_,read_of_taskView hv⟩

theorem Inv.head_of_size (inv : Inv s q) (hs : s.pool.curRequestSize ≠ 0)
    (hd : s.hist.drained = []) : s.pool.apiRequestHead ≠ none := by
  intro hn
  have hc := inv.custody.chain
  rw [hn] at hc
  have hq := chain_nil_iff hc
  subst hq
  exact hs (by simpa [hd] using inv.size)

theorem Inv.append_ne_fault (inv : Inv s q) (k : Nat) :
    aiRequsetPoolAddAppend s k ≠ .fault := by
  unfold aiRequsetPoolAddAppend
  split
  · rename_i newtask process arg hk
    have hp : ((newtask,process,arg) :: (s.adds.set k .signal).flatMap AddPc.pending).Perm
        (s.adds.flatMap AddPc.pending) := by
      simpa [AddPc.pending] using flatMap_set hk .signal AddPc.pending
    obtain ⟨h',head',happ,-⟩ := (inv.custody.perm (.refl _) (.refl _) hp).appendTask_spec
    split <;> simp [happ]
  · simp

theorem Inv.test_ne_fault (inv : Inv s q) (i : Nat) : threadRoutineTest s i ≠ .fault := by
  unfold threadRoutineTest
  split
  · simp
  · split
    · split
      · simp
      · rename_i hc
        split
        · simp
        · rename_i hd
          have hd := Classical.not_not.mp hd
          have hs : s.pool.curRequestSize ≠ 0 := fun hz => hc ⟨hz.symm,hd.symm⟩
          cases hh : s.pool.apiRequestHead with
          | none =>
            exact absurd hh (inv.head_of_size hs (inv.teardown.undrained_of_open hd))
          | some a =>
            obtain ⟨t,ht⟩ := inv.head_live hh
            simp [Pool.dequeue,hh,ht]
    · simp

theorem Inv.join_ne_fault (inv : Inv s q) : aiRequsetPoolDestroyJoin s ≠ .fault := by
  unfold aiRequsetPoolDestroyJoin
  split
  · rename_i i hd
    have hids := inv.teardown.ids (by simp [hd,DestroyPc.beforeDrain])
    split
    · rename_i hi
      rw [inv.teardown.count] at hi
      simp only [hids,List.getElem?_range hi]
      split <;> simp
    · simp
  · simp

theorem Inv.no_fault (inv : Inv s q) (a : Action α β) : Pool.step s a ≠ .fault := by
  cases a with
  | addStart process arg => simp [Pool.step,aiRequsetPoolAddStart]
  | addAppend k => exact inv.append_ne_fault k
  | addSignal k sleeper =>
    simp only [Pool.step,aiRequsetPoolAddSignal]
    split
    · cases sleeper with
      | none => simp only; split <;> simp
      | some i => simp only; split <;> simp
    · simp
  | test i => exact inv.test_ne_fault i
  | sleep i => simp only [Pool.step,threadRoutineSleep]; split <;> simp
  | wakeup i => simp only [Pool.step,threadRoutineWakeup]; split <;> simp
  | invoke i =>
    simp only [Pool.step,threadRoutineInvoke]
    split
    · rename_i task hi
      obtain ⟨t,ht⟩ := inv.held_live hi (a := task) (by simp [WorkerPc.held])
      simp [ht]
    · simp
  | taskReturn i => simp only [Pool.step,threadRoutineReturn]; split <;> simp
  | free i =>
    simp only [Pool.step,threadRoutineFree]
    split
    · rename_i task hi
      obtain ⟨t,ht⟩ := inv.held_live hi (a := task) (by simp [WorkerPc.held])
      simp [ht]
    · simp
  | exit i => simp only [Pool.step,threadRoutineExit]; split <;> simp
  | destroyTest =>
    simp only [Pool.step,aiRequsetPoolDestroyTest]
    split
    · split <;> simp
    · simp
  | destroyWrite => simp only [Pool.step,aiRequsetPoolDestroyWrite]; split <;> simp
  | destroyBroadcast => simp only [Pool.step,aiRequsetPoolDestroyBroadcast]; split <;> simp
  | destroyJoin => exact inv.join_ne_fault
  | destroyFreeIds =>
    simp only [Pool.step,aiRequsetPoolDestroyFreeIds]
    split
    · rename_i hd
      simp [inv.teardown.ids (by simp [hd,DestroyPc.beforeDrain]),ThreadIds.free]
    · simp
  | destroyDrain =>
    simp only [Pool.step,aiRequsetPoolDestroyDrain]
    split
    · cases hh : s.pool.apiRequestHead with
      | none => simp
      | some a =>
        obtain ⟨t,ht⟩ := inv.head_live hh
        simp [ht]
    · simp

end IntelligentAcoustics.Pool
