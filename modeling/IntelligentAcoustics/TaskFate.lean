import IntelligentAcoustics.PoolFifo

/-!
What a run does with each task node: which worker runs it, which worker frees it, or that the
drain of `Ai_Requset_pool_destroy` does, read off the steps themselves.
-/

set_option autoImplicit false

namespace IntelligentAcoustics.Pool
open Transition BlockHeap LinkedChain ThreadList
variable {α β : Type}

inductive Fate where
  | invoked (worker : Nat)
  | freed (worker : Nat)
  | drained
  deriving DecidableEq, Repr

def fateStep (s : State α β) : Action α β → List (Addr × Fate)
  | .invoke i =>
    match s.workers[i]? with
    | some (.call task) => [(task,.invoked i)]
    | _ => []
  | .free i =>
    match s.workers[i]? with
    | some (.release task) => [(task,.freed i)]
    | _ => []
  | .destroyDrain => s.pool.apiRequestHead.toList.map fun task => (task,.drained)
  | .addStart _ _ | .addAppend _ | .addSignal _ _ | .test _ | .sleep _ | .wakeup _ |
    .taskReturn _ | .exit _ | .destroyTest | .destroyWrite | .destroyBroadcast | .destroyJoin |
    .destroyFreeIds => []

def fateOf (tr : List (Addr × Fate)) (a : Addr) : List Fate :=
  (tr.filter fun e => e.1 = a).map (·.2)

/-- All that is done with a node in a run of a started pool. -/
def fates (n : Nat) (as : List (Action α β)) (a : Addr) : List Fate :=
  fateOf (trace step fateStep (started n) as) a

structure Fated (s : State α β) (tr : List (Addr × Fate)) : Prop where
  begun : ∀ i pc a, s.workers[i]? = some pc → a ∈ pc.begun → fateOf tr a = [.invoked i]
  freed : ∀ a ∈ s.hist.freed, s.heap.read a = none ∧ ∃ i, fateOf tr a = [.invoked i,.freed i]
  drained : ∀ a ∈ addrs s.hist.drained, s.heap.read a = none ∧ fateOf tr a = [.drained]
  untouched : ∀ a, a ∉ s.workers.flatMap WorkerPc.begun → a ∉ s.hist.freed →
    a ∉ addrs s.hist.drained → fateOf tr a = []

variable {s s' : State α β} {q : List (Addr × α × β)} {tr : List (Addr × Fate)}

@[simp] theorem fateOf_append (tr tr' : List (Addr × Fate)) (a : Addr) :
    fateOf (tr ++ tr') a = fateOf tr a ++ fateOf tr' a := by
  simp [fateOf]

@[simp] theorem fateOf_self (a : Addr) (f : Fate) : fateOf [(a,f)] a = [f] := by
  simp [fateOf]

theorem fateOf_ne {a b : Addr} (f : Fate) (h : b ≠ a) : fateOf [(b,f)] a = [] := by
  simp [fateOf,h]

/-! ### Where a node can be -/

theorem Inv.begun_freed_nodup (inv : Inv s q) :
    (s.workers.flatMap WorkerPc.begun ++ s.hist.freed).Nodup :=
  inv.custody.ran.nodup_iff.mpr inv.invoked_nodup

theorem begun_sub_held {a : Addr} (h : a ∈ s.workers.flatMap WorkerPc.begun) :
    a ∈ s.workers.flatMap WorkerPc.held := by
  obtain ⟨pc,hpc,ha⟩ := List.mem_flatMap.mp h
  refine List.mem_flatMap.mpr ⟨pc,hpc,?_⟩
  cases pc <;> simp_all [WorkerPc.begun,WorkerPc.held]

theorem Inv.held_not_drained (inv : Inv s q) {a : Addr}
    (h : a ∈ s.workers.flatMap WorkerPc.held) : a ∉ addrs s.hist.drained := by
  intro hd
  exact (List.nodup_append.mp inv.custody.nodup).2.2 a (by simp [h]) a (by simp [hd]) rfl

theorem Inv.queued_untouched (inv : Inv s q) {a : Addr} (h : a ∈ addrs q) :
    a ∉ s.workers.flatMap WorkerPc.begun ∧ a ∉ s.hist.freed ∧ a ∉ addrs s.hist.drained := by
  obtain ⟨-,hrest,hdis⟩ := List.nodup_append.mp inv.custody.nodup
  obtain ⟨-,-,hdrained⟩ := List.nodup_append.mp hrest
  refine ⟨fun hb => ?_,fun hf => ?_,fun hd => ?_⟩
  · exact hdis a (by simp [begun_sub_held hb]) a (by simp [h]) rfl
  · exact hdis a (by simp [hf]) a (by simp [h]) rfl
  · exact hdrained a hd a (by simp [h]) rfl

/-- What was freed had been appended, so its address is not handed out again. -/
theorem Inv.gone_lt_size (inv : Inv s q) {a : Addr}
    (h : a ∈ s.hist.freed ∨ a ∈ addrs s.hist.drained) : a < s.heap.size := by
  have hmem : a ∈ addrs s.hist.appended := by
    rw [← inv.custody.order]
    simp only [addrs,List.map_append,List.mem_append]
    rcases h with h | h
    · exact .inl (.inl (inv.custody.owned.mem_iff.mp (List.mem_append_right _ h)))
    · exact .inl (.inr h)
  exact (inv.custody.allocated a).mp (List.mem_append_left _ hmem)

theorem appendTask_read_none {h h' : Heap (PoolTask α β)} {head head' : Option Addr}
    {newtask a : Addr} (ha : appendTask h head newtask = .next (h',head'))
    (hr : h.read a = none) : h'.read a = none := by
  cases head with
  | none =>
    obtain ⟨rfl,-⟩ : h = h' ∧ _ := by simpa [appendTask] using ha
    exact hr
  | some member =>
    simp only [appendTask] at ha
    split at ha
    · rename_i last hw
      split at ha
      · simp at ha
      · rename_i t ht
        simp only [Outcome.next.injEq,Prod.mk.injEq] at ha
        have hne : a ≠ last := by
          rintro rfl
          simp [hr] at ht
        rw [← ha.1,Heap.read_write_of_ne h _ hne]
        exact hr
    · simp at ha
    · simp at ha

/-! ### One step -/

theorem Fated.quiet (f : Fated s tr) (hf : s'.hist.freed = s.hist.freed)
    (hd : s'.hist.drained = s.hist.drained)
    (hw : s'.workers.map WorkerPc.begun = s.workers.map WorkerPc.begun)
    (hr : ∀ a, a ∈ s.hist.freed ∨ a ∈ addrs s.hist.drained → s.heap.read a = none →
      s'.heap.read a = none) : Fated s' (tr ++ []) := by
  have hflat : s'.workers.flatMap WorkerPc.begun = s.workers.flatMap WorkerPc.begun := by
    rw [List.flatMap_def,hw,← List.flatMap_def]
  rw [List.append_nil]
  refine ⟨fun i pc a hi ha => ?_,fun a ha => ?_,fun a ha => ?_,fun a hn hnf hnd => ?_⟩
  · have hsame : (s.workers.map WorkerPc.begun)[i]? = some pc.begun := by
      rw [← hw,List.getElem?_map,hi,Option.map_some]
    rw [List.getElem?_map,Option.map_eq_some_iff] at hsame
    obtain ⟨pc',hi',hpc⟩ := hsame
    exact f.begun i pc' a hi' (hpc ▸ ha)
  · rw [hf] at ha
    obtain ⟨hread,hfate⟩ := f.freed a ha
    exact ⟨hr a (.inl ha) hread,hfate⟩
  · rw [hd] at ha
    obtain ⟨hread,hfate⟩ := f.drained a ha
    exact ⟨hr a (.inr ha) hread,hfate⟩
  · rw [hflat] at hn
    rw [hf] at hnf
    rw [hd] at hnd
    exact f.untouched a hn hnf hnd

theorem Fated.invoke (inv : Inv s q) (f : Fated s tr) {i : Nat}
    (h : threadRoutineInvoke s i = .next s') : Fated s' (tr ++ fateStep s (.invoke i)) := by
  have inv' := inv.invoke h
  obtain ⟨task,t,hi,ht,rfl⟩ := invoke_next h
  have hheld : task ∈ s.workers.flatMap WorkerPc.held :=
    mem_flatMap_of_getElem? hi (by simp [WorkerPc.held])
  -- the task has not been started before
  have hnew : task ∉ addrs s.hist.invoked := by
    have hn := inv'.invoked_nodup
    simp only [addrs,List.map_append,List.map_cons,List.map_nil] at hn
    exact fun hm => (List.nodup_append.mp hn).2.2 task hm task (by simp) rfl
  have hnot : task ∉ s.workers.flatMap WorkerPc.begun ++ s.hist.freed := fun hm =>
    hnew (inv.custody.ran.mem_iff.mp hm)
  rw [List.mem_append,not_or] at hnot
  have huntouched := f.untouched task hnot.1 hnot.2 (inv.held_not_drained hheld)
  have hother : ∀ a, a ≠ task →
      fateOf (tr ++ fateStep s (.invoke i)) a = fateOf tr a := fun a ha => by
    simp [fateStep,hi,fateOf_ne _ ha.symm]
  have hbegun := flatMap_set hi (.running task) WorkerPc.begun
  simp only [WorkerPc.begun,List.nil_append] at hbegun
  refine ⟨fun j pc a hj ha => ?_,fun a ha => ?_,fun a ha => ?_,fun a hn hf hd => ?_⟩
  · rcases getElem?_set_cases hj with ⟨rfl,rfl⟩ | ⟨hne,hj⟩
    · obtain rfl : a = task := by simpa [WorkerPc.begun] using ha
      simp [fateStep,hi,huntouched]
    · have hmem : a ∈ s.workers.flatMap WorkerPc.begun := mem_flatMap_of_getElem? hj ha
      rw [hother a (by rintro rfl; exact hnot.1 hmem)]
      exact f.begun j pc a hj ha
  · rw [hother a (by rintro rfl; exact hnot.2 ha)]
    exact f.freed a ha
  · rw [hother a (by rintro rfl; exact inv.held_not_drained hheld ha)]
    exact f.drained a ha
  · have hne : a ≠ task := by
      rintro rfl
      exact hn (hbegun.mem_iff.mpr (by simp))
    rw [hother a hne]
    exact f.untouched a (fun hm => hn (hbegun.mem_iff.mpr (List.mem_append_right _ hm))) hf hd

theorem Fated.free (inv : Inv s q) (f : Fated s tr) {i : Nat}
    (h : threadRoutineFree s i = .next s') : Fated s' (tr ++ fateStep s (.free i)) := by
  have inv' := inv.free h
  obtain ⟨task,t,hi,ht,rfl⟩ := free_next h
  have hheld : task ∈ s.workers.flatMap WorkerPc.held :=
    mem_flatMap_of_getElem? hi (by simp [WorkerPc.held])
  have hran := f.begun i _ task hi (by simp [WorkerPc.begun])
  -- nobody else has it, and it has not been freed before
  obtain ⟨-,hnodup,hdis⟩ := List.nodup_append.mp inv'.begun_freed_nodup
  have hnot : task ∉ s.hist.freed := fun hm =>
    (List.nodup_append.mp hnodup).2.2 task hm task (by simp) rfl
  have hother : ∀ a, a ≠ task → fateOf (tr ++ fateStep s (.free i)) a = fateOf tr a := fun a ha => by
    simp [fateStep,hi,fateOf_ne _ ha.symm]
  have hbegun := flatMap_set hi .lock WorkerPc.begun
  simp only [WorkerPc.begun,List.nil_append] at hbegun
  refine ⟨fun j pc a hj ha => ?_,fun a ha => ?_,fun a ha => ?_,fun a hn hf hd => ?_⟩
  · have hne : a ≠ task := by
      rintro rfl
      exact hdis a (mem_flatMap_of_getElem? hj ha) a (by simp) rfl
    rcases getElem?_set_cases hj with ⟨rfl,rfl⟩ | ⟨-,hj⟩
    · simp [WorkerPc.begun] at ha
    · rw [hother a hne]
      exact f.begun j pc a hj ha
  · rcases List.mem_append.mp ha with hold | hnew
    · have hne : a ≠ task := by
        rintro rfl
        exact hnot hold
      rw [hother a hne,Heap.read_free_of_ne s.heap hne]
      exact f.freed a hold
    · obtain rfl := List.mem_singleton.mp hnew
      exact ⟨Heap.read_free_self s.heap a,i,by simp [fateStep,hi,hran]⟩
  · have hne : a ≠ task := by
      rintro rfl
      exact inv.held_not_drained hheld ha
    rw [hother a hne,Heap.read_free_of_ne s.heap hne]
    exact f.drained a ha
  · rw [List.mem_append,not_or,List.mem_singleton] at hf
    rw [hother a hf.2]
    refine f.untouched a (fun hm => ?_) hf.1 hd
    rcases List.mem_cons.mp (hbegun.mem_iff.mpr hm) with rfl | hm
    · exact hf.2 rfl
    · exact hn hm

theorem Fated.drain (inv : Inv s q) (f : Fated s tr)
    (h : aiRequsetPoolDestroyDrain s = .next s') : Fated s' (tr ++ fateStep s .destroyDrain) := by
  obtain ⟨-,⟨hhead,rfl⟩ | ⟨task,t,hhead,ht,rfl⟩⟩ := destroyDrain_next h
  · simp only [fateStep,hhead]
    exact f.quiet rfl rfl rfl fun _ _ hr => hr
  have hqueued : task ∈ addrs q := by
    have hc := inv.custody.chain
    rw [hhead] at hc
    obtain ⟨k,n,q',rfl,-,-⟩ := chain_head hc
    simp [addrs]
  obtain ⟨hnb,hnf,hnd⟩ := inv.queued_untouched hqueued
  have huntouched := f.untouched task hnb hnf hnd
  have hother : ∀ a, a ≠ task → fateOf (tr ++ fateStep s .destroyDrain) a = fateOf tr a :=
    fun a ha => by simp [fateStep,hhead,fateOf_ne _ ha.symm]
  refine ⟨fun j pc a hj ha => ?_,fun a ha => ?_,fun a ha => ?_,fun a hn hf hd => ?_⟩
  · have hmem : a ∈ s.workers.flatMap WorkerPc.begun := mem_flatMap_of_getElem? hj ha
    rw [hother a (by rintro rfl; exact hnb hmem)]
    exact f.begun j pc a hj ha
  · have hne : a ≠ task := by
      rintro rfl
      exact hnf ha
    rw [hother a hne,Heap.read_free_of_ne s.heap hne]
    exact f.freed a ha
  · simp only [addrs,List.map_append,List.map_cons,List.map_nil,List.mem_append,
      List.mem_singleton] at ha
    rcases ha with ha | rfl
    · have hne : a ≠ task := by
        rintro rfl
        exact hnd ha
      rw [hother a hne,Heap.read_free_of_ne s.heap hne]
      exact f.drained a ha
    · exact ⟨Heap.read_free_self s.heap a,by simp [fateStep,hhead,huntouched]⟩
  · simp only [addrs,List.map_append,List.map_cons,List.map_nil,List.mem_append,
      List.mem_singleton,not_or] at hd
    rw [hother a hd.2]
    exact f.untouched a hn hf hd.1

theorem Fated.step (inv : Inv s q) (f : Fated s tr) {a : Action α β}
    (h : step s a = .next s') : Fated s' (tr ++ fateStep s a) := by
  cases a with
  | addStart process arg =>
    simp only [Pool.step,aiRequsetPoolAddStart,Outcome.next.injEq] at h
    subst h
    refine f.quiet rfl rfl rfl fun a ha hr => ?_
    have hlt := inv.gone_lt_size ha
    rw [Heap.read_malloc_eq,if_neg (Nat.ne_of_lt hlt)]
    exact hr
  | addAppend k =>
    obtain ⟨_,_,_,_,_,-,-,happ,rfl⟩ := addAppend_next h
    exact f.quiet rfl rfl rfl fun a _ hr => appendTask_read_none happ hr
  | addSignal k sleeper =>
    obtain ⟨-,⟨i,hi,rfl⟩ | ⟨-,rfl⟩⟩ := addSignal_next h
    · exact f.quiet rfl rfl (map_set_eq hi rfl) fun _ _ hr => hr
    · exact f.quiet rfl rfl rfl fun _ _ hr => hr
  | test i =>
    obtain ⟨pc,hi,hpc,-,hcase⟩ := test_next h
    have hb := (retests_free_handed hpc).2.1.symm
    rcases hcase with ⟨-,-,rfl⟩ | ⟨-,rfl⟩ | ⟨-,-,hq⟩
    · exact f.quiet rfl rfl (map_set_eq hi hb) fun _ _ hr => hr
    · exact f.quiet rfl rfl (map_set_eq hi hb) fun _ _ hr => hr
    · obtain ⟨task,t,-,-,rfl⟩ := dequeue_next hq
      exact f.quiet rfl rfl (map_set_eq hi hb) fun _ _ hr => hr
  | sleep i =>
    obtain ⟨hi,rfl⟩ := sleep_next h
    exact f.quiet rfl rfl (map_set_eq hi rfl) fun _ _ hr => hr
  | wakeup i =>
    obtain ⟨hi,rfl⟩ := wakeup_next h
    exact f.quiet rfl rfl (map_set_eq hi rfl) fun _ _ hr => hr
  | invoke i => exact f.invoke inv h
  | taskReturn i =>
    obtain ⟨task,hi,rfl⟩ := taskReturn_next h
    exact f.quiet rfl rfl (map_set_eq hi rfl) fun _ _ hr => hr
  | free i => exact f.free inv h
  | exit i =>
    obtain ⟨hi,rfl⟩ := exit_next h
    exact f.quiet rfl rfl (map_set_eq hi rfl) fun _ _ hr => hr
  | destroyTest =>
    obtain ⟨-,⟨-,rfl⟩ | ⟨-,rfl⟩⟩ := destroyTest_next h
    all_goals exact f.quiet rfl rfl rfl fun _ _ hr => hr
  | destroyWrite =>
    obtain ⟨-,rfl⟩ := destroyWrite_next h
    exact f.quiet rfl rfl rfl fun _ _ hr => hr
  | destroyBroadcast =>
    obtain ⟨-,rfl⟩ := destroyBroadcast_next h
    refine f.quiet rfl rfl ?_ fun _ _ hr => hr
    rw [List.map_map]
    exact List.map_congr_left fun pc _ => wake_begun pc
  | destroyJoin =>
    obtain ⟨_,-,⟨-,-,-,-,-,-,rfl⟩ | ⟨-,rfl⟩⟩ := destroyJoin_next h
    all_goals exact f.quiet rfl rfl rfl fun _ _ hr => hr
  | destroyFreeIds =>
    obtain ⟨-,_,-,rfl⟩ := destroyFreeIds_next h
    exact f.quiet rfl rfl rfl fun _ _ hr => hr
  | destroyDrain => exact f.drain inv h

theorem fated_started (n : Nat) : Fated (started n : State α β) [] where
  begun i pc a hi ha := by
    obtain rfl := List.eq_of_mem_replicate (List.mem_of_getElem? hi)
    simp [WorkerPc.begun] at ha
  freed a ha := by simp [started,History.empty] at ha
  drained a ha := by simp [started,History.empty,addrs] at ha
  untouched a _ _ _ := rfl

theorem fated_run {n : Nat} {as : List (Action α β)} (h : run step (started n) as = .next s) :
    Fated s (trace step fateStep (started n) as) := by
  have hboth := invariant_trace fateStep (I := fun s tr => (∃ q, Inv s q) ∧ Fated s tr)
    (fun _ _ _ _ ⟨⟨_,inv⟩,f⟩ hs => ⟨inv.step hs,f.step inv hs⟩) h
    ⟨⟨[],inv_started n⟩,fated_started n⟩
  exact hboth.2

end IntelligentAcoustics.Pool
