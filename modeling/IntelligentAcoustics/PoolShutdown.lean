import IntelligentAcoustics.PoolSignal

/-!
`Ai_Requset_pool_destroy` writes `shutdown` and broadcasts without the mutex. Whether all
workers hear the broadcast depends on where it falls between a worker's test and its sleep.
-/

set_option autoImplicit false

namespace IntelligentAcoustics.Pool
open Transition ThreadList
variable {α β : Type} {s s' : State α β}

def DestroyPc.afterBroadcast : DestroyPc → Bool
  | .idle | .write | .broadcast => false
  | _ => true

def NoSleeper (s : State α β) : Prop :=
  s.destroyer.afterBroadcast = true → .asleep ∉ s.workers ∧ .wait ∉ s.workers

/-- The broadcast is not sent while a worker is between its test and its sleep. -/
def BroadcastHeard (s : State α β) (a : Action α β) : Prop :=
  a = .destroyBroadcast → .wait ∉ s.workers

theorem wake_ne_asleep (pc : WorkerPc) : pc.wake ≠ .asleep := by
  cases pc <;> simp [WorkerPc.wake]

theorem not_asleep_mem_wake (ws : List WorkerPc) : .asleep ∉ ws.map WorkerPc.wake := by
  intro hm
  obtain ⟨pc,-,hpc⟩ := List.mem_map.mp hm
  exact wake_ne_asleep pc hpc

theorem wait_mem_wake (ws : List WorkerPc) : .wait ∈ ws.map WorkerPc.wake ↔ .wait ∈ ws := by
  constructor
  · intro hm
    obtain ⟨pc,hm,hpc⟩ := List.mem_map.mp hm
    cases pc <;> simp_all [WorkerPc.wake]
  · exact fun hm => List.mem_map.mpr ⟨.wait,hm,rfl⟩

theorem NoSleeper.move (h : NoSleeper s) (i : Nat) (pc : WorkerPc) (ha : pc ≠ .asleep)
    (hw : pc ≠ .wait) : NoSleeper { s with workers := s.workers.set i pc } := by
  intro hd
  obtain ⟨ha',hw'⟩ := h hd
  exact ⟨fun hm => ha' (mem_set_of_ne hm ha.symm),fun hm => hw' (mem_set_of_ne hm hw.symm)⟩

theorem NoSleeper.test (h : NoSleeper s) (t : Teardown s) {i : Nat}
    (hs : threadRoutineTest s i = .next s') : NoSleeper s' := by
  obtain ⟨pc,hi,-,-,⟨-,hz,rfl⟩ | ⟨-,rfl⟩ | ⟨-,-,hq⟩⟩ := test_next hs
  · intro hd
    rcases t.openIff.mp hz with hdes | hdes <;> simp [hdes,DestroyPc.afterBroadcast] at hd
  · exact h.move _ _ (by simp) (by simp)
  · obtain ⟨task,t,-,-,rfl⟩ := dequeue_next hq
    exact h.move i (.call task) (by simp) (by simp)

theorem NoSleeper.step (h : NoSleeper s) (t : Teardown s) {a : Action α β}
    (hg : BroadcastHeard s a) (hs : step s a = .next s') : NoSleeper s' := by
  cases a with
  | addStart process arg =>
    simp only [Pool.step,aiRequsetPoolAddStart,Outcome.next.injEq] at hs
    exact hs ▸ h
  | addAppend k =>
    obtain ⟨_,_,_,_,_,-,-,-,rfl⟩ := addAppend_next hs
    exact h
  | addSignal k sleeper =>
    obtain ⟨-,⟨i,-,rfl⟩ | ⟨-,rfl⟩⟩ := addSignal_next hs
    · exact h.move i .woken (by simp) (by simp)
    · exact h
  | test i => exact h.test t hs
  | sleep i =>
    obtain ⟨hi,rfl⟩ := sleep_next hs
    exact fun hd => absurd (List.mem_of_getElem? hi) (h hd).2
  | wakeup i =>
    obtain ⟨-,rfl⟩ := wakeup_next hs
    exact h.move _ _ (by simp) (by simp)
  | invoke i =>
    obtain ⟨task,-,-,-,rfl⟩ := invoke_next hs
    exact h.move i (.running task) (by simp) (by simp)
  | taskReturn i =>
    obtain ⟨task,-,rfl⟩ := taskReturn_next hs
    exact h.move _ _ (by simp) (by simp)
  | free i =>
    obtain ⟨task,-,-,-,rfl⟩ := free_next hs
    exact h.move i .lock (by simp) (by simp)
  | exit i =>
    obtain ⟨-,rfl⟩ := exit_next hs
    exact h.move _ _ (by simp) (by simp)
  | destroyTest =>
    obtain ⟨hc,⟨hz,rfl⟩ | ⟨-,rfl⟩⟩ := destroyTest_next hs
    · refine fun _ => h ?_
      cases hd : s.destroyer with
      | idle => exact absurd (t.openIff.mpr (.inl hd)) hz
      | returned r => rfl
      | _ => simp [hd,DestroyPc.callable] at hc
    · exact fun hd => by simp [DestroyPc.afterBroadcast] at hd
  | destroyWrite =>
    obtain ⟨-,rfl⟩ := destroyWrite_next hs
    exact fun hd => by simp [DestroyPc.afterBroadcast] at hd
  | destroyBroadcast =>
    obtain ⟨-,rfl⟩ := destroyBroadcast_next hs
    exact fun _ => ⟨not_asleep_mem_wake _,fun hm => hg rfl ((wait_mem_wake _).mp hm)⟩
  | destroyJoin =>
    obtain ⟨i,hd,⟨-,-,-,-,-,-,rfl⟩ | ⟨-,rfl⟩⟩ := destroyJoin_next hs
    all_goals exact fun _ => h (by simp [hd,DestroyPc.afterBroadcast])
  | destroyFreeIds =>
    obtain ⟨hd,-,-,rfl⟩ := destroyFreeIds_next hs
    exact fun _ => h (by simp [hd,DestroyPc.afterBroadcast])
  | destroyDrain =>
    obtain ⟨hd,⟨-,rfl⟩ | ⟨-,-,-,-,rfl⟩⟩ := destroyDrain_next hs
    all_goals exact fun _ => h (by simp [hd,DestroyPc.afterBroadcast])

theorem broadcastHeard_of_noSleeper {a : Action α β} (hs : step s a = .next s')
    (h : NoSleeper s') : BroadcastHeard s a := by
  rintro rfl hw
  obtain ⟨-,rfl⟩ := destroyBroadcast_next hs
  exact (h rfl).2 ((wait_mem_wake _).mpr hw)

/-- Along any schedule, all sleepers are woken for good if and only if the broadcast falls
into no worker's window between test and sleep. -/
theorem shutdown_wakes_all_iff (n : Nat) (as : List (Action α β)) :
    Always step NoSleeper (started n) as ↔ Along step BroadcastHeard (started n) as := by
  refine always_iff_along (I := fun s => (∃ q, Inv s q) ∧ NoSleeper s) ?_ (fun s h => h.2)
    (fun s a t _ hs ht => broadcastHeard_of_noSleeper hs ht) ⟨⟨[],inv_started n⟩,?_⟩ as
  · rintro s a t ⟨⟨q,inv⟩,h⟩ hg hs
    exact ⟨inv.step hs,h.step inv.teardown hg hs⟩
  · exact fun hd => by simp [started,DestroyPc.afterBroadcast] at hd

theorem shutdown_wakeup_lost : ∃ (as : List (Action Nat Nat)) (s : State Nat Nat),
    run step (started 1) as = .next s ∧ (∀ i, .wakeup i ∉ as) ∧
      s.destroyer = .join 0 ∧ s.workers = [.asleep] ∧ ¬ NoSleeper s ∧
      step s .destroyJoin = .blocked := by
  refine ⟨[.test 0,.destroyTest,.destroyWrite,.destroyBroadcast,.sleep 0],
    ⟨.empty,⟨.block [0],none,none,1,0,1⟩,[.asleep],[],.join 0,.empty⟩,
    rfl,by simp,rfl,rfl,fun h => ?_,rfl⟩
  exact (h rfl).1 (by decide)

end IntelligentAcoustics.Pool
