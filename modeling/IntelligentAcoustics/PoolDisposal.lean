import IntelligentAcoustics.TaskFate

/-!
`Ai_Requset_pool_destroy` after all calls of `Ai_Requset_pool_add` have returned: every
task node is freed exactly once, by the worker that ran it or by the drain.
-/

set_option autoImplicit false

namespace IntelligentAcoustics.Pool
open Transition BlockHeap LinkedChain ThreadList
variable {α β : Type} {s s' : State α β} {q : List (Addr × α × β)}

def AddPc.isReturned : AddPc α β → Bool
  | .returned => true
  | _ => false

/-- The callers' part: `destroy` is called when no call of `add` is running, and no call
of `add` begins after it. -/
def addsBeforeDestroy (s : State α β) : Action α β → Bool
  | .addStart _ _ => decide (s.destroyer = .idle)
  | .destroyTest => s.adds.all AddPc.isReturned
  | _ => true

structure Disposal (s : State α β) : Prop where
  quiet : s.destroyer ≠ .idle → ∀ c ∈ s.adds, c.isReturned = true
  empty : ∀ r, s.destroyer = .returned r → s.pool.apiRequestHead = none

theorem disposal_started (n : Nat) : Disposal (started n : State α β) where
  quiet h := by simp [started] at h
  empty r h := by simp [started] at h

theorem Disposal.idle (d : Disposal s) {k : Nat} {c : AddPc α β} (hk : s.adds[k]? = some c)
    (hc : c.isReturned = false) : s.destroyer = .idle := by
  by_contra hd
  have := d.quiet hd c (List.mem_of_getElem? hk)
  simp [hc] at this

theorem Disposal.test (d : Disposal s) (t : Teardown s) {i : Nat}
    (h : threadRoutineTest s i = .next s') : Disposal s' := by
  obtain ⟨pc,hi,-,-,⟨-,-,rfl⟩ | ⟨-,rfl⟩ | ⟨-,hz,hq⟩⟩ := test_next h
  · exact ⟨d.quiet,d.empty⟩
  · exact ⟨d.quiet,d.empty⟩
  · obtain ⟨task,node,-,-,rfl⟩ := dequeue_next hq
    refine ⟨d.quiet,fun r hr => ?_⟩
    rcases t.openIff.mp hz with hdes | hdes
    · exact absurd (hdes.symm.trans hr) (by simp)
    · exact absurd (hdes.symm.trans hr) (by simp)

theorem Disposal.destroyTest (d : Disposal s) (t : Teardown s)
    (hg : s.adds.all AddPc.isReturned = true) (h : aiRequsetPoolDestroyTest s = .next s') :
    Disposal s' := by
  have hall : ∀ c ∈ s.adds, c.isReturned = true := List.all_eq_true.mp hg
  obtain ⟨hc,⟨hz,rfl⟩ | ⟨-,rfl⟩⟩ := destroyTest_next h
  · refine ⟨fun _ => hall,fun r hr => ?_⟩
    cases hd : s.destroyer with
    | idle => exact absurd (t.openIff.mpr (.inl hd)) hz
    | returned r' => exact d.empty r' hd
    | _ => simp [hd,DestroyPc.callable] at hc
  · exact ⟨fun _ => hall,fun r hr => by simp at hr⟩

theorem Disposal.step (d : Disposal s) (t : Teardown s) {a : Action α β}
    (h : restrict step addsBeforeDestroy s a = .next s') : Disposal s' := by
  obtain ⟨hg,hs⟩ := restrict_next h
  cases a with
  | addStart process arg =>
    simp only [Pool.step,aiRequsetPoolAddStart,Outcome.next.injEq] at hs
    subst hs
    have hidle : s.destroyer = .idle := of_decide_eq_true hg
    exact ⟨fun hne => absurd hidle hne,d.empty⟩
  | addAppend k =>
    obtain ⟨_,_,_,_,_,hk,-,-,rfl⟩ := addAppend_next hs
    have hidle := d.idle hk rfl
    exact ⟨fun hne => absurd hidle hne,fun r hr => absurd (hidle.symm.trans hr) (by simp)⟩
  | addSignal k sleeper =>
    obtain ⟨hk,⟨i,-,rfl⟩ | ⟨-,rfl⟩⟩ := addSignal_next hs
    all_goals exact ⟨fun hne => absurd (d.idle hk rfl) hne,d.empty⟩
  | test i => exact d.test t hs
  | sleep i =>
    obtain ⟨-,rfl⟩ := sleep_next hs
    exact ⟨d.quiet,d.empty⟩
  | wakeup i =>
    obtain ⟨-,rfl⟩ := wakeup_next hs
    exact ⟨d.quiet,d.empty⟩
  | invoke i =>
    obtain ⟨_,_,-,-,rfl⟩ := invoke_next hs
    exact ⟨d.quiet,d.empty⟩
  | taskReturn i =>
    obtain ⟨_,-,rfl⟩ := taskReturn_next hs
    exact ⟨d.quiet,d.empty⟩
  | free i =>
    obtain ⟨_,_,-,-,rfl⟩ := free_next hs
    exact ⟨d.quiet,d.empty⟩
  | exit i =>
    obtain ⟨-,rfl⟩ := exit_next hs
    exact ⟨d.quiet,d.empty⟩
  | destroyTest => exact d.destroyTest t hg hs
  | destroyWrite =>
    obtain ⟨hd,rfl⟩ := destroyWrite_next hs
    exact ⟨fun _ => d.quiet (by simp [hd]),fun r hr => by simp at hr⟩
  | destroyBroadcast =>
    obtain ⟨hd,rfl⟩ := destroyBroadcast_next hs
    exact ⟨fun _ => d.quiet (by simp [hd]),fun r hr => by simp at hr⟩
  | destroyJoin =>
    obtain ⟨i,hd,⟨-,-,-,-,-,-,rfl⟩ | ⟨-,rfl⟩⟩ := destroyJoin_next hs
    all_goals exact ⟨fun _ => d.quiet (by simp [hd]),fun r hr => by simp at hr⟩
  | destroyFreeIds =>
    obtain ⟨hd,-,-,rfl⟩ := destroyFreeIds_next hs
    exact ⟨fun _ => d.quiet (by simp [hd]),fun r hr => by simp at hr⟩
  | destroyDrain =>
    obtain ⟨hd,⟨hh,rfl⟩ | ⟨-,-,-,-,rfl⟩⟩ := destroyDrain_next hs
    · exact ⟨fun _ => d.quiet (by simp [hd]),fun _ _ => hh⟩
    · exact ⟨fun _ => d.quiet (by simp [hd]),fun r hr => by simp [hd] at hr⟩

theorem disposal_reachable {n : Nat}
    (h : Reachable (restrict step addsBeforeDestroy) (started n) s) : Disposal s := by
  refine (invariant_reachable (I := fun s => (∃ q, Inv s q) ∧ Disposal s) ?_ h
    ⟨⟨[],inv_started n⟩,disposal_started n⟩).2
  rintro s a t ⟨⟨q,inv⟩,d⟩ hs
  exact ⟨inv.step (restrict_next hs).2,d.step inv.teardown hs⟩

/-- No call of `add` holds a node any more, so every node that was ever allocated has been
appended. -/
theorem Inv.allocated_appended (inv : Inv s q) (d : Disposal s) (hd : s.destroyer ≠ .idle)
    {a : Addr} (ha : a < s.heap.size) : a ∈ addrs s.hist.appended := by
  have hpending : s.adds.flatMap AddPc.pending = [] := List.flatMap_eq_nil_iff.mpr fun c hc => by
    have := d.quiet hd c hc
    cases c <;> simp_all [AddPc.isReturned,AddPc.pending]
  have hmem := (inv.custody.allocated a).mpr ha
  simpa [hpending,addrs] using hmem

theorem Inv.disposed (inv : Inv s q) (d : Disposal s) {r : Int}
    (hr : s.destroyer = .returned r) :
    (∀ pc ∈ s.workers, pc = .exited) ∧ s.hist.taken ++ s.hist.drained = s.hist.appended ∧
      s.hist.freed.Perm (addrs s.hist.taken) := by
  have hexit : ∀ pc ∈ s.workers, pc = .exited := by
    intro pc hm
    obtain ⟨i,hi,rfl⟩ := List.mem_iff_getElem.mp hm
    have hx := inv.teardown.joined i (by simpa [hr,DestroyPc.joined] using hi)
    simpa [List.getElem?_eq_getElem hi] using hx
  have hheld : s.workers.flatMap WorkerPc.held = [] :=
    List.flatMap_eq_nil_iff.mpr fun pc hm => by rw [hexit pc hm]; rfl
  have hc := inv.custody.chain
  rw [d.empty r hr] at hc
  have hq := chain_nil_iff hc
  subst hq
  exact ⟨hexit,by simpa using inv.custody.order,by simpa [hheld] using inv.custody.owned⟩

theorem destroy_again (d : Disposal s) (t : Teardown s) {r : Int}
    (hr : s.destroyer = .returned r) :
    restrict step addsBeforeDestroy s .destroyTest =
      .next { s with destroyer := .returned (-1) } := by
  have hall : s.adds.all AddPc.isReturned = true :=
    List.all_eq_true.mpr (d.quiet (by simp [hr]))
  have hz : s.pool.shutdown ≠ 0 := fun hz => by
    rcases t.openIff.mp hz with hdes | hdes <;> simp [hr] at hdes
  simp [restrict,addsBeforeDestroy,hall,Pool.step,aiRequsetPoolDestroyTest,hr,
    DestroyPc.callable,hz]

theorem destroy_repeated (d : Disposal s) (t : Teardown s) {r : Int}
    (hr : s.destroyer = .returned r) (k : Nat) :
    run (restrict step addsBeforeDestroy) s (List.replicate (k+1) .destroyTest) =
      .next { s with destroyer := .returned (-1) } := by
  induction k generalizing s r with
  | zero => simp [destroy_again d t hr]
  | succ k ih =>
    have hs := destroy_again d t hr
    have hz : s.pool.shutdown ≠ 0 := fun hz => by
      rcases t.openIff.mp hz with hdes | hdes <;> simp [hr] at hdes
    have hj := t.joined
    simp only [hr,DestroyPc.joined] at hj
    have t' : Teardown { s with destroyer := .returned (-1) } :=
      ⟨by simp [hz],t.count,by simp [DestroyPc.beforeDrain],by simp [DestroyPc.beforeDrain],hj⟩
    rw [List.replicate_succ,run_cons,hs]
    exact ih (d.step t hs) t' rfl

/-- When `destroy` returns 0, each task node that any call of `add` ever allocated has been run
and then freed by one worker, or freed by the drain without being run, and is no longer in memory.
No step of any run touches a node that is not there, and calling `destroy` again changes nothing. -/
theorem destroy_disposes_once {n : Nat} {as : List (Action α β)}
    (h : run (restrict step addsBeforeDestroy) (started n) as = .next s)
    (hr : s.destroyer = .returned 0) :
    (∀ pc ∈ s.workers, pc = .exited) ∧ s.pool.apiRequestHead = none ∧
    (∀ a, a < s.heap.size → s.heap.read a = none ∧
      ((∃ i, fates n as a = [.invoked i,.freed i]) ∨ fates n as a = [.drained])) ∧
    (∀ (t : State α β) (a : Action α β),
      Reachable (restrict step addsBeforeDestroy) (started n) t →
        restrict step addsBeforeDestroy t a ≠ .fault) ∧
    ∀ k, run (restrict step addsBeforeDestroy) s (List.replicate (k+1) .destroyTest) =
      .next { s with destroyer := .returned (-1) } := by
  have d := disposal_reachable ⟨as,h⟩
  obtain ⟨q,inv⟩ := inv_reachable ⟨as,run_of_restrict h⟩
  have f := fated_run (run_of_restrict h)
  obtain ⟨hexit,horder,hfreed⟩ := inv.disposed d hr
  refine ⟨hexit,d.empty 0 hr,fun a ha => ?_,fun t a ht => ?_,
    fun k => destroy_repeated d inv.teardown hr k⟩
  · have happended := inv.allocated_appended d (by simp [hr]) ha
    rw [← horder] at happended
    simp only [addrs,List.map_append,List.mem_append] at happended
    rcases happended with ha | ha
    · obtain ⟨hread,hfate⟩ := f.freed a (hfreed.mem_iff.mpr ha)
      exact ⟨hread,.inl hfate⟩
    · obtain ⟨hread,hfate⟩ := f.drained a ha
      exact ⟨hread,.inr hfate⟩
  · obtain ⟨q',inv'⟩ := inv_reachable ht.of_restrict
    exact restrict_ne_fault (inv'.no_fault a)

def ranOneDrainedOne : State Nat Nat where
  heap := ⟨[none,none]⟩
  pool := ⟨.freed,none,none,1,1,1⟩
  workers := [.exited]
  adds := [.returned,.returned]
  destroyer := .returned 0
  hist := ⟨[(0,7,70),(1,8,80)],[(0,7,70)],[(0,7,70)],[0],[(1,8,80)]⟩

def ranOneDrainedOneRun : List (Action Nat Nat) :=
  [.addStart 7 70,.addStart 8 80,.addAppend 0,.addAppend 1,.addSignal 0 none,.addSignal 1 none,
   .test 0,.invoke 0,.destroyTest,.destroyWrite,.destroyBroadcast,.taskReturn 0,.free 0,.test 0,
   .exit 0,.destroyJoin,.destroyJoin,.destroyFreeIds,.destroyDrain,.destroyDrain]

theorem destroy_disposes_once_ranOneDrainedOne :
    fates 1 ranOneDrainedOneRun 0 = [.invoked 0,.freed 0] ∧
    fates 1 ranOneDrainedOneRun 1 = [.drained] ∧
    (∀ a, a < ranOneDrainedOne.heap.size → ranOneDrainedOne.heap.read a = none ∧
      ((∃ i, fates 1 ranOneDrainedOneRun a = [.invoked i,.freed i]) ∨
        fates 1 ranOneDrainedOneRun a = [.drained])) ∧
    run (restrict step addsBeforeDestroy) ranOneDrainedOne [.destroyTest] =
      .next { ranOneDrainedOne with destroyer := .returned (-1) } := by
  have hrun : run (restrict step addsBeforeDestroy) (started 1) ranOneDrainedOneRun =
      .next ranOneDrainedOne := by rfl
  obtain ⟨-,-,hfates,-,hagain⟩ := destroy_disposes_once hrun rfl
  exact ⟨by rfl,by rfl,hfates,hagain 0⟩

end IntelligentAcoustics.Pool
