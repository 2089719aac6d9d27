import IntelligentAcoustics.PoolFifo

/-!
`Ai_Requset_pool_init` and the pool objects in memory. The function assigns the address of
a new block to its own parameter, so the object its caller passes is not the one it sets
up and starts the workers on.
-/

set_option autoImplicit false

namespace IntelligentAcoustics.Pool
open Transition BlockHeap LinkedChain
variable {α β : Type}

/-- The pool objects by address, each with its nodes and with the threads and calls that
work on it. -/
abbrev World (α β : Type) := List (State α β)

/-- A `PoolCreate` in static storage: all zero, nobody works on it. -/
def staticPool : State α β := ⟨.empty,⟨.null,none,none,0,0,0⟩,[],[],.idle,.empty⟩

def aiRequsetPoolInit (w : World α β) (_aiResTask : Nat) (maxRequestNum : Nat) :
    World α β × Int :=
  -- AiResTask = malloc(sizeof(PoolCreate)): the argument is lost here
  (w ++ [started maxRequestNum],0)

def worldStep (w : World α β) (x : Nat × Action α β) : Outcome (World α β) :=
  match w[x.1]? with
  | none => .fault
  | some s => (step s x.2).bind fun s' => .next (w.set x.1 s')

def Action.isAdd : Action α β → Bool
  | .addStart _ _ | .addAppend _ | .addSignal _ _ => true
  | _ => false

def Action.isWorker : Action α β → Bool
  | .test _ | .sleep _ | .wakeup _ | .invoke _ | .taskReturn _ | .free _ | .exit _ => true
  | _ => false

def Action.startsAdd : Action α β → Bool
  | .addStart _ _ => true
  | _ => false

def AddsAndWorkers (p : Nat) (x : Nat × Action α β) : Prop :=
  (x.1 = p ∧ x.2.isAdd = true) ∨ x.2.isWorker = true

def AllAsleep (w : World α β) : Prop := ∀ t ∈ w, ∀ pc ∈ t.workers, pc = .asleep

def NoAddRunning (w : World α β) (p : Nat) : Prop :=
  ∀ s, w[p]? = some s → ∀ c ∈ s.adds, c = .returned

/-- While all workers sleep and no call of `add` is running, the list of `p` is empty. -/
def NothingStranded (w : World α β) (p : Nat) : Prop :=
  AllAsleep w → NoAddRunning w p → ∀ s, w[p]? = some s → s.pool.apiRequestHead = none

theorem worldStep_next {w w' : World α β} {x : Nat × Action α β}
    (h : worldStep w x = .next w') :
    ∃ s s', w[x.1]? = some s ∧ step s x.2 = .next s' ∧ w' = w.set x.1 s' := by
  unfold worldStep at h
  split at h
  · simp at h
  · rename_i s hs
    obtain ⟨s',hstep,hw⟩ := Outcome.bind_eq_next.mp h
    exact ⟨s,s',hs,hstep,by simpa using hw.symm⟩

theorem run_worldStep {w : World α β} {p : Nat} {s s' : State α β} {as : List (Action α β)}
    (hp : w[p]? = some s) (h : run Pool.step s as = .next s') :
    run worldStep w (as.map fun a => (p,a)) = .next (w.set p s') := by
  induction as generalizing w s with
  | nil =>
    obtain rfl : s = s' := by simpa using h
    obtain ⟨hlt,rfl⟩ := List.getElem?_eq_some_iff.mp hp
    simp
  | cons a as ih =>
    simp only [run_cons,Outcome.bind_eq_next] at h
    obtain ⟨t,ht,hr⟩ := h
    obtain ⟨hlt,-⟩ := List.getElem?_eq_some_iff.mp hp
    have hstep : worldStep w (p,a) = .next (w.set p t) := by simp [worldStep,hp,ht]
    rw [List.map_cons,run_cons,hstep,Outcome.next_bind,
      ih (by simp [hlt]) hr,List.set_set]

theorem appendTask_head {h h' : Heap (PoolTask α β)} {head head' : Option Addr}
    {newtask : Addr} (ha : appendTask h head newtask = .next (h',head')) : head' ≠ none := by
  unfold appendTask at ha
  split at ha
  · simp only [Outcome.next.injEq,Prod.mk.injEq] at ha
    simp [← ha.2]
  · split at ha
    · split at ha
      · simp at ha
      · simp only [Outcome.next.injEq,Prod.mk.injEq] at ha
        simp [← ha.2]
    · simp at ha
    · simp at ha

def AddPc.isReady : AddPc α β → Bool
  | .ready _ _ _ => true
  | _ => false

structure Unserved (wasEmpty : Prop) (s : State α β) : Prop where
  workers : s.workers = []
  list : s.pool.apiRequestHead = none ↔ wasEmpty ∧ ∀ c ∈ s.adds, c.isReady = true

theorem Unserved.step {e : Prop} {s s' : State α β} (u : Unserved e s) {a : Action α β}
    (ha : a.isAdd = true ∨ a.isWorker = true) (h : step s a = .next s') :
    Unserved e s' ∧ s'.adds.length = s.adds.length + (if a.startsAdd then 1 else 0) := by
  have hnone : ∀ (i : Nat) (pc : WorkerPc), s.workers[i]? ≠ some pc := by simp [u.workers]
  cases a with
  | addStart process arg =>
    simp only [Pool.step,aiRequsetPoolAddStart,Outcome.next.injEq] at h
    subst h
    refine ⟨⟨u.workers,?_⟩,by simp [Action.startsAdd]⟩
    simpa [AddPc.isReady,or_imp,forall_and] using u.list
  | addAppend k =>
    obtain ⟨newtask,process,arg,heap,head,hk,-,happ,rfl⟩ := addAppend_next h
    obtain ⟨hlt,-⟩ := List.getElem?_eq_some_iff.mp hk
    refine ⟨⟨u.workers,?_⟩,by simp [Action.startsAdd]⟩
    refine iff_of_false (appendTask_head happ) fun hall => ?_
    have hs := hall.2 _ (List.mem_set hlt .signal)
    simp [AddPc.isReady] at hs
  | addSignal k sleeper =>
    obtain ⟨hk,⟨i,hi,-⟩ | ⟨-,rfl⟩⟩ := addSignal_next h
    · exact absurd hi (hnone i _)
    · obtain ⟨hlt,-⟩ := List.getElem?_eq_some_iff.mp hk
      refine ⟨⟨u.workers,u.list.trans (iff_of_false ?_ ?_)⟩,by simp [Action.startsAdd]⟩
      · rintro ⟨-,hall⟩
        simpa [AddPc.isReady] using hall _ (List.mem_of_getElem? hk)
      · rintro ⟨-,hall⟩
        simpa [AddPc.isReady] using hall _ (List.mem_set hlt .returned)
  | test i =>
    obtain ⟨pc,hi,-⟩ := test_next h
    exact absurd hi (hnone i pc)
  | sleep i => exact absurd (sleep_next h).1 (hnone i _)
  | wakeup i => exact absurd (wakeup_next h).1 (hnone i _)
  | invoke i =>
    obtain ⟨task,-,hi,-⟩ := invoke_next h
    exact absurd hi (hnone i _)
  | taskReturn i =>
    obtain ⟨task,hi,-⟩ := taskReturn_next h
    exact absurd hi (hnone i _)
  | free i =>
    obtain ⟨task,-,hi,-⟩ := free_next h
    exact absurd hi (hnone i _)
  | exit i => exact absurd (exit_next h).1 (hnone i _)
  | _ => simp [Action.isAdd,Action.isWorker] at ha

def startsAddOn (p : Nat) (x : Nat × Action α β) : Bool := x.1 = p && x.2.startsAdd

theorem Unserved.run {e : Prop} {p : Nat} {w w' : World α β} {s : State α β}
    {as : List (Nat × Action α β)} (u : Unserved e s) (hp : w[p]? = some s)
    (h : run worldStep w as = .next w') (has : ∀ x ∈ as, AddsAndWorkers p x) :
    ∃ s', w'[p]? = some s' ∧ Unserved e s' ∧
      s'.adds.length = s.adds.length + as.countP (startsAddOn p) := by
  induction as generalizing w s with
  | nil =>
    simp only [run_nil,Outcome.next.injEq] at h
    exact ⟨s,h ▸ hp,u,by simp⟩
  | cons x as ih =>
    simp only [run_cons,Outcome.bind_eq_next] at h
    obtain ⟨v,hx,hr⟩ := h
    obtain ⟨t,t',ht,hstep,rfl⟩ := worldStep_next hx
    have hrest : ∀ y ∈ as, AddsAndWorkers p y := fun y hy => has y (by simp [hy])
    by_cases hxp : x.1 = p
    · rw [hxp,hp] at ht
      obtain rfl := Option.some.inj ht
      have hact : x.2.isAdd = true ∨ x.2.isWorker = true := (has x (by simp)).imp_left And.right
      obtain ⟨u',hlen⟩ := u.step hact hstep
      obtain ⟨hlt,-⟩ := List.getElem?_eq_some_iff.mp hp
      obtain ⟨s',hs',us',hlen'⟩ := ih u' (by simp [hxp,hlt]) hr hrest
      refine ⟨s',hs',us',?_⟩
      rw [hlen',hlen,List.countP_cons]
      simp only [startsAddOn,hxp,decide_true,Bool.true_and]
      omega
    · obtain ⟨s',hs',us',hlen'⟩ := ih u (by rw [List.getElem?_set_ne hxp]; exact hp) hr hrest
      refine ⟨s',hs',us',?_⟩
      rw [hlen',List.countP_cons]
      simp [startsAddOn,hxp]

/-- Tasks given to the pool that was passed to `init` are never run: nothing is stranded
only if the list was empty before and no call of `add` has been made. -/
theorem nothing_stranded_iff {w w' : World α β} {p n : Nat} {s₀ : State α β}
    {as : List (Nat × Action α β)} (hp : w[p]? = some s₀) (hw : s₀.workers = [])
    (ha : s₀.adds = []) (hr : run worldStep (aiRequsetPoolInit w p n).1 as = .next w')
    (has : ∀ x ∈ as, AddsAndWorkers p x) (hsleep : AllAsleep w') (hret : NoAddRunning w' p) :
    NothingStranded w' p ↔
      s₀.pool.apiRequestHead = none ∧ ∀ x ∈ as, startsAddOn p x = false := by
  have u₀ : Unserved (s₀.pool.apiRequestHead = none) s₀ := ⟨hw,by simp [ha]⟩
  obtain ⟨hlt,-⟩ := List.getElem?_eq_some_iff.mp hp
  have hp₁ : (aiRequsetPoolInit w p n).1[p]? = some s₀ := by
    simpa [aiRequsetPoolInit,List.getElem?_append_left hlt] using hp
  obtain ⟨s,hs,u,hlen⟩ := u₀.run hp₁ hr has
  have hstarts : s.adds = [] ↔ ∀ x ∈ as, startsAddOn p x = false := by
    rw [← List.length_eq_zero_iff,hlen,ha,List.length_nil,Nat.zero_add,List.countP_eq_zero]
    simp
  have hready : (∀ c ∈ s.adds, c.isReady = true) ↔ s.adds = [] := by
    constructor
    · intro hall
      refine List.eq_nil_iff_forall_not_mem.mpr fun c hc => ?_
      have := hall c hc
      simp [hret s hs c hc,AddPc.isReady] at this
    · intro hnil
      simp [hnil]
  rw [← hstarts,← hready,← u.list]
  constructor
  · exact fun h => h hsleep hret s hs
  · intro hnone _ _ t ht
    obtain rfl := Option.some.inj (hs.symm.trans ht)
    exact hnone

def strandingRun : List (Nat × Action Nat Nat) :=
  [(1,.test 0),(1,.sleep 0),(0,.addStart 7 70),(0,.addAppend 0),(0,.addSignal 0 none)]

def strandedWorld : World Nat Nat :=
  [⟨⟨[some ⟨7,70,none⟩]⟩,⟨.null,none,some 0,0,1,0⟩,[],[.returned],.idle,
      ⟨[(0,7,70)],[],[],[],[]⟩⟩,
    ⟨.empty,⟨.block [0],none,none,1,0,0⟩,[.asleep],[],.idle,.empty⟩]

theorem strandingRun_served : ∀ x ∈ strandingRun, AddsAndWorkers 0 x := by
  simp [strandingRun,AddsAndWorkers,Action.isAdd,Action.isWorker]

theorem strandedWorld_asleep : AllAsleep strandedWorld := by
  simp [AllAsleep,strandedWorld]

theorem strandedWorld_idle : NoAddRunning strandedWorld 0 := by
  simp [NoAddRunning,strandedWorld]

theorem task_stranded :
    run worldStep (aiRequsetPoolInit [staticPool] 0 1).1 strandingRun = .next strandedWorld ∧
      (∀ x ∈ strandingRun, AddsAndWorkers 0 x) ∧ ¬ NothingStranded strandedWorld 0 := by
  refine ⟨rfl,strandingRun_served,fun h => ?_⟩
  have hnone := h strandedWorld_asleep strandedWorld_idle _ rfl
  simp at hnone

theorem nothing_stranded_iff_strandedWorld : NothingStranded strandedWorld 0 ↔
    (none : Option Addr) = none ∧ ∀ x ∈ strandingRun, startsAddOn 0 x = false :=
  nothing_stranded_iff (w := [staticPool]) (n := 1) rfl rfl rfl rfl strandingRun_served
    strandedWorld_asleep strandedWorld_idle

end IntelligentAcoustics.Pool
