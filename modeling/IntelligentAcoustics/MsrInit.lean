import IntelligentAcoustics.MsrModule

/-!
`msr_init` as one call, for any results of the calls it makes and anything that its locals
`i` and `ret` happen to hold: `ret` is tested before it is set.
-/

set_option autoImplicit false

namespace IntelligentAcoustics.Msr
open Transition Pool ThreadList

def msrFail : Int := -1

/-- What the calls in `msr_init` return; `res_info_init` and `Ai_Requset_pool_add` in turn. -/
structure Calls where
  poolInit : Int
  resInfoInit : Nat → Int
  poolAdd : Nat → Int
  pthreadCreate : Int

/-- What is on the stack where `i` and `ret` are. -/
structure Locals where
  i : Int
  ret : Int
  deriving DecidableEq, Repr

structure InitResult where
  ret : Int
  pools : World PoolFunction Unit
  rest : RecordInfo
  msrThread : Option Request
  deriving DecidableEq, Repr

def onApiRequest (as : List (Pool.Action PoolFunction Unit)) (pools : World PoolFunction Unit) :
    Outcome (World PoolFunction Unit) :=
  run worldStep pools (as.map fun a => (apiRequest,a))

def poolAdd (i : Nat) : List (Pool.Action PoolFunction Unit) :=
  [.addStart .requestProcess (),.addAppend i,.addSignal i none]

def msrFini : List (Pool.Action PoolFunction Unit) :=
  [.destroyTest,.destroyWrite,.destroyBroadcast,.destroyJoin,.destroyFreeIds,.destroyDrain]

/-- The loop with `n` turns to go, and the `pthread_create` behind it. A call that fails
leaves its object alone. The results of the calls made are collected. -/
def msrInitLoop (calls : Calls) (pools : World PoolFunction Unit) (rest : RecordInfo)
    (made : List Int) (i : Nat) : Nat → Outcome (InitResult × List Int)
  | 0 =>
    let msrThread := if calls.pthreadCreate = 0 then some Request.start else none
    .next (⟨calls.pthreadCreate,pools,rest,msrThread⟩,made ++ [calls.pthreadCreate])
  | n+1 =>
    let ret := calls.resInfoInit i
    if 0 ≠ ret then .next (⟨msrFail,pools,rest,none⟩,made ++ [ret])
    else
      let rest := ((msrResInfoInit rest).1).getD rest
      let made := made ++ [ret]
      let ret := calls.poolAdd i
      if 0 ≠ ret then .next (⟨msrFail,pools,rest,none⟩,made ++ [ret])
      else (onApiRequest (poolAdd i) pools).bind fun pools =>
        msrInitLoop calls pools rest (made ++ [ret]) (i+1) n

def initedPools (taskNum : Int) (calls : Calls) : World PoolFunction Unit :=
  if calls.poolInit = 0 then (aiRequsetPoolInit Module.start.pools apiRequest taskNum.toNat).1
  else Module.start.pools

def msrInit (taskNum : Int) (calls : Calls) (locals : Locals) : Outcome (InitResult × List Int) :=
  let pools := initedPools taskNum calls
  if 0 ≠ locals.ret then
    -- printf of i
    (onApiRequest msrFini pools).bind fun pools =>
      .next (⟨msrFail,pools,Module.start.rest,none⟩,[calls.poolInit])
  else msrInitLoop calls pools Module.start.rest [calls.poolInit] 0 taskNum.toNat

def SameResult (taskNum : Int) (calls : Calls) (l l' : Locals) : Prop :=
  ∃ r made made', msrInit taskNum calls l = .next (r,made) ∧
    msrInit taskNum calls l' = .next (r,made')

def FailsWithReason (taskNum : Int) (calls : Calls) (l : Locals) : Prop :=
  ∀ r made, msrInit taskNum calls l = .next (r,made) → r.ret = msrFail → ∃ ret ∈ made, ret ≠ 0

structure Added (k : Nat) (s : Pool.State PoolFunction Unit) : Prop where
  workers : s.workers = []
  mutex : s.pool.mutex = none
  shutdown : s.pool.shutdown = 0
  adds : s.adds = List.replicate k .returned
  custody : ∃ q, Custody s.heap s.pool.apiRequestHead q [] [] [] s.hist

theorem added_static : Added 0 staticPool := by
  refine ⟨rfl,rfl,rfl,rfl,[],?_⟩
  constructor <;> simp [staticPool,History.empty,LinkedChain.Chain]

theorem Added.add {k : Nat} {s : Pool.State PoolFunction Unit} (h : Added k s) :
    ∃ s', run Pool.step s (poolAdd k) = .next s' ∧ Added (k+1) s' := by
  obtain ⟨q,hq⟩ := h.custody
  have hlen : s.adds.length = k := by simp [h.adds]
  have hset : ∀ c c', (s.adds ++ [c]).set k c' = s.adds ++ [c'] := fun c c' => by simp [← hlen]
  obtain ⟨heap,head,happend,hcustody⟩ := (hq.malloc .requestProcess ()).appendTask_spec
  have hready : (s.adds ++ [AddPc.ready s.heap.size PoolFunction.requestProcess ()])[k]? =
      some (.ready s.heap.size .requestProcess ()) := by simp [← hlen]
  have hsignal : (s.adds ++ [(.signal : AddPc PoolFunction Unit)])[k]? = some .signal := by
    simp [← hlen]
  refine ⟨{ s with
    heap := heap
    pool := { s.pool with apiRequestHead := head, curRequestSize := s.pool.curRequestSize + 1 }
    adds := s.adds ++ [.returned]
    hist := { s.hist with
      appended := s.hist.appended ++ [(s.heap.size,.requestProcess,())] } },?_,?_⟩
  · simp only [poolAdd,run_cons,run_nil,Pool.step,aiRequsetPoolAddStart,Outcome.next_bind,
      aiRequsetPoolAddAppend,hready,h.mutex,if_true,happend,aiRequsetPoolAddSignal,hset,hsignal,
      h.workers,List.not_mem_nil,if_false]
  · refine ⟨h.workers,h.mutex,h.shutdown,?_,_,hcustody⟩
    simp [h.adds,List.replicate_succ']

def LeftOpen (pools : World PoolFunction Unit) : Prop :=
  ∃ q, pools[apiRequest]? = some q ∧ q.pool.shutdown = 0

theorem onApiRequest_add {pools : World PoolFunction Unit} {i : Nat}
    {s : Pool.State PoolFunction Unit} (hp : pools[apiRequest]? = some s) (h : Added i s) :
    ∃ pools' s', onApiRequest (poolAdd i) pools = .next pools' ∧
      pools'[apiRequest]? = some s' ∧ Added (i+1) s' := by
  obtain ⟨s',hs',hadded⟩ := h.add
  obtain ⟨hlt,-⟩ := List.getElem?_eq_some_iff.mp hp
  exact ⟨_,s',run_worldStep hp hs',by simp [hlt],hadded⟩

theorem msrInitLoop_returns (calls : Calls) {pools : World PoolFunction Unit}
    {s : Pool.State PoolFunction Unit} {i : Nat} (hp : pools[apiRequest]? = some s)
    (h : Added i s) (rest : RecordInfo) (made : List Int) (n : Nat) :
    ∃ r made', msrInitLoop calls pools rest made i n = .next (r,made') ∧ LeftOpen r.pools ∧
      (r.ret ≠ 0 → ∃ ret ∈ made', ret ≠ 0) := by
  induction n generalizing pools s i rest made with
  | zero => exact ⟨_,_,rfl,⟨s,hp,h.shutdown⟩,fun hret => ⟨_,by simp,hret⟩⟩
  | succ n ih =>
    unfold msrInitLoop
    by_cases hinfo : 0 ≠ calls.resInfoInit i
    · rw [if_pos hinfo]
      exact ⟨_,_,rfl,⟨s,hp,h.shutdown⟩,fun _ => ⟨_,by simp,hinfo.symm⟩⟩
    · rw [if_neg hinfo]
      by_cases hadd : 0 ≠ calls.poolAdd i
      · rw [if_pos hadd]
        exact ⟨_,_,rfl,⟨s,hp,h.shutdown⟩,fun _ => ⟨_,by simp,hadd.symm⟩⟩
      · rw [if_neg hadd]
        obtain ⟨pools',s',hpools,hp',hs'⟩ := onApiRequest_add hp h
        rw [hpools,Outcome.next_bind]
        exact ih hp' hs' _ _

def succeeding : Calls := ⟨0,fun _ => 0,fun _ => 0,0⟩

theorem msrInitLoop_mainSteps {taskNum n i : Nat} (hn : i + n = taskNum)
    {pools : World PoolFunction Unit} {s : Pool.State PoolFunction Unit}
    (hp : pools[apiRequest]? = some s) (h : Added i s) (rest : RecordInfo) (made : List Int) :
    ∃ r made', msrInitLoop succeeding pools rest made i n = .next (r,made') ∧
      run (mainStep taskNum) ⟨pools,rest,0,none,.loop i⟩ (List.replicate (3*n+2) none) =
        .next ⟨r.pools,r.rest,0,r.msrThread,.ready⟩ := by
  induction n generalizing pools s i rest made with
  | zero =>
    have hdone : ¬ i < taskNum := by omega
    exact ⟨_,_,rfl,by simp [List.replicate_succ,mainStep,hdone,succeeding]⟩
  | succ n ih =>
    obtain ⟨pools',s',hpools,hp',hs'⟩ := onApiRequest_add hp h
    obtain ⟨r,made',hloop,hrun⟩ := ih (by omega) hp' hs' (((msrResInfoInit rest).1).getD rest)
      (made ++ [0] ++ [0])
    refine ⟨r,made',?_,?_⟩
    · simpa [msrInitLoop,succeeding,hpools] using hloop
    · have hi : i < taskNum := by omega
      simp only [onApiRequest,poolAdd,List.map_cons,List.map_nil,run_cons,run_nil,
        Outcome.bind_eq_next,Outcome.next.injEq] at hpools
      obtain ⟨w₁,hw₁,w₂,hw₂,w₃,hw₃,rfl⟩ := hpools
      rw [show 3*(n+1)+2 = 3*n+2+1+1+1 by omega]
      simp only [List.replicate_succ,run_cons,mainStep,if_pos hi,msrResInfoInit,resInfoInit,
        Module.onPool,hw₁,hw₂,hw₃,Outcome.next_bind]
      exact hrun

theorem initedPools_apiRequest (taskNum : Int) (calls : Calls) :
    (initedPools taskNum calls)[apiRequest]? = some staticPool := by
  unfold initedPools
  split <;> rfl

variable {taskNum : Int} {calls : Calls} {l l' : Locals}

theorem msrInit_zero (hl : l.ret = 0) : msrInit taskNum calls l =
    msrInitLoop calls (initedPools taskNum calls) Module.start.rest [calls.poolInit] 0
      taskNum.toNat := by
  simp [msrInit,hl]

def closedPool : Pool.State PoolFunction Unit :=
  ⟨.empty,⟨.null,none,none,0,0,1⟩,[],[],.returned 0,.empty⟩

theorem msrInit_nonzero (taskNum : Int) (calls : Calls) (hl : l.ret ≠ 0) :
    msrInit taskNum calls l = .next (⟨msrFail,(initedPools taskNum calls).set apiRequest closedPool,
      Module.start.rest,none⟩,[calls.poolInit]) := by
  have hfini : run Pool.step staticPool msrFini = .next closedPool := rfl
  have hrun := run_worldStep (initedPools_apiRequest taskNum calls) hfini
  simp only [msrInit,if_pos hl.symm,onApiRequest,hrun,Outcome.next_bind]

theorem not_leftOpen_closed (pools : World PoolFunction Unit) :
    ¬ LeftOpen (pools.set apiRequest closedPool) := by
  rintro ⟨q,hq,hopen⟩
  obtain ⟨-,rfl⟩ | ⟨hne,-⟩ := getElem?_set_cases hq
  · simp [closedPool] at hopen
  · exact hne rfl

theorem msrInit_returns (taskNum : Int) (calls : Calls) (hl : l.ret = 0) :
    ∃ r made, msrInit taskNum calls l = .next (r,made) ∧ LeftOpen r.pools ∧
      (r.ret ≠ 0 → ∃ ret ∈ made, ret ≠ 0) := by
  rw [msrInit_zero hl]
  exact msrInitLoop_returns calls (initedPools_apiRequest taskNum calls) added_static _ _ _

/-- Where `ret` happens to be 0 and all calls succeed, `msr_init` is the run that `mainStep`
goes through. -/
theorem msrInit_mainSteps (taskNum : Nat) (hl : l.ret = 0) : ∃ r made,
    msrInit taskNum succeeding l = .next (r,made) ∧
    run (mainStep taskNum) .start (none :: List.replicate (3*taskNum+2) none) =
      .next ⟨r.pools,r.rest,0,r.msrThread,.ready⟩ := by
  obtain ⟨r,made,hloop,hrun⟩ := msrInitLoop_mainSteps (Nat.zero_add taskNum)
    (initedPools_apiRequest taskNum succeeding) added_static Module.start.rest [0]
  refine ⟨r,made,?_,hrun⟩
  rw [msrInit_zero hl]
  exact hloop

theorem failsWithReason_zero (hl : l.ret = 0) : FailsWithReason taskNum calls l := by
  intro r made h hret
  obtain ⟨r',made',h',-,hreason⟩ := msrInit_returns taskNum calls hl
  obtain ⟨rfl,rfl⟩ := Outcome.next_unique h h'
  exact hreason (by simp [hret,msrFail])

theorem failsWithReason_nonzero (hl : l.ret ≠ 0) :
    FailsWithReason taskNum calls l ↔ calls.poolInit ≠ 0 := by
  have hinit := msrInit_nonzero taskNum calls hl
  constructor
  · intro h
    obtain ⟨ret,hm,hret⟩ := h _ _ hinit rfl
    obtain rfl := List.mem_singleton.mp hm
    exact hret
  · intro hpool r made h _
    obtain ⟨-,rfl⟩ := Outcome.next_unique hinit h
    exact ⟨_,by simp,hpool⟩

theorem not_sameResult (hl : l.ret = 0) (hl' : l'.ret ≠ 0) : ¬ SameResult taskNum calls l l' := by
  rintro ⟨r,made,made',h,h'⟩
  obtain ⟨_,_,hzero,hopen,-⟩ := msrInit_returns taskNum calls hl
  obtain ⟨rfl,-⟩ := Outcome.next_unique hzero h
  obtain ⟨rfl,-⟩ := Outcome.next_unique (msrInit_nonzero taskNum calls hl') h'
  exact not_leftOpen_closed _ hopen

theorem SameResult.symm (h : SameResult taskNum calls l l') : SameResult taskNum calls l' l := by
  obtain ⟨r,made,made',hr,hr'⟩ := h
  exact ⟨r,made',made,hr',hr⟩

/-- For every number of tasks and all results of the calls, two runs agree and fail only for
a reason exactly when `ret` is 0 in both, or is 0 in neither and the pool was not made. -/
theorem init_independent_iff (taskNum : Int) (calls : Calls) (l l' : Locals) :
    (SameResult taskNum calls l l' ∧ FailsWithReason taskNum calls l ∧
      FailsWithReason taskNum calls l') ↔
    (l.ret = 0 ∧ l'.ret = 0) ∨ (l.ret ≠ 0 ∧ l'.ret ≠ 0 ∧ calls.poolInit ≠ 0) := by
  by_cases hl : l.ret = 0
  · by_cases hl' : l'.ret = 0
    · refine iff_of_true ⟨?_,failsWithReason_zero hl,failsWithReason_zero hl'⟩ (.inl ⟨hl,hl'⟩)
      obtain ⟨r,made,h,-⟩ := msrInit_returns taskNum calls hl
      exact ⟨r,made,made,h,by rw [msrInit_zero hl',← msrInit_zero hl,h]⟩
    · refine iff_of_false (fun h => not_sameResult hl hl' h.1) ?_
      simp [hl,hl']
  · by_cases hl' : l'.ret = 0
    · refine iff_of_false (fun h => not_sameResult hl' hl h.1.symm) ?_
      simp [hl,hl']
    · have hsame : SameResult taskNum calls l l' :=
        ⟨_,_,_,msrInit_nonzero taskNum calls hl,msrInit_nonzero taskNum calls hl'⟩
      simp [hsame,failsWithReason_nonzero hl,failsWithReason_nonzero hl',hl,hl']

theorem init_depends_on_stack :
    ¬ (SameResult 2 succeeding ⟨0,0⟩ ⟨0,1⟩ ∧ FailsWithReason 2 succeeding ⟨0,0⟩ ∧
      FailsWithReason 2 succeeding ⟨0,1⟩) ∧
    (∃ r made, msrInit 2 succeeding ⟨0,0⟩ = .next (r,made) ∧ r.ret = 0) ∧
    (∃ r made, msrInit 2 succeeding ⟨0,1⟩ = .next (r,made) ∧ r.ret = msrFail ∧ made = [0]) :=
  ⟨fun h => not_sameResult rfl (by decide) h.1,⟨_,_,rfl,rfl⟩,⟨_,_,rfl,rfl,rfl⟩⟩

end IntelligentAcoustics.Msr
