import IntelligentAcoustics.MsrModule

/-!
What still runs when `msr_fini` has returned. The pool that is destroyed has no worker, the
pool that has them gets no task, and nothing stops `msr_thread`.
-/

set_option autoImplicit false

namespace IntelligentAcoustics.Msr
open Transition Pool ThreadList

def RequestPc.ended : RequestPc → Bool
  | .returned | .exited => true
  | _ => false

def Executing (s : Module) : Prop :=
  (∃ pool ∈ s.pools, ∃ task, .running task ∈ pool.workers) ∨
    ∃ t, s.msrThread = some t ∧ t.pc.ended = false

def WaitsFor (pool : Pool.State PoolFunction Unit) (tid : Nat) : Prop :=
  ∃ ids i, pool.destroyer = .join i ∧ i < pool.pool.maxRequestNum ∧
    pool.pool.pthreadID = .block ids ∧ ids[i]? = some tid

structure FiniStops (s : Module) : Prop where
  stopped : s.main = .done → ¬ Executing s
  told : ∀ pool tid task, s.pools[apiRequest]? = some pool → WaitsFor pool tid →
    pool.workers[tid]? = some (.running task) → s.reqMode ≠ 0

/-- `msr_fini` returns only after `TcpServerCreate` has failed in `msr_thread`. -/
def ReturnsAfterFailure (s : Module) (x : MsrAction) : Prop :=
  ∀ sleeper pool ret, x = .main sleeper → s.main = .fini → s.pools[apiRequest]? = some pool →
    pool.destroyer = .returned ret → ∃ t, s.msrThread = some t ∧ t.serverSocket < 0

structure Bare (q : Pool.State PoolFunction Unit) : Prop where
  workers : q.workers = []
  maxRequestNum : q.pool.maxRequestNum = 0

theorem Bare.step {q q' : Pool.State PoolFunction Unit} {a : Pool.Action PoolFunction Unit}
    (h : Bare q) (hs : Pool.step q a = .next q') : Bare q' := by
  have hnone : ∀ (i : Nat) (pc : WorkerPc), q.workers[i]? ≠ some pc := by simp [h.workers]
  cases a with
  | addStart process arg =>
    simp only [Pool.step,aiRequsetPoolAddStart,Outcome.next.injEq] at hs
    exact hs ▸ ⟨h.workers,h.maxRequestNum⟩
  | addAppend k =>
    obtain ⟨_,_,_,_,_,-,-,-,rfl⟩ := addAppend_next hs
    exact ⟨h.workers,h.maxRequestNum⟩
  | addSignal k sleeper =>
    obtain ⟨-,⟨i,hi,-⟩ | ⟨-,rfl⟩⟩ := addSignal_next hs
    · exact absurd hi (hnone i _)
    · exact ⟨h.workers,h.maxRequestNum⟩
  | test i =>
    obtain ⟨pc,hi,-⟩ := Pool.test_next hs
    exact absurd hi (hnone i pc)
  | sleep i => exact absurd (sleep_next hs).1 (hnone i _)
  | wakeup i => exact absurd (wakeup_next hs).1 (hnone i _)
  | invoke i =>
    obtain ⟨task,-,hi,-⟩ := invoke_next hs
    exact absurd hi (hnone i _)
  | taskReturn i =>
    obtain ⟨task,hi,-⟩ := taskReturn_next hs
    exact absurd hi (hnone i _)
  | free i =>
    obtain ⟨task,-,hi,-⟩ := free_next hs
    exact absurd hi (hnone i _)
  | exit i => exact absurd (exit_next hs).1 (hnone i _)
  | destroyTest =>
    obtain ⟨-,⟨-,rfl⟩ | ⟨-,rfl⟩⟩ := destroyTest_next hs
    · exact ⟨h.workers,h.maxRequestNum⟩
    · exact ⟨h.workers,h.maxRequestNum⟩
  | destroyWrite =>
    obtain ⟨-,rfl⟩ := destroyWrite_next hs
    exact ⟨h.workers,h.maxRequestNum⟩
  | destroyBroadcast =>
    obtain ⟨-,rfl⟩ := destroyBroadcast_next hs
    exact ⟨by simp [h.workers],h.maxRequestNum⟩
  | destroyJoin =>
    obtain ⟨i,-,⟨_,tid,-,-,-,ht,-⟩ | ⟨-,rfl⟩⟩ := destroyJoin_next hs
    · exact absurd ht (hnone tid _)
    · exact ⟨h.workers,h.maxRequestNum⟩
  | destroyFreeIds =>
    obtain ⟨-,ids,-,rfl⟩ := destroyFreeIds_next hs
    exact ⟨h.workers,h.maxRequestNum⟩
  | destroyDrain =>
    obtain ⟨-,⟨-,rfl⟩ | ⟨_,_,-,-,rfl⟩⟩ := destroyDrain_next hs
    · exact ⟨h.workers,h.maxRequestNum⟩
    · exact ⟨h.workers,h.maxRequestNum⟩

def idlePcs : List WorkerPc := [.lock,.wait,.asleep,.woken]

structure Idling (q : Pool.State PoolFunction Unit) : Prop where
  size : q.pool.curRequestSize = 0
  shutdown : q.pool.shutdown = 0
  workers : ∀ pc ∈ q.workers, pc ∈ idlePcs

theorem Idling.set {q : Pool.State PoolFunction Unit} (h : Idling q) (i : Nat) {pc : WorkerPc}
    (hpc : pc ∈ idlePcs) : ∀ c ∈ q.workers.set i pc, c ∈ idlePcs := by
  intro c hc
  rcases List.mem_or_eq_of_mem_set hc with hc | rfl
  · exact h.workers c hc
  · exact hpc

theorem Idling.step {q q' : Pool.State PoolFunction Unit} {a : Pool.Action PoolFunction Unit}
    (h : Idling q) (ha : a.isWorker = true) (hs : Pool.step q a = .next q') : Idling q' := by
  have hbusy : ∀ (i : Nat) (pc : WorkerPc), pc ∉ idlePcs → q.workers[i]? ≠ some pc :=
    fun i pc hpc hi => hpc (h.workers pc (List.mem_of_getElem? hi))
  cases a with
  | test i =>
    obtain ⟨pc,-,-,-,⟨-,-,rfl⟩ | ⟨hd,-⟩ | ⟨hz,-,-⟩⟩ := Pool.test_next hs
    · exact ⟨h.size,h.shutdown,h.set i (by decide)⟩
    · exact absurd h.shutdown hd
    · exact absurd h.size hz
  | sleep i =>
    obtain ⟨-,rfl⟩ := sleep_next hs
    exact ⟨h.size,h.shutdown,h.set i (by decide)⟩
  | wakeup i =>
    obtain ⟨-,rfl⟩ := wakeup_next hs
    exact ⟨h.size,h.shutdown,h.set i (by decide)⟩
  | invoke i =>
    obtain ⟨task,-,hi,-⟩ := invoke_next hs
    exact absurd hi (hbusy i _ (by simp [idlePcs]))
  | taskReturn i =>
    obtain ⟨task,hi,-⟩ := taskReturn_next hs
    exact absurd hi (hbusy i _ (by simp [idlePcs]))
  | free i =>
    obtain ⟨task,-,hi,-⟩ := free_next hs
    exact absurd hi (hbusy i _ (by simp [idlePcs]))
  | exit i => exact absurd (exit_next hs).1 (hbusy i _ (by simp [idlePcs]))
  | _ => simp [Action.isWorker] at ha

/-- `api_request` never gets a worker, and the pool that has them never gets a task. -/
structure Apart (w : World PoolFunction Unit) : Prop where
  bare : ∀ q, w[apiRequest]? = some q → Bare q
  idling : ∀ p q, w[p]? = some q → p ≠ apiRequest → Idling q
  inited : w ≠ []

theorem Apart.poolStep {w w' : World PoolFunction Unit} {p : Nat}
    {a : Pool.Action PoolFunction Unit} (h : Apart w) (ha : p = apiRequest ∨ a.isWorker = true)
    (hs : worldStep w (p,a) = .next w') : Apart w' := by
  obtain ⟨q,q',hq,hstep,rfl⟩ := worldStep_next hs
  refine ⟨fun r hr => ?_,fun i r hr hi => ?_,by simpa using h.inited⟩
  · rcases getElem?_set_cases hr with ⟨hp,rfl⟩ | ⟨-,hr⟩
    · exact (h.bare q (hp ▸ hq)).step hstep
    · exact h.bare r hr
  · rcases getElem?_set_cases hr with ⟨rfl,rfl⟩ | ⟨-,hr⟩
    · exact (h.idling _ q hq hi).step (ha.resolve_left hi) hstep
    · exact h.idling i r hr hi

theorem Apart.init {w : World PoolFunction Unit} (h : Apart w) (p n : Nat) :
    Apart (aiRequsetPoolInit w p n).1 := by
  have hpos : 0 < w.length := List.length_pos_iff.mpr h.inited
  have hnew : Idling (started n) := ⟨rfl,rfl,fun pc hpc => by
    simp [List.eq_of_mem_replicate hpc,idlePcs]⟩
  refine ⟨fun q hq => h.bare q ?_,fun i q hq hi => ?_,by simp [aiRequsetPoolInit]⟩
  · exact (List.getElem?_append_left hpos).symm.trans hq
  · simp only [aiRequsetPoolInit,List.getElem?_append] at hq
    split at hq
    · exact h.idling i q hq hi
    · have hm := List.mem_of_getElem? hq
      simp only [List.mem_singleton] at hm
      exact hm ▸ hnew

theorem Apart.not_running {w : World PoolFunction Unit} (h : Apart w)
    {pool : Pool.State PoolFunction Unit} (hp : pool ∈ w) (task : Pool.Addr) :
    .running task ∉ pool.workers := by
  intro ht
  obtain ⟨i,hi⟩ := List.getElem?_of_mem hp
  by_cases hz : i = apiRequest
  · simp [(h.bare pool (hz ▸ hi)).workers] at ht
  · simpa [idlePcs] using (h.idling i pool hi hz).workers _ ht

structure Quiet (s : Module) : Prop where
  reqMode : s.reqMode = 0
  pools : Apart s.pools
  thread : ∀ t, s.msrThread = some t → (t.serverSocket < 0 ↔ t.pc = .returned)
  created : s.main.threadCreated = true → s.msrThread ≠ none

theorem thread_step {rest : RecordInfo} {t : Request} {a : RequestAction} {u : Turn}
    (h : t.serverSocket < 0 ↔ t.pc = .returned)
    (hs : requestProcess 0 rest t a = .next u) :
    t.pc.ended = false ∧ (u.request.serverSocket < 0 ↔ u.request.pc = .returned) := by
  cases a with
  | create serverSocket bind listen =>
    obtain ⟨hpc,⟨hneg,rfl⟩ | ⟨hpos,recmd,rfl⟩⟩ := create_next hs
    · exact ⟨by simp [hpc,RequestPc.ended],by simp [hneg]⟩
    · exact ⟨by simp [hpc,RequestPc.ended],by simpa using hpos⟩
  | test =>
    obtain ⟨hpc,rfl⟩ := Msr.test_next hs
    exact ⟨by simp [hpc,RequestPc.ended],by simpa [hpc] using h⟩
  | accept sel acceptfd =>
    obtain ⟨hpc,rfl | ⟨client,rfl⟩⟩ := accept_next hs
    · exact ⟨by simp [hpc,RequestPc.ended],by simpa [hpc] using h⟩
    · exact ⟨by simp [hpc,RequestPc.ended],by simpa [hpc] using h⟩
  | recv results =>
    obtain ⟨_,_,_,hpc,-,rfl⟩ := recv_next hs
    exact ⟨by simp [hpc,RequestPc.ended],by simpa [hpc] using h⟩
  | recordTest =>
    obtain ⟨hpc,rfl⟩ := recordTest_next hs
    refine ⟨by simp [hpc,RequestPc.ended],?_⟩
    rw [hpc] at h
    show t.serverSocket < 0 ↔ (if rest.recordParam = recordStart then RequestPc.record
      else .pythonCmd) = .returned
    split <;> simpa using h
  | record =>
    obtain ⟨hpc,rfl⟩ := record_next hs
    exact ⟨by simp [hpc,RequestPc.ended],by simpa [hpc] using h⟩
  | recordFinish =>
    obtain ⟨hpc,rfl⟩ := recordFinish_next hs
    exact ⟨by simp [hpc,RequestPc.ended],by simpa [hpc] using h⟩
  | fork pid =>
    obtain ⟨hpc,rfl⟩ := fork_next hs
    refine ⟨by simp [hpc,RequestPc.ended],?_⟩
    rw [hpc] at h
    show t.serverSocket < 0 ↔ forked pid = .returned
    unfold forked
    split
    · simpa using h
    · split
      · simpa using h
      · split <;> simpa using h
  | baiduRequest =>
    obtain ⟨hpc,rfl⟩ := baiduRequest_next hs
    exact ⟨by simp [hpc,RequestPc.ended],by simpa [hpc] using h⟩
  | waitpid =>
    obtain ⟨_,hpc,rfl⟩ := waitpid_next hs
    exact ⟨by simp [hpc,RequestPc.ended],by simpa [hpc] using h⟩

theorem Quiet.main {n : Nat} {s s' : Module} {sleeper : Option Nat} (h : Quiet s)
    (hs : mainStep n s sleeper = .next s') : Quiet s' := by
  obtain ⟨a,w,rest,main,hw,-,hc,rfl⟩ | rfl | rfl | rfl | ⟨hm,rfl⟩ | ⟨hm,rfl,-⟩ := mainStep_next hs
  · exact ⟨h.reqMode,h.pools.poolStep (.inl rfl) hw,h.thread,fun ht => h.created (hc ht)⟩
  · exact ⟨h.reqMode,h.pools.init apiRequest n,h.thread,by simp [MainPc.threadCreated]⟩
  · exact ⟨h.reqMode,h.pools,h.thread,by simp [MainPc.threadCreated]⟩
  · refine ⟨h.reqMode,h.pools,fun t ht => ?_,by simp⟩
    obtain rfl := Option.some.inj ht
    simp [Request.start]
  · exact ⟨h.reqMode,h.pools,h.thread,fun _ => h.created (by simp [hm,MainPc.threadCreated])⟩
  · exact ⟨h.reqMode,h.pools,h.thread,fun _ => h.created (by simp [hm,MainPc.threadCreated])⟩

theorem Quiet.step {n : Nat} {s s' : Module} {x : MsrAction} (h : Quiet s)
    (hs : moduleStep n s x = .next s') : Quiet s' := by
  obtain ⟨-,⟨_,-,hm⟩ | ⟨p,a,w,-,ha,hw,rfl⟩ | ⟨a,t,u,-,ht,hu,rfl⟩⟩ := moduleStep_next hs
  · exact h.main hm
  · exact ⟨h.reqMode,h.pools.poolStep (.inr ha) hw,h.thread,h.created⟩
  · rw [h.reqMode] at hu
    refine ⟨h.reqMode,h.pools,fun t' ht' => ?_,by simp⟩
    simp only [Option.some.injEq] at ht'
    exact ht' ▸ (thread_step (h.thread t ht) hu).2

theorem Quiet.finiStops_iff {s : Module} (h : Quiet s) :
    FiniStops s ↔ (s.main = .done → ∀ t, s.msrThread = some t → t.pc.ended = true) := by
  constructor
  · intro hf hd t ht
    by_contra he
    exact hf.stopped hd (.inr ⟨t,ht,by simpa using he⟩)
  · intro hd
    refine ⟨fun hm he => ?_,fun pool tid task hp _ ht => ?_⟩
    · obtain ⟨pool,hp,task,ht⟩ | ⟨t,ht,he⟩ := he
      · exact h.pools.not_running hp task ht
      · simp [hd hm t ht] at he
    · exact absurd (List.mem_of_getElem? ht) (h.pools.not_running (List.mem_of_getElem? hp) task)

theorem quiet_start : Quiet .start := by
  refine ⟨rfl,⟨fun q hq => ?_,fun p q hq hp => ?_,by simp [Module.start]⟩,by simp [Module.start],
    by simp [Module.start,MainPc.threadCreated]⟩
  · obtain rfl : staticPool = q := by simpa [Module.start,apiRequest] using hq
    exact ⟨rfl,rfl⟩
  · have hlt := (List.getElem?_eq_some_iff.mp hq).1
    simp only [Module.start,List.length_singleton] at hlt
    exact absurd (Nat.lt_one_iff.mp hlt) hp

theorem mainStep_done {n : Nat} {s s' : Module} {sleeper : Option Nat}
    (hs : mainStep n s sleeper = .next s') (hd : s'.main = .done) :
    s.main = .fini ∧ s'.msrThread = s.msrThread ∧
      ∃ pool ret, s.pools[apiRequest]? = some pool ∧ pool.destroyer = .returned ret := by
  obtain ⟨_,_,_,main,-,hne,-,rfl⟩ | rfl | rfl | rfl | ⟨-,rfl⟩ | ⟨hm,rfl,hp⟩ := mainStep_next hs
  · exact absurd hd hne
  · simp at hd
  · simp at hd
  · simp at hd
  · simp at hd
  · exact ⟨hm,rfl,hp⟩

theorem mainStep_return {n : Nat} {s s' : Module} {sleeper : Option Nat}
    {pool : Pool.State PoolFunction Unit} {ret : Int} (hs : mainStep n s sleeper = .next s')
    (hm : s.main = .fini) (hp : s.pools[apiRequest]? = some pool)
    (hr : pool.destroyer = .returned ret) : s' = { s with main := .done } := by
  simp only [mainStep,hm,hp,hr,destroyAction,Outcome.next.injEq] at hs
  exact hs.symm

theorem Quiet.finiStops_step {n : Nat} {s s' : Module} {x : MsrAction} (h : Quiet s)
    (hf : FiniStops s) (hs : moduleStep n s x = .next s') :
    FiniStops s' ↔ ReturnsAfterFailure s x := by
  rw [(h.step hs).finiStops_iff]
  have hdone := h.finiStops_iff.mp hf
  obtain ⟨hex,⟨sleeper,rfl,hm⟩ | ⟨p,a,w,rfl,-,-,rfl⟩ | ⟨a,t,u,rfl,ht,hu,rfl⟩⟩ := moduleStep_next hs
  · constructor
    · intro hd _ pool ret _ hfini hp hr
      have hs' := mainStep_return hm hfini hp hr
      have hc : s.msrThread ≠ none := h.created (by simp [hfini,MainPc.threadCreated])
      obtain ⟨t,ht⟩ := Option.ne_none_iff_exists'.mp hc
      have he := hd (by simp [hs']) t (by simpa [hs'] using ht)
      refine ⟨t,ht,(h.thread t ht).mpr ?_⟩
      have hne := hex t ht
      cases hpc : t.pc <;> simp_all [RequestPc.ended]
    · intro hg hd t ht
      obtain ⟨hfini,hthread,pool,ret,hp,hr⟩ := mainStep_done hm hd
      obtain ⟨t',ht',hneg⟩ := hg sleeper pool ret rfl hfini hp hr
      rw [hthread,ht'] at ht
      obtain rfl := Option.some.inj ht
      simp [(h.thread t' ht').mp hneg,RequestPc.ended]
  · exact iff_of_true hdone (by intro _ _ _ hx; simp at hx)
  · refine iff_of_true (fun hd t' _ => ?_) (by intro _ _ _ hx; simp at hx)
    have hrun := (thread_step (h.thread t ht) (h.reqMode ▸ hu)).1
    simp [hdone hd t ht] at hrun

/-- For every number of tasks and every schedule: nothing executes `request_process` after
`msr_fini` if and only if `msr_thread` never got its server socket. -/
theorem msr_fini_stops_iff (taskNum : Nat) (as : List MsrAction) :
    Always (moduleStep taskNum) FiniStops .start as ↔
      Along (moduleStep taskNum) ReturnsAfterFailure .start as :=
  always_iff_along_of_invariant (I := Quiet) (fun _ _ _ h hs => h.step hs)
    (fun _ _ _ h hf hs => h.finiStops_step hf hs) quiet_start
    (quiet_start.finiStops_iff.mpr (by simp [Module.start])) as

def initFini : List MsrAction :=
  [.main none,.main none,.main none,.main none,.main none,.main none,
   .thread (.create 3 0 0),.main none,.main none,.main none,.main none,.main none,.main none,
   .main none,.main none,.main none,.thread .test]

theorem msr_thread_survives : ∃ s,
    run (moduleStep 1) .start initFini = .next s ∧ s.main = .done ∧
      s.msrThread.map Request.pc = some .accept ∧ ¬ FiniStops s :=
  ⟨_,rfl,rfl,rfl,fun h => h.stopped rfl (.inr ⟨_,rfl,rfl⟩)⟩

end IntelligentAcoustics.Msr
