import IntelligentAcoustics.Library.ThreadList
import IntelligentAcoustics.RequestTrace

/-!
The threads that `msr_init` starts in `request_process`: the workers of the pool and one of
its own, with one `rest_info` and one port for all of them. Meanwhile `msr_init` may still
call `res_info_init` for the next task.
-/

set_option autoImplicit false

namespace IntelligentAcoustics.Msr
open Transition ThreadList

/-- `bound` is whether a socket has `REC_SERVER_PORT`. None is ever closed. -/
structure Station where
  rest : RecordInfo
  threads : List Request
  bound : Bool
  log : List Event
  deriving DecidableEq, Repr

/-- From the first `res_info_init` on. -/
def Station.start (n : Nat) : Station := ⟨restInfo,List.replicate n .start,false,[]⟩

def RequestAction.binds : RequestAction → Bool
  | .create serverSocket bind _ => 0 ≤ serverSocket && 0 ≤ bind
  | .test | .accept _ _ | .recv _ | .recordTest | .record | .recordFinish | .fork _ |
    .baiduRequest | .waitpid => false

inductive StationAction where
  | thread (i : Nat) (a : RequestAction)
  | resInfoInit
  deriving DecidableEq, Repr

/-- The kernel gives the port to one socket. -/
def stationStep (s : Station) : StationAction → Outcome Station
  | .resInfoInit => .next { s with rest := (msrResInfoInit s.rest).1.getD s.rest }
  | .thread i a =>
    match s.threads[i]? with
    | none => .blocked
    | some t =>
      if a ≠ .fork 0 ∧ (a.binds = true → s.bound = false) then
        (requestProcess 0 s.rest t a).bind fun u =>
          .next ⟨u.rest,s.threads.set i u.request,s.bound || a.binds,s.log ++ u.events⟩
      else .blocked

theorem stationStep_next {s s' : Station} {i : Nat} {a : RequestAction}
    (h : stationStep s (.thread i a) = .next s') : ∃ t u, s.threads[i]? = some t ∧
      a ≠ .fork 0 ∧ (a.binds = true → s.bound = false) ∧
      requestProcess 0 s.rest t a = .next u ∧
      s' = ⟨u.rest,s.threads.set i u.request,s.bound || a.binds,s.log ++ u.events⟩ := by
  simp only [stationStep] at h
  split at h
  · simp at h
  · rename_i t ht
    simp only [guard_eq_next,Outcome.map_eq_next] at h
    obtain ⟨⟨hfork,hbinds⟩,u,hu,rfl⟩ := h
    exact ⟨t,u,ht,hfork,hbinds,hu,rfl⟩

theorem request_next {rest : RecordInfo} {t : Request} {a : RequestAction} {u : Turn}
    (h : requestProcess 0 rest t a = .next u) : t.pc.beyond = true ∧ a.binds = false ∨
      t.pc = .create ∧ ∃ serverSocket bind listen, a = .create serverSocket bind listen := by
  cases a with
  | create serverSocket bind listen => exact .inr ⟨(create_next h).1,_,_,_,rfl⟩
  | test => exact .inl (by simp [(test_next h).1,RequestPc.beyond,RequestAction.binds])
  | accept sel acceptfd =>
    exact .inl (by simp [(accept_next h).1,RequestPc.beyond,RequestAction.binds])
  | recv results =>
    obtain ⟨_,_,_,hpc,-⟩ := recv_next h
    exact .inl (by simp [hpc,RequestPc.beyond,RequestAction.binds])
  | recordTest => exact .inl (by simp [(recordTest_next h).1,RequestPc.beyond,RequestAction.binds])
  | record => exact .inl (by simp [(record_next h).1,RequestPc.beyond,RequestAction.binds])
  | recordFinish =>
    exact .inl (by simp [(recordFinish_next h).1,RequestPc.beyond,RequestAction.binds])
  | fork pid => exact .inl (by simp [(fork_next h).1,RequestPc.beyond,RequestAction.binds])
  | baiduRequest =>
    exact .inl (by simp [(baiduRequest_next h).1,RequestPc.beyond,RequestAction.binds])
  | waitpid =>
    obtain ⟨_,hpc,-⟩ := waitpid_next h
    exact .inl (by simp [hpc,RequestPc.beyond,RequestAction.binds])

theorem binds_of_create {serverSocket bind listen : Int}
    (h : 0 ≤ tcpServerCreate serverSocket bind listen) :
    (RequestAction.create serverSocket bind listen).binds = true := by
  simp only [tcpServerCreate] at h
  simp only [RequestAction.binds,Bool.and_eq_true,decide_eq_true_eq]
  split_ifs at h <;> omega

theorem beyond_next {rest : RecordInfo} {t : Request} {a : RequestAction} {u : Turn}
    (h : requestProcess 0 rest t a = .next u) (hu : u.request.pc.beyond = true) :
    t.pc.beyond = true ∨ a.binds = true := by
  rcases request_next h with ⟨ht,-⟩ | ⟨-,serverSocket,bind,listen,rfl⟩
  · exact .inl ht
  · obtain ⟨-,⟨-,rfl⟩ | ⟨hs,-⟩⟩ := create_next h
    · simp [RequestPc.beyond] at hu
    · exact .inr (binds_of_create hs)

structure Guarded (s : Station) (owner : Option Nat) : Prop where
  bound : s.bound = true ↔ owner ≠ none
  others : ∀ i t, s.threads[i]? = some t → t.pc.beyond = true → owner = some i

theorem Guarded.thread {s s' : Station} {owner : Option Nat} {i : Nat} {a : RequestAction}
    (h : Guarded s owner) (hs : stationStep s (.thread i a) = .next s') :
    Guarded s' (if a.binds then some i else owner) := by
  obtain ⟨t,u,ht,-,hbinds,hu,rfl⟩ := stationStep_next hs
  cases hb : a.binds with
  | true =>
    have hfree := hbinds hb
    have hnone : owner = none := by
      by_contra hne
      simp [h.bound.mpr hne] at hfree
    refine ⟨by simp,fun j r hr hbeyond => ?_⟩
    rcases getElem?_set_cases hr with ⟨rfl,-⟩ | ⟨-,hr⟩
    · rfl
    · exact absurd ((h.others j r hr hbeyond).symm.trans hnone) (by simp)
  | false =>
    refine ⟨by simpa using h.bound,fun j r hr hbeyond => ?_⟩
    rcases getElem?_set_cases hr with ⟨rfl,rfl⟩ | ⟨-,hr⟩
    · rcases beyond_next hu hbeyond with hbefore | hb'
      · exact h.others _ t ht hbefore
      · simp [hb] at hb'
    · exact h.others j r hr hbeyond

theorem guarded_start (n : Nat) : Guarded (.start n) none := by
  refine ⟨by simp [Station.start],fun i t ht hbeyond => ?_⟩
  obtain rfl := List.eq_of_mem_replicate (List.mem_of_getElem? ht)
  simp [Request.start,RequestPc.beyond] at hbeyond

theorem guarded_run {n : Nat} {s : Station} {as : List StationAction}
    (h : run stationStep (.start n) as = .next s) : ∃ owner, Guarded s owner := by
  refine invariant_run (I := fun s => ∃ owner, Guarded s owner) ?_ h ⟨none,guarded_start n⟩
  rintro s a t ⟨owner,hg⟩ hs
  cases a with
  | thread i a => exact ⟨_,hg.thread hs⟩
  | resInfoInit =>
    obtain rfl := Outcome.next.inj hs
    exact ⟨owner,hg.bound,hg.others⟩

/-- Over every run of any number of threads: at most one of them serves clients. -/
theorem one_thread_serves {n : Nat} {s : Station} {as : List StationAction}
    (h : run stationStep (.start n) as = .next s) {i j : Nat} {t u : Request}
    (hi : s.threads[i]? = some t) (hj : s.threads[j]? = some u) (ht : t.pc.beyond = true)
    (hu : u.pc.beyond = true) : i = j := by
  obtain ⟨owner,hg⟩ := guarded_run h
  exact Option.some.inj ((hg.others i t hi ht).symm.trans (hg.others j u hj hu))

/-! ### The recordings that are lost -/

theorem pending_init {recordParam : Int} {rounds : List Round} {log : List Event} {inits : Nat}
    {pc : RequestPc} (h : Pending restInfo recordParam rounds log inits pc) :
    Pending restInfo recordFinish rounds log (inits+1) pc := by
  have hne : recordFinish ≠ recordStart := by decide
  cases pc with
  | recordTest =>
    obtain ⟨b,hlog,-,hlost⟩ := h
    refine ⟨b,hlog,fun hs => absurd hs hne,?_⟩
    split <;> omega
  | record | recordFinish =>
    obtain ⟨b,hlog,hb,hlost⟩ := h
    exact ⟨b,hlog,hb,Nat.le_succ_of_le hlost⟩
  | pythonCmd =>
    obtain ⟨-,r,hr,hlog,hlost⟩ := h
    exact ⟨hne,r,hr,hlog,Nat.le_succ_of_le hlost⟩
  | create | head | accept | recv client | child | waitpid pid | returned | exited =>
    exact ⟨hne,h.2.1,Nat.le_succ_of_le h.2.2⟩

theorem failed_next {rest : RecordInfo} {t : Request} {a : RequestAction} {u : Turn}
    (h : requestProcess 0 rest t a = .next u) (ht : t.pc.beyond = false) (hb : a.binds = false) :
    u.rest = rest ∧ u.events = [] := by
  rcases request_next h with ⟨hbeyond,-⟩ | ⟨-,_,_,_,rfl⟩
  · simp [ht] at hbeyond
  · obtain ⟨-,⟨-,rfl⟩ | ⟨hs,-⟩⟩ := create_next h
    · exact ⟨rfl,rfl⟩
    · simp [binds_of_create hs] at hb

/-- All threads together: while nobody has the port it is as if a thread were to begin. -/
structure Accounted (s : Station) (owner : Option Nat) (rounds : List Round) (log : List Event)
    (inits : Nat) : Prop where
  guarded : Guarded s owner
  logged : s.log = rounds.flatMap Round.events ++ log
  free : owner = none → Serves restInfo s.rest .start rounds log inits
  serves : ∀ i, owner = some i → ∃ t, s.threads[i]? = some t ∧
    Serves restInfo s.rest t rounds log inits

section
variable {s s' : Station} {owner : Option Nat} {rounds : List Round} {log : List Event}
  {inits : Nat}

theorem Accounted.served {i : Nat} {t : Request} {a : RequestAction} {u : Turn} {bound : Bool}
    (h : Accounted s owner rounds log inits) (ht : s.threads[i]? = some t)
    (hserves : Serves restInfo s.rest t rounds log inits)
    (hu : requestProcess 0 s.rest t a = .next u)
    (hg : Guarded ⟨u.rest,s.threads.set i u.request,bound,s.log ++ u.events⟩ (some i)) :
    ∃ rounds' log', Accounted ⟨u.rest,s.threads.set i u.request,bound,s.log ++ u.events⟩ (some i)
      rounds' log' inits := by
  obtain ⟨rounds',log',hlog,hserves'⟩ := hserves.step hu
  have hlt := (List.getElem?_eq_some_iff.mp ht).1
  refine ⟨rounds',log',hg,?_,by simp,fun j hj => ?_⟩
  · rw [h.logged,hlog]
  · obtain rfl := Option.some.inj hj
    exact ⟨u.request,by simp [hlt],hserves'⟩

theorem Accounted.thread {i : Nat} {a : RequestAction} (h : Accounted s owner rounds log inits)
    (hs : stationStep s (.thread i a) = .next s') :
    ∃ owner' rounds' log', Accounted s' owner' rounds' log' inits := by
  have hguarded := h.guarded.thread hs
  obtain ⟨t,u,ht,-,hbinds,hu,rfl⟩ := stationStep_next hs
  by_cases hown : owner = some i
  · obtain ⟨t',ht',hserves⟩ := h.serves i hown
    obtain rfl := Option.some.inj (ht.symm.trans ht')
    rw [hown,ite_self] at hguarded
    exact ⟨_,h.served ht hserves hu hguarded⟩
  have hbefore : t.pc.beyond = false := by
    by_contra hbeyond
    exact hown (h.guarded.others i t ht (by simpa using hbeyond))
  by_cases hb : a.binds = true
  · have hfree := hbinds hb
    have hnone : owner = none := by
      by_contra hne
      simp [h.guarded.bound.mpr hne] at hfree
    obtain ⟨hfields,hsound,-,hpending⟩ := h.free hnone
    have hserves : Serves restInfo s.rest t rounds log inits := by
      refine ⟨hfields,hsound,fun hbeyond => by simp [hbefore] at hbeyond,?_⟩
      rcases request_next hu with ⟨-,hno⟩ | ⟨hpc,-⟩
      · simp [hb] at hno
      · rw [hpc]
        exact hpending
    rw [if_pos hb] at hguarded
    exact ⟨_,h.served ht hserves hu hguarded⟩
  · obtain ⟨hrest,hevents⟩ := failed_next hu hbefore (by simpa using hb)
    rw [if_neg hb] at hguarded
    refine ⟨owner,rounds,log,hguarded,by simp [hevents,h.logged],fun hnone => ?_,fun j hj => ?_⟩
    · rw [hrest]
      exact h.free hnone
    · obtain ⟨t',ht',hserves⟩ := h.serves j hj
      have hne : i ≠ j := by
        rintro rfl
        exact hown hj
      exact ⟨t',(List.getElem?_set_ne hne).trans ht',hrest ▸ hserves⟩

theorem Serves.init {rest rest' : RecordInfo} {t : Request}
    (h : Serves restInfo rest t rounds log inits) (hr : rest' = restInfo) :
    Serves restInfo rest' t rounds log (inits+1) := by
  subst hr
  exact ⟨rfl,h.sound,h.recmd,pending_init h.pending⟩

theorem Accounted.init (h : Accounted s owner rounds log inits)
    (hs : stationStep s .resInfoInit = .next s') : Accounted s' owner rounds log (inits+1) := by
  obtain rfl := Outcome.next.inj hs
  refine ⟨⟨h.guarded.bound,h.guarded.others⟩,h.logged,fun hnone => (h.free hnone).init rfl,
    fun i hi => ?_⟩
  obtain ⟨t,ht,hserves⟩ := h.serves i hi
  exact ⟨t,ht,hserves.init rfl⟩

theorem accounted_run {as : List StationAction} (h : Accounted s owner rounds log inits)
    (hs : run stationStep s as = .next s') : ∃ owner' rounds' log',
      Accounted s' owner' rounds' log' (inits + as.count .resInfoInit) := by
  induction as generalizing s owner rounds log inits with
  | nil =>
    obtain rfl := Outcome.next.inj hs
    exact ⟨owner,rounds,log,h⟩
  | cons a as ih =>
    simp only [run_cons,Outcome.bind_eq_next] at hs
    obtain ⟨s₁,hstep,hrest⟩ := hs
    cases a with
    | thread i a =>
      obtain ⟨owner₁,rounds₁,log₁,h₁⟩ := h.thread hstep
      simpa using ih h₁ hrest
    | resInfoInit =>
      obtain ⟨owner',rounds',log',h'⟩ := ih (h.init hstep) hrest
      refine ⟨owner',rounds',log',?_⟩
      rwa [List.count_cons_self,Nat.add_comm (as.count _),← Nat.add_assoc]

end

theorem accounted_start (n : Nat) : Accounted (.start n) none [] [] 0 :=
  ⟨guarded_start n,rfl,fun _ => ⟨rfl,by simp,by simp [Request.start,RequestPc.beyond],
    show Msr.recordFinish ≠ recordStart by decide,rfl,by simp [lostRounds]⟩,by simp⟩

/-- Over every run of any number of threads with any clients, while `res_info_init` may be
called at any time: the effects are those of one round for each client. Nothing is recorded
that was not asked for, and for each recording that was asked for and not made there was a
call of `res_info_init`. -/
theorem lost_recordings_bounded {n : Nat} {s : Station} {as : List StationAction}
    (h : run stationStep (.start n) as = .next s) :
    ∃ (rounds : List Round) (log : List Event), s.log = rounds.flatMap Round.events ++ log ∧
      (∀ r ∈ rounds, r.Sound restInfo) ∧ lostRounds rounds ≤ as.count .resInfoInit ∧
      ∃ r : Round, r.Sound restInfo ∧ log <+: r.events := by
  obtain ⟨owner,rounds,log,ha⟩ := accounted_run (accounted_start n) h
  rw [Nat.zero_add] at ha
  obtain ⟨t,hserves⟩ : ∃ t, Serves restInfo s.rest t rounds log (as.count .resInfoInit) := by
    cases owner with
    | none => exact ⟨_,ha.free rfl⟩
    | some i =>
      obtain ⟨t,-,hserves⟩ := ha.serves i rfl
      exact ⟨t,hserves⟩
  obtain ⟨r,hr,hpre,hlost⟩ := hserves.pending.begins
  rw [lostRounds_snoc] at hlost
  exact ⟨rounds,log,ha.logged,hserves.sound,Nat.le_of_add_right_le hlost,r,hr,hpre⟩

def recordingLost : List StationAction :=
  [.thread 1 (.create 3 0 0),.thread 0 (.create 4 (-1) 0),.thread 1 .test,
   .thread 1 (.accept ⟨1,true⟩ 5),.thread 1 (.recv [.data [48,0],.closed]),.resInfoInit,
   .thread 1 .recordTest,.thread 1 (.fork 100)]

def stationLost : Station :=
  match run stationStep (.start 3) recordingLost with
  | .next s => s
  | _ => .start 3

theorem recordingLost_run : run stationStep (.start 3) recordingLost = .next stationLost := rfl

theorem one_thread_serves_recordingLost : ∃ i, ∀ (j : Nat) (u : Request),
    stationLost.threads[j]? = some u → u.pc.beyond = true → j = i :=
  ⟨1,fun _ _ hj hu => one_thread_serves recordingLost_run hj rfl hu rfl⟩

theorem lost_recordings_bounded_recordingLost :
    ∃ (rounds : List Round) (log : List Event),
      stationLost.log = rounds.flatMap Round.events ++ log ∧ (∀ r ∈ rounds, r.Sound restInfo) ∧
        lostRounds rounds ≤ 1 ∧ ∃ r : Round, r.Sound restInfo ∧ log <+: r.events :=
  lost_recordings_bounded recordingLost_run

example : stationLost.log = [.conn (48 :: List.replicate 99 0),.pythonCmd] := by decide

/-! ### The port that is lost -/

structure Idle (s : Station) : Prop where
  log : s.log = []
  threads : ∀ (i : Nat) (t : Request), s.threads[i]? = some t → t.pc.beyond = false

theorem Idle.thread {s s' : Station} {i : Nat} {a : RequestAction} (h : Idle s)
    (hs : stationStep s (.thread i a) = .next s')
    (hb : a.binds = true → ∃ serverSocket bind listen, a = .create serverSocket bind listen ∧
      tcpServerCreate serverSocket bind listen < 0) : Idle s' := by
  obtain ⟨t,u,ht,-,-,hu,rfl⟩ := stationStep_next hs
  have hquiet : u.events = [] ∧ u.request.pc.beyond = false := by
    by_cases hbinds : a.binds = true
    · obtain ⟨serverSocket,bind,listen,rfl,hfails⟩ := hb hbinds
      obtain ⟨-,⟨-,rfl⟩ | ⟨hsock,-⟩⟩ := create_next hu
      · exact ⟨rfl,rfl⟩
      · omega
    · have hbefore := h.threads i t ht
      refine ⟨(failed_next hu hbefore (by simpa using hbinds)).2,?_⟩
      by_contra hbeyond
      rcases beyond_next hu (by simpa using hbeyond) with hafter | hafter
      · simp [hbefore] at hafter
      · exact hbinds hafter
  refine ⟨by simp [h.log,hquiet.1],fun j r hr => ?_⟩
  rcases getElem?_set_cases hr with ⟨rfl,rfl⟩ | ⟨-,hr⟩
  · exact hquiet.2
  · exact h.threads j r hr

theorem idle_free {s s' : Station} {a : StationAction} (h : s.bound = false → Idle s)
    (hs : stationStep s a = .next s') : s'.bound = false → Idle s' := by
  intro hfree
  cases a with
  | thread i a =>
    obtain ⟨_,_,_,_,_,_,rfl⟩ := stationStep_next hs
    obtain ⟨hbefore,hbinds⟩ := Bool.or_eq_false_iff.mp hfree
    exact (h hbefore).thread hs (by simp [hbinds])
  | resInfoInit =>
    obtain rfl := Outcome.next.inj hs
    exact ⟨(h hfree).log,(h hfree).threads⟩

theorem idle_taken {s s' : Station} {a : StationAction} (h : s.bound = true ∧ Idle s)
    (hs : stationStep s a = .next s') : s'.bound = true ∧ Idle s' := by
  cases a with
  | thread i a =>
    obtain ⟨_,_,_,_,hbinds,_,rfl⟩ := stationStep_next hs
    exact ⟨Bool.or_eq_true_iff.mpr (.inl h.1),
      h.2.thread hs fun hb => absurd (hbinds hb) (by simp [h.1])⟩
  | resInfoInit =>
    obtain rfl := Outcome.next.inj hs
    exact ⟨h.1,h.2.log,h.2.threads⟩

theorem idle_run {s s' : Station} {as : List StationAction} {i : Nat}
    {serverSocket bind listen : Int} (hsocket : 0 ≤ serverSocket) (hbind : 0 ≤ bind)
    (hlisten : listen < 0) (h : s.bound = false → Idle s) (hs : run stationStep s as = .next s')
    (hm : .thread i (.create serverSocket bind listen) ∈ as) : Idle s' := by
  induction as generalizing s with
  | nil => simp at hm
  | cons a as ih =>
    simp only [run_cons,Outcome.bind_eq_next] at hs
    obtain ⟨s₁,hstep,hrest⟩ := hs
    rcases List.mem_cons.mp hm with rfl | hm
    · have hbinds : (RequestAction.create serverSocket bind listen).binds = true := by
        simp [RequestAction.binds,hsocket,hbind]
      have hfails : tcpServerCreate serverSocket bind listen < 0 := by
        simp only [tcpServerCreate]
        split_ifs <;> omega
      have hidle : s₁.bound = true ∧ Idle s₁ := by
        obtain ⟨_,_,_,-,hfree,_,rfl⟩ := stationStep_next hstep
        exact ⟨Bool.or_eq_true_iff.mpr (.inr hbinds),
          (h (hfree hbinds)).thread hstep fun _ => ⟨_,_,_,rfl,hfails⟩⟩
      exact (invariant_run (I := fun s => s.bound = true ∧ Idle s) (fun _ _ _ => idle_taken)
        hrest hidle).2
    · exact ih (idle_free h hstep) hrest hm

/-- Where `listen` fails once after a successful `bind`, the socket stays open and keeps the
port: in the whole run nobody is served. -/
theorem port_taken_for_good {n : Nat} {s : Station} {as : List StationAction} {i : Nat}
    {serverSocket bind listen : Int} (h : run stationStep (.start n) as = .next s)
    (hm : .thread i (.create serverSocket bind listen) ∈ as) (hsocket : 0 ≤ serverSocket)
    (hbind : 0 ≤ bind) (hlisten : listen < 0) :
    s.log = [] ∧ ∀ t ∈ s.threads, t.pc.beyond = false := by
  have hstart : Idle (.start n) := by
    refine ⟨rfl,fun j t ht => ?_⟩
    obtain rfl := List.eq_of_mem_replicate (List.mem_of_getElem? ht)
    rfl
  have hidle := idle_run hsocket hbind hlisten (fun _ => hstart) h hm
  refine ⟨hidle.log,fun t ht => ?_⟩
  obtain ⟨j,hj⟩ := List.mem_iff_getElem?.mp ht
  exact hidle.threads j t hj

theorem port_taken_for_good_listenFails : ∃ s, run stationStep (.start 2)
    [.thread 0 (.create 3 0 (-1)),.thread 1 (.create 4 (-1) 0)] = .next s ∧ s.log = [] :=
  ⟨_,rfl,(@port_taken_for_good 2 _ [.thread 0 (.create 3 0 (-1)),.thread 1 (.create 4 (-1) 0)] 0
    3 0 (-1) rfl (by decide) (by decide) (by decide) (by decide)).1⟩

end IntelligentAcoustics.Msr
