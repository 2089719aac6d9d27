import IntelligentAcoustics.RequestTrace
import IntelligentAcoustics.ServerChain

/-!
The effects of a server and of all processes it forks, in the order in which they happen.
Since a child goes on where its parent waits, they are those of one server with many
clients; and what becomes of the clicks on `aitalk.html`.
-/

set_option autoImplicit false

namespace IntelligentAcoustics.Msr
open Transition ThreadList

structure Family where
  processes : List Process
  log : List Event
  deriving DecidableEq, Repr

def Family.start (rest : RecordInfo) : Family := ⟨[.start rest],[]⟩

def happened (p : Process) (a : RequestAction) : List Event :=
  match requestProcess 0 p.rest p.request a with
  | .next u => u.events
  | _ => []

def familyStep (s : Family) (x : Nat × RequestAction) : Outcome Family :=
  match s.processes[x.1]? with
  | none => .blocked
  | some p => (processStep s.processes x).bind fun ps => .next ⟨ps,s.log ++ happened p x.2⟩

structure Ready (rest : RecordInfo) (p : Process) : Prop where
  fields : p.rest = { rest with recordParam := p.rest.recordParam }
  recordParam : p.rest.recordParam ≠ recordStart
  recmd : cString p.request.recmd = recordText rest

/-- The last process of the chain is in the round that is under way; the others wait, and
are ready for the next one. -/
structure FamilyTraced (rest : RecordInfo) (s : Family) (chain : List Nat) (rounds : List Round)
    (log : List Event) : Prop where
  chained : Chained s.processes chain
  logged : s.log = rounds.flatMap Round.events ++ log
  proper : ∀ r ∈ rounds, r.Proper rest
  ended : chain = [] → log = []
  last : ∀ i p, chain.head? = some i → s.processes[i]? = some p →
    Serves rest p.rest p.request rounds log 0
  waiting : ∀ i p, i ∈ chain.tail → s.processes[i]? = some p → Ready rest p

theorem familyStep_next {s s' : Family} {x : Nat × RequestAction}
    (h : familyStep s x = .next s') :
    ∃ p ps, s.processes[x.1]? = some p ∧ processStep s.processes x = .next ps ∧
      s' = ⟨ps,s.log ++ happened p x.2⟩ := by
  unfold familyStep at h
  split at h
  · simp at h
  · rename_i p hp
    simp only [Outcome.bind_eq_next,Outcome.next.injEq] at h
    obtain ⟨ps,hps,rfl⟩ := h
    exact ⟨p,ps,hp,hps,rfl⟩

section
variable {rest info : RecordInfo} {t : Request} {s s' : Family} {p : Process} {chain : List Nat}
  {rounds rounds' : List Round} {log log' : List Event}

theorem Serves.lost (h : Serves rest info t rounds log 0) : lostRounds rounds = 0 := by
  obtain ⟨r,-,-,hlost⟩ := h.pending.begins
  rw [lostRounds_snoc] at hlost
  omega

theorem Serves.proper (h : Serves rest info t rounds log 0) : ∀ r ∈ rounds, r.Proper rest :=
  proper_of_lostRounds h.sound h.lost

theorem Ready.serves {pid : Int} (h : Ready rest p) (hpc : p.request.pc = .waitpid pid)
    (hs : ∀ r ∈ rounds, r.Sound rest) (hl : lostRounds rounds = 0) :
    Serves rest p.rest p.request rounds [] 0 where
  fields := h.fields
  sound := hs
  recmd _ := h.recmd
  pending := by
    rw [hpc]
    exact ⟨h.recordParam,rfl,hl.le⟩

theorem Serves.quiet (h : Serves rest info t rounds log 0)
    (he : (Process.mk info t).ended = true) : log = [] := by
  have hpending := h.pending
  cases hpc : t.pc <;> simp_all [Process.ended,Pending]

theorem FamilyTraced.move {i : Nat} {tail : List Nat} {u : Turn}
    (h : FamilyTraced rest s (i :: tail) rounds log) (hp : s.processes[i]? = some p)
    (hw : ∀ pid, u.request.pc ≠ .waitpid pid)
    (hl : s.log ++ u.events = rounds'.flatMap Round.events ++ log')
    (ht : Serves rest u.rest u.request rounds' log' 0) :
    ∃ chain', FamilyTraced rest
      ⟨s.processes.set i ⟨u.rest,u.request⟩,s.log ++ u.events⟩ chain' rounds' log' := by
  have hchain := h.chained.move hp (q := ⟨u.rest,u.request⟩) hw
  have hlt := (List.getElem?_eq_some_iff.mp hp).1
  obtain ⟨hi,htail⟩ := List.nodup_cons.mp h.chained.nodup
  have hother : ∀ j ∈ tail, (s.processes.set i ⟨u.rest,u.request⟩)[j]? = s.processes[j]? := by
    intro j hj
    exact List.getElem?_set_ne (by rintro rfl; exact hi hj)
  refine ⟨_,hchain,hl,ht.proper,fun hnil => ?_,fun j q hj hq => ?_,fun j q hj hq => ?_⟩
  · split at hnil
    · rename_i hended
      exact ht.quiet hended
    · simp at hnil
  · split at hj
    · rename_i hended
      have hmem : j ∈ tail := List.mem_of_mem_head? hj
      rw [hother j hmem] at hq
      have hlog := ht.quiet hended
      subst hlog
      obtain ⟨c,-,r,hr,hpc⟩ : ∃ c ∈ i :: tail, Waits s.processes c j := by
        rcases not_last_waits h.chained.waits (List.mem_cons_of_mem i hmem) with hhead | hwaits
        · obtain rfl : i = j := by simpa using hhead
          exact absurd hmem hi
        · exact hwaits
      obtain rfl := Option.some.inj (hq.symm.trans hr)
      exact (h.waiting j q hmem hq).serves hpc ht.sound ht.lost
    · obtain rfl : i = j := by simpa using hj
      obtain rfl : (⟨u.rest,u.request⟩ : Process) = q := by simpa [hlt] using hq
      exact ht
  · have hmem : j ∈ tail := by
      split at hj
      · exact List.mem_of_mem_tail hj
      · exact hj
    rw [hother j hmem] at hq
    exact h.waiting j q hmem hq

theorem FamilyTraced.fork {i : Nat} {tail : List Nat} {pc : RequestPc}
    (h : FamilyTraced rest s (i :: tail) rounds log) (hp : s.processes[i]? = some p)
    (hpc : pc = .waitpid s.processes.length)
    (hl : s.log ++ [.pythonCmd] = rounds'.flatMap Round.events ++ log')
    (ht : Serves rest p.rest { p.request with pc := pc } rounds' log' 0) :
    FamilyTraced rest ⟨s.processes.set i ⟨p.rest,{ p.request with pc := pc }⟩ ++
      [⟨p.rest,{ p.request with pc := .child }⟩],s.log ++ [.pythonCmd]⟩
      (s.processes.length :: i :: tail) rounds' log' := by
  subst hpc
  have hlt := (List.getElem?_eq_some_iff.mp hp).1
  obtain ⟨hi,-⟩ := List.nodup_cons.mp h.chained.nodup
  have hpending := ht.pending
  have hcmd := ht.recmd rfl
  have hserves : Serves rest p.rest { p.request with pc := .child } rounds' log' 0 :=
    ⟨ht.fields,ht.sound,fun _ => hcmd,hpending⟩
  refine ⟨h.chained.fork hp rfl rfl,hl,ht.proper,by simp,fun j q hj hq => ?_,
    fun j q hj hq => ?_⟩
  · obtain rfl : s.processes.length = j := by simpa using hj
    obtain rfl : (⟨p.rest,{ p.request with pc := .child }⟩ : Process) = q := by simpa using hq
    exact hserves
  · rcases List.mem_cons.mp hj with rfl | hmem
    · rw [List.getElem?_append_left (by simpa using hlt)] at hq
      obtain rfl : (⟨p.rest,{ p.request with pc := .waitpid s.processes.length }⟩ : Process) = q := by
        simpa [hlt] using hq
      exact ⟨ht.fields,hpending.1,hcmd⟩
    · have hbound := h.chained.bound j (List.mem_cons_of_mem i hmem)
      have hne : j ≠ i := by
        rintro rfl
        exact hi hmem
      rw [List.getElem?_append_left (by simpa using hbound),List.getElem?_set_ne hne.symm] at hq
      exact h.waiting j q hmem hq

theorem FamilyTraced.step {x : Nat × RequestAction} (h : FamilyTraced rest s chain rounds log)
    (hs : familyStep s x = .next s') :
    ∃ chain' rounds' log', FamilyTraced rest s' chain' rounds' log' := by
  obtain ⟨p,ps,hp,hstep,rfl⟩ := familyStep_next hs
  obtain ⟨tail,rfl⟩ := List.head?_eq_some_iff.mp (h.chained.steps_last hstep)
  obtain ⟨p',u,hp',hu,hcase⟩ := processStep_next hstep
  obtain rfl := Option.some.inj (hp.symm.trans hp')
  have hlt := (List.getElem?_eq_some_iff.mp hp).1
  have hhappened : happened p x.2 = u.events := by simp [happened,hu]
  rw [hhappened]
  obtain ⟨rounds',log',hlog,ht⟩ := (h.last x.1 p rfl hp).step hu
  rw [← h.logged] at hlog
  rcases hcase with ⟨hf,rfl⟩ | ⟨hf,hpc,rfl⟩
  · obtain ⟨chain',h'⟩ := h.move hp ((turn_next hu).2.2.1 hf) hlog ht
    exact ⟨chain',rounds',log',h'⟩
  · rw [(processStep_kernel hstep).1 hf] at hu
    obtain ⟨-,rfl⟩ := fork_next hu
    have hpid : forked s.processes.length = .waitpid s.processes.length := by
      unfold forked
      split_ifs <;> first | omega | rfl
    exact ⟨_,rounds',log',h.fork hp hpid hlog ht⟩

theorem familyTraced_start (hp : rest.recordParam ≠ recordStart) :
    FamilyTraced rest (.start rest) [0] [] [] := by
  refine ⟨chained_start rest,rfl,by simp,by simp,fun i p hi hq => ?_,by simp⟩
  obtain rfl : 0 = i := by simpa using hi
  obtain rfl : Process.start rest = p := by simpa [Family.start] using hq
  exact ⟨rfl,by simp,by simp [Process.start,Request.start,RequestPc.beyond],hp,rfl,
    by simp [lostRounds]⟩

theorem familyTraced_run (hp : rest.recordParam ≠ recordStart) {as : List (Nat × RequestAction)}
    (h : run familyStep (.start rest) as = .next s) :
    ∃ chain rounds log, FamilyTraced rest s chain rounds log :=
  invariant_run (I := fun s => ∃ chain rounds log, FamilyTraced rest s chain rounds log)
    (fun _ _ _ ⟨_,_,_,hi⟩ hs => hi.step hs) h ⟨_,_,_,familyTraced_start hp⟩

end

theorem FamilyTraced.begins {rest : RecordInfo} {s : Family} {chain : List Nat}
    {rounds : List Round} {log : List Event} (h : FamilyTraced rest s chain rounds log) :
    ∃ r : Round, r.Proper rest ∧ log <+: r.events := by
  cases chain with
  | nil => exact ⟨⟨[],_⟩,rfl,by simp [h.ended rfl]⟩
  | cons i tail =>
    have hlt := h.chained.bound i List.mem_cons_self
    obtain ⟨r,hr,hpre,hlost⟩ := (h.last i _ rfl (List.getElem?_eq_getElem hlt)).pending.begins
    refine ⟨r,hr.proper ?_,hpre⟩
    rw [lostRounds_snoc] at hlost
    by_contra hl
    simp [hl] at hlost

/-- Over every run of a server and the processes it forks, in any order of their steps, with
any clients and answers of the kernel: the effects of all of them together are those of one
round for each client, the last one perhaps unfinished, with the command that the first
process has made. -/
theorem family_traced {rest : RecordInfo} {s : Family} {as : List (Nat × RequestAction)}
    (hp : rest.recordParam ≠ recordStart) (h : run familyStep (.start rest) as = .next s) :
    ∃ (rounds : List Round) (log : List Event), s.log = rounds.flatMap Round.events ++ log ∧
      (∀ r ∈ rounds, r.Proper rest) ∧ ∃ r : Round, r.Proper rest ∧ log <+: r.events := by
  obtain ⟨chain,rounds,log,ht⟩ := familyTraced_run hp h
  exact ⟨rounds,log,ht.logged,ht.proper,ht.begins⟩

def recordThenShutdown : List (Nat × RequestAction) :=
  [(0,.create 3 0 0),(0,.test),(0,.accept ⟨1,true⟩ 4),(0,.recv [.data [48,0],.closed]),
   (0,.recordTest),(0,.record),(0,.recordFinish),(0,.fork 1),(1,.baiduRequest),(1,.test),
   (1,.accept ⟨1,true⟩ 5),(1,.recv [.data [49],.data [0],.closed]),(1,.recordTest),(1,.fork 2)]

def served : Family :=
  match run familyStep (.start restInfo) recordThenShutdown with
  | .next s => s
  | _ => .start restInfo

theorem recordThenShutdown_run :
    run familyStep (.start restInfo) recordThenShutdown = .next served := rfl

theorem served_log : served.log = [.conn (48 :: List.replicate 99 0),
    .system (recordText restInfo),.pythonCmd,.conn (49 :: List.replicate 99 0),.pythonCmd] := by
  decide

theorem family_traced_recordThenShutdown : ∃ (rounds : List Round) (log : List Event),
    served.log = rounds.flatMap Round.events ++ log ∧ (∀ r ∈ rounds, r.Proper restInfo) ∧
      ∃ r : Round, r.Proper restInfo ∧ log <+: r.events :=
  family_traced (by decide) recordThenShutdown_run

/-- What comes next after an effect. -/
def Follows (rest : RecordInfo) : Event → Event → Prop
  | .conn recvbuf, e => e = if Records recvbuf then .system (recordText rest) else .pythonCmd
  | .system _, e => e = .pythonCmd
  | .pythonCmd, e => ∃ recvbuf, e = .conn recvbuf

section
variable {rest : RecordInfo} {s : Family} {as : List (Nat × RequestAction)}

theorem Round.Proper.follows {r : Round} (h : r.Proper rest) :
    (.pythonCmd :: r.events).IsChain (Follows rest) := by
  unfold Round.Proper at h
  by_cases hb : Records r.recvbuf
  · rw [if_pos hb] at h
    simp [Round.events,h,Follows,hb]
  · rw [if_neg hb] at h
    simp [Round.events,h,Follows,hb]

theorem rounds_follow {rounds : List Round} (h : ∀ r ∈ rounds, r.Proper rest) :
    (.pythonCmd :: rounds.flatMap Round.events).IsChain (Follows rest) := by
  induction rounds with
  | nil => exact List.isChain_singleton _
  | cons r rounds ih =>
    have hr := (h r List.mem_cons_self).follows
    have hrest := ih fun q hq => h q (List.mem_cons_of_mem r hq)
    rw [List.flatMap_cons,Round.events,List.append_assoc,List.singleton_append]
    exact List.isChain_cons_split.mpr ⟨hr,hrest⟩

theorem family_follows (hp : rest.recordParam ≠ recordStart)
    (h : run familyStep (.start rest) as = .next s) :
    (.pythonCmd :: s.log).IsChain (Follows rest) := by
  obtain ⟨rounds,log,hlog,hproper,r,hr,hpre⟩ := family_traced hp h
  have hall : (.pythonCmd :: (rounds ++ [r]).flatMap Round.events).IsChain (Follows rest) :=
    rounds_follow fun q hq => (List.mem_append.mp hq).elim (hproper q)
      fun hq => List.mem_singleton.mp hq ▸ hr
  refine hall.prefix (List.cons_prefix_cons.mpr ⟨rfl,?_⟩)
  rw [hlog,List.flatMap_append,List.flatMap_singleton]
  exact (List.prefix_append_right_inj _).mpr hpre

theorem family_next (hp : rest.recordParam ≠ recordStart)
    (h : run familyStep (.start rest) as = .next s) {pre post : List Event} {e e' : Event}
    (hl : s.log = pre ++ e :: e' :: post) : Follows rest e e' := by
  have hchain := family_follows hp h
  rw [hl] at hchain
  exact (List.isChain_cons_append_cons_cons.mp hchain).2.1

theorem family_command (hp : rest.recordParam ≠ recordStart)
    (h : run familyStep (.start rest) as = .next s) {pre post : List Event} {cmd : Bytes}
    (hl : s.log = pre ++ .system cmd :: post) :
    cmd = recordText rest ∧
      ∃ pre' recvbuf, pre = pre' ++ [.conn recvbuf] ∧ Records recvbuf := by
  have hchain := family_follows hp h
  rw [hl] at hchain
  rcases List.eq_nil_or_concat pre with rfl | ⟨pre',e,rfl⟩
  · have hfirst : Follows rest .pythonCmd (.system cmd) := (List.isChain_cons_cons.mp hchain).1
    simp [Follows] at hfirst
  · rw [List.concat_eq_append,List.append_assoc,List.singleton_append] at hchain
    have hbefore := (List.isChain_cons_append_cons_cons.mp hchain).2.1
    cases e with
    | conn recvbuf =>
      simp only [Follows] at hbefore
      split at hbefore
      · rename_i hb
        exact ⟨Event.system.inj hbefore,pre',recvbuf,by simp,hb⟩
      · simp at hbefore
    | system recmd => simp [Follows] at hbefore
    | pythonCmd => simp [Follows] at hbefore

end

/-- Whichever process serves it: what comes next after a message from `aitalk.c`, in whatever
pieces, is a recording if the request was that of the record button, and `python_cmd` if not. A
recording only follows a message, and what comes next after it is `python_cmd`. -/
theorem record_page_traced {rest : RecordInfo} {s : Family} {as : List (Nat × RequestAction)}
    (hp : rest.recordParam ≠ recordStart) (h : run familyStep (.start rest) as = .next s) :
    (∀ env body msg recvbuf, 0 ≤ Cgi.atoi env → Cgi.atoi env < 2^31-1 → body ≠ [] →
      Cgi.aitalkMain (some env) body = some (some msg) →
      Music.Arrives (some msg) (some recvbuf) →
      ∀ pre e post, s.log = pre ++ .conn recvbuf :: e :: post →
        e = if Cgi.request (Cgi.atoi env) body = ascii "msg=record"
          then .system (recordText rest) else .pythonCmd) ∧
    (∀ pre cmd post, s.log = pre ++ .system cmd :: post →
      ∃ pre' recvbuf, pre = pre' ++ [.conn recvbuf]) ∧
    ∀ pre cmd e post, s.log = pre ++ .system cmd :: e :: post → e = .pythonCmd := by
  refine ⟨fun env body msg recvbuf h0 hlt hb hm ha pre e post hl => ?_,fun pre cmd post hl => ?_,
    fun pre cmd e post hl => family_next hp h hl⟩
  · have hnext := family_next hp h hl
    simpa only [Follows,arrives_records ha,aitalkMain_records_iff h0 hlt hb hm] using hnext
  · obtain ⟨-,pre',recvbuf,hpre,-⟩ := family_command hp h hl
    exact ⟨pre',recvbuf,hpre⟩

theorem record_page_traced_recordThenShutdown :
    (∃ e post, served.log = .conn (48 :: List.replicate 99 0) :: e :: post ∧
      e = .system (recordText restInfo)) ∧
    ∃ pre e, served.log = pre ++ [.conn (49 :: List.replicate 99 0),e] ∧ e = .pythonCmd := by
  have hpage := (record_page_traced (by decide) recordThenShutdown_run).1
  have hrecord : socketRecv 4 (List.replicate 100 0) 0 100 [.data [48,0],.closed] =
      some (-2,48 :: List.replicate 99 0) := by decide
  have hshutdown : socketRecv 5 (List.replicate 100 0) 0 100 [.data [49],.data [0],.closed] =
      some (-2,49 :: List.replicate 99 0) := by decide
  exact ⟨⟨_,_,served_log,hpage (ascii "10") (ascii "msg=record") (Cgi.message "0") _ (by decide)
      (by decide) (by decide) (by decide) (.message hrecord) [] _ _ served_log⟩,
    ⟨[_,_,_],_,served_log,hpage (ascii "12") (ascii "msg=shutdown") (Cgi.message "1") _ (by decide)
      (by decide) (by decide) (by decide) (.message hshutdown) [_,_,_] _ [] served_log⟩⟩

/-! ### The two buttons of the page -/

inductive AitalkClick where
  | shutdownCheck | recordCheck
  deriving DecidableEq, Repr

def AitalkClick.data : AitalkClick → Bytes
  | .shutdownCheck => ascii "msg=shutdown"
  | .recordCheck => ascii "msg=record"

def Delivered (c : AitalkClick) (recvbuf : Bytes) : Prop :=
  ∃ msg, Cgi.aitalkMain (some (decimal c.data.length)) c.data = some (some msg) ∧
    Music.Arrives (some msg) (some recvbuf)

def Event.received : Event → Option Bytes
  | .conn recvbuf => some recvbuf
  | .system _ | .pythonCmd => none

def Event.command : Event → Option Bytes
  | .system recmd => some recmd
  | .conn _ | .pythonCmd => none

theorem delivered_records {c : AitalkClick} {recvbuf : Bytes} (h : Delivered c recvbuf) :
    Records recvbuf ↔ c = .recordCheck := by
  obtain ⟨msg,hm,ha⟩ := h
  have hlen : 0 ≤ Cgi.atoi (decimal c.data.length) ∧ Cgi.atoi (decimal c.data.length) < 2^31-1 ∧
      c.data ≠ [] := by
    cases c <;> decide
  have hrequest : Cgi.request (Cgi.atoi (decimal c.data.length)) c.data = ascii "msg=record" ↔
      c = .recordCheck := by
    cases c <;> decide
  rw [arrives_records ha,aitalkMain_records_iff hlen.1 hlen.2.1 hlen.2.2 hm,hrequest]

theorem rounds_received (rounds : List Round) :
    (rounds.flatMap Round.events).filterMap Event.received = rounds.map Round.recvbuf := by
  induction rounds with
  | nil => rfl
  | cons r rounds ih =>
    rw [List.flatMap_cons,List.filterMap_append,ih]
    cases hr : r.recorded <;> simp [Round.events,hr,Event.received]

theorem rounds_commands (rounds : List Round) :
    (rounds.flatMap Round.events).filterMap Event.command = rounds.filterMap Round.recorded := by
  induction rounds with
  | nil => rfl
  | cons r rounds ih =>
    rw [List.flatMap_cons,List.filterMap_append,ih]
    cases hr : r.recorded with
    | none => simp [Round.events,hr,Event.command]
    | some recmd =>
      have hevents : r.events = [.conn r.recvbuf,.system recmd,.pythonCmd] := by
        simp [Round.events,hr]
      rw [hevents,List.filterMap_cons_some hr]
      rfl

theorem rounds_pythonCmd (rounds : List Round) :
    (rounds.flatMap Round.events).count .pythonCmd = rounds.length := by
  induction rounds with
  | nil => rfl
  | cons r rounds ih =>
    rw [List.flatMap_cons,List.count_append,ih]
    cases hr : r.recorded <;> simp [Round.events,hr] <;> omega

theorem clicks_recorded {rest : RecordInfo} {clicks : List AitalkClick} {rounds : List Round}
    (h : List.Forall₂ Delivered clicks (rounds.map Round.recvbuf))
    (hr : ∀ r ∈ rounds, r.Proper rest) :
    rounds.filterMap Round.recorded =
      List.replicate (clicks.count .recordCheck) (recordText rest) := by
  induction rounds generalizing clicks with
  | nil =>
    obtain rfl := List.forall₂_nil_right_iff.mp h
    rfl
  | cons r rounds ih =>
    obtain ⟨c,clicks,hc,hcs,rfl⟩ := List.forall₂_cons_right_iff.mp h
    have hproper := hr r List.mem_cons_self
    have hrest := ih hcs fun q hq => hr q (List.mem_cons_of_mem r hq)
    simp only [Round.Proper,delivered_records hc] at hproper
    cases c with
    | shutdownCheck => simpa [hproper] using hrest
    | recordCheck => simp [hproper,hrest,List.replicate_succ]

/-- Between clients, whatever processes have been forked: each click on the page that came
through has led to one recognition, the shutdown button's too, and each click on the record
button to one run of the recorder. -/
theorem record_clicks_counted {rest : RecordInfo} {s : Family} {as : List (Nat × RequestAction)}
    {clicks : List AitalkClick} (hp : rest.recordParam ≠ recordStart)
    (h : run familyStep (.start rest) as = .next s)
    (hs : ∀ p ∈ s.processes, p.request.pc.serving = false)
    (hc : List.Forall₂ Delivered clicks (s.log.filterMap Event.received)) :
    s.log.count .pythonCmd = clicks.length ∧ s.log.filterMap Event.command =
      List.replicate (clicks.count .recordCheck) (recordText rest) := by
  obtain ⟨chain,rounds,log,ht⟩ := familyTraced_run hp h
  have hlog : log = [] := by
    cases chain with
    | nil => exact ht.ended rfl
    | cons i tail =>
      have hlt := ht.chained.bound i List.mem_cons_self
      have hpending := (ht.last i _ rfl (List.getElem?_eq_getElem hlt)).pending
      have hserving := hs _ (List.getElem_mem hlt)
      cases hpc : s.processes[i].request.pc <;> simp_all [RequestPc.serving,Pending]
  have hall := ht.logged
  rw [hlog,List.append_nil] at hall
  rw [hall,rounds_received] at hc
  have hlen := hc.length_eq
  rw [List.length_map] at hlen
  rw [hall,rounds_pythonCmd,rounds_commands]
  exact ⟨hlen.symm,clicks_recorded hc ht.proper⟩

theorem record_clicks_counted_recordThenShutdown : served.log.count .pythonCmd = 2 ∧
    served.log.filterMap Event.command = [recordText restInfo] := by
  have hrecord : socketRecv 4 (List.replicate 100 0) 0 100 [.data [48,0],.closed] =
      some (-2,48 :: List.replicate 99 0) := by decide
  have hshutdown : socketRecv 5 (List.replicate 100 0) 0 100 [.data [49],.data [0],.closed] =
      some (-2,49 :: List.replicate 99 0) := by decide
  refine @record_clicks_counted restInfo served recordThenShutdown [.recordCheck,.shutdownCheck]
    (by decide) recordThenShutdown_run (by decide) ?_
  rw [served_log]
  exact .cons ⟨Cgi.message "0",by decide,.message hrecord⟩
    (.cons ⟨Cgi.message "1",by decide,.message hshutdown⟩ .nil)

end IntelligentAcoustics.Msr
