import IntelligentAcoustics.RequestProcess

/-!
What `request_process` does for its clients: the messages it takes, the recordings it
starts and the calls of `python_cmd`, in the run of the process that called `msr_init`.
-/

set_option autoImplicit false

namespace IntelligentAcoustics.Msr
open Transition

structure Server where
  rest : RecordInfo
  request : Request
  log : List Event
  deriving DecidableEq, Repr

def serverStep (reqMode : Int) (s : Server) (a : RequestAction) : Outcome Server :=
  if a ≠ .fork 0 then
    (requestProcess reqMode s.rest s.request a).bind fun u =>
      .next ⟨u.rest,u.request,s.log ++ u.events⟩
  else .blocked

theorem serverStep_next {reqMode : Int} {s t : Server} {a : RequestAction}
    (h : serverStep reqMode s a = .next t) : a ≠ .fork 0 ∧
      ∃ u, requestProcess reqMode s.rest s.request a = .next u ∧
        t = ⟨u.rest,u.request,s.log ++ u.events⟩ := by
  simpa only [serverStep,guard_eq_next,Outcome.map_eq_next] using h

def Server.start (rest : RecordInfo) : Server := ⟨rest,.start,[]⟩

def AsksToRecord (recvbuf : Bytes) : Prop := cString recvbuf = ascii "0"

/-- A message is followed by nothing, or, if it asks to record, by one recording and one
recognition. -/
def Paired : List Event → Prop
  | [] => True
  | .conn recvbuf :: .system _ :: .pythonCmd :: log => AsksToRecord recvbuf ∧ Paired log
  | .conn _ :: log => Paired log
  | _ => False

def RequestPc.serving : RequestPc → Bool
  | .recordTest | .record | .recordFinish | .pythonCmd => true
  | .create | .head | .accept | .recv _ | .child | .waitpid _ | .returned | .exited => false

/-- One client: its message and the command that was run for it, if any. -/
structure Round where
  recvbuf : Bytes
  recorded : Option Bytes

def Round.events (r : Round) : List Event :=
  .conn r.recvbuf :: r.recorded.toList.map .system ++ [.pythonCmd]

def Opened (rest : RecordInfo) (log : List Event) : RequestPc → Prop
  | .recordTest => ∃ b, log = [.conn b] ∧ (AsksToRecord b → rest.recordParam = recordStart)
  | .record => ∃ b, log = [.conn b]
  | .recordFinish => ∃ b cmd, log = [.conn b,.system cmd]
  | .pythonCmd => ∃ r : Round, (AsksToRecord r.recvbuf → r.recorded ≠ none) ∧
      log ++ [.pythonCmd] = r.events
  | .create | .head | .accept | .recv _ | .child | .waitpid _ | .returned | .exited => log = []

structure Served (s : Server) (rounds : List Round) (log : List Event) : Prop where
  logged : s.log = rounds.flatMap Round.events ++ log
  asked : ∀ r ∈ rounds, AsksToRecord r.recvbuf → r.recorded ≠ none
  opened : Opened s.rest log s.request.pc

theorem receive_asked {rest : RecordInfo} {recvbuf : Bytes} (h : AsksToRecord recvbuf) :
    (rest.receive recvbuf).recordParam = recordStart := by
  unfold AsksToRecord at h
  have hz : ascii "0" = [48] := by decide
  simp only [RecordInfo.receive,h,hz]
  decide

theorem opened_forked (pid : Int) (rest : RecordInfo) : Opened rest [] (forked pid) := by
  unfold forked
  split
  · rfl
  · split
    · rfl
    · split <;> rfl

theorem Served.silent {s : Server} {rounds : List Round} {log : List Event}
    (h : Served s rounds log) {request : Request} (ho : Opened s.rest log request.pc) :
    Served ⟨s.rest,request,s.log ++ []⟩ rounds log :=
  ⟨by simpa using h.logged,h.asked,ho⟩

theorem Served.step {reqMode : Int} {s s' : Server} {a : RequestAction} {rounds : List Round}
    {log : List Event} (h : Served s rounds log) (hs : serverStep reqMode s a = .next s') :
    ∃ rounds' log', Served s' rounds' log' := by
  obtain ⟨-,u,hu,rfl⟩ := serverStep_next hs
  have hlog := h.logged
  have hopen := h.opened
  cases a with
  | create serverSocket bind listen =>
    obtain ⟨hpc,hcase⟩ := create_next hu
    rw [hpc] at hopen
    obtain ⟨-,rfl⟩ | ⟨-,recmd,rfl⟩ := hcase
    · exact ⟨rounds,log,h.silent hopen⟩
    · exact ⟨rounds,log,h.silent hopen⟩
  | test =>
    obtain ⟨hpc,rfl⟩ := test_next hu
    rw [hpc] at hopen
    refine ⟨rounds,log,h.silent ?_⟩
    show Opened s.rest log (if reqMode = 0 then .accept else .returned)
    split <;> exact hopen
  | accept sel acceptfd =>
    obtain ⟨hpc,hcase⟩ := accept_next hu
    rw [hpc] at hopen
    obtain rfl | ⟨client,rfl⟩ := hcase
    · exact ⟨rounds,log,h.silent hopen⟩
    · exact ⟨rounds,log,h.silent hopen⟩
  | recv results =>
    obtain ⟨client,ret,recvbuf,hpc,-,rfl⟩ := recv_next hu
    rw [hpc] at hopen
    simp only [Opened] at hopen
    exact ⟨rounds,[.conn recvbuf],by simp [hlog,hopen],h.asked,recvbuf,rfl,receive_asked⟩
  | recordTest =>
    obtain ⟨hpc,rfl⟩ := recordTest_next hu
    rw [hpc] at hopen
    obtain ⟨b,rfl,hb⟩ := hopen
    refine ⟨rounds,[.conn b],h.silent ?_⟩
    show Opened s.rest [.conn b] (if s.rest.recordParam = recordStart then .record else .pythonCmd)
    split
    · exact ⟨b,rfl⟩
    · rename_i hz
      exact ⟨⟨b,none⟩,fun ha => absurd (hb ha) hz,rfl⟩
  | record =>
    obtain ⟨hpc,rfl⟩ := record_next hu
    rw [hpc] at hopen
    obtain ⟨b,rfl⟩ := hopen
    exact ⟨rounds,[.conn b,.system (cString s.request.recmd)],by simp [hlog],h.asked,b,_,rfl⟩
  | recordFinish =>
    obtain ⟨hpc,rfl⟩ := recordFinish_next hu
    rw [hpc] at hopen
    obtain ⟨b,cmd,rfl⟩ := hopen
    exact ⟨rounds,_,by simpa using hlog,h.asked,⟨b,some cmd⟩,by simp,rfl⟩
  | fork pid =>
    obtain ⟨hpc,rfl⟩ := fork_next hu
    rw [hpc] at hopen
    obtain ⟨r,hr,he⟩ := hopen
    refine ⟨rounds ++ [r],[],by simp [hlog,← he],?_,opened_forked pid s.rest⟩
    intro q hq
    rcases List.mem_append.mp hq with hq | hq
    · exact h.asked q hq
    · exact List.mem_singleton.mp hq ▸ hr
  | baiduRequest =>
    obtain ⟨hpc,rfl⟩ := baiduRequest_next hu
    rw [hpc] at hopen
    exact ⟨rounds,log,h.silent hopen⟩
  | waitpid =>
    obtain ⟨pid,hpc,rfl⟩ := waitpid_next hu
    rw [hpc] at hopen
    exact ⟨rounds,log,h.silent hopen⟩

theorem served_run {reqMode : Int} {rest : RecordInfo} {s : Server} {as : List RequestAction}
    (h : run (serverStep reqMode) (.start rest) as = .next s) :
    ∃ rounds log, Served s rounds log := by
  refine invariant_run (I := fun s => ∃ rounds log, Served s rounds log) ?_ h
    ⟨[],[],rfl,by simp,rfl⟩
  rintro s a t ⟨rounds,log,hi⟩ hs
  exact hi.step hs

theorem paired_rounds (rounds : List Round) :
    Paired (rounds.flatMap Round.events) ↔
      ∀ r ∈ rounds, AsksToRecord r.recvbuf ∧ r.recorded ≠ none := by
  induction rounds with
  | nil => simp [Paired]
  | cons r rounds ih =>
    obtain ⟨recvbuf,recorded⟩ := r
    cases recorded with
    | none => simp [Round.events,Paired]
    | some cmd => simp [Round.events,Paired,ih]

theorem conn_mem_rounds {rounds : List Round} {recvbuf : Bytes} :
    .conn recvbuf ∈ rounds.flatMap Round.events ↔ ∃ r ∈ rounds, r.recvbuf = recvbuf := by
  simp [List.mem_flatMap,Round.events,eq_comm]

/-- From any `rest_info`, over every sequence of clients and answers of the kernel: the
effects so far are pairs exactly when every client asked to record. -/
theorem recognition_paired_iff {reqMode : Int} {rest : RecordInfo} {s : Server}
    {as : List RequestAction} (h : run (serverStep reqMode) (.start rest) as = .next s)
    (hs : s.request.pc.serving = false) :
    Paired s.log ↔ ∀ recvbuf, .conn recvbuf ∈ s.log → AsksToRecord recvbuf := by
  obtain ⟨rounds,log,hi⟩ := served_run h
  have hnil : log = [] := by
    have hopen := hi.opened
    cases hpc : s.request.pc <;> simp_all [Opened,RequestPc.serving]
  rw [hi.logged,hnil,List.append_nil,paired_rounds]
  constructor
  · intro hall recvbuf hm
    obtain ⟨r,hr,rfl⟩ := conn_mem_rounds.mp hm
    exact (hall r hr).1
  · intro hall r hr
    have ha := hall r.recvbuf (conn_mem_rounds.mpr ⟨r,hr,rfl⟩)
    exact ⟨ha,hi.asked r hr ha⟩

def oneClient (recvbuf : Bytes) (recorded : Bool) : List RequestAction :=
  [.create 3 0 0,.test,.accept ⟨1,true⟩ 4,.recv [.data recvbuf,.closed],.recordTest] ++
    (if recorded then [.record,.recordFinish] else []) ++ [.fork 100,.waitpid]

theorem recognition_paired_iff_recorded : ∃ s,
    run (serverStep 0) (.start restInfo) (oneClient (ascii "0") true) = .next s ∧
      s.log.length = 3 ∧
      (Paired s.log ↔ ∀ recvbuf, .conn recvbuf ∈ s.log → AsksToRecord recvbuf) :=
  ⟨_,rfl,rfl,recognition_paired_iff
    (show run (serverStep 0) (.start restInfo) (oneClient (ascii "0") true) = _ from rfl) rfl⟩

theorem unrecorded_recognition : ∃ s,
    run (serverStep 0) (.start restInfo) (oneClient (ascii "1") false) = .next s ∧
      s.request.pc = .head ∧ .pythonCmd ∈ s.log ∧ ¬ Paired s.log :=
  ⟨_,rfl,rfl,by decide,fun h => h⟩

end IntelligentAcoustics.Msr
