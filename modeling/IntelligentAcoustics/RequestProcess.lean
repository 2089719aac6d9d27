import IntelligentAcoustics.Library.Transition
import IntelligentAcoustics.Socket

/-!
`request_process` of `msr/msr.c` with `python_cmd`: one thread, cut at its system calls and
at its accesses to `req_mode` and `rest_info`, which other threads share.
-/

set_option autoImplicit false

namespace IntelligentAcoustics.Msr
open Transition

def recordStart : Int := 0
def recordFinish : Int := 1

/-- `format` and `type` are adjacent arrays of 8 and 4 bytes. -/
structure RecordInfo where
  rate : UInt32
  duration : UInt8
  channels : UInt8
  format : Bytes
  type : Bytes
  recordParam : Int
  deriving DecidableEq, Repr

/-- `rest_info` before its first `res_info_init`. -/
def RecordInfo.zero : RecordInfo := ⟨0,0,0,List.replicate 8 0,List.replicate 4 0,0⟩

def format : List Bytes :=
  ["S8","U8","S16_LE","S16_BE","U16_LE","U16_BE","S24_LE","S24_BE","U24_LE","U24_BE",
   "S32_LE","S32_BE","U32_LE","U32_BE","FLOAT_LE","FLOAT_BE","FLOAT64_LE","FLOAT64_BE",
   "IEC958_SUBFRAME_LE","IEC958_SUBFRAME_BE","MU_LAW","A_LAW","IMA_ADPCM","MPEG GSM"].map ascii

def fileType : List Bytes := ["voc","wav","raw","au"].map ascii

/-- `memcpy` from a literal. What lies in memory behind a short one is taken to be NUL. -/
def memcpy (literal : Bytes) (n : Nat) : Bytes := (literal ++ List.replicate n 0).take n

def resInfoInit (rest : Option RecordInfo) (rate : UInt32) (duration channels : UInt8)
    (format type : Bytes) : Option RecordInfo × Int :=
  match rest with
  | none => (none,-1)
  | some _ => (some ⟨rate,duration,channels,memcpy format 8,memcpy type 4,recordFinish⟩,0)

/-- The call in `msr_init`, for `&rest_info`. -/
def msrResInfoInit (rest : RecordInfo) : Option RecordInfo × Int :=
  resInfoInit (some rest) 16000 2 1 (format.getD 2 []) (fileType.getD 1 [])

def restInfo : RecordInfo := ((msrResInfoInit .zero).1).getD .zero

def matoi (p : UInt8) : Int := if 48 ≤ p ∧ p ≤ 57 then p.toNat - 48 else 0

/-- A message of one byte sets `record_param`. -/
def RecordInfo.receive (rest : RecordInfo) (recvbuf : Bytes) : RecordInfo :=
  match cString recvbuf with
  | [p] => { rest with recordParam := matoi p }
  | _ => rest

/-- Into `recmd[CMD_SIZE]`. A format of 8 letters has no NUL and runs on into `type`. -/
def recordCmd (rest : RecordInfo) : Option Bytes := do
  let format ← cStringIn (rest.format ++ rest.type)
  let type ← cStringIn rest.type
  sprintf (List.replicate 100 0) <|
    ascii " arecord -c " ++ decimal rest.channels.toNat ++
    ascii " -d " ++ decimal rest.duration.toNat ++
    ascii " -f " ++ format ++
    ascii " -r " ++ decimal rest.rate.toInt32.toInt ++
    ascii " -t " ++ type ++ ascii " ../wav/record." ++ type ++ ascii "  &"

inductive RequestPc where
  | create
  | head
  | accept
  | recv (client : Int)
  | recordTest
  | record
  | recordFinish
  | pythonCmd
  | child
  | waitpid (pid : Int)
  | returned
  | exited
  deriving DecidableEq, Repr

structure Request where
  pc : RequestPc
  serverSocket : Int
  recmd : Bytes
  deriving DecidableEq, Repr

def Request.start : Request := ⟨.create,0,[]⟩

inductive RequestAction where
  | create (serverSocket bind listen : Int)
  | test
  | accept (sel : SelectResult) (acceptfd : Int)
  | recv (results : List RecvResult)
  | recordTest
  | record
  | recordFinish
  | fork (pid : Int)
  | baiduRequest
  | waitpid
  deriving DecidableEq, Repr

/-- What the world sees: a message was taken, a shell command was run, recognition was
asked for. -/
inductive Event where
  | conn (recvbuf : Bytes)
  | system (recmd : Bytes)
  | pythonCmd
  deriving DecidableEq, Repr

structure Turn where
  rest : RecordInfo
  request : Request
  events : List Event
  deriving DecidableEq, Repr

def forked (pid : Int) : RequestPc :=
  if pid = -1 then .exited else if pid = 0 then .child
    else if pid > 0 then .waitpid pid else .head

def requestProcess (reqMode : Int) (rest : RecordInfo) (t : Request) :
    RequestAction → Outcome Turn
  | .create serverSocket bind listen =>
    if t.pc = .create then
      let serverSocket := tcpServerCreate serverSocket bind listen
      if serverSocket < 0 then
        .next ⟨rest,{ t with serverSocket := serverSocket, pc := .returned },[]⟩
      else match recordCmd rest with
      | none => .fault
      | some recmd =>
        .next ⟨rest,{ t with serverSocket := serverSocket, recmd := recmd, pc := .head },[]⟩
    else .blocked
  | .test =>
    if t.pc = .head then
      .next ⟨rest,{ t with pc := if reqMode = 0 then .accept else .returned },[]⟩
    else .blocked
  | .accept sel acceptfd =>
    if t.pc = .accept then
      let client := socketAccept t.serverSocket sel acceptfd
      .next ⟨rest,{ t with pc := if client < 0 then .head else .recv client },[]⟩
    else .blocked
  | .recv results =>
    match t.pc with
    | .recv client =>
      match socketRecv client (List.replicate 100 0) 0 100 results with
      | none => .blocked
      | some (ret,recvbuf) =>
        if ret ≠ 0 then
          .next ⟨rest.receive recvbuf,{ t with pc := .recordTest },[.conn recvbuf]⟩
        else .next ⟨rest,{ t with pc := .pythonCmd },[.conn recvbuf]⟩
    | _ => .blocked
  | .recordTest =>
    if t.pc = .recordTest then
      .next ⟨rest,{ t with pc := if rest.recordParam = recordStart then .record else .pythonCmd },
        []⟩
    else .blocked
  | .record =>
    if t.pc = .record then
      .next ⟨rest,{ t with pc := .recordFinish },[.system (cString t.recmd)]⟩
    else .blocked
  | .recordFinish =>
    if t.pc = .recordFinish then
      .next ⟨{ rest with recordParam := Msr.recordFinish },{ t with pc := .pythonCmd },[]⟩
    else .blocked
  | .fork pid =>
    if t.pc = .pythonCmd then .next ⟨rest,{ t with pc := forked pid },[.pythonCmd]⟩
    else .blocked
  | .baiduRequest =>
    -- python_cmd returns to the loop in the child as well
    if t.pc = .child then .next ⟨rest,{ t with pc := .head },[]⟩ else .blocked
  | .waitpid =>
    match t.pc with
    | .waitpid _ => .next ⟨rest,{ t with pc := .head },[]⟩
    | _ => .blocked

variable {reqMode : Int} {rest : RecordInfo} {t : Request} {u : Turn}

theorem create_next {serverSocket bind listen : Int}
    (h : requestProcess reqMode rest t (.create serverSocket bind listen) = .next u) :
    t.pc = .create ∧
      ((tcpServerCreate serverSocket bind listen < 0 ∧ u = ⟨rest,{ t with
        serverSocket := tcpServerCreate serverSocket bind listen, pc := .returned },[]⟩) ∨
      (0 ≤ tcpServerCreate serverSocket bind listen ∧ ∃ recmd, u = ⟨rest,{ t with
        serverSocket := tcpServerCreate serverSocket bind listen, recmd := recmd,
        pc := .head },[]⟩)) := by
  simp only [requestProcess,guard_eq_next] at h
  obtain ⟨hpc,h⟩ := h
  refine ⟨hpc,?_⟩
  split at h
  · simp only [Outcome.next.injEq] at h
    exact .inl ⟨‹_›,h.symm⟩
  · split at h
    · simp at h
    · rename_i hs recmd _
      simp only [Outcome.next.injEq] at h
      exact .inr ⟨by omega,recmd,h.symm⟩

theorem test_next (h : requestProcess reqMode rest t .test = .next u) :
    t.pc = .head ∧ u = ⟨rest,{ t with pc := if reqMode = 0 then .accept else .returned },[]⟩ := by
  simp only [requestProcess,guard_eq_next,Outcome.next.injEq] at h
  exact ⟨h.1,h.2.symm⟩

theorem accept_next {sel : SelectResult} {acceptfd : Int}
    (h : requestProcess reqMode rest t (.accept sel acceptfd) = .next u) :
    t.pc = .accept ∧ (u = ⟨rest,{ t with pc := .head },[]⟩ ∨
      ∃ client, u = ⟨rest,{ t with pc := .recv client },[]⟩) := by
  simp only [requestProcess,guard_eq_next,Outcome.next.injEq] at h
  refine ⟨h.1,?_⟩
  split at h
  · exact .inl h.2.symm
  · exact .inr ⟨_,h.2.symm⟩

theorem recv_next {results : List RecvResult}
    (h : requestProcess reqMode rest t (.recv results) = .next u) :
    ∃ client ret recvbuf, t.pc = .recv client ∧
      socketRecv client (List.replicate 100 0) 0 100 results = some (ret,recvbuf) ∧
      u = ⟨rest.receive recvbuf,{ t with pc := .recordTest },[.conn recvbuf]⟩ := by
  simp only [requestProcess] at h
  split at h
  · rename_i client hpc
    split at h
    · simp at h
    · rename_i ret recvbuf hr
      rw [if_pos (socketRecv_ne_zero hr)] at h
      simp only [Outcome.next.injEq] at h
      exact ⟨client,ret,recvbuf,hpc,hr,h.symm⟩
  · simp at h

theorem recordTest_next (h : requestProcess reqMode rest t .recordTest = .next u) :
    t.pc = .recordTest ∧ u = ⟨rest,
      { t with pc := if rest.recordParam = recordStart then .record else .pythonCmd },[]⟩ := by
  simp only [requestProcess,guard_eq_next,Outcome.next.injEq] at h
  exact ⟨h.1,h.2.symm⟩

theorem record_next (h : requestProcess reqMode rest t .record = .next u) :
    t.pc = .record ∧ u = ⟨rest,{ t with pc := .recordFinish },[.system (cString t.recmd)]⟩ := by
  simp only [requestProcess,guard_eq_next,Outcome.next.injEq] at h
  exact ⟨h.1,h.2.symm⟩

theorem recordFinish_next (h : requestProcess reqMode rest t .recordFinish = .next u) :
    t.pc = .recordFinish ∧
      u = ⟨{ rest with recordParam := recordFinish },{ t with pc := .pythonCmd },[]⟩ := by
  simp only [requestProcess,guard_eq_next,Outcome.next.injEq] at h
  exact ⟨h.1,h.2.symm⟩

theorem fork_next {pid : Int} (h : requestProcess reqMode rest t (.fork pid) = .next u) :
    t.pc = .pythonCmd ∧ u = ⟨rest,{ t with pc := forked pid },[.pythonCmd]⟩ := by
  simp only [requestProcess,guard_eq_next,Outcome.next.injEq] at h
  exact ⟨h.1,h.2.symm⟩

theorem baiduRequest_next (h : requestProcess reqMode rest t .baiduRequest = .next u) :
    t.pc = .child ∧ u = ⟨rest,{ t with pc := .head },[]⟩ := by
  simp only [requestProcess,guard_eq_next,Outcome.next.injEq] at h
  exact ⟨h.1,h.2.symm⟩

theorem waitpid_next (h : requestProcess reqMode rest t .waitpid = .next u) :
    ∃ pid, t.pc = .waitpid pid ∧ u = ⟨rest,{ t with pc := .head },[]⟩ := by
  simp only [requestProcess] at h
  split at h
  · simp only [Outcome.next.injEq] at h
    exact ⟨_,‹_›,h.symm⟩
  · simp at h

end IntelligentAcoustics.Msr
