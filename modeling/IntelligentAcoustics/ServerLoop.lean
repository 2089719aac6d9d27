import IntelligentAcoustics.Library.Transition
import IntelligentAcoustics.Socket

/-!
The part that the three command loops share, one system call at a time: `TcpServerCreate`,
and then `SocketAccept` and `SocketRecv` for one client after the other.
-/

set_option autoImplicit false

namespace IntelligentAcoustics.Serving
open Transition

inductive CommandLoop where
  | autoProcess | main | requestProcess
  deriving DecidableEq, Repr

def CommandLoop.goesOn : CommandLoop → Int → Bool
  | .autoProcess, autoMode => autoMode = 0
  | .main, gRun => gRun ≠ 0
  | .requestProcess, reqMode => reqMode = 0

/-- `MSG_DONT_WAIT` of `common/socket.h`. -/
def msgDontWait : UInt32 := 0

def nonBlocking (flags : UInt32) : Bool := flags &&& 0x40 ≠ 0

/-- What the client has sent and was not yet received, and whether it still can send. -/
structure Peer where
  inbox : Bytes
  isOpen : Bool
  broken : Bool
  deriving DecidableEq, Repr

def Peer.readable (peer : Peer) : Bool := peer.inbox ≠ [] ∨ ¬ peer.isOpen ∨ peer.broken

inductive LoopPc where
  | socket
  | bind (serverSocket : Int)
  | listen (serverSocket : Int)
  | failed
  | head
  | select
  | accept
  | recv (recvd : Nat)
  | recvSelect (recvd : Nat)
  | handle (ret : Int)
  | stopped
  deriving DecidableEq, Repr

structure Loop where
  pc : LoopPc
  serverSocket : Int
  client : Int
  recvbuf : Bytes
  opened : List Int
  peer : Peer
  /-- The last system call was a `select` that found the client readable. -/
  armed : Bool
  flag : Int
  deriving DecidableEq, Repr

def Loop.start (flag : Int) : Loop :=
  ⟨.socket,-1,-1,List.replicate 100 0,[],⟨[],false,false⟩,false,flag⟩

inductive LoopAction where
  | socket (fd : Int)
  | bind (ret : Int)
  | listen (ret : Int)
  | test
  | select (sel : SelectResult)
  | accept (fd : Int)
  | recv (n : Nat)
  | recvClosed
  | recvError
  | recvSelect (sel : SelectResult)
  | handle
  | setFlag (flag : Int)
  | peerSend (chunk : Bytes)
  | peerClose
  | peerBreak
  deriving DecidableEq, Repr

def LoopAction.own : LoopAction → Bool
  | .setFlag _ | .peerSend _ | .peerClose | .peerBreak => false
  | .socket _ | .bind _ | .listen _ | .test | .select _ | .accept _ | .recv _ | .recvClosed |
    .recvError | .recvSelect _ | .handle => true

/-- `flags` is what `SocketRecv` passes to `recv`. -/
def loopStep (loop : CommandLoop) (flags : UInt32) (s : Loop) : LoopAction → Outcome Loop
  | .socket fd =>
    if s.pc = .socket then
      .next (if fd < 0 then { s with pc := .failed }
        else { s with pc := .bind fd, opened := s.opened ++ [fd] })
    else .blocked
  | .bind ret =>
    match s.pc with
    | .bind serverSocket =>
      .next { s with pc := if ret < 0 then .failed else .listen serverSocket }
    | _ => .blocked
  | .listen ret =>
    match s.pc with
    | .listen serverSocket =>
      .next (if ret < 0 then { s with pc := .failed }
        else { s with pc := .head, serverSocket := serverSocket })
    | _ => .blocked
  | .test =>
    if s.pc = .head then
      .next { s with pc := if loop.goesOn s.flag then .select else .stopped }
    else .blocked
  | .select sel =>
    if s.pc = .select then
      .next { s with pc := if socketSelect s.serverSocket sel = -1 then .head else .accept }
    else .blocked
  | .accept fd =>
    if s.pc = .accept ∧ fd ∉ s.opened then
      .next (if fd < 0 then { s with pc := .head, client := fd }
        else { s with pc := .recv 0, client := fd, recvbuf := List.replicate 100 0,
                      opened := s.opened ++ [fd], peer := ⟨[],true,false⟩, armed := false })
    else .blocked
  | .recv n =>
    match s.pc with
    | .recv recvd =>
      if 0 < n ∧ n ≤ s.peer.inbox.length ∧ n ≤ 100 - recvd then
        .next { s with recvbuf := writeAt s.recvbuf recvd (s.peer.inbox.take n),
                       peer := { s.peer with inbox := s.peer.inbox.drop n }, armed := false,
                       pc := if recvd + n < 100 then .recv (recvd + n) else .handle 1 }
      else .blocked
    | _ => .blocked
  | .recvClosed =>
    match s.pc with
    | .recv _ =>
      if s.peer.inbox = [] ∧ s.peer.isOpen = false ∧ s.peer.broken = false then
        .next { s with pc := .handle (-2) }
      else .blocked
    | _ => .blocked
  | .recvError =>
    match s.pc with
    | .recv recvd =>
      if s.peer.broken then
        .next { s with pc := .recvSelect recvd, peer := ⟨[],false,false⟩ }
      -- EAGAIN
      else if s.peer.inbox = [] ∧ s.peer.isOpen = true ∧ nonBlocking flags = true then
        .next { s with pc := .recvSelect recvd }
      else .blocked
    | _ => .blocked
  | .recvSelect sel =>
    match s.pc with
    | .recvSelect recvd =>
      if socketSelect s.client sel < 0 then .next { s with pc := .handle 1 }
      else if s.peer.readable then .next { s with pc := .recv recvd, armed := true }
      else .blocked
    | _ => .blocked
  | .handle =>
    match s.pc with
    | .handle _ => .next { s with pc := .head }
    | _ => .blocked
  | .setFlag flag => .next { s with flag := flag }
  | .peerSend chunk =>
    if s.peer.isOpen then
      .next { s with peer := { s.peer with inbox := s.peer.inbox ++ chunk } }
    else .blocked
  | .peerClose => .next { s with peer := { s.peer with isOpen := false } }
  | .peerBreak => .next { s with peer := { s.peer with broken := true } }

section
variable {loop : CommandLoop} {flags : UInt32} {s t : Loop}

theorem socket_next {fd : Int} (h : loopStep loop flags s (.socket fd) = .next t) :
    s.pc = .socket ∧ ((fd < 0 ∧ t = { s with pc := .failed }) ∨
      (0 ≤ fd ∧ t = { s with pc := .bind fd, opened := s.opened ++ [fd] })) := by
  simp only [loopStep,guard_eq_next,Outcome.next.injEq] at h
  refine ⟨h.1,?_⟩
  split at h
  · exact .inl ⟨‹_›,h.2.symm⟩
  · exact .inr ⟨by omega,h.2.symm⟩

theorem bind_next {ret : Int} (h : loopStep loop flags s (.bind ret) = .next t) :
    ∃ serverSocket, s.pc = .bind serverSocket ∧
      t = { s with pc := if ret < 0 then .failed else .listen serverSocket } := by
  simp only [loopStep] at h
  split at h
  · simp only [Outcome.next.injEq] at h
    exact ⟨_,‹_›,h.symm⟩
  · simp at h

theorem listen_next {ret : Int} (h : loopStep loop flags s (.listen ret) = .next t) :
    ∃ serverSocket, s.pc = .listen serverSocket ∧ ((ret < 0 ∧ t = { s with pc := .failed }) ∨
      (0 ≤ ret ∧ t = { s with pc := .head, serverSocket := serverSocket })) := by
  simp only [loopStep] at h
  split at h
  · simp only [Outcome.next.injEq] at h
    refine ⟨_,‹_›,?_⟩
    split at h
    · exact .inl ⟨‹_›,h.symm⟩
    · exact .inr ⟨by omega,h.symm⟩
  · simp at h

theorem test_next (h : loopStep loop flags s .test = .next t) : s.pc = .head ∧
    t = { s with pc := if loop.goesOn s.flag then .select else .stopped } := by
  simp only [loopStep,guard_eq_next,Outcome.next.injEq] at h
  exact ⟨h.1,h.2.symm⟩

theorem select_next {sel : SelectResult} (h : loopStep loop flags s (.select sel) = .next t) :
    s.pc = .select ∧
      t = { s with pc := if socketSelect s.serverSocket sel = -1 then .head else .accept } := by
  simp only [loopStep,guard_eq_next,Outcome.next.injEq] at h
  exact ⟨h.1,h.2.symm⟩

theorem accept_next {fd : Int} (h : loopStep loop flags s (.accept fd) = .next t) :
    s.pc = .accept ∧ fd ∉ s.opened ∧ ((fd < 0 ∧ t = { s with pc := .head, client := fd }) ∨
      (0 ≤ fd ∧ t = { s with pc := .recv 0, client := fd, recvbuf := List.replicate 100 0,
                             opened := s.opened ++ [fd], peer := ⟨[],true,false⟩,
                             armed := false })) := by
  simp only [loopStep,guard_eq_next,Outcome.next.injEq] at h
  refine ⟨h.1.1,h.1.2,?_⟩
  split at h
  · exact .inl ⟨‹_›,h.2.symm⟩
  · exact .inr ⟨by omega,h.2.symm⟩

theorem recv_next {n : Nat} (h : loopStep loop flags s (.recv n) = .next t) :
    ∃ recvd, s.pc = .recv recvd ∧ 0 < n ∧ n ≤ s.peer.inbox.length ∧ n ≤ 100 - recvd ∧
      t = { s with recvbuf := writeAt s.recvbuf recvd (s.peer.inbox.take n),
                   peer := { s.peer with inbox := s.peer.inbox.drop n }, armed := false,
                   pc := if recvd + n < 100 then .recv (recvd + n) else .handle 1 } := by
  simp only [loopStep] at h
  split at h
  · simp only [guard_eq_next,Outcome.next.injEq] at h
    exact ⟨_,‹_›,h.1.1,h.1.2.1,h.1.2.2,h.2.symm⟩
  · simp at h

theorem recvClosed_next (h : loopStep loop flags s .recvClosed = .next t) :
    ∃ recvd, s.pc = .recv recvd ∧ s.peer.inbox = [] ∧ s.peer.isOpen = false ∧
      s.peer.broken = false ∧ t = { s with pc := .handle (-2) } := by
  simp only [loopStep] at h
  split at h
  · simp only [guard_eq_next,Outcome.next.injEq] at h
    exact ⟨_,‹_›,h.1.1,h.1.2.1,h.1.2.2,h.2.symm⟩
  · simp at h

theorem recvError_next (h : loopStep loop flags s .recvError = .next t) :
    ∃ recvd, s.pc = .recv recvd ∧
      ((s.peer.broken = true ∧ t = { s with pc := .recvSelect recvd, peer := ⟨[],false,false⟩ }) ∨
      (s.peer.inbox = [] ∧ s.peer.isOpen = true ∧ nonBlocking flags = true ∧
        t = { s with pc := .recvSelect recvd })) := by
  simp only [loopStep] at h
  split at h
  · refine ⟨_,‹_›,?_⟩
    split at h
    · simp only [Outcome.next.injEq] at h
      exact .inl ⟨‹_›,h.symm⟩
    · simp only [guard_eq_next,Outcome.next.injEq] at h
      exact .inr ⟨h.1.1,h.1.2.1,h.1.2.2,h.2.symm⟩
  · simp at h

theorem recvSelect_next {sel : SelectResult}
    (h : loopStep loop flags s (.recvSelect sel) = .next t) :
    ∃ recvd, s.pc = .recvSelect recvd ∧
      ((socketSelect s.client sel < 0 ∧ t = { s with pc := .handle 1 }) ∨
      (0 ≤ socketSelect s.client sel ∧ s.peer.readable = true ∧
        t = { s with pc := .recv recvd, armed := true })) := by
  simp only [loopStep] at h
  split at h
  · refine ⟨_,‹_›,?_⟩
    split at h
    · simp only [Outcome.next.injEq] at h
      exact .inl ⟨‹_›,h.symm⟩
    · simp only [guard_eq_next,Outcome.next.injEq] at h
      exact .inr ⟨by omega,h.1,h.2.symm⟩
  · simp at h

theorem handle_next (h : loopStep loop flags s .handle = .next t) :
    ∃ ret, s.pc = .handle ret ∧ t = { s with pc := .head } := by
  simp only [loopStep] at h
  split at h
  · simp only [Outcome.next.injEq] at h
    exact ⟨_,‹_›,h.symm⟩
  · simp at h

theorem other_next {a : LoopAction} (ha : a.own = false) (h : loopStep loop flags s a = .next t) :
    t.pc = s.pc ∧ t.opened = s.opened ∧ t.serverSocket = s.serverSocket ∧ t.client = s.client ∧
      t.recvbuf = s.recvbuf ∧ t.armed = s.armed := by
  cases a with
  | setFlag flag | peerClose | peerBreak =>
    simp only [loopStep,Outcome.next.injEq] at h
    exact h ▸ ⟨rfl,rfl,rfl,rfl,rfl,rfl⟩
  | peerSend chunk =>
    simp only [loopStep,guard_eq_next,Outcome.next.injEq] at h
    exact h.2 ▸ ⟨rfl,rfl,rfl,rfl,rfl,rfl⟩
  | socket fd | bind ret | listen ret | test | select sel | accept fd | recv n | recvClosed |
    recvError | recvSelect sel | handle => simp [LoopAction.own] at ha

theorem tcpServerCreate_run (loop : CommandLoop) (flags : UInt32) (flag fd bind listen : Int) :
    ∃ as t, as <+: [.socket fd,.bind bind,.listen listen] ∧
      run (loopStep loop flags) (Loop.start flag) as = .next t ∧
      ((tcpServerCreate fd bind listen = -1 ∧ t.pc = .failed) ∨
        (t.serverSocket = tcpServerCreate fd bind listen ∧ t.pc = .head)) := by
  by_cases hfd : fd < 0
  · have hrun : run (loopStep loop flags) (Loop.start flag) [.socket fd] =
        .next { Loop.start flag with pc := .failed } := by
      simp [loopStep,Loop.start,hfd]
    exact ⟨_,_,by simp,hrun,.inl ⟨by simp [tcpServerCreate,hfd],rfl⟩⟩
  by_cases hb : bind < 0
  · have hrun : run (loopStep loop flags) (Loop.start flag) [.socket fd,.bind bind] =
        .next { Loop.start flag with pc := .failed, opened := [fd] } := by
      simp [loopStep,Loop.start,hfd,hb]
    exact ⟨_,_,by simp,hrun,.inl ⟨by simp [tcpServerCreate,hfd,hb],rfl⟩⟩
  by_cases hl : listen < 0
  · have hrun : run (loopStep loop flags) (Loop.start flag) [.socket fd,.bind bind,.listen listen] =
        .next { Loop.start flag with pc := .failed, opened := [fd] } := by
      simp [loopStep,Loop.start,hfd,hb,hl]
    exact ⟨_,_,by simp,hrun,.inl ⟨by simp [tcpServerCreate,hfd,hb,hl],rfl⟩⟩
  · have hrun : run (loopStep loop flags) (Loop.start flag) [.socket fd,.bind bind,.listen listen] =
        .next { Loop.start flag with pc := .head, serverSocket := fd, opened := [fd] } := by
      simp [loopStep,Loop.start,hfd,hb,hl]
    exact ⟨_,_,by simp,hrun,.inr ⟨by simp [tcpServerCreate,hfd,hb,hl],rfl⟩⟩

theorem socketAccept_run {sel : SelectResult} {fd : Int} (hp : s.pc = .select)
    (ho : fd ∉ s.opened) (hfd : -1 ≤ fd) :
    ∃ as t, as <+: [.select sel,.accept fd] ∧ run (loopStep loop flags) s as = .next t ∧
      ((socketAccept s.serverSocket sel fd = -1 ∧ t.pc = .head) ∨
        (t.client = socketAccept s.serverSocket sel fd ∧ t.pc = .recv 0)) := by
  by_cases hs : socketSelect s.serverSocket sel = -1
  · have hrun : run (loopStep loop flags) s [.select sel] = .next { s with pc := .head } := by
      simp [loopStep,hp,hs]
    exact ⟨_,_,by simp,hrun,.inl ⟨by simp [socketAccept,hs],rfl⟩⟩
  by_cases hf : fd = -1
  · have hrun : run (loopStep loop flags) s [.select sel,.accept fd] =
        .next { s with pc := .head, client := fd } := by
      simp [loopStep,hp,hs,ho,show fd < 0 by omega]
    exact ⟨_,_,by simp,hrun,.inl ⟨by simp [socketAccept,hf],rfl⟩⟩
  · have hrun : run (loopStep loop flags) s [.select sel,.accept fd] =
        .next { s with pc := .recv 0, client := fd, recvbuf := List.replicate 100 0,
                       opened := s.opened ++ [fd], peer := ⟨[],true,false⟩, armed := false } := by
      simp [loopStep,hp,hs,ho,show ¬ fd < 0 by omega]
    exact ⟨_,_,by simp,hrun,.inr ⟨by simp [socketAccept,hs,hf],rfl⟩⟩

def answer (s : Loop) : LoopAction → List RecvResult
  | .recv n => [.data (s.peer.inbox.take n)]
  | .recvClosed => [.closed]
  | .recvSelect sel => [.error sel]
  | .socket _ | .bind _ | .listen _ | .test | .select _ | .accept _ | .recvError | .handle |
    .setFlag _ | .peerSend _ | .peerClose | .peerBreak => []

def answers (loop : CommandLoop) (flags : UInt32) : Loop → List LoopAction → List RecvResult
  | _, [] => []
  | s, a :: as =>
    match loopStep loop flags s a with
    | .next t => answer s a ++ answers loop flags t as
    | .blocked | .fault => []

theorem answers_cons {a : LoopAction} {as : List LoopAction}
    (h : loopStep loop flags s a = .next t) :
    answers loop flags s (a :: as) = answer s a ++ answers loop flags t as := by
  simp only [answers,h]

def LoopPc.receiving (recvd : Nat) (pc : LoopPc) : Prop := pc = .recv recvd ∨ pc = .recvSelect recvd

def LoopAction.betweenClients : LoopAction → Bool
  | .socket _ | .bind _ | .listen _ | .test | .select _ | .handle => true
  | .accept _ | .recv _ | .recvClosed | .recvError | .recvSelect _ | .setFlag _ | .peerSend _ |
    .peerClose | .peerBreak => false

theorem betweenClients_next {a : LoopAction} (ha : a.betweenClients = true)
    (h : loopStep loop flags s a = .next t) :
    (∀ recvd, ¬ t.pc.receiving recvd) ∧ ∀ ret, t.pc ≠ .handle ret := by
  cases a with
  | socket fd =>
    obtain ⟨-,⟨-,rfl⟩ | ⟨-,rfl⟩⟩ := socket_next h
    all_goals simp [LoopPc.receiving]
  | bind ret =>
    obtain ⟨_,-,rfl⟩ := bind_next h
    by_cases hr : ret < 0 <;> simp [LoopPc.receiving,hr]
  | listen ret =>
    obtain ⟨_,-,⟨-,rfl⟩ | ⟨-,rfl⟩⟩ := listen_next h
    all_goals simp [LoopPc.receiving]
  | test =>
    obtain ⟨-,rfl⟩ := test_next h
    cases hgo : loop.goesOn s.flag <;> simp [LoopPc.receiving]
  | select sel =>
    obtain ⟨-,rfl⟩ := select_next h
    by_cases hsel : socketSelect s.serverSocket sel = -1 <;> simp [LoopPc.receiving,hsel]
  | handle =>
    obtain ⟨_,-,rfl⟩ := handle_next h
    simp [LoopPc.receiving]
  | _ => simp [LoopAction.betweenClients] at ha

theorem receiving_step {recvd : Nat} {a : LoopAction} (hc : 0 ≤ s.client) (hl : recvd < 100)
    (hp : s.pc.receiving recvd) (h : loopStep loop flags s a = .next t) :
    t.client = s.client ∧
      ((∃ recvd' < 100, t.pc.receiving recvd' ∧ ∀ rs,
        socketRecv s.client s.recvbuf recvd 100 (answer s a ++ rs) =
          socketRecv t.client t.recvbuf recvd' 100 rs) ∨
      ∃ ret, t.pc = .handle ret ∧ ∀ rs,
        socketRecv s.client s.recvbuf recvd 100 (answer s a ++ rs) = some (ret,t.recvbuf)) := by
  by_cases ha : a.own = false
  · obtain ⟨hpc,-,-,hcl,hbuf,-⟩ := other_next ha h
    refine ⟨hcl,.inl ⟨recvd,hl,hpc ▸ hp,fun rs => ?_⟩⟩
    cases a <;> simp_all [answer,LoopAction.own]
  · cases a with
    | socket fd => simp [LoopPc.receiving,(socket_next h).1] at hp
    | bind ret =>
      obtain ⟨_,hpc,-⟩ := bind_next h
      simp [LoopPc.receiving,hpc] at hp
    | listen ret =>
      obtain ⟨_,hpc,-⟩ := listen_next h
      simp [LoopPc.receiving,hpc] at hp
    | test => simp [LoopPc.receiving,(test_next h).1] at hp
    | select sel => simp [LoopPc.receiving,(select_next h).1] at hp
    | accept fd => simp [LoopPc.receiving,(accept_next h).1] at hp
    | recv n =>
      obtain ⟨r,hpc,hn,hin,hroom,rfl⟩ := recv_next h
      obtain rfl : r = recvd := by simpa [LoopPc.receiving,hpc] using hp
      have hlen : (s.peer.inbox.take n).length = n := by simp [hin]
      refine ⟨rfl,?_⟩
      by_cases hfull : r + n < 100
      · refine .inl ⟨r+n,hfull,by simp [LoopPc.receiving,hfull],fun rs => ?_⟩
        simp [answer,socketRecv,hl,hn,hroom,hin]
      · refine .inr ⟨1,by simp [hfull],fun rs => ?_⟩
        cases rs <;> simp [answer,socketRecv,hl,hn,hroom,hin,hfull]
    | recvClosed =>
      obtain ⟨r,hpc,-,-,-,rfl⟩ := recvClosed_next h
      exact ⟨rfl,.inr ⟨-2,rfl,fun rs => by simp [answer,socketRecv,hl]⟩⟩
    | recvError =>
      obtain ⟨r,hpc,⟨-,rfl⟩ | ⟨-,-,-,rfl⟩⟩ := recvError_next h
      all_goals
        obtain rfl : r = recvd := by simpa [LoopPc.receiving,hpc] using hp
        exact ⟨rfl,.inl ⟨r,hl,.inr rfl,fun rs => rfl⟩⟩
    | recvSelect sel =>
      obtain ⟨r,hpc,⟨hs,rfl⟩ | ⟨hs,-,rfl⟩⟩ := recvSelect_next h
      · exact ⟨rfl,.inr ⟨1,rfl,fun rs => by simp [answer,socketRecv,hl,hs]⟩⟩
      · obtain rfl : r = recvd := by simpa [LoopPc.receiving,hpc] using hp
        refine ⟨rfl,.inl ⟨r,hl,.inl rfl,fun rs => ?_⟩⟩
        have hready : socketSelect s.client sel = s.client := by
          unfold socketSelect at hs ⊢
          split at hs
          · omega
          · rename_i hn
            rw [if_neg hn]
        simp [answer,socketRecv,hl,hready,Int.not_lt.mpr hc]
    | handle =>
      obtain ⟨_,hpc,-⟩ := handle_next h
      simp [LoopPc.receiving,hpc] at hp
    | setFlag flag | peerSend chunk | peerClose | peerBreak => simp [LoopAction.own] at ha

theorem handle_waits {ret : Int} {a : LoopAction} (hp : s.pc = .handle ret) (ha : a ≠ .handle)
    (h : loopStep loop flags s a = .next t) : t.pc = .handle ret ∧ t.recvbuf = s.recvbuf := by
  cases a with
  | setFlag flag | peerSend chunk | peerClose | peerBreak =>
    obtain ⟨hpc,-,-,-,hbuf,-⟩ := other_next rfl h
    exact ⟨hpc.trans hp,hbuf⟩
  | socket fd | bind r | listen r | test | select sel | accept fd | recv n | recvClosed |
    recvError | recvSelect sel => simp [loopStep,hp] at h
  | handle => exact absurd rfl ha

theorem handle_waits_run {ret : Int} {as : List LoopAction} (hp : s.pc = .handle ret)
    (hh : .handle ∉ as) (hr : run (loopStep loop flags) s as = .next t) :
    t.pc = .handle ret ∧ t.recvbuf = s.recvbuf := by
  refine invariant_run_of_forall (G := fun a => a ≠ .handle)
    (I := fun u => u.pc = .handle ret ∧ u.recvbuf = s.recvbuf) ?_ hr
    (fun a hm he => hh (he ▸ hm)) ⟨hp,rfl⟩
  rintro u a v ⟨hpc,hbuf⟩ hne hv
  obtain ⟨hpc',hbuf'⟩ := handle_waits hpc hne hv
  exact ⟨hpc',hbuf'.trans hbuf⟩

/-- The system calls of `SocketRecv`, one by one, are those of `socketRecv`: when they end
they have left its result and its buffer. -/
theorem recv_run {recvd : Nat} {as : List LoopAction} {ret : Int} (hc : 0 ≤ s.client)
    (hl : recvd < 100) (hp : s.pc.receiving recvd) (hh : .handle ∉ as)
    (hr : run (loopStep loop flags) s as = .next t) (ht : t.pc = .handle ret) :
    socketRecv s.client s.recvbuf recvd 100 (answers loop flags s as) = some (ret,t.recvbuf) := by
  induction as generalizing s recvd with
  | nil =>
    simp only [run_nil,Outcome.next.injEq] at hr
    subst hr
    simp [LoopPc.receiving,ht] at hp
  | cons a as ih =>
    simp only [run_cons,Outcome.bind_eq_next] at hr
    obtain ⟨u,hu,hrest⟩ := hr
    obtain ⟨hcl,⟨recvd',hl',hp',hs⟩ | ⟨ret',hp',hs⟩⟩ := receiving_step hc hl hp hu
    · rw [answers_cons hu,hs]
      exact ih (hcl ▸ hc) hl' hp' (fun hm => hh (by simp [hm])) hrest
    · obtain ⟨hp'',hbuf⟩ := handle_waits_run hp' (fun hm => hh (by simp [hm])) hrest
      obtain rfl : ret = ret' := by simpa [ht] using hp''
      rw [answers_cons hu,hs,hbuf]

end

end IntelligentAcoustics.Serving
