import IntelligentAcoustics.ServerLoop

/-!
The descriptors that a command loop opens. There is no `close` in the loops or in
`TcpServerCreate`.
-/

set_option autoImplicit false

namespace IntelligentAcoustics.Serving
open Transition

structure Balanced (s : Loop) : Prop where
  head : s.pc = .head → s.opened = [s.serverSocket]
  failed : s.pc = .failed → s.opened = []

/-- `bind` and `listen` succeed, and the loop does not come back from a client. -/
def NothingToClose (_ : Loop) : LoopAction → Prop
  | .bind ret | .listen ret => 0 ≤ ret
  | .handle => False
  | _ => True

def Accounted (s : Loop) : Prop :=
  match s.pc with
  | .socket | .failed => s.opened = []
  | .bind serverSocket | .listen serverSocket => s.opened = [serverSocket]
  | .head | .select | .accept | .stopped => s.opened = [s.serverSocket]
  | .recv _ | .recvSelect _ | .handle _ => s.opened = [s.serverSocket,s.client]

section
variable {loop : CommandLoop} {flags : UInt32} {s t : Loop}

theorem Accounted.balanced (h : Accounted s) : Balanced s := by
  refine ⟨fun hp => ?_,fun hp => ?_⟩
  · simpa [Accounted,hp] using h
  · simpa [Accounted,hp] using h

theorem Accounted.step {a : LoopAction} (h : Accounted s) (hg : NothingToClose s a)
    (hs : loopStep loop flags s a = .next t) : Accounted t := by
  unfold Accounted at h
  cases a with
  | socket fd =>
    obtain ⟨hp,⟨-,rfl⟩ | ⟨-,rfl⟩⟩ := socket_next hs
    · simpa [hp,Accounted] using h
    · simpa [hp,Accounted] using h
  | bind ret =>
    obtain ⟨_,hp,rfl⟩ := bind_next hs
    simp only [NothingToClose] at hg
    simpa [hp,Accounted,Int.not_lt.mpr hg] using h
  | listen ret =>
    simp only [NothingToClose] at hg
    obtain ⟨_,hp,⟨hr,-⟩ | ⟨-,rfl⟩⟩ := listen_next hs
    · omega
    · simpa [hp,Accounted] using h
  | test =>
    obtain ⟨hp,rfl⟩ := test_next hs
    rw [hp] at h
    unfold Accounted
    cases loop.goesOn s.flag <;> exact h
  | select sel =>
    obtain ⟨hp,rfl⟩ := select_next hs
    rw [hp] at h
    unfold Accounted
    by_cases hsel : socketSelect s.serverSocket sel = -1
    · simpa [hsel] using h
    · simpa [hsel] using h
  | accept fd =>
    obtain ⟨hp,-,⟨-,rfl⟩ | ⟨-,rfl⟩⟩ := accept_next hs
    · simpa [hp,Accounted] using h
    · simp only [hp] at h
      simp [Accounted,h]
  | recv n =>
    obtain ⟨recvd,hp,-,-,-,rfl⟩ := recv_next hs
    rw [hp] at h
    unfold Accounted
    by_cases hfull : recvd + n < 100
    · simpa [hfull] using h
    · simpa [hfull] using h
  | recvClosed =>
    obtain ⟨_,hp,-,-,-,rfl⟩ := recvClosed_next hs
    simpa [hp,Accounted] using h
  | recvError =>
    obtain ⟨_,hp,⟨-,rfl⟩ | ⟨-,-,-,rfl⟩⟩ := recvError_next hs
    · simpa [hp,Accounted] using h
    · simpa [hp,Accounted] using h
  | recvSelect sel =>
    obtain ⟨_,hp,⟨-,rfl⟩ | ⟨-,-,rfl⟩⟩ := recvSelect_next hs
    · simpa [hp,Accounted] using h
    · simpa [hp,Accounted] using h
  | handle => exact absurd hg id
  | setFlag flag | peerSend chunk | peerClose | peerBreak =>
    obtain ⟨hpc,hopen,hsock,hcl,-,-⟩ := other_next rfl hs
    unfold Accounted
    rw [hpc,hopen,hsock,hcl]
    exact h

theorem nothingToClose_of_balanced {a : LoopAction} (h : Accounted s)
    (hs : loopStep loop flags s a = .next t) (ht : Balanced t) : NothingToClose s a := by
  unfold Accounted at h
  cases a with
  | bind ret =>
    obtain ⟨_,hp,rfl⟩ := bind_next hs
    simp only [hp] at h
    by_contra hr
    simp only [NothingToClose,Int.not_le] at hr
    have hfail := ht.failed (by simp [hr])
    simp [h] at hfail
  | listen ret =>
    obtain ⟨_,hp,⟨-,rfl⟩ | ⟨hr,-⟩⟩ := listen_next hs
    · simp only [hp] at h
      have hfail := ht.failed rfl
      simp [h] at hfail
    · exact hr
  | handle =>
    obtain ⟨_,hp,rfl⟩ := handle_next hs
    simp only [hp] at h
    have hhead := ht.head rfl
    simp [h] at hhead
  | socket fd | test | select sel | accept fd | recv n | recvClosed | recvError
  | recvSelect sel | setFlag flag | peerSend chunk | peerClose | peerBreak => trivial

end

/-- In each of the three loops, over every run of it with any answers of the kernel and any
clients: the accounts are right as long as there was nothing to close. -/
theorem descriptors_balanced_iff (loop : CommandLoop) (flag : Int) (as : List LoopAction) :
    Always (loopStep loop msgDontWait) Balanced (Loop.start flag) as ↔
      Along (loopStep loop msgDontWait) NothingToClose (Loop.start flag) as :=
  always_iff_along (I := Accounted) (P := Balanced) (fun _ _ _ h hg hs => h.step hg hs)
    (fun _ h => h.balanced) (fun _ _ _ h hs ht => nothingToClose_of_balanced h hs ht)
    (show Accounted (Loop.start flag) from rfl) as

def oneClient : List LoopAction :=
  [.socket 3,.bind 0,.listen 0,.test,.select ⟨1,true⟩,.accept 4,.peerSend (ascii "1"),
   .peerClose,.recv 1,.recvClosed,.handle]

theorem client_left_open : ∃ s,
    run (loopStep .autoProcess msgDontWait) (Loop.start 0) oneClient = .next s ∧
      s.pc = .head ∧ s.serverSocket = 3 ∧ s.opened = [3,4] ∧ ¬ Balanced s :=
  ⟨_,rfl,rfl,rfl,rfl,fun h => absurd (h.head rfl) (by decide)⟩

end IntelligentAcoustics.Serving
