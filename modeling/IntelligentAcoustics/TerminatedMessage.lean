import IntelligentAcoustics.ServerLoop

/-!
The message as a string. The loops clear `recvbuf[100]` and let `SocketRecv` fill all of it,
so a message of 100 bytes other than NUL leaves no end for `strlen`.
-/

set_option autoImplicit false

namespace IntelligentAcoustics.Serving
open Transition

def Terminated (s : Loop) : Prop :=
  ∀ ret, s.pc = .handle ret → ret ≠ 0 → ∃ i, i < 100 ∧ s.recvbuf[i]? = some 0

/-- The `recv` that completes 100 bytes of a message leaves a NUL among them. -/
def LeavesNul (s : Loop) : LoopAction → Prop
  | .recv n => ∀ recvd, s.pc = .recv recvd → recvd + n = 100 →
    0 ∈ s.recvbuf.take recvd ++ s.peer.inbox.take n
  | _ => True

def Clear (s : Loop) : Prop :=
  (∀ recvd, s.pc.receiving recvd → recvd < 100 ∧
    ∃ received, received.length = recvd ∧ s.recvbuf = received ++ List.replicate (100 - recvd) 0) ∧
  Terminated s

section
variable {loop : CommandLoop} {flags : UInt32} {s t : Loop}

theorem nul_of_zeros {received : Bytes} (h : received.length < 100) :
    ∃ i, i < 100 ∧ (received ++ List.replicate (100 - received.length) 0)[i]? = some (0 : UInt8) := by
  refine ⟨received.length,h,?_⟩
  rw [List.getElem?_append_right (Nat.le_refl _),Nat.sub_self]
  exact List.getElem?_replicate_of_lt (by omega)

theorem nul_of_mem {recvbuf : Bytes} (hl : recvbuf.length = 100) :
    (∃ i, i < 100 ∧ recvbuf[i]? = some 0) ↔ 0 ∈ recvbuf := by
  rw [List.mem_iff_getElem?]
  constructor
  · rintro ⟨i,-,hi⟩
    exact ⟨i,hi⟩
  · rintro ⟨i,hi⟩
    have hlt := (List.getElem?_eq_some_iff.mp hi).1
    exact ⟨i,hl ▸ hlt,hi⟩

theorem writeAt_clear (received chunk : Bytes) :
    writeAt (received ++ List.replicate (100 - received.length) 0) received.length chunk =
      (received ++ chunk) ++ List.replicate (100 - (received ++ chunk).length) 0 := by
  have hdrop : (received ++ List.replicate (100 - received.length) (0 : UInt8)).drop
      (received.length + chunk.length) = List.replicate (100 - (received ++ chunk).length) 0 := by
    rw [List.drop_length_add_append,List.drop_replicate,List.length_append]
    congr 1
    omega
  rw [writeAt,List.take_left,hdrop]

theorem Clear.outside (hr : ∀ recvd, ¬ t.pc.receiving recvd) (hh : ∀ ret, t.pc ≠ .handle ret) :
    Clear t :=
  ⟨fun recvd hp => absurd hp (hr recvd),fun ret hp => absurd hp (hh ret)⟩

theorem Clear.goesOn {recvd : Nat} (received : Bytes) (hlt : recvd < 100)
    (hlen : received.length = recvd)
    (hbuf : t.recvbuf = received ++ List.replicate (100 - recvd) 0)
    (hp : t.pc.receiving recvd) : Clear t := by
  constructor
  · intro r hr
    obtain rfl : r = recvd := by
      rcases hp with hp | hp <;> rcases hr with hr | hr <;> simp_all
    exact ⟨hlt,received,hlen,hbuf⟩
  · intro ret hret
    rcases hp with hp | hp <;> simp [hp] at hret

theorem Clear.returns {ret : Int} (received : Bytes) (hlt : received.length < 100)
    (hbuf : t.recvbuf = received ++ List.replicate (100 - received.length) 0)
    (hp : t.pc = .handle ret) : Clear t := by
  constructor
  · intro recvd hr
    rcases hr with hr | hr <;> simp [hp] at hr
  · intro _ _ _
    rw [hbuf]
    exact nul_of_zeros hlt

theorem Clear.recv {n : Nat} (h : Clear s) (hg : LeavesNul s (.recv n))
    (hs : loopStep loop flags s (.recv n) = .next t) : Clear t := by
  obtain ⟨recvd,hp,hn,hin,hroom,rfl⟩ := recv_next hs
  obtain ⟨hlt,received,rfl,hbuf⟩ := h.1 recvd (.inl hp)
  have hchunk : (s.peer.inbox.take n).length = n := by simp [hin]
  have hwrite := writeAt_clear received (s.peer.inbox.take n)
  rw [← hbuf] at hwrite
  by_cases hfull : received.length + n < 100
  · refine .goesOn (received ++ s.peer.inbox.take n) hfull (by simp [hchunk]) ?_ (.inl (by simp [hfull]))
    simp only [hwrite,List.length_append,hchunk]
  · constructor
    · intro r hr
      rcases hr with hr | hr <;> simp [hfull] at hr
    · intro _ _ _
      have hnul := hg received.length hp (by omega)
      rw [hbuf,List.take_left] at hnul
      have hlen : (received ++ s.peer.inbox.take n).length = 100 := by
        rw [List.length_append,hchunk]
        omega
      simp only [hwrite,hlen,Nat.sub_self,List.replicate_zero,List.append_nil]
      exact (nul_of_mem hlen).mpr hnul

theorem Clear.step {a : LoopAction} (h : Clear s) (hg : LeavesNul s a)
    (hs : loopStep loop flags s a = .next t) : Clear t := by
  cases a with
  | recv n => exact h.recv hg hs
  | accept fd =>
    obtain ⟨-,-,⟨-,rfl⟩ | ⟨-,rfl⟩⟩ := accept_next hs
    · exact .outside (by simp [LoopPc.receiving]) (by simp)
    · exact .goesOn [] (by decide) rfl rfl (.inl rfl)
  | recvClosed =>
    obtain ⟨recvd,hp,-,-,-,rfl⟩ := recvClosed_next hs
    obtain ⟨hlt,received,rfl,hbuf⟩ := h.1 recvd (.inl hp)
    exact .returns received hlt hbuf rfl
  | recvError =>
    obtain ⟨recvd,hp,⟨-,rfl⟩ | ⟨-,-,-,rfl⟩⟩ := recvError_next hs
    all_goals
      obtain ⟨hlt,received,hlen,hbuf⟩ := h.1 recvd (.inl hp)
      exact .goesOn received hlt hlen hbuf (.inr rfl)
  | recvSelect sel =>
    obtain ⟨recvd,hp,⟨-,rfl⟩ | ⟨-,-,rfl⟩⟩ := recvSelect_next hs
    · obtain ⟨hlt,received,rfl,hbuf⟩ := h.1 recvd (.inr hp)
      exact .returns received hlt hbuf rfl
    · obtain ⟨hlt,received,hlen,hbuf⟩ := h.1 recvd (.inr hp)
      exact .goesOn received hlt hlen hbuf (.inl rfl)
  | socket fd | bind ret | listen ret | test | select sel | handle =>
    obtain ⟨hr,hh⟩ := betweenClients_next rfl hs
    exact .outside hr hh
  | setFlag flag | peerSend chunk | peerClose | peerBreak =>
    obtain ⟨hpc,-,-,-,hbuf,-⟩ := other_next rfl hs
    simp only [Clear,Terminated,hpc,hbuf]
    exact h

theorem leavesNul_of_terminated {a : LoopAction} (h : Clear s)
    (hs : loopStep loop flags s a = .next t) (ht : Terminated t) : LeavesNul s a := by
  cases a with
  | recv n =>
    intro recvd hp hfull
    obtain ⟨r,hp',-,hin,-,rfl⟩ := recv_next hs
    obtain rfl : recvd = r := by simpa [hp] using hp'
    obtain ⟨-,received,rfl,hbuf⟩ := h.1 recvd (.inl hp)
    have hchunk : (s.peer.inbox.take n).length = n := by simp [hin]
    have hlen : (received ++ s.peer.inbox.take n).length = 100 := by
      rw [List.length_append,hchunk,hfull]
    have hwrite := writeAt_clear received (s.peer.inbox.take n)
    rw [← hbuf,hlen,Nat.sub_self,List.replicate_zero,List.append_nil] at hwrite
    obtain ⟨i,hi,hnul⟩ := ht 1 (by simp [hfull]) (by decide)
    simp only [hwrite] at hnul
    rw [hbuf,List.take_left]
    exact (nul_of_mem hlen).mp ⟨i,hi,hnul⟩
  | socket fd | bind ret | listen ret | test | select sel | accept fd | recvClosed | recvError
  | recvSelect sel | handle | setFlag flag | peerSend chunk | peerClose | peerBreak => trivial

end

/-- In each of the three loops, over every run of it with any clients: `strlen` finds an end
every time, if and only if no message fills the buffer with bytes other than NUL. -/
theorem message_terminated_iff (loop : CommandLoop) (flag : Int) (as : List LoopAction) :
    Always (loopStep loop msgDontWait) Terminated (Loop.start flag) as ↔
      Along (loopStep loop msgDontWait) LeavesNul (Loop.start flag) as :=
  always_iff_along (I := Clear) (P := Terminated) (fun _ _ _ h hg hs => h.step hg hs)
    (fun _ h => h.2) (fun _ _ _ h hs ht => leavesNul_of_terminated h hs ht)
    (show Clear (Loop.start flag) from
      .outside (by simp [Loop.start,LoopPc.receiving]) (by simp [Loop.start])) as

def hundredLetters : List LoopAction :=
  [.socket 3,.bind 0,.listen 0,.test,.select ⟨1,true⟩,.accept 4,
   .peerSend (List.replicate 100 97),.recv 60,.recv 40]

set_option maxRecDepth 4000 in
theorem message_without_end : ∃ s,
    run (loopStep .autoProcess msgDontWait) (Loop.start 0) hundredLetters = .next s ∧
      s.pc = .handle 1 ∧ s.recvbuf = List.replicate 100 97 ∧ ¬ Terminated s := by
  have hend : ∀ s : Loop, s.pc = .handle 1 → s.recvbuf = List.replicate 100 97 →
      ¬ Terminated s := by
    intro s hp hbuf ht
    have hnul := (nul_of_mem (by simp [hbuf])).mp (ht 1 hp (by decide))
    simp [hbuf] at hnul
  exact ⟨_,rfl,rfl,rfl,hend _ rfl rfl⟩

end IntelligentAcoustics.Serving
