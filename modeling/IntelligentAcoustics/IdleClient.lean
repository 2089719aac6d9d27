import IntelligentAcoustics.ServerLoop

/-!
A client that connects and then does nothing. `SocketRecv` means its `recv` not to wait, but
`MSG_DONT_WAIT` is 0, and the first `recv` comes before any `select` on the client.
-/

set_option autoImplicit false

namespace IntelligentAcoustics.Serving
open Transition

/-- The loop waits in `recv` for a client that has not sent. -/
def Blocked (flags : UInt32) (s : Loop) : Prop :=
  nonBlocking flags = false ∧ s.peer.readable = false ∧ ∃ recvd, s.pc = .recv recvd

def Returns (loop : CommandLoop) (flags : UInt32) (s : Loop) : Prop :=
  ∃ as t, (∀ a ∈ as, a.own = true) ∧ run (loopStep loop flags) s as = .next t ∧ t.pc = .head

/-- No client can hold up the loop in `SocketRecv`. -/
structure NotHeldUp (loop : CommandLoop) (flags : UInt32) (s : Loop) : Prop where
  guarded : ∀ recvd, s.pc = .recv recvd → nonBlocking flags = true ∨ s.armed = true
  notBlocked : ¬ Blocked flags s
  returns : ∀ recvd, s.pc.receiving recvd → Returns loop flags s

def NoClient (_ : Loop) : LoopAction → Prop
  | .accept fd => fd < 0
  | _ => True

def Outside (s : Loop) : Prop := ∀ recvd, ¬ s.pc.receiving recvd

section
variable {loop : CommandLoop} {flags : UInt32} {s t : Loop}

theorem Outside.notHeldUp (h : Outside s) : NotHeldUp loop flags s := by
  refine ⟨fun recvd hp => absurd (.inl hp) (h recvd),?_,fun recvd hp => absurd hp (h recvd)⟩
  rintro ⟨-,-,recvd,hp⟩
  exact h recvd (.inl hp)

theorem receiving_origin {a : LoopAction} {recvd : Nat}
    (hs : loopStep loop flags s a = .next t) (ht : t.pc.receiving recvd) :
    (recvd = 0 ∧ ∃ fd, 0 ≤ fd ∧ a = .accept fd) ∨
      ∃ r, s.pc.receiving r ∧ (recvd = r ∨ recvd < 100) := by
  cases a with
  | socket fd | bind ret | listen ret | test | select sel | handle =>
    exact absurd ht ((betweenClients_next rfl hs).1 recvd)
  | accept fd =>
    obtain ⟨-,-,⟨-,rfl⟩ | ⟨hfd,rfl⟩⟩ := accept_next hs
    · simp [LoopPc.receiving] at ht
    · have h0 : 0 = recvd := by simpa [LoopPc.receiving] using ht
      exact .inl ⟨h0.symm,fd,hfd,rfl⟩
  | recv n =>
    obtain ⟨r,hp,-,-,-,rfl⟩ := recv_next hs
    refine .inr ⟨r,.inl hp,?_⟩
    by_cases hroom : r + n < 100
    · have hn : r + n = recvd := by simpa [LoopPc.receiving,hroom] using ht
      exact .inr (hn ▸ hroom)
    · simp [LoopPc.receiving,hroom] at ht
  | recvClosed =>
    obtain ⟨_,-,-,-,-,rfl⟩ := recvClosed_next hs
    simp [LoopPc.receiving] at ht
  | recvError =>
    obtain ⟨r,hp,⟨-,rfl⟩ | ⟨-,-,-,rfl⟩⟩ := recvError_next hs
    all_goals
      have hr : r = recvd := by simpa [LoopPc.receiving] using ht
      exact .inr ⟨r,.inl hp,.inl hr.symm⟩
  | recvSelect sel =>
    obtain ⟨r,hp,⟨-,rfl⟩ | ⟨-,-,rfl⟩⟩ := recvSelect_next hs
    · simp [LoopPc.receiving] at ht
    · have hr : r = recvd := by simpa [LoopPc.receiving] using ht
      exact .inr ⟨r,.inr hp,.inl hr.symm⟩
  | setFlag flag | peerSend chunk | peerClose | peerBreak =>
    obtain ⟨hpc,-⟩ := other_next rfl hs
    exact .inr ⟨recvd,hpc ▸ ht,.inl rfl⟩

theorem Outside.step {a : LoopAction} (h : Outside s) (hg : NoClient s a)
    (hs : loopStep loop flags s a = .next t) : Outside t := by
  intro recvd hp
  rcases receiving_origin hs hp with ⟨-,fd,hfd,rfl⟩ | ⟨r,hr,-⟩
  · simp only [NoClient] at hg
    omega
  · exact h r hr

theorem noClient_of_notHeldUp {a : LoopAction} (hf : nonBlocking flags = false)
    (hs : loopStep loop flags s a = .next t) (ht : NotHeldUp loop flags t) : NoClient s a := by
  cases a with
  | accept fd =>
    obtain ⟨-,-,⟨hfd,-⟩ | ⟨-,rfl⟩⟩ := accept_next hs
    · exact hfd
    · rcases ht.guarded 0 rfl with hn | ha
      · simp [hf] at hn
      · simp at ha
  | socket fd | bind ret | listen ret | test | select sel | recv n | recvClosed | recvError
  | recvSelect sel | handle | setFlag flag | peerSend chunk | peerClose | peerBreak => trivial

theorem Blocked.stuck (h : Blocked flags s) {a : LoopAction} (ha : a.own = true) :
    loopStep loop flags s a = .blocked := by
  obtain ⟨hf,hr,recvd,hp⟩ := h
  simp only [Peer.readable,decide_eq_false_iff_not,not_or,Decidable.not_not,
    Bool.not_eq_true] at hr
  obtain ⟨hin,hopen,hbroken⟩ := hr
  cases a with
  | recv n =>
    have hn : ¬ (0 < n ∧ n ≤ s.peer.inbox.length ∧ n ≤ 100 - recvd) := by
      rw [hin]
      simp only [List.length_nil]
      omega
    simp only [loopStep,hp,if_neg hn]
  | recvClosed => simp [loopStep,hp,hopen]
  | recvError => simp [loopStep,hp,hbroken,hf]
  | socket fd | bind ret | listen ret | test | select sel | accept fd | recvSelect sel
  | handle => simp [loopStep,hp]
  | setFlag flag | peerSend chunk | peerClose | peerBreak => simp [LoopAction.own] at ha

theorem Blocked.not_returns (h : Blocked flags s) : ¬ Returns loop flags s := by
  rintro ⟨as,t,ha,hr,ht⟩
  cases as with
  | nil =>
    obtain ⟨-,-,recvd,hp⟩ := h
    simp only [run_nil,Outcome.next.injEq] at hr
    simp [← hr,hp] at ht
  | cons a as => simp [h.stuck (ha a (by simp)),Outcome.bind] at hr

theorem Returns.of_step {a : LoopAction} (ha : a.own = true)
    (hs : loopStep loop flags s a = .next t) (ht : Returns loop flags t) :
    Returns loop flags s := by
  obtain ⟨as,u,has,hr,hu⟩ := ht
  refine ⟨a :: as,u,?_,by simpa [hs] using hr,hu⟩
  simp only [List.mem_cons]
  rintro b (rfl | hb)
  · exact ha
  · exact has b hb

theorem handle_returns {ret : Int} (hp : s.pc = .handle ret) : Returns loop flags s := by
  have hs : loopStep loop flags s .handle = .next { s with pc := .head } := by
    simp [loopStep,hp]
  exact .of_step rfl hs ⟨[],_,by simp,rfl,rfl⟩

theorem recvSelect_returns {recvd : Nat} (hp : s.pc = .recvSelect recvd) :
    Returns loop flags s := by
  have hs : loopStep loop flags s (.recvSelect ⟨0,false⟩) = .next { s with pc := .handle 1 } := by
    simp [loopStep,hp,socketSelect]
  exact .of_step rfl hs (handle_returns rfl)

theorem recv_empty_returns {recvd : Nat} (hp : s.pc = .recv recvd) (hin : s.peer.inbox = [])
    (hf : nonBlocking flags = true ∨ s.peer.isOpen = false ∨ s.peer.broken = true) :
    Returns loop flags s := by
  by_cases hbroken : s.peer.broken = true
  · have hs : loopStep loop flags s .recvError =
        .next { s with pc := .recvSelect recvd, peer := ⟨[],false,false⟩ } := by
      simp [loopStep,hp,hbroken]
    exact .of_step rfl hs (recvSelect_returns rfl)
  · rw [Bool.not_eq_true] at hbroken
    by_cases hopen : s.peer.isOpen = true
    · have hflag : nonBlocking flags = true := by simpa [hopen,hbroken] using hf
      have hs : loopStep loop flags s .recvError = .next { s with pc := .recvSelect recvd } := by
        simp [loopStep,hp,hbroken,hin,hopen,hflag]
      exact .of_step rfl hs (recvSelect_returns rfl)
    · rw [Bool.not_eq_true] at hopen
      have hs : loopStep loop flags s .recvClosed = .next { s with pc := .handle (-2) } := by
        simp [loopStep,hp,hbroken,hin,hopen]
      exact .of_step rfl hs (handle_returns rfl)

theorem recv_returns {recvd : Nat} (hp : s.pc = .recv recvd) (hl : recvd < 100)
    (hf : (nonBlocking flags = true ∨ s.peer.isOpen = false ∨ s.peer.broken = true) ∨
      100 ≤ recvd + s.peer.inbox.length) : Returns loop flags s := by
  by_cases hin : s.peer.inbox = []
  · refine recv_empty_returns hp hin (hf.resolve_right ?_)
    simp only [hin,List.length_nil]
    omega
  · have hpos : 0 < s.peer.inbox.length := List.length_pos_iff.mpr hin
    -- all that is there, as far as it fits
    obtain ⟨n,hn⟩ : ∃ n, n = min s.peer.inbox.length (100 - recvd) := ⟨_,rfl⟩
    have hguard : 0 < n ∧ n ≤ s.peer.inbox.length ∧ n ≤ 100 - recvd := by omega
    obtain ⟨t,hs,hpc,hpeer⟩ : ∃ t, loopStep loop flags s (.recv n) = .next t ∧
        t.pc = (if recvd + n < 100 then .recv (recvd + n) else .handle 1) ∧
        t.peer = { s.peer with inbox := s.peer.inbox.drop n } := by
      simp only [loopStep,hp,if_pos hguard]
      exact ⟨_,rfl,rfl,rfl⟩
    refine .of_step rfl hs ?_
    by_cases hroom : recvd + n < 100
    · rw [if_pos hroom] at hpc
      have hrest : s.peer.inbox.drop n = [] := List.drop_eq_nil_of_le (by omega)
      refine recv_empty_returns hpc (by rw [hpeer,hrest]) ?_
      rw [hpeer]
      exact hf.resolve_right (by omega)
    · rw [if_neg hroom] at hpc
      exact handle_returns hpc

/-- In `recv`, and what the client has sent will not fill the buffer. -/
structure Waits (s : Loop) : Prop where
  isOpen : s.peer.isOpen = true
  unbroken : s.peer.broken = false
  short : ∃ recvd, s.pc = .recv recvd ∧ recvd + s.peer.inbox.length < 100

theorem Waits.step (h : Waits s) (hf : nonBlocking flags = false) {a : LoopAction}
    (ha : a.own = true) (hs : loopStep loop flags s a = .next t) : Waits t := by
  obtain ⟨hopen,hbroken,recvd,hp,hshort⟩ := h
  cases a with
  | recv n =>
    obtain ⟨r,hr,-,hn,-,rfl⟩ := recv_next hs
    obtain rfl : recvd = r := by simpa [hp] using hr
    refine ⟨hopen,hbroken,recvd + n,?_,?_⟩
    · exact if_pos (by omega)
    · simp only [List.length_drop]
      omega
  | recvClosed =>
    obtain ⟨_,-,-,hclosed,-⟩ := recvClosed_next hs
    simp [hopen] at hclosed
  | recvError =>
    obtain ⟨_,-,⟨hb,-⟩ | ⟨-,-,hflag,-⟩⟩ := recvError_next hs
    · simp [hbroken] at hb
    · simp [hf] at hflag
  | socket fd | bind ret | listen ret | test | select sel | accept fd | recvSelect sel
  | handle => simp [loopStep,hp] at hs
  | setFlag flag | peerSend chunk | peerClose | peerBreak => simp [LoopAction.own] at ha

theorem recv_returns_iff {recvd : Nat} (hf : nonBlocking flags = false)
    (hp : s.pc = .recv recvd) (hl : recvd < 100) : Returns loop flags s ↔
      (s.peer.isOpen = false ∨ s.peer.broken = true) ∨ 100 ≤ recvd + s.peer.inbox.length := by
  constructor
  · rintro ⟨as,t,ha,hr,ht⟩
    by_contra hn
    simp only [not_or,Bool.not_eq_false,Bool.not_eq_true,Nat.not_le] at hn
    have hw : Waits t := invariant_run_of_forall (fun _ _ _ h ha hs => h.step hf ha hs) hr ha
      ⟨hn.1.1,hn.1.2,recvd,hp,hn.2⟩
    obtain ⟨_,hpc,-⟩ := hw.short
    simp [ht] at hpc
  · exact fun h => recv_returns hp hl (h.imp_left .inr)

def Room (s : Loop) : Prop := ∀ recvd, s.pc.receiving recvd → recvd < 100

theorem Room.step {a : LoopAction} (h : Room s) (hs : loopStep loop flags s a = .next t) :
    Room t := by
  intro recvd hp
  rcases receiving_origin hs hp with ⟨rfl,-⟩ | ⟨r,hr,rfl | hlt⟩
  · omega
  · exact h recvd hr
  · exact hlt

theorem Room.notHeldUp (h : Room s) (hf : nonBlocking flags = true) :
    NotHeldUp loop flags s := by
  refine ⟨fun _ _ => .inl hf,fun hb => by simp [Blocked,hf] at hb,?_⟩
  rintro recvd (hp | hp)
  · exact recv_returns hp (h recvd (.inl hp)) (.inl (.inl hf))
  · exact recvSelect_returns hp

end

/-- In each of the three loops, over every run of it: no client holds it up, if and only if
none is accepted. -/
theorem idle_client_iff (loop : CommandLoop) (flag : Int) (as : List LoopAction) :
    Always (loopStep loop msgDontWait) (NotHeldUp loop msgDontWait) (Loop.start flag) as ↔
      Along (loopStep loop msgDontWait) NoClient (Loop.start flag) as :=
  always_iff_along (I := Outside) (P := NotHeldUp loop msgDontWait)
    (fun _ _ _ h hg hs => h.step hg hs) (fun _ h => h.notHeldUp)
    (fun _ _ _ _ hs ht => noClient_of_notHeldUp (by decide) hs ht)
    (show Outside (Loop.start flag) from fun recvd => by simp [Loop.start,LoopPc.receiving]) as

theorem nonBlocking_notHeldUp {flags : UInt32} (hf : nonBlocking flags = true)
    (loop : CommandLoop) (flag : Int) (as : List LoopAction) :
    Always (loopStep loop flags) (NotHeldUp loop flags) (Loop.start flag) as :=
  always_of_invariant (I := Room) (fun _ _ _ h hs => h.step hs) (fun _ h => h.notHeldUp hf)
    (show Room (Loop.start flag) from fun recvd => by simp [Loop.start,LoopPc.receiving]) as

def idleClient : List LoopAction :=
  [.socket 3,.bind 0,.listen 0,.test,.select ⟨1,true⟩,.accept 4]

theorem idle_client_blocks : ∃ s,
    run (loopStep .autoProcess msgDontWait) (Loop.start 0) idleClient = .next s ∧
      Blocked msgDontWait s ∧ ¬ Returns .autoProcess msgDontWait s ∧
      ¬ NotHeldUp .autoProcess msgDontWait s := by
  have hb : ∀ s : Loop, s.pc = .recv 0 → s.peer = ⟨[],true,false⟩ → Blocked msgDontWait s :=
    fun s hp hr => ⟨by decide,by rw [hr]; decide,0,hp⟩
  exact ⟨_,rfl,hb _ rfl rfl,(hb _ rfl rfl).not_returns,fun h => h.notBlocked (hb _ rfl rfl)⟩

end IntelligentAcoustics.Serving
