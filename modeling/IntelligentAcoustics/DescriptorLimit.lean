import IntelligentAcoustics.Descriptors
import Mathlib.Data.List.Perm.Subperm

/-!
How long a command loop can serve. Every client costs it a descriptor for good, and a
process has only so many of them.
-/

set_option autoImplicit false

namespace IntelligentAcoustics.Serving
open Transition

def LoopAction.handed : LoopAction → Option Int
  | .socket fd | .accept fd => if fd < 0 then none else some fd
  | .bind _ | .listen _ | .test | .select _ | .recv _ | .recvClosed | .recvError |
    .recvSelect _ | .handle | .setFlag _ | .peerSend _ | .peerClose | .peerBreak => none

def LoopAction.accepts : LoopAction → Bool
  | .accept fd => 0 ≤ fd
  | .socket _ | .bind _ | .listen _ | .test | .select _ | .recv _ | .recvClosed | .recvError |
    .recvSelect _ | .handle | .setFlag _ | .peerSend _ | .peerClose | .peerBreak => false

def LoopPc.early : LoopPc → Bool
  | .socket | .bind _ | .listen _ | .failed => true
  | .head | .select | .accept | .recv _ | .recvSelect _ | .handle _ | .stopped => false

/-- After `n` clients: the listening socket and one descriptor for each of them. -/
structure Tally (s : Loop) (n : Nat) : Prop where
  first : s.pc = .socket → s.opened = []
  none : s.pc.early = true → n = 0
  opened : s.pc ≠ .socket → s.pc ≠ .failed → s.opened.length = n+1
  nodup : s.opened.Nodup

section
variable {loop : CommandLoop} {flags : UInt32} {s t : Loop} {n : Nat}

theorem opened_step {a : LoopAction} (h : loopStep loop flags s a = .next t) :
    t.opened = s.opened ++ a.handed.toList := by
  cases a with
  | socket fd =>
    obtain ⟨-,⟨hfd,rfl⟩ | ⟨hfd,rfl⟩⟩ := socket_next h
    · simp [LoopAction.handed,hfd]
    · simp [LoopAction.handed,Int.not_lt.mpr hfd]
  | accept fd =>
    obtain ⟨-,-,⟨hfd,rfl⟩ | ⟨hfd,rfl⟩⟩ := accept_next h
    · simp [LoopAction.handed,hfd]
    · simp [LoopAction.handed,Int.not_lt.mpr hfd]
  | bind ret =>
    obtain ⟨_,-,rfl⟩ := bind_next h
    simp [LoopAction.handed]
  | listen ret =>
    obtain ⟨_,-,⟨-,rfl⟩ | ⟨-,rfl⟩⟩ := listen_next h
    all_goals simp [LoopAction.handed]
  | test =>
    obtain ⟨-,rfl⟩ := test_next h
    simp [LoopAction.handed]
  | select sel =>
    obtain ⟨-,rfl⟩ := select_next h
    simp [LoopAction.handed]
  | recv k =>
    obtain ⟨_,-,-,-,-,rfl⟩ := recv_next h
    simp [LoopAction.handed]
  | recvClosed =>
    obtain ⟨_,-,-,-,-,rfl⟩ := recvClosed_next h
    simp [LoopAction.handed]
  | recvError =>
    obtain ⟨_,-,⟨-,rfl⟩ | ⟨-,-,-,rfl⟩⟩ := recvError_next h
    all_goals simp [LoopAction.handed]
  | recvSelect sel =>
    obtain ⟨_,-,⟨-,rfl⟩ | ⟨-,-,rfl⟩⟩ := recvSelect_next h
    all_goals simp [LoopAction.handed]
  | handle =>
    obtain ⟨_,-,rfl⟩ := handle_next h
    simp [LoopAction.handed]
  | setFlag flag | peerSend chunk | peerClose | peerBreak =>
    obtain ⟨-,hopen,-⟩ := other_next rfl h
    simp [LoopAction.handed,hopen]

theorem opened_run {as : List LoopAction} (h : run (loopStep loop flags) s as = .next t) :
    t.opened = s.opened ++ as.filterMap LoopAction.handed := by
  induction as generalizing s with
  | nil =>
    simp only [run_nil,Outcome.next.injEq] at h
    simp [h]
  | cons a as ih =>
    simp only [run_cons,Outcome.bind_eq_next] at h
    obtain ⟨u,hu,h⟩ := h
    rw [ih h,opened_step hu]
    cases ha : a.handed <;> simp [ha]

theorem Tally.quiet (h : Tally s n) (hopen : t.opened = s.opened)
    (hs : t.pc ≠ .socket) (he : t.pc.early = true → s.pc.early = true)
    (hp : s.pc ≠ .socket ∧ s.pc ≠ .failed) : Tally t n :=
  ⟨fun hpc => absurd hpc hs,fun hpc => h.none (he hpc),
    fun _ _ => by rw [hopen]; exact h.opened hp.1 hp.2,hopen ▸ h.nodup⟩

theorem Tally.step (h : Tally s n) {a : LoopAction} (hs : loopStep loop flags s a = .next t) :
    Tally t (n + if a.accepts then 1 else 0) := by
  cases a with
  | socket fd =>
    obtain ⟨hpc,hcase⟩ := socket_next hs
    have hnil := h.first hpc
    have hzero := h.none (by simp [hpc,LoopPc.early])
    subst hzero
    obtain ⟨-,rfl⟩ | ⟨-,rfl⟩ := hcase
    · exact ⟨by simp,by simp [LoopAction.accepts],by simp,by simp [hnil]⟩
    · exact ⟨by simp,by simp [LoopAction.accepts],by simp [hnil,LoopAction.accepts],
        by simp [hnil]⟩
  | accept fd =>
    obtain ⟨hpc,hnew,hcase⟩ := accept_next hs
    obtain ⟨hfd,rfl⟩ | ⟨hfd,rfl⟩ := hcase
    · have hno : ¬ 0 ≤ fd := Int.not_le.mpr hfd
      simp only [LoopAction.accepts,hno,decide_false,Bool.false_eq_true,if_false]
      exact h.quiet rfl (by simp) (by simp [LoopPc.early]) (by simp [hpc])
    · have hlen := h.opened (by simp [hpc]) (by simp [hpc])
      simp only [LoopAction.accepts,hfd,decide_true,if_true]
      refine ⟨by simp,by simp [LoopPc.early],fun _ _ => by simp [hlen],?_⟩
      refine List.nodup_append.mpr ⟨h.nodup,by simp,fun x hx y hy => ?_⟩
      rw [List.mem_singleton.mp hy]
      exact fun he => hnew (he ▸ hx)
  | bind ret =>
    obtain ⟨fd,hpc,rfl⟩ := bind_next hs
    refine h.quiet rfl ?_ (by simp [hpc,LoopPc.early]) (by simp [hpc])
    by_cases hret : ret < 0 <;> simp [hret]
  | listen ret =>
    obtain ⟨_,hpc,⟨-,rfl⟩ | ⟨-,rfl⟩⟩ := listen_next hs
    all_goals exact h.quiet rfl (by simp) (by simp [hpc,LoopPc.early]) (by simp [hpc])
  | test =>
    obtain ⟨hpc,rfl⟩ := test_next hs
    cases hgo : loop.goesOn s.flag
    all_goals exact h.quiet rfl (by simp) (by simp [LoopPc.early]) (by simp [hpc])
  | select sel =>
    obtain ⟨hpc,rfl⟩ := select_next hs
    by_cases hsel : socketSelect s.serverSocket sel = -1
    all_goals exact h.quiet rfl (by simp [hsel]) (by simp [hsel,LoopPc.early]) (by simp [hpc])
  | recv k =>
    obtain ⟨recvd,hpc,-,-,-,rfl⟩ := recv_next hs
    by_cases hfull : recvd + k < 100
    all_goals exact h.quiet rfl (by simp [hfull]) (by simp [hfull,LoopPc.early]) (by simp [hpc])
  | recvClosed =>
    obtain ⟨_,hpc,-,-,-,rfl⟩ := recvClosed_next hs
    exact h.quiet rfl (by simp) (by simp [LoopPc.early]) (by simp [hpc])
  | recvError =>
    obtain ⟨_,hpc,⟨-,rfl⟩ | ⟨-,-,-,rfl⟩⟩ := recvError_next hs
    all_goals exact h.quiet rfl (by simp) (by simp [LoopPc.early]) (by simp [hpc])
  | recvSelect sel =>
    obtain ⟨_,hpc,⟨-,rfl⟩ | ⟨-,-,rfl⟩⟩ := recvSelect_next hs
    all_goals exact h.quiet rfl (by simp) (by simp [LoopPc.early]) (by simp [hpc])
  | handle =>
    obtain ⟨_,hpc,rfl⟩ := handle_next hs
    exact h.quiet rfl (by simp) (by simp [LoopPc.early]) (by simp [hpc])
  | setFlag flag | peerSend chunk | peerClose | peerBreak =>
    obtain ⟨hpc,hopen,-⟩ := other_next rfl hs
    exact ⟨by rw [hpc,hopen]; exact h.first,by rw [hpc]; exact h.none,
      by rw [hpc,hopen]; exact h.opened,by rw [hopen]; exact h.nodup⟩

theorem tally_start (flag : Int) : Tally (Loop.start flag) 0 :=
  ⟨fun _ => rfl,fun _ => rfl,by simp [Loop.start],by simp [Loop.start]⟩

theorem Tally.run {as : List LoopAction} (h : Tally s n)
    (hr : run (loopStep loop flags) s as = .next t) :
    Tally t (n + as.countP LoopAction.accepts) := by
  induction as generalizing s n with
  | nil =>
    simp only [run_nil,Outcome.next.injEq] at hr
    exact hr ▸ h
  | cons a as ih =>
    simp only [run_cons,Outcome.bind_eq_next] at hr
    obtain ⟨u,hu,hr⟩ := hr
    have ht := ih (h.step hu) hr
    have hcount : n + (a :: as).countP LoopAction.accepts =
        n + (if a.accepts then 1 else 0) + as.countP LoopAction.accepts := by
      rw [List.countP_cons]
      omega
    rw [hcount]
    exact ht

theorem Tally.clients (h : Tally s n) : n = 0 ∨ s.opened.length = n+1 := by
  by_cases he : s.pc.early = true
  · exact .inl (h.none he)
  · refine .inr (h.opened ?_ ?_) <;> intro hpc <;> simp [hpc,LoopPc.early] at he

theorem length_le_limit {fds : List Int} {limit : Nat} (hn : fds.Nodup)
    (hl : ∀ fd ∈ fds, 0 ≤ fd ∧ fd < limit) : fds.length ≤ limit := by
  have hsub : fds ⊆ (List.range limit).map Int.ofNat := by
    intro fd hfd
    obtain ⟨h0,hlt⟩ := hl fd hfd
    exact List.mem_map.mpr ⟨fd.toNat,by simp; omega,Int.toNat_of_nonneg h0⟩
  simpa using (hn.subperm hsub).length_le

theorem handed_nonneg {as : List LoopAction} {fd : Int}
    (h : fd ∈ as.filterMap LoopAction.handed) : 0 ≤ fd := by
  obtain ⟨a,-,ha⟩ := List.mem_filterMap.mp h
  cases a <;> simp [LoopAction.handed] at ha <;> omega

end

/-- In each of the three loops, over every run: every descriptor it ever got is still open,
and no two of them are the same. In a process that may have `limit` descriptors and keeps
`others` for itself, the loop accepts no more clients in its whole life than are left. -/
theorem clients_bounded {loop : CommandLoop} {flag : Int} {as : List LoopAction} {s : Loop}
    {limit : Nat} {others : List Int}
    (h : run (loopStep loop msgDontWait) (Loop.start flag) as = .next s)
    (hl : ∀ fd ∈ as.filterMap LoopAction.handed, fd < limit ∧ fd ∉ others)
    (ho : others.Nodup ∧ ∀ fd ∈ others, 0 ≤ fd ∧ fd < limit) :
    s.opened = as.filterMap LoopAction.handed ∧ s.opened.Nodup ∧
      as.countP LoopAction.accepts ≤ limit - 1 - others.length := by
  have hopen : s.opened = as.filterMap LoopAction.handed := by
    simpa [Loop.start] using opened_run h
  have htally := (tally_start flag).run h
  rw [Nat.zero_add] at htally
  refine ⟨hopen,htally.nodup,?_⟩
  have hnodup : (s.opened ++ others).Nodup := by
    refine List.nodup_append.mpr ⟨htally.nodup,ho.1,fun x hx y hy he => ?_⟩
    rw [hopen] at hx
    exact (hl x hx).2 (he ▸ hy)
  have hlen := length_le_limit hnodup fun fd hfd => by
    rcases List.mem_append.mp hfd with hfd | hfd
    · rw [hopen] at hfd
      exact ⟨handed_nonneg hfd,(hl fd hfd).1⟩
    · exact ho.2 fd hfd
  rw [List.length_append] at hlen
  rcases htally.clients with hzero | hclients <;> omega

theorem clients_bounded_oneClient : oneClient.countP LoopAction.accepts ≤ 5 - 1 - 3 :=
  (@clients_bounded .main 1 oneClient _ 5 [0,1,2]
    (show run (loopStep .main msgDontWait) (Loop.start 1) oneClient = _ from rfl)
    (by decide) (by decide)).2.2

end IntelligentAcoustics.Serving
