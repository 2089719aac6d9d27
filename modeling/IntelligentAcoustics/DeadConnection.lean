import IntelligentAcoustics.Transfer
import Mathlib.Data.Nat.Find

/-!
Sending to a peer that is gone. `socket_send` looks at `errno`; `SocketSend` only asks
`select`, and asks it for reading, which a closed connection always allows.
-/

set_option autoImplicit false

namespace IntelligentAcoustics
open Transition

/-- From now on each `send` fails, and not because it would have to wait. -/
structure DeadPeer where
  answer : Nat → SendResult
  dead : ∀ i, (answer i).ret < 0 ∧ (answer i).errno ≠ ewouldblock

def DeadPeer.answers (peer : DeadPeer) (n : Nat) : List SendResult := (List.range n).map peer.answer

def SendLoop.Exits (loop : SendLoop) (buf : Bytes) (len : Int) (s : Sending) (peer : DeadPeer) :
    Prop :=
  ∃ n t, run (loop.step buf len) s (peer.answers n) = .next t ∧ t.Exited len

def SendLoop.Tells (loop : SendLoop) (len : Int) (s : Sending) : Prop :=
  ∃ ret, loop.value s = some ret ∧ (len ≤ ret ↔ len ≤ s.sent)

/-- The loop comes to an end and its function tells the caller how. -/
def SendLoop.GivesUp (loop : SendLoop) (buf : Bytes) (len : Int) (s : Sending) (peer : DeadPeer) :
    Prop :=
  ∃ n t, run (loop.step buf len) s (peer.answers n) = .next t ∧ t.Exited len ∧ loop.Tells len t

section
variable {loop : SendLoop} {buf : Bytes} {len : Int} {s t : Sending} {peer : DeadPeer}

theorem DeadPeer.answers_succ (n : Nat) : peer.answers (n + 1) = peer.answers n ++ [peer.answer n] := by
  simp [DeadPeer.answers,List.range_succ]

theorem step_dead_ok (buf : Bytes) {a : SendResult} {sockfd : Int} (hin : ¬ s.Exited len) (hneg : a.ret < 0)
    (hok : loop.notSent s.sockfd a = .ok sockfd) :
    loop.step buf len s a = .next { s with sockfd := sockfd } := by
  simp only [Sending.Exited,not_or,not_not,Int.not_le] at hin
  rw [SendLoop.step,if_pos ⟨hin.1,hin.2,by omega⟩,if_neg (by omega),hok]

theorem step_dead_error (buf : Bytes) {a : SendResult} {leave : Leave} (hin : ¬ s.Exited len) (hneg : a.ret < 0)
    (herr : loop.notSent s.sockfd a = .error leave) :
    loop.step buf len s a = .next { s with left := some leave } := by
  simp only [Sending.Exited,not_or,not_not,Int.not_le] at hin
  rw [SendLoop.step,if_pos ⟨hin.1,hin.2,by omega⟩,if_neg (by omega),herr]

theorem cgi_tells {as : List SendResult} (hleft : Cgi.socketSend.LeftAtLast len as s) : Cgi.socketSend.Tells len s := by
  refine ⟨_,rfl,?_⟩
  split
  · rename_i hl
    have hlt := (hleft _ hl).1
    omega
  · exact Iff.rfl

theorem cgi_givesUp {as : List SendResult} (hleft : Cgi.socketSend.LeftAtLast len as s) :
    Cgi.socketSend.GivesUp buf len s peer := by
  by_cases hin : s.Exited len
  · exact ⟨0,s,rfl,hin,cgi_tells hleft⟩
  · obtain ⟨hneg,herrno⟩ := peer.dead 0
    have hleave : Cgi.socketSend.notSent s.sockfd (peer.answer 0) = .error .returned :=
      if_pos (Ne.symm herrno)
    have hstep := step_dead_error buf hin hneg hleave
    have hrun : run (Cgi.socketSend.step buf len) s (peer.answers 1) = .next _ :=
      Outcome.bind_eq_next.mpr ⟨_,hstep,rfl⟩
    exact ⟨1,_,hrun,.inl (by simp),cgi_tells (.step as hstep)⟩

theorem socketSend_goesOn (buf : Bytes) (hin : ¬ s.Exited len) (n : Nat)
    (hsel : ∀ i, i < n → 0 ≤ socketSelect s.sockfd (peer.answer i).sel) :
    ∃ t, run (socketSend.step buf len) s (peer.answers n) = .next t ∧ ¬ t.Exited len ∧
      t.sockfd = s.sockfd := by
  induction n with
  | zero => exact ⟨s,rfl,hin,rfl⟩
  | succ n ih =>
    obtain ⟨t,ht,hint,hfd⟩ := ih (fun i hi => hsel i (by omega))
    have hgo : socketSend.notSent t.sockfd (peer.answer n) = .ok s.sockfd := by
      have hn := hsel n (by omega)
      rw [← hfd] at hn ⊢
      simp only [socketSend,if_neg (Int.not_lt.mpr hn)]
      unfold socketSelect at hn ⊢
      split at hn
      · omega
      · rename_i hready
        rw [if_neg hready]
    have hstep := step_dead_ok buf hint (peer.dead n).1 hgo
    refine ⟨{ t with sockfd := s.sockfd },?_,hint,rfl⟩
    rw [DeadPeer.answers_succ,run_append ht,run_cons]
    exact Outcome.bind_eq_next.mpr ⟨_,hstep,rfl⟩

theorem socketSend_exits_iff : socketSend.Exits buf len s peer ↔
    s.Exited len ∨ ∃ i, socketSelect s.sockfd (peer.answer i).sel < 0 := by
  constructor
  · rintro ⟨n,t,ht,hexit⟩
    by_contra hnot
    simp only [not_or,not_exists,Int.not_lt] at hnot
    obtain ⟨u,hu,hinu,-⟩ := socketSend_goesOn buf hnot.1 n (fun i _ => hnot.2 i)
    obtain rfl : t = u := by simpa [ht] using hu
    exact hinu hexit
  · intro h
    by_cases hin : s.Exited len
    · exact ⟨0,s,rfl,hin⟩
    · -- the first `select` that reports nothing ends the loop
      have hsel := h.resolve_left hin
      have hfirst := Nat.find_spec hsel
      obtain ⟨t,ht,hint,hfd⟩ := socketSend_goesOn buf hin (Nat.find hsel)
        (fun i hi => Int.not_lt.mp (Nat.find_min hsel hi))
      have hbreak : socketSend.notSent t.sockfd (peer.answer (Nat.find hsel)) = .error .broke := by
        rw [hfd]
        exact if_pos hfirst
      have hstep := step_dead_error buf hint (peer.dead (Nat.find hsel)).1 hbreak
      refine ⟨Nat.find hsel + 1,
        { t with left := some .broke },?_,
        .inl (by simp)⟩
      rw [DeadPeer.answers_succ,run_append ht,run_cons]
      exact Outcome.bind_eq_next.mpr ⟨_,hstep,rfl⟩

theorem socketSend_not_givesUp : ¬ socketSend.GivesUp buf len s peer := by
  rintro ⟨_,t,-,-,ret,hret,-⟩
  simp [socketSend] at hret

end

/-- Whatever was sent before the peer went away: `socket_send` gives up, `SocketSend` comes to
an end only when a `select` reports nothing, and never says what it did. -/
theorem dead_connection (sockfd : Int) (buf : Bytes) (len : Int) (peer : DeadPeer)
    {before : List SendResult} {s : Sending}
    (h : run (Cgi.socketSend.step buf len) (.start sockfd) before = .next s) (s' : Sending) :
    Cgi.socketSend.GivesUp buf len s peer ∧
    (socketSend.Exits buf len s' peer ↔
      s'.Exited len ∨ ∃ i, socketSelect s'.sockfd (peer.answer i).sel < 0) ∧
    ¬ (Cgi.socketSend.GivesUp buf len s peer ∧ socketSend.GivesUp buf len s' peer) := by
  have hleft : Cgi.socketSend.LeftAtLast len before s := SendLoop.leftAtLast_run h
  exact ⟨cgi_givesUp hleft,socketSend_exits_iff,fun hboth => socketSend_not_givesUp hboth.2⟩

def brokenPipe : DeadPeer where
  answer _ := ⟨-1,32,⟨1,true⟩⟩
  dead _ := by decide

theorem dead_connection_oneOfTwo :
    ∃ s, run (Cgi.socketSend.step [49,0] 2) (.start 3) [⟨1,0,⟨0,false⟩⟩] = .next s ∧
    Cgi.socketSend.GivesUp [49,0] 2 s brokenPipe ∧
    ¬ (Cgi.socketSend.GivesUp [49,0] 2 s brokenPipe ∧ socketSend.GivesUp [49,0] 2 s brokenPipe) :=
  have hsent : run (Cgi.socketSend.step [49,0] 2) (.start 3) [⟨1,0,⟨0,false⟩⟩] =
    .next ⟨3,1,none⟩ := rfl
  have h := dead_connection 3 [49,0] 2 brokenPipe hsent ⟨3,1,none⟩
  ⟨_,hsent,h.1,h.2.2⟩

theorem broken_pipe_never_left : ¬ socketSend.Exits [49,0] 2 (.start 3) brokenPipe ∧
    ¬ (Cgi.socketSend.GivesUp [49,0] 2 (.start 3) brokenPipe ∧
      socketSend.GivesUp [49,0] 2 (.start 3) brokenPipe) := by
  refine ⟨fun hexits => ?_,fun hboth => socketSend_not_givesUp hboth.2⟩
  obtain hexit | ⟨i,hsel⟩ := socketSend_exits_iff.mp hexits
  · simp [Sending.Exited,Sending.start] at hexit
  · simp [socketSelect,brokenPipe,Sending.start] at hsel

end IntelligentAcoustics
