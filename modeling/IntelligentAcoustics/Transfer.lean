import Mathlib.Algebra.GroupWithZero.Nat
import IntelligentAcoustics.Socket
import IntelligentAcoustics.Library.Transition

/-!
The loops that move bytes: `socket_send` of the CGI programs, `SocketSend` and `SocketRecv`.
One step is one turn of the loop, labelled by what the kernel answers in it.
-/

set_option autoImplicit false

namespace IntelligentAcoustics
open Transition

def ewouldblock : Int := 11

/-- `send` returned `ret` and left `errno`; `sel` answers the `select` after it, if any. -/
structure SendResult where
  ret : Int
  errno : Int
  sel : SelectResult
  deriving DecidableEq, Repr

inductive Leave where
  | broke | returned
  deriving DecidableEq, Repr

structure Sending where
  sockfd : Int
  sent : Nat
  left : Option Leave
  deriving DecidableEq, Repr

def Sending.start (sockfd : Int) : Sending := ⟨sockfd,0,none⟩

def Sending.Exited (s : Sending) (len : Int) : Prop := s.left ≠ none ∨ len ≤ s.sent

structure SendLoop where
  notSent : Int → SendResult → Except Leave Int
  value : Sending → Option Int

/-- In `boa_jpg/src/music.c` and `aitalk.c`. -/
def Cgi.socketSend : SendLoop where
  notSent sockfd a :=
    if ewouldblock ≠ a.errno then .error .returned
    else if a.sel.ret ≤ 0 ∨ ¬ a.sel.isSet then .error .broke
    else .ok sockfd
  value s := some (if s.left = some .returned then -1 else s.sent)

/-- In `msr/socket.c`; the function ends without a `return`. -/
def socketSend : SendLoop where
  notSent sockfd a :=
    if socketSelect sockfd a.sel < 0 then .error .broke else .ok (socketSelect sockfd a.sel)
  value _ := none

def Sending.given (s : Sending) (buf : Bytes) (len : Int) : Bytes :=
  (buf.drop s.sent).take (len - s.sent).toNat

/-- The kernel takes no more than it was given. -/
def SendLoop.step (loop : SendLoop) (buf : Bytes) (len : Int) (s : Sending) (a : SendResult) :
    Outcome Sending :=
  if s.left = none ∧ s.sent < len ∧ a.ret ≤ (s.given buf len).length then
    if 0 < a.ret then .next { s with sent := s.sent + a.ret.toNat }
    else
      match loop.notSent s.sockfd a with
      | .ok sockfd => .next { s with sockfd := sockfd }
      | .error leave => .next { s with left := some leave }
  else .blocked

def SendLoop.calls (loop : SendLoop) (buf : Bytes) (len : Int) :
    Sending → List SendResult → List (Bytes × SendResult) :=
  trace (loop.step buf len) fun s a => [(s.given buf len,a)]

def takenBy (calls : List (Bytes × SendResult)) : Bytes :=
  calls.flatMap fun c => c.1.take c.2.ret.toNat

structure Receiving where
  sockfd : Int
  recvd : Nat
  buf : Bytes
  ret : Option Int
  deriving DecidableEq, Repr

def Receiving.start (sockfd : Int) (buf : Bytes) : Receiving := ⟨sockfd,0,buf,none⟩

def recvStep (len : Nat) (s : Receiving) (r : RecvResult) : Outcome Receiving :=
  if s.ret = none ∧ s.recvd < len then
    match r with
    | .data chunk =>
      if 0 < chunk.length ∧ chunk.length ≤ len - s.recvd then
        .next { s with
          recvd := s.recvd + chunk.length
          buf := writeAt s.buf s.recvd chunk }
      else .blocked
    | .closed => .next { s with ret := some (-2) }
    | .error sel =>
      if socketSelect s.sockfd sel < 0 then .next { s with ret := some 1 }
      else .next { s with sockfd := socketSelect s.sockfd sel }
  else .blocked

def RecvResult.chunk : RecvResult → Bytes
  | .data chunk => chunk
  | .closed | .error _ => []

/-- The calls so far have moved the first `sent` bytes of the buffer: each byte once, in order,
and as many as the answers say. -/
structure SentExactly (buf : Bytes) (len : Nat) (calls : List (Bytes × SendResult)) (s : Sending) :
    Prop where
  within : s.sent ≤ len
  counted : s.sent = (calls.map fun c => c.2.ret.toNat).sum
  taken : takenBy calls = buf.take s.sent

/-- The chunks that came in stand one after the other at the start of the buffer, the other
bytes are old. -/
structure ReceivedExactly (old : Bytes) (len : Nat) (rs : List RecvResult) (s : Receiving) :
    Prop where
  within : s.recvd ≤ len
  counted : s.recvd = (rs.flatMap RecvResult.chunk).length
  received : s.buf.take s.recvd = rs.flatMap RecvResult.chunk
  rest : s.buf.drop s.recvd = old.drop s.recvd

def Cgi.ReturnsExactly (len : Nat) (as : List SendResult) (s : Sending) : Prop :=
  s.Exited len →
    (s.sent = len ∧ socketSend.value s = some (len : Int)) ∨
    (s.sent < len ∧ socketSend.value s = some (s.sent : Int) ∧
      ∃ a, as.getLast? = some a ∧ a.ret ≤ 0 ∧ a.errno = ewouldblock ∧
        (a.sel.ret ≤ 0 ∨ ¬ a.sel.isSet)) ∨
    (s.sent < len ∧ socketSend.value s = some (-1) ∧
      ∃ a, as.getLast? = some a ∧ a.ret ≤ 0 ∧ a.errno ≠ ewouldblock)

def SendLoop.LeftAtLast (loop : SendLoop) (len : Int) (as : List SendResult) (s : Sending) : Prop :=
  ∀ leave, s.left = some leave → s.sent < len ∧
    ∃ a, as.getLast? = some a ∧ a.ret ≤ 0 ∧ ∃ sockfd, loop.notSent sockfd a = .error leave

section
variable {loop : SendLoop} {buf : Bytes} {s t : Sending} {a : SendResult}

theorem SendLoop.step_next {len : Int} (h : loop.step buf len s a = .next t) :
    s.left = none ∧ s.sent < len ∧ a.ret ≤ (s.given buf len).length ∧
    ((0 < a.ret ∧ t = { s with sent := s.sent + a.ret.toNat }) ∨
      (a.ret ≤ 0 ∧ ∃ sockfd, loop.notSent s.sockfd a = .ok sockfd ∧
        t = { s with sockfd := sockfd }) ∨
      (a.ret ≤ 0 ∧ ∃ leave, loop.notSent s.sockfd a = .error leave ∧
        t = { s with left := some leave })) := by
  unfold SendLoop.step at h
  obtain ⟨⟨hleft,hlt,hmost⟩,h⟩ := guard_eq_next.mp h
  refine ⟨hleft,hlt,hmost,?_⟩
  split at h
  · rename_i hpos
    exact .inl ⟨hpos,(Outcome.next.inj h).symm⟩
  · rename_i hpos
    split at h
    · rename_i sockfd hok
      exact .inr (.inl ⟨Int.not_lt.mp hpos,sockfd,hok,(Outcome.next.inj h).symm⟩)
    · rename_i leave herr
      exact .inr (.inr ⟨Int.not_lt.mp hpos,leave,herr,(Outcome.next.inj h).symm⟩)

theorem takenBy_append (calls calls' : List (Bytes × SendResult)) :
    takenBy (calls ++ calls') = takenBy calls ++ takenBy calls' := by
  simp [takenBy]

theorem SentExactly.step {len : Nat} {calls : List (Bytes × SendResult)}
    (h : SentExactly buf len calls s) (hs : loop.step buf len s a = .next t) :
    SentExactly buf len (calls ++ [(s.given buf len,a)]) t := by
  have hnone : a.ret ≤ 0 → takenBy [(s.given buf len,a)] = [] ∧ a.ret.toNat = 0 := fun hneg => by
    have hzero : a.ret.toNat = 0 := by omega
    simp [takenBy,hzero]
  obtain ⟨-,hlt,hmost,⟨hpos,rfl⟩ | ⟨hneg,_,-,rfl⟩ | ⟨hneg,_,-,rfl⟩⟩ := SendLoop.step_next hs
  · have hgiven : (s.given buf len).length ≤ len - s.sent := by
      simp only [Sending.given,List.length_take]
      omega
    have hnew : takenBy [(s.given buf len,a)] = (buf.drop s.sent).take a.ret.toNat := by
      simp only [takenBy,List.flatMap_cons,List.flatMap_nil,List.append_nil,Sending.given,
        List.take_take]
      congr 1
      omega
    refine ⟨?_,by simp [h.counted],?_⟩
    · simp only
      omega
    · rw [takenBy_append,h.taken,hnew,List.take_add]
  all_goals
    obtain ⟨htaken,hzero⟩ := hnone hneg
    have hsame : takenBy (calls ++ [(s.given buf len,a)]) = takenBy calls := by
      rw [takenBy_append,htaken,List.append_nil]
    exact ⟨h.within,by simp [hzero,← h.counted],hsame.trans h.taken⟩

theorem SendLoop.LeftAtLast.step {len : Int} (as : List SendResult)
    (hs : loop.step buf len s a = .next t) : loop.LeftAtLast len (as ++ [a]) t := by
  intro leave hleave
  obtain ⟨hleft,hlt,-,⟨-,rfl⟩ | ⟨-,_,-,rfl⟩ | ⟨hneg,_,herr,rfl⟩⟩ := SendLoop.step_next hs
  · simp [hleft] at hleave
  · simp [hleft] at hleave
  · obtain rfl : _ = leave := by simpa using hleave
    exact ⟨hlt,a,by simp,hneg,s.sockfd,herr⟩

theorem SendLoop.leftAtLast_start (len sockfd : Int) : loop.LeftAtLast len [] (.start sockfd) := by
  intro leave hleave
  simp [Sending.start] at hleave

theorem SendLoop.leftAtLast_run {len sockfd : Int} {as : List SendResult}
    (h : run (loop.step buf len) (.start sockfd) as = .next s) : loop.LeftAtLast len as s :=
  invariant_schedule (I := fun s as => loop.LeftAtLast len as s)
    (fun _ as _ _ _ hs => .step as hs) h (SendLoop.leftAtLast_start len sockfd)

theorem sentExactly_start (buf : Bytes) (len : Nat) (sockfd : Int) :
    SentExactly buf len [] (.start sockfd) :=
  ⟨Nat.zero_le _,rfl,rfl⟩

theorem sentExactly_run {len : Nat} {sockfd : Int} {as : List SendResult}
    (h : run (loop.step buf len) (.start sockfd) as = .next s) :
    (loop.calls buf len (.start sockfd) as).map (·.2) = as ∧
      SentExactly buf len (loop.calls buf len (.start sockfd) as) s := by
  refine ⟨?_,?_⟩
  · have hall := trace_map (f := (·.2)) (g := id) (fun s a => [(Sending.given s buf len,a)])
      (fun _ _ => rfl) h
    rwa [List.map_id] at hall
  · exact invariant_trace (I := fun s calls => SentExactly buf len calls s) _
      (fun _ _ _ _ hi hs => hi.step hs) h (sentExactly_start buf len sockfd)

theorem Cgi.returnsExactly {len : Nat} {as : List SendResult} (hwithin : s.sent ≤ len)
    (hleft : socketSend.LeftAtLast len as s) : ReturnsExactly len as s := by
  intro hexit
  cases hl : s.left with
  | none =>
    obtain hex | hex := hexit
    · exact absurd hl hex
    · have hsent : s.sent = len := by omega
      exact .inl ⟨hsent,by simp [socketSend,hl,hsent]⟩
  | some leave =>
    obtain ⟨hlt,a,hlast,hneg,_,herr⟩ := hleft leave hl
    simp only [socketSend] at herr
    split at herr
    · rename_i herrno
      obtain rfl : Leave.returned = leave := by simpa using herr
      exact .inr (.inr ⟨by omega,by simp [socketSend,hl],a,hlast,hneg,Ne.symm herrno⟩)
    · rename_i herrno
      split at herr
      · rename_i hsel
        obtain rfl : Leave.broke = leave := by simpa using herr
        exact .inr (.inl ⟨by omega,by simp [socketSend,hl],a,hlast,hneg,
          (not_not.mp herrno).symm,hsel⟩)
      · simp at herr

end

section
variable {len : Nat} {old : Bytes} {s t : Receiving} {r : RecvResult}

theorem recvStep_next (h : recvStep len s r = .next t) : s.ret = none ∧ s.recvd < len ∧
    ((∃ chunk, r = .data chunk ∧ 0 < chunk.length ∧ chunk.length ≤ len - s.recvd ∧
        t = { s with
          recvd := s.recvd + chunk.length
          buf := writeAt s.buf s.recvd chunk }) ∨
      (r = .closed ∧ t = { s with ret := some (-2) }) ∨
      (∃ sel, r = .error sel ∧ socketSelect s.sockfd sel < 0 ∧ t = { s with ret := some 1 }) ∨
      (∃ sel, r = .error sel ∧ ¬ socketSelect s.sockfd sel < 0 ∧
        t = { s with sockfd := socketSelect s.sockfd sel })) := by
  unfold recvStep at h
  obtain ⟨⟨hret,hlt⟩,h⟩ := guard_eq_next.mp h
  refine ⟨hret,hlt,?_⟩
  cases r with
  | data chunk =>
    obtain ⟨⟨hpos,hmost⟩,h⟩ := guard_eq_next.mp h
    exact .inl ⟨chunk,rfl,hpos,hmost,(Outcome.next.inj h).symm⟩
  | closed => exact .inr (.inl ⟨rfl,(Outcome.next.inj h).symm⟩)
  | error sel =>
    simp only at h
    split at h
    · rename_i hsel
      exact .inr (.inr (.inl ⟨sel,rfl,hsel,(Outcome.next.inj h).symm⟩))
    · rename_i hsel
      exact .inr (.inr (.inr ⟨sel,rfl,hsel,(Outcome.next.inj h).symm⟩))

structure Receiving.Kept (old : Bytes) (len : Nat) (s : Receiving) (rs : List RecvResult) :
    Prop where
  within : s.recvd ≤ len
  counted : s.recvd = (rs.flatMap RecvResult.chunk).length
  buf : s.buf = writeAt old 0 (rs.flatMap RecvResult.chunk)

theorem Receiving.Kept.step {rs : List RecvResult} (hl : len ≤ old.length) (h : s.Kept old len rs)
    (hs : recvStep len s r = .next t) : t.Kept old len (rs ++ [r]) := by
  have hnone : r.chunk = [] → (rs ++ [r]).flatMap RecvResult.chunk = rs.flatMap RecvResult.chunk :=
    fun hr => by simp [hr]
  obtain ⟨-,hlt,⟨chunk,rfl,-,hmost,rfl⟩ | ⟨rfl,rfl⟩ | ⟨_,rfl,-,rfl⟩ | ⟨_,rfl,-,rfl⟩⟩ :=
    recvStep_next hs
  · refine ⟨by simp only; omega,by simp [h.counted,RecvResult.chunk],?_⟩
    have hfit : 0 + (rs.flatMap RecvResult.chunk).length ≤ old.length := by
      rw [← h.counted]
      omega
    have hwrite := writeAt_writeAt hfit chunk
    rw [← h.buf,Nat.zero_add,← h.counted] at hwrite
    simpa [RecvResult.chunk] using hwrite
  all_goals
    have hsame := hnone rfl
    exact ⟨h.within,hsame ▸ h.counted,hsame ▸ h.buf⟩

theorem Receiving.Kept.exactly {rs : List RecvResult} (h : s.Kept old len rs) :
    ReceivedExactly old len rs s := by
  refine ⟨h.within,h.counted,?_,?_⟩
  · rw [h.buf,h.counted,writeAt,List.take_zero,List.nil_append,List.take_left]
  · rw [h.buf,h.counted,writeAt,List.take_zero,List.nil_append,List.drop_left,Nat.zero_add]

theorem receivedExactly_run {sockfd : Int} {rs : List RecvResult} (hl : len ≤ old.length)
    (h : run (recvStep len) (.start sockfd old) rs = .next t) : ReceivedExactly old len rs t := by
  have hstart : (Receiving.start sockfd old).Kept old len [] :=
    ⟨Nat.zero_le _,rfl,by simp [Receiving.start,writeAt_nil]⟩
  have hkept := invariant_schedule (I := fun s rs => s.Kept old len rs)
    (fun _ _ _ _ hi hs => hi.step hl hs) h hstart
  exact hkept.exactly

theorem run_recvStep {rs : List RecvResult} (h : run (recvStep len) s rs = .next t)
    (hs : s.ret = none) :
    (t.ret = none → ∀ more, socketRecv s.sockfd s.buf s.recvd len (rs ++ more) =
      socketRecv t.sockfd t.buf t.recvd len more) ∧
    (∀ ret, t.ret = some ret → socketRecv s.sockfd s.buf s.recvd len rs = some (ret,t.buf)) := by
  induction rs generalizing s with
  | nil =>
    obtain rfl : s = t := by simpa using h
    exact ⟨fun _ _ => rfl,fun ret hret => by simp [hs] at hret⟩
  | cons r rs ih =>
    simp only [run_cons,Outcome.bind_eq_next] at h
    obtain ⟨u,hu,hr⟩ := h
    have hstop : ∀ ret, u.ret = some ret → rs = [] ∧ t = u := by
      intro ret hret
      cases rs with
      | nil => exact ⟨rfl,by simpa [eq_comm] using hr⟩
      | cons r' rs =>
        simp only [run_cons,Outcome.bind_eq_next] at hr
        obtain ⟨_,hv,-⟩ := hr
        simp [(recvStep_next hv).1] at hret
    obtain ⟨-,hlt,⟨chunk,rfl,hpos,hmost,rfl⟩ | ⟨rfl,rfl⟩ | ⟨sel,rfl,hsel,rfl⟩ |
      ⟨sel,rfl,hsel,rfl⟩⟩ := recvStep_next hu
    · obtain ⟨hgo,hret⟩ := ih hr hs
      simp only [List.cons_append,socketRecv,if_pos hlt,if_pos (And.intro hpos hmost)]
      exact ⟨hgo,hret⟩
    · obtain ⟨rfl,rfl⟩ := hstop _ rfl
      refine ⟨fun hn => by simp at hn,fun ret hret => ?_⟩
      simp only [Option.some.injEq] at hret
      simp [socketRecv,hlt,hret]
    · obtain ⟨rfl,rfl⟩ := hstop _ rfl
      refine ⟨fun hn => by simp at hn,fun ret hret => ?_⟩
      simp only [Option.some.injEq] at hret
      simp [socketRecv,hlt,hsel,hret]
    · obtain ⟨hgo,hret⟩ := ih hr hs
      simp only [List.cons_append,socketRecv,if_pos hlt,if_neg hsel]
      exact ⟨hgo,hret⟩

end

/-- However the kernel cuts the bytes into pieces and whatever else it answers: at each turn the
calls of a sending loop have moved exactly the bytes before its counter, and what `SocketRecv`
has been given stands in its buffer. -/
theorem transfers_exact (sockfd : Int) (buf : Bytes) (len : Nat) (hl : len ≤ buf.length) :
    (∀ as s, run (Cgi.socketSend.step buf len) (.start sockfd) as = .next s →
      let calls := Cgi.socketSend.calls buf len (.start sockfd) as
      calls.map (·.2) = as ∧ SentExactly buf len calls s ∧ Cgi.ReturnsExactly len as s) ∧
    (∀ as s, run (socketSend.step buf len) (.start sockfd) as = .next s →
      let calls := socketSend.calls buf len (.start sockfd) as
      calls.map (·.2) = as ∧ SentExactly buf len calls s) ∧
    (∀ rs s, run (recvStep len) (.start sockfd buf) rs = .next s →
      ReceivedExactly buf len rs s ∧
        ∀ ret, s.ret = some ret → socketRecv sockfd buf 0 len rs = some (ret,s.buf)) := by
  refine ⟨fun as s h => ?_,fun as s h => sentExactly_run h,fun rs s h => ?_⟩
  · obtain ⟨hall,hsent⟩ := sentExactly_run h
    exact ⟨hall,hsent,Cgi.returnsExactly hsent.within (SendLoop.leftAtLast_run h)⟩
  · exact ⟨receivedExactly_run hl h,(run_recvStep h rfl).2⟩

theorem transfers_exact_twoPieces :
    (∃ s, run (Cgi.socketSend.step [49,0] (2 : Nat)) (.start 3)
        [⟨1,0,⟨0,false⟩⟩,⟨-1,ewouldblock,⟨1,true⟩⟩,⟨1,0,⟨0,false⟩⟩] = .next s ∧ s.sent = 2 ∧
      takenBy (Cgi.socketSend.calls [49,0] (2 : Nat) (.start 3)
        [⟨1,0,⟨0,false⟩⟩,⟨-1,ewouldblock,⟨1,true⟩⟩,⟨1,0,⟨0,false⟩⟩]) = [49,0] ∧
      Cgi.socketSend.value s = some 2) ∧
    (∃ s, run (socketSend.step [49,0] (2 : Nat)) (.start 3)
        [⟨1,0,⟨0,false⟩⟩,⟨-1,ewouldblock,⟨0,false⟩⟩] = .next s ∧ s.left = some .broke ∧
      takenBy (socketSend.calls [49,0] (2 : Nat) (.start 3)
        [⟨1,0,⟨0,false⟩⟩,⟨-1,ewouldblock,⟨0,false⟩⟩]) = [49]) ∧
    ∃ s, run (recvStep 2) (.start 3 [7,7]) [.data [49],.error ⟨1,true⟩,.data [0]] = .next s ∧
      s.buf.take s.recvd = [49,0] := by
  have hexact := transfers_exact 3 [49,0] 2 (by decide)
  obtain ⟨-,hcgi,hreturns⟩ := hexact.1
    [⟨1,0,⟨0,false⟩⟩,⟨-1,ewouldblock,⟨1,true⟩⟩,⟨1,0,⟨0,false⟩⟩] ⟨3,2,none⟩ rfl
  obtain ⟨-,hsend⟩ := hexact.2.1 [⟨1,0,⟨0,false⟩⟩,⟨-1,ewouldblock,⟨0,false⟩⟩] ⟨3,1,some .broke⟩ rfl
  obtain ⟨hrecv,-⟩ := (transfers_exact 3 [7,7] 2 (by decide)).2.2
    [.data [49],.error ⟨1,true⟩,.data [0]] ⟨3,2,[49,0],none⟩ rfl
  refine ⟨⟨_,rfl,rfl,hcgi.taken,?_⟩,⟨_,rfl,rfl,hsend.taken⟩,⟨_,rfl,hrecv.received⟩⟩
  obtain ⟨-,hvalue⟩ | ⟨hlt,-⟩ | ⟨hlt,-⟩ := hreturns (.inr (by decide))
  · exact hvalue
  · exact absurd hlt (by decide)
  · exact absurd hlt (by decide)

end IntelligentAcoustics
