import IntelligentAcoustics.CText

/-!
`msr/socket.c`. What the kernel answers to `select`, `accept` and `recv` is an argument.
-/

set_option autoImplicit false

namespace IntelligentAcoustics

structure SelectResult where
  ret : Int
  isSet : Bool
  deriving DecidableEq, Repr

def socketSelect (sockfd : Int) (sel : SelectResult) : Int :=
  if sel.ret ≤ 0 ∨ ¬ sel.isSet then -1 else sockfd

def socketAccept (sockfd : Int) (sel : SelectResult) (acceptfd : Int) : Int :=
  if socketSelect sockfd sel = -1 then -1
  else if acceptfd = -1 then -1
  else acceptfd

def tcpServerCreate (serverSocket bind listen : Int) : Int :=
  if serverSocket < 0 then -1
  else if bind < 0 then -1
  else if listen < 0 then -1
  else serverSocket

/-- One `recv`: bytes, end of stream, or an error after which `select` is asked. -/
inductive RecvResult where
  | data (chunk : Bytes)
  | closed
  | error (sel : SelectResult)
  deriving DecidableEq, Repr

def writeAt (buf : Bytes) (i : Nat) (chunk : Bytes) : Bytes :=
  buf.take i ++ chunk ++ buf.drop (i + chunk.length)

/-- The return value and the buffer; `none` while the kernel has not answered enough. -/
def socketRecv (sockfd : Int) (buf : Bytes) (recvd len : Nat) :
    List RecvResult → Option (Int × Bytes)
  | [] => if recvd < len then none else some (1,buf)
  | r :: rs =>
    if recvd < len then
      match r with
      | .data chunk =>
        if 0 < chunk.length ∧ chunk.length ≤ len - recvd then
          socketRecv sockfd (writeAt buf recvd chunk) (recvd + chunk.length) len rs
        else none
      | .closed => some (-2,buf)
      | .error sel =>
        if socketSelect sockfd sel < 0 then some (1,buf)
        else socketRecv (socketSelect sockfd sel) buf recvd len rs
    else some (1,buf)

theorem socketRecv_ne_zero {sockfd ret : Int} {buf buf' : Bytes} {recvd len : Nat}
    {rs : List RecvResult} (h : socketRecv sockfd buf recvd len rs = some (ret,buf')) :
    ret ≠ 0 := by
  induction rs generalizing sockfd buf recvd with
  | nil =>
    simp only [socketRecv,Option.ite_none_left_eq_some,Option.some.injEq,Prod.mk.injEq] at h
    omega
  | cons r rs ih =>
    unfold socketRecv at h
    split at h
    · cases r with
      | data chunk =>
        simp only [Option.ite_none_right_eq_some] at h
        exact ih h.2
      | closed =>
        simp only [Option.some.injEq,Prod.mk.injEq] at h
        omega
      | error sel =>
        simp only at h
        split at h
        · simp only [Option.some.injEq,Prod.mk.injEq] at h
          omega
        · exact ih h
    · simp only [Option.some.injEq,Prod.mk.injEq] at h
      omega

/-- The bytes that `SocketRecv` takes from the connection, in one piece. -/
def taken (sockfd : Int) (recvd len : Nat) : List RecvResult → Bytes
  | [] => []
  | r :: rs =>
    if recvd < len then
      match r with
      | .data chunk => chunk ++ taken sockfd (recvd + chunk.length) len rs
      | .closed => []
      | .error sel =>
        if socketSelect sockfd sel < 0 then []
        else taken (socketSelect sockfd sel) recvd len rs
    else []

theorem writeAt_nil (buf : Bytes) (i : Nat) : writeAt buf i [] = buf := by
  simp [writeAt]

theorem writeAt_writeAt {buf c : Bytes} {i : Nat} (hc : i + c.length ≤ buf.length) (d : Bytes) :
    writeAt (writeAt buf i c) (i + c.length) d = writeAt buf i (c ++ d) := by
  have hi : (buf.take i).length = i := by simp; omega
  have htake : (writeAt buf i c).take (i + c.length) = buf.take i ++ c := by
    rw [writeAt,List.take_append_of_le_length (by simp [hi]),List.take_of_length_le (by simp [hi])]
  have hdrop : (writeAt buf i c).drop (i + c.length + d.length) =
      buf.drop (i + (c ++ d).length) := by
    rw [writeAt,List.drop_append,List.drop_of_length_le (by simp [hi]),List.nil_append,
      List.drop_drop,List.length_append,List.length_append,hi]
    congr 1
    omega
  rw [writeAt,htake,hdrop,writeAt,List.append_assoc (buf.take i)]

theorem writeAt_length {buf c : Bytes} {i : Nat} (hc : i + c.length ≤ buf.length) :
    (writeAt buf i c).length = buf.length := by
  simp only [writeAt,List.length_append,List.length_take,List.length_drop]
  omega

theorem socketRecv_buf {sockfd ret : Int} {buf buf' : Bytes} {recvd len : Nat}
    {rs : List RecvResult} (hl : len ≤ buf.length) (hn : recvd ≤ len)
    (h : socketRecv sockfd buf recvd len rs = some (ret,buf')) :
    buf' = writeAt buf recvd (taken sockfd recvd len rs) ∧
      recvd + (taken sockfd recvd len rs).length ≤ len := by
  induction rs generalizing sockfd buf recvd with
  | nil =>
    simp only [socketRecv,Option.ite_none_left_eq_some,Option.some.injEq,Prod.mk.injEq] at h
    simp [taken,writeAt_nil,h.2.2,hn]
  | cons r rs ih =>
    unfold socketRecv at h
    unfold taken
    split at h
    · rename_i hlt
      rw [if_pos hlt]
      cases r with
      | data chunk =>
        simp only [Option.ite_none_right_eq_some] at h
        obtain ⟨⟨-,hc⟩,h⟩ := h
        have hfit : recvd + chunk.length ≤ buf.length := by omega
        obtain ⟨rfl,hlen⟩ := ih (by rwa [writeAt_length hfit]) (by omega) h
        refine ⟨writeAt_writeAt hfit _,?_⟩
        simp only [List.length_append]
        omega
      | closed =>
        simp only [Option.some.injEq,Prod.mk.injEq] at h
        simp [writeAt_nil,h.2,hn]
      | error sel =>
        simp only at h ⊢
        split at h
        · rename_i hs
          simp only [Option.some.injEq,Prod.mk.injEq] at h
          simp [hs,writeAt_nil,h.2,hn]
        · rename_i hs
          rw [if_neg hs]
          exact ih hl hn h
    · rename_i hlt
      simp only [Option.some.injEq,Prod.mk.injEq] at h
      simp [hlt,writeAt_nil,h.2,hn]

theorem socketRecv_cString {sockfd ret : Int} {recvbuf : Bytes} {rs : List RecvResult}
    (h : socketRecv sockfd (List.replicate 100 0) 0 100 rs = some (ret,recvbuf)) :
    cString recvbuf = cString (taken sockfd 0 100 rs) := by
  obtain ⟨rfl,-⟩ := socketRecv_buf (by simp) (by omega) h
  simp only [writeAt,List.take_zero,List.nil_append,List.drop_replicate,cString_append_zeros]

end IntelligentAcoustics
