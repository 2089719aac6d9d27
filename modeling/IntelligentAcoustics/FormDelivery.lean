import IntelligentAcoustics.RecordFamily
import IntelligentAcoustics.Timeout
import IntelligentAcoustics.Transfer

/-!
`MSR_GET_FORM` and `AITALK_GET_FORM` of the CGI programs: `socket_connect2` with its
non-blocking `connect`, and `socket_send` on the connection. The kernel may refuse the
connection, and it may take only a part of the message.
-/

set_option autoImplicit false

namespace IntelligentAcoustics.Cgi
open Transition

structure Opened where
  fd : Int
  flags : UInt32
  peer : Option (UInt32 × UInt16)
  deriving DecidableEq, Repr

def oNonblock : UInt32 := 2048

def setFlags (fds : List Opened) (fd : Int) (flags : UInt32) : List Opened :=
  fds.map fun x => if x.fd = fd then { x with flags := flags } else x

def connectTo (fds : List Opened) (fd : Int) (peer : UInt32 × UInt16) : List Opened :=
  fds.map fun x => if x.fd = fd then { x with peer := some peer } else x

def close (fds : List Opened) (fd : Int) : List Opened := fds.filter fun x => x.fd ≠ fd

def einprogress : Int := 115

structure ConnectAnswers where
  socket : Int
  flags : UInt32
  connect : Int
  errno : Int
  sel : SelectResult
  getsockopt : Int
  optval : Int
  deriving DecidableEq, Repr

def socketConnect2 (fds : List Opened) (ip : UInt32) (port : UInt16) (timeoutMs : Int)
    (a : ConnectAnswers) : Option (Int × List Opened) :=
  let sockfd := a.socket
  if sockfd = -1 then some (-1,fds)
  else
    let fds := setFlags (⟨sockfd,a.flags,none⟩ :: fds) sockfd (a.flags ||| oNonblock)
    if a.connect = -1 then do
      let _ ← socketConnect2Timeval timeoutMs
      if a.sel.ret ≤ 0 ∨ ¬ a.sel.isSet then some (-1,close fds sockfd)
      else if a.getsockopt ≠ 0 ∨ a.optval ≠ 0 then some (-1,close fds sockfd)
      else
        -- `errno` is not asked: only a `connect` still under way has made a connection meanwhile
        let fds := if a.errno = einprogress then connectTo fds sockfd (ip,port) else fds
        some (sockfd,setFlags fds sockfd a.flags)
    else some (sockfd,setFlags (connectTo fds sockfd (ip,port)) sockfd a.flags)

def ConnectAnswers.Ready (a : ConnectAnswers) : Prop :=
  ¬ (a.sel.ret ≤ 0 ∨ ¬ a.sel.isSet) ∧ ¬ (a.getsockopt ≠ 0 ∨ a.optval ≠ 0)

def ConnectAnswers.Refuses (a : ConnectAnswers) : Prop :=
  a.socket = -1 ∨ (a.connect = -1 ∧ ¬ a.Ready)

def ConnectAnswers.Connects (a : ConnectAnswers) : Prop :=
  a.socket ≠ -1 ∧ (a.connect ≠ -1 ∨ (a.errno = einprogress ∧ a.Ready))

/-- `connect` failed for good, as when the network is unreachable, and left no error. -/
def ConnectAnswers.Overlooked (a : ConnectAnswers) : Prop :=
  a.socket ≠ -1 ∧ a.connect = -1 ∧ a.errno ≠ einprogress ∧ a.Ready

/-- 127.0.0.1 in network byte order on a little-endian machine. -/
def loopback : UInt32 := 0x0100007f

def connected (fds : List Opened) (fd : Int) : Bool :=
  fds.any fun x => x.fd = fd && x.peer.isSome

/-- The descriptors that are left, and what the kernel took from `socket_send` if it was called.
There is no value while `socket_send` is under way. -/
def getForm (port : UInt16) (fds : List Opened) (msg : Bytes) (a : ConnectAnswers)
    (sends : List SendResult) : Option (List Opened × Option Bytes) := do
  let (sockfd,fds) ← socketConnect2 fds loopback port 1000 a
  if sockfd = -1 then some (fds,none)
  else
    match run (socketSend.step msg msg.length) (.start sockfd) sends with
    | .next s =>
      let sent := takenBy (socketSend.calls msg msg.length (.start sockfd) sends)
      -- `send` fails on a socket that is not connected
      if (s.left ≠ none ∨ (msg.length : Int) ≤ s.sent) ∧ (connected fds sockfd ∨ sent = []) then
        some (fds,some sent)
      else none
    | _ => none

/-- In `boa_jpg/src/music.c`. -/
def msrGetForm : List Opened → Bytes → ConnectAnswers → List SendResult →
    Option (List Opened × Option Bytes) := getForm 8117

/-- In `boa_jpg/src/aitalk.c`. -/
def aitalkGetForm : List Opened → Bytes → ConnectAnswers → List SendResult →
    Option (List Opened × Option Bytes) := getForm 8000

/-- What comes of a message at the command loop: nobody comes, or it is read up to the close
of the connection. -/
inductive FormArrives (port : UInt16) (fds : List Opened) : Option Bytes → Option Bytes → Prop where
  | nothing : FormArrives port fds none none
  | refused {msg : Bytes} {a : ConnectAnswers} {sends : List SendResult} {fds' : List Opened}
      {sent : Option Bytes} (h : getForm port fds msg a sends = some (fds',sent))
      (hs : sent.getD [] = []) : FormArrives port fds (some msg) none
  | message {msg recvbuf : Bytes} {a : ConnectAnswers} {sends : List SendResult}
      {fds' : List Opened} {client : Int} {results : List RecvResult}
      (h : getForm port fds msg a sends = some (fds',some (taken client 0 100 results)))
      (hr : socketRecv client (List.replicate 100 0) 0 100 results = some (-2,recvbuf)) :
      FormArrives port fds (some msg) (some recvbuf)

section
variable {port : UInt16} {fds fds' : List Opened} {msg : Bytes} {a : ConnectAnswers}

theorem map_fresh {f : Opened → Opened} {fd : Int} (h : ∀ x ∈ fds, x.fd ≠ fd)
    (hf : ∀ x, x.fd ≠ fd → f x = x) : fds.map f = fds := by
  conv_rhs => rw [← List.map_id fds]
  exact List.map_congr_left fun x hx => hf x (h x hx)

theorem setFlags_new {x : Opened} (h : ∀ y ∈ fds, y.fd ≠ x.fd) (flags : UInt32) :
    setFlags (x :: fds) x.fd flags = { x with flags := flags } :: fds := by
  simp [setFlags,map_fresh h fun y hy => if_neg hy]

theorem connectTo_new {x : Opened} (h : ∀ y ∈ fds, y.fd ≠ x.fd) (peer : UInt32 × UInt16) :
    connectTo (x :: fds) x.fd peer = { x with peer := some peer } :: fds := by
  simp [connectTo,map_fresh h fun y hy => if_neg hy]

theorem close_new {x : Opened} (h : ∀ y ∈ fds, y.fd ≠ x.fd) : close (x :: fds) x.fd = fds := by
  simpa [close] using h

theorem socketConnect2_spec {ip : UInt32} {timeoutMs ret : Int}
    (hnew : ∀ x ∈ fds, x.fd ≠ a.socket)
    (h : socketConnect2 fds ip port timeoutMs a = some (ret,fds')) :
    (a.Refuses ∧ ret = -1 ∧ fds' = fds) ∨
      (ret = a.socket ∧ ret ≠ -1 ∧
        ((a.Connects ∧ fds' = ⟨a.socket,a.flags,some (ip,port)⟩ :: fds) ∨
          (a.Overlooked ∧ fds' = ⟨a.socket,a.flags,none⟩ :: fds))) := by
  have hset : ∀ (flags flags' : UInt32) (peer : Option (UInt32 × UInt16)),
      setFlags (⟨a.socket,flags,peer⟩ :: fds) a.socket flags' = ⟨a.socket,flags',peer⟩ :: fds :=
    fun flags flags' peer => setFlags_new (x := ⟨a.socket,flags,peer⟩) hnew flags'
  have hcon : ∀ flags : UInt32, connectTo (⟨a.socket,flags,none⟩ :: fds) a.socket (ip,port) =
      ⟨a.socket,flags,some (ip,port)⟩ :: fds :=
    fun flags => connectTo_new (x := ⟨a.socket,flags,none⟩) hnew (ip,port)
  have hclose : ∀ flags : UInt32, close (⟨a.socket,flags,none⟩ :: fds) a.socket = fds :=
    fun flags => close_new (x := ⟨a.socket,flags,none⟩) hnew
  simp only [socketConnect2,hset,hcon,hclose] at h
  split at h
  · rename_i hsock
    simp only [Option.some.injEq,Prod.mk.injEq] at h
    exact .inl ⟨.inl hsock,h.1.symm,h.2.symm⟩
  rename_i hsock
  split at h
  · rename_i hconnect
    simp only [Option.bind_eq_bind,Option.bind_eq_some_iff] at h
    obtain ⟨_,-,h⟩ := h
    split at h
    · rename_i hsel
      simp only [Option.some.injEq,Prod.mk.injEq] at h
      exact .inl ⟨.inr ⟨hconnect,fun hready => hready.1 hsel⟩,h.1.symm,h.2.symm⟩
    rename_i hsel
    split at h
    · rename_i hopt
      simp only [Option.some.injEq,Prod.mk.injEq] at h
      exact .inl ⟨.inr ⟨hconnect,fun hready => hready.2 hopt⟩,h.1.symm,h.2.symm⟩
    rename_i hopt
    simp only [Option.some.injEq,Prod.mk.injEq] at h
    obtain ⟨rfl,rfl⟩ := h
    refine .inr ⟨rfl,hsock,?_⟩
    by_cases herrno : a.errno = einprogress
    · rw [if_pos herrno,hset]
      exact .inl ⟨⟨hsock,.inr ⟨herrno,hsel,hopt⟩⟩,rfl⟩
    · rw [if_neg herrno,hset]
      exact .inr ⟨⟨hsock,hconnect,herrno,hsel,hopt⟩,rfl⟩
  · rename_i hconnect
    simp only [Option.some.injEq,Prod.mk.injEq] at h
    exact .inr ⟨h.1.symm,h.1 ▸ hsock,.inl ⟨⟨hsock,.inl hconnect⟩,h.2.symm⟩⟩

theorem takenBy_socketSend {sockfd : Int} {sends : List SendResult} {s : Sending}
    (h : run (socketSend.step msg msg.length) (.start sockfd) sends = .next s) :
    ∃ n, takenBy (socketSend.calls msg msg.length (.start sockfd) sends) = msg.take n :=
  ⟨s.sent,(sentExactly_run h).2.taken⟩

theorem getForm_sent {sends : List SendResult} {sent : Bytes}
    (h : getForm port fds msg a sends = some (fds',some sent)) : ∃ n, sent = msg.take n := by
  simp only [getForm,Option.bind_eq_bind,Option.bind_eq_some_iff] at h
  obtain ⟨⟨sockfd,fds₁⟩,-,h⟩ := h
  split at h
  · simp at h
  · split at h
    · rename_i s hrun
      simp only [Option.ite_none_right_eq_some,Option.some.injEq,Prod.mk.injEq] at h
      obtain ⟨-,-,rfl⟩ := h
      exact takenBy_socketSend hrun
    · simp at h

/-- Whatever the kernel answers. If it refuses the connection, everything that was opened is
closed again. A connection stays open, as blocking as it was created, and what went over it is
the beginning of the message. A socket whose `connect` failed without leaving an error is taken
for a connection: it stays open and nothing is sent. -/
theorem form_leaves_connection {sends : List SendResult} {sent : Option Bytes}
    (hnew : ∀ x ∈ fds, x.fd ≠ a.socket) (h : getForm port fds msg a sends = some (fds',sent)) :
    (a.Refuses ∧ sent = none ∧ fds' = fds) ∨
      (a.Connects ∧ (∃ n, sent = some (msg.take n)) ∧
        fds' = ⟨a.socket,a.flags,some (loopback,port)⟩ :: fds) ∨
      (a.Overlooked ∧ sent = some [] ∧ fds' = ⟨a.socket,a.flags,none⟩ :: fds) := by
  simp only [getForm,Option.bind_eq_bind,Option.bind_eq_some_iff] at h
  obtain ⟨⟨sockfd,fds₁⟩,hconnect,h⟩ := h
  rcases socketConnect2_spec hnew hconnect with ⟨hrefuses,rfl,rfl⟩ | ⟨rfl,hne,hopen⟩
  · simp only [if_true,Option.some.injEq,Prod.mk.injEq] at h
    exact .inl ⟨hrefuses,h.2.symm,h.1.symm⟩
  rw [if_neg hne] at h
  split at h
  · rename_i s hrun
    simp only [Option.ite_none_right_eq_some,Option.some.injEq,Prod.mk.injEq] at h
    obtain ⟨⟨-,hpeer⟩,rfl,rfl⟩ := h
    rcases hopen with ⟨hconnects,rfl⟩ | ⟨hoverlooked,rfl⟩
    · obtain ⟨n,hn⟩ := takenBy_socketSend hrun
      exact .inr (.inl ⟨hconnects,⟨n,congrArg some hn⟩,rfl⟩)
    · have hnone : connected (⟨a.socket,a.flags,none⟩ :: fds) a.socket = false := by
        simpa [connected] using fun x hx hfd => absurd hfd (hnew x hx)
      rw [hnone] at hpeer
      exact .inr (.inr ⟨hoverlooked,congrArg some (hpeer.resolve_left Bool.false_ne_true),rfl⟩)
  · simp at h

theorem form_leaves_connection_oneByteOrUnreachable :
    (∃ fds' sent, getForm 8117 [⟨0,0,none⟩] (message "0") ⟨3,2,-1,einprogress,⟨1,true⟩,0,0⟩
        [⟨1,0,⟨0,false⟩⟩,⟨-1,104,⟨0,false⟩⟩] = some (fds',sent) ∧ sent = some [48] ∧
      fds' = [⟨3,2,some (loopback,8117)⟩,⟨0,0,none⟩]) ∧
    ∃ fds' sent, getForm 8117 [⟨0,0,none⟩] (message "0") ⟨3,2,-1,101,⟨1,true⟩,0,0⟩
        [⟨-1,32,⟨0,false⟩⟩] = some (fds',sent) ∧ sent = some [] ∧
      fds' = [⟨3,2,none⟩,⟨0,0,none⟩] := by
  have hready (errno : Int) : ConnectAnswers.Ready ⟨3,2,-1,errno,⟨1,true⟩,0,0⟩ := by
    simp [ConnectAnswers.Ready]
  refine ⟨⟨_,_,rfl,rfl,?_⟩,⟨_,_,rfl,?_,?_⟩⟩
  · rcases @form_leaves_connection 8117 [⟨0,0,none⟩] _ (message "0")
      ⟨3,2,-1,einprogress,⟨1,true⟩,0,0⟩ [⟨1,0,⟨0,false⟩⟩,⟨-1,104,⟨0,false⟩⟩] _ (by decide) rfl
      with ⟨-,h,-⟩ | ⟨-,-,h⟩ | ⟨⟨-,-,herrno,-⟩,-,-⟩
    · cases h
    · exact h
    · exact absurd rfl herrno
  all_goals
    rcases @form_leaves_connection 8117 [⟨0,0,none⟩] _ (message "0")
      ⟨3,2,-1,101,⟨1,true⟩,0,0⟩ [⟨-1,32,⟨0,false⟩⟩] _ (by decide) rfl
      with ⟨-,h,-⟩ | ⟨⟨-,h | ⟨herrno,-⟩⟩,-,-⟩ | ⟨-,hsent,hfds⟩
    · cases h
    · exact absurd rfl h
    · exact absurd herrno (by decide)
    · assumption

theorem formArrives_letter {k : UInt8} {recvbuf : Bytes} (hk : k ≠ 0)
    (h : FormArrives port fds (some [k,0]) (some recvbuf)) :
    cString recvbuf = [] ∨ cString recvbuf = [k] := by
  cases h with
  | message h hr =>
    obtain ⟨n,hn⟩ := getForm_sent h
    rw [socketRecv_cString hr,hn]
    match n with
    | 0 => exact .inl rfl
    | 1 | n+2 => exact .inr (by simp [cString_cons,hk])

end

def IsLetter (msg : Bytes) : Prop := msg = [msg.headD 0,0] ∧ msg.headD 0 ≠ 0

instance (msg : Bytes) : Decidable (IsLetter msg) := inferInstanceAs (Decidable (_ ∧ _))

theorem sent_isLetter {table : List (Bytes × Bytes)} {other env body msg : Bytes}
    (ht : ∀ x ∈ table, 0 ∉ x.1) (hl : ∀ m ∈ other :: table.map (·.2), IsLetter m)
    (h0 : 0 ≤ atoi env) (hlt : atoi env < 2^31-1) (hb : body ≠ [])
    (hm : cgiMain table other (some env) body = some (some msg)) : IsLetter msg := by
  obtain ⟨msg',hmain,hcase⟩ := cgiMain_spec ht h0 hlt hb
  obtain rfl : some msg = msg' := Option.some.inj (hm.symm.trans hmain)
  rcases hcase with ⟨-,hnone⟩ | ⟨t,m,-,hsome,htable⟩
  · simp at hnone
  · obtain rfl : msg = m := Option.some.inj hsome
    rcases htable with hmem | ⟨-,rfl⟩
    · exact hl msg (List.mem_cons_of_mem _ (List.mem_map_of_mem hmem))
    · exact hl msg List.mem_cons_self

theorem formArrives_received {port : UInt16} {fds : List Opened} {msg : Bytes}
    {recvbuf : Option Bytes} (hl : IsLetter msg) (h : FormArrives port fds (some msg) recvbuf) :
    recvbuf.bind Music.received = none ∨ recvbuf.bind Music.received = Music.received msg := by
  obtain ⟨hmsg,hne⟩ := hl
  generalize msg.headD 0 = k at hmsg hne
  subst hmsg
  cases recvbuf with
  | none => exact .inl rfl
  | some recvbuf =>
    rcases formArrives_letter hne h with hc | hc
    · exact .inl (by simp [Music.received,hc])
    · exact .inr (by simp [Music.received,hc,cString_cons,hne])

/-- Whatever request the web server passes on and whatever the kernel does to the
connection: `AutoProcess` performs the command that was asked for, or the player stays as it
is. -/
theorem form_all_or_nothing {env body : Bytes} (h0 : 0 ≤ atoi env) (hlt : atoi env < 2^31-1)
    (hb : body ≠ []) :
    ∃ msg, musicMain (some env) body = some msg ∧
      ∀ fds recvbuf, FormArrives 8117 fds msg recvbuf → ∀ s : Music.Auto, s.process = .accept →
        (∃ apcmd keyword, (apcmd,keyword) ∈ Music.webCommands ∧
          request (atoi env) body = ascii "msg=" ++ keyword ∧ Music.Performs s recvbuf apcmd) ∨
        Music.ProcessKeeps s recvbuf := by
  obtain ⟨msg,hmain,hcase⟩ := cgiMain_spec
    (show ∀ x ∈ musicTable, 0 ∉ x.1 by decide) h0 hlt hb
  refine ⟨msg,hmain,fun fds recvbuf ha s hs => ?_⟩
  simp only [Music.performs_iff hs,Music.processKeeps_iff hs]
  rcases hcase with ⟨-,rfl⟩ | ⟨t,m,ht,rfl,htable⟩
  · cases ha with
    | nothing => exact .inr (Music.keeps_none _)
  have hletter : IsLetter m := sent_isLetter (show ∀ x ∈ musicTable, 0 ∉ x.1 by decide)
    (by decide) h0 hlt hb hmain
  rcases formArrives_received hletter ha with hr | hr
  · rw [hr]
    exact .inr (Music.keeps_none _)
  rw [hr]
  rcases htable with hm | ⟨-,rfl⟩
  · obtain ⟨y,hy,hyt,hym⟩ := Music.musicTable_decoded _ hm
    exact .inl ⟨y.1,y.2,hy,hyt ▸ ht,hym⟩
  · rw [Music.fallback_outside.1]
    exact .inr (Music.keeps_outside (.inr (by decide)) _)

theorem form_all_or_nothing_oneByte :
    musicMain (some (ascii "9")) (ascii "msg=pause") = some (some (message "0")) ∧
      ∃ recvbuf, FormArrives 8117 [] (some (message "0")) (some recvbuf) ∧
        Music.Performs Music.onePlays (some recvbuf) Music.musicPause := by
  have hform : getForm 8117 [] (message "0") ⟨3,0,-1,einprogress,⟨1,true⟩,0,0⟩
      [⟨1,0,⟨0,false⟩⟩,⟨-1,104,⟨0,false⟩⟩] =
      some ([⟨3,0,some (loopback,8117)⟩],some (taken 5 0 100 [.data [48],.closed])) := by decide
  have hr : socketRecv 5 (List.replicate 100 0) 0 100 [.data [48],.closed] =
      some (-2,48 :: List.replicate 99 0) := by decide
  have ha := FormArrives.message hform hr
  obtain ⟨msg,hm,h⟩ := @form_all_or_nothing (ascii "9") (ascii "msg=pause") (by decide)
    (by decide) (by decide)
  obtain rfl : msg = some (message "0") := Option.some.inj (hm.symm.trans rfl)
  refine ⟨rfl,_,ha,?_⟩
  rcases h [] _ ha Music.onePlays rfl with ⟨apcmd,keyword,hmem,hrequest,hperforms⟩ | hkeeps
  · have hpause : keyword = ascii "pause" := List.append_cancel_left
      (hrequest.symm.trans (show _ = ascii "msg=" ++ ascii "pause" by decide))
    obtain rfl : apcmd = Music.musicPause :=
      (Music.webCommands_inj _ hmem (Music.musicPause,ascii "pause") (by decide)).mpr hpause
    exact hperforms
  · have hflag := congrArg Music.Player.musicPauseFlag (hkeeps 2 _ rfl)
    exact absurd hflag (by decide)

/-- Whichever process makes it: a recording runs the command made at the start, right after the
message of a client, and if that message came from a form of `aitalk.c`, however much of it the
kernel took, the request was that of the record button. -/
theorem form_records_only_asked {rest : Msr.RecordInfo} {s : Msr.Family}
    {as : List (Nat × Msr.RequestAction)} (hp : rest.recordParam ≠ Msr.recordStart)
    (h : run Msr.familyStep (.start rest) as = .next s) {pre post : List Msr.Event} {cmd : Bytes}
    (hl : s.log = pre ++ .system cmd :: post) :
    cmd = Msr.recordText rest ∧ ∃ pre' recvbuf, pre = pre' ++ [.conn recvbuf] ∧
      ∀ env body msg fds, 0 ≤ atoi env → atoi env < 2^31-1 → body ≠ [] →
        aitalkMain (some env) body = some (some msg) →
        FormArrives 8000 fds (some msg) (some recvbuf) →
          request (atoi env) body = ascii "msg=record" := by
  obtain ⟨hcmd,pre',recvbuf,hpre,hrecords⟩ := Msr.family_command hp h hl
  refine ⟨hcmd,pre',recvbuf,hpre,fun env body msg fds h0 hlt hb hm ha => ?_⟩
  obtain ⟨hmsg,hne⟩ := sent_isLetter (show ∀ x ∈ aitalkTable, 0 ∉ x.1 by decide)
    (by decide) h0 hlt hb hm
  refine (Msr.aitalkMain_records_iff h0 hlt hb hm).mp ?_
  generalize msg.headD 0 = k at hmsg hne
  subst hmsg
  obtain ⟨p,hcp,hstart⟩ := hrecords
  rcases formArrives_letter hne ha with hc | hc
  · simp [hc] at hcp
  · exact ⟨p,by simpa [cString_cons,hne,hc] using hcp,hstart⟩

theorem form_records_only_asked_recordThenShutdown :
    (∃ cmd post, Msr.served.log = .conn (48 :: List.replicate 99 0) :: .system cmd :: post ∧
      cmd = Msr.recordText Msr.restInfo) ∧
    FormArrives 8000 [] (some (message "0")) (some (48 :: List.replicate 99 0)) ∧
    ∀ body, body ≠ [] → aitalkMain (some (ascii "10")) body = some (some (message "0")) →
      request 10 body = ascii "msg=record" := by
  have hform : getForm 8000 [] (message "0") ⟨3,0,-1,einprogress,⟨1,true⟩,0,0⟩
      [⟨1,0,⟨0,false⟩⟩,⟨-1,104,⟨0,false⟩⟩] =
      some ([⟨3,0,some (loopback,8000)⟩],some (taken 5 0 100 [.data [48],.closed])) := by decide
  have hr : socketRecv 5 (List.replicate 100 0) 0 100 [.data [48],.closed] =
      some (-2,48 :: List.replicate 99 0) := by decide
  have ha := FormArrives.message hform hr
  obtain ⟨hcmd,pre',recvbuf,hpre,h⟩ := @form_records_only_asked _ _ _ (by decide)
    Msr.recordThenShutdown_run [_] _ _ Msr.served_log
  obtain ⟨-,hrecvbuf⟩ := List.append_inj' (show [] ++ [_] = pre' ++ [_] from hpre) rfl
  obtain rfl : recvbuf = _ := (Msr.Event.conn.inj (List.cons.inj hrecvbuf).1).symm
  exact ⟨⟨_,_,Msr.served_log,hcmd⟩,ha,
    fun body hb hm => h (ascii "10") body _ [] (by decide) (by decide) hb hm ha⟩

end IntelligentAcoustics.Cgi
