import IntelligentAcoustics.CommandMessage
import IntelligentAcoustics.Recognition
import IntelligentAcoustics.SongRing

/-!
Messages that are no command, in the three command loops. `Atoi` and `Matoi` give 0 for a
byte that is no digit, and 0 is a command of each loop.
-/

set_option autoImplicit false

namespace IntelligentAcoustics
open Transition Music Msr

def CommandOf (last : UInt8) (s : Bytes) : Prop := ∃ p, s = [p] ∧ 48 ≤ p ∧ p ≤ last

/-- The string is not a single byte other than a digit. -/
def NotStray (s : Bytes) : Prop := ∀ p, s = [p] → 48 ≤ p ∧ p ≤ 57

theorem commandOf_single {last p : UInt8} : CommandOf last [p] ↔ 48 ≤ p ∧ p ≤ last := by
  simp [CommandOf]

theorem notStray_single {p : UInt8} : NotStray [p] ↔ 48 ≤ p ∧ p ≤ 57 := by
  simp [NotStray]

theorem notStray_of_not_single {s : Bytes} (h : ∀ p, s ≠ [p]) : NotStray s :=
  fun p hp => absurd hp (h p)

theorem lt_atoi {last p : UInt8} (hd : 48 ≤ p ∧ p ≤ 57) (hc : ¬ CommandOf last [p]) :
    (last.toNat : Int) - 48 < atoi p := by
  have hlt : last < p := by
    by_contra hle
    exact hc (commandOf_single.mpr ⟨hd.1,UInt8.not_lt.mp hle⟩)
  have hn := UInt8.lt_iff_toNat_lt.mp hlt
  rw [atoi,if_pos hd]
  omega

theorem not_commandOf {last p : UInt8} (hl : last ≤ 57) (hd : ¬ (48 ≤ p ∧ p ≤ 57)) :
    ¬ CommandOf last [p] :=
  fun hc => hd ⟨(commandOf_single.mp hc).1,UInt8.le_trans (commandOf_single.mp hc).2 hl⟩

theorem received_of_not_single {recvbuf : Bytes} (h : ∀ p, cString recvbuf ≠ [p]) :
    received recvbuf = none := by
  unfold received
  split
  · rename_i p hp
    exact absurd hp (h p)
  · rfl

theorem received_of_single {recvbuf : Bytes} {p : UInt8} (h : cString recvbuf = [p]) :
    received recvbuf = some (atoi p) := by
  simp [received,h]

theorem keeps_received_iff (player : Player) (recvbuf : Bytes) :
    (¬ CommandOf 52 (cString recvbuf) → Keeps player (received recvbuf)) ↔
      NotStray (cString recvbuf) ∨ player.Paused := by
  by_cases hs : ∃ p, cString recvbuf = [p]
  · obtain ⟨p,hp⟩ := hs
    rw [received_of_single hp,hp,notStray_single]
    by_cases hd : 48 ≤ p ∧ p ≤ 57
    · exact iff_of_true (fun hc => keeps_outside (.inr (lt_atoi hd hc)) player) (.inl hd)
    · have hcmd : ¬ CommandOf 52 [p] := not_commandOf (by decide) hd
      rw [atoi_of_not_digit hd]
      simp only [hd,hcmd,false_or,not_false_eq_true,true_implies]
      exact keeps_pause_iff player
  · have hnone : ∀ p, cString recvbuf ≠ [p] := fun p hp => hs ⟨p,hp⟩
    rw [received_of_not_single hnone]
    exact iff_of_true (fun _ => keeps_none player) (.inl (notStray_of_not_single hnone))

def recordings (log : List Event) : List Bytes :=
  log.filterMap fun e => match e with
    | .system recmd => some recmd
    | .conn _ | .pythonCmd => none

def accepts : RequestAction → Bool
  | .accept _ _ => true
  | .create _ _ _ | .test | .recv _ | .recordTest | .record | .recordFinish | .fork _ |
    .baiduRequest | .waitpid => false

/-- Until the next client is accepted no recording is started. -/
def StartsNone (reqMode : Int) (s : Server) (results : List RecvResult) : Prop :=
  ∀ as t, (∀ a ∈ as, accepts a = false) →
    run (serverStep reqMode) s (.recv results :: as) = .next t →
    recordings t.log = recordings s.log

def Calm (rest : RecordInfo) : RequestPc → Prop
  | .recordTest => rest.recordParam ≠ recordStart
  | .create | .recv _ | .record | .recordFinish => False
  | .head | .accept | .pythonCmd | .child | .waitpid _ | .returned | .exited => True

/-- `record_param` asks for a recording only from the message to the recording. -/
def Settled (rest : RecordInfo) : RequestPc → Prop
  | .recordTest | .record | .recordFinish => True
  | .create | .head | .accept | .recv _ | .pythonCmd | .child | .waitpid _ | .returned |
    .exited => rest.recordParam ≠ recordStart

section
variable {reqMode : Int} {s t : Server}

theorem calm_forked (rest : RecordInfo) (pid : Int) : Calm rest (forked pid) := by
  unfold forked
  split_ifs <;> trivial

theorem settled_forked {rest : RecordInfo} (h : rest.recordParam ≠ recordStart) (pid : Int) :
    Settled rest (forked pid) := by
  unfold forked
  split_ifs <;> exact h

theorem calm_step {a : RequestAction} (hc : Calm s.rest s.request.pc) (ha : accepts a = false)
    (hs : serverStep reqMode s a = .next t) :
    Calm t.rest t.request.pc ∧ recordings t.log = recordings s.log := by
  obtain ⟨-,u,hu,rfl⟩ := serverStep_next hs
  cases a with
  | create serverSocket bind listen =>
    obtain ⟨hpc,-⟩ := create_next hu
    simp [hpc,Calm] at hc
  | test =>
    obtain ⟨-,rfl⟩ := test_next hu
    refine ⟨?_,by simp [recordings]⟩
    show Calm s.rest (if reqMode = 0 then .accept else .returned)
    split <;> trivial
  | accept sel acceptfd => simp [accepts] at ha
  | recv results =>
    obtain ⟨_,_,_,hpc,-⟩ := recv_next hu
    simp [hpc,Calm] at hc
  | recordTest =>
    obtain ⟨hpc,rfl⟩ := recordTest_next hu
    rw [hpc] at hc
    refine ⟨?_,by simp [recordings]⟩
    show Calm s.rest (if s.rest.recordParam = recordStart then .record else .pythonCmd)
    rw [if_neg hc]
    trivial
  | record =>
    obtain ⟨hpc,-⟩ := record_next hu
    simp [hpc,Calm] at hc
  | recordFinish =>
    obtain ⟨hpc,-⟩ := recordFinish_next hu
    simp [hpc,Calm] at hc
  | fork pid =>
    obtain ⟨-,rfl⟩ := fork_next hu
    exact ⟨calm_forked _ _,by simp [recordings]⟩
  | baiduRequest =>
    obtain ⟨-,rfl⟩ := baiduRequest_next hu
    exact ⟨trivial,by simp [recordings]⟩
  | waitpid =>
    obtain ⟨_,-,rfl⟩ := waitpid_next hu
    exact ⟨trivial,by simp [recordings]⟩

theorem calm_run {as : List RequestAction} (hc : Calm s.rest s.request.pc)
    (ha : ∀ a ∈ as, accepts a = false) (hs : run (serverStep reqMode) s as = .next t) :
    recordings t.log = recordings s.log := by
  have hinv : Calm t.rest t.request.pc ∧ recordings t.log = recordings s.log := by
    refine invariant_run_of_forall (G := fun a => accepts a = false)
      (I := fun u => Calm u.rest u.request.pc ∧ recordings u.log = recordings s.log)
      ?_ hs ha ⟨hc,rfl⟩
    rintro u a v ⟨hcalm,hlog⟩ hacc hv
    obtain ⟨hcalm',hlog'⟩ := calm_step hcalm hacc hv
    exact ⟨hcalm',hlog'.trans hlog⟩
  exact hinv.2

theorem settled_step {a : RequestAction} (hc : Settled s.rest s.request.pc)
    (hs : serverStep reqMode s a = .next t) : Settled t.rest t.request.pc := by
  obtain ⟨-,u,hu,rfl⟩ := serverStep_next hs
  cases a with
  | create serverSocket bind listen =>
    obtain ⟨hpc,⟨-,rfl⟩ | ⟨-,recmd,rfl⟩⟩ := create_next hu
    · rw [hpc] at hc
      exact hc
    · rw [hpc] at hc
      exact hc
  | test =>
    obtain ⟨hpc,rfl⟩ := test_next hu
    rw [hpc] at hc
    show Settled s.rest (if reqMode = 0 then .accept else .returned)
    split <;> exact hc
  | accept sel acceptfd =>
    obtain ⟨hpc,rfl | ⟨client,rfl⟩⟩ := accept_next hu
    · rw [hpc] at hc
      exact hc
    · rw [hpc] at hc
      exact hc
  | recv results =>
    obtain ⟨_,_,_,-,-,rfl⟩ := recv_next hu
    trivial
  | recordTest =>
    obtain ⟨-,rfl⟩ := recordTest_next hu
    show Settled s.rest (if s.rest.recordParam = recordStart then .record else .pythonCmd)
    split
    · trivial
    · assumption
  | record =>
    obtain ⟨-,rfl⟩ := record_next hu
    trivial
  | recordFinish =>
    obtain ⟨-,rfl⟩ := recordFinish_next hu
    show Msr.recordFinish ≠ recordStart
    decide
  | fork pid =>
    obtain ⟨hpc,rfl⟩ := fork_next hu
    rw [hpc] at hc
    exact settled_forked hc pid
  | baiduRequest =>
    obtain ⟨hpc,rfl⟩ := baiduRequest_next hu
    rw [hpc] at hc
    exact hc
  | waitpid =>
    obtain ⟨_,hpc,rfl⟩ := waitpid_next hu
    rw [hpc] at hc
    exact hc

theorem startsNone_iff {client ret : Int} {recvbuf : Bytes} {results : List RecvResult}
    (hpc : s.request.pc = .recv client)
    (hr : socketRecv client (List.replicate 100 0) 0 100 results = some (ret,recvbuf)) :
    StartsNone reqMode s results ↔ (s.rest.receive recvbuf).recordParam ≠ recordStart := by
  have hret := socketRecv_ne_zero hr
  have hstep : serverStep reqMode s (.recv results) = .next ⟨s.rest.receive recvbuf,
      { s.request with pc := .recordTest },s.log ++ [.conn recvbuf]⟩ := by
    simp only [serverStep,ne_eq,reduceCtorEq,not_false_eq_true,if_true,requestProcess,hpc,hr,hret,
      Outcome.next_bind]
  constructor
  · intro h hz
    have hrun : run (serverStep reqMode) s [.recv results,.recordTest,.record] =
        .next ⟨s.rest.receive recvbuf,{ s.request with pc := .recordFinish },
          s.log ++ [.conn recvbuf] ++ [] ++ [.system (cString s.request.recmd)]⟩ := by
      rw [run_cons,hstep]
      simp [serverStep,requestProcess,hz]
    have hlog := h _ _ (by simp [accepts]) hrun
    simp [recordings] at hlog
  · intro hne as t ha ht
    simp only [run_cons,hstep,Outcome.next_bind] at ht
    refine (calm_run ?_ ha ht).trans ?_
    · exact hne
    · simp [recordings]

theorem receive_recordParam_iff (rest : RecordInfo) (recvbuf : Bytes) :
    (¬ CommandOf 48 (cString recvbuf) → (rest.receive recvbuf).recordParam ≠ recordStart) ↔
      NotStray (cString recvbuf) ∧
        (rest.recordParam = recordStart → ∃ p, cString recvbuf = [p]) := by
  by_cases hs : ∃ p, cString recvbuf = [p]
  · obtain ⟨p,hp⟩ := hs
    have hrec : (rest.receive recvbuf).recordParam = atoi p := by
      simp [RecordInfo.receive,hp,matoi,atoi]
    rw [hrec,hp,notStray_single]
    by_cases hd : 48 ≤ p ∧ p ≤ 57
    · refine iff_of_true (fun hc => ?_) ⟨hd,fun _ => ⟨p,rfl⟩⟩
      have hlt := lt_atoi hd hc
      exact fun hz => absurd (hz ▸ hlt) (by decide)
    · refine iff_of_false (fun h => ?_) fun h => hd h.1
      exact h (not_commandOf (by decide) hd) (atoi_of_not_digit hd)
  · have hnone : ∀ p, cString recvbuf ≠ [p] := fun p hp => hs ⟨p,hp⟩
    have hsame : rest.receive recvbuf = rest := by
      unfold RecordInfo.receive
      split
      · rename_i p hp
        exact absurd hp (hnone p)
      · rfl
    have hcmd : ¬ CommandOf 48 (cString recvbuf) := by
      intro hc
      obtain ⟨p,hp,-⟩ := hc
      exact hnone p hp
    rw [hsame]
    exact ⟨fun h => ⟨notStray_of_not_single hnone,fun hstart => absurd hstart (h hcmd)⟩,
      fun h _ hstart => hs (h.2 hstart)⟩

theorem settled_reachable {rest : RecordInfo} (hrest : rest.recordParam ≠ recordStart)
    (hreach : Reachable (serverStep reqMode) (Server.start rest) s) :
    Settled s.rest s.request.pc := by
  have hstart : Settled (Server.start rest).rest (Server.start rest).request.pc := hrest
  exact invariant_reachable (I := fun s => Settled s.rest s.request.pc)
    (fun _ _ _ hi hs => settled_step hi hs) hreach hstart

end

/-- In each of the three loops, for whatever a client sends in whatever pieces: what is no
command of the loop changes nothing, unless it is a single byte that is no digit (and the
player is not already paused). The recording loop also records for what is no single byte while
`record_param` asks for it; once `res_info_init` has been called it never does. -/
theorem only_commands_act_iff {client ret : Int} {recvbuf : Bytes} {results : List RecvResult}
    (hr : socketRecv client (List.replicate 100 0) 0 100 results = some (ret,recvbuf)) :
    (∀ s : Auto, s.process = .accept →
      ((¬ CommandOf 52 (cString (taken client 0 100 results)) → ProcessKeeps s (some recvbuf)) ↔
        NotStray (cString (taken client 0 100 results)) ∨ s.player.Paused)) ∧
    (∀ s : Auto, s.main = none →
      ((¬ CommandOf 52 (cString (taken client 0 100 results)) → MainKeeps s recvbuf) ↔
        NotStray (cString (taken client 0 100 results)) ∨ s.player.Paused)) ∧
    (∀ reqMode s, s.request.pc = .recv client →
      ((¬ CommandOf 48 (cString (taken client 0 100 results)) → StartsNone reqMode s results) ↔
        NotStray (cString (taken client 0 100 results)) ∧
          (s.rest.recordParam = recordStart → ∃ p, cString (taken client 0 100 results) = [p]))) ∧
    ∀ reqMode rest s, rest.recordParam ≠ recordStart →
      Reachable (serverStep reqMode) (Server.start rest) s → s.request.pc = .recv client →
      s.rest.recordParam ≠ recordStart := by
  rw [← socketRecv_cString hr]
  refine ⟨fun s hs => ?_,fun s hs => ?_,fun reqMode s hpc => ?_,
    fun reqMode rest s hrest hreach hpc => ?_⟩
  · rw [processKeeps_iff hs]
    exact keeps_received_iff _ _
  · rw [mainKeeps_iff hs]
    exact keeps_received_iff _ _
  · rw [startsNone_iff hpc hr]
    exact receive_recordParam_iff s.rest recvbuf
  · have hsettled := settled_reachable hrest hreach
    rwa [hpc] at hsettled

def held (msg : Bytes) : Bytes := msg ++ List.replicate (100 - msg.length) 0

def playing : List AutoAction := [.mainReceive (ascii "1"),.mainStep,.mainStep,.mainStep]

def recordClient : List RequestAction := [.create 3 0 0,.test,.accept ⟨1,true⟩ 5]

theorem only_commands_act_iff_hello :
    socketRecv 5 (List.replicate 100 0) 0 100 [.data (ascii "hel"),.data (ascii "lo"),.closed] =
      some (-2,held (ascii "hello")) ∧
    MainKeeps (Auto.init twoRing (some 0)) (held (ascii "hello")) ∧
    ∃ s t, run (serverStep 0) (Server.start restInfo) recordClient = .next s ∧
      StartsNone 0 s [.data (ascii "hel"),.data (ascii "lo"),.closed] ∧
      run (serverStep 0) (Server.start .zero) recordClient = .next t ∧
      ¬ StartsNone 0 t [.data (ascii "hel"),.data (ascii "lo"),.closed] := by
  have hr : socketRecv 5 (List.replicate 100 0) 0 100
      [.data (ascii "hel"),.data (ascii "lo"),.closed] = some (-2,held (ascii "hello")) := by decide
  have hsingle : ∀ p, ascii "hello" ≠ [p] := by
    rintro p ⟨⟩
  have hcmd : ∀ last, ¬ CommandOf last (ascii "hello") := fun last ⟨p,hp,_⟩ => hsingle p hp
  obtain ⟨-,hmain,hrecord,-⟩ := only_commands_act_iff hr
  refine ⟨hr,(hmain _ rfl).mpr (.inl (notStray_of_not_single hsingle)) (hcmd 52),_,_,rfl,?_,rfl,?_⟩
  · exact (hrecord 0 _ rfl).mpr ⟨notStray_of_not_single hsingle,fun h => absurd h (by decide)⟩
      (hcmd 48)
  · intro hnone
    obtain ⟨p,hp⟩ := ((hrecord 0 _ rfl).mp fun _ => hnone).2 rfl
    exact hsingle p hp

theorem stray_byte_acts : ∃ s t r,
    socketRecv 5 (List.replicate 100 0) 0 100 [.data (ascii "x"),.closed] =
      some (-2,held (ascii "x")) ∧ ¬ CommandOf 52 (ascii "x") ∧ ¬ CommandOf 48 (ascii "x") ∧
    run autoStep (Auto.init twoRing (some 0)) playing = .next s ∧ s.main = none ∧
    run autoStep s (mainHandle (held (ascii "x")) 2) = .next t ∧
    s.player.madplay.map Madplay.stopped = [false] ∧ s.player.musicPauseFlag = 0 ∧
    t.player.madplay.map Madplay.stopped = [true] ∧ t.player.musicPauseFlag = 1 ∧
    run (serverStep 0) (Server.start restInfo)
      (recordClient ++ [.recv [.data (ascii "x"),.closed],.recordTest,.record]) = .next r ∧
    recordings r.log ≠ [] := by
  refine ⟨_,_,_,by decide,?_,?_,rfl,rfl,rfl,rfl,rfl,rfl,rfl,rfl,by decide⟩
  · rintro ⟨p,⟨⟩,-,h⟩
    exact absurd h (by decide)
  · rintro ⟨p,⟨⟩,-,h⟩
    exact absurd h (by decide)

end IntelligentAcoustics
