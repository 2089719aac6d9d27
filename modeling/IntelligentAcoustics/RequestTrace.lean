import IntelligentAcoustics.Recognition
import IntelligentAcoustics.WebCommand

/-!
The whole of what `request_process` does, client by client: a recording for those whose
message reads as 0, always with the command made at the start, and a recognition for all.
A call of `res_info_init` in between can take the recording away. From the page the only
message that asks for one is that of the record button.
-/

set_option autoImplicit false

namespace IntelligentAcoustics.Msr
open Transition

def Records (recvbuf : Bytes) : Prop := ∃ p, cString recvbuf = [p] ∧ matoi p = recordStart

instance (recvbuf : Bytes) : Decidable (Records recvbuf) :=
  match h : cString recvbuf with
  | [p] => decidable_of_iff (matoi p = recordStart) (by simp [Records,h])
  | [] => .isFalse (by simp [Records,h])
  | _ :: _ :: _ => .isFalse (by simp [Records,h])

def recordText (rest : RecordInfo) : Bytes := cString ((recordCmd rest).getD [])

/-- Recorded, with the command of `rest`, exactly when the message asks for it. -/
def Round.Proper (rest : RecordInfo) (r : Round) : Prop :=
  r.recorded = if Records r.recvbuf then some (recordText rest) else none

def Round.Sound (rest : RecordInfo) (r : Round) : Prop :=
  r.recorded ≠ none → Records r.recvbuf ∧ r.recorded = some (recordText rest)

def Round.lost (r : Round) : Bool := Records r.recvbuf ∧ r.recorded = none

def lostRounds (rounds : List Round) : Nat := rounds.countP Round.lost

def RequestPc.beyond : RequestPc → Bool
  | .create | .returned => false
  | .head | .accept | .recv _ | .recordTest | .record | .recordFinish | .pythonCmd | .child |
    .waitpid _ | .exited => true

/-- The round in progress, where `inits` calls of `res_info_init` may each have taken one
recording away. -/
def Pending (info : RecordInfo) (recordParam : Int) (rounds : List Round) (log : List Event)
    (inits : Nat) : RequestPc → Prop
  | .recordTest => ∃ b, log = [.conn b] ∧ (recordParam = recordStart → Records b) ∧
      lostRounds rounds + (if Records b ∧ recordParam ≠ recordStart then 1 else 0) ≤ inits
  | .record => ∃ b, log = [.conn b] ∧ Records b ∧ lostRounds rounds ≤ inits
  | .recordFinish => ∃ b, log = [.conn b,.system (recordText info)] ∧ Records b ∧
      lostRounds rounds ≤ inits
  | .pythonCmd => recordParam ≠ recordStart ∧ ∃ r : Round, r.Sound info ∧
      log ++ [.pythonCmd] = r.events ∧ lostRounds (rounds ++ [r]) ≤ inits
  | .create | .head | .accept | .recv _ | .child | .waitpid _ | .returned | .exited =>
    recordParam ≠ recordStart ∧ log = [] ∧ lostRounds rounds ≤ inits

/-- What a thread in the loop has, and how far its round is. But for `record_param` the
fields of `rest_info` are always those of `info`. -/
structure Serves (info rest : RecordInfo) (t : Request) (rounds : List Round) (log : List Event)
    (inits : Nat) : Prop where
  fields : rest = { info with recordParam := rest.recordParam }
  sound : ∀ r ∈ rounds, r.Sound info
  recmd : t.pc.beyond = true → cString t.recmd = recordText info
  pending : Pending info rest.recordParam rounds log inits t.pc

theorem receive_records {rest : RecordInfo} {recvbuf : Bytes}
    (h : rest.recordParam ≠ recordStart) :
    (rest.receive recvbuf).recordParam = recordStart ↔ Records recvbuf := by
  unfold RecordInfo.receive Records
  split
  · rename_i p hp
    simp [hp]
  · rename_i hno
    exact iff_of_false h fun ⟨p,hp,_⟩ => hno p hp

theorem create_cmd {reqMode : Int} {rest : RecordInfo} {t : Request} {u : Turn}
    {serverSocket bind listen : Int}
    (h : requestProcess reqMode rest t (.create serverSocket bind listen) = .next u)
    (hs : 0 ≤ tcpServerCreate serverSocket bind listen) :
    recordCmd rest = some u.request.recmd := by
  simp only [requestProcess,guard_eq_next] at h
  have h := h.2
  rw [if_neg (Int.not_lt.mpr hs)] at h
  split at h
  · simp at h
  · rename_i recmd hcmd
    simp only [Outcome.next.injEq] at h
    rw [hcmd,← h]

theorem lostRounds_snoc (rounds : List Round) (r : Round) :
    lostRounds (rounds ++ [r]) = lostRounds rounds + if r.lost then 1 else 0 := by
  simp [lostRounds,List.countP_append,List.countP_singleton]

theorem receive_fields {info rest : RecordInfo} {recvbuf : Bytes}
    (h : rest = { info with recordParam := rest.recordParam }) :
    rest.receive recvbuf = { info with recordParam := (rest.receive recvbuf).recordParam } := by
  unfold RecordInfo.receive
  split
  · rw [h]
  · exact h

theorem Serves.step {reqMode : Int} {info rest : RecordInfo} {t : Request} {rounds : List Round}
    {log : List Event} {inits : Nat} {a : RequestAction} {u : Turn}
    (h : Serves info rest t rounds log inits) (hu : requestProcess reqMode rest t a = .next u) :
    ∃ rounds' log',
      rounds.flatMap Round.events ++ log ++ u.events = rounds'.flatMap Round.events ++ log' ∧
        Serves info u.rest u.request rounds' log' inits := by
  obtain ⟨hfields,hsound,hcmd,hpending⟩ := h
  cases a with
  | create serverSocket bind listen =>
    obtain ⟨hpc,hcase⟩ := create_next hu
    rw [hpc] at hpending
    obtain ⟨-,rfl⟩ | ⟨hsock,recmd,rfl⟩ := hcase
    · exact ⟨rounds,log,by simp,hfields,hsound,by simp [RequestPc.beyond],hpending⟩
    · refine ⟨rounds,log,by simp,hfields,hsound,fun _ => ?_,hpending⟩
      have hmade := create_cmd hu hsock
      rw [hfields] at hmade
      have hsame : recordCmd { info with recordParam := rest.recordParam } =
          recordCmd info := rfl
      rw [hsame] at hmade
      simp [recordText,hmade]
  | test =>
    obtain ⟨hpc,rfl⟩ := test_next hu
    rw [hpc] at hpending
    refine ⟨rounds,log,by simp,hfields,hsound,fun _ => hcmd (by simp [hpc,RequestPc.beyond]),?_⟩
    show Pending info rest.recordParam rounds log inits (if reqMode = 0 then .accept else .returned)
    split <;> exact hpending
  | accept sel acceptfd =>
    obtain ⟨hpc,rfl | ⟨client,rfl⟩⟩ := accept_next hu
    · rw [hpc] at hpending
      exact ⟨rounds,log,by simp,hfields,hsound,fun _ => hcmd (by simp [hpc,RequestPc.beyond]),
        hpending⟩
    · rw [hpc] at hpending
      exact ⟨rounds,log,by simp,hfields,hsound,fun _ => hcmd (by simp [hpc,RequestPc.beyond]),
        hpending⟩
  | recv results =>
    obtain ⟨client,ret,recvbuf,hpc,-,rfl⟩ := recv_next hu
    rw [hpc] at hpending
    obtain ⟨hparam,rfl,hlost⟩ := hpending
    have hasks : (rest.receive recvbuf).recordParam = recordStart ↔ Records recvbuf :=
      receive_records hparam
    refine ⟨rounds,[.conn recvbuf],by simp,receive_fields hfields,hsound,
      fun _ => hcmd (by simp [hpc,RequestPc.beyond]),recvbuf,rfl,hasks.mp,?_⟩
    rw [if_neg (fun hboth => hboth.2 (hasks.mpr hboth.1))]
    exact hlost
  | recordTest =>
    obtain ⟨hpc,rfl⟩ := recordTest_next hu
    rw [hpc] at hpending
    obtain ⟨b,rfl,hb,hlost⟩ := hpending
    refine ⟨rounds,[.conn b],by simp,hfields,hsound,
      fun _ => hcmd (by simp [hpc,RequestPc.beyond]),?_⟩
    by_cases hstart : rest.recordParam = recordStart
    · rw [if_pos hstart]
      exact ⟨b,rfl,hb hstart,Nat.le_of_add_right_le hlost⟩
    · rw [if_neg hstart]
      refine ⟨hstart,⟨b,none⟩,fun hne => absurd rfl hne,rfl,?_⟩
      rw [lostRounds_snoc]
      simpa [Round.lost,hstart] using hlost
  | record =>
    obtain ⟨hpc,rfl⟩ := record_next hu
    rw [hpc] at hpending
    obtain ⟨b,rfl,hb,hlost⟩ := hpending
    have hcmd := hcmd (by simp [hpc,RequestPc.beyond])
    exact ⟨rounds,[.conn b,.system (recordText info)],by simp [hcmd],hfields,hsound,
      fun _ => hcmd,b,rfl,hb,hlost⟩
  | recordFinish =>
    obtain ⟨hpc,rfl⟩ := recordFinish_next hu
    rw [hpc] at hpending
    obtain ⟨b,rfl,hb,hlost⟩ := hpending
    have hfinish : ({ rest with recordParam := Msr.recordFinish } : RecordInfo) =
        { info with recordParam := Msr.recordFinish } := by
      rw [hfields]
    refine ⟨rounds,_,by simp,hfinish,hsound,
      fun _ => hcmd (by simp [hpc,RequestPc.beyond]),show Msr.recordFinish ≠ recordStart by decide,
      ⟨b,some (recordText info)⟩,fun _ => ⟨hb,rfl⟩,rfl,?_⟩
    simpa [lostRounds_snoc,Round.lost] using hlost
  | fork pid =>
    obtain ⟨hpc,rfl⟩ := fork_next hu
    rw [hpc] at hpending
    obtain ⟨hparam,r,hr,hlog,hlost⟩ := hpending
    refine ⟨rounds ++ [r],[],by simp [← hlog],hfields,fun q hq => ?_,
      fun _ => hcmd (by simp [hpc,RequestPc.beyond]),?_⟩
    · rcases List.mem_append.mp hq with hq | hq
      · exact hsound q hq
      · exact List.mem_singleton.mp hq ▸ hr
    · show Pending info rest.recordParam (rounds ++ [r]) [] inits (forked pid)
      unfold forked
      split_ifs <;> exact ⟨hparam,rfl,hlost⟩
  | baiduRequest =>
    obtain ⟨hpc,rfl⟩ := baiduRequest_next hu
    rw [hpc] at hpending
    exact ⟨rounds,log,by simp,hfields,hsound,fun _ => hcmd (by simp [hpc,RequestPc.beyond]),
      hpending⟩
  | waitpid =>
    obtain ⟨pid,hpc,rfl⟩ := waitpid_next hu
    rw [hpc] at hpending
    exact ⟨rounds,log,by simp,hfields,hsound,fun _ => hcmd (by simp [hpc,RequestPc.beyond]),
      hpending⟩

theorem Pending.begins {info : RecordInfo} {recordParam : Int} {rounds : List Round}
    {log : List Event} {inits : Nat} {pc : RequestPc}
    (h : Pending info recordParam rounds log inits pc) :
    ∃ r : Round, r.Sound info ∧ log <+: r.events ∧ lostRounds (rounds ++ [r]) ≤ inits := by
  have hkept : ∀ b, lostRounds rounds ≤ inits → ∃ r : Round, r.Sound info ∧
      [.conn b] <+: r.events ∧ lostRounds (rounds ++ [r]) ≤ inits := by
    intro b hlost
    by_cases hb : Records b
    · refine ⟨⟨b,some (recordText info)⟩,fun _ => ⟨hb,rfl⟩,by simp [Round.events],?_⟩
      simpa [lostRounds_snoc,Round.lost] using hlost
    · refine ⟨⟨b,none⟩,fun hne => absurd rfl hne,by simp [Round.events],?_⟩
      simpa [lostRounds_snoc,Round.lost,hb] using hlost
  cases pc with
  | recordTest =>
    obtain ⟨b,rfl,-,hlost⟩ := h
    exact hkept b (Nat.le_of_add_right_le hlost)
  | record =>
    obtain ⟨b,rfl,-,hlost⟩ := h
    exact hkept b hlost
  | recordFinish =>
    obtain ⟨b,rfl,hb,hlost⟩ := h
    refine ⟨⟨b,some (recordText info)⟩,fun _ => ⟨hb,rfl⟩,by simp [Round.events],?_⟩
    simpa [lostRounds_snoc,Round.lost] using hlost
  | pythonCmd =>
    obtain ⟨-,r,hr,hlog,hlost⟩ := h
    exact ⟨r,hr,⟨[.pythonCmd],hlog⟩,hlost⟩
  | create | head | accept | recv client | child | waitpid pid | returned | exited =>
    obtain ⟨-,rfl,hlost⟩ := h
    obtain ⟨r,hr,-,hrest⟩ := hkept [] hlost
    exact ⟨r,hr,List.nil_prefix,hrest⟩

theorem Round.Sound.proper {info : RecordInfo} {r : Round} (h : r.Sound info)
    (hl : r.lost = false) : r.Proper info := by
  unfold Round.Proper
  cases hr : r.recorded with
  | none =>
    rw [if_neg]
    intro hb
    simp [Round.lost,hb,hr] at hl
  | some recmd =>
    obtain ⟨hb,htext⟩ := h (by simp [hr])
    rw [if_pos hb,← htext,hr]

theorem proper_of_lostRounds {info : RecordInfo} {rounds : List Round}
    (h : ∀ r ∈ rounds, r.Sound info) (hl : lostRounds rounds = 0) :
    ∀ r ∈ rounds, r.Proper info :=
  fun r hr => (h r hr).proper (by simpa using List.countP_eq_zero.mp hl r hr)

/-! ### From the page -/

theorem records_congr {buf buf' : Bytes} (h : cString buf = cString buf') :
    Records buf ↔ Records buf' := by
  simp only [Records,h]

theorem aitalkTable_records :
    ∀ x ∈ Cgi.aitalkTable, (Records x.2 ↔ x.1 = ascii "record") := by decide

theorem arrives_records {msg recvbuf : Bytes} (h : Music.Arrives (some msg) (some recvbuf)) :
    Records recvbuf ↔ Records msg := by
  cases h with
  | message h => exact records_congr (socketRecv_cString h)

theorem aitalkMain_records_iff {env body msg : Bytes} (h0 : 0 ≤ Cgi.atoi env)
    (hlt : Cgi.atoi env < 2^31-1) (hb : body ≠ [])
    (hm : Cgi.aitalkMain (some env) body = some (some msg)) :
    Records msg ↔ Cgi.request (Cgi.atoi env) body = ascii "msg=record" := by
  obtain ⟨msg',hmain,hcase⟩ := Cgi.cgiMain_spec
    (show ∀ x ∈ Cgi.aitalkTable, 0 ∉ x.1 by decide) h0 hlt hb
  obtain rfl : some msg = msg' := Option.some.inj (hm.symm.trans hmain)
  have hrecord : ascii "msg=record" = ascii "msg=" ++ ascii "record" := by decide
  rw [hrecord]
  rcases hcase with ⟨-,hnone⟩ | ⟨t,m,ht,hmsg,htable⟩
  · simp at hnone
  · obtain rfl : msg = m := Option.some.inj hmsg
    rw [ht,List.append_cancel_left_eq]
    rcases htable with hmem | ⟨hnot,rfl⟩
    · exact aitalkTable_records _ hmem
    · refine iff_of_false (by decide) fun he => ?_
      exact hnot (ascii "record",Cgi.message "0") (by decide) he.symm

end IntelligentAcoustics.Msr
