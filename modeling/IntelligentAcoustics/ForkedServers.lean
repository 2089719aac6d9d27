import IntelligentAcoustics.RequestProcess

/-!
The processes that `python_cmd` forks. Each is a copy of the thread that runs
`request_process`; what `python_cmd` does in it after `BaiduRequest` is to return.
-/

set_option autoImplicit false

namespace IntelligentAcoustics.Msr
open Transition

structure Process where
  rest : RecordInfo
  request : Request
  deriving DecidableEq, Repr

def Process.start (rest : RecordInfo) : Process := ⟨rest,.start⟩

def Process.ended (p : Process) : Bool :=
  match p.request.pc with
  | .returned | .exited => true
  | _ => false

def ownStep (ps : List Process) (i : Nat) (p : Process) (a : RequestAction) :
    Outcome (List Process) :=
  (requestProcess 0 p.rest p.request a).bind fun u => .next (ps.set i ⟨u.rest,u.request⟩)

/-- The processes by pid, the original one at 0. A fork appends a copy in which it returns
0; `waitpid` returns once the child has ended. -/
def processStep (ps : List Process) (x : Nat × RequestAction) : Outcome (List Process) :=
  match ps[x.1]? with
  | none => .blocked
  | some p =>
    match x.2 with
    | .fork pid =>
      if pid = -1 then ownStep ps x.1 p (.fork pid)
      else if pid = ps.length then
        (requestProcess 0 p.rest p.request (.fork 0)).bind fun c =>
          (ownStep ps x.1 p (.fork pid)).bind fun ps' => .next (ps' ++ [⟨c.rest,c.request⟩])
      else .blocked
    | .waitpid =>
      match p.request.pc with
      | .waitpid pid =>
        if (ps[pid.toNat]?.map Process.ended) = some true then ownStep ps x.1 p .waitpid
        else .blocked
      | _ => .blocked
    | a => ownStep ps x.1 p a

def RequestPc.inLoop : RequestPc → Bool
  | .head | .accept | .recv _ | .recordTest | .record | .recordFinish | .pythonCmd => true
  | .create | .child | .waitpid _ | .returned | .exited => false

/-- No forked child is in the loop, and while the original process is, all children have
ended. -/
def OneServer (ps : List Process) : Prop :=
  (∀ i p, ps[i]? = some p → i ≠ 0 → p.request.pc.inLoop = false) ∧
    ∀ p, ps[0]? = some p → p.request.pc.inLoop = true →
      ∀ i q, ps[i]? = some q → i ≠ 0 → q.ended = true

def RequestAction.forks : RequestAction → Bool
  | .fork pid => pid ≠ -1
  | _ => false

theorem ownStep_next {ps ps' : List Process} {i : Nat} {p : Process} {a : RequestAction}
    (h : ownStep ps i p a = .next ps') :
    ∃ u, requestProcess 0 p.rest p.request a = .next u ∧ ps' = ps.set i ⟨u.rest,u.request⟩ := by
  obtain ⟨u,hu,h⟩ := Outcome.bind_eq_next.mp h
  simp only [Outcome.next.injEq] at h
  exact ⟨u,hu,h.symm⟩

theorem processStep_next {ps ps' : List Process} {x : Nat × RequestAction}
    (h : processStep ps x = .next ps') :
    ∃ p u, ps[x.1]? = some p ∧ requestProcess 0 p.rest p.request x.2 = .next u ∧
      ((x.2.forks = false ∧ ps' = ps.set x.1 ⟨u.rest,u.request⟩) ∨
      (x.2.forks = true ∧ p.request.pc = .pythonCmd ∧ ps' = ps.set x.1 ⟨u.rest,u.request⟩ ++
        [⟨p.rest,{ p.request with pc := .child }⟩])) := by
  obtain ⟨i,a⟩ := x
  simp only [processStep] at h
  split at h
  · simp at h
  · rename_i p hp
    split at h
    · rename_i pid
      split at h
      · rename_i hpid
        obtain ⟨u,hu,rfl⟩ := ownStep_next h
        exact ⟨p,u,hp,hu,.inl ⟨by simp [RequestAction.forks,hpid],rfl⟩⟩
      · rename_i hpid
        simp only [guard_eq_next,Outcome.bind_eq_next,Outcome.next.injEq] at h
        obtain ⟨-,c,hc,ps₁,hs,rfl⟩ := h
        obtain ⟨u,hu,rfl⟩ := ownStep_next hs
        obtain ⟨hpc,rfl⟩ := fork_next hc
        exact ⟨p,u,hp,hu,.inr ⟨by simp [RequestAction.forks,hpid],hpc,rfl⟩⟩
    · split at h
      · simp only [guard_eq_next] at h
        obtain ⟨u,hu,rfl⟩ := ownStep_next h.2
        exact ⟨p,u,hp,hu,.inl ⟨rfl,rfl⟩⟩
      · simp at h
    · rename_i hfork _
      obtain ⟨u,hu,rfl⟩ := ownStep_next h
      refine ⟨p,u,hp,hu,.inl ⟨?_,rfl⟩⟩
      cases a with
      | fork pid => exact absurd rfl (hfork pid)
      | _ => rfl

theorem processStep_length {ps ps' : List Process} {x : Nat × RequestAction}
    (h : processStep ps x = .next ps') :
    ps'.length = ps.length + if x.2.forks then 1 else 0 := by
  obtain ⟨p,u,-,-,⟨hf,rfl⟩ | ⟨hf,-,rfl⟩⟩ := processStep_next h
  · simp [hf]
  · simp [hf]

theorem run_length {ps ps' : List Process} {as : List (Nat × RequestAction)}
    (h : run processStep ps as = .next ps') :
    ps'.length = ps.length + as.countP fun x => x.2.forks := by
  induction as generalizing ps with
  | nil =>
    simp only [run_nil,Outcome.next.injEq] at h
    simp [h]
  | cons x as ih =>
    simp only [run_cons,Outcome.bind_eq_next] at h
    obtain ⟨ps₁,hx,hr⟩ := h
    have hlen := processStep_length hx
    rw [ih hr,hlen,List.countP_cons]
    omega

theorem oneServer_of_length {ps : List Process} (h : ps.length = 1) : OneServer ps := by
  have hnone : ∀ (i : Nat) (p : Process), ps[i]? = some p → i = 0 := by
    intro i p hp
    have hlt := (List.getElem?_eq_some_iff.mp hp).1
    omega
  exact ⟨fun i p hp hi => absurd (hnone i p hp) hi,
    fun _ _ _ i q hq hi => absurd (hnone i q hq) hi⟩

def InBaidu (ps : List Process) : Prop :=
  ∀ i p, ps[i]? = some p → i ≠ 0 → p.request.pc = .child

theorem child_step {p : Process} {a : RequestAction} {u : Turn} (hp : p.request.pc = .child)
    (h : requestProcess 0 p.rest p.request a = .next u) : u.request.pc = .head := by
  cases a with
  | baiduRequest =>
    obtain ⟨-,rfl⟩ := baiduRequest_next h
    rfl
  | create => simp [(create_next h).1] at hp
  | test => simp [(test_next h).1] at hp
  | accept => simp [(accept_next h).1] at hp
  | recv =>
    obtain ⟨_,_,_,hpc,-⟩ := recv_next h
    simp [hpc] at hp
  | recordTest => simp [(recordTest_next h).1] at hp
  | record => simp [(record_next h).1] at hp
  | recordFinish => simp [(recordFinish_next h).1] at hp
  | fork => simp [(fork_next h).1] at hp
  | waitpid =>
    obtain ⟨_,hpc,-⟩ := waitpid_next h
    simp [hpc] at hp

theorem InBaidu.step {ps ps' : List Process} {x : Nat × RequestAction} (h : InBaidu ps)
    (ho : OneServer ps') (hs : processStep ps x = .next ps') : InBaidu ps' := by
  obtain ⟨p,u,hp,hu,hcase⟩ := processStep_next hs
  obtain ⟨hlt,-⟩ := List.getElem?_eq_some_iff.mp hp
  have hzero : x.1 = 0 := by
    by_contra hne
    have hhead := child_step (h x.1 p hp hne) hu
    have hat : ps'[x.1]? = some ⟨u.rest,u.request⟩ := by
      obtain ⟨-,rfl⟩ | ⟨-,-,rfl⟩ := hcase
      · simp [hlt]
      · rw [List.getElem?_append_left (by simpa using hlt)]
        simp [hlt]
    have hout := ho.1 _ _ hat hne
    simp [hhead,RequestPc.inLoop] at hout
  have hset : ∀ i q, (ps.set x.1 ⟨u.rest,u.request⟩)[i]? = some q → i ≠ 0 →
      q.request.pc = .child := by
    intro i q hq hi
    rw [List.getElem?_set_ne (by omega)] at hq
    exact h i q hq hi
  obtain ⟨-,rfl⟩ | ⟨-,-,rfl⟩ := hcase
  · exact hset
  · intro i q hq hi
    rw [List.getElem?_append] at hq
    split at hq
    · exact hset i q hq hi
    · have hm := List.mem_of_getElem? hq
      simp only [List.mem_singleton] at hm
      rw [hm]

theorem returned_child_serves {ps : List Process} {q : Process} (hq : ps[1]? = some q)
    (hc : q.request.pc = .child) :
    ∃ ps', processStep ps (1,.baiduRequest) = .next ps' ∧ ¬ OneServer ps' := by
  refine ⟨ps.set 1 ⟨q.rest,{ q.request with pc := .head }⟩,?_,?_⟩
  · simp [processStep,hq,ownStep,requestProcess,hc]
  · intro ho
    have hlt := (List.getElem?_eq_some_iff.mp hq).1
    have hout := ho.1 1 ⟨q.rest,{ q.request with pc := .head }⟩ (by simp [hlt]) (by omega)
    simp [RequestPc.inLoop] at hout

/-- Over every run of one thread and the children it forks: it stays the only server,
whatever happens next without a new fork, if and only if no fork has succeeded. -/
theorem one_server_iff {rest : RecordInfo} {ps : List Process}
    {as : List (Nat × RequestAction)} (h : run processStep [.start rest] as = .next ps) :
    (∀ bs : List (Nat × RequestAction), (∀ x ∈ bs, x.2.forks = false) →
      Always processStep OneServer [.start rest] (as ++ bs)) ↔
    ∀ x ∈ as, x.2.forks = false := by
  constructor
  · intro hall
    have hstart : InBaidu [.start rest] := by
      intro i p hp hi
      have hlt := (List.getElem?_eq_some_iff.mp hp).1
      simp only [List.length_singleton] at hlt
      omega
    have hbaidu : InBaidu ps := by
      refine invariant_run_of_always (fun _ _ _ hi ho hs => hi.step ho hs) ?_ h hstart
      simpa using hall [] (by simp)
    have hlen := run_length h
    by_contra hfork
    have hpos : 0 < as.countP fun x => x.2.forks := by
      simp only [not_forall] at hfork
      obtain ⟨x,hx,hf⟩ := hfork
      exact List.countP_pos_iff.mpr ⟨x,hx,by simpa using hf⟩
    have hone : 1 < ps.length := by
      simp only [List.length_singleton] at hlen
      omega
    have hq : ps[1]? = some ps[1] := List.getElem?_eq_getElem hone
    obtain ⟨ps',hs,hno⟩ := returned_child_serves hq (hbaidu 1 _ hq (by omega))
    refine hno ((hall [(1,.baiduRequest)] (by simp [RequestAction.forks])).last ?_)
    rw [run_append h,run_cons,hs]
    rfl
  · intro hnone bs hbs
    refine always_of_along (I := fun ps => ps.length = 1)
      (G := fun _ x => x.2.forks = false) ?_ (fun _ => oneServer_of_length) rfl ?_
    · intro ps x ps' hlen hf hs
      rw [processStep_length hs,hlen,hf]
      rfl
    · refine along_of_forall (fun x hx _ => ?_) _
      rcases List.mem_append.mp hx with hx | hx
      · exact hnone x hx
      · exact hbs x hx

def firstClient : List (Nat × RequestAction) :=
  [(0,.create 3 0 0),(0,.test),(0,.accept ⟨1,true⟩ 4),(0,.recv [.closed]),(0,.recordTest)]

theorem one_server_iff_forkFailed : ∃ ps,
    run processStep [.start restInfo] (firstClient ++ [(0,.fork (-1))]) = .next ps ∧
      ((∀ bs : List (Nat × RequestAction), (∀ x ∈ bs, x.2.forks = false) →
        Always processStep OneServer [.start restInfo]
          (firstClient ++ [(0,.fork (-1))] ++ bs)) ↔
      ∀ x ∈ firstClient ++ [(0,.fork (-1))], x.2.forks = false) :=
  ⟨_,rfl,one_server_iff (show run processStep [.start restInfo]
    (firstClient ++ [(0,.fork (-1))]) = _ from rfl)⟩

theorem child_serves : ∃ ps,
    run processStep [.start restInfo] (firstClient ++ [(0,.fork 1),(1,.baiduRequest)]) =
      .next ps ∧ ps.map (fun p => p.request.pc) = [.waitpid 1,.head] ∧ ¬ OneServer ps :=
  ⟨_,rfl,rfl,fun h => Bool.noConfusion (h.1 1 _ rfl (by decide))⟩

end IntelligentAcoustics.Msr
