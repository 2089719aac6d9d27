import IntelligentAcoustics.ForkedServers
import IntelligentAcoustics.Library.ThreadList
import Mathlib.Data.List.Chain

/-!
Who serves when `python_cmd` has forked. The child goes on in the loop, and its parent waits
for it to end, which it does only when a fork fails: the processes that have not ended form
a chain in which each one waits for the next, and the last one serves.
-/

set_option autoImplicit false

namespace IntelligentAcoustics.Msr
open Transition ThreadList

def Process.active (p : Process) : Bool :=
  match p.request.pc with
  | .waitpid _ | .returned | .exited => false
  | .create | .head | .accept | .recv _ | .recordTest | .record | .recordFinish | .pythonCmd |
    .child => true

def RequestAction.ends : RequestAction → Bool
  | .create serverSocket bind listen => tcpServerCreate serverSocket bind listen < 0
  | .fork pid => pid = -1
  | .test | .accept _ _ | .recv _ | .recordTest | .record | .recordFinish | .baiduRequest |
    .waitpid => false

def Waits (ps : List Process) (child parent : Nat) : Prop :=
  ∃ p, ps[parent]? = some p ∧ p.request.pc = .waitpid child

/-- The processes that have not ended, the last one first. -/
structure Chained (ps : List Process) (chain : List Nat) : Prop where
  nodup : chain.Nodup
  bound : ∀ i ∈ chain, i < ps.length
  running : ∀ i p, ps[i]? = some p → (p.ended = false ↔ i ∈ chain)
  waits : chain.IsChain (Waits ps)
  last : ∀ i p pid, chain.head? = some i → ps[i]? = some p → p.request.pc = .waitpid pid →
    ∃ q, ps[pid.toNat]? = some q ∧ q.ended = true

section
variable {rest : RecordInfo} {t : Request} {a : RequestAction} {u : Turn}

theorem turn_next (h : requestProcess 0 rest t a = .next u) :
    (Process.mk rest t).ended = false ∧ (Process.mk u.rest u.request).ended = a.ends ∧
      (a.forks = false → ∀ pid, u.request.pc ≠ .waitpid pid) ∧
      (a ≠ .waitpid → ∀ pid, t.pc ≠ .waitpid pid) := by
  cases a with
  | create serverSocket bind listen =>
    obtain ⟨hpc,⟨hs,rfl⟩ | ⟨hs,_,rfl⟩⟩ := create_next h
    · simp [Process.ended,hpc,RequestAction.ends,hs]
    · simp [Process.ended,hpc,RequestAction.ends,hs]
  | test =>
    obtain ⟨hpc,rfl⟩ := test_next h
    simp [Process.ended,hpc,RequestAction.ends]
  | accept sel acceptfd =>
    obtain ⟨hpc,rfl | ⟨_,rfl⟩⟩ := accept_next h
    · simp [Process.ended,hpc,RequestAction.ends]
    · simp [Process.ended,hpc,RequestAction.ends]
  | recv results =>
    obtain ⟨_,_,_,hpc,-,rfl⟩ := recv_next h
    simp [Process.ended,hpc,RequestAction.ends]
  | recordTest =>
    obtain ⟨hpc,rfl⟩ := recordTest_next h
    by_cases hstart : rest.recordParam = recordStart <;>
      simp [Process.ended,hpc,RequestAction.ends,hstart]
  | record =>
    obtain ⟨hpc,rfl⟩ := record_next h
    simp [Process.ended,hpc,RequestAction.ends]
  | recordFinish =>
    obtain ⟨hpc,rfl⟩ := recordFinish_next h
    simp [Process.ended,hpc,RequestAction.ends]
  | fork pid =>
    obtain ⟨hpc,rfl⟩ := fork_next h
    refine ⟨by simp [Process.ended,hpc],?_,?_,by simp [hpc]⟩
    · simp only [Process.ended,forked,RequestAction.ends]
      split_ifs <;> simp_all
    · intro hf
      simp only [RequestAction.forks,decide_eq_false_iff_not,not_not] at hf
      simp [forked,hf]
  | baiduRequest =>
    obtain ⟨hpc,rfl⟩ := baiduRequest_next h
    simp [Process.ended,hpc,RequestAction.ends]
  | waitpid =>
    obtain ⟨_,hpc,rfl⟩ := waitpid_next h
    simp [Process.ended,hpc,RequestAction.ends]

end

section
variable {ps ps' : List Process} {chain : List Nat} {x : Nat × RequestAction}

/-- What the kernel sees to: pids count up, and `waitpid` returns for an ended child. -/
theorem processStep_kernel (h : processStep ps x = .next ps') :
    (x.2.forks = true → x.2 = .fork ps.length) ∧
      ∀ p pid, x.2 = .waitpid → ps[x.1]? = some p → p.request.pc = .waitpid pid →
        ∃ q, ps[pid.toNat]? = some q ∧ q.ended = true := by
  obtain ⟨i,a⟩ := x
  simp only [processStep] at h
  split at h
  · simp at h
  · rename_i p hp
    split at h
    · rename_i pid
      refine ⟨fun hf => ?_,by simp⟩
      split at h
      · rename_i hpid
        simp [RequestAction.forks,hpid] at hf
      · simp only [guard_eq_next] at h
        rw [h.1]
    · refine ⟨by simp [RequestAction.forks],fun p' pid _ hp' hpc => ?_⟩
      obtain rfl := Option.some.inj (hp.symm.trans hp')
      simp only [hpc,guard_eq_next,Option.map_eq_some_iff] at h
      exact h.1
    · rename_i hfork hwait
      refine ⟨fun hf => ?_,fun _ _ ha => absurd ha hwait⟩
      cases a with
      | fork pid => exact absurd rfl (hfork pid)
      | _ => simp [RequestAction.forks] at hf

theorem not_last_waits {R : Nat → Nat → Prop} {i : Nat} (h : chain.IsChain R)
    (hi : i ∈ chain) : chain.head? = some i ∨ ∃ c ∈ chain, R c i := by
  induction chain with
  | nil => simp at hi
  | cons c chain ih =>
    rcases List.mem_cons.mp hi with rfl | hi
    · exact .inl rfl
    · rcases ih h.tail hi with hhead | ⟨d,hd,hr⟩
      · exact .inr ⟨c,by simp,h.rel_head? hhead⟩
      · exact .inr ⟨d,by simp [hd],hr⟩

theorem Chained.steps_last (h : Chained ps chain) (hs : processStep ps x = .next ps') :
    chain.head? = some x.1 := by
  obtain ⟨p,u,hp,hu,-⟩ := processStep_next hs
  obtain ⟨hrun,-,-,hwait⟩ := turn_next hu
  have hmem : x.1 ∈ chain := (h.running x.1 p hp).mp hrun
  rcases not_last_waits h.waits hmem with hhead | ⟨c,hc,q,hq,hpc⟩
  · exact hhead
  · exfalso
    obtain rfl := Option.some.inj (hp.symm.trans hq)
    have ha : x.2 = .waitpid := by
      by_contra hne
      exact hwait hne _ hpc
    obtain ⟨child,hchild,hended⟩ := (processStep_kernel hs).2 p c ha hp hpc
    rw [Int.toNat_natCast] at hchild
    have := (h.running c child hchild).mpr hc
    simp [hended] at this

theorem waits_of_getElem? {c p : Nat} (h : Waits ps c p) (he : ps'[p]? = ps[p]?) :
    Waits ps' c p := by
  obtain ⟨q,hq,hpc⟩ := h
  exact ⟨q,he.trans hq,hpc⟩

theorem Chained.move {i : Nat} {rest : List Nat} {p q : Process} (h : Chained ps (i :: rest))
    (hp : ps[i]? = some p) (hw : ∀ pid, q.request.pc ≠ .waitpid pid) :
    Chained (ps.set i q) (if q.ended then rest else i :: rest) := by
  have hlt := (List.getElem?_eq_some_iff.mp hp).1
  obtain ⟨hi,hrest⟩ := List.nodup_cons.mp h.nodup
  have hother : ∀ j ∈ rest, (ps.set i q)[j]? = ps[j]? := by
    intro j hj
    exact List.getElem?_set_ne (by rintro rfl; exact hi hj)
  have hwaits : (i :: rest).IsChain (Waits (ps.set i q)) :=
    h.waits.imp_of_mem_tail_imp fun c j _ hj hcj => waits_of_getElem? hcj (hother j hj)
  have hself : (ps.set i q)[i]? = some q := by simp [hlt]
  cases hq : q.ended with
  | true =>
    refine ⟨hrest,fun j hj => ?_,fun j r hr => ?_,hwaits.tail,fun j r pid hj hr hpc => ?_⟩
    · rw [List.length_set]
      exact h.bound j (.tail _ hj)
    · rcases getElem?_set_cases hr with ⟨rfl,rfl⟩ | ⟨hne,hr⟩
      · simp [hq,hi]
      · simpa [hne] using h.running j r hr
    · obtain ⟨r',hr',hpc'⟩ := hwaits.rel_head? hj
      obtain rfl := Option.some.inj (hr.symm.trans hr')
      rw [hpc] at hpc'
      simp only [RequestPc.waitpid.injEq] at hpc'
      exact ⟨q,by rw [hpc',Int.toNat_natCast]; exact hself,hq⟩
  | false =>
    refine ⟨h.nodup,fun j hj => by simpa using h.bound j hj,fun j r hr => ?_,hwaits,fun j r pid hj hr hpc => ?_⟩
    · rcases getElem?_set_cases hr with ⟨rfl,rfl⟩ | ⟨hne,hr⟩
      · simp [hq]
      · exact h.running j r hr
    · obtain rfl : i = j := by simpa using hj
      obtain rfl := Option.some.inj (hself.symm.trans hr)
      exact absurd hpc (hw pid)

theorem Chained.fork {i : Nat} {rest : List Nat} {p q c : Process} (h : Chained ps (i :: rest))
    (hp : ps[i]? = some p) (hq : q.request.pc = .waitpid ps.length)
    (hc : c.request.pc = .child) :
    Chained (ps.set i q ++ [c]) (ps.length :: i :: rest) := by
  have hlt := (List.getElem?_eq_some_iff.mp hp).1
  obtain ⟨hi,hrest⟩ := List.nodup_cons.mp h.nodup
  have hget : ∀ {j : Nat} {r : Process}, (ps.set i q ++ [c])[j]? = some r →
      (j = ps.length ∧ r = c) ∨ (j = i ∧ r = q) ∨ (j ≠ i ∧ ps[j]? = some r) := by
    intro j r hr
    rw [List.getElem?_append] at hr
    split at hr
    · rcases getElem?_set_cases hr with ⟨rfl,rfl⟩ | ⟨hne,hr⟩
      · exact .inr (.inl ⟨rfl,rfl⟩)
      · exact .inr (.inr ⟨hne,hr⟩)
    · rename_i hge
      have hj := (List.getElem?_eq_some_iff.mp hr).1
      simp only [List.length_set,List.length_singleton] at hge hj
      obtain rfl : j = ps.length := by omega
      refine .inl ⟨rfl,?_⟩
      simpa using hr.symm
  have hlast : (ps.set i q ++ [c])[ps.length]? = some c := by simp
  have hself : (ps.set i q ++ [c])[i]? = some q := by
    rw [List.getElem?_append_left (by simpa using hlt)]
    simp [hlt]
  have hother : ∀ j ∈ rest, (ps.set i q ++ [c])[j]? = ps[j]? := by
    intro j hj
    rw [List.getElem?_append_left (by simpa using h.bound j (by simp [hj]))]
    exact List.getElem?_set_ne (by rintro rfl; exact hi hj)
  refine ⟨?_,fun j hj => ?_,fun j r hr => ?_,?_,fun j r pid hj hr hpc => ?_⟩
  · exact List.nodup_cons.mpr ⟨fun hm => Nat.lt_irrefl _ (h.bound _ hm),h.nodup⟩
  · simp only [List.length_append,List.length_set,List.length_singleton]
    rcases List.mem_cons.mp hj with rfl | hj
    · omega
    · exact Nat.lt_succ_of_lt (h.bound j hj)
  · rcases hget hr with ⟨rfl,rfl⟩ | ⟨rfl,rfl⟩ | ⟨hne,hr⟩
    · simp [Process.ended,hc]
    · simp [Process.ended,hq]
    · have hj := (List.getElem?_eq_some_iff.mp hr).1
      simpa [Nat.ne_of_lt hj] using h.running j r hr
  · refine List.IsChain.cons_cons ⟨q,hself,hq⟩ ?_
    exact h.waits.imp_of_mem_tail_imp fun d j _ hj hdj => waits_of_getElem? hdj (hother j hj)
  · obtain rfl : ps.length = j := by simpa using hj
    obtain rfl := Option.some.inj (hlast.symm.trans hr)
    simp [hc] at hpc

theorem Chained.step (h : Chained ps chain) (hs : processStep ps x = .next ps') :
    ∃ chain', Chained ps' chain' := by
  have hhead := h.steps_last hs
  obtain ⟨rest,rfl⟩ := List.head?_eq_some_iff.mp hhead
  obtain ⟨p,u,hp,hu,⟨hf,rfl⟩ | ⟨hf,hpc,rfl⟩⟩ := processStep_next hs
  · exact ⟨_,h.move hp ((turn_next hu).2.2.1 hf)⟩
  · have hpid := (processStep_kernel hs).1 hf
    rw [hpid] at hu
    obtain ⟨-,rfl⟩ := fork_next hu
    refine ⟨_,h.fork hp ?_ rfl⟩
    have hlt := (List.getElem?_eq_some_iff.mp hp).1
    have hne : ps.length ≠ 0 := by omega
    have hpos : (0 : Int) < ps.length := by omega
    simp only [forked,hpos,if_true]
    split
    · omega
    · split
      · omega
      · rfl

theorem chained_start (rest : RecordInfo) : Chained [.start rest] [0] where
  nodup := by simp
  bound := by simp
  running i p hp := by
    have hi := (List.getElem?_eq_some_iff.mp hp).1
    obtain rfl : i = 0 := by simpa using hi
    obtain rfl : Process.start rest = p := by simpa using hp
    simp [Process.ended,Process.start,Request.start]
  waits := by simp
  last i p pid hi hp hpc := by
    obtain rfl : 0 = i := by simpa using hi
    obtain rfl : Process.start rest = p := by simpa using hp
    simp [Process.start,Request.start] at hpc

theorem chained_run {rest : RecordInfo} {as : List (Nat × RequestAction)}
    (h : run processStep [.start rest] as = .next ps) : ∃ chain, Chained ps chain :=
  invariant_run (I := fun ps => ∃ chain, Chained ps chain)
    (fun _ _ _ ⟨_,hc⟩ hs => hc.step hs) h ⟨[0],chained_start rest⟩

theorem active_running {p : Process} (h : p.active = true) : p.ended = false := by
  cases hpc : p.request.pc <;> simp_all [Process.active,Process.ended]

theorem Chained.active_last (h : Chained ps chain) {i : Nat} {p : Process}
    (hp : ps[i]? = some p) (ha : p.active = true) : chain.head? = some i := by
  rcases not_last_waits h.waits ((h.running i p hp).mp (active_running ha)) with hi | ⟨c,-,q,hq,hpc⟩
  · exact hi
  · obtain rfl := Option.some.inj (hp.symm.trans hq)
    simp [Process.active,hpc] at ha

/-! ### How many there are -/

def alive (ps : List Process) : Nat := ps.countP fun p => !p.ended

theorem alive_step (hs : processStep ps x = .next ps') :
    alive ps' + (if x.2.ends then 1 else 0) = alive ps + if x.2.forks then 1 else 0 := by
  obtain ⟨p,u,hp,hu,hcase⟩ := processStep_next hs
  obtain ⟨hrun,hend,-⟩ := turn_next hu
  have hrun : p.ended = false := hrun
  have hcount := countP_set hp ⟨u.rest,u.request⟩ fun p => !p.ended
  simp only [hrun,hend,Bool.not_false,if_true] at hcount
  obtain ⟨hf,rfl⟩ | ⟨hf,-,rfl⟩ := hcase
  · simp only [alive,hf,Bool.false_eq_true,if_false]
    cases he : x.2.ends <;> simp_all
  · have hpid := (processStep_kernel hs).1 hf
    have hlt := (List.getElem?_eq_some_iff.mp hp).1
    have hends : x.2.ends = false := by simp [hpid,RequestAction.ends]
    have hchild : (Process.mk p.rest { p.request with pc := .child }).ended = false := rfl
    simp only [hends,Bool.not_false,if_true] at hcount
    simp only [alive,List.countP_append,List.countP_singleton,hchild,hf,hends,Bool.not_false,
      Bool.false_eq_true,if_false,if_true]
    omega

theorem alive_run {as : List (Nat × RequestAction)} (h : run processStep ps as = .next ps') :
    alive ps' + (as.countP fun x => x.2.ends) = alive ps + as.countP fun x => x.2.forks := by
  induction as generalizing ps with
  | nil =>
    simp only [run_nil,Outcome.next.injEq] at h
    simp [h]
  | cons x as ih =>
    simp only [run_cons,Outcome.bind_eq_next] at h
    obtain ⟨qs,hx,hr⟩ := h
    have hstep := alive_step hx
    have hrest := ih hr
    simp only [List.countP_cons]
    omega

end

/-- Over every run of one thread and the processes it forks, in whatever order they run: at
no time do two of them serve or recognise, and there is one more of them for every fork
that has succeeded, less those that ended because a call had failed. -/
theorem one_process_serves {rest : RecordInfo} {ps : List Process}
    {as : List (Nat × RequestAction)} (h : run processStep [.start rest] as = .next ps) :
    (∀ (i j : Nat) (p q : Process), ps[i]? = some p → ps[j]? = some q → p.active = true →
      q.active = true → i = j) ∧
    alive ps + (as.countP fun x => x.2.ends) = 1 + as.countP fun x => x.2.forks := by
  obtain ⟨chain,hc⟩ := chained_run h
  refine ⟨fun i j p q hp hq hpa hqa => ?_,?_⟩
  · exact Option.some.inj ((hc.active_last hp hpa).symm.trans (hc.active_last hq hqa))
  · exact alive_run h

def twoForks : List (Nat × RequestAction) :=
  firstClient ++ [(0,.fork 1),(1,.baiduRequest),(1,.test),(1,.accept ⟨1,true⟩ 4),
    (1,.recv [.closed]),(1,.recordTest),(1,.fork 2)]

theorem one_process_serves_twoForks : ∃ ps,
    run processStep [.start restInfo] twoForks = .next ps ∧ alive ps + 0 = 1 + 2 :=
  ⟨_,rfl,(one_process_serves (show run processStep [.start restInfo] twoForks = _ from rfl)).2⟩

end IntelligentAcoustics.Msr
