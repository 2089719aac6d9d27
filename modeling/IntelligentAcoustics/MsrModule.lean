import IntelligentAcoustics.PoolInit
import IntelligentAcoustics.RequestProcess

/-!
`msr_init` and `msr_fini` of `msr/msr.c` with the threads they leave behind: the workers of
the pools and `msr_thread`, which runs `request_process`.
-/

set_option autoImplicit false

namespace IntelligentAcoustics.Msr
open Transition Pool

/-- The function that `msr_init` adds to the pool, with the argument NULL. -/
inductive PoolFunction where
  | requestProcess
  deriving DecidableEq, Repr

inductive MainPc where
  | poolInit
  | loop (i : Nat)
  | addAppend (i : Nat)
  | addSignal (i : Nat)
  | createThread
  | ready
  | fini
  | done
  deriving DecidableEq, Repr

structure Module where
  pools : World PoolFunction Unit
  rest : RecordInfo
  reqMode : Int
  msrThread : Option Request
  main : MainPc
  deriving DecidableEq, Repr

def apiRequest : Nat := 0

def Module.start : Module := ⟨[staticPool],.zero,0,none,.poolInit⟩

def Module.onPool (s : Module) (p : Nat) (a : Pool.Action PoolFunction Unit) (main : MainPc) :
    Outcome Module :=
  (worldStep s.pools (p,a)).bind fun pools => .next { s with pools := pools, main := main }

def destroyAction : DestroyPc → Option (Pool.Action PoolFunction Unit)
  | .idle => some .destroyTest
  | .write => some .destroyWrite
  | .broadcast => some .destroyBroadcast
  | .join _ => some .destroyJoin
  | .freeIds => some .destroyFreeIds
  | .drain => some .destroyDrain
  | .returned _ => none

/-- `msr_init(taskNum)`, in the runs that return 0, and then `msr_fini()`: the local `ret`
that is tested before it is set happens to be 0, and `pthread_create` succeeds. -/
def mainStep (taskNum : Nat) (s : Module) (sleeper : Option Nat) : Outcome Module :=
  match s.main with
  | .poolInit =>
    .next { s with
      pools := (aiRequsetPoolInit s.pools apiRequest taskNum).1
      main := .loop 0 }
  | .loop i =>
    if i < taskNum then
      match msrResInfoInit s.rest with
      | (some rest,0) =>
        Module.onPool { s with rest := rest } apiRequest (.addStart .requestProcess ())
          (.addAppend i)
      | _ => .blocked
    else .next { s with main := .createThread }
  | .addAppend i => s.onPool apiRequest (.addAppend i) (.addSignal i)
  | .addSignal i => s.onPool apiRequest (.addSignal i sleeper) (.loop (i+1))
  | .createThread => .next { s with msrThread := some .start, main := .ready }
  | .ready => .next { s with main := .fini }
  | .fini =>
    match s.pools[apiRequest]? with
    | none => .fault
    | some p =>
      match destroyAction p.destroyer with
      | none => .next { s with main := .done }
      | some a => s.onPool apiRequest a .fini
  | .done => .blocked

inductive MsrAction where
  | main (sleeper : Option Nat)
  | worker (p : Nat) (a : Pool.Action PoolFunction Unit)
  | thread (a : RequestAction)
  deriving DecidableEq, Repr

/-- `exit` in a thread ends them all. In this process `fork` does not return 0. -/
def moduleStep (taskNum : Nat) (s : Module) (x : MsrAction) : Outcome Module :=
  if s.msrThread.map Request.pc ≠ some .exited then
    match x with
    | .main sleeper => mainStep taskNum s sleeper
    | .worker p a => if a.isWorker then s.onPool p a s.main else .blocked
    | .thread a =>
      match s.msrThread with
      | none => .blocked
      | some t =>
        if a ≠ .fork 0 then
          (requestProcess s.reqMode s.rest t a).bind fun u =>
            .next { s with rest := u.rest, msrThread := some u.request }
        else .blocked
  else .blocked

def MainPc.threadCreated : MainPc → Bool
  | .ready | .fini | .done => true
  | .poolInit | .loop _ | .addAppend _ | .addSignal _ | .createThread => false

theorem onPool_next {s s' : Module} {p : Nat} {a : Pool.Action PoolFunction Unit} {main : MainPc}
    (h : s.onPool p a main = .next s') :
    ∃ w, worldStep s.pools (p,a) = .next w ∧ s' = { s with pools := w, main := main } := by
  obtain ⟨w,hw,h⟩ := Outcome.bind_eq_next.mp h
  simp only [Outcome.next.injEq] at h
  exact ⟨w,hw,h.symm⟩

theorem mainStep_next {n : Nat} {s s' : Module} {sleeper : Option Nat}
    (h : mainStep n s sleeper = .next s') :
    (∃ a w rest main, worldStep s.pools (apiRequest,a) = .next w ∧ main ≠ .done ∧
      (main.threadCreated = true → s.main.threadCreated = true) ∧
      s' = { s with pools := w, rest := rest, main := main }) ∨
    s' = { s with pools := (aiRequsetPoolInit s.pools apiRequest n).1, main := .loop 0 } ∨
    s' = { s with main := .createThread } ∨
    s' = { s with msrThread := some .start, main := .ready } ∨
    (s.main = .ready ∧ s' = { s with main := .fini }) ∨
    (s.main = .fini ∧ s' = { s with main := .done } ∧
      ∃ pool ret, s.pools[apiRequest]? = some pool ∧ pool.destroyer = .returned ret) := by
  unfold mainStep at h
  split at h
  · simp only [Outcome.next.injEq] at h
    exact .inr (.inl h.symm)
  · split at h
    · split at h
      · obtain ⟨w,hw,rfl⟩ := onPool_next h
        exact .inl ⟨_,w,_,_,hw,by simp,by simp [MainPc.threadCreated],rfl⟩
      · simp at h
    · simp only [Outcome.next.injEq] at h
      exact .inr (.inr (.inl h.symm))
  · obtain ⟨w,hw,rfl⟩ := onPool_next h
    exact .inl ⟨_,w,_,_,hw,by simp,by simp [MainPc.threadCreated],rfl⟩
  · obtain ⟨w,hw,rfl⟩ := onPool_next h
    exact .inl ⟨_,w,_,_,hw,by simp,by simp [MainPc.threadCreated],rfl⟩
  · simp only [Outcome.next.injEq] at h
    exact .inr (.inr (.inr (.inl h.symm)))
  · simp only [Outcome.next.injEq] at h
    exact .inr (.inr (.inr (.inr (.inl ⟨‹_›,h.symm⟩))))
  · rename_i hm
    split at h
    · simp at h
    · rename_i pool hp
      split at h
      · rename_i hr
        simp only [Outcome.next.injEq] at h
        cases hk : pool.destroyer <;> simp only [hk,destroyAction,reduceCtorEq] at hr
        exact .inr (.inr (.inr (.inr (.inr ⟨hm,h.symm,pool,_,hp,hk⟩))))
      · obtain ⟨w,hw,rfl⟩ := onPool_next h
        exact .inl ⟨_,w,_,_,hw,by simp,fun _ => by simp [hm,MainPc.threadCreated],rfl⟩
  · simp at h

theorem moduleStep_next {n : Nat} {s s' : Module} {x : MsrAction}
    (h : moduleStep n s x = .next s') :
    (∀ t, s.msrThread = some t → t.pc ≠ .exited) ∧
    ((∃ sleeper, x = .main sleeper ∧ mainStep n s sleeper = .next s') ∨
    (∃ p a w, x = .worker p a ∧ a.isWorker = true ∧ worldStep s.pools (p,a) = .next w ∧
      s' = { s with pools := w }) ∨
    (∃ a t u, x = .thread a ∧ s.msrThread = some t ∧
      requestProcess s.reqMode s.rest t a = .next u ∧
      s' = { s with rest := u.rest, msrThread := some u.request })) := by
  simp only [moduleStep,guard_eq_next] at h
  obtain ⟨halive,h⟩ := h
  refine ⟨fun t ht he => halive (by simp [ht,he]),?_⟩
  cases x with
  | main sleeper => exact .inl ⟨sleeper,rfl,h⟩
  | worker p a =>
    simp only [guard_eq_next] at h
    obtain ⟨ha,h⟩ := h
    obtain ⟨w,hw,rfl⟩ := onPool_next h
    exact .inr (.inl ⟨p,a,w,rfl,ha,hw,rfl⟩)
  | thread a =>
    dsimp only at h
    split at h
    · simp at h
    · rename_i t ht
      simp only [guard_eq_next,Outcome.bind_eq_next,Outcome.next.injEq] at h
      obtain ⟨-,u,hu,rfl⟩ := h
      exact .inr (.inr ⟨a,t,u,rfl,ht,hu,rfl⟩)

end IntelligentAcoustics.Msr
