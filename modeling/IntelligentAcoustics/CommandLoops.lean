import IntelligentAcoustics.MusicPlayer

/-!
The multimedia module as three threads: the main loop and `AutoProcess` call `MusicControl`
while `auto_fini` deletes the song list.
-/

set_option autoImplicit false

namespace IntelligentAcoustics.Music
open Transition BlockHeap

/-- The command in `recvbuf`, if `strlen` finds one byte. -/
def received (recvbuf : Bytes) : Option Int :=
  match cString recvbuf with
  | [p] => some (atoi p)
  | _ => none

inductive AutoProcessPc where
  | create
  | head
  | accept
  | command (pc : AplayPc)
  | exited
  deriving DecidableEq, Repr

inductive AutoFiniPc where
  | idle
  | musicDel
  | delete (p : Option Addr)
  | join
  | returned
  deriving DecidableEq, Repr

structure Auto where
  player : Player
  autoMode : Int
  main : Option AplayPc
  process : AutoProcessPc
  fini : AutoFiniPc
  deriving DecidableEq, Repr

def AutoProcessPc.call : AutoProcessPc → Option AplayPc
  | .command pc => some pc
  | .create | .head | .accept | .exited => none

def Auto.calls (s : Auto) : List AplayPc := s.main.toList ++ s.process.call.toList

def Auto.init (h : Heap MusicInfo) (musicHead : Option Addr) : Auto :=
  ⟨Player.init h musicHead,0,none,.create,.idle⟩

def autoFini (s : Auto) : Outcome Auto :=
  match s.fini with
  | .idle => .next { s with autoMode := 1, fini := .musicDel }
  | .musicDel => (deref s.player s.player.musicHead).bind fun m =>
    .next { s with fini := .delete m.next }
  | .delete p =>
    if p = s.player.musicHead then .next { s with fini := .join }
    else match p.bind (musicListDelNode s.player.heap) with
    | none => .fault
    | some (h,next) => .next { s with player := { s.player with heap := h }, fini := .delete next }
  | .join => if s.process = .exited then .next { s with fini := .returned } else .blocked
  | .returned => .blocked

inductive AutoAction where
  | mainReceive (recvbuf : Bytes)
  | mainStep
  | processCreate (serverSocket : Int)
  | processTest
  /-- `AutoProcess` gets a message, or no client came. -/
  | processReceive (recvbuf : Option Bytes)
  | processStep
  | fini
  deriving DecidableEq, Repr

def autoStep (s : Auto) : AutoAction → Outcome Auto
  | .mainReceive recvbuf =>
    match s.main with
    | some _ => .blocked
    | none => .next { s with main := (received recvbuf).map .switch }
  | .mainStep =>
    match s.main with
    | none => .blocked
    | some pc => (aplayCmd s.player pc).bind fun r => .next { s with player := r.1, main := r.2 }
  | .processCreate serverSocket =>
    if s.process = .create then
      .next { s with process := if serverSocket < 0 then .exited else .head }
    else .blocked
  | .processTest =>
    if s.process = .head then
      .next { s with process := if s.autoMode = 0 then .accept else .exited }
    else .blocked
  | .processReceive recvbuf =>
    if s.process = .accept then
      .next { s with process := match recvbuf.bind received with
        | some apcmd => .command (.switch apcmd)
        | none => .head }
    else .blocked
  | .processStep =>
    match s.process with
    | .command pc => (aplayCmd s.player pc).bind fun r =>
      .next { s with player := r.1, process := match r.2 with
        | some pc => .command pc
        | none => .head }
    | _ => .blocked
  | .fini => autoFini s

theorem mem_calls_main {s : Auto} {pc : AplayPc} (h : s.main = some pc) : pc ∈ s.calls := by
  simp [Auto.calls,h]

theorem mem_calls_process {s : Auto} {pc : AplayPc} (h : s.process = .command pc) : pc ∈ s.calls := by
  simp [Auto.calls,h,AutoProcessPc.call]

theorem mem_calls {s : Auto} {pc : AplayPc} :
    pc ∈ s.calls ↔ s.main = some pc ∨ s.process = .command pc := by
  cases hm : s.main <;> cases hp : s.process <;>
    simp [Auto.calls,hm,hp,AutoProcessPc.call,eq_comm]

section
variable {s s' : Auto}

theorem mainReceive_next {recvbuf : Bytes} (h : autoStep s (.mainReceive recvbuf) = .next s') :
    s.main = none ∧ s' = { s with main := (received recvbuf).map .switch } := by
  simp only [autoStep] at h
  split at h
  · simp at h
  · simp only [Outcome.next.injEq] at h
    exact ⟨‹_›,h.symm⟩

theorem mainStep_next (h : autoStep s .mainStep = .next s') :
    ∃ pc player o, s.main = some pc ∧ aplayCmd s.player pc = .next (player,o) ∧
      s' = { s with player := player, main := o } := by
  simp only [autoStep] at h
  split at h
  · simp at h
  · rename_i pc hpc
    obtain ⟨⟨player,o⟩,hr,h⟩ := Outcome.bind_eq_next.mp h
    simp only [Outcome.next.injEq] at h
    exact ⟨pc,player,o,hpc,hr,h.symm⟩

theorem processCreate_next {serverSocket : Int}
    (h : autoStep s (.processCreate serverSocket) = .next s') : s.process = .create ∧
      s' = { s with process := if serverSocket < 0 then .exited else .head } := by
  simp only [autoStep,guard_eq_next,Outcome.next.injEq] at h
  exact ⟨h.1,h.2.symm⟩

theorem processTest_next (h : autoStep s .processTest = .next s') : s.process = .head ∧
      s' = { s with process := if s.autoMode = 0 then .accept else .exited } := by
  simp only [autoStep,guard_eq_next,Outcome.next.injEq] at h
  exact ⟨h.1,h.2.symm⟩

def AutoProcessPc.after : Option AplayPc → AutoProcessPc
  | some pc => .command pc
  | none => .head

@[simp] theorem AutoProcessPc.call_after (o : Option AplayPc) :
    (AutoProcessPc.after o).call = o := by
  cases o <;> rfl

theorem AutoProcessPc.after_eq_command {o : Option AplayPc} {pc : AplayPc} :
    AutoProcessPc.after o = .command pc ↔ o = some pc := by
  cases o <;> simp [AutoProcessPc.after]

theorem processReceive_next {recvbuf : Option Bytes}
    (h : autoStep s (.processReceive recvbuf) = .next s') : s.process = .accept ∧
      s' = { s with process := .after ((recvbuf.bind received).map .switch) } := by
  simp only [autoStep,guard_eq_next,Outcome.next.injEq] at h
  refine ⟨h.1,?_⟩
  cases hr : recvbuf.bind received <;> simp [← h.2,hr,AutoProcessPc.after]

theorem processStep_next (h : autoStep s .processStep = .next s') :
    ∃ pc player o, s.process = .command pc ∧ aplayCmd s.player pc = .next (player,o) ∧
      s' = { s with player := player, process := .after o } := by
  simp only [autoStep] at h
  split at h
  · rename_i pc hpc
    obtain ⟨⟨player,o⟩,hr,h⟩ := Outcome.bind_eq_next.mp h
    simp only [Outcome.next.injEq] at h
    refine ⟨pc,player,o,hpc,hr,?_⟩
    cases o <;> simp [← h,AutoProcessPc.after]
  · simp at h

end

theorem autoFini_next {s s' : Auto} (h : autoFini s = .next s') :
    (s.fini = .idle ∧ s' = { s with autoMode := 1, fini := .musicDel }) ∨
    (s.fini = .musicDel ∧ ∃ a m, s.player.musicHead = some a ∧ s.player.heap.read a = some m ∧
      s' = { s with fini := .delete m.next }) ∨
    (s.fini = .delete s.player.musicHead ∧ s' = { s with fini := .join }) ∨
    (∃ p heap next, s.fini = .delete (some p) ∧ some p ≠ s.player.musicHead ∧
      musicListDelNode s.player.heap p = some (heap,next) ∧
      s' = { s with player := { s.player with heap := heap }, fini := .delete next }) ∨
    (s.fini = .join ∧ s.process = .exited ∧ s' = { s with fini := .returned }) := by
  unfold autoFini at h
  split at h
  · rename_i hf
    simp only [Outcome.next.injEq] at h
    exact .inl ⟨hf,h.symm⟩
  · rename_i hf
    obtain ⟨m,hm,h⟩ := Outcome.bind_eq_next.mp h
    obtain ⟨a,ha,hr⟩ := deref_next hm
    simp only [Outcome.next.injEq] at h
    exact .inr (.inl ⟨hf,a,m,ha,hr,h.symm⟩)
  · rename_i p hf
    split at h
    · rename_i hp
      simp only [Outcome.next.injEq] at h
      exact .inr (.inr (.inl ⟨hp ▸ hf,h.symm⟩))
    · rename_i hp
      split at h
      · simp at h
      · rename_i heap next hd
        obtain ⟨a,rfl,hd⟩ := Option.bind_eq_some_iff.mp hd
        simp only [Outcome.next.injEq] at h
        exact .inr (.inr (.inr (.inl ⟨a,heap,next,hf,hp,hd,h.symm⟩)))
  · rename_i hf
    obtain ⟨hx,h⟩ := guard_eq_next.mp h
    simp only [Outcome.next.injEq] at h
    exact .inr (.inr (.inr (.inr ⟨hf,hx,h.symm⟩)))
  · simp at h

end IntelligentAcoustics.Music
