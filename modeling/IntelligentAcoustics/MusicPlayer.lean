import IntelligentAcoustics.Library.Transition
import IntelligentAcoustics.MusicList

/-!
`aplay_cmd` of `auto/auto.c`, cut at its accesses to the variables that the threads share:
reading `music_flag`, following it, storing it back and starting the player are four steps.
-/

set_option autoImplicit false

namespace IntelligentAcoustics.Music
open Transition BlockHeap

def musicPause : Int := 0
def musicPlay : Int := 1
def musicNext : Int := 2
def musicPrev : Int := 3
def musicStop : Int := 4

structure Madplay where
  cmd : Bytes
  stopped : Bool
  deriving DecidableEq, Repr

structure Player where
  heap : Heap MusicInfo
  musicHead : Option Addr
  musicFlag : Option Addr
  musicPauseFlag : Int
  madplay : List Madplay
  deriving DecidableEq, Repr

/-- The command does not fit `cmd[100]`: overflow. -/
def play (path : Bytes) (madplay : List Madplay) : Option (List Madplay) :=
  let cmd := ascii "madplay -q  " ++ cString path ++ ascii " < /dev/null &"
  if cmd.length < 100 then some (madplay ++ [⟨cmd,false⟩]) else none

def killallStop (madplay : List Madplay) : List Madplay :=
  madplay.map fun m => { m with stopped := true }

def killallCont (madplay : List Madplay) : List Madplay :=
  madplay.map fun m => { m with stopped := false }

/-- Where a call of `aplay_cmd(apcmd)` stands, with the pointer it has loaded. -/
inductive AplayPc where
  | switch (apcmd : Int)
  | setPause
  | cont
  | clearPause
  | load (apcmd : Int)
  | follow (apcmd : Int) (p : Option Addr)
  | store (apcmd : Int) (p : Option Addr)
  | loadPlay (apcmd : Int)
  | play (apcmd : Int) (p : Option Addr)
  deriving DecidableEq, Repr

def deref (s : Player) (p : Option Addr) : Outcome MusicInfo :=
  match p.bind s.heap.read with
  | none => .fault
  | some m => .next m

/-- The call has returned when no pc is left. `Sleep(5)` before that touches no variable and is
no step: a process that ends during it ends after the command here. -/
def aplayCmd (s : Player) : AplayPc → Outcome (Player × Option AplayPc)
  | .switch apcmd =>
    if apcmd = musicPause then
      .next ({ s with madplay := killallStop s.madplay },some .setPause)
    else if apcmd = musicPlay then
      .next (s,some (if s.musicPauseFlag ≠ 0 then .cont else .loadPlay apcmd))
    else if apcmd = musicNext ∨ apcmd = musicPrev then
      .next ({ s with madplay := [] },some (.load apcmd))
    else if apcmd = musicStop then .next ({ s with madplay := [] },none)
    else .next (s,none)
  | .setPause => .next ({ s with musicPauseFlag := 1 },none)
  | .cont => .next ({ s with madplay := killallCont s.madplay },some .clearPause)
  | .clearPause => .next ({ s with musicPauseFlag := 0 },some (.loadPlay musicPlay))
  | .load apcmd => .next (s,some (.follow apcmd s.musicFlag))
  | .follow apcmd p => (deref s p).bind fun m =>
    .next (s,some (.store apcmd (if apcmd = musicNext then m.next else m.prev)))
  | .store apcmd p => .next ({ s with musicFlag := p },some (.loadPlay apcmd))
  | .loadPlay apcmd => .next (s,some (.play apcmd s.musicFlag))
  | .play _ p => (deref s p).bind fun m =>
    match Music.play m.musicPath s.madplay with
    | none => .fault
    | some madplay => .next ({ s with madplay := madplay },none)

theorem deref_next {s : Player} {p : Option Addr} {m : MusicInfo} (h : deref s p = .next m) :
    ∃ a, p = some a ∧ s.heap.read a = some m := by
  unfold deref at h
  split at h
  · simp at h
  · rename_i m' hr
    obtain ⟨a,rfl,ha⟩ := Option.bind_eq_some_iff.mp hr
    simp only [Outcome.next.injEq] at h
    exact ⟨a,rfl,h ▸ ha⟩

theorem play_length {path : Bytes} {madplay madplay' : List Madplay}
    (h : Music.play path madplay = some madplay') : madplay'.length = madplay.length+1 := by
  unfold Music.play at h
  simp only [Option.ite_none_right_eq_some,Option.some.injEq] at h
  simp [← h.2]

theorem switch_next {s s' : Player} {apcmd : Int} {o : Option AplayPc}
    (h : aplayCmd s (.switch apcmd) = .next (s',o)) :
    (apcmd = musicPause ∧ s' = { s with madplay := killallStop s.madplay } ∧
      o = some .setPause) ∨
    (apcmd = musicPlay ∧ s' = s ∧
      o = some (if s.musicPauseFlag ≠ 0 then .cont else .loadPlay musicPlay)) ∨
    ((apcmd = musicNext ∨ apcmd = musicPrev) ∧ s' = { s with madplay := [] } ∧
      o = some (.load apcmd)) ∨
    (apcmd = musicStop ∧ s' = { s with madplay := [] } ∧ o = none) ∨
    ((apcmd < musicPause ∨ musicStop < apcmd) ∧ s' = s ∧ o = none) := by
  simp only [aplayCmd] at h
  split at h
  · simp only [Outcome.next.injEq,Prod.mk.injEq] at h
    exact .inl ⟨‹_›,h.1.symm,h.2.symm⟩
  · split at h
    · rename_i hc
      simp only [Outcome.next.injEq,Prod.mk.injEq] at h
      exact .inr (.inl ⟨hc,h.1.symm,hc ▸ h.2.symm⟩)
    · split at h
      · simp only [Outcome.next.injEq,Prod.mk.injEq] at h
        exact .inr (.inr (.inl ⟨‹_›,h.1.symm,h.2.symm⟩))
      · split at h
        · simp only [Outcome.next.injEq,Prod.mk.injEq] at h
          exact .inr (.inr (.inr (.inl ⟨‹_›,h.1.symm,h.2.symm⟩)))
        · simp only [Outcome.next.injEq,Prod.mk.injEq] at h
          refine .inr (.inr (.inr (.inr ⟨?_,h.1.symm,h.2.symm⟩)))
          simp only [musicPause,musicPlay,musicNext,musicPrev,musicStop] at *
          omega

theorem play_next {s s' : Player} {apcmd : Int} {p : Option Addr} {o : Option AplayPc}
    (h : aplayCmd s (.play apcmd p) = .next (s',o)) :
    o = none ∧ ∃ a m madplay, p = some a ∧ s.heap.read a = some m ∧
      Music.play m.musicPath s.madplay = some madplay ∧ s' = { s with madplay := madplay } := by
  simp only [aplayCmd,Outcome.bind_eq_next] at h
  obtain ⟨m,hm,h⟩ := h
  obtain ⟨a,rfl,ha⟩ := deref_next hm
  split at h
  · simp at h
  · rename_i madplay hp
    simp only [Outcome.next.injEq,Prod.mk.injEq] at h
    exact ⟨h.2.symm,a,m,madplay,rfl,ha,hp,h.1.symm⟩

theorem follow_next {s s' : Player} {apcmd : Int} {p : Option Addr} {o : Option AplayPc}
    (h : aplayCmd s (.follow apcmd p) = .next (s',o)) :
    s' = s ∧ ∃ a m, p = some a ∧ s.heap.read a = some m ∧
      o = some (.store apcmd (if apcmd = musicNext then m.next else m.prev)) := by
  simp only [aplayCmd,Outcome.bind_eq_next] at h
  obtain ⟨m,hm,h⟩ := h
  obtain ⟨a,rfl,ha⟩ := deref_next hm
  simp only [Outcome.next.injEq,Prod.mk.injEq] at h
  exact ⟨h.1.symm,a,m,rfl,ha,h.2.symm⟩

theorem aplayCmd_frame {s s' : Player} {pc : AplayPc} {o : Option AplayPc}
    (h : aplayCmd s pc = .next (s',o)) : s'.heap = s.heap ∧ s'.musicHead = s.musicHead := by
  cases pc with
  | switch apcmd =>
    obtain ⟨-,rfl,-⟩ | ⟨-,rfl,-⟩ | ⟨-,rfl,-⟩ | ⟨-,rfl,-⟩ | ⟨-,rfl,-⟩ := switch_next h <;>
      exact ⟨rfl,rfl⟩
  | setPause | cont | clearPause | load apcmd | store apcmd p | loadPlay apcmd =>
    simp only [aplayCmd,Outcome.next.injEq,Prod.mk.injEq] at h
    exact h.1 ▸ ⟨rfl,rfl⟩
  | follow apcmd p =>
    obtain ⟨rfl,-⟩ := follow_next h
    exact ⟨rfl,rfl⟩
  | play apcmd p =>
    obtain ⟨-,_,_,_,-,-,-,rfl⟩ := play_next h
    exact ⟨rfl,rfl⟩

theorem deref_ne_blocked (s : Player) (p : Option Addr) : deref s p ≠ .blocked := by
  unfold deref
  split <;> simp

theorem aplayCmd_ne_blocked (s : Player) (pc : AplayPc) : aplayCmd s pc ≠ .blocked := by
  cases pc with
  | switch apcmd =>
    simp only [aplayCmd]
    split_ifs <;> simp
  | setPause | cont | clearPause | load apcmd | store apcmd p | loadPlay apcmd => simp [aplayCmd]
  | follow apcmd p => exact Outcome.bind_ne_blocked (deref_ne_blocked s p) (by simp)
  | play apcmd p =>
    refine Outcome.bind_ne_blocked (deref_ne_blocked s p) fun m => ?_
    split <;> simp

structure Control where
  player : Player
  aplay : Option AplayPc
  deriving DecidableEq, Repr

inductive Action where
  | command (apcmd : Int)
  | step
  | exit (i : Nat)
  deriving DecidableEq, Repr

def controlStep (s : Control) : Action → Outcome Control
  | .command apcmd =>
    match s.aplay with
    | some _ => .blocked
    | none => .next { s with aplay := some (.switch apcmd) }
  | .step =>
    match s.aplay with
    | none => .blocked
    | some pc => (aplayCmd s.player pc).bind fun r => .next ⟨r.1,r.2⟩
  | .exit i =>
    if i < s.player.madplay.length then
      .next { s with player := { s.player with madplay := s.player.madplay.eraseIdx i } }
    else .blocked

def Player.init (h : Heap MusicInfo) (musicHead : Option Addr) : Player :=
  ⟨h,musicHead,musicHead,0,[]⟩

theorem command_next {s s' : Control} {apcmd : Int}
    (h : controlStep s (.command apcmd) = .next s') :
    s.aplay = none ∧ s' = { s with aplay := some (.switch apcmd) } := by
  simp only [controlStep] at h
  split at h
  · simp at h
  · simp only [Outcome.next.injEq] at h
    exact ⟨‹_›,h.symm⟩

theorem step_next {s s' : Control} (h : controlStep s .step = .next s') :
    ∃ pc, s.aplay = some pc ∧ aplayCmd s.player pc = .next (s'.player,s'.aplay) := by
  simp only [controlStep] at h
  split at h
  · simp at h
  · rename_i pc hpc
    obtain ⟨r,hr,h⟩ := Outcome.bind_eq_next.mp h
    simp only [Outcome.next.injEq] at h
    exact ⟨pc,hpc,by rw [hr,← h]⟩

theorem exit_next {s s' : Control} {i : Nat} (h : controlStep s (.exit i) = .next s') :
    i < s.player.madplay.length ∧
      s' = { s with player := { s.player with madplay := s.player.madplay.eraseIdx i } } := by
  simp only [controlStep] at h
  split at h
  · simp only [Outcome.next.injEq] at h
    exact ⟨‹_›,h.symm⟩
  · simp at h

end IntelligentAcoustics.Music
