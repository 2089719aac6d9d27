import IntelligentAcoustics.CommandLoops
import IntelligentAcoustics.PlayerCommand

/-!
The player while both command loops use it and its processes end by themselves, up to
`auto_fini`. Moves can be lost between the two threads, memory safety and the song list
cannot.
-/

set_option autoImplicit false

namespace IntelligentAcoustics.Music
open Transition BlockHeap LinkedRing ShellTokens

inductive PlayerAction where
  | thread (a : AutoAction)
  | exit (i : Nat)
  deriving DecidableEq, Repr

def playerStep (s : Auto) : PlayerAction → Outcome Auto
  | .thread a => if a ≠ .fini then autoStep s a else .blocked
  | .exit i =>
    if i < s.player.madplay.length then
      .next { s with player := { s.player with madplay := s.player.madplay.eraseIdx i } }
    else .blocked

theorem thread_next {s s' : Auto} {a : AutoAction} (h : playerStep s (.thread a) = .next s') :
    a ≠ .fini ∧ autoStep s a = .next s' := by
  simpa only [playerStep,guard_eq_next] using h

theorem playerExit_next {s s' : Auto} {i : Nat} (h : playerStep s (.exit i) = .next s') :
    i < s.player.madplay.length ∧
      s' = { s with player := { s.player with madplay := s.player.madplay.eraseIdx i } } := by
  simp only [playerStep,guard_eq_next,Outcome.next.injEq] at h
  exact ⟨h.1,h.2.symm⟩

def AplayPc.OnRing (nodes : List Addr) : AplayPc → Prop
  | .follow _ p | .store _ p | .play _ p => ∃ z, p = some (nth nodes z)
  | .switch _ | .setPause | .cont | .clearPause | .load _ | .loadPlay _ => True

structure PlaysSongs (nodes : List Addr) (names : List Bytes) (p : Player) : Prop where
  ring : SongRing p.heap nodes names
  flag : ∃ z, p.musicFlag = some (nth nodes z)
  listed : ∀ m ∈ p.madplay, ∃ dName ∈ names, m.cmd = songCommand dName

section
variable {nodes : List Addr} {names : List Bytes}

theorem PlaysSongs.congr {p p' : Player} (h : PlaysSongs nodes names p) (hh : p'.heap = p.heap)
    (hf : p'.musicFlag = p.musicFlag)
    (hl : ∀ m ∈ p'.madplay, ∃ m' ∈ p.madplay, m.cmd = m'.cmd) : PlaysSongs nodes names p' := by
  refine ⟨hh ▸ h.ring,hf ▸ h.flag,fun m hm => ?_⟩
  obtain ⟨m',hm',he⟩ := hl m hm
  exact he ▸ h.listed m' hm'

theorem PlaysSongs.aplay {p p' : Player} {pc : AplayPc} {o : Option AplayPc}
    (h : PlaysSongs nodes names p) (hp : pc.OnRing nodes) (hs : aplayCmd p pc = .next (p',o)) :
    PlaysSongs nodes names p' ∧ ∀ pc', o = some pc' → pc'.OnRing nodes := by
  cases pc with
  | switch apcmd =>
    obtain ⟨-,rfl,rfl⟩ | ⟨-,rfl,rfl⟩ | ⟨-,rfl,rfl⟩ | ⟨-,rfl,rfl⟩ | ⟨-,rfl,rfl⟩ := switch_next hs
    · exact ⟨h.congr rfl rfl (by simpa [killallStop] using fun m hm => ⟨m,hm,rfl⟩),by simp [AplayPc.OnRing]⟩
    · refine ⟨h,fun pc' hpc => ?_⟩
      simp only [Option.some.injEq] at hpc
      subst hpc
      split <;> trivial
    · exact ⟨h.congr rfl rfl (by simp),by simp [AplayPc.OnRing]⟩
    · exact ⟨h.congr rfl rfl (by simp),by simp⟩
    · exact ⟨h,by simp⟩
  | setPause | clearPause =>
    obtain ⟨rfl,rfl⟩ := Outcome.next_unique rfl hs
    exact ⟨h.congr rfl rfl fun m hm => ⟨m,hm,rfl⟩,by simp [AplayPc.OnRing]⟩
  | cont =>
    obtain ⟨rfl,rfl⟩ := Outcome.next_unique rfl hs
    exact ⟨h.congr rfl rfl (by simpa [killallCont] using fun m hm => ⟨m,hm,rfl⟩),by simp [AplayPc.OnRing]⟩
  | load apcmd | loadPlay apcmd =>
    obtain ⟨rfl,rfl⟩ := Outcome.next_unique rfl hs
    exact ⟨h,by simpa [AplayPc.OnRing] using h.flag⟩
  | follow apcmd q =>
    obtain ⟨z,rfl⟩ := hp
    obtain ⟨rfl,a,m,ha,hm,rfl⟩ := follow_next hs
    obtain rfl := Option.some.inj ha
    refine ⟨h,fun pc' hpc => ?_⟩
    obtain rfl := Option.some.inj hpc
    have hlinks := h.ring.ring.links z
    simp only [links,hm,Option.map_some,Option.some.injEq,Prod.mk.injEq] at hlinks
    simp only [AplayPc.OnRing]
    split
    · exact ⟨_,hlinks.1⟩
    · exact ⟨_,hlinks.2⟩
  | store apcmd q =>
    obtain ⟨rfl,rfl⟩ := Outcome.next_unique rfl hs
    exact ⟨⟨h.ring,hp,h.listed⟩,by simp [AplayPc.OnRing]⟩
  | play apcmd q =>
    obtain ⟨z,rfl⟩ := hp
    obtain ⟨rfl,a,m,madplay,ha,hm,hplay,rfl⟩ := play_next hs
    obtain rfl := Option.some.inj ha
    refine ⟨⟨h.ring,h.flag,fun m' hm' => ?_⟩,by simp⟩
    rw [play_song h.ring hm hplay] at hm'
    rcases List.mem_append.mp hm' with hm' | hm'
    · exact h.listed m' hm'
    · rw [List.mem_singleton.mp hm']
      exact ⟨_,nth_mem h.ring.names_nonempty z,rfl⟩

theorem PlaysSongs.noFault {p : Player} {pc : AplayPc} (h : PlaysSongs nodes names p)
    (hp : pc.OnRing nodes) (hs : ∀ dName ∈ names, Plays dName) : aplayCmd p pc ≠ .fault := by
  cases pc with
  | switch apcmd =>
    simp only [aplayCmd]
    split_ifs <;> simp
  | setPause | cont | clearPause | load apcmd | store apcmd q | loadPlay apcmd => simp [aplayCmd]
  | follow apcmd q =>
    obtain ⟨z,rfl⟩ := hp
    obtain ⟨m,hm,-,-⟩ := h.ring.node z
    simp [aplayCmd,deref,hm]
  | play apcmd q =>
    obtain ⟨z,rfl⟩ := hp
    obtain ⟨m,hm,-,hc⟩ := h.ring.node z
    obtain ⟨madplay,hplay⟩ := Option.ne_none_iff_exists'.mp
      ((play_ne_none (cString_of_cStringIn hc) p.madplay).mpr
        (hs _ (nth_mem h.ring.names_nonempty z)))
    simp [aplayCmd,deref,hm,hplay]

structure Shared (nodes : List Addr) (names : List Bytes) (s : Auto) : Prop where
  player : PlaysSongs nodes names s.player
  calls : ∀ pc ∈ s.calls, pc.OnRing nodes

theorem Shared.step {s s' : Auto} (h : Shared nodes names s) {a : PlayerAction}
    (hs : playerStep s a = .next s') : Shared nodes names s' := by
  have hmain : ∀ pc, s.main = some pc → pc.OnRing nodes := fun pc hpc =>
    h.calls pc (mem_calls_main hpc)
  have hprocess : ∀ pc, s.process = .command pc → pc.OnRing nodes := fun pc hpc =>
    h.calls pc (mem_calls_process hpc)
  cases a with
  | exit i =>
    obtain ⟨-,rfl⟩ := playerExit_next hs
    exact ⟨h.player.congr rfl rfl fun m hm => ⟨m,List.mem_of_mem_eraseIdx hm,rfl⟩,h.calls⟩
  | thread a =>
    obtain ⟨hfini,hs⟩ := thread_next hs
    cases a with
    | mainReceive recvbuf =>
      obtain ⟨-,rfl⟩ := mainReceive_next hs
      refine ⟨h.player,fun pc hpc => ?_⟩
      rcases mem_calls.mp hpc with hm | hp
      · obtain ⟨apcmd,-,rfl⟩ := Option.map_eq_some_iff.mp hm
        trivial
      · exact hprocess pc hp
    | mainStep =>
      obtain ⟨pc,player,o,hpc,hstep,rfl⟩ := mainStep_next hs
      obtain ⟨hplayer,ho⟩ := h.player.aplay (hmain pc hpc) hstep
      refine ⟨hplayer,fun pc' hpc' => ?_⟩
      rcases mem_calls.mp hpc' with hm | hp
      · exact ho pc' hm
      · exact hprocess pc' hp
    | processCreate serverSocket =>
      obtain ⟨-,rfl⟩ := processCreate_next hs
      refine ⟨h.player,fun pc hpc => ?_⟩
      rcases mem_calls.mp hpc with hm | hp
      · exact hmain pc hm
      · simp only at hp
        split at hp <;> simp at hp
    | processTest =>
      obtain ⟨-,rfl⟩ := processTest_next hs
      refine ⟨h.player,fun pc hpc => ?_⟩
      rcases mem_calls.mp hpc with hm | hp
      · exact hmain pc hm
      · simp only at hp
        split at hp <;> simp at hp
    | processReceive recvbuf =>
      obtain ⟨-,rfl⟩ := processReceive_next hs
      refine ⟨h.player,fun pc hpc => ?_⟩
      rcases mem_calls.mp hpc with hm | hp
      · exact hmain pc hm
      · obtain ⟨apcmd,-,rfl⟩ := Option.map_eq_some_iff.mp (AutoProcessPc.after_eq_command.mp hp)
        trivial
    | processStep =>
      obtain ⟨pc,player,o,hpc,hstep,rfl⟩ := processStep_next hs
      obtain ⟨hplayer,ho⟩ := h.player.aplay (hprocess pc hpc) hstep
      refine ⟨hplayer,fun pc' hpc' => ?_⟩
      rcases mem_calls.mp hpc' with hm | hp
      · exact hmain pc' hm
      · exact ho pc' (AutoProcessPc.after_eq_command.mp hp)
    | fini => exact absurd rfl hfini

theorem Shared.noFault {s : Auto} (h : Shared nodes names s)
    (hp : ∀ dName ∈ names, Plays dName) (a : PlayerAction) : playerStep s a ≠ .fault := by
  have hcall : ∀ pc ∈ s.calls, aplayCmd s.player pc ≠ .fault := fun pc hpc =>
    h.player.noFault (h.calls pc hpc) hp
  cases a with
  | exit i =>
    simp only [playerStep]
    split <;> simp
  | thread a =>
    simp only [playerStep]
    split
    · rename_i hfini
      cases a with
      | mainReceive recvbuf => cases hm : s.main <;> simp [autoStep,hm]
      | mainStep =>
        cases hm : s.main with
        | none => simp [autoStep,hm]
        | some pc =>
          simp only [autoStep,hm]
          exact Outcome.bind_ne_fault (hcall pc (mem_calls_main hm)) (by simp)
      | processCreate serverSocket | processTest | processReceive recvbuf =>
        simp only [autoStep]
        split <;> simp
      | processStep =>
        cases hc : s.process with
        | command pc =>
          simp only [autoStep,hc]
          exact Outcome.bind_ne_fault (hcall pc (mem_calls_process hc)) (by simp)
        | create | head | accept | exited => simp [autoStep,hc]
      | fini => exact absurd rfl hfini
    · simp

end

end IntelligentAcoustics.Music
