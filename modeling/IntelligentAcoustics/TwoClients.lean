import IntelligentAcoustics.CommandLoops
import IntelligentAcoustics.SongCursor

/-!
The main loop and `AutoProcess` both move `music_flag`. Reading it, storing it back and
reading it again for `play` are separate steps, and nothing keeps the other thread out.
-/

set_option autoImplicit false

namespace IntelligentAcoustics.Music
open Transition BlockHeap LinkedRing

/-- The two clients with what they have asked for: the `MUSIC_NEXT` less the `MUSIC_PREV`
commands received, and the pointer that each thread stored last. -/
structure Watched where
  auto : Auto
  net : Int
  mainMoved : Option Addr
  processMoved : Option Addr
  deriving DecidableEq, Repr

def Watched.init (h : Heap MusicInfo) (musicHead : Addr) : Watched :=
  ⟨Auto.init h (some musicHead),0,none,none⟩

def asked (command : Option Int) : Int := (command.map shift).getD 0

def AplayPc.moved (moved : Option Addr) : AplayPc → Option Addr
  | .store _ p => p
  | .switch _ | .setPause | .cont | .clearPause | .load _ | .follow _ _ | .loadPlay _ |
    .play _ _ => moved

def watchStep (w : Watched) (a : AutoAction) : Outcome Watched :=
  match a with
  | .mainReceive recvbuf => (autoStep w.auto a).bind fun t =>
    .next { w with auto := t, net := w.net + asked (received recvbuf) }
  | .mainStep => (autoStep w.auto a).bind fun t =>
    .next { w with auto := t, mainMoved := (w.auto.main.map (·.moved w.mainMoved)).getD none }
  | .processReceive recvbuf => (autoStep w.auto a).bind fun t =>
    .next { w with auto := t, net := w.net + asked (recvbuf.bind received) }
  | .processStep => (autoStep w.auto a).bind fun t =>
    .next { w with auto := t,
                   processMoved := (w.auto.process.call.map (·.moved w.processMoved)).getD none }
  | .processCreate _ | .processTest => (autoStep w.auto a).bind fun t =>
    .next { w with auto := t }
  | .fini => .blocked

def Moves (apcmd : Int) : Prop := apcmd = musicNext ∨ apcmd = musicPrev

instance (apcmd : Int) : Decidable (Moves apcmd) := inferInstanceAs (Decidable (_ ∨ _))

/-- A move plays the song that its own store made the current one. -/
def PlaysOwn (moved : Option Addr) : Option AplayPc → Prop
  | some (.play apcmd p) => Moves apcmd → p = moved
  | _ => True

structure NoUpdateLost (nodes : List Addr) (w : Watched) : Prop where
  cursor : w.auto.main = none → w.auto.process.call = none →
    w.auto.player.musicFlag = some (nth nodes w.net)
  main : PlaysOwn w.mainMoved w.auto.main
  process : PlaysOwn w.processMoved w.auto.process.call

def Moving : Option AplayPc → Prop
  | some (.follow apcmd _) | some (.store apcmd _) | some (.loadPlay apcmd) => Moves apcmd
  | _ => False

instance (o : Option AplayPc) : Decidable (Moving o) := by
  unfold Moving
  split <;> infer_instance

def Changes (musicFlag : Option Addr) : Option AplayPc → Prop
  | some (.store _ p) => p ≠ musicFlag
  | _ => False

instance (musicFlag : Option Addr) (o : Option AplayPc) : Decidable (Changes musicFlag o) := by
  unfold Changes
  split <;> infer_instance

def MovesAlone (w : Watched) : AutoAction → Prop
  | .mainStep => Changes w.auto.player.musicFlag w.auto.main → ¬ Moving w.auto.process.call
  | .processStep => Changes w.auto.player.musicFlag w.auto.process.call → ¬ Moving w.auto.main
  | _ => True

instance (w : Watched) (a : AutoAction) : Decidable (MovesAlone w a) := by
  unfold MovesAlone
  split <;> infer_instance

def neighbour (v : Links) (apcmd : Int) (p : Option Addr) : Option Addr :=
  p.bind (if apcmd = musicNext then next v else prev v)

/-- What a call knows about `music_flag` while the other thread leaves it alone. -/
def Knows (v : Links) (musicFlag moved : Option Addr) : Option AplayPc → Prop
  | some (.load apcmd) => Moves apcmd
  | some (.follow apcmd p) => Moves apcmd ∧ p = musicFlag
  | some (.store apcmd p) => Moves apcmd ∧ p = neighbour v apcmd musicFlag
  | some (.loadPlay apcmd) => Moves apcmd → moved = musicFlag
  | some (.play apcmd p) => Moves apcmd → p = moved
  | some (.switch _) | some .setPause | some .cont | some .clearPause | none => True

def pending : Option AplayPc → Int
  | some (.switch apcmd) | some (.load apcmd) | some (.follow apcmd _) | some (.store apcmd _) =>
    shift apcmd
  | some (.loadPlay _) | some (.play _ _) | some .setPause | some .cont | some .clearPause |
    none => 0

theorem not_moves_musicPlay : ¬ Moves musicPlay := by decide

theorem neighbour_nth {v : Links} {nodes : List Addr} (hr : Ring v nodes) {apcmd : Int}
    (hm : Moves apcmd) (z : Int) :
    neighbour v apcmd (some (nth nodes z)) = some (nth nodes (z + shift apcmd)) := by
  rcases hm with rfl | rfl
  · simp [neighbour,shift,hr.next_nth]
  · simp [neighbour,shift,musicNext,musicPrev,hr.prev_nth,Int.sub_eq_add_neg]

theorem neighbour_read {h : Heap MusicInfo} {a : Addr} {m : MusicInfo} (hm : h.read a = some m)
    (apcmd : Int) :
    neighbour (links h) apcmd (some a) = if apcmd = musicNext then m.next else m.prev := by
  unfold neighbour
  split <;> simp [next,prev,links,hm]

theorem Knows.other {v : Links} {musicFlag musicFlag' moved : Option Addr} {o : Option AplayPc}
    (hk : Knows v musicFlag moved o) (hf : musicFlag' = musicFlag ∨ ¬ Moving o) :
    Knows v musicFlag' moved o := by
  rcases hf with rfl | hn
  · exact hk
  · cases o with
    | none => trivial
    | some pc =>
      cases pc with
      | switch apcmd | setPause | cont | clearPause => trivial
      | load apcmd | play apcmd p => exact hk
      | follow apcmd p | store apcmd p => exact absurd hk.1 hn
      | loadPlay apcmd => exact fun hm => absurd hm hn

section
variable {s s' : Player} {nodes : List Addr} {z : Int} {moved : Option Addr} {pc : AplayPc}
  {o : Option AplayPc}

theorem Knows.step (hr : Ring (links s.heap) nodes)
    (hf : s.musicFlag = some (nth nodes (z - pending (some pc))))
    (hk : Knows (links s.heap) s.musicFlag moved (some pc)) (hs : aplayCmd s pc = .next (s',o)) :
    s'.musicFlag = some (nth nodes (z - pending o)) ∧
      Knows (links s.heap) s'.musicFlag (pc.moved moved) o ∧
      (s'.musicFlag = s.musicFlag ∨ Changes s.musicFlag (some pc)) := by
  cases pc with
  | switch apcmd =>
    simp only [pending] at hf
    obtain ⟨rfl,rfl,rfl⟩ | ⟨rfl,rfl,rfl⟩ | ⟨hm,rfl,rfl⟩ | ⟨rfl,rfl,rfl⟩ | ⟨ho,rfl,rfl⟩ :=
      switch_next hs
    · rw [shift_eq_zero (by decide) (by decide)] at hf
      exact ⟨hf,trivial,.inl rfl⟩
    · rw [shift_eq_zero (by decide) (by decide)] at hf
      refine ⟨?_,?_,.inl rfl⟩
      · split <;> exact hf
      · split
        · trivial
        · exact fun hm => absurd hm not_moves_musicPlay
    · exact ⟨hf,hm,.inl rfl⟩
    · rw [shift_eq_zero (by decide) (by decide)] at hf
      exact ⟨hf,trivial,.inl rfl⟩
    · rw [shift_outside ho] at hf
      exact ⟨hf,trivial,.inl rfl⟩
  | setPause | cont | clearPause =>
    obtain ⟨rfl,rfl⟩ := Outcome.next_unique rfl hs
    exact ⟨hf,by simp [Knows,not_moves_musicPlay],.inl rfl⟩
  | load apcmd =>
    obtain ⟨rfl,rfl⟩ := Outcome.next_unique rfl hs
    exact ⟨hf,⟨hk,rfl⟩,.inl rfl⟩
  | follow apcmd p =>
    obtain ⟨hm,rfl⟩ := hk
    obtain ⟨rfl,a,m,ha,hread,rfl⟩ := follow_next hs
    exact ⟨hf,⟨hm,by rw [ha,neighbour_read hread]⟩,.inl rfl⟩
  | store apcmd p =>
    obtain ⟨hm,rfl⟩ := hk
    obtain ⟨rfl,rfl⟩ := Outcome.next_unique rfl hs
    refine ⟨?_,fun _ => rfl,?_⟩
    · show neighbour (links s.heap) apcmd s.musicFlag = some (nth nodes (z - 0))
      rw [hf,neighbour_nth hr hm]
      simp [pending]
    · exact Decidable.or_iff_not_imp_left.mpr fun hne => hne
  | loadPlay apcmd =>
    obtain ⟨rfl,rfl⟩ := Outcome.next_unique rfl hs
    exact ⟨hf,fun hm => (hk hm).symm,.inl rfl⟩
  | play apcmd p =>
    obtain ⟨rfl,_,_,_,-,-,-,rfl⟩ := play_next hs
    exact ⟨hf,trivial,.inl rfl⟩

end

/-- Both calls know what they have read, and `music_flag` lags behind the moves asked for by
those that are still to be made. -/
structure Orderly (h : Heap MusicInfo) (nodes : List Addr) (w : Watched) : Prop where
  heap : w.auto.player.heap = h
  flag : w.auto.player.musicFlag =
    some (nth nodes (w.net - pending w.auto.process.call - pending w.auto.main))
  main : Knows (links h) w.auto.player.musicFlag w.mainMoved w.auto.main
  process : Knows (links h) w.auto.player.musicFlag w.processMoved w.auto.process.call

section
variable {h : Heap MusicInfo} {nodes : List Addr} {w w' : Watched}

theorem pending_none : pending none = 0 := rfl

theorem pending_switch (command : Option Int) :
    pending (command.map AplayPc.switch) = asked command := by
  cases command <;> rfl

theorem knows_switch (v : Links) (musicFlag moved : Option Addr) (command : Option Int) :
    Knows v musicFlag moved (command.map AplayPc.switch) := by
  cases command <;> trivial

theorem Orderly.idle (hw : Orderly h nodes w) {process : AutoProcessPc}
    (hp : w.auto.process.call = none) (hc : process.call = none) :
    Orderly h nodes { w with auto := { w.auto with process := process } } := by
  have hf := hw.flag
  rw [hp] at hf
  exact ⟨hw.heap,by simpa [hc] using hf,hw.main,by simp [hc,Knows]⟩

theorem Orderly.mainStep (hr : Ring (links h) nodes) (hw : Orderly h nodes w)
    (hg : MovesAlone w .mainStep) (hs : watchStep w .mainStep = .next w') :
    Orderly h nodes w' := by
  obtain ⟨t,ht,rfl⟩ := Outcome.map_eq_next.mp hs
  obtain ⟨pc,player,o,hpc,hstep,rfl⟩ := mainStep_next ht
  obtain ⟨rfl,hf,hm,hp⟩ := hw
  have hheap := (aplayCmd_frame hstep).1
  rw [hpc] at hf hm
  obtain ⟨hf',hm',hch⟩ := Knows.step hr hf hm hstep
  refine ⟨hheap,hf',by simpa [hpc] using hm',hp.other ?_⟩
  refine hch.imp_right fun hc => hg ?_
  rw [hpc]
  exact hc

theorem Orderly.processStep (hr : Ring (links h) nodes) (hw : Orderly h nodes w)
    (hg : MovesAlone w .processStep) (hs : watchStep w .processStep = .next w') :
    Orderly h nodes w' := by
  obtain ⟨t,ht,rfl⟩ := Outcome.map_eq_next.mp hs
  obtain ⟨pc,player,o,hpc,hstep,rfl⟩ := processStep_next ht
  obtain ⟨rfl,hf,hm,hp⟩ := hw
  have hheap := (aplayCmd_frame hstep).1
  have hcall : w.auto.process.call = some pc := by rw [hpc]; rfl
  rw [hcall] at hf hp
  rw [sub_right_comm] at hf
  obtain ⟨hf',hp',hch⟩ := Knows.step hr hf hp hstep
  refine ⟨hheap,?_,hm.other ?_,by simpa [hcall] using hp'⟩
  · rw [hf',sub_right_comm,AutoProcessPc.call_after]
  · refine hch.imp_right fun hc => hg ?_
    rw [hcall]
    exact hc

theorem Orderly.step (hr : Ring (links h) nodes) (hw : Orderly h nodes w) {a : AutoAction}
    (hg : MovesAlone w a) (hs : watchStep w a = .next w') : Orderly h nodes w' := by
  cases a with
  | mainReceive recvbuf =>
    obtain ⟨t,ht,rfl⟩ := Outcome.map_eq_next.mp hs
    obtain ⟨hi,rfl⟩ := mainReceive_next ht
    have hf := hw.flag
    rw [hi,pending_none,Int.sub_zero] at hf
    refine ⟨hw.heap,?_,knows_switch _ _ _ _,hw.process⟩
    simp only [pending_switch,hf]
    rw [sub_right_comm,Int.add_sub_cancel]
  | mainStep => exact hw.mainStep hr hg hs
  | processCreate serverSocket =>
    obtain ⟨t,ht,rfl⟩ := Outcome.map_eq_next.mp hs
    obtain ⟨hi,rfl⟩ := processCreate_next ht
    exact hw.idle (by rw [hi]; rfl) (by split <;> rfl)
  | processTest =>
    obtain ⟨t,ht,rfl⟩ := Outcome.map_eq_next.mp hs
    obtain ⟨hi,rfl⟩ := processTest_next ht
    exact hw.idle (by rw [hi]; rfl) (by split <;> rfl)
  | processReceive recvbuf =>
    obtain ⟨t,ht,rfl⟩ := Outcome.map_eq_next.mp hs
    obtain ⟨hi,rfl⟩ := processReceive_next ht
    have hf := hw.flag
    rw [hi,AutoProcessPc.call,pending_none,Int.sub_zero] at hf
    refine ⟨hw.heap,?_,hw.main,?_⟩
    · simp only [AutoProcessPc.call_after,pending_switch,hf]
      rw [Int.add_sub_cancel]
    · simp only [AutoProcessPc.call_after]
      exact knows_switch _ _ _ _
  | processStep => exact hw.processStep hr hg hs
  | fini => simp [watchStep] at hs

theorem Knows.playsOwn {v : Links} {musicFlag moved : Option Addr} {o : Option AplayPc}
    (hk : Knows v musicFlag moved o) : PlaysOwn moved o := by
  cases o with
  | none => trivial
  | some pc => cases pc <;> trivial

theorem Orderly.noUpdateLost (hw : Orderly h nodes w) : NoUpdateLost nodes w := by
  refine ⟨fun hm hp => ?_,hw.main.playsOwn,hw.process.playsOwn⟩
  have hf := hw.flag
  simpa [hm,hp,pending] using hf

/-- On every ring of songs and over every schedule of the two threads in which no thread
changes `music_flag` in the middle of a move of the other: no move is lost, and each one
plays the song it went to. -/
theorem two_clients_lose_nothing (hr : Ring (links h) nodes) {as : List AutoAction}
    (hg : Along watchStep MovesAlone (Watched.init h (nth nodes 0)) as) :
    Always watchStep (NoUpdateLost nodes) (Watched.init h (nth nodes 0)) as :=
  always_of_along (I := Orderly h nodes) (fun _ _ _ hi hg hs => hi.step hr hg hs)
    (fun _ hi => hi.noUpdateLost) ⟨rfl,rfl,trivial,trivial⟩ hg

end

def nextThenNext : List AutoAction :=
  [.processCreate 3,.processTest,
   .mainReceive (ascii "2"),.mainStep,.mainStep,.mainStep,.mainStep,.mainStep,.mainStep,
   .processReceive (some (ascii "2")),.processStep,.processStep,.processStep,.processStep,
   .processStep,.processStep]

theorem two_clients_lose_nothing_nextThenNext :
    musicInit (List.replicate 100 0) twoSongs = some (twoRing,some 0) ∧
      (∃ w, run watchStep (Watched.init twoRing 0) nextThenNext = .next w ∧ w.net = 2 ∧
        w.auto.player.musicFlag = some 0) ∧
      Always watchStep (NoUpdateLost [0,1]) (Watched.init twoRing 0) nextThenNext :=
  ⟨rfl,⟨_,rfl,rfl,rfl⟩,two_clients_lose_nothing twoRing_ring (by decide)⟩

def nextWhileNext : List AutoAction :=
  [.processCreate 3,.processTest,.mainReceive (ascii "2"),.processReceive (some (ascii "2")),
   .mainStep,.mainStep,.mainStep,.processStep,.processStep,.processStep,
   .mainStep,.mainStep,.mainStep,.processStep,.processStep,.processStep]

theorem next_lost : ∃ w,
    musicInit (List.replicate 100 0) twoSongs = some (twoRing,some 0) ∧
      Ring (links twoRing) [0,1] ∧
      run watchStep (Watched.init twoRing 0) nextWhileNext = .next w ∧
      w.auto.main = none ∧ w.auto.process.call = none ∧ w.net = 2 ∧
      w.auto.player.musicFlag = some 1 ∧ ¬ NoUpdateLost [0,1] w :=
  ⟨_,rfl,twoRing_ring,rfl,rfl,rfl,rfl,rfl,fun h => absurd (h.cursor rfl rfl) (by decide)⟩

end IntelligentAcoustics.Music
