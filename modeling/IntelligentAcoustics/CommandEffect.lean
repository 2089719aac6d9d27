import IntelligentAcoustics.MusicPlayer
import IntelligentAcoustics.SongRing

/-!
A whole call of `aplay_cmd`, from its `switch` to its return: what it makes of the player if
nothing comes between, and which song it starts on a ring of songs.
-/

set_option autoImplicit false

namespace IntelligentAcoustics.Music
open Transition BlockHeap LinkedRing

def Player.startSong (p : Player) : Option Player := do
  let m ← p.musicFlag.bind p.heap.read
  let madplay ← Music.play m.musicPath p.madplay
  some { p with madplay := madplay }

/-- There is no value where the call faults. -/
def Player.perform (p : Player) (apcmd : Int) : Option Player :=
  if apcmd = musicPause then
    some { p with madplay := killallStop p.madplay, musicPauseFlag := 1 }
  else if apcmd = musicPlay then
    if p.musicPauseFlag ≠ 0 then
      { p with madplay := killallCont p.madplay, musicPauseFlag := 0 }.startSong
    else p.startSong
  else if apcmd = musicNext ∨ apcmd = musicPrev then do
    let m ← p.musicFlag.bind p.heap.read
    { p with
      musicFlag := if apcmd = musicNext then m.next else m.prev
      madplay := [] }.startSong
  else if apcmd = musicStop then some { p with madplay := [] }
  else some p

theorem run_loadPlay (p : Player) (apcmd : Int) :
    run controlStep ⟨p,some (.loadPlay apcmd)⟩ (List.replicate 2 .step) =
      .ofOption (p.startSong.map fun p => ⟨p,none⟩) := by
  simp only [List.replicate_succ,List.replicate_zero,run_cons,run_nil,controlStep,aplayCmd,deref,
    Player.startSong,Outcome.next_bind,Option.bind_eq_bind]
  cases p.musicFlag.bind p.heap.read with
  | none => rfl
  | some m => cases hp : Music.play m.musicPath p.madplay <;> simp [hp,Outcome.bind,Outcome.ofOption]

theorem run_to_loadPlay {s : Control} {n : Nat} {p : Player} (apcmd : Int)
    (h : run controlStep s (List.replicate n .step) = .next ⟨p,some (.loadPlay apcmd)⟩) :
    run controlStep s (List.replicate (n+2) .step) =
      .ofOption (p.startSong.map fun p => ⟨p,none⟩) := by
  rw [List.replicate_add,run_append h,run_loadPlay]

/-- A call that is left to itself returns, or faults where `perform` has no value. -/
theorem aplay_returns (p : Player) (apcmd : Int) : ∃ n,
    run controlStep ⟨p,some (.switch apcmd)⟩ (List.replicate n .step) =
      .ofOption ((p.perform apcmd).map fun p => ⟨p,none⟩) := by
  unfold Player.perform
  split
  · rename_i hc
    exact ⟨2,by simp [List.replicate_succ,controlStep,aplayCmd,hc,Outcome.ofOption]⟩
  split
  · rename_i hc
    split
    · rename_i hflag
      refine ⟨3+2,run_to_loadPlay musicPlay ?_⟩
      simp [List.replicate_succ,controlStep,aplayCmd,hc,hflag,musicPlay,musicPause]
    · rename_i hflag
      refine ⟨1+2,run_to_loadPlay musicPlay ?_⟩
      simp [List.replicate_succ,controlStep,aplayCmd,hc,hflag,musicPlay,musicPause]
  split
  · rename_i hpause hplay hmove
    cases hread : p.musicFlag.bind p.heap.read with
    | none =>
      exact ⟨3,by simp [List.replicate_succ,controlStep,aplayCmd,hpause,hplay,hmove,deref,hread,
        Outcome.bind,Outcome.ofOption]⟩
    | some m =>
      refine ⟨4+2,run_to_loadPlay apcmd ?_⟩
      simp [List.replicate_succ,controlStep,aplayCmd,hpause,hplay,hmove,deref,hread]
  · rename_i hpause hplay hmove
    refine ⟨1,?_⟩
    simp only [List.replicate_succ,List.replicate_zero,run_cons,run_nil,controlStep,aplayCmd,
      if_neg hpause,if_neg hplay,if_neg hmove]
    split <;> rfl

def shift (apcmd : Int) : Int :=
  if apcmd = musicNext then 1 else if apcmd = musicPrev then -1 else 0

theorem shift_eq_zero {apcmd : Int} (hn : apcmd ≠ musicNext) (hp : apcmd ≠ musicPrev) :
    shift apcmd = 0 := by
  simp [shift,hn,hp]

theorem shift_outside {apcmd : Int} (h : apcmd < musicPause ∨ musicStop < apcmd) :
    shift apcmd = 0 := by
  refine shift_eq_zero ?_ ?_ <;>
    simp only [musicPause,musicNext,musicPrev,musicStop] at * <;> omega

theorem follow_shift {h : Heap MusicInfo} {nodes : List Addr} {m : MusicInfo} {apcmd z : Int}
    (hr : Ring (links h) nodes) (hc : apcmd = musicNext ∨ apcmd = musicPrev)
    (hm : h.read (nth nodes (z - shift apcmd)) = some m) :
    (if apcmd = musicNext then m.next else m.prev) = some (nth nodes z) := by
  have hl := hr.links (z - shift apcmd)
  simp only [links,hm,Option.map_some,Option.some.injEq,Prod.mk.injEq] at hl
  rcases hc with rfl | rfl
  · simpa [shift] using hl.1
  · simpa [shift,musicNext,musicPrev] using hl.2

/-- The command that plays the song fits `cmd[100]`. -/
def Plays (dName : Bytes) : Prop := dName.length ≤ 64

instance (dName : Bytes) : Decidable (Plays dName) := inferInstanceAs (Decidable (_ ≤ _))

theorem play_ne_none {path dName : Bytes} (hp : cString path = songPath dName)
    (madplay : List Madplay) : Music.play path madplay ≠ none ↔ Plays dName := by
  have h₁ : (ascii "madplay -q  ").length = 12 := rfl
  have h₂ : (ascii " < /dev/null &").length = 14 := rfl
  have h₃ : musicDir.length = 8 := rfl
  have h₄ : (ascii "/").length = 1 := rfl
  simp only [Music.play,hp,songPath,List.length_append,h₁,h₂,h₃,h₄,Plays]
  split <;> simp <;> omega

def songCommand (dName : Bytes) : Bytes := ascii "madplay -q  " ++ songPath dName ++ ascii " < /dev/null &"

theorem SongRing.names_nonempty {h : Heap MusicInfo} {nodes : List Addr} {names : List Bytes}
    (hr : SongRing h nodes names) : names ≠ [] :=
  List.length_pos_iff.mp (hr.holds.length_eq ▸ hr.ring.length_pos)

theorem play_song {h : Heap MusicInfo} {nodes : List Addr} {names : List Bytes} {z : Int}
    (hr : SongRing h nodes names) {m : MusicInfo} (hm : h.read (nth nodes z) = some m)
    {madplay madplay' : List Madplay} (hp : Music.play m.musicPath madplay = some madplay') :
    madplay' = madplay ++ [⟨songCommand (nth names z),false⟩] := by
  obtain ⟨m',hm',-,hc⟩ := hr.node z
  obtain rfl := Option.some.inj (hm.symm.trans hm')
  simp only [Music.play,cString_of_cStringIn hc,Option.ite_none_right_eq_some,
    Option.some.injEq] at hp
  exact hp.2.symm

/-- Every song fits `cmd`, and `music_flag` is the one at position `z`. -/
structure AtSong (nodes : List Addr) (names : List Bytes) (z : Int) (p : Player) : Prop where
  ring : SongRing p.heap nodes names
  plays : ∀ dName ∈ names, Plays dName
  flag : p.musicFlag = some (nth nodes z)

/-- The player after a command that found it at the song at position `z`. -/
def Player.performed (p : Player) (nodes : List Addr) (names : List Bytes) (z apcmd : Int) :
    Player :=
  if apcmd = musicPause then { p with madplay := killallStop p.madplay, musicPauseFlag := 1 }
  else if apcmd = musicPlay then
    { p with
      madplay := (if p.musicPauseFlag ≠ 0 then killallCont p.madplay else p.madplay) ++
        [⟨songCommand (nth names z),false⟩]
      musicPauseFlag := 0 }
  else if apcmd = musicNext ∨ apcmd = musicPrev then
    { p with
      musicFlag := some (nth nodes (z + shift apcmd))
      madplay := [⟨songCommand (nth names (z + shift apcmd)),false⟩] }
  else if apcmd = musicStop then { p with madplay := [] }
  else p

section
variable {nodes : List Addr} {names : List Bytes} {z : Int} {p : Player}

theorem AtSong.play (h : AtSong nodes names z p) : ∃ m, p.heap.read (nth nodes z) = some m ∧
    Music.play m.musicPath p.madplay =
      some (p.madplay ++ [⟨songCommand (nth names z),false⟩]) := by
  obtain ⟨m,hm,-,hc⟩ := h.ring.node z
  obtain ⟨madplay,hplay⟩ := Option.ne_none_iff_exists'.mp
    ((play_ne_none (cString_of_cStringIn hc) p.madplay).mpr
      (h.plays _ (nth_mem h.ring.names_nonempty z)))
  exact ⟨m,hm,play_song h.ring hm hplay ▸ hplay⟩

theorem AtSong.startSong (h : AtSong nodes names z p) :
    p.startSong = some { p with madplay := p.madplay ++ [⟨songCommand (nth names z),false⟩] } := by
  obtain ⟨m,hm,hplay⟩ := h.play
  simp only [Player.startSong,h.flag,Option.bind_eq_bind,Option.bind_some,hm,hplay]

theorem AtSong.perform (h : AtSong nodes names z p) (apcmd : Int) :
    p.perform apcmd = some (p.performed nodes names z apcmd) := by
  unfold Player.perform Player.performed
  split
  · rfl
  split
  · split
    · have hcont : AtSong nodes names z
          { p with madplay := killallCont p.madplay, musicPauseFlag := 0 } :=
        ⟨h.ring,h.plays,h.flag⟩
      exact hcont.startSong
    · rename_i hflag
      rw [h.startSong,← not_not.mp hflag]
  split
  · rename_i hmove
    obtain ⟨m,hm,-,-⟩ := h.ring.node z
    have hnext : (if apcmd = musicNext then m.next else m.prev) =
        some (nth nodes (z + shift apcmd)) :=
      follow_shift h.ring.ring hmove (by rwa [Int.add_sub_cancel])
    have hmoved : AtSong nodes names (z + shift apcmd)
        { p with musicFlag := some (nth nodes (z + shift apcmd)), madplay := [] } :=
      ⟨h.ring,h.plays,rfl⟩
    simp only [h.flag,Option.bind_eq_bind,Option.bind_some,hm,hnext]
    exact hmoved.startSong
  · split <;> rfl

theorem AtSong.returns (h : AtSong nodes names z p) (apcmd : Int) : ∃ n,
    run controlStep ⟨p,some (.switch apcmd)⟩ (List.replicate n .step) =
      .next ⟨p.performed nodes names z apcmd,none⟩ := by
  obtain ⟨n,hn⟩ := aplay_returns p apcmd
  rw [h.perform] at hn
  exact ⟨n,hn⟩

end

end IntelligentAcoustics.Music
