import IntelligentAcoustics.MusicPlayer

/-!
`music_pause_flag` as a shadow of the `madplay` processes. `MUSIC_PLAY` clears it before it
plays; `MUSIC_NEXT` and `MUSIC_PREV` leave it as it is.
-/

set_option autoImplicit false

namespace IntelligentAcoustics.Music
open Transition BlockHeap
variable {s s' : Control}

def Agrees (musicPauseFlag : Int) (madplay : List Madplay) : Prop :=
  (musicPauseFlag = 1 → ∀ m ∈ madplay, m.stopped = true) ∧
    (musicPauseFlag = 0 → ∀ m ∈ madplay, m.stopped = false)

def PauseTold (s : Control) : Prop :=
  s.aplay = none → Agrees s.player.musicPauseFlag s.player.madplay

/-- `MUSIC_NEXT` and `MUSIC_PREV` reach `play` only when the flag is not set. -/
def MovesUnpaused (s : Control) (a : Action) : Prop :=
  a = .step → ∀ apcmd p, s.aplay = some (.play apcmd p) → apcmd ≠ musicPlay →
    s.player.musicPauseFlag ≠ 1

def PauseAt (musicPauseFlag : Int) (madplay : List Madplay) : Option AplayPc → Prop
  | none | some (.switch _) => Agrees musicPauseFlag madplay
  | some .setPause => ∀ m ∈ madplay, m.stopped = true
  | some .cont => True
  | some .clearPause => ∀ m ∈ madplay, m.stopped = false
  | some (.load apcmd) | some (.follow apcmd _) | some (.store apcmd _) =>
    apcmd ≠ musicPlay ∧ madplay = []
  | some (.loadPlay apcmd) | some (.play apcmd _) =>
    (apcmd = musicPlay → musicPauseFlag = 0 ∧ ∀ m ∈ madplay, m.stopped = false) ∧
      (apcmd ≠ musicPlay → madplay = [])

structure Shadow (s : Control) : Prop where
  flag : s.player.musicPauseFlag = 0 ∨ s.player.musicPauseFlag = 1
  pauseAt : PauseAt s.player.musicPauseFlag s.player.madplay s.aplay

theorem play_running {path : Bytes} {madplay madplay' : List Madplay}
    (h : Music.play path madplay = some madplay') :
    ∃ cmd, madplay' = madplay ++ [⟨cmd,false⟩] := by
  simp only [Music.play,Option.ite_none_right_eq_some,Option.some.injEq] at h
  exact ⟨_,h.2.symm⟩

theorem agrees_nil (musicPauseFlag : Int) : Agrees musicPauseFlag [] := ⟨by simp,by simp⟩

theorem PauseAt.sublist {musicPauseFlag : Int} {l l' : List Madplay} {o : Option AplayPc}
    (h : PauseAt musicPauseFlag l o) (hs : l'.Sublist l) : PauseAt musicPauseFlag l' o := by
  have hnil : l = [] → l' = [] := fun he => List.sublist_nil.mp (he ▸ hs)
  have hagrees : Agrees musicPauseFlag l → Agrees musicPauseFlag l' := fun ha =>
    ⟨fun hf m hm => ha.1 hf m (hs.subset hm),fun hf m hm => ha.2 hf m (hs.subset hm)⟩
  cases o with
  | none => exact hagrees h
  | some pc =>
    cases pc with
    | switch apcmd => exact hagrees h
    | setPause | clearPause => exact fun m hm => h m (hs.subset hm)
    | cont => trivial
    | load apcmd | follow apcmd p | store apcmd p => exact ⟨h.1,hnil h.2⟩
    | loadPlay apcmd | play apcmd p =>
      exact ⟨fun hc => ⟨(h.1 hc).1,fun m hm => (h.1 hc).2 m (hs.subset hm)⟩,
        fun hc => hnil (h.2 hc)⟩

theorem Shadow.aplay (h : Shadow s) (hg : MovesUnpaused s .step)
    (hs : controlStep s .step = .next s') : Shadow s' := by
  obtain ⟨pc,hpc,hr⟩ := step_next hs
  have hflag := h.flag
  have hat := h.pauseAt
  rw [hpc] at hat
  obtain ⟨player,aplay⟩ := s'
  cases pc with
  | switch apcmd =>
    obtain ⟨-,rfl,rfl⟩ | ⟨-,rfl,rfl⟩ | ⟨hc,rfl,rfl⟩ | ⟨-,rfl,rfl⟩ | ⟨-,rfl,rfl⟩ := switch_next hr
    · exact ⟨hflag,by simp [PauseAt,killallStop]⟩
    · refine ⟨hflag,?_⟩
      by_cases hz : s.player.musicPauseFlag = 0
      · simpa [hz,PauseAt] using hat.2 hz
      · simp [hz,PauseAt]
    · refine ⟨hflag,?_,rfl⟩
      rcases hc with rfl | rfl <;> decide
    · exact ⟨hflag,agrees_nil _⟩
    · exact ⟨hflag,hat⟩
  | setPause =>
    obtain ⟨rfl,rfl⟩ := Outcome.next_unique rfl hr
    exact ⟨.inr rfl,fun _ => hat,by simp⟩
  | cont =>
    obtain ⟨rfl,rfl⟩ := Outcome.next_unique rfl hr
    exact ⟨hflag,by simp [PauseAt,killallCont]⟩
  | clearPause =>
    obtain ⟨rfl,rfl⟩ := Outcome.next_unique rfl hr
    exact ⟨.inl rfl,fun _ => ⟨rfl,hat⟩,by simp⟩
  | load apcmd =>
    obtain ⟨rfl,rfl⟩ := Outcome.next_unique rfl hr
    exact ⟨hflag,hat⟩
  | follow apcmd p =>
    obtain ⟨rfl,a,m,-,-,rfl⟩ := follow_next hr
    exact ⟨hflag,hat⟩
  | store apcmd p =>
    obtain ⟨rfl,rfl⟩ := Outcome.next_unique rfl hr
    exact ⟨hflag,fun hc => absurd hc hat.1,fun _ => hat.2⟩
  | loadPlay apcmd =>
    obtain ⟨rfl,rfl⟩ := Outcome.next_unique rfl hr
    exact ⟨hflag,hat⟩
  | play apcmd p =>
    obtain ⟨rfl,a,m,madplay,-,-,hp,rfl⟩ := play_next hr
    obtain ⟨cmd,rfl⟩ := play_running hp
    refine ⟨hflag,?_⟩
    by_cases hc : apcmd = musicPlay
    · obtain ⟨hz,hrun⟩ := hat.1 hc
      refine ⟨fun h1 => absurd (hz.symm.trans h1) (by decide),fun _ m hm => ?_⟩
      rcases List.mem_append.mp hm with hm | hm
      · exact hrun m hm
      · simp [List.mem_singleton.mp hm]
    · have hne := hg rfl apcmd p hpc hc
      refine ⟨fun h1 => absurd h1 hne,fun _ m hm => ?_⟩
      rw [hat.2 hc] at hm
      simp [List.mem_singleton.mp hm]

theorem Shadow.step (h : Shadow s) {a : Action} (hg : MovesUnpaused s a)
    (hs : controlStep s a = .next s') : Shadow s' := by
  cases a with
  | command apcmd =>
    obtain ⟨hi,rfl⟩ := command_next hs
    have hat := h.pauseAt
    rw [hi] at hat
    exact ⟨h.flag,hat⟩
  | step => exact h.aplay hg hs
  | exit i =>
    obtain ⟨-,rfl⟩ := exit_next hs
    exact ⟨h.flag,h.pauseAt.sublist (List.eraseIdx_sublist _ _)⟩

theorem Shadow.pauseTold (h : Shadow s) : PauseTold s := by
  intro hi
  have hat := h.pauseAt
  rw [hi] at hat
  exact hat

theorem movesUnpaused_of_pauseTold {a : Action} (hs : controlStep s a = .next s')
    (h : PauseTold s') : MovesUnpaused s a := by
  rintro rfl apcmd p hp - hone
  obtain ⟨pc,hpc,hr⟩ := step_next hs
  obtain rfl := Option.some.inj (hp.symm.trans hpc)
  obtain ⟨ho,_,_,madplay,-,-,hpl,hs'⟩ := play_next hr
  obtain ⟨cmd,rfl⟩ := play_running hpl
  have hag := h ho
  rw [hs'] at hag
  have := hag.1 hone ⟨cmd,false⟩ (by simp)
  simp at this

/-- From any song list, over every sequence of commands and self-exits: the flag tells the
truth after every command, if and only if no move plays while the flag is set. -/
theorem pause_flag_iff (h : Heap MusicInfo) (musicHead : Option Addr) (as : List Action) :
    Always controlStep PauseTold ⟨Player.init h musicHead,none⟩ as ↔
      Along controlStep MovesUnpaused ⟨Player.init h musicHead,none⟩ as := by
  refine always_iff_along (I := Shadow) (P := PauseTold)
    (fun _ _ _ hi hg hs => hi.step hg hs) (fun _ hi => hi.pauseTold)
    (fun _ _ _ _ hs ht => movesUnpaused_of_pauseTold hs ht) ?_ as
  exact ⟨.inl rfl,agrees_nil _⟩

def playPauseNext : List Action :=
  [.command musicPlay,.step,.step,.step,
   .command musicPause,.step,.step,
   .command musicNext,.step,.step,.step,.step,.step,.step]

theorem paused_flag_playing : ∃ h musicHead s m,
    musicInit (List.replicate 100 0) (some [ascii ".",ascii "a.mp3"]) = some (h,musicHead) ∧
      musicHead ≠ none ∧
      run controlStep ⟨Player.init h musicHead,none⟩ playPauseNext = .next s ∧
      s.aplay = none ∧ s.player.musicPauseFlag = 1 ∧ m ∈ s.player.madplay ∧ m.stopped = false :=
  ⟨_,_,_,_,rfl,by decide,rfl,rfl,rfl,.head _,rfl⟩

end IntelligentAcoustics.Music
