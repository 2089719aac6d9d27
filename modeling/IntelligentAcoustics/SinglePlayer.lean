import IntelligentAcoustics.MusicPlayer

/-!
How many `madplay` processes one control thread keeps alive. `MUSIC_NEXT` and `MUSIC_PREV`
kill before they play; `MUSIC_PLAY` starts a process beside the ones that live.
-/

set_option autoImplicit false

namespace IntelligentAcoustics.Music
open Transition BlockHeap
variable {s s' : Control}

def SinglePlayer (s : Control) : Prop := s.aplay = none → s.player.madplay.length ≤ 1

/-- `MUSIC_PLAY` reaches `play` only when no `madplay` is alive. -/
def PlayAlone (s : Control) (a : Action) : Prop :=
  a = .step → ∀ p, s.aplay = some (.play musicPlay p) → s.player.madplay = []

def AplayPc.killed : AplayPc → Bool
  | .load _ | .follow _ _ | .store _ _ => true
  | .loadPlay apcmd | .play apcmd _ => apcmd ≠ musicPlay
  | .switch _ | .setPause | .cont | .clearPause => false

structure Solo (s : Control) : Prop where
  atMostOne : s.player.madplay.length ≤ 1
  afterKill : ∀ pc, s.aplay = some pc → pc.killed = true → s.player.madplay = []

theorem Solo.aplay (h : Solo s) (hg : PlayAlone s .step) (hs : controlStep s .step = .next s') :
    Solo s' := by
  obtain ⟨pc,hpc,hr⟩ := step_next hs
  have hone := h.atMostOne
  have hkill := h.afterKill pc hpc
  obtain ⟨player,aplay⟩ := s'
  cases pc with
  | switch apcmd =>
    obtain ⟨-,rfl,rfl⟩ | ⟨-,rfl,rfl⟩ | ⟨-,rfl,rfl⟩ | ⟨-,rfl,rfl⟩ | ⟨-,rfl,rfl⟩ := switch_next hr
    · exact ⟨by simpa [killallStop] using hone,by simp [AplayPc.killed]⟩
    · refine ⟨hone,fun pc hpc hk => ?_⟩
      simp only [Option.some.injEq] at hpc
      subst hpc
      split at hk <;> simp [AplayPc.killed] at hk
    · exact ⟨by simp,by simp⟩
    · exact ⟨by simp,by simp⟩
    · exact ⟨hone,by simp⟩
  | setPause =>
    obtain ⟨rfl,rfl⟩ := Outcome.next_unique rfl hr
    exact ⟨hone,by simp⟩
  | cont =>
    obtain ⟨rfl,rfl⟩ := Outcome.next_unique rfl hr
    exact ⟨by simpa [killallCont] using hone,by simp [AplayPc.killed]⟩
  | clearPause =>
    obtain ⟨rfl,rfl⟩ := Outcome.next_unique rfl hr
    exact ⟨hone,by simp [AplayPc.killed]⟩
  | load apcmd =>
    obtain ⟨rfl,rfl⟩ := Outcome.next_unique rfl hr
    exact ⟨hone,fun _ _ _ => hkill rfl⟩
  | follow apcmd p =>
    obtain ⟨rfl,a,m,-,-,rfl⟩ := follow_next hr
    exact ⟨hone,fun _ _ _ => hkill rfl⟩
  | store apcmd p =>
    obtain ⟨rfl,rfl⟩ := Outcome.next_unique rfl hr
    exact ⟨hone,fun _ _ _ => hkill rfl⟩
  | loadPlay apcmd =>
    obtain ⟨rfl,rfl⟩ := Outcome.next_unique rfl hr
    refine ⟨hone,fun pc hpc hk => hkill ?_⟩
    simp only [Option.some.injEq] at hpc
    simpa [← hpc,AplayPc.killed] using hk
  | play apcmd p =>
    obtain ⟨rfl,a,m,madplay,-,-,hp,rfl⟩ := play_next hr
    have hnone : s.player.madplay = [] := by
      by_cases hc : apcmd = musicPlay
      · exact hg rfl p (hc ▸ hpc)
      · exact hkill (by simp [AplayPc.killed,hc])
    have hlen := play_length hp
    simp only [hnone,List.length_nil] at hlen
    exact ⟨by simp [hlen],by simp⟩

theorem Solo.step (h : Solo s) {a : Action} (hg : PlayAlone s a)
    (hs : controlStep s a = .next s') : Solo s' := by
  cases a with
  | command apcmd =>
    obtain ⟨-,rfl⟩ := command_next hs
    exact ⟨h.atMostOne,by simp [AplayPc.killed]⟩
  | step => exact h.aplay hg hs
  | exit i =>
    obtain ⟨-,rfl⟩ := exit_next hs
    refine ⟨Nat.le_trans (List.length_eraseIdx_le _ _) h.atMostOne,fun pc hpc hk => ?_⟩
    simp [h.afterKill pc hpc hk]

theorem playAlone_of_singlePlayer {a : Action} (hs : controlStep s a = .next s')
    (h : SinglePlayer s') : PlayAlone s a := by
  rintro rfl p hp
  obtain ⟨pc,hpc,hr⟩ := step_next hs
  obtain rfl := Option.some.inj (hp.symm.trans hpc)
  obtain ⟨ho,_,_,madplay,-,-,hpl,hs'⟩ := play_next hr
  have hone := h ho
  have hlen := play_length hpl
  simp only [hs',hlen] at hone
  exact List.eq_nil_of_length_eq_zero (by omega)

/-- From any song list, over every sequence of commands and self-exits: never two players
after a command, if and only if `MUSIC_PLAY` always found none when it played. -/
theorem single_player_iff (h : Heap MusicInfo) (musicHead : Option Addr) (as : List Action) :
    Always controlStep SinglePlayer ⟨Player.init h musicHead,none⟩ as ↔
      Along controlStep PlayAlone ⟨Player.init h musicHead,none⟩ as := by
  refine always_iff_along (I := Solo) (P := SinglePlayer)
    (fun _ _ _ hi hg hs => hi.step hg hs) (fun _ hi _ => hi.atMostOne) (fun _ _ _ _ hs ht => playAlone_of_singlePlayer hs ht) ?_ as
  exact ⟨by simp [Player.init],by simp⟩

def playPausePlay : List Action :=
  [.command musicPlay,.step,.step,.step,
   .command musicPause,.step,.step,
   .command musicPlay,.step,.step,.step,.step,.step]

theorem two_players : ∃ h musicHead s,
    musicInit (List.replicate 100 0) (some [ascii ".",ascii "a.mp3"]) = some (h,musicHead) ∧
      musicHead ≠ none ∧
      run controlStep ⟨Player.init h musicHead,none⟩ playPausePlay = .next s ∧
      s.aplay = none ∧ s.player.madplay.length = 2 :=
  ⟨_,_,_,rfl,by decide,rfl,rfl,rfl⟩

end IntelligentAcoustics.Music
