import IntelligentAcoustics.Library.Serial
import IntelligentAcoustics.SharedPlayer
import IntelligentAcoustics.TwoClients
import Mathlib.Data.List.InsertIdx

/-!
What the player is for: a position in the list of songs, whether it is paused, and the songs
that sound. As long as the two command loops do not call `aplay_cmd` at the same time, the
code does what this deck does, command by command.
-/

set_option autoImplicit false

namespace IntelligentAcoustics.Music
open Transition BlockHeap LinkedRing

/-- The songs that have been started, by position, and whether they are stopped. -/
structure Deck where
  position : Int
  paused : Bool
  started : List (Int × Bool)
  deriving DecidableEq, Repr

def Deck.init : Deck := ⟨0,false,[]⟩

def Deck.mark (d : Deck) (stopped : Bool) : Deck :=
  { d with started := d.started.map fun x => (x.1,stopped) }

def Deck.ready (d : Deck) (apcmd : Int) : Deck :=
  if apcmd = musicPlay then if d.paused then { d.mark false with paused := false } else d
  else ⟨d.position + shift apcmd,d.paused,[]⟩

def Deck.sound (d : Deck) : Deck := { d with started := d.started ++ [(d.position,false)] }

/-- A song is started beside those that sound already. Moving leaves the deck paused if it
was. -/
def Deck.perform (d : Deck) (apcmd : Int) : Deck :=
  if apcmd = musicPause then { d.mark true with paused := true }
  else if apcmd = musicPlay ∨ Moves apcmd then (d.ready apcmd).sound
  else if apcmd = musicStop then { d with started := [] }
  else d

inductive DeckAction where
  | perform (apcmd : Int)
  | exit (i : Nat)
  deriving DecidableEq, Repr

def Deck.act (d : Deck) : DeckAction → Deck
  | .perform apcmd => d.perform apcmd
  | .exit i => { d with started := d.started.eraseIdx i }

def Deck.processes (names : List Bytes) (d : Deck) : List Madplay :=
  d.started.map fun x => ⟨songCommand (nth names x.1),x.2⟩

/-- The variables of the player and its processes are those of the deck. -/
structure Shows (nodes : List Addr) (names : List Bytes) (d : Deck) (p : Player) : Prop where
  flag : p.musicFlag = some (nth nodes d.position)
  pause : p.musicPauseFlag = if d.paused then 1 else 0
  madplay : p.madplay = d.processes names

def AplayPc.apcmd : AplayPc → Int
  | .switch apcmd | .load apcmd | .follow apcmd _ | .store apcmd _ | .loadPlay apcmd |
    .play apcmd _ => apcmd
  | .setPause => musicPause
  | .cont | .clearPause => musicPlay

/-- The player while a call that began on the deck `d` is under way. -/
def During (nodes : List Addr) (names : List Bytes) (d : Deck) (p : Player) :
    Option AplayPc → Prop
  | none | some (.switch _) => Shows nodes names d p
  | some .setPause => Shows nodes names (d.mark true) p
  | some .cont => Shows nodes names d p ∧ d.paused = true
  | some .clearPause => Shows nodes names (d.mark false) p ∧ d.paused = true
  | some (.load apcmd) => Moves apcmd ∧ Shows nodes names { d with started := [] } p
  | some (.follow apcmd q) => Moves apcmd ∧ Shows nodes names { d with started := [] } p ∧
    q = some (nth nodes d.position)
  | some (.store apcmd q) => Moves apcmd ∧ Shows nodes names { d with started := [] } p ∧
    q = some (nth nodes (d.position + shift apcmd))
  | some (.loadPlay apcmd) => (apcmd = musicPlay ∨ Moves apcmd) ∧
    Shows nodes names (d.ready apcmd) p
  | some (.play apcmd q) => (apcmd = musicPlay ∨ Moves apcmd) ∧
    Shows nodes names (d.ready apcmd) p ∧ q = some (nth nodes (d.ready apcmd).position)

theorem moves_ne {apcmd : Int} (h : Moves apcmd) : apcmd ≠ musicPause ∧ apcmd ≠ musicPlay := by
  rcases h with rfl | rfl <;> decide

theorem Deck.perform_start (d : Deck) {apcmd : Int} (h : apcmd = musicPlay ∨ Moves apcmd) :
    d.perform apcmd = (d.ready apcmd).sound := by
  have hne : apcmd ≠ musicPause := by
    rcases h with rfl | h
    · decide
    · exact (moves_ne h).1
  rw [Deck.perform,if_neg hne,if_pos h]

theorem Deck.perform_outside (d : Deck) {apcmd : Int} (h : apcmd < musicPause ∨ musicStop < apcmd) :
    d.perform apcmd = d := by
  have hne : ∀ k, musicPause ≤ k → k ≤ musicStop → apcmd ≠ k := by omega
  simp [Deck.perform,Moves,hne musicPause (by decide) (by decide),
    hne musicPlay (by decide) (by decide),hne musicNext (by decide) (by decide),
    hne musicPrev (by decide) (by decide),hne musicStop (by decide) (by decide)]

section
variable {nodes : List Addr} {names : List Bytes} {d : Deck} {p p' : Player}

theorem Shows.stop (h : Shows nodes names d p) :
    Shows nodes names (d.mark true) { p with madplay := killallStop p.madplay } :=
  ⟨h.flag,h.pause,by simp [killallStop,h.madplay,Deck.processes,Deck.mark,Function.comp_def]⟩

theorem Shows.cont (h : Shows nodes names d p) :
    Shows nodes names (d.mark false) { p with madplay := killallCont p.madplay } :=
  ⟨h.flag,h.pause,by simp [killallCont,h.madplay,Deck.processes,Deck.mark,Function.comp_def]⟩

theorem Shows.kill (h : Shows nodes names d p) :
    Shows nodes names { d with started := [] } { p with madplay := [] } :=
  ⟨h.flag,h.pause,rfl⟩

theorem Shows.exit (h : Shows nodes names d p) (i : Nat) :
    Shows nodes names (d.act (.exit i)) { p with madplay := p.madplay.eraseIdx i } :=
  ⟨h.flag,h.pause,by simp [h.madplay,Deck.processes,Deck.act,List.eraseIdx_map]⟩

theorem During.step (hr : SongRing p.heap nodes names) {pc : AplayPc} {o : Option AplayPc}
    (h : During nodes names d p (some pc)) (hs : aplayCmd p pc = .next (p',o)) :
    (∀ pc', o = some pc' → During nodes names d p' (some pc') ∧ pc'.apcmd = pc.apcmd) ∧
      (o = none → Shows nodes names (d.perform pc.apcmd) p') := by
  cases pc with
  | switch apcmd =>
    simp only [During] at h
    obtain ⟨rfl,rfl,rfl⟩ | ⟨rfl,rfl,rfl⟩ | ⟨hm,rfl,rfl⟩ | ⟨rfl,rfl,rfl⟩ | ⟨ho,rfl,rfl⟩ :=
      switch_next hs
    · simpa [During,AplayPc.apcmd] using h.stop
    · refine ⟨fun pc' hpc => ?_,by simp⟩
      have hpause := h.pause
      simp only [Option.some.injEq] at hpc
      cases hd : d.paused with
      | true =>
        obtain rfl : AplayPc.cont = pc' := by simpa [hpause,hd] using hpc
        exact ⟨⟨h,hd⟩,rfl⟩
      | false =>
        obtain rfl : AplayPc.loadPlay musicPlay = pc' := by simpa [hpause,hd] using hpc
        exact ⟨⟨.inl rfl,by simpa [Deck.ready,hd] using h⟩,rfl⟩
    · simpa [During,AplayPc.apcmd] using ⟨hm,h.kill⟩
    · exact ⟨by simp,fun _ => h.kill⟩
    · exact ⟨by simp,fun _ => by rwa [AplayPc.apcmd,d.perform_outside ho]⟩
  | setPause =>
    obtain ⟨rfl,rfl⟩ := Outcome.next_unique rfl hs
    exact ⟨by simp,fun _ => ⟨h.flag,rfl,h.madplay⟩⟩
  | cont =>
    obtain ⟨rfl,rfl⟩ := Outcome.next_unique rfl hs
    obtain ⟨h,hd⟩ := h
    simpa [During,AplayPc.apcmd] using ⟨h.cont,hd⟩
  | clearPause =>
    obtain ⟨rfl,rfl⟩ := Outcome.next_unique rfl hs
    obtain ⟨h,hd⟩ := h
    have hready : Shows nodes names (d.ready musicPlay) { p with musicPauseFlag := 0 } := by
      simp only [Deck.ready,if_true,hd]
      exact ⟨h.flag,rfl,h.madplay⟩
    simpa [During,AplayPc.apcmd] using hready
  | load apcmd =>
    obtain ⟨rfl,rfl⟩ := Outcome.next_unique rfl hs
    obtain ⟨hm,h⟩ := h
    simpa [During,AplayPc.apcmd] using ⟨hm,h,h.flag⟩
  | follow apcmd q =>
    obtain ⟨hm,h,rfl⟩ := h
    obtain ⟨rfl,a,m,ha,hread,rfl⟩ := follow_next hs
    obtain rfl := Option.some.inj ha
    have hnext := neighbour_nth hr.ring hm d.position
    rw [neighbour_read hread] at hnext
    simpa [During,AplayPc.apcmd,hnext] using ⟨hm,h⟩
  | store apcmd q =>
    obtain ⟨rfl,rfl⟩ := Outcome.next_unique rfl hs
    obtain ⟨hm,h,rfl⟩ := h
    have hready : Shows nodes names (d.ready apcmd)
        { p with musicFlag := some (nth nodes (d.position + shift apcmd)) } := by
      rw [Deck.ready,if_neg (moves_ne hm).2]
      exact ⟨rfl,h.pause,h.madplay⟩
    simpa [During,AplayPc.apcmd] using ⟨.inr hm,hready⟩
  | loadPlay apcmd =>
    obtain ⟨rfl,rfl⟩ := Outcome.next_unique rfl hs
    obtain ⟨hc,h⟩ := h
    simpa [During,AplayPc.apcmd] using ⟨hc,h,h.flag⟩
  | play apcmd q =>
    obtain ⟨hc,h,rfl⟩ := h
    obtain ⟨rfl,a,m,madplay,ha,hm,hplay,rfl⟩ := play_next hs
    obtain rfl := Option.some.inj ha
    refine ⟨by simp,fun _ => ?_⟩
    rw [AplayPc.apcmd,d.perform_start hc]
    refine ⟨h.flag,h.pause,?_⟩
    rw [play_song hr hm hplay,h.madplay]
    simp [Deck.processes,Deck.sound]

theorem Deck.mark_exit (d : Deck) (stopped : Bool) (i : Nat) :
    (d.act (.exit i)).mark stopped = (d.mark stopped).act (.exit i) := by
  simp [Deck.act,Deck.mark,List.eraseIdx_map]

theorem Deck.ready_exit (d : Deck) (i : Nat) :
    (d.act (.exit i)).ready musicPlay = (d.ready musicPlay).act (.exit i) := by
  cases hd : d.paused <;> simp [Deck.act,Deck.ready,Deck.mark,hd,List.eraseIdx_map]

theorem Shows.silent {d : Deck} (h : Shows nodes names { d with started := [] } p) : p.madplay = [] :=
  h.madplay

theorem During.exit {o : Option AplayPc} (h : During nodes names d p o) {i : Nat}
    (hi : i < p.madplay.length) :
    During nodes names (d.act (.exit i)) { p with madplay := p.madplay.eraseIdx i } o := by
  have hmoving : ∀ {apcmd : Int}, Moves apcmd → ¬ Shows nodes names (d.ready apcmd) p := by
    intro apcmd hm hs
    rw [Deck.ready,if_neg (moves_ne hm).2] at hs
    simp [hs.madplay,Deck.processes] at hi
  have hstart : ∀ {apcmd : Int}, (apcmd = musicPlay ∨ Moves apcmd) →
      Shows nodes names (d.ready apcmd) p →
      Shows nodes names ((d.act (.exit i)).ready apcmd)
        { p with madplay := p.madplay.eraseIdx i } ∧
      ((d.act (.exit i)).ready apcmd).position = (d.ready apcmd).position := by
    rintro apcmd (rfl | hm) hs
    · rw [Deck.ready_exit]
      exact ⟨hs.exit i,rfl⟩
    · exact absurd hs (hmoving hm)
  cases o with
  | none => exact Shows.exit h i
  | some pc =>
    cases pc with
    | switch apcmd => exact Shows.exit h i
    | setPause =>
      simp only [During,Deck.mark_exit]
      exact Shows.exit h i
    | cont => exact ⟨h.1.exit i,h.2⟩
    | clearPause =>
      simp only [During,Deck.mark_exit]
      exact ⟨h.1.exit i,h.2⟩
    | load apcmd => simp [h.2.silent] at hi
    | follow apcmd q | store apcmd q => simp [h.2.1.silent] at hi
    | loadPlay apcmd => exact ⟨h.1,(hstart h.1 h.2).1⟩
    | play apcmd q =>
      obtain ⟨hc,hs,hq⟩ := h
      obtain ⟨hs',hpos⟩ := hstart hc hs
      exact ⟨hc,hs',hpos ▸ hq⟩

end

/-! ### The two loops -/

def Auto.call (s : Auto) : Option AplayPc := s.main.or s.process.call

/-- A loop takes up a command only while the other one is between commands. -/
def TakesTurns (s : Auto) : PlayerAction → Prop
  | .thread (.mainReceive recvbuf) => received recvbuf ≠ none → s.process.call = none
  | .thread (.processReceive recvbuf) => recvbuf.bind received ≠ none → s.main = none
  | _ => True

instance (s : Auto) (a : PlayerAction) : Decidable (TakesTurns s a) := by
  unfold TakesTurns
  split <;> infer_instance

def PlayerAction.heard : PlayerAction → Option Int
  | .thread (.mainReceive recvbuf) => received recvbuf
  | .thread (.processReceive recvbuf) => recvbuf.bind received
  | _ => none

def PlayerAction.exited : PlayerAction → Option Nat
  | .exit i => some i
  | .thread _ => none

def DeckAction.performed : DeckAction → Option Int
  | .perform apcmd => some apcmd
  | .exit _ => none

def DeckAction.exited : DeckAction → Option Nat
  | .exit i => some i
  | .perform _ => none

structure OnDeck (nodes : List Addr) (names : List Bytes) (d : Deck) (s : Auto) : Prop where
  ring : SongRing s.player.heap nodes names
  alone : s.main = none ∨ s.process.call = none
  during : During nodes names d s.player s.call

section
variable {nodes : List Addr} {names : List Bytes} {d : Deck} {s s' : Auto}

theorem OnDeck.call (h : OnDeck nodes names d s) {pc : AplayPc} (hc : s.call = some pc)
    {player : Player} {o : Option AplayPc} (hs : aplayCmd s.player pc = .next (player,o))
    (hplayer : s'.player = player) (ho : s'.call = o)
    (halone : s'.main = none ∨ s'.process.call = none) :
    ∃ bs : List DeckAction, OnDeck nodes names (bs.foldl Deck.act d) s' ∧
      (s.call.map AplayPc.apcmd).toList = bs.filterMap DeckAction.performed ++
        (s'.call.map AplayPc.apcmd).toList ∧
      [] = bs.filterMap DeckAction.exited := by
  have hduring := h.during
  rw [hc] at hduring
  obtain ⟨hon,hend⟩ := hduring.step h.ring hs
  have hring : SongRing s'.player.heap nodes names := by
    rw [hplayer,(aplayCmd_frame hs).1]
    exact h.ring
  cases o with
  | none =>
    refine ⟨[.perform pc.apcmd],⟨hring,halone,?_⟩,by simp [hc,ho,DeckAction.performed],rfl⟩
    rw [ho,hplayer]
    exact hend rfl
  | some pc' =>
    obtain ⟨hnext,hcmd⟩ := hon pc' rfl
    refine ⟨[],⟨hring,halone,?_⟩,by simp [hc,ho,hcmd],rfl⟩
    rw [ho,hplayer]
    exact hnext

theorem OnDeck.idle (h : OnDeck nodes names d s) {process : AutoProcessPc}
    (hp : s.process.call = none) (hc : process.call = none) : ∃ bs : List DeckAction,
      OnDeck nodes names (bs.foldl Deck.act d) { s with process := process } ∧
      (s.call.map AplayPc.apcmd).toList ++ [] = bs.filterMap DeckAction.performed ++
        (({ s with process := process } : Auto).call.map AplayPc.apcmd).toList ∧
      [] = bs.filterMap DeckAction.exited := by
  have hcall : ({ s with process := process } : Auto).call = s.call := by
    simp [Auto.call,hp,hc]
  exact ⟨[],⟨h.ring,.inr hc,hcall ▸ h.during⟩,by simp [hcall],rfl⟩

theorem OnDeck.matched {a : PlayerAction} (h : OnDeck nodes names d s) (hg : TakesTurns s a)
    (hs : playerStep s a = .next s') : ∃ bs : List DeckAction,
      OnDeck nodes names (bs.foldl Deck.act d) s' ∧
      (s.call.map AplayPc.apcmd).toList ++ a.heard.toList =
        bs.filterMap DeckAction.performed ++ (s'.call.map AplayPc.apcmd).toList ∧
      a.exited.toList = bs.filterMap DeckAction.exited := by
  have halone := h.alone
  have hduring := h.during
  cases a with
  | exit i =>
    obtain ⟨hi,rfl⟩ := playerExit_next hs
    exact ⟨[.exit i],⟨h.ring,halone,hduring.exit hi⟩,
      by simp [PlayerAction.heard,DeckAction.performed,Auto.call],rfl⟩
  | thread a =>
    obtain ⟨hfini,hs⟩ := thread_next hs
    cases a with
    | mainReceive recvbuf =>
      obtain ⟨hm,rfl⟩ := mainReceive_next hs
      simp only [Auto.call,hm,Option.none_or] at hduring
      simp only [Auto.call,hm,Option.none_or,PlayerAction.heard,PlayerAction.exited]
      cases hr : received recvbuf with
      | none => exact ⟨[],⟨h.ring,.inl rfl,by simpa [Auto.call] using hduring⟩,by simp,rfl⟩
      | some apcmd =>
        have hp := hg (by simp [hr])
        rw [hp] at hduring
        exact ⟨[],⟨h.ring,.inr hp,hduring⟩,by simp [hp,AplayPc.apcmd],rfl⟩
    | mainStep =>
      obtain ⟨pc,player,o,hpc,hstep,rfl⟩ := mainStep_next hs
      have hp : s.process.call = none := by simpa [hpc] using halone
      simp only [PlayerAction.heard,PlayerAction.exited,Option.toList_none,List.append_nil]
      exact h.call (by simp [Auto.call,hpc]) hstep rfl (by simp [Auto.call,hp]) (.inr hp)
    | processCreate serverSocket =>
      obtain ⟨hc,rfl⟩ := processCreate_next hs
      exact h.idle (by simp [hc,AutoProcessPc.call]) (by split <;> rfl)
    | processTest =>
      obtain ⟨hc,rfl⟩ := processTest_next hs
      exact h.idle (by simp [hc,AutoProcessPc.call]) (by split <;> rfl)
    | processReceive recvbuf =>
      obtain ⟨hc,rfl⟩ := processReceive_next hs
      have hp : s.process.call = none := by simp [hc,AutoProcessPc.call]
      simp only [Auto.call,hp,Option.or_none] at hduring
      simp only [Auto.call,hp,Option.or_none,PlayerAction.heard,PlayerAction.exited]
      cases hr : recvbuf.bind received with
      | none =>
        exact ⟨[],⟨h.ring,.inr (by simp),by simpa [Auto.call] using hduring⟩,by simp,rfl⟩
      | some apcmd =>
        have hm := hg (by simp [hr])
        rw [hm] at hduring
        refine ⟨[],⟨h.ring,.inl hm,?_⟩,by simp [hm,AplayPc.apcmd],rfl⟩
        show During nodes names d s.player (s.main.or (some (.switch apcmd)))
        rw [hm]
        exact hduring
    | processStep =>
      obtain ⟨pc,player,o,hpc,hstep,rfl⟩ := processStep_next hs
      have hcall : s.process.call = some pc := by simp [hpc,AutoProcessPc.call]
      have hm : s.main = none := by simpa [hcall] using halone
      simp only [PlayerAction.heard,PlayerAction.exited,Option.toList_none,List.append_nil]
      exact h.call (by simp [Auto.call,hm,hcall]) hstep rfl (by simp [Auto.call,hm]) (.inl hm)
    | fini => exact absurd rfl hfini

theorem onDeck_serialises : Serialises playerStep TakesTurns Deck.act (OnDeck nodes names)
    PlayerAction.heard DeckAction.performed (fun s => s.call.map AplayPc.apcmd)
    PlayerAction.exited DeckAction.exited :=
  ⟨fun _ _ _ _ h hg hs => h.matched hg hs⟩

theorem onDeck_init {h : Heap MusicInfo} (hr : SongRing h nodes names) :
    OnDeck nodes names .init (Auto.init h (some (nth nodes 0))) :=
  ⟨hr,.inl rfl,⟨rfl,rfl,rfl⟩⟩

theorem deck_run {h : Heap MusicInfo} (hr : SongRing h nodes names) {as : List PlayerAction}
    (hg : Along playerStep TakesTurns (Auto.init h (some (nth nodes 0))) as)
    (hs : run playerStep (Auto.init h (some (nth nodes 0))) as = .next s) (hm : s.main = none)
    (hp : s.process.call = none) : ∃ ds : List DeckAction,
      ds.filterMap DeckAction.performed = as.filterMap PlayerAction.heard ∧
      ds.filterMap DeckAction.exited = as.filterMap PlayerAction.exited ∧
      Shows nodes names (ds.foldl Deck.act .init) s.player := by
  obtain ⟨ds,hd,hcalls,hexits⟩ := onDeck_serialises.run (onDeck_init hr) hg hs
  have hcall : s.call = none := by simp [Auto.call,hm,hp]
  have hinit : (Auto.init h (some (nth nodes 0))).call = none := rfl
  have hduring := hd.during
  rw [hcall] at hduring
  exact ⟨ds,by simpa [hcall,hinit] using hcalls.symm,hexits.symm,hduring⟩

end

/-- Over every run in which the loops take turns, whatever they are sent and whenever the
processes end: between commands the player shows the deck that has performed the commands
in the order in which they came. -/
theorem player_is_deck {musicIDBuf : Bytes} {entries : List Bytes}
    (hb : musicIDBuf.length = 100) (hk : songs entries ≠ [])
    (hn : ∀ dName ∈ songs entries, Fits dName) :
    ∃ h nodes, musicInit musicIDBuf (some entries) = some (h,some (nth nodes 0)) ∧
      SongRing h nodes (songs entries) ∧
      ∀ as s, Along playerStep TakesTurns (Auto.init h (some (nth nodes 0))) as →
        run playerStep (Auto.init h (some (nth nodes 0))) as = .next s →
        s.main = none → s.process.call = none → ∃ ds : List DeckAction,
          ds.filterMap DeckAction.performed = as.filterMap PlayerAction.heard ∧
          ds.filterMap DeckAction.exited = as.filterMap PlayerAction.exited ∧
          Shows nodes (songs entries) (ds.foldl Deck.act .init) s.player := by
  obtain ⟨h,nodes,hi,hr⟩ := musicInit_ring hb hk hn
  exact ⟨h,nodes,hi,hr,fun as s hg hs hm hp => deck_run hr hg hs hm hp⟩

theorem player_is_deck_nextThenNext : ∃ nodes s, ∃ ds : List DeckAction,
    musicInit (List.replicate 100 0) twoSongs = some (twoRing,some 0) ∧
      run playerStep (Auto.init twoRing (some 0)) (nextThenNext.map .thread) = .next s ∧
      ds.filterMap DeckAction.performed = [musicNext,musicNext] ∧
      Shows nodes [ascii "a.mp3",ascii "b.mp3"] (ds.foldl Deck.act .init) s.player := by
  obtain ⟨h,nodes,hi,-,hdeck⟩ := @player_is_deck (List.replicate 100 0)
    [ascii ".",ascii "a.mp3",ascii "b.mp3"] (by decide) (by decide) (by decide)
  have htwo : musicInit (List.replicate 100 0) twoSongs = some (twoRing,some 0) := rfl
  obtain ⟨hh,hn⟩ : twoRing = h ∧ 0 = nth nodes 0 := by
    simpa [Option.some.injEq,Prod.mk.injEq] using htwo.symm.trans hi
  rw [← hh,← hn] at hdeck
  obtain ⟨ds,hds,-,hshows⟩ := hdeck (nextThenNext.map .thread) _ (by decide) rfl rfl rfl
  exact ⟨nodes,_,ds,htwo,rfl,hds,hshows⟩

end IntelligentAcoustics.Music
