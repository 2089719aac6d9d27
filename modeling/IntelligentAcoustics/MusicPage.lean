import IntelligentAcoustics.Deck
import IntelligentAcoustics.WebCommand

/-!
`music.html` with `music.js`, from the clicks to the player. The button shows whether music
plays as far as the page knows; `music.cgi` and `AutoProcess` answer nothing.
-/

set_option autoImplicit false

namespace IntelligentAcoustics.Music
open Transition BlockHeap LinkedRing

structure Page where
  playPause : Bytes
  soundQuite : Bytes
  deriving DecidableEq, Repr

def Page.init : Page := ⟨ascii "images/play.png",ascii "images/sound.png"⟩

inductive Click where
  | playCheck | soundCheck | nextCheck | prevCheck
  deriving DecidableEq, Repr

def Page.click (p : Page) : Click → Page × Bytes
  | .playCheck =>
    let flag := p.playPause = ascii "images/play.png"
    ({ p with playPause := if flag then ascii "images/pause.png" else ascii "images/play.png" },
      if flag then ascii "msg=play" else ascii "msg=pause")
  | .soundCheck =>
    let flag := p.soundQuite = ascii "images/sound.png"
    ({ p with soundQuite := if flag then ascii "images/quiet.png" else ascii "images/sound.png" },
      if flag then ascii "msg=sound" else ascii "msg=quiet")
  | .nextCheck => (p,ascii "msg=next")
  | .prevCheck => (p,ascii "msg=prev")

def Page.after (p : Page) (clicks : List Click) : Page := clicks.foldl (fun p c => (p.click c).1) p

def Page.requests : Page → List Click → List Bytes
  | _, [] => []
  | p, c :: cs => (p.click c).2 :: (p.click c).1.requests cs

def Delivered (body recvbuf : Bytes) : Prop :=
  ∃ msg, Cgi.musicMain (some (decimal body.length)) body = some msg ∧ Arrives msg (some recvbuf)

def PlayerAction.message : PlayerAction → Option Bytes
  | .thread (.processReceive recvbuf) => recvbuf
  | _ => none

/-- Only `AutoProcess` gets messages, and they are those of the clicks. -/
structure FromPage (clicks : List Click) (as : List PlayerAction) : Prop where
  mainSilent : ∀ a ∈ as, ∀ recvbuf, a ≠ .thread (.mainReceive recvbuf)
  delivered : List.Forall₂ Delivered (Page.init.requests clicks) (as.filterMap PlayerAction.message)

def Page.command (p : Page) : Click → Int
  | .playCheck => if p.playPause = ascii "images/play.png" then musicPlay else musicPause
  | .soundCheck => 5
  | .nextCheck => musicNext
  | .prevCheck => musicPrev

def Page.commands : Page → List Click → List Int
  | _, [] => []
  | p, c :: cs => p.command c :: (p.click c).1.commands cs

theorem delivered_received {body recvbuf msg : Bytes} {apcmd : Int}
    (hm : Cgi.musicMain (some (decimal body.length)) body = some (some msg))
    (hr : received msg = some apcmd) (h : Delivered body recvbuf) :
    received recvbuf = some apcmd := by
  obtain ⟨msg',hm',ha⟩ := h
  obtain rfl : some msg = msg' := Option.some.inj (hm.symm.trans hm')
  exact (arrives_received ha).trans hr

theorem click_received {p : Page} {c : Click} {recvbuf : Bytes}
    (h : Delivered (p.click c).2 recvbuf) : received recvbuf = some (p.command c) := by
  have hsent : ∀ x ∈ [(ascii "msg=play",Cgi.message "1",musicPlay),
      (ascii "msg=pause",Cgi.message "0",musicPause),(ascii "msg=next",Cgi.message "2",musicNext),
      (ascii "msg=prev",Cgi.message "3",musicPrev),(ascii "msg=sound",Cgi.message "5",5),
      (ascii "msg=quiet",Cgi.message "5",5)],
      Cgi.musicMain (some (decimal x.1.length)) x.1 = some (some x.2.1) ∧
        received x.2.1 = some x.2.2 := by decide
  simp only [List.mem_cons,List.not_mem_nil,or_false,forall_eq_or_imp,forall_eq] at hsent
  obtain ⟨hplay,hpause,hnext,hprev,hsound,hquiet⟩ := hsent
  cases c with
  | playCheck =>
    simp only [Page.click,Page.command] at h ⊢
    split
    · rename_i hflag
      rw [if_pos hflag] at h
      exact delivered_received hplay.1 hplay.2 h
    · rename_i hflag
      rw [if_neg hflag] at h
      exact delivered_received hpause.1 hpause.2 h
  | soundCheck =>
    simp only [Page.click] at h
    split at h
    · exact delivered_received hsound.1 hsound.2 h
    · exact delivered_received hquiet.1 hquiet.2 h
  | nextCheck => exact delivered_received hnext.1 hnext.2 h
  | prevCheck => exact delivered_received hprev.1 hprev.2 h

theorem requests_received {p : Page} {clicks : List Click} {recvbufs : List Bytes}
    (h : List.Forall₂ Delivered (p.requests clicks) recvbufs) :
    recvbufs.filterMap received = p.commands clicks := by
  induction clicks generalizing p recvbufs with
  | nil =>
    obtain rfl := List.forall₂_nil_left_iff.mp h
    rfl
  | cons c cs ih =>
    obtain ⟨recvbuf,recvbufs,hc,hcs,rfl⟩ := List.forall₂_cons_left_iff.mp h
    rw [Page.commands,List.filterMap_cons_some (click_received hc),ih hcs]

theorem FromPage.heard {clicks : List Click} {as : List PlayerAction} (h : FromPage clicks as) :
    as.filterMap PlayerAction.heard = Page.init.commands clicks := by
  rw [← requests_received h.delivered,List.filterMap_filterMap]
  refine List.filterMap_congr fun a ha => ?_
  cases a with
  | exit i => rfl
  | thread a =>
    cases a with
    | mainReceive recvbuf => exact absurd rfl (h.mainSilent _ ha recvbuf)
    | mainStep | processCreate serverSocket | processTest | processStep | fini => rfl
    | processReceive recvbuf => rfl

theorem mainSilent_step {s s' : Auto} {a : PlayerAction} (hm : s.main = none)
    (ha : ∀ recvbuf, a ≠ .thread (.mainReceive recvbuf)) (hs : playerStep s a = .next s') :
    s'.main = none := by
  cases a with
  | exit i =>
    obtain ⟨-,rfl⟩ := playerExit_next hs
    exact hm
  | thread a =>
    obtain ⟨hfini,hs⟩ := thread_next hs
    cases a with
    | mainReceive recvbuf => exact absurd rfl (ha recvbuf)
    | mainStep =>
      obtain ⟨pc,-,-,hpc,-⟩ := mainStep_next hs
      simp [hm] at hpc
    | processCreate serverSocket => exact (processCreate_next hs).2 ▸ hm
    | processTest => exact (processTest_next hs).2 ▸ hm
    | processReceive recvbuf => exact (processReceive_next hs).2 ▸ hm
    | processStep =>
      obtain ⟨-,-,-,-,-,rfl⟩ := processStep_next hs
      exact hm
    | fini => exact absurd rfl hfini

theorem FromPage.takesTurns {clicks : List Click} {as : List PlayerAction} (h : FromPage clicks as)
    {s : Auto} (hs : s.main = none) : Along playerStep TakesTurns s as := by
  refine along_of_invariant (I := fun s => s.main = none) (fun _ _ _ => mainSilent_step) ?_
    h.mainSilent hs
  intro s a hm ha
  unfold TakesTurns
  split
  · exact absurd rfl (ha _)
  · exact fun _ => hm
  · trivial

section
variable {nodes : List Addr} {names : List Bytes} {h : Heap MusicInfo} {clicks : List Click}
  {as : List PlayerAction} {s : Auto}

theorem page_run (hr : SongRing h nodes names) (hf : FromPage clicks as)
    (hs : run playerStep (Auto.init h (some (nth nodes 0))) as = .next s)
    (hp : s.process.call = none) : ∃ ds : List DeckAction,
      ds.filterMap DeckAction.performed = Page.init.commands clicks ∧
      ds.filterMap DeckAction.exited = as.filterMap PlayerAction.exited ∧
      Shows nodes names (ds.foldl Deck.act .init) s.player := by
  have hmain : s.main = none := invariant_run_of_forall (I := fun s => s.main = none)
    (fun _ _ _ => mainSilent_step) hs hf.mainSilent rfl
  rw [← hf.heard]
  exact deck_run hr (hf.takesTurns rfl) hs hmain hp

theorem acts_of_no_exit {ds : List DeckAction} (he : ds.filterMap DeckAction.exited = [])
    (d : Deck) : ds.foldl Deck.act d = (ds.filterMap DeckAction.performed).foldl Deck.perform d := by
  induction ds generalizing d with
  | nil => rfl
  | cons a ds ih =>
    cases a with
    | perform apcmd => exact ih he (d.perform apcmd)
    | exit i => simp [DeckAction.exited] at he

theorem page_shows (hr : SongRing h nodes names) (hf : FromPage clicks as)
    (he : as.filterMap PlayerAction.exited = [])
    (hs : run playerStep (Auto.init h (some (nth nodes 0))) as = .next s)
    (hp : s.process.call = none) :
    Shows nodes names ((Page.init.commands clicks).foldl Deck.perform .init) s.player := by
  obtain ⟨ds,hds,hexits,hshows⟩ := page_run hr hf hs hp
  rwa [acts_of_no_exit (hexits.trans he),hds] at hshows

end

def movedSince (moved : Bool) : Click → Bool
  | .playCheck => false
  | .nextCheck | .prevCheck => true
  | .soundCheck => moved

/-- What the button tells of the deck. -/
structure Tells (p : Page) (d : Deck) (moved : Bool) : Prop where
  button : p.playPause = ascii "images/play.png" ∨ p.playPause = ascii "images/pause.png"
  playing : p.playPause = ascii "images/pause.png" →
    d.paused = false ∧ d.started ≠ [] ∧ ∀ x ∈ d.started, x.2 = false
  skipped : p.playPause = ascii "images/play.png" → moved = true → ∃ z, d.started = [(z,false)]
  silent : p.playPause = ascii "images/play.png" → moved = false →
    (∀ x ∈ d.started, x.2 = true) ∧ (d.paused = false → d.started = [])

theorem perform_move (d : Deck) {apcmd : Int} (hm : Moves apcmd) : d.perform apcmd =
    ⟨d.position + shift apcmd,d.paused,[(d.position + shift apcmd,false)]⟩ := by
  rw [d.perform_start (.inr hm),Deck.ready,if_neg (moves_ne hm).2]
  rfl

theorem perform_play (d : Deck) : (d.perform musicPlay).paused = false ∧
    (d.perform musicPlay).started =
      (if d.paused then (d.mark false).started else d.started) ++ [(d.position,false)] := by
  rw [d.perform_start (.inl rfl)]
  cases hd : d.paused <;> simp [Deck.ready,Deck.sound,Deck.mark,hd]

theorem button_ne : ascii "images/play.png" ≠ ascii "images/pause.png" := by decide

theorem Tells.skip {p : Page} {d : Deck} {moved : Bool} (h : Tells p d moved) {apcmd : Int}
    (hm : Moves apcmd) : Tells p (d.perform apcmd) true := by
  rw [perform_move d hm]
  exact ⟨h.button,fun hb => ⟨(h.playing hb).1,by simp⟩,fun _ _ => ⟨_,rfl⟩,by simp⟩

theorem Tells.click {p : Page} {d : Deck} {moved : Bool} (h : Tells p d moved) (c : Click) :
    Tells (p.click c).1 (d.perform (p.command c)) (movedSince moved c) := by
  cases c with
  | nextCheck => exact h.skip (.inl rfl)
  | prevCheck => exact h.skip (.inr rfl)
  | soundCheck =>
    rw [Page.command,d.perform_outside (.inr (by decide))]
    exact ⟨h.button,h.playing,h.skipped,h.silent⟩
  | playCheck =>
    rcases h.button with hb | hb
    · -- it plays, beside what a move has started or what it lets go on
      have hall : ∀ x ∈ if d.paused then (d.mark false).started else d.started, x.2 = false := by
        cases hd : d.paused with
        | true => simp [Deck.mark]
        | false =>
          cases hm : moved with
          | true =>
            obtain ⟨z,hz⟩ := h.skipped hb hm
            simp [hz]
          | false => simp [(h.silent hb hm).2 hd]
      have hclick : p.click .playCheck =
          ({ p with playPause := ascii "images/pause.png" },ascii "msg=play") := by
        simp [Page.click,hb]
      obtain ⟨hpaused,hstarted⟩ := perform_play d
      rw [hclick,Page.command,if_pos hb]
      refine ⟨.inr rfl,fun _ => ⟨hpaused,by simp [hstarted],fun x hx => ?_⟩,
        fun hn => absurd hn button_ne.symm,fun hn => absurd hn button_ne.symm⟩
      rw [hstarted] at hx
      rcases List.mem_append.mp hx with hx | hx
      · exact hall x hx
      · simp [List.mem_singleton.mp hx]
    · have hne : p.playPause ≠ ascii "images/play.png" := hb ▸ button_ne.symm
      have hclick : p.click .playCheck =
          ({ p with playPause := ascii "images/play.png" },ascii "msg=pause") := by
        simp [Page.click,hne]
      rw [hclick,Page.command,if_neg hne]
      refine ⟨.inl rfl,fun hn => absurd hn button_ne,fun _ hn => absurd hn (by simp [movedSince]),
        fun _ _ => ⟨?_,?_⟩⟩
      · simp [Deck.perform,Deck.mark]
      · simp [Deck.perform]

theorem Tells.clicks {p : Page} {d : Deck} {moved : Bool} (h : Tells p d moved)
    (clicks : List Click) : Tells (p.after clicks) ((p.commands clicks).foldl Deck.perform d)
      (clicks.foldl movedSince moved) := by
  induction clicks generalizing p d moved with
  | nil => exact h
  | cons c cs ih => exact ih (h.click c)

theorem Tells.running_iff {p : Page} {d : Deck} {moved : Bool} (h : Tells p d moved) :
    (∃ x ∈ d.started, x.2 = false) ↔
      p.playPause = ascii "images/pause.png" ∨ moved = true := by
  rcases h.button with hb | hb
  · cases hm : moved with
    | true =>
      obtain ⟨z,hz⟩ := h.skipped hb hm
      simp [hz]
    | false =>
      obtain ⟨hstopped,-⟩ := h.silent hb hm
      refine iff_of_false ?_ ?_
      · rintro ⟨x,hx,hrun⟩
        simp [hstopped x hx] at hrun
      · simpa using hb ▸ button_ne
  · obtain ⟨-,hne,hrun⟩ := h.playing hb
    obtain ⟨x,hx⟩ := List.exists_mem_of_ne_nil _ hne
    exact iff_of_true ⟨x,hx,hrun x hx⟩ (.inl hb)

def piledUp (n : Nat) : Deck := ⟨0,n % 2 = 0 ∧ 0 < n,List.replicate ((n+1)/2) (0,n % 2 = 0)⟩

theorem piledUp_succ (n : Nat) :
    (piledUp n).perform (if n % 2 = 0 then musicPlay else musicPause) = piledUp (n+1) := by
  rcases Nat.mod_two_eq_zero_or_one n with hn | hn
  · have hodd : (n+1) % 2 = 1 := by omega
    have hmore : (n+1+1)/2 = (n+1)/2+1 := by omega
    rw [if_pos hn,Deck.perform_start _ (.inl rfl)]
    by_cases hz : 0 < n
    · simp [piledUp,Deck.ready,Deck.sound,Deck.mark,hn,hodd,hmore,hz,List.replicate_succ']
    · obtain rfl : n = 0 := by omega
      rfl
  · have heven : (n+1) % 2 = 0 := by omega
    have hsame : (n+1+1)/2 = (n+1)/2 := by omega
    simp [piledUp,Deck.perform,Deck.mark,hn,heven,hsame]

theorem toggled {p : Page} {n : Nat} {clicks : List Click}
    (hc : ∀ c ∈ clicks, c = .playCheck ∨ c = .soundCheck)
    (hp : p.playPause = if n % 2 = 0 then ascii "images/play.png" else ascii "images/pause.png") :
    (p.commands clicks).foldl Deck.perform (piledUp n) = piledUp (n + clicks.count .playCheck) := by
  induction clicks generalizing p n with
  | nil => rfl
  | cons c cs ih =>
    have hcs : ∀ c ∈ cs, c = .playCheck ∨ c = .soundCheck := fun c hm => hc c (by simp [hm])
    rcases hc c (by simp) with rfl | rfl
    · have hcmd : p.command .playCheck = if n % 2 = 0 then musicPlay else musicPause := by
        rw [Page.command,hp]
        split <;> simp [button_ne.symm]
      have hnext : (p.click .playCheck).1.playPause =
          if (n+1) % 2 = 0 then ascii "images/play.png" else ascii "images/pause.png" := by
        simp only [Page.click,hp]
        rcases Nat.mod_two_eq_zero_or_one n with hn | hn
        · have hodd : (n+1) % 2 = 1 := by omega
          simp [hn,hodd]
        · have heven : (n+1) % 2 = 0 := by omega
          simp [hn,heven,button_ne.symm]
      have hcount : n + (Click.playCheck :: cs).count .playCheck = n + 1 + cs.count .playCheck := by
        simp only [List.count_cons_self]
        omega
      rw [Page.commands,List.foldl_cons,hcmd,piledUp_succ,ih hcs hnext,hcount]
    · have hnext : (p.click .soundCheck).1.playPause = p.playPause := rfl
      have hsame : (piledUp n).perform (p.command .soundCheck) = piledUp n :=
        Deck.perform_outside _ (.inr (show musicStop < 5 by decide))
      rw [Page.commands,List.foldl_cons,hsame,ih hcs (hnext.trans hp)]
      simp

/-- For every sequence of clicks whose messages arrive, in whatever pieces, and while every
song plays on: a process runs exactly when the button says so or there was a move since it
was clicked last. -/
theorem button_tells_iff {musicIDBuf : Bytes} {entries : List Bytes}
    (hb : musicIDBuf.length = 100) (hk : songs entries ≠ [])
    (hn : ∀ dName ∈ songs entries, Fits dName) :
    ∃ h head, musicInit musicIDBuf (some entries) = some (h,some head) ∧
      ∀ clicks as s, FromPage clicks as → as.filterMap PlayerAction.exited = [] →
        run playerStep (Auto.init h (some head)) as = .next s → s.process.call = none →
        ((∃ m ∈ s.player.madplay, m.stopped = false) ↔
          (Page.init.after clicks).playPause = ascii "images/pause.png" ∨
            clicks.foldl movedSince false = true) := by
  obtain ⟨h,nodes,hi,hr⟩ := musicInit_ring hb hk hn
  refine ⟨h,_,hi,fun clicks as s hf he hs hp => ?_⟩
  have hinit : Tells Page.init Deck.init false :=
    ⟨.inl rfl,fun h => absurd h button_ne,fun _ h => absurd h (by decide),fun _ _ => ⟨by simp [Deck.init],fun _ => rfl⟩⟩
  rw [← (hinit.clicks clicks).running_iff,(page_shows hr hf he hs hp).madplay,Deck.processes]
  constructor
  · rintro ⟨m,hm,hrun⟩
    obtain ⟨x,hx,rfl⟩ := List.mem_map.mp hm
    exact ⟨x,hx,hrun⟩
  · rintro ⟨x,hx,hrun⟩
    exact ⟨_,List.mem_map_of_mem hx,hrun⟩

def playOnce : List PlayerAction :=
  [.thread (.processCreate 3),.thread .processTest,
   .thread (.processReceive (some (49 :: List.replicate 99 0))),.thread .processStep,
   .thread .processStep,.thread .processStep]

theorem playOnce_fromPage : FromPage [.playCheck] playOnce := by
  have hr : socketRecv 5 (List.replicate 100 0) 0 100 [.data [49],.data [0],.closed] =
      some (-2,49 :: List.replicate 99 0) := by decide
  refine ⟨by simp [playOnce],.cons ⟨some (Cgi.message "1"),by decide,?_⟩ .nil⟩
  exact .message hr

theorem button_tells_iff_playOnce : ∃ s, run playerStep (Auto.init twoRing (some 0)) playOnce =
    .next s ∧ ((∃ m ∈ s.player.madplay, m.stopped = false) ↔
      (Page.init.after [.playCheck]).playPause = ascii "images/pause.png" ∨
        [Click.playCheck].foldl movedSince false = true) := by
  obtain ⟨h,head,hi,htells⟩ := @button_tells_iff (List.replicate 100 0)
    [ascii ".",ascii "a.mp3",ascii "b.mp3"] (by decide) (by decide) (by decide)
  have htwo : musicInit (List.replicate 100 0) twoSongs = some (twoRing,some 0) := rfl
  obtain ⟨rfl,rfl⟩ : twoRing = h ∧ 0 = head := by
    simpa [Option.some.injEq,Prod.mk.injEq] using htwo.symm.trans hi
  exact ⟨_,rfl,htells [.playCheck] playOnce _ playOnce_fromPage rfl rfl rfl⟩

/-- On the page the button alone, and perhaps the one for the sound, piles up processes:
every second click starts one more, and none of them ends by a click. -/
theorem button_piles_up {musicIDBuf : Bytes} {entries : List Bytes}
    (hb : musicIDBuf.length = 100) (hk : songs entries ≠ [])
    (hn : ∀ dName ∈ songs entries, Fits dName) :
    ∃ h head, musicInit musicIDBuf (some entries) = some (h,some head) ∧
      ∀ clicks as s, FromPage clicks as → as.filterMap PlayerAction.exited = [] →
        run playerStep (Auto.init h (some head)) as = .next s → s.process.call = none →
        (∀ c ∈ clicks, c = .playCheck ∨ c = .soundCheck) →
        s.player.madplay = List.replicate ((clicks.count .playCheck + 1) / 2)
          ⟨songCommand (nth (songs entries) 0),clicks.count .playCheck % 2 = 0⟩ := by
  obtain ⟨h,nodes,hi,hr⟩ := musicInit_ring hb hk hn
  refine ⟨h,_,hi,fun clicks as s hf he hs hp hc => ?_⟩
  have hdeck := toggled (p := Page.init) (n := 0) hc rfl
  have hzero : piledUp 0 = Deck.init := rfl
  rw [hzero,Nat.zero_add] at hdeck
  rw [(page_shows hr hf he hs hp).madplay,hdeck]
  simp [Deck.processes,piledUp]

theorem button_piles_up_playOnce : ∃ s, run playerStep (Auto.init twoRing (some 0)) playOnce =
    .next s ∧ s.player.madplay = [⟨songCommand (ascii "a.mp3"),false⟩] := by
  obtain ⟨h,head,hi,hpiles⟩ := @button_piles_up (List.replicate 100 0)
    [ascii ".",ascii "a.mp3",ascii "b.mp3"] (by decide) (by decide) (by decide)
  have htwo : musicInit (List.replicate 100 0) twoSongs = some (twoRing,some 0) := rfl
  obtain ⟨rfl,rfl⟩ : twoRing = h ∧ 0 = head := by
    simpa [Option.some.injEq,Prod.mk.injEq] using htwo.symm.trans hi
  exact ⟨_,rfl,hpiles [.playCheck] playOnce _ playOnce_fromPage rfl rfl rfl (by decide)⟩

end IntelligentAcoustics.Music
