import IntelligentAcoustics.MusicPage
import IntelligentAcoustics.SpeechRequest
import IntelligentAcoustics.SpokenCommand
import Mathlib.Data.List.Infix

/-!
All that reaches the player: `AutoProcess` gets what the page sends, the main loop what
`socket_creat` of `pythonAI/AIsound.py` makes of the texts that were understood.
-/

set_option autoImplicit false

namespace IntelligentAcoustics.Music
open Transition BlockHeap LinkedRing

def spokenCommand (t : List Char) : Int :=
  if Spoken.pause.keyword <:+: t then musicPause
  else if playWord <:+: t then musicPlay
  else if Spoken.next.keyword <:+: t then musicNext
  else if Spoken.prev.keyword <:+: t then musicPrev
  else if Spoken.stop.keyword <:+: t then musicStop
  else 5

theorem received_musicControl (t : List Char) :
    received (musicControl t) = some (spokenCommand t) := by
  simp only [musicControl_eq,find_nonneg_iff,spokenCommand]
  split
  · decide
  split
  · decide
  split
  · decide
  split
  · decide
  split <;> decide

def PlayerAction.spoken : PlayerAction → Option Bytes
  | .thread (.mainReceive recvbuf) => some recvbuf
  | _ => none

/-- `AutoProcess` gets the messages of the clicks, the main loop those of the recordings. -/
structure FromHouse (md5 : Aip.Text → Aip.Text) (clicks : List Click)
    (utterances : List Aip.Utterance) (as : List PlayerAction) : Prop where
  delivered : List.Forall₂ Delivered (Page.init.requests clicks) (as.filterMap PlayerAction.message)
  heard : List.Forall₂ (fun text recvbuf => Heard (musicControl text) recvbuf)
    (utterances.filterMap (Aip.understands md5)) (as.filterMap PlayerAction.spoken)

def PlayerAction.source : PlayerAction → Option (Int ⊕ Int)
  | .thread (.processReceive recvbuf) => (recvbuf.bind received).map .inl
  | .thread (.mainReceive recvbuf) => (received recvbuf).map .inr
  | _ => none

theorem heard_source (a : PlayerAction) : a.heard = a.source.map (Sum.elim id id) := by
  cases a with
  | exit i => rfl
  | thread a =>
    cases a with
    | mainReceive recvbuf => simp [PlayerAction.heard,PlayerAction.source,Function.comp_def]
    | processReceive recvbuf => simp [PlayerAction.heard,PlayerAction.source,Function.comp_def]
    | mainStep | processCreate serverSocket | processTest | processStep | fini => rfl

theorem message_source (a : PlayerAction) :
    a.message.bind received = a.source.bind Sum.getLeft? := by
  cases a with
  | exit i => rfl
  | thread a =>
    cases a with
    | mainReceive recvbuf => cases hr : received recvbuf <;> simp [PlayerAction.message,PlayerAction.source,hr]
    | processReceive recvbuf =>
      cases hr : recvbuf.bind received <;> simp [PlayerAction.message,PlayerAction.source,hr]
    | mainStep | processCreate serverSocket | processTest | processStep | fini => rfl

theorem spoken_source (a : PlayerAction) :
    a.spoken.bind received = a.source.bind Sum.getRight? := by
  cases a with
  | exit i => rfl
  | thread a =>
    cases a with
    | mainReceive recvbuf => cases hr : received recvbuf <;> simp [PlayerAction.spoken,PlayerAction.source,hr]
    | processReceive recvbuf =>
      cases hr : recvbuf.bind received <;> simp [PlayerAction.spoken,PlayerAction.source,hr]
    | mainStep | processCreate serverSocket | processTest | processStep | fini => rfl

theorem spoken_received {texts : List (List Char)} {recvbufs : List Bytes}
    (h : List.Forall₂ (fun text recvbuf => Heard (musicControl text) recvbuf) texts recvbufs) :
    recvbufs.filterMap received = texts.map spokenCommand := by
  induction h with
  | nil => rfl
  | cons ht _ ih =>
    rw [List.filterMap_cons_some ((heard_received ht).trans (received_musicControl _)),ih,
      List.map_cons]

theorem Deck.perform_position (d : Deck) (apcmd : Int) :
    (d.perform apcmd).position = d.position + shift apcmd := by
  by_cases hc : apcmd = musicPlay ∨ Moves apcmd
  · rw [d.perform_start hc]
    by_cases hp : apcmd = musicPlay
    · subst hp
      have hzero : shift musicPlay = 0 := by decide
      cases hd : d.paused <;> simp [Deck.sound,Deck.ready,Deck.mark,hd,hzero]
    · simp [Deck.sound,Deck.ready,hp]
  · have hzero : shift apcmd = 0 := by
      rw [shift,if_neg (fun h => hc (.inr (.inl h))),if_neg (fun h => hc (.inr (.inr h)))]
    rw [Deck.perform,if_neg hc,hzero]
    split
    · simp [Deck.mark]
    · split <;> simp

theorem Deck.acts_position (ds : List DeckAction) (d : Deck) : (ds.foldl Deck.act d).position =
    d.position + ((ds.filterMap DeckAction.performed).map shift).sum := by
  induction ds generalizing d with
  | nil => simp
  | cons a ds ih =>
    rw [List.foldl_cons,ih]
    cases a with
    | perform apcmd =>
      simp only [Deck.act,d.perform_position,DeckAction.performed,List.filterMap_cons,
        List.map_cons,List.sum_cons]
      omega
    | exit i => rfl

theorem shifts_of_sources (order : List (Int ⊕ Int)) :
    ((order.map (Sum.elim id id)).map shift).sum =
      ((order.filterMap Sum.getLeft?).map shift).sum +
        ((order.filterMap Sum.getRight?).map shift).sum := by
  induction order with
  | nil => simp
  | cons x order ih =>
    cases x with
    | inl apcmd =>
      simp only [List.filterMap_cons,Sum.getLeft?_inl,Sum.getRight?_inl,List.map_cons,
        Sum.elim_inl,id_eq,List.sum_cons,ih]
      omega
    | inr apcmd =>
      simp only [List.filterMap_cons,Sum.getLeft?_inr,Sum.getRight?_inr,List.map_cons,
        Sum.elim_inr,id_eq,List.sum_cons,ih]
      omega

theorem commands_shift (p : Page) (clicks : List Click) : ((p.commands clicks).map shift).sum =
    clicks.count .nextCheck - clicks.count .prevCheck := by
  induction clicks generalizing p with
  | nil => rfl
  | cons c cs ih =>
    have hshift : shift (p.command c) = (if c = .nextCheck then 1 else 0) -
        (if c = .prevCheck then 1 else 0) := by
      cases c with
      | playCheck =>
        simp only [Page.command]
        split <;> decide
      | soundCheck | nextCheck | prevCheck => rfl
    simp only [Page.commands,List.map_cons,List.sum_cons,ih,hshift,List.count_cons,beq_iff_eq]
    split <;> split <;> omega

theorem shift_eq (z : Int) : shift z = (if z = musicNext then 1 else 0) -
    (if z = musicPrev then 1 else 0) := by
  have hne : musicNext ≠ musicPrev := by decide
  unfold shift
  split
  · rename_i h
    simp [h,hne]
  · split <;> simp

theorem texts_shift (texts : List (List Char)) : ((texts.map spokenCommand).map shift).sum =
    texts.countP (spokenCommand · = musicNext) - texts.countP (spokenCommand · = musicPrev) := by
  induction texts with
  | nil => rfl
  | cons t ts ih =>
    simp only [List.map_cons,List.sum_cons,ih,shift_eq,List.countP_cons,decide_eq_true_eq]
    split <;> split <;> omega

section
variable {nodes : List Addr} {names : List Bytes} {h : Heap MusicInfo} {clicks : List Click}
  {utterances : List Aip.Utterance} {md5 : Aip.Text → Aip.Text} {as : List PlayerAction} {s : Auto}

theorem house_run (hr : SongRing h nodes names) (hf : FromHouse md5 clicks utterances as)
    (hg : Along playerStep TakesTurns (Auto.init h (some (nth nodes 0))) as)
    (hs : run playerStep (Auto.init h (some (nth nodes 0))) as = .next s) (hm : s.main = none)
    (hp : s.process.call = none) : ∃ (order : List (Int ⊕ Int)) (ds : List DeckAction),
      order.filterMap Sum.getLeft? = Page.init.commands clicks ∧
      order.filterMap Sum.getRight? =
        (utterances.filterMap (Aip.understands md5)).map spokenCommand ∧
      ds.filterMap DeckAction.performed = order.map (Sum.elim id id) ∧
      ds.filterMap DeckAction.exited = as.filterMap PlayerAction.exited ∧
      Shows nodes names (ds.foldl Deck.act .init) s.player := by
  obtain ⟨ds,hds,hexits,hshows⟩ := deck_run hr hg hs hm hp
  refine ⟨as.filterMap PlayerAction.source,ds,?_,?_,?_,hexits,hshows⟩
  · rw [List.filterMap_filterMap,← requests_received hf.delivered,List.filterMap_filterMap]
    exact List.filterMap_congr fun a _ => (message_source a).symm
  · rw [List.filterMap_filterMap,← spoken_received hf.heard,List.filterMap_filterMap]
    exact List.filterMap_congr fun a _ => (spoken_source a).symm
  · rw [hds,List.map_filterMap]
    exact List.filterMap_congr fun a _ => heard_source a

end

/-- Over every run in which the loops take turns, whatever is clicked and said, whatever the
recognition answers and whenever songs end: the player shows the deck that has performed the
commands of the clicks and of the texts that were understood, each kind in its order. -/
theorem house_drives_deck {musicIDBuf : Bytes} {entries : List Bytes}
    (hb : musicIDBuf.length = 100) (hk : songs entries ≠ [])
    (hn : ∀ dName ∈ songs entries, Fits dName) :
    ∃ h nodes, musicInit musicIDBuf (some entries) = some (h,some (nth nodes 0)) ∧
      SongRing h nodes (songs entries) ∧
      ∀ md5 clicks utterances as s, FromHouse md5 clicks utterances as →
        Along playerStep TakesTurns (Auto.init h (some (nth nodes 0))) as →
        run playerStep (Auto.init h (some (nth nodes 0))) as = .next s →
        s.main = none → s.process.call = none →
          ∃ (order : List (Int ⊕ Int)) (ds : List DeckAction),
            order.filterMap Sum.getLeft? = Page.init.commands clicks ∧
            order.filterMap Sum.getRight? =
              (utterances.filterMap (Aip.understands md5)).map spokenCommand ∧
            ds.filterMap DeckAction.performed = order.map (Sum.elim id id) ∧
            ds.filterMap DeckAction.exited = as.filterMap PlayerAction.exited ∧
            Shows nodes (songs entries) (ds.foldl Deck.act .init) s.player := by
  obtain ⟨h,nodes,hi,hr⟩ := musicInit_ring hb hk hn
  exact ⟨h,nodes,hi,hr,fun _ _ _ _ _ hf hg hs hm hp => house_run hr hf hg hs hm hp⟩

def nextSaidThenClicked : List PlayerAction :=
  [.thread (.processCreate 3),.thread .processTest,
   .thread (.mainReceive (50 :: List.replicate 99 0)),.thread .mainStep,.thread .mainStep,
   .thread .mainStep,.thread .mainStep,.thread .mainStep,.thread .mainStep,
   .thread (.processReceive (some (50 :: List.replicate 99 0))),.thread .processStep,
   .thread .processStep,.thread .processStep,.thread .processStep,.thread .processStep,
   .thread .processStep]

def nextSaid : Aip.Utterance :=
  ⟨some [82,73,70,70],{
    now := 1000
    token := .obj (some "24.f9ba9c5".toList) (some 2592000) []
    fetched := 1000
    post := .content (.dict ⟨some (.number 0),some ["下一首".toList],none⟩)
    refresh := .failed .timeout
    refreshed := 1000
    repost := .failed .timeout }⟩

theorem nextSaid_understood (md5 : Aip.Text → Aip.Text) :
    Aip.understands md5 nextSaid = some "下一首".toList := by
  refine (Aip.understands_iff md5 nextSaid _).mpr ⟨by decide,trivial,.inl ⟨?_,_,[],rfl,rfl⟩⟩
  rintro ⟨obj,ho,hcode⟩
  obtain rfl := Aip.Content.dict.inj (Aip.PostAnswer.content.inj ho)
  exact absurd hcode (by decide)

theorem nextSaidThenClicked_fromHouse (md5 : Aip.Text → Aip.Text) :
    FromHouse md5 [.nextCheck] [nextSaid] nextSaidThenClicked := by
  have hclicked : socketRecv 5 (List.replicate 100 0) 0 100 [.data [50],.data [0],.closed] =
      some (-2,50 :: List.replicate 99 0) := by decide
  have hsaid : socketRecv 6 (List.replicate 100 0) 0 100 [.data [50],.closed] =
      some (-2,50 :: List.replicate 99 0) := by decide
  refine ⟨.cons ⟨some (Cgi.message "2"),by decide,.message hclicked⟩ .nil,?_⟩
  rw [List.filterMap_cons_some (nextSaid_understood md5)]
  exact .cons ⟨6,-2,_,hsaid,by decide⟩ .nil

theorem nextSaid_texts (md5 : Aip.Text → Aip.Text) :
    [nextSaid].filterMap (Aip.understands md5) = ["下一首".toList] :=
  List.filterMap_cons_some (nextSaid_understood md5)

def movedTwice : Auto :=
  { Auto.init twoRing (some 0) with
    player := { Player.init twoRing (some 0) with
      madplay := [⟨songCommand (ascii "a.mp3"),false⟩] }
    process := .head }

theorem nextSaidThenClicked_run :
    run playerStep (Auto.init twoRing (some 0)) nextSaidThenClicked = .next movedTwice := rfl

theorem house_drives_deck_nextSaidThenClicked : ∃ (nodes : List Addr)
    (order : List (Int ⊕ Int)) (ds : List DeckAction),
    order.filterMap Sum.getLeft? = [musicNext] ∧ order.filterMap Sum.getRight? = [musicNext] ∧
      ds.filterMap DeckAction.performed = order.map (Sum.elim id id) ∧
      Shows nodes [ascii "a.mp3",ascii "b.mp3"] (ds.foldl Deck.act .init) movedTwice.player := by
  obtain ⟨h,nodes,hi,-,hdeck⟩ := @house_drives_deck (List.replicate 100 0)
    [ascii ".",ascii "a.mp3",ascii "b.mp3"] (by decide) (by decide) (by decide)
  have htwo : musicInit (List.replicate 100 0) twoSongs = some (twoRing,some 0) := rfl
  obtain ⟨hh,hn⟩ : twoRing = h ∧ 0 = nth nodes 0 := by
    simpa [Option.some.injEq,Prod.mk.injEq] using htwo.symm.trans hi
  rw [← hh,← hn] at hdeck
  obtain ⟨order,ds,hleft,hright,hds,-,hshows⟩ := hdeck id [.nextCheck] [nextSaid]
    nextSaidThenClicked movedTwice (nextSaidThenClicked_fromHouse id) (by decide)
    nextSaidThenClicked_run rfl rfl
  rw [nextSaid_texts] at hright
  exact ⟨nodes,order,ds,hleft,hright,hds,hshows⟩

/-- The current song depends on how often "next" and "previous" were clicked and understood,
and on nothing else. -/
theorem current_song_counts {musicIDBuf : Bytes} {entries : List Bytes}
    (hb : musicIDBuf.length = 100) (hk : songs entries ≠ [])
    (hn : ∀ dName ∈ songs entries, Fits dName) :
    ∃ h nodes, musicInit musicIDBuf (some entries) = some (h,some (nth nodes 0)) ∧
      SongRing h nodes (songs entries) ∧
      ∀ md5 clicks utterances as s, FromHouse md5 clicks utterances as →
        Along playerStep TakesTurns (Auto.init h (some (nth nodes 0))) as →
        run playerStep (Auto.init h (some (nth nodes 0))) as = .next s →
        s.main = none → s.process.call = none →
          let texts := utterances.filterMap (Aip.understands md5)
          s.player.musicFlag = some (nth nodes
            (clicks.count .nextCheck - clicks.count .prevCheck +
              (texts.countP (spokenCommand · = musicNext) -
                texts.countP (spokenCommand · = musicPrev)))) := by
  obtain ⟨h,nodes,hi,hr⟩ := musicInit_ring hb hk hn
  refine ⟨h,nodes,hi,hr,fun md5 clicks utterances as s hf hg hs hm hp => ?_⟩
  obtain ⟨order,ds,hleft,hright,hds,-,hshows⟩ := house_run hr hf hg hs hm hp
  have hzero : Deck.init.position = 0 := rfl
  rw [hshows.flag,Deck.acts_position,hds,shifts_of_sources,hleft,hright,commands_shift,
    texts_shift,hzero,Int.zero_add]

theorem current_song_counts_nextSaidThenClicked : movedTwice.player.musicFlag = some 0 := by
  obtain ⟨h,nodes,hi,hring,hcounts⟩ := @current_song_counts (List.replicate 100 0)
    [ascii ".",ascii "a.mp3",ascii "b.mp3"] (by decide) (by decide) (by decide)
  have htwo : musicInit (List.replicate 100 0) twoSongs = some (twoRing,some 0) := rfl
  obtain ⟨hh,hn⟩ : twoRing = h ∧ 0 = nth nodes 0 := by
    simpa [Option.some.injEq,Prod.mk.injEq] using htwo.symm.trans hi
  rw [← hh,← hn] at hcounts
  have hsong := hcounts id [.nextCheck] [nextSaid] nextSaidThenClicked movedTwice
    (nextSaidThenClicked_fromHouse id) (by decide) nextSaidThenClicked_run rfl rfl
  rw [nextSaid_texts] at hsong
  have hlength : nodes.length = 2 := hring.holds.length_eq
  have hback := nth_add_length nodes 0
  rw [hlength] at hback
  exact hsong.trans (congrArg some (hback.trans hn.symm))

end IntelligentAcoustics.Music
