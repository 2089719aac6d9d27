import IntelligentAcoustics.Library.ShellTokens
import IntelligentAcoustics.SongPaths

/-!
The command line of `play` as the shell of `system` reads it. The path stands in it without
quotes.
-/

set_option autoImplicit false

namespace IntelligentAcoustics.Music
open Transition BlockHeap LinkedRing ShellTokens

/-- One command in the background: `madplay` with this path as its only song, reading from
`/dev/null`. -/
def StartsExactly (cmd path : Bytes) : Prop :=
  (tokenise cmd).bind (background ⟨[],[]⟩) =
    some ⟨[ascii "madplay",ascii "-q",path],[(ascii "<",ascii "/dev/null")]⟩

def SongStarted (h : Heap MusicInfo) (a : Addr) (dName : Bytes) : Prop :=
  ∃ m cmd, h.read a = some m ∧ cStringIn m.musicPath = some (songPath dName) ∧
    Music.play m.musicPath [] = some [⟨cmd,false⟩] ∧ StartsExactly cmd (songPath dName)

def SongsStarted (musicIDBuf : Bytes) (entries : List Bytes) : Prop :=
  ∃ h nodes, musicInit musicIDBuf (some entries) = some (h,nodes.head?) ∧
    (nodes = [] ∨ Ring (links h) nodes) ∧ List.Forall₂ (SongStarted h) nodes (songs entries)

def behindPath : Bytes := ascii "< /dev/null &"

theorem behindPath_tokens : tokens (.at .between) behindPath =
    some [.operator (ascii "<"),.word (ascii "/dev/null"),.operator (ascii "&")] := by decide

theorem behindPath_word (w : Word) : tokens (.at (.word w)) (32 :: behindPath) =
    some [.word w,.operator (ascii "<"),.word (ascii "/dev/null"),.operator (ascii "&")] := rfl

theorem behindPath_escape (w : Word) : tokens (.escape (.word w)) (32 :: behindPath) =
    some [.word (w ++ [32]),.operator (ascii "<"),.word (ascii "/dev/null"),
      .operator (ascii "&")] := rfl

theorem behindPath_open (w : Word) : tokens (.single w) (32 :: behindPath) = none ∧
    tokens (.at (.double w)) (32 :: behindPath) = none ∧
    tokens (.escape (.double w)) (32 :: behindPath) = none ∧
    tokens (.dollar (.double w)) (32 :: behindPath) = none := ⟨rfl,rfl,rfl,rfl⟩

theorem behindPath_closes : Closes behindPath where
  reads := ⟨_,behindPath_tokens⟩
  ends m n v ts hm h := by
    cases m with
    | «at» p =>
      cases p with
      | word w =>
        rw [behindPath_word] at h
        simp_all [Mode.size,Place.size]
      | double w => simp [behindPath_open w] at h
      | between | operator o => simp [Mode.size,Place.size] at hm
    | escape p =>
      cases p with
      | word w =>
        rw [behindPath_escape] at h
        simp only [Option.some.injEq,List.cons.injEq,Token.word.injEq] at h
        simp only [Mode.size,Place.size,Option.map_some,Option.some.injEq] at hm
        simp [← h.1,← hm]
      | double w => simp [behindPath_open w] at h
      | between | operator o => simp [Mode.size,Place.size] at hm
    | dollar p =>
      cases p with
      | word w =>
        rw [tokens_dollar (by decide),behindPath_word] at h
        simp only [Option.some.injEq,List.cons.injEq,Token.word.injEq] at h
        simp only [Mode.size,Place.size,Option.map_some,Option.some.injEq] at hm
        simp [← h.1,← hm]
      | double w => simp [behindPath_open w] at h
      | between | operator o => simp [Mode.size,Place.size] at hm
    | single w => simp [behindPath_open w] at h
    | comment => simp [Mode.size] at hm
  escaped w ts h := by
    rw [behindPath_escape] at h
    simp at h

theorem beforeName_follow : follow (.at .between) (ascii "madplay -q  " ++ (musicDir ++ ascii "/")) =
    some ([.word (ascii "madplay"),.word (ascii "-q")],.at (.word (musicDir ++ ascii "/"))) := by
  decide

theorem startsExactly_iff (dName : Bytes) :
    StartsExactly (ascii "madplay -q  " ++ songPath dName ++ ascii " < /dev/null &")
      (songPath dName) ↔ isPlain dName = true := by
  have hsplit : ascii "madplay -q  " ++ songPath dName ++ ascii " < /dev/null &" =
      ascii "madplay -q  " ++ (musicDir ++ ascii "/") ++ (dName ++ 32 :: behindPath) := by
    have hbehind : ascii " < /dev/null &" = 32 :: behindPath := rfl
    simp only [songPath,hbehind,List.append_assoc]
  rw [StartsExactly,tokenise,hsplit,tokens_append beforeName_follow]
  constructor
  · intro h
    refine (tokens_self_iff behindPath_closes (musicDir ++ ascii "/") dName).mp ?_
    cases hts : tokens (.at (.word (musicDir ++ ascii "/"))) (dName ++ 32 :: behindPath) with
    | none => simp [hts] at h
    | some ts =>
      obtain ⟨v,ts',rfl⟩ := tokens_word rfl hts
      simp only [hts,Option.map_some,Option.bind_some,List.cons_append,List.nil_append,
        background] at h
      obtain ⟨more,hargv⟩ := background_argv h
      simp only [List.cons_append,List.nil_append,List.cons.injEq,true_and] at hargv
      exact ⟨ts',by rw [← hargv.1,songPath]⟩
  · intro h
    rw [tokens_plain h,behindPath_word]
    rfl

theorem play_command {path dName cmd : Bytes} (hp : cString path = songPath dName)
    (h : Music.play path [] = some [⟨cmd,false⟩]) :
    cmd = ascii "madplay -q  " ++ songPath dName ++ ascii " < /dev/null &" := by
  simp only [Music.play,hp,Option.ite_none_right_eq_some,Option.some.injEq,List.nil_append,
    List.cons.injEq,Madplay.mk.injEq,and_true] at h
  exact h.2.symm

theorem SongStarted.plain {h : Heap MusicInfo} {a : Addr} {dName : Bytes}
    (hs : SongStarted h a dName) : isPlain dName = true := by
  obtain ⟨m,cmd,-,hc,hplay,hstart⟩ := hs
  rw [play_command (cString_of_cStringIn hc) hplay] at hstart
  exact (startsExactly_iff dName).mp hstart

theorem songStarted_of_plain {h : Heap MusicInfo} {a : Addr} {dName : Bytes}
    (hk : PathKept h a dName) (hplain : isPlain dName = true) : SongStarted h a dName := by
  obtain ⟨m,hm,-,hc,hfits⟩ := hk
  have hplay := hfits []
  simp only [Music.play,cString_of_cStringIn hc,ne_eq,ite_eq_right_iff,reduceCtorEq,imp_false,
    not_not] at hplay
  refine ⟨m,_,hm,hc,?_,(startsExactly_iff dName).mpr hplain⟩
  simp only [Music.play,cString_of_cStringIn hc,if_pos hplay,List.nil_append]

/-- For every listing whose names fit the buffers: each song is started on exactly its file
if and only if every name stands for itself in the command line. -/
theorem songs_started_iff {musicIDBuf : Bytes} {entries : List Bytes}
    (hb : musicIDBuf.length = 100) (hn : ∀ dName ∈ songs entries, 0 ∉ dName)
    (hp : ∀ dName ∈ songs entries, Plays dName) :
    SongsStarted musicIDBuf entries ↔ ∀ dName ∈ songs entries, isPlain dName = true := by
  constructor
  · rintro ⟨h,nodes,-,-,hs⟩ dName hd
    obtain ⟨hlen,hget⟩ := List.forall₂_iff_get.mp hs
    obtain ⟨i,hi,rfl⟩ := List.getElem_of_mem hd
    exact (hget i (hlen ▸ hi) hi).plain
  · intro hplain
    obtain ⟨h,nodes,hi,hring,hkept⟩ := pathsKept_of_plays hb hn hp
    obtain ⟨hlen,hget⟩ := List.forall₂_iff_get.mp hkept
    exact ⟨h,nodes,hi,hring,List.forall₂_iff_get.mpr ⟨hlen,fun i h₁ h₂ =>
      songStarted_of_plain (hget i h₁ h₂) (hplain _ (List.get_mem _ _))⟩⟩

theorem songs_started_iff_twoOfFour : SongsStarted (List.replicate 100 0) twoOfFour :=
  (songs_started_iff (by decide) (by decide) (by decide)).mpr (by decide)

theorem name_runs_command : ¬ SongsStarted (List.replicate 100 0) [ascii "a;reboot"] ∧
    tokenise (ascii "madplay -q  ../music/a;reboot < /dev/null &") =
      some [.word (ascii "madplay"),.word (ascii "-q"),.word (ascii "../music/a"),
        .operator (ascii ";"),.word (ascii "reboot"),.operator (ascii "<"),
        .word (ascii "/dev/null"),.operator (ascii "&")] := by
  refine ⟨?_,by decide⟩
  rintro ⟨h,nodes,-,-,hs⟩
  cases hs with
  | cons hstarted _ => exact absurd hstarted.plain (by decide)

end IntelligentAcoustics.Music
