import IntelligentAcoustics.SongCursor

/-!
The three 100-byte buffers a song name passes through: `MusicID_buf`, `music_path` and the
`cmd` of `play`. The last one leaves the least room.
-/

set_option autoImplicit false

namespace IntelligentAcoustics.Music
open Transition BlockHeap LinkedRing

/-- The node's path is whole and ends inside `music_path`, and the command that `play` makes
of it fits. -/
def PathKept (h : Heap MusicInfo) (a : Addr) (dName : Bytes) : Prop :=
  ∃ m, h.read a = some m ∧ m.musicPath.length = 100 ∧
    cStringIn m.musicPath = some (songPath dName) ∧
    ∀ madplay, Music.play m.musicPath madplay ≠ none

def PathsKept (musicIDBuf : Bytes) (entries : List Bytes) : Prop :=
  ∃ h nodes, musicInit musicIDBuf (some entries) = some (h,nodes.head?) ∧
    (nodes = [] ∨ Ring (links h) nodes) ∧ List.Forall₂ (PathKept h) nodes (songs entries)

theorem head?_eq_nth {nodes : List Addr} (h : nodes ≠ []) : nodes.head? = some (nth nodes 0) := by
  cases nodes with
  | nil => exact absurd rfl h
  | cons a nodes => simp [nth]

theorem fits_of_plays {dName : Bytes} (hn : 0 ∉ dName) (hp : Plays dName) : Fits dName := by
  have h₁ : musicDir.length = 8 := rfl
  have h₂ : (ascii "/").length = 1 := rfl
  refine ⟨hn,?_⟩
  simp only [songPath,List.length_append,h₁,h₂]
  unfold Plays at hp
  omega

theorem PathsKept.plays {musicIDBuf : Bytes} {entries : List Bytes}
    (h : PathsKept musicIDBuf entries) : ∀ dName ∈ songs entries, Plays dName := by
  intro dName hd
  obtain ⟨h,nodes,-,-,hk⟩ := h
  obtain ⟨hlen,hget⟩ := List.forall₂_iff_get.mp hk
  obtain ⟨i,hi,rfl⟩ := List.getElem_of_mem hd
  obtain ⟨m,-,-,hc,hp⟩ := hget i (hlen ▸ hi) hi
  exact (play_ne_none (cString_of_cStringIn hc) []).mp (hp [])

theorem pathsKept_of_plays {musicIDBuf : Bytes} {entries : List Bytes}
    (hb : musicIDBuf.length = 100) (hn : ∀ dName ∈ songs entries, 0 ∉ dName)
    (hp : ∀ dName ∈ songs entries, Plays dName) : PathsKept musicIDBuf entries := by
  by_cases hk : songs entries = []
  · refine ⟨.empty,[],?_,.inl rfl,hk ▸ .nil⟩
    simpa [musicInit] using musicInitLoop_none hk
  · obtain ⟨h,nodes,hi,hr⟩ := musicInit_ring hb hk
      (fun dName hd => fits_of_plays (hn dName hd) (hp dName hd))
    obtain ⟨hlen,hget⟩ := List.forall₂_iff_get.mp hr.holds
    refine ⟨h,nodes,by rw [hi,head?_eq_nth hr.ring.nonempty],.inr hr.ring,
      List.forall₂_iff_get.mpr ⟨hlen,fun i h₁ h₂ => ?_⟩⟩
    obtain ⟨m,hm,hl,hc⟩ := (hget i h₁ h₂).node
    refine ⟨m,hm,hl,hc,fun madplay => ?_⟩
    exact (play_ne_none (cString_of_cStringIn hc) madplay).mpr (hp _ (List.get_mem _ _))

/-- The paths of a listing survive exactly when no name is longer than 64 bytes, whatever
the buffer held before. -/
theorem paths_kept_iff {musicIDBuf : Bytes} {entries : List Bytes}
    (hb : musicIDBuf.length = 100) (hn : ∀ dName ∈ songs entries, 0 ∉ dName) :
    PathsKept musicIDBuf entries ↔ ∀ dName ∈ songs entries, dName.length ≤ 64 := by
  constructor
  · exact PathsKept.plays
  · exact pathsKept_of_plays hb hn

theorem paths_kept_iff_twoOfFour : PathsKept (List.replicate 100 0) twoOfFour :=
  (paths_kept_iff (by decide) (by decide)).mpr (by decide)

def longName : Bytes := List.replicate 65 97

theorem long_name_overflows : ∃ h m,
    musicInit (List.replicate 100 0) (some [longName]) = some (h,some 0) ∧
      h.read 0 = some m ∧ cStringIn m.musicPath = some (songPath longName) ∧
      Music.play m.musicPath [] = none ∧ ¬ PathsKept (List.replicate 100 0) [longName] := by
  refine ⟨_,_,rfl,rfl,by decide,by decide,fun hk => ?_⟩
  have hp := hk.plays longName (by decide)
  simp [Plays,longName] at hp

end IntelligentAcoustics.Music
