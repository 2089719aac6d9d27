import IntelligentAcoustics.Library.CyclicRing
import IntelligentAcoustics.MusicList

/-!
The ring that `MusicInit` builds: one node for each song, in the order of `readdir`, with
the path of the song in it.
-/

set_option autoImplicit false

namespace IntelligentAcoustics.Music
open BlockHeap LinkedRing

def songs (entries : List Bytes) : List Bytes :=
  entries.filter fun dName => ¬ (dName = ascii "." ∨ dName = ascii "..")

def songPath (dName : Bytes) : Bytes := musicDir ++ ascii "/" ++ dName

/-- A `d_name` that leaves room for the NUL of its path in `MusicID_buf[100]`. -/
structure Fits (dName : Bytes) : Prop where
  noNul : 0 ∉ dName
  short : (songPath dName).length < 100

instance (dName : Bytes) : Decidable (Fits dName) :=
  decidable_of_iff (0 ∉ dName ∧ (songPath dName).length < 100)
    ⟨fun h => ⟨h.1,h.2⟩,fun h => ⟨h.noNul,h.short⟩⟩

/-- `music_path` ends inside its 100 bytes and is the path of the song. -/
structure Holds (h : Heap MusicInfo) (a : Addr) (dName : Bytes) : Prop where
  node : ∃ m, h.read a = some m ∧ m.musicPath.length = 100 ∧
    cStringIn m.musicPath = some (songPath dName)

structure SongRing (h : Heap MusicInfo) (nodes : List Addr) (names : List Bytes) : Prop where
  ring : Ring (links h) nodes
  holds : List.Forall₂ (Holds h) nodes names

def paths (h : Heap MusicInfo) (a : Addr) : Option Bytes := (h.read a).map fun m => m.musicPath

theorem Fits.noNul_path {dName : Bytes} (h : Fits dName) : 0 ∉ songPath dName := by
  simp only [songPath,List.mem_append,not_or]
  exact ⟨⟨by decide,by decide⟩,h.noNul⟩

theorem Fits.sprintf {dName buf : Bytes} (h : Fits dName) (hb : buf.length = 100) :
    ∃ buf', IntelligentAcoustics.sprintf buf (songPath dName) = some buf' ∧ buf'.length = 100 ∧
      cStringIn (buf'.take 100) = some (songPath dName) := by
  have he := sprintf_eq_some.mpr ⟨hb ▸ h.short,rfl⟩
  have hl := sprintf_length he
  refine ⟨_,he,hl.trans hb,?_⟩
  rw [List.take_of_length_le (by omega)]
  exact cStringIn_sprintf h.noNul_path _

theorem paths_malloc (h : Heap MusicInfo) :
    paths (h.malloc .raw) = fun b => if b = h.size then some [] else paths h b := by
  funext b
  unfold paths
  rw [Heap.read_malloc_eq]
  split <;> rfl

theorem paths_update {h h' : Heap MusicInfo} {a : Addr} {f : MusicInfo → MusicInfo}
    {g : Bytes → Bytes} (hu : h.update a f = some h')
    (hf : ∀ m, (f m).musicPath = g m.musicPath) :
    paths h' = fun b => if b = a then (paths h b).map g else paths h b := by
  funext b
  exact Heap.map_read_update (v := fun m => m.musicPath) hu hf b

theorem holds_iff {h : Heap MusicInfo} {a : Addr} {dName : Bytes} :
    Holds h a dName ↔ ∃ path, paths h a = some path ∧ path.length = 100 ∧
      cStringIn path = some (songPath dName) := by
  constructor
  · rintro ⟨m,hm,hl,hp⟩
    exact ⟨m.musicPath,by simp [paths,hm],hl,hp⟩
  · rintro ⟨path,hp,hl,hc⟩
    obtain ⟨m,hm,rfl⟩ := Option.map_eq_some_iff.mp hp
    exact ⟨m,hm,hl,hc⟩

theorem Holds.congr {h h' : Heap MusicInfo} {a : Addr} {dName : Bytes} (hh : Holds h a dName)
    (hp : paths h' a = paths h a) : Holds h' a dName := by
  rw [holds_iff] at hh ⊢
  rwa [hp]

theorem musicListAdd_paths {h : Heap MusicInfo} {musicNode p : Addr} (name path : Bytes)
    (hm : links h musicNode ≠ none) (hp : prev (links h) musicNode = some p)
    (hl : links h p ≠ none) :
    ∃ h', musicListAdd h musicNode name path = some h' ∧
      paths h' = fun b => if b = h.size then some (path.take 100) else paths h b := by
  have hread : ∀ {a}, links h a ≠ none → (h.malloc .raw).read a ≠ none := by
    intro a ha
    obtain ⟨m,hm⟩ := Option.ne_none_iff_exists'.mp (links_live.mp ha)
    simp [Heap.read_malloc MusicInfo.raw hm]
  have hnew : (h.malloc .raw).read h.size ≠ none := by simp
  obtain ⟨x,hx,-,hxp⟩ := read_of_links (Option.eq_some_of_isSome (Option.isSome_iff_ne_none.mpr hm))
  have hprev : x.prev = some p := by simpa [prev,links,hx] using hp
  obtain ⟨h₁,h1⟩ := Heap.update_live
    (fun m => { m with musicId := name.take 50, musicPath := path.take 100 }) hnew
  obtain ⟨h₂,h2⟩ := Heap.update_live (fun m => { m with prev := some h.size })
    ((Heap.read_update_ne_none h1).mpr (hread hm))
  have hnew2 := (Heap.read_update_ne_none h2).mpr ((Heap.read_update_ne_none h1).mpr hnew)
  obtain ⟨h₃,h3⟩ := Heap.update_live (fun m => { m with next := some musicNode }) hnew2
  have hp3 := (Heap.read_update_ne_none h3).mpr ((Heap.read_update_ne_none h2).mpr
    ((Heap.read_update_ne_none h1).mpr (hread hl)))
  obtain ⟨h₄,h4⟩ := Heap.update_live (fun m => { m with next := some h.size }) hp3
  have hnew4 := (Heap.read_update_ne_none h4).mpr ((Heap.read_update_ne_none h3).mpr hnew2)
  obtain ⟨h₅,h5⟩ := Heap.update_live (fun m => { m with prev := some p }) hnew4
  refine ⟨h₅,?_,?_⟩
  · simp only [musicListAdd,Option.bind_eq_bind,Heap.read_malloc MusicInfo.raw hx,Option.bind_some,
      hprev,h1,h2,h3,h4,h5]
  · funext b
    rw [paths_update (g := id) h5 (fun _ => rfl),paths_update (g := id) h4 (fun _ => rfl),
      paths_update (g := id) h3 (fun _ => rfl),paths_update (g := id) h2 (fun _ => rfl),
      paths_update (g := fun _ => path.take 100) h1 (fun _ => rfl),paths_malloc]
    by_cases hb : b = h.size <;> simp [hb]

theorem SongRing.node {h : Heap MusicInfo} {nodes : List Addr} {names : List Bytes}
    (hr : SongRing h nodes names) (z : Int) : ∃ m, h.read (nth nodes z) = some m ∧
      m.musicPath.length = 100 ∧ cStringIn m.musicPath = some (songPath (nth names z)) :=
  (forall₂_nth hr.holds hr.ring.nonempty z).node

theorem SongRing.fresh {h : Heap MusicInfo} {nodes : List Addr} {names : List Bytes}
    (hr : SongRing h nodes names) : h.size ∉ nodes := fun hm => hr.ring.live hm (links_size h)

theorem SongRing.first {h h' : Heap MusicInfo} {dName path : Bytes} (hl : path.length = 100)
    (hc : cStringIn (path.take 100) = some (songPath dName))
    (hi : musicHeadInit (h.malloc .raw) h.size (dName ++ [0]) path = some h') :
    SongRing h' [h.size] [dName] := by
  refine ⟨Ring.single (by simp [musicHeadInit_links hi rfl]),.cons ?_ .nil⟩
  rw [holds_iff]
  refine ⟨path.take 100,?_,by simp [hl],hc⟩
  rw [paths_update (g := fun _ => path.take 100) hi (fun _ => rfl),paths_malloc]
  simp

theorem SongRing.add {h : Heap MusicInfo} {nodes : List Addr} {names : List Bytes}
    {dName path : Bytes} (hr : SongRing h nodes names) (hl : path.length = 100)
    (hc : cStringIn (path.take 100) = some (songPath dName)) :
    ∃ h', musicListAdd h (nth nodes 0) (dName ++ [0]) path = some h' ∧
      SongRing h' (nodes ++ [h.size]) (names ++ [dName]) := by
  have hprev := hr.ring.prev_nth 0
  obtain ⟨h',hadd,hpaths⟩ := musicListAdd_paths (dName ++ [0]) path
    (hr.ring.live (nth_mem hr.ring.nonempty 0)) hprev
    (hr.ring.live (nth_mem hr.ring.nonempty _))
  refine ⟨h',hadd,?_,List.rel_append ?_ (.cons ?_ .nil)⟩
  · rw [musicListAdd_links hprev (hr.ring.live (nth_mem hr.ring.nonempty _)) hadd]
    exact hr.ring.insert (links_size h)
  · have hold : List.Forall₂ (fun a b => a ∈ nodes ∧ Holds h a b) nodes names :=
      (List.forall₂_and_left _ _).mpr ⟨fun _ ha => ha,hr.holds⟩
    refine hold.imp ?_
    rintro a dName ⟨ha,hh⟩
    have hne : a ≠ h.size := fun he => hr.fresh (he ▸ ha)
    exact hh.congr (by simp [hpaths,hne])
  · rw [holds_iff]
    exact ⟨path.take 100,by simp [hpaths],by simp [hl],hc⟩

theorem musicInitLoop_skip {buf : Bytes} {h : Heap MusicInfo} {musicHead : Option Addr}
    {dName : Bytes} {entries : List Bytes} (hd : dName = ascii "." ∨ dName = ascii "..") :
    musicInitLoop buf h musicHead (dName :: entries) = musicInitLoop buf h musicHead entries ∧
      songs (dName :: entries) = songs entries := by
  constructor
  · rw [musicInitLoop,if_pos hd]
  · rw [songs,List.filter_cons_of_neg (by simpa [or_iff_not_imp_left] using hd),songs]

theorem songs_cons {dName : Bytes} {entries : List Bytes}
    (hd : ¬ (dName = ascii "." ∨ dName = ascii "..")) :
    songs (dName :: entries) = dName :: songs entries := by
  rw [songs,List.filter_cons_of_pos (by simpa using hd),songs]

theorem musicInitLoop_head {musicIDBuf : Bytes} {h h' : Heap MusicInfo}
    {musicHead musicHead' : Option Addr} {entries : List Bytes}
    (hi : musicInitLoop musicIDBuf h musicHead entries = some (h',musicHead')) :
    musicHead' = none ↔ musicHead = none ∧ songs entries = [] := by
  induction entries generalizing musicIDBuf h musicHead with
  | nil =>
    simp only [musicInitLoop,Option.some.injEq,Prod.mk.injEq] at hi
    simp [songs,hi.2]
  | cons dName entries ih =>
    by_cases hd : dName = ascii "." ∨ dName = ascii ".."
    · obtain ⟨hl,hs⟩ := musicInitLoop_skip hd
      rw [hl] at hi
      rw [hs]
      exact ih hi
    · rw [musicInitLoop,if_neg hd] at hi
      simp only [songs_cons hd]
      cases musicHead with
      | none =>
        simp only [Option.bind_eq_bind,Option.bind_eq_some_iff] at hi
        obtain ⟨buf,-,h₁,-,hrest⟩ := hi
        simpa using ih hrest
      | some head =>
        simp only [Option.bind_eq_bind,Option.bind_eq_some_iff] at hi
        obtain ⟨buf,-,h₁,-,hrest⟩ := hi
        simpa using ih hrest

theorem musicInitLoop_none {musicIDBuf : Bytes} {h : Heap MusicInfo} {musicHead : Option Addr}
    {entries : List Bytes} (hs : songs entries = []) :
    musicInitLoop musicIDBuf h musicHead entries = some (h,musicHead) := by
  induction entries with
  | nil => rfl
  | cons dName entries ih =>
    by_cases hd : dName = ascii "." ∨ dName = ascii ".."
    · obtain ⟨hl,he⟩ := musicInitLoop_skip hd
      rw [hl]
      exact ih (he ▸ hs)
    · simp [songs_cons hd] at hs

/-- Once there is a head, every further song becomes the last node of the ring. -/
theorem musicInitLoop_ring {buf : Bytes} {h : Heap MusicInfo} {nodes : List Addr}
    {names entries : List Bytes} (hb : buf.length = 100) (hn : ∀ dName ∈ songs entries, Fits dName)
    (hr : SongRing h nodes names) :
    ∃ h' nodes', musicInitLoop buf h (some (nth nodes 0)) entries = some (h',some (nth nodes' 0)) ∧
      SongRing h' nodes' (names ++ songs entries) := by
  induction entries generalizing buf h nodes names with
  | nil => exact ⟨h,nodes,rfl,by simpa [songs] using hr⟩
  | cons dName entries ih =>
    by_cases hd : dName = ascii "." ∨ dName = ascii ".."
    · obtain ⟨hl,hs⟩ := musicInitLoop_skip hd
      rw [hl,hs]
      exact ih hb (hs ▸ hn) hr
    · have hs : songs (dName :: entries) = dName :: songs entries := songs_cons hd
      rw [hs] at hn ⊢
      obtain ⟨buf',hp,hl,hc⟩ := (hn dName (by simp)).sprintf hb
      obtain ⟨h₁,hadd,hr₁⟩ := hr.add hl hc
      obtain ⟨h',nodes',hrest,hr'⟩ := ih hl (fun d hd => hn d (by simp [hd])) hr₁
      refine ⟨h',nodes',?_,by simpa using hr'⟩
      rw [nth_append_zero _ hr.ring.nonempty] at hrest
      rw [musicInitLoop,if_neg hd,← songPath,hp]
      simpa only [Option.bind_eq_bind,Option.bind_some,hadd] using hrest

theorem musicInitLoop_first {buf : Bytes} {h : Heap MusicInfo} {entries : List Bytes}
    (hb : buf.length = 100) (hk : songs entries ≠ []) (hn : ∀ dName ∈ songs entries, Fits dName) :
    ∃ h' nodes, musicInitLoop buf h none entries = some (h',some (nth nodes 0)) ∧
      SongRing h' nodes (songs entries) := by
  induction entries with
  | nil => simp [songs] at hk
  | cons dName entries ih =>
    by_cases hd : dName = ascii "." ∨ dName = ascii ".."
    · obtain ⟨hl,hs⟩ := musicInitLoop_skip hd
      rw [hl,hs]
      exact ih (hs ▸ hk) (hs ▸ hn)
    · have hs : songs (dName :: entries) = dName :: songs entries := songs_cons hd
      rw [hs] at hn ⊢
      obtain ⟨buf',hp,hl,hc⟩ := (hn dName (by simp)).sprintf hb
      obtain ⟨h₁,hinit⟩ := Heap.update_live
        (fun _ => ⟨(dName ++ [0]).take 50,buf'.take 100,some h.size,some h.size⟩)
        (show (h.malloc MusicInfo.raw).read h.size ≠ none by simp)
      have hr₁ := SongRing.first hl hc hinit
      obtain ⟨h',nodes',hrest,hr'⟩ := musicInitLoop_ring hl
        (fun d (hd : d ∈ songs entries) => hn d (List.mem_cons_of_mem _ hd)) hr₁
      refine ⟨h',nodes',?_,hr'⟩
      rw [nth_singleton] at hrest
      rw [musicInitLoop,if_neg hd,← songPath,hp]
      simpa only [Option.bind_eq_bind,Option.bind_some,musicHeadInit,hinit] using hrest

theorem musicInit_ring {buf : Bytes} {entries : List Bytes} (hb : buf.length = 100)
    (hk : songs entries ≠ []) (hn : ∀ dName ∈ songs entries, Fits dName) :
    ∃ h nodes, musicInit buf (some entries) = some (h,some (nth nodes 0)) ∧
      SongRing h nodes (songs entries) := by
  obtain ⟨h,nodes,hi,hr⟩ := musicInitLoop_first (h := .empty) hb hk hn
  exact ⟨h,nodes,by simpa [musicInit] using hi,hr⟩

def twoRing : Heap MusicInfo := ((musicInit (List.replicate 100 0) twoSongs).map (·.1)).getD .empty

theorem twoRing_ring : Ring (links twoRing) [0,1] :=
  ⟨by simp,by decide,links_of_ofNat (by simp) (by decide)⟩

end IntelligentAcoustics.Music
