import IntelligentAcoustics.CText
import IntelligentAcoustics.Library.BlockHeap
import IntelligentAcoustics.Library.LinkedRing

/-!
The song list of `auto/auto.c`: a ring of `MusicInfo` nodes, set up by `MusicInit` from
the entries of the music directory.
-/

set_option autoImplicit false

namespace IntelligentAcoustics.Music
open BlockHeap LinkedRing

abbrev Addr := Nat

structure MusicInfo where
  musicId : Bytes
  musicPath : Bytes
  next : Option Addr
  prev : Option Addr
  deriving DecidableEq, Repr

def MusicInfo.raw : MusicInfo := ⟨[],[],none,none⟩

def musicListAdd (h : Heap MusicInfo) (musicNode : Addr) (id path : Bytes) :
    Option (Heap MusicInfo) := do
  let new := h.size
  let h := h.malloc .raw
  let p ← (← h.read musicNode).prev
  let h ← h.update new fun m => { m with musicId := id.take 50, musicPath := path.take 100 }
  let h ← h.update musicNode fun m => { m with prev := some new }
  let h ← h.update new fun m => { m with next := some musicNode }
  let h ← h.update p fun m => { m with next := some new }
  h.update new fun m => { m with prev := some p }

def musicHeadInit (h : Heap MusicInfo) (musicNode : Addr) (id path : Bytes) :
    Option (Heap MusicInfo) :=
  h.update musicNode fun _ => ⟨id.take 50,path.take 100,some musicNode,some musicNode⟩

def musicDir : Bytes := ascii "../music"

/-- The loop of `MusicInit` over the remaining directory entries, with `MusicID_buf`, the
list so far and `music_head` once `first_init` is cleared. A name is given with its NUL. -/
def musicInitLoop (musicIDBuf : Bytes) (h : Heap MusicInfo) (musicHead : Option Addr) :
    List Bytes → Option (Heap MusicInfo × Option Addr)
  | [] => some (h,musicHead)
  | dName :: entries =>
    if dName = ascii "." ∨ dName = ascii ".." then musicInitLoop musicIDBuf h musicHead entries
    else do
      let musicIDBuf ← sprintf musicIDBuf (musicDir ++ ascii "/" ++ dName)
      match musicHead with
      | none =>
        let h' ← musicHeadInit (h.malloc .raw) h.size (dName ++ [0]) musicIDBuf
        musicInitLoop musicIDBuf h' (some h.size) entries
      | some head =>
        let h' ← musicListAdd h head (dName ++ [0]) musicIDBuf
        musicInitLoop musicIDBuf h' (some head) entries

/-- One round of `music_list_del`, with the node that follows. The source reads that node
through `p` after `free(p)`. -/
def musicListDelNode (h : Heap MusicInfo) (p : Addr) : Option (Heap MusicInfo × Option Addr) := do
  let m ← h.read p
  let h ← h.update (← m.prev) fun x => { x with next := m.next }
  let m ← h.read p
  let h ← h.update (← m.next) fun x => { x with prev := m.prev }
  let h ← h.update p fun x => { x with next := some p, prev := some p }
  some (h.free p,m.next)

/-- `opendir` gives NULL or the entries that `readdir` will deliver; `musicIDBuf` is what
the uninitialised buffer holds. -/
def musicInit (musicIDBuf : Bytes) (musicDir : Option (List Bytes)) :
    Option (Heap MusicInfo × Option Addr) := do
  musicInitLoop musicIDBuf .empty none (← musicDir)

def twoSongs : Option (List Bytes) := some [ascii ".",ascii "a.mp3",ascii "b.mp3"]

def links (h : Heap MusicInfo) : Links := fun a => (h.read a).map fun m => (m.next,m.prev)

theorem read_of_links {h : Heap MusicInfo} {a : Addr} {x : Option Addr × Option Addr}
    (hx : links h a = some x) : ∃ m, h.read a = some m ∧ m.next = x.1 ∧ m.prev = x.2 := by
  unfold links at hx
  cases hr : h.read a with
  | none => simp [hr] at hx
  | some m =>
    simp only [hr,Option.map_some,Option.some.injEq] at hx
    exact ⟨m,rfl,by simp [← hx],by simp [← hx]⟩

theorem links_live {h : Heap MusicInfo} {a : Addr} : links h a ≠ none ↔ h.read a ≠ none := by
  simp [links]

theorem links_malloc (h : Heap MusicInfo) :
    links (h.malloc .raw) = fun b => if b = h.size then some (none,none) else links h b := by
  funext b
  unfold links
  rw [Heap.read_malloc_eq]
  split <;> rfl

theorem links_update {h h' : Heap MusicInfo} {a : Addr} {f : MusicInfo → MusicInfo}
    {g : Option Addr × Option Addr → Option Addr × Option Addr}
    (hu : h.update a f = some h') (hf : ∀ m, ((f m).next,(f m).prev) = g (m.next,m.prev)) :
    links h' = fun b => if b = a then (links h b).map g else links h b := by
  funext b
  exact Heap.map_read_update (v := fun m => (m.next,m.prev)) hu hf b

theorem links_size (h : Heap MusicInfo) : links h h.size = none := by
  by_contra hc
  obtain ⟨x,hx⟩ := Option.ne_none_iff_exists'.mp hc
  obtain ⟨m,hm,-⟩ := read_of_links hx
  exact absurd (Heap.lt_size hm) (Nat.lt_irrefl _)

theorem musicListAdd_links {h h' : Heap MusicInfo} {musicNode p : Addr} {name path : Bytes}
    (hprev : prev (links h) musicNode = some p) (hlive : links h p ≠ none)
    (ha : musicListAdd h musicNode name path = some h') :
    links h' = insert (links h) h.size musicNode p := by
  unfold musicListAdd at ha
  simp only [Option.bind_eq_bind,Option.bind_eq_some_iff] at ha
  obtain ⟨m,hm,p',hp,h₁,h1,h₂,h2,h₃,h3,h₄,h4,h5⟩ := ha
  have hne : musicNode ≠ h.size := fun he => live_of_prev hprev (he ▸ links_size h)
  have hpne : p ≠ h.size := fun he => hlive (he ▸ links_size h)
  have hread : h.read musicNode = some m := by simpa [Heap.read_malloc_eq,hne] using hm
  obtain rfl : p' = p := by simpa [prev,links,hread,hp] using hprev
  have l1 := links_update (g := fun x => x) h1 (fun _ => rfl)
  have l2 := links_update (g := fun x => (x.1,some h.size)) h2 (fun _ => rfl)
  have l3 := links_update (g := fun x => (some musicNode,x.2)) h3 (fun _ => rfl)
  have l4 := links_update (g := fun x => (some h.size,x.2)) h4 (fun _ => rfl)
  have l5 := links_update (g := fun x => (x.1,some p')) h5 (fun _ => rfl)
  funext b
  rw [l5,l4,l3,l2,l1,links_malloc]
  by_cases hb : b = h.size
  · simp [LinkedRing.insert,hb,hpne.symm,hne.symm]
  · cases hx : links h b with
    | none => simp [LinkedRing.insert,hb,hx]
    | some x => by_cases hbp : b = p' <;> by_cases hbm : b = musicNode <;> simp_all [LinkedRing.insert]

theorem musicHeadInit_links {h h' : Heap MusicInfo} {musicNode : Addr} {name path : Bytes}
    (hi : musicHeadInit (h.malloc .raw) musicNode name path = some h')
    (hn : musicNode = h.size) :
    links h' = fun b => if b = musicNode then some (some musicNode,some musicNode)
      else links h b := by
  subst hn
  have l1 := links_update (g := fun _ => (some h.size,some h.size)) hi (fun _ => rfl)
  funext b
  rw [l1,links_malloc]
  by_cases hb : b = h.size <;> simp [hb]

theorem links_free (h : Heap MusicInfo) (p : Addr) :
    links (h.free p) = fun b => if b = p then none else links h b := by
  funext b
  unfold links
  by_cases hb : b = p
  · simp [hb]
  · simp [hb,Heap.read_free_of_ne h hb]

theorem musicListDelNode_links {h h' : Heap MusicInfo} {p m : Addr} {next : Option Addr}
    (hl : Linked (links h)) (hm : prev (links h) p = some m) (hmp : m ≠ p)
    (hd : musicListDelNode h p = some (h',next)) :
    ∃ n, next = some n ∧ n ≠ p ∧ links h p = some (some n,some m) ∧
      links h' = unlink (links h) p n m := by
  obtain ⟨n,m',hp,hnp,hback⟩ := hl p (live_of_prev hm)
  obtain rfl : m' = m := by
    simp only [prev,hp,Option.bind_some,Option.some.injEq] at hm
    exact hm
  have hn : n ≠ p := by
    rintro rfl
    rw [hm] at hnp
    exact hmp (Option.some.inj hnp)
  unfold musicListDelNode at hd
  simp only [Option.bind_eq_bind,Option.bind_eq_some_iff,Option.some.injEq,Prod.mk.injEq] at hd
  obtain ⟨x,hx,q,hq,h₁,h1,y,hy,r,hr,h₂,h2,h₃,h3,rfl,rfl⟩ := hd
  have hlx : links h p = some (x.next,x.prev) := by simp [links,hx]
  rw [hlx] at hp
  simp only [Option.some.injEq,Prod.mk.injEq] at hp
  obtain rfl : q = m' := by simpa [hq] using hp.2
  have hly : links h₁ p = some (y.next,y.prev) := by simp [links,hy]
  have l1 := links_update (g := fun z => (some n,z.2)) h1 (fun _ => by simp [hp.1])
  rw [l1] at hly
  simp only [hmp.symm,if_false,hlx,Option.some.injEq,Prod.mk.injEq] at hly
  obtain rfl : r = n := by
    rw [← hly.1,hp.1] at hr
    exact (Option.some.inj hr).symm
  have l2 := links_update (g := fun z => (z.1,some q)) h2 (fun _ => by simp [← hly.2,hp.2])
  have l3 := links_update (g := fun _ => (some p,some p)) h3 (fun _ => rfl)
  refine ⟨r,hly.1 ▸ hp.1,hn,by rw [hlx,hp.1,hp.2],?_⟩
  funext b
  rw [links_free,l3,l2,l1]
  by_cases hb : b = p
  · simp [unlink,hb]
  · cases hz : links h b with
    | none => simp [unlink,hb,hz]
    | some z => by_cases hbq : b = q <;> by_cases hbr : b = r <;> simp_all [unlink]

structure Playlist (h : Heap MusicInfo) (musicHead : Addr) : Prop where
  linked : Linked (links h)
  live : links h musicHead ≠ none

theorem Playlist.add {h h' : Heap MusicInfo} {musicHead : Addr} {name path : Bytes}
    (hw : Playlist h musicHead) (ha : musicListAdd h musicHead name path = some h') :
    Playlist h' musicHead := by
  obtain ⟨n,p,hnp,-,hback⟩ := hw.linked musicHead hw.live
  have hp : prev (links h) musicHead = some p := by simp [prev,hnp]
  have hl := musicListAdd_links hp (live_of_next hback) ha
  have hne : musicHead ≠ h.size := fun he => hw.live (he ▸ links_size h)
  refine ⟨hl ▸ insert_linked hw.linked (links_size h) hp,?_⟩
  rw [hl]
  simpa [LinkedRing.insert,hne] using hw.live

theorem Playlist.first {h h' : Heap MusicInfo} {name path : Bytes} (hl : Linked (links h))
    (hi : musicHeadInit (h.malloc .raw) h.size name path = some h') : Playlist h' h.size := by
  have hk := musicHeadInit_links hi rfl
  refine ⟨?_,by simp [hk]⟩
  rw [hk]
  exact ring_linked hl (links_size h)

theorem musicInitLoop_playlist {musicIDBuf : Bytes} {h h' : Heap MusicInfo}
    {musicHead musicHead' : Option Addr} {entries : List Bytes} (hl : Linked (links h))
    (hw : ∀ a, musicHead = some a → Playlist h a)
    (hi : musicInitLoop musicIDBuf h musicHead entries = some (h',musicHead')) :
    ∀ a, musicHead' = some a → Playlist h' a := by
  induction entries generalizing musicIDBuf h musicHead with
  | nil =>
    simp only [musicInitLoop,Option.some.injEq,Prod.mk.injEq] at hi
    obtain ⟨rfl,rfl⟩ := hi
    exact hw
  | cons dName entries ih =>
    unfold musicInitLoop at hi
    split at hi
    · exact ih hl hw hi
    · cases musicHead with
      | none =>
        simp only [Option.bind_eq_bind,Option.bind_eq_some_iff] at hi
        obtain ⟨buf,-,h₁,hadd,hrest⟩ := hi
        have hf := Playlist.first hl hadd
        exact ih hf.linked (fun a ha => Option.some.inj ha ▸ hf) hrest
      | some head =>
        simp only [Option.bind_eq_bind,Option.bind_eq_some_iff] at hi
        obtain ⟨buf,-,h₁,hadd,hrest⟩ := hi
        have hf := (hw head rfl).add hadd
        exact ih hf.linked (fun a ha => Option.some.inj ha ▸ hf) hrest

theorem musicInit_playlist {musicIDBuf : Bytes} {dir : Option (List Bytes)}
    {h : Heap MusicInfo} {musicHead : Addr}
    (hi : musicInit musicIDBuf dir = some (h,some musicHead)) : Playlist h musicHead := by
  cases dir with
  | none => simp [musicInit] at hi
  | some entries =>
    have hl : Linked (links .empty) := by
      intro a ha
      simp [links,Heap.read,Heap.empty] at ha
    exact musicInitLoop_playlist hl (by simp) hi musicHead rfl

end IntelligentAcoustics.Music
