import IntelligentAcoustics.SongRing

/-!
`music_list_del` as it stands: the loop goes on through `p->next` after `free(p)`.
-/

set_option autoImplicit false

namespace IntelligentAcoustics.Music
open BlockHeap LinkedRing

inductive Fault where
  | null | dangling
  deriving DecidableEq, Repr

def load (h : Heap MusicInfo) : Option Addr → Except Fault MusicInfo
  | none => .error .null
  | some a =>
    match h.read a with
    | none => .error .dangling
    | some m => .ok m

def store (h : Heap MusicInfo) (p : Option Addr) (f : MusicInfo → MusicInfo) :
    Except Fault (Heap MusicInfo) :=
  match p with
  | none => .error .null
  | some a =>
    match h.update a f with
    | none => .error .dangling
    | some h => .ok h

def release (h : Heap MusicInfo) : Option Addr → Except Fault (Heap MusicInfo)
  | none => .ok h
  | some a =>
    match h.read a with
    | none => .error .dangling
    | some _ => .ok (h.free a)

/-- The body of the loop of `music_list_del`. -/
def musicListDelBody (h : Heap MusicInfo) (p : Option Addr) : Except Fault (Heap MusicInfo) := do
  let m ← load h p
  let h ← store h m.prev fun x => { x with next := m.next }
  let m ← load h p
  let h ← store h m.next fun x => { x with prev := m.prev }
  let h ← store h p fun x => { x with next := p, prev := p }
  release h p

structure Deleted where
  heap : Heap MusicInfo
  freed : List Addr
  deriving DecidableEq, Repr

def musicListDelLoop (musicNode : Option Addr) :
    Nat → Heap MusicInfo → List Addr → Option Addr → Option (Except Fault Deleted)
  | 0, _, _, _ => none
  | rounds+1, h, freed, p =>
    if p = musicNode then some (.ok ⟨h,freed⟩)
    else match musicListDelBody h p with
    | .error e => some (.error e)
    | .ok h =>
      -- p = p->next
      match load h p with
      | .error e => some (.error e)
      | .ok m => musicListDelLoop musicNode rounds h (freed ++ p.toList) m.next

def musicListDel (rounds : Nat) (h : Heap MusicInfo) (musicNode : Option Addr) :
    Option (Except Fault Deleted) :=
  match load h musicNode with
  | .error e => some (.error e)
  | .ok m => musicListDelLoop musicNode rounds h [] m.next

theorem load_some {h : Heap MusicInfo} {a : Addr} {m : MusicInfo} (hm : h.read a = some m) :
    load h (some a) = .ok m := by
  simp [load,hm]

theorem store_some {h h' : Heap MusicInfo} {a : Addr} {f : MusicInfo → MusicInfo}
    (hu : h.update a f = some h') : store h (some a) f = .ok h' := by
  simp [store,hu]

theorem release_some {h : Heap MusicInfo} {a : Addr} (hr : h.read a ≠ none) :
    release h (some a) = .ok (h.free a) := by
  obtain ⟨m,hm⟩ := Option.ne_none_iff_exists'.mp hr
  simp [release,hm]

theorem musicListDelBody_ok {h : Heap MusicInfo} {p n q : Addr}
    (hp : links h p = some (some n,some q)) (hn : links h n ≠ none) (hq : links h q ≠ none) :
    ∃ h', musicListDelBody h (some p) = .ok h' ∧ h'.read p = none := by
  obtain ⟨m,hm,hmn,hmq⟩ := read_of_links hp
  obtain ⟨h₁,h1⟩ := Heap.update_live (fun x => { x with next := m.next }) (links_live.mp hq)
  have l1 := links_update (g := fun x => (some n,x.2)) h1 (fun _ => by rw [hmn])
  have hp1 : links h₁ p = some (some n,some q) := by
    rw [l1]
    simp [hp]
  obtain ⟨m',hm',hmn',hmq'⟩ := read_of_links hp1
  obtain ⟨h₂,h2⟩ := Heap.update_live (fun x => { x with prev := m'.prev })
    ((Heap.read_update_ne_none h1).mpr (links_live.mp hn))
  have hlive : h₂.read p ≠ none := (Heap.read_update_ne_none h2).mpr (by simp [hm'])
  obtain ⟨h₃,h3⟩ := Heap.update_live (fun x => { x with next := some p, prev := some p }) hlive
  have hrel := release_some ((Heap.read_update_ne_none h3).mpr hlive)
  refine ⟨h₃.free p,?_,by simp⟩
  simp only [musicListDelBody,load_some hm,bind,Except.bind,hmq,store_some h1,load_some hm',hmn',
    store_some h2,store_some h3,hrel]

theorem musicListDelBody_of_node {h h' : Heap MusicInfo} {p : Addr} {next : Option Addr}
    (hd : musicListDelNode h p = some (h',next)) : musicListDelBody h (some p) = .ok h' := by
  unfold musicListDelNode at hd
  simp only [Option.bind_eq_bind,Option.bind_eq_some_iff,Option.some.injEq,Prod.mk.injEq] at hd
  obtain ⟨x,hx,q,hq,h₁,h1,y,hy,n,hn,h₂,h2,h₃,h3,rfl,rfl⟩ := hd
  have hp₂ : h₂.read p ≠ none := (Heap.read_update_ne_none h2).mpr (by simp [hy])
  have hrel := release_some ((Heap.read_update_ne_none h3).mpr hp₂)
  simp only [musicListDelBody,load_some hx,bind,Except.bind,hq,store_some h1,load_some hy,hn,
    store_some h2,store_some h3,hrel]

/-- The song list is deleted but for its head, each node freed once. -/
def DeletesRest (h : Heap MusicInfo) (nodes : List Addr) : Prop :=
  ∃ rounds d, musicListDel rounds h (some (nth nodes 0)) = some (.ok d) ∧
    d.freed.Perm nodes.tail ∧
    links d.heap (nth nodes 0) = some (some (nth nodes 0),some (nth nodes 0))

section
variable {h : Heap MusicInfo} {nodes : List Addr}

theorem musicListDel_head (hr : Ring (links h) nodes) (rounds : Nat) :
    musicListDel rounds h (some (nth nodes 0)) =
      musicListDelLoop (some (nth nodes 0)) rounds h [] (some (nth nodes 1)) := by
  obtain ⟨m,hm,hn,-⟩ := read_of_links (hr.links 0)
  simp only [musicListDel,load_some hm,hn]
  rfl

/-- With a second node the first round frees it, and then the loop reads it. -/
theorem musicListDel_dangling (hr : Ring (links h) nodes) (hk : nodes.length ≠ 1) (rounds : Nat) :
    musicListDel (rounds+1) h (some (nth nodes 0)) = some (.error .dangling) := by
  have hpos := hr.length_pos
  have hne : nth nodes 1 ≠ nth nodes 0 := by
    intro he
    have hz := nth_inj (i := 1) (j := 0) hr.nodup (by omega) (by omega) he
    omega
  obtain ⟨h',hbody,hfree⟩ := musicListDelBody_ok (hr.links 1)
    (hr.live (nth_mem hr.nonempty _)) (hr.live (nth_mem hr.nonempty _))
  rw [musicListDel_head hr]
  simp [musicListDelLoop,hne,hbody,load,hfree]

/-- `music_list_del` does what it is for on the list of one song only. -/
theorem music_list_del_iff (hr : Ring (links h) nodes) :
    DeletesRest h nodes ↔ nodes.length = 1 := by
  constructor
  · rintro ⟨rounds,d,hd,-⟩
    by_contra hk
    cases rounds with
    | zero => simp [musicListDel_head hr,musicListDelLoop] at hd
    | succ rounds => simp [musicListDel_dangling hr hk] at hd
  · intro hk
    obtain ⟨a,rfl⟩ := List.length_eq_one_iff.mp hk
    refine ⟨1,⟨h,[]⟩,?_,by simp,?_⟩
    · rw [musicListDel_head hr]
      simp [musicListDelLoop]
    · simpa using hr.links 0

end

theorem music_list_del_iff_oneSong : ∃ h, musicInit (List.replicate 100 0) (some [ascii "a.mp3"]) =
    some (h,some 0) ∧ DeletesRest h [0] :=
  ⟨_,rfl,(music_list_del_iff (Ring.single rfl)).mpr rfl⟩

theorem freed_node_followed :
    musicInit (List.replicate 100 0) twoSongs = some (twoRing,some 0) ∧
      Ring (links twoRing) [0,1] ∧ musicListDel 2 twoRing (some 0) = some (.error .dangling) ∧
      ¬ DeletesRest twoRing [0,1] := by
  refine ⟨rfl,twoRing_ring,rfl,?_⟩
  rintro ⟨rounds,d,hd,-⟩
  cases rounds with
  | zero => simp [musicListDel_head twoRing_ring,musicListDelLoop] at hd
  | succ rounds => simp [musicListDel_dangling twoRing_ring (by decide)] at hd

end IntelligentAcoustics.Music
