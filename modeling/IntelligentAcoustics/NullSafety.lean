import IntelligentAcoustics.AutoShutdown
import IntelligentAcoustics.MusicListDel

/-!
NULL pointers from `MusicInit` to `auto_fini`: what becomes of a music directory that is
missing or has no song.
-/

set_option autoImplicit false

namespace IntelligentAcoustics.Music
open Transition BlockHeap LinkedRing

def AplayPc.derefsNull : AplayPc → Bool
  | .follow _ p | .play _ p => p.isNone
  | .switch _ | .setPause | .cont | .clearPause | .load _ | .store _ _ | .loadPlay _ => false

/-- What `opendir` gave is read, commands are handed to `aplay_cmd` and `auto_fini` deletes
the list, all without a read through NULL. -/
structure NullSafe (musicIDBuf : Bytes) (musicDir : Option (List Bytes)) : Prop where
  readdir : musicDir ≠ none
  aplay : ∀ h musicHead as s, musicInit musicIDBuf musicDir = some (h,musicHead) →
    run controlStep ⟨Player.init h musicHead,none⟩ as = .next s →
    ∀ pc, s.aplay = some pc → pc.derefsNull = false
  fini : ∀ h musicHead as s, musicInit musicIDBuf musicDir = some (h,musicHead) →
    run controlStep ⟨Player.init h musicHead,none⟩ as = .next s → s.aplay = none →
    ∀ rounds, musicListDel rounds s.player.heap s.player.musicHead ≠ some (.error .null)

structure Alive (h : Heap MusicInfo) (head : Addr) (s : Control) : Prop where
  heap : s.player.heap = h
  headIs : s.player.musicHead = some head
  flag : LiveRef h s.player.musicFlag
  aplay : ∀ pc, s.aplay = some pc → pc.Live h

section
variable {h : Heap MusicInfo} {head : Addr} {s s' : Control}

theorem Alive.step (hl : Linked (links h)) (ha : Alive h head s) {a : Action}
    (hs : controlStep s a = .next s') : Alive h head s' := by
  obtain ⟨rfl,hhead,hflag,hpcs⟩ := ha
  cases a with
  | command apcmd =>
    obtain ⟨-,rfl⟩ := command_next hs
    exact ⟨rfl,hhead,hflag,by simp [AplayPc.Live]⟩
  | step =>
    obtain ⟨pc,hpc,hr⟩ := step_next hs
    obtain ⟨hheap,hmh,hflag',hpcs'⟩ := aplayCmd_live hl hflag (hpcs pc hpc) hr
    exact ⟨hheap,hmh.trans hhead,hflag',hpcs'⟩
  | exit i =>
    obtain ⟨-,rfl⟩ := exit_next hs
    exact ⟨rfl,hhead,hflag,hpcs⟩

theorem alive_init (hw : Playlist h head) : Alive h head ⟨Player.init h (some head),none⟩ :=
  ⟨rfl,rfl,⟨head,rfl,links_live.mp hw.live⟩,by simp⟩

theorem AplayPc.Live.derefsNull {pc : AplayPc} (hl : pc.Live h) : pc.derefsNull = false := by
  cases pc with
  | follow apcmd p | play apcmd p =>
    obtain ⟨a,rfl,-⟩ := hl
    rfl
  | switch apcmd | setPause | cont | clearPause | load apcmd | store apcmd p | loadPlay apcmd => rfl

theorem musicListDel_ne_null (hw : Playlist h head) (rounds : Nat) :
    musicListDel rounds h (some head) ≠ some (.error .null) := by
  obtain ⟨n,p,hlink,hn,-⟩ := hw.linked head hw.live
  obtain ⟨m,hm,hmn,-⟩ := read_of_links hlink
  obtain ⟨n',q,hlink',hn',hq⟩ := hw.linked n (live_of_prev hn)
  obtain ⟨h',hbody,hfree⟩ := musicListDelBody_ok hlink' (live_of_prev hn') (live_of_next hq)
  simp only [musicListDel,load_some hm,hmn]
  cases rounds with
  | zero => simp [musicListDelLoop]
  | succ rounds =>
    simp only [musicListDelLoop,hbody]
    split
    · simp
    · simp [load,hfree]

/-- Nothing reads through NULL exactly when `opendir` succeeds and there is a song. -/
theorem null_safe_iff (musicIDBuf : Bytes) (musicDir : Option (List Bytes)) :
    NullSafe musicIDBuf musicDir ↔ ∃ entries, musicDir = some entries ∧ songs entries ≠ [] := by
  constructor
  · intro h
    obtain ⟨entries,rfl⟩ := Option.ne_none_iff_exists'.mp h.readdir
    refine ⟨entries,rfl,fun hs => ?_⟩
    have hi : musicInit musicIDBuf (some entries) = some (.empty,none) := by
      simpa [musicInit] using musicInitLoop_none hs
    exact h.fini _ _ [] _ hi rfl rfl 0 rfl
  · rintro ⟨entries,rfl,hs⟩
    have alive : ∀ h musicHead as s, musicInit musicIDBuf (some entries) = some (h,musicHead) →
        run controlStep ⟨Player.init h musicHead,none⟩ as = .next s →
        ∃ head, Playlist h head ∧ Alive h head s := by
      intro h musicHead as s hi hr
      have hne : musicHead ≠ none := fun hn => hs ((musicInitLoop_head hi).mp hn).2
      obtain ⟨head,rfl⟩ := Option.ne_none_iff_exists'.mp hne
      have hw := musicInit_playlist hi
      exact ⟨head,hw,invariant_run (I := Alive h head) (fun _ _ _ ha hs => ha.step hw.linked hs)
        hr (alive_init hw)⟩
    refine ⟨by simp,fun h musicHead as s hi hr pc hpc => ?_,fun h musicHead as s hi hr _ rounds => ?_⟩
    · obtain ⟨head,-,ha⟩ := alive h musicHead as s hi hr
      exact (ha.aplay pc hpc).derefsNull
    · obtain ⟨head,hw,ha⟩ := alive h musicHead as s hi hr
      rw [ha.heap,ha.headIs]
      exact musicListDel_ne_null hw rounds

end

def noSong : List Bytes := [ascii ".",ascii ".."]

theorem null_followed : ∃ h s, musicInit (List.replicate 100 0) (some noSong) = some (h,none) ∧
    run controlStep ⟨Player.init h none,none⟩ [.command musicNext,.step,.step] = .next s ∧
    s.aplay = some (.follow musicNext none) ∧ controlStep s .step = .fault ∧
    musicListDel 1 h none = some (.error .null) ∧
    ¬ NullSafe (List.replicate 100 0) (some noSong) :=
  ⟨_,_,rfl,rfl,rfl,rfl,rfl,fun h => h.fini _ _ [] _ rfl rfl rfl 1 rfl⟩

end IntelligentAcoustics.Music
