import IntelligentAcoustics.CommandLoops

/-!
Which nodes the calls of `aplay_cmd` can touch while `auto_fini` deletes the song list.
-/

set_option autoImplicit false

namespace IntelligentAcoustics.Music
open Transition BlockHeap LinkedRing

def AplayPc.dereferenced : AplayPc → Option Addr
  | .follow _ p | .play _ p => p
  | .switch _ | .setPause | .cont | .clearPause | .load _ | .store _ _ | .loadPlay _ => none

def AplayPc.holds : AplayPc → Option Addr
  | .follow _ p | .store _ p | .play _ p => p
  | .switch _ | .setPause | .cont | .clearPause | .load _ | .loadPlay _ => none

def NoFreedDeref (s : Auto) : Prop :=
  ∀ pc ∈ s.calls, ∀ a, pc.dereferenced = some a → s.player.heap.read a ≠ none

def AutoFiniPc.deletes : AutoFiniPc → Option Addr
  | .delete p => p
  | .idle | .musicDel | .join | .returned => none

/-- `auto_fini` deletes a node only when `music_flag` is another one and no call of
`aplay_cmd` holds it. -/
def DeletesUnused (s : Auto) (a : AutoAction) : Prop :=
  a = .fini → ∀ p ∈ s.fini.deletes, some p ≠ s.player.musicHead →
    s.player.musicFlag ≠ some p ∧ ∀ pc ∈ s.calls, pc.holds ≠ some p

instance (s : Auto) (a : AutoAction) : Decidable (DeletesUnused s a) :=
  inferInstanceAs (Decidable (_ → _))

def LiveRef (h : Heap MusicInfo) (p : Option Addr) : Prop := ∃ a, p = some a ∧ h.read a ≠ none

def AplayPc.Live (h : Heap MusicInfo) : AplayPc → Prop
  | .follow _ p | .store _ p | .play _ p => LiveRef h p
  | .switch _ | .setPause | .cont | .clearPause | .load _ | .loadPlay _ => True

theorem AplayPc.Live.holds {h : Heap MusicInfo} {pc : AplayPc} (hl : pc.Live h) {a : Addr}
    (ha : pc.holds = some a) : h.read a ≠ none := by
  cases pc <;> simp only [AplayPc.holds,reduceCtorEq] at ha
  all_goals
    obtain ⟨b,rfl,hb⟩ := hl
    simp only [Option.some.injEq] at ha
    exact ha ▸ hb

theorem neighbours_live {h : Heap MusicInfo} (hl : Linked (links h)) {a : Addr} {m : MusicInfo}
    (hm : h.read a = some m) : LiveRef h m.next ∧ LiveRef h m.prev := by
  have hv : links h a = some (m.next,m.prev) := by simp [links,hm]
  obtain ⟨n,q,hnq,hn,hq⟩ := hl a (by simp [hv])
  rw [hv] at hnq
  simp only [Option.some.injEq,Prod.mk.injEq] at hnq
  exact ⟨⟨n,hnq.1,links_live.mp (live_of_prev hn)⟩,⟨q,hnq.2,links_live.mp (live_of_next hq)⟩⟩

theorem aplayCmd_live {s s' : Player} {pc : AplayPc} {o : Option AplayPc}
    (hl : Linked (links s.heap)) (hf : LiveRef s.heap s.musicFlag) (hp : pc.Live s.heap)
    (h : aplayCmd s pc = .next (s',o)) :
    s'.heap = s.heap ∧ s'.musicHead = s.musicHead ∧ LiveRef s.heap s'.musicFlag ∧
      ∀ pc', o = some pc' → pc'.Live s.heap := by
  cases pc with
  | switch apcmd =>
    obtain ⟨-,rfl,rfl⟩ | ⟨-,rfl,rfl⟩ | ⟨-,rfl,rfl⟩ | ⟨-,rfl,rfl⟩ | ⟨-,rfl,rfl⟩ := switch_next h
    · exact ⟨rfl,rfl,hf,by simp [AplayPc.Live]⟩
    · refine ⟨rfl,rfl,hf,fun pc' hpc => ?_⟩
      simp only [Option.some.injEq] at hpc
      subst hpc
      split <;> trivial
    · exact ⟨rfl,rfl,hf,by simp [AplayPc.Live]⟩
    · exact ⟨rfl,rfl,hf,by simp⟩
    · exact ⟨rfl,rfl,hf,by simp⟩
  | setPause | cont | clearPause =>
    obtain ⟨rfl,rfl⟩ := Outcome.next_unique rfl h
    exact ⟨rfl,rfl,hf,by simp [AplayPc.Live]⟩
  | load apcmd | loadPlay apcmd =>
    obtain ⟨rfl,rfl⟩ := Outcome.next_unique rfl h
    exact ⟨rfl,rfl,hf,by simpa [AplayPc.Live] using hf⟩
  | follow apcmd p =>
    obtain ⟨rfl,a,m,-,hm,rfl⟩ := follow_next h
    have hn := neighbours_live hl hm
    refine ⟨rfl,rfl,hf,fun pc' hpc => ?_⟩
    simp only [Option.some.injEq] at hpc
    subst hpc
    show LiveRef s'.heap (if apcmd = musicNext then m.next else m.prev)
    split
    · exact hn.1
    · exact hn.2
  | store apcmd p =>
    obtain ⟨rfl,rfl⟩ := Outcome.next_unique rfl h
    exact ⟨rfl,rfl,hp,by simp [AplayPc.Live]⟩
  | play apcmd p =>
    obtain ⟨rfl,a,m,madplay,-,-,-,rfl⟩ := play_next h
    exact ⟨rfl,rfl,hf,by simp⟩

/-- Everything that a call can still reach is in the list, and the deletion works its way
round from `music_head`. -/
structure Sound (head : Addr) (s : Auto) : Prop where
  headIs : s.player.musicHead = some head
  list : Playlist s.player.heap head
  flag : LiveRef s.player.heap s.player.musicFlag
  calls : ∀ pc ∈ s.calls, pc.Live s.player.heap
  deleting : ∀ p, s.fini = .delete p → ∃ a, p = some a ∧ prev (links s.player.heap) a = some head

theorem Sound.noFreedDeref {head : Addr} {s : Auto} (h : Sound head s) : NoFreedDeref s := by
  intro pc hpc a ha
  refine (h.calls pc hpc).holds ?_
  cases pc <;> simp_all [AplayPc.dereferenced,AplayPc.holds]

section
variable {head : Addr} {s s' : Auto}

theorem Sound.aplay (h : Sound head s) {pc : AplayPc} (hpc : pc ∈ s.calls) {player : Player}
    {o : Option AplayPc} (hs : aplayCmd s.player pc = .next (player,o))
    (hp : s'.player = player) (hf : s'.fini = s.fini)
    (hc : ∀ c ∈ s'.calls, c ∈ s.calls ∨ o = some c) : Sound head s' := by
  obtain ⟨hheap,hhead,hflag,ho⟩ := aplayCmd_live h.list.linked h.flag (h.calls pc hpc) hs
  subst hp
  refine ⟨hhead.trans h.headIs,hheap ▸ h.list,hheap ▸ hflag,fun c hm => ?_,fun p hd => ?_⟩
  · rw [hheap]
    rcases hc c hm with hc | hc
    · exact h.calls c hc
    · exact ho c hc
  · rw [hheap]
    exact h.deleting p (hf ▸ hd)

theorem Sound.control (h : Sound head s) (hp : s'.player = s.player)
    (hf : ∀ p, s'.fini = .delete p → s.fini = .delete p)
    (hc : ∀ c ∈ s'.calls, c ∈ s.calls ∨ ∃ apcmd, c = .switch apcmd) : Sound head s' := by
  refine ⟨hp ▸ h.headIs,hp ▸ h.list,hp ▸ h.flag,fun c hm => ?_,fun p hd => ?_⟩
  · rw [hp]
    rcases hc c hm with hc | ⟨apcmd,rfl⟩
    · exact h.calls c hc
    · trivial
  · rw [hp]
    exact h.deleting p (hf p hd)

theorem Sound.process (h : Sound head s) {pc : AutoProcessPc}
    (hpc : ∀ c, pc = .command c → ∃ apcmd, c = .switch apcmd) :
    Sound head { s with process := pc } := by
  refine h.control rfl (fun p hp => hp) fun c hc => ?_
  rcases mem_calls.mp hc with hc | hc
  · exact .inl (mem_calls_main hc)
  · exact .inr (hpc c hc)

theorem LiveRef.unlink {h h' : Heap MusicInfo} {p n m : Addr} {q : Option Addr}
    (hl : links h' = unlink (links h) p n m) (hr : LiveRef h q) (hq : q ≠ some p) :
    LiveRef h' q := by
  obtain ⟨a,rfl,ha⟩ := hr
  refine ⟨a,rfl,links_live.mp ?_⟩
  have hap : a ≠ p := fun he => hq (he ▸ rfl)
  simpa [hl,LinkedRing.unlink,hap] using links_live.mpr ha

theorem AplayPc.Live.unlink {h h' : Heap MusicInfo} {p n m : Addr} {pc : AplayPc}
    (hl : links h' = LinkedRing.unlink (links h) p n m) (hp : pc.Live h)
    (hq : pc.holds ≠ some p) : pc.Live h' := by
  cases pc with
  | follow apcmd q | store apcmd q | play apcmd q => exact LiveRef.unlink hl hp hq
  | switch | setPause | cont | clearPause | load | loadPlay => trivial

theorem Sound.delete (h : Sound head s) {p : Addr} {next : Option Addr}
    {heap : Heap MusicInfo} (hg : DeletesUnused s .fini) (hf : s.fini = .delete (some p))
    (hp : some p ≠ s.player.musicHead) (hd : musicListDelNode s.player.heap p = some (heap,next)) :
    Sound head { s with player := { s.player with heap := heap }, fini := .delete next } := by
  obtain ⟨hflag,hheld⟩ := hg rfl p (by simp [hf,AutoFiniPc.deletes]) hp
  obtain ⟨a,ha,hprev⟩ := h.deleting _ hf
  obtain rfl := Option.some.inj ha
  have hne : head ≠ p := fun he => hp (he ▸ h.headIs.symm)
  obtain ⟨n,rfl,hn,hlink,hk⟩ := musicListDelNode_links h.list.linked hprev hne hd
  obtain ⟨n',m',hp',hnp,-⟩ := h.list.linked p (by simp [hlink])
  rw [hlink] at hp'
  simp only [Option.some.injEq,Prod.mk.injEq] at hp'
  obtain ⟨rfl,rfl⟩ := hp'
  refine ⟨h.headIs,⟨?_,?_⟩,h.flag.unlink hk hflag,fun pc hpc => ?_,fun q hq => ?_⟩
  · show Linked (links heap)
    rw [hk]
    exact unlink_linked h.list.linked hlink hn
  · show links heap head ≠ none
    simpa [hk,unlink,hne] using h.list.live
  · exact (h.calls pc hpc).unlink hk (hheld pc hpc)
  · simp only [AutoFiniPc.delete.injEq] at hq
    refine ⟨n,hq.symm,?_⟩
    show prev (links heap) n = some head
    rw [hk,prev_unlink hn (live_of_prev hnp),if_pos rfl]

theorem Sound.fini (h : Sound head s) (hg : DeletesUnused s .fini)
    (hs : autoFini s = .next s') : Sound head s' := by
  obtain ⟨-,rfl⟩ | ⟨-,a,m,ha,hr,rfl⟩ | ⟨-,rfl⟩ | ⟨p,heap,next,hf,hp,hd,rfl⟩ | ⟨-,-,rfl⟩ :=
    autoFini_next hs
  · exact h.control rfl (by simp) fun c hc => .inl hc
  · obtain rfl := Option.some.inj (h.headIs.symm.trans ha)
    obtain ⟨⟨n,hn,-⟩,-⟩ := neighbours_live h.list.linked hr
    refine ⟨h.headIs,h.list,h.flag,h.calls,fun p hp => ?_⟩
    simp only [AutoFiniPc.delete.injEq] at hp
    obtain ⟨b,c,hbc,hb,-⟩ := h.list.linked head h.list.live
    refine ⟨n,hp ▸ hn,?_⟩
    simp only [links,hr,Option.map_some,hn,Option.some.injEq,Prod.mk.injEq] at hbc
    exact hbc.1 ▸ hb
  · exact h.control rfl (by simp) fun c hc => .inl hc
  · exact h.delete hg hf hp hd
  · exact h.control rfl (by simp) fun c hc => .inl hc

theorem Sound.step (h : Sound head s) {a : AutoAction} (hg : DeletesUnused s a)
    (hs : autoStep s a = .next s') : Sound head s' := by
  cases a with
  | mainReceive recvbuf =>
    obtain ⟨-,rfl⟩ := mainReceive_next hs
    refine h.control rfl (fun p hp => hp) fun c hc => ?_
    rcases mem_calls.mp hc with hc | hc
    · obtain ⟨apcmd,-,rfl⟩ := Option.map_eq_some_iff.mp hc
      exact .inr ⟨apcmd,rfl⟩
    · exact .inl (mem_calls_process hc)
  | mainStep =>
    obtain ⟨pc,player,o,hpc,hr,rfl⟩ := mainStep_next hs
    refine h.aplay (mem_calls_main hpc) hr rfl rfl fun c hc => ?_
    rcases mem_calls.mp hc with hc | hc
    · exact .inr hc
    · exact .inl (mem_calls_process hc)
  | processCreate serverSocket =>
    obtain ⟨-,rfl⟩ := processCreate_next hs
    refine h.process fun c hc => ?_
    split at hc <;> simp at hc
  | processTest =>
    obtain ⟨-,rfl⟩ := processTest_next hs
    refine h.process fun c hc => ?_
    split at hc <;> simp at hc
  | processReceive recvbuf =>
    obtain ⟨-,rfl⟩ := processReceive_next hs
    refine h.process fun c hc => ?_
    obtain ⟨apcmd,-,rfl⟩ := Option.map_eq_some_iff.mp (AutoProcessPc.after_eq_command.mp hc)
    exact ⟨apcmd,rfl⟩
  | processStep =>
    obtain ⟨pc,player,o,hpc,hr,rfl⟩ := processStep_next hs
    refine h.aplay (mem_calls_process hpc) hr rfl rfl fun c hc => ?_
    rcases mem_calls.mp hc with hc | hc
    · exact .inl (mem_calls_main hc)
    · exact .inr (AutoProcessPc.after_eq_command.mp hc)
  | fini => exact h.fini hg hs

end

theorem sound_init {h : Heap MusicInfo} {head : Addr} (hw : Playlist h head) :
    Sound head (Auto.init h (some head)) :=
  ⟨rfl,hw,⟨head,rfl,links_live.mp hw.live⟩,by simp [Auto.init,Auto.calls,AutoProcessPc.call],
    by simp [Auto.init]⟩

/-- Whatever `MusicInit` found, over every schedule of the three threads in which only
unused nodes are deleted: no freed node is dereferenced. -/
theorem shutdown_keeps_songs {musicIDBuf : Bytes} {dir : Option (List Bytes)}
    {h : Heap MusicInfo} {head : Addr} (hi : musicInit musicIDBuf dir = some (h,some head))
    {as : List AutoAction} (hg : Along autoStep DeletesUnused (Auto.init h (some head)) as) :
    Always autoStep NoFreedDeref (Auto.init h (some head)) as :=
  always_of_along (I := Sound head) (fun _ _ _ hi hg hs => hi.step hg hs)
    (fun _ hi => hi.noFreedDeref) (sound_init (musicInit_playlist hi)) hg

def deleteUnused : List AutoAction :=
  [.processCreate 3,.processTest,.processReceive (some (ascii "1")),.processStep,.processStep,
   .processStep,.fini,.fini,.fini,.fini,.processTest,.fini,
   .mainReceive (ascii "1"),.mainStep,.mainStep,.mainStep]

theorem shutdown_keeps_songs_deleteUnused : ∃ h head s,
    musicInit (List.replicate 100 0) twoSongs = some (h,some head) ∧
      run autoStep (Auto.init h (some head)) deleteUnused = .next s ∧ s.fini = .returned ∧
      s.player.heap.read 1 = none ∧
      Always autoStep NoFreedDeref (Auto.init h (some head)) deleteUnused :=
  ⟨_,_,_,rfl,rfl,rfl,rfl,
    shutdown_keeps_songs (show musicInit (List.replicate 100 0) twoSongs = _ from rfl) (by decide)⟩

theorem freed_flag_followed {s : Auto} {p : Addr} (hm : s.main = none)
    (hf : s.player.musicFlag = some p) (hr : s.player.heap.read p = none) :
    ∃ t, run autoStep s [.mainReceive (ascii "2"),.mainStep,.mainStep] = .next t ∧
      ¬ NoFreedDeref t := by
  refine ⟨{ s with player := { s.player with madplay := [] }, main := some (.follow musicNext p) },
    ?_,fun h => h _ (mem_calls_main rfl) p rfl hr⟩
  have h2 : received (ascii "2") = some musicNext := by decide
  simp [autoStep,hm,h2,aplayCmd,hf,musicNext,musicPause,musicPlay]

def playDeleted : List AutoAction :=
  [.mainReceive (ascii "2"),.mainStep,.mainStep,.mainStep,.mainStep,.mainStep,.mainStep,
   .fini,.fini,.fini,.mainReceive (ascii "1"),.mainStep,.mainStep]

theorem deleted_song_played : ∃ h head s,
    musicInit (List.replicate 100 0) twoSongs = some (h,some head) ∧
      run autoStep (Auto.init h (some head)) playDeleted = .next s ∧ ¬ NoFreedDeref s :=
  ⟨_,_,_,rfl,rfl,fun h => h (.play musicPlay (some 1)) (by decide) 1 rfl rfl⟩

end IntelligentAcoustics.Music
