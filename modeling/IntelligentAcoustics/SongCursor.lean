import IntelligentAcoustics.CommandEffect

/-!
Navigation by one control thread: `music_flag` is a cursor on the ring of songs that
`MUSIC_NEXT` and `MUSIC_PREV` move by one.
-/

set_option autoImplicit false

namespace IntelligentAcoustics.Music
open Transition BlockHeap LinkedRing

def moves (as : List Action) : Int :=
  as.count (.command musicNext) - as.count (.command musicPrev)

/-- `music_flag` and the pointers of the call in progress when the commands given so far,
the one in progress included, lead to position `z`. -/
def CursorAt (nodes : List Addr) (z : Int) (musicFlag : Option Addr) : Option AplayPc → Prop
  | none | some .setPause | some .cont | some .clearPause | some (.loadPlay _) =>
    musicFlag = some (nth nodes z)
  | some (.switch apcmd) => musicFlag = some (nth nodes (z - shift apcmd))
  | some (.load apcmd) => (apcmd = musicNext ∨ apcmd = musicPrev) ∧
    musicFlag = some (nth nodes (z - shift apcmd))
  | some (.follow apcmd p) => (apcmd = musicNext ∨ apcmd = musicPrev) ∧
    p = some (nth nodes (z - shift apcmd))
  | some (.store _ p) => p = some (nth nodes z)
  | some (.play _ p) => musicFlag = some (nth nodes z) ∧ p = some (nth nodes z)

structure Cursor (h : Heap MusicInfo) (nodes : List Addr) (s : Control) (z : Int) : Prop where
  heap : s.player.heap = h
  headIs : s.player.musicHead = some (nth nodes 0)
  cursor : CursorAt nodes z s.player.musicFlag s.aplay

theorem CursorAt.step {s s' : Player} {nodes : List Addr} {z : Int} {pc : AplayPc}
    {o : Option AplayPc} (hr : Ring (links s.heap) nodes)
    (hc : CursorAt nodes z s.musicFlag (some pc)) (hs : aplayCmd s pc = .next (s',o)) :
    CursorAt nodes z s'.musicFlag o := by
  cases pc with
  | switch apcmd =>
    simp only [CursorAt] at hc
    obtain ⟨rfl,rfl,rfl⟩ | ⟨rfl,rfl,rfl⟩ | ⟨hm,rfl,rfl⟩ | ⟨rfl,rfl,rfl⟩ | ⟨ho,rfl,rfl⟩ :=
      switch_next hs
    · rw [shift_eq_zero (by decide) (by decide),Int.sub_zero] at hc
      exact hc
    · rw [shift_eq_zero (by decide) (by decide),Int.sub_zero] at hc
      split <;> exact hc
    · exact ⟨hm,hc⟩
    · rw [shift_eq_zero (by decide) (by decide),Int.sub_zero] at hc
      exact hc
    · rw [shift_outside ho,Int.sub_zero] at hc
      exact hc
  | setPause | cont | clearPause =>
    obtain ⟨rfl,rfl⟩ := Outcome.next_unique rfl hs
    exact hc
  | load apcmd =>
    obtain ⟨rfl,rfl⟩ := Outcome.next_unique rfl hs
    exact hc
  | follow apcmd p =>
    obtain ⟨hm,rfl⟩ := hc
    obtain ⟨rfl,a,m,ha,hread,rfl⟩ := follow_next hs
    obtain rfl := Option.some.inj ha
    exact follow_shift hr hm hread
  | store apcmd p =>
    obtain ⟨rfl,rfl⟩ := Outcome.next_unique rfl hs
    exact hc
  | loadPlay apcmd =>
    obtain ⟨rfl,rfl⟩ := Outcome.next_unique rfl hs
    exact ⟨hc,hc⟩
  | play apcmd p =>
    obtain ⟨rfl,_,_,_,-,-,-,rfl⟩ := play_next hs
    exact hc.1

def Action.shift : Action → Int
  | .command apcmd => Music.shift apcmd
  | .step | .exit _ => 0

theorem moves_cons (a : Action) (as : List Action) : moves (a :: as) = a.shift + moves as := by
  simp only [moves,List.count_cons,Nat.cast_add,Nat.cast_ite,Nat.cast_one,Nat.cast_zero]
  cases a with
  | step | exit i =>
    simp [Action.shift]
  | command apcmd =>
    simp only [Action.shift,shift,beq_iff_eq,Action.command.injEq]
    split <;> split <;> simp_all [musicNext,musicPrev] <;> omega

variable {h : Heap MusicInfo} {nodes : List Addr} {names : List Bytes} {s s' : Control}

theorem Cursor.step {z : Int} (hr : Ring (links h) nodes) (hc : Cursor h nodes s z) {a : Action}
    (hs : controlStep s a = .next s') : Cursor h nodes s' (z + a.shift) := by
  obtain ⟨rfl,hhead,hcursor⟩ := hc
  cases a with
  | command apcmd =>
    obtain ⟨hi,rfl⟩ := command_next hs
    refine ⟨rfl,hhead,?_⟩
    rw [hi] at hcursor
    simpa [CursorAt,Action.shift] using hcursor
  | step =>
    obtain ⟨pc,hpc,hr'⟩ := step_next hs
    obtain ⟨hheap,hmh⟩ := aplayCmd_frame hr'
    rw [hpc] at hcursor
    exact ⟨hheap,hmh.trans hhead,by simpa [Action.shift] using hcursor.step hr hr'⟩
  | exit i =>
    obtain ⟨-,rfl⟩ := exit_next hs
    exact ⟨rfl,hhead,by simpa [Action.shift] using hcursor⟩

theorem Cursor.run {z : Int} (hr : Ring (links h) nodes) (hc : Cursor h nodes s z)
    {as : List Action} (hs : run controlStep s as = .next s') :
    Cursor h nodes s' (z + moves as) := by
  induction as generalizing s z with
  | nil =>
    simp only [run_nil,Outcome.next.injEq] at hs
    subst hs
    simpa [moves] using hc
  | cons a as ih =>
    simp only [run_cons,Outcome.bind_eq_next] at hs
    obtain ⟨t,ht,hrest⟩ := hs
    have hz := ih (hc.step hr ht) hrest
    rwa [Int.add_assoc,← moves_cons] at hz

theorem deref_nth {z : Int} (hr : SongRing s.player.heap nodes names) :
    ∃ m, deref s.player (some (nth nodes z)) = .next m ∧
      cString m.musicPath = songPath (nth names z) := by
  obtain ⟨m,hm,-,hc⟩ := hr.node z
  exact ⟨m,by simp [deref,hm],cString_of_cStringIn hc⟩

theorem Cursor.noFault {z : Int} (hr : SongRing h nodes names)
    (hp : ∀ dName ∈ names, Plays dName) (hc : Cursor h nodes s z) (a : Action) :
    controlStep s a ≠ .fault := by
  obtain ⟨rfl,-,hcursor⟩ := hc
  cases a with
  | command apcmd =>
    cases ha : s.aplay <;> simp [controlStep,ha]
  | exit i =>
    simp only [controlStep]
    split <;> simp
  | step =>
    cases ha : s.aplay with
    | none => simp [controlStep,ha]
    | some pc =>
      rw [ha] at hcursor
      cases pc with
      | switch apcmd =>
        simp only [controlStep,ha,aplayCmd]
        split_ifs <;> simp
      | setPause | cont | clearPause | load apcmd | store apcmd p | loadPlay apcmd =>
        simp [controlStep,ha,aplayCmd]
      | follow apcmd p =>
        obtain ⟨-,rfl⟩ := hcursor
        obtain ⟨m,hm,-⟩ := deref_nth (z := z - shift apcmd) hr
        simp [controlStep,ha,aplayCmd,hm]
      | play apcmd p =>
        obtain ⟨-,rfl⟩ := hcursor
        obtain ⟨m,hm,hpath⟩ := deref_nth (z := z) hr
        obtain ⟨madplay,hpl⟩ := Option.ne_none_iff_exists'.mp
          ((play_ne_none hpath s.player.madplay).mpr (hp _ (nth_mem hr.names_nonempty z)))
        simp [controlStep,ha,aplayCmd,hm,hpl]

theorem cursor_init (h : Heap MusicInfo) (nodes : List Addr) :
    Cursor h nodes ⟨Player.init h (some (nth nodes 0)),none⟩ 0 := ⟨rfl,rfl,rfl⟩

def AplayPc.rank : AplayPc → Nat
  | .switch _ => 6
  | .load _ => 5
  | .follow _ _ | .cont => 4
  | .store _ _ | .clearPause => 3
  | .loadPlay _ => 2
  | .play _ _ | .setPause => 1

theorem aplayCmd_rank {p p' : Player} {pc pc' : AplayPc}
    (hs : aplayCmd p pc = .next (p',some pc')) : pc'.rank < pc.rank := by
  cases pc with
  | switch apcmd =>
    obtain ⟨-,-,ho⟩ | ⟨-,-,ho⟩ | ⟨-,-,ho⟩ | ⟨-,-,ho⟩ | ⟨-,-,ho⟩ := switch_next hs
    · obtain rfl := Option.some.inj ho
      simp [AplayPc.rank]
    · obtain rfl := Option.some.inj ho
      split <;> simp [AplayPc.rank]
    · obtain rfl := Option.some.inj ho
      simp [AplayPc.rank]
    · simp at ho
    · simp at ho
  | setPause => simp [aplayCmd] at hs
  | cont | clearPause | load apcmd | store apcmd q | loadPlay apcmd =>
    obtain ⟨-,ho⟩ := Outcome.next_unique rfl hs
    obtain rfl := Option.some.inj ho
    simp [AplayPc.rank]
  | follow apcmd q =>
    obtain ⟨-,_,_,-,-,ho⟩ := follow_next hs
    obtain rfl := Option.some.inj ho
    simp [AplayPc.rank]
  | play apcmd q => exact absurd (play_next hs).1 (by simp)

theorem Cursor.returns {z : Int} (hr : SongRing h nodes names) (hp : ∀ dName ∈ names, Plays dName)
    (hc : Cursor h nodes s z) : ∃ n t, Transition.run controlStep s (List.replicate n .step) =
      .next t ∧ t.aplay = none ∧ t.player.musicFlag = some (nth nodes z) := by
  generalize hk : (s.aplay.map AplayPc.rank).getD 0 = k
  induction k using Nat.strong_induction_on generalizing s with
  | h k ih =>
    cases ha : s.aplay with
    | none =>
      have hflag := hc.cursor
      rw [ha] at hflag
      exact ⟨0,s,rfl,ha,hflag⟩
    | some pc =>
      obtain ⟨t,ht⟩ : ∃ t, controlStep s .step = .next t := by
        cases ht : controlStep s .step with
        | blocked =>
          simp only [controlStep,ha] at ht
          exact absurd ht (Outcome.bind_ne_blocked (aplayCmd_ne_blocked _ pc) (by simp))
        | fault => exact absurd ht (hc.noFault hr hp .step)
        | next t => exact ⟨t,rfl⟩
      obtain ⟨pc',hpc,hcmd⟩ := step_next ht
      obtain rfl := Option.some.inj (ha.symm.trans hpc)
      have hless : (t.aplay.map AplayPc.rank).getD 0 < k := by
        subst hk
        rw [ha]
        cases hta : t.aplay with
        | none => cases pc <;> simp [AplayPc.rank]
        | some pc' =>
          rw [hta] at hcmd
          exact aplayCmd_rank hcmd
      have hct := hc.step hr.ring ht
      rw [Action.shift,Int.add_zero] at hct
      obtain ⟨n,u,hu,hend⟩ := ih _ hless hct rfl
      exact ⟨n+1,u,by rw [List.replicate_succ,run_cons,ht]; exact hu,hend⟩

/-- What commands do when those given so far lead to position `z`. -/
structure Obeys (nodes : List Addr) (names : List Bytes) (z : Int) (s : Control) : Prop where
  noFault : ∀ a, controlStep s a ≠ .fault
  returns : ∃ n t, Transition.run controlStep s (List.replicate n .step) = .next t ∧
    t.aplay = none ∧ t.player.musicFlag = some (nth nodes z)
  starts : ∀ apcmd p, s.aplay = some (.play apcmd p) → controlStep s .step = .next
    ⟨{ s.player with
      madplay := s.player.madplay ++ [⟨songCommand (nth names z),false⟩] },none⟩
  performs : s.aplay = none → ∀ apcmd, ∃ n,
    Transition.run controlStep s (.command apcmd :: List.replicate n .step) =
      .next ⟨s.player.performed nodes names z apcmd,none⟩

theorem Cursor.obeys {z : Int} (hr : SongRing h nodes names) (hp : ∀ dName ∈ names, Plays dName)
    (hc : Cursor h nodes s z) : Obeys nodes names z s := by
  refine ⟨hc.noFault hr hp,hc.returns hr hp,fun apcmd p ha => ?_,fun ha apcmd => ?_⟩
  · obtain ⟨rfl,-,hcursor⟩ := hc
    rw [ha] at hcursor
    obtain ⟨hflag,rfl⟩ := hcursor
    have hat : AtSong nodes names z s.player := ⟨hr,hp,hflag⟩
    obtain ⟨m,hm,hplay⟩ := hat.play
    simp [controlStep,ha,aplayCmd,deref,hm,hplay]
  · obtain ⟨rfl,-,hcursor⟩ := hc
    rw [ha] at hcursor
    have hat : AtSong nodes names z s.player := ⟨hr,hp,hcursor⟩
    obtain ⟨n,hn⟩ := hat.returns apcmd
    exact ⟨n,by simp only [run_cons,controlStep,ha,Outcome.next_bind,hn]⟩

/-- `MusicInit` makes a ring of the songs in the order of `readdir`, and however one thread
then gives commands, the cursor is where the moves lead and `play` is called with the path
of the song there. Every call returns, and a command from there has its whole effect. -/
theorem song_ring_navigation {musicIDBuf : Bytes} {entries : List Bytes}
    (hb : musicIDBuf.length = 100) (hk : songs entries ≠ [])
    (hn : ∀ dName ∈ songs entries, Fits dName) :
    ∃ h nodes, musicInit musicIDBuf (some entries) = some (h,some (nth nodes 0)) ∧
      nodes.Nodup ∧ nodes.length = (songs entries).length ∧
      (∀ a, (∃ n, follow (links h) (nth nodes 0) n = some a) ↔ a ∈ nodes) ∧
      (∀ n : Nat, follow (links h) (nth nodes 0) n = some (nth nodes n)) ∧
      (∀ a ∈ nodes, ∃ b ∈ nodes, ∃ c ∈ nodes, next (links h) a = some b ∧
        prev (links h) b = some a ∧ prev (links h) a = some c ∧ next (links h) c = some a) ∧
      (∀ z, ∃ m, h.read (nth nodes z) = some m ∧
        cStringIn m.musicPath = some (songPath (nth (songs entries) z))) ∧
      ∀ as s, run controlStep ⟨Player.init h (some (nth nodes 0)),none⟩ as = .next s →
        s.player.heap = h ∧ s.player.musicHead = some (nth nodes 0) ∧
        (s.aplay = none → s.player.musicFlag = some (nth nodes (moves as))) ∧
        (∀ apcmd p, s.aplay = some (.play apcmd p) → p = some (nth nodes (moves as))) ∧
        ((∀ dName ∈ songs entries, Plays dName) → Obeys nodes (songs entries) (moves as) s) := by
  obtain ⟨h,nodes,hi,hr⟩ := musicInit_ring hb hk hn
  refine ⟨h,nodes,hi,hr.ring.nodup,hr.holds.length_eq,hr.ring.reached_iff 0,fun n => ?_,
    hr.ring.inverse,fun z => ?_,fun as s hs => ?_⟩
  · simpa using hr.ring.follow_nth 0 n
  · obtain ⟨m,hm,-,hc⟩ := hr.node z
    exact ⟨m,hm,hc⟩
  · have hc := (cursor_init h nodes).run hr.ring hs
    rw [Int.zero_add] at hc
    refine ⟨hc.heap,hc.headIs,fun hi => ?_,fun apcmd p hp => ?_,fun hp => hc.obeys hr hp⟩
    · simpa [CursorAt,hi] using hc.cursor
    · have hcur := hc.cursor
      rw [hp] at hcur
      exact hcur.2

def twoOfFour : List Bytes := [ascii ".",ascii "a.mp3",ascii "..",ascii "b.mp3"]

theorem song_ring_navigation_twoOfFour : ∃ h nodes,
    musicInit (List.replicate 100 0) (some twoOfFour) = some (h,some (nth nodes 0)) ∧ nodes.length = 2 ∧
    ∃ n s, run controlStep ⟨Player.init h (some (nth nodes 0)),none⟩
        (.command musicNext :: List.replicate n .step) = .next s ∧ s.aplay = none ∧
      s.player.musicFlag = some (nth nodes 1) ∧
      s.player.madplay = [⟨songCommand (ascii "b.mp3"),false⟩] := by
  obtain ⟨h,nodes,hi,-,hl,-,-,-,-,hrun⟩ :=
    @song_ring_navigation (List.replicate 100 0) twoOfFour (by decide) (by decide) (by decide)
  obtain ⟨-,-,-,-,hobeys⟩ := hrun [] _ rfl
  obtain ⟨n,hn⟩ := (hobeys (by decide)).performs rfl musicNext
  exact ⟨h,nodes,hi,hl,n,_,hn,rfl,rfl,rfl⟩

end IntelligentAcoustics.Music
