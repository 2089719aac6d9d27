import IntelligentAcoustics.RequestPool

/-!
Who owns which task node. At every moment each node that was ever appended is in the
queue, in the hands of one worker, freed by a worker or freed by the drain, and the
nodes of the calls that have not appended yet are apart from all of them.
-/

set_option autoImplicit false

namespace IntelligentAcoustics.Pool
open Transition BlockHeap LinkedChain
variable {α β : Type}

/-- `held` are the nodes in workers' hands, `begun` those of them whose task has been
started, `pending` the nodes of unfinished `Ai_Requset_pool_add` calls. -/
structure Custody (h : Heap (PoolTask α β)) (head : Option Addr) (q : List (Addr × α × β))
    (held begun : List Addr) (pending : List (Addr × α × β)) (hist : History α β) : Prop where
  chain : Chain (taskView h) head q
  order : hist.taken ++ hist.drained ++ q = hist.appended
  owned : (held ++ hist.freed).Perm (addrs hist.taken)
  ran : (begun ++ hist.freed).Perm (addrs hist.invoked)
  genuine : ∀ t ∈ hist.invoked, t ∈ hist.taken
  fresh : (addrs hist.appended ++ addrs pending).Nodup
  allocated : ∀ a, a ∈ addrs hist.appended ++ addrs pending ↔ a < h.size
  pendingLive : ∀ a k, (a,k) ∈ pending → taskView h a = some (k,none)
  heldLive : ∀ a ∈ held, ∃ k n, taskView h a = some (k,n) ∧ (a,k) ∈ hist.taken

theorem taskView_read {h : Heap (PoolTask α β)} {a : Addr} {t : PoolTask α β}
    (hr : h.read a = some t) : taskView h a = some ((t.process,t.arg),t.next) := by
  simp [taskView,hr]

theorem read_of_taskView {h : Heap (PoolTask α β)} {a : Addr} {k : α × β} {n : Option Addr}
    (hv : taskView h a = some (k,n)) : h.read a = some ⟨k.1,k.2,n⟩ := by
  unfold taskView at hv
  cases hr : h.read a with
  | none => simp [hr] at hv
  | some t =>
    simp only [hr,Option.map_some,Option.some.injEq,Prod.mk.injEq] at hv
    obtain ⟨rfl,rfl⟩ := hv
    rfl

theorem taskView_congr {h h' : Heap (PoolTask α β)} {a : Addr} (hr : h'.read a = h.read a) :
    taskView h' a = taskView h a := by
  simp [taskView,hr]

namespace Custody
variable {h h' : Heap (PoolTask α β)} {head : Option Addr} {q : List (Addr × α × β)}
  {held begun : List Addr} {pending : List (Addr × α × β)} {hist : History α β}

theorem nodup (c : Custody h head q held begun pending hist) :
    (held ++ hist.freed ++ (addrs hist.drained ++ (addrs q ++ addrs pending))).Nodup := by
  have hf := c.fresh
  rw [← c.order] at hf
  simp only [addrs,List.map_append,List.append_assoc] at hf
  refine (List.Perm.nodup_iff ?_).mp hf
  simpa [addrs,List.append_assoc] using
    (c.owned.symm.append_right (addrs hist.drained ++ (addrs q ++ addrs pending)))

theorem held_not_queued (c : Custody h head q held begun pending hist) {a : Addr}
    (ha : a ∈ held) : a ∉ addrs q := by
  intro hq
  exact (List.nodup_append.mp c.nodup).2.2 a (by simp [ha]) a (by simp [hq]) rfl

theorem held_not_pending (c : Custody h head q held begun pending hist) {a : Addr}
    (ha : a ∈ held) : a ∉ addrs pending := by
  intro hp
  exact (List.nodup_append.mp c.nodup).2.2 a (by simp [ha]) a (by simp [hp]) rfl

theorem queued_not_pending (c : Custody h head q held begun pending hist) {a : Addr}
    (ha : a ∈ addrs q) : a ∉ addrs pending := by
  have hn := (List.nodup_append.mp (List.nodup_append.mp c.nodup).2.1).2.1
  intro hp
  exact (List.nodup_append.mp hn).2.2 a ha a hp rfl

theorem held_nodup (c : Custody h head q held begun pending hist) : held.Nodup :=
  (List.nodup_append.mp (List.nodup_append.mp c.nodup).1).1

theorem perm (c : Custody h head q held begun pending hist) {held' begun' : List Addr}
    {pending' : List (Addr × α × β)} (hh : held'.Perm held) (hb : begun'.Perm begun)
    (hp : pending'.Perm pending) : Custody h head q held' begun' pending' hist where
  chain := c.chain
  order := c.order
  owned := (hh.append_right _).trans c.owned
  ran := (hb.append_right _).trans c.ran
  genuine := c.genuine
  fresh := (List.Perm.nodup_iff ((hp.map Prod.fst).append_left _)).mpr c.fresh
  allocated a := ((hp.map Prod.fst).append_left _).mem_iff.trans (c.allocated a)
  pendingLive a k ha := c.pendingLive a k (hp.mem_iff.mp ha)
  heldLive a ha := c.heldLive a (hh.mem_iff.mp ha)

theorem malloc (c : Custody h head q held begun pending hist) (process : α) (arg : β) :
    Custody (h.malloc ⟨process,arg,none⟩) head q held begun
      (pending ++ [(h.size,process,arg)]) hist := by
  have hlive : ∀ a k n, taskView h a = some (k,n) →
      taskView (h.malloc ⟨process,arg,none⟩) a = some (k,n) := fun a k n hv =>
    taskView_read (Heap.read_malloc _ (read_of_taskView hv))
  have hnew : h.size ∉ addrs hist.appended ++ addrs pending := fun hm =>
    Nat.lt_irrefl _ ((c.allocated _).mp hm)
  refine ⟨chain_congr c.chain ?_,c.order,c.owned,c.ran,c.genuine,?_,?_,?_,?_⟩
  · intro a ha
    obtain ⟨⟨b,k⟩,hb,rfl⟩ := List.mem_map.mp ha
    obtain ⟨n,hn⟩ := chain_live c.chain hb
    rw [hn,hlive b k n hn]
  · simp only [addrs,List.map_append,List.map_cons,List.map_nil,← List.append_assoc]
    refine List.nodup_append.mpr ⟨c.fresh,by simp,fun a ha b hb => ?_⟩
    rw [List.mem_singleton.mp hb]
    exact fun he => hnew (he ▸ ha)
  · intro a
    have hall := c.allocated a
    simp only [addrs,List.map_append,List.map_cons,List.map_nil,← List.append_assoc,
      List.mem_append (t := [h.size]),List.mem_singleton,Heap.size_malloc] at hall ⊢
    rw [hall]
    omega
  · intro a k ha
    rcases List.mem_append.mp ha with ha | ha
    · exact hlive a k none (c.pendingLive a k ha)
    · simp only [List.mem_singleton,Prod.mk.injEq] at ha
      obtain ⟨rfl,rfl⟩ := ha
      exact taskView_read (Heap.read_malloc_self _ _)
  · intro a ha
    obtain ⟨k,n,hv,ht⟩ := c.heldLive a ha
    exact ⟨k,n,hlive a k n hv,ht⟩

/-- Appending moves the new node from its call to the end of the queue; only links of
queued nodes may change. -/
theorem append {newtask : Addr} {k : α × β} {head' : Option Addr}
    (c : Custody h head q held begun ((newtask,k) :: pending) hist)
    (hc : Chain (taskView h') head' (q ++ [(newtask,k)]))
    (hv : ∀ a, a ∉ addrs q → taskView h' a = taskView h a) (hs : h'.size = h.size) :
    Custody h' head' (q ++ [(newtask,k)]) held begun pending
      { hist with appended := hist.appended ++ [(newtask,k)] } := by
  refine ⟨hc,?_,c.owned,c.ran,c.genuine,?_,?_,?_,?_⟩
  · simp only [← c.order,List.append_assoc]
  · simpa [addrs,List.append_assoc] using c.fresh
  · intro a
    rw [hs,← c.allocated a]
    simp [addrs]
  · intro a l ha
    have hm : a ∈ addrs ((newtask,k) :: pending) := List.mem_map.mpr ⟨(a,l),.tail _ ha,rfl⟩
    rw [hv a fun hq => c.queued_not_pending hq hm]
    exact c.pendingLive a l (.tail _ ha)
  · intro a ha
    rw [hv a (c.held_not_queued ha)]
    exact c.heldLive a ha

theorem appendTask_spec {newtask : Addr} {k : α × β}
    (c : Custody h head q held begun ((newtask,k) :: pending) hist) :
    ∃ h' head', appendTask h head newtask = .next (h',head') ∧
      Custody h' head' (q ++ [(newtask,k)]) held begun pending
        { hist with appended := hist.appended ++ [(newtask,k)] } := by
  have hnew := c.pendingLive newtask k (by simp)
  cases head with
  | none =>
    have hq := chain_nil_iff c.chain
    subst hq
    exact ⟨h,some newtask,rfl,c.append ⟨rfl,none,hnew,rfl⟩ (fun _ _ => rfl) rfl⟩
  | some member =>
    have hlen : q.length ≤ h.size := chain_length_le c.chain fun a ha => by
      cases hr : h.read a with
      | none => simp [taskView,hr] at ha
      | some t => exact Heap.lt_size hr
    obtain ⟨q',b,kb,rfl,hw⟩ := walk_chain c.chain hlen
    obtain ⟨n,hb⟩ := chain_live c.chain (a := b) (k := kb) (by simp)
    have hr := read_of_taskView hb
    have hnb : newtask ≠ b := fun he =>
      c.queued_not_pending (a := b) (by simp [addrs]) (by simp [addrs,he])
    have hframe : ∀ a, a ≠ b →
        taskView (h.write b ⟨kb.1,kb.2,some newtask⟩) a = taskView h a := fun a ha =>
      taskView_congr (Heap.read_write_of_ne h _ ha)
    refine ⟨h.write b ⟨kb.1,kb.2,some newtask⟩,some member,by simp [appendTask,hw,hr],
      c.append ?_ (fun a ha => hframe a ?_) (by simp)⟩
    · refine chain_snoc c.chain (fun a ha => hframe a ?_)
        (taskView_read (Heap.read_write_self _ hr)) (by rw [hframe newtask hnb]; exact hnew)
      rintro rfl
      have hn := chain_nodup c.chain
      simp only [addrs,List.map_append,List.map_cons,List.map_nil] at hn
      exact (List.nodup_append.mp hn).2.2 a ha a (by simp) rfl
    · rintro rfl
      exact ha (by simp [addrs])

theorem take {task : Addr} {k : α × β} {n : Option Addr}
    (c : Custody h (some task) q held begun pending hist) (hd : hist.drained = [])
    (hv : taskView h task = some (k,n)) :
    ∃ q', q = (task,k) :: q' ∧ Custody h n q' (task :: held) begun pending
      { hist with taken := hist.taken ++ [(task,k)] } := by
  obtain ⟨k',n',q',rfl,hv',hq⟩ := chain_head c.chain
  rw [hv] at hv'
  simp only [Option.some.injEq,Prod.mk.injEq] at hv'
  obtain ⟨rfl,rfl⟩ := hv'
  refine ⟨q',rfl,hq,?_,?_,c.ran,?_,c.fresh,c.allocated,c.pendingLive,?_⟩
  · have ho := c.order
    simp only [hd,List.append_nil] at ho ⊢
    simpa [List.append_assoc] using ho
  · simp only [addrs,List.map_append,List.map_cons,List.map_nil,List.cons_append]
    exact (c.owned.cons task).trans (List.perm_append_singleton task _).symm
  · exact fun t ht => List.mem_append_left _ (c.genuine t ht)
  · intro a ha
    rcases List.mem_cons.mp ha with rfl | ha
    · exact ⟨k,n,hv,by simp⟩
    · obtain ⟨l,m,hl,ht⟩ := c.heldLive a ha
      exact ⟨l,m,hl,List.mem_append_left _ ht⟩

theorem invoke {task : Addr} {k : α × β} {n : Option Addr}
    (c : Custody h head q held begun pending hist) (ht : task ∈ held)
    (hv : taskView h task = some (k,n)) :
    Custody h head q held (task :: begun) pending
      { hist with invoked := hist.invoked ++ [(task,k)] } := by
  refine ⟨c.chain,c.order,c.owned,?_,?_,c.fresh,c.allocated,c.pendingLive,c.heldLive⟩
  · simp only [addrs,List.map_append,List.map_cons,List.map_nil,List.cons_append]
    exact (c.ran.cons task).trans (List.perm_append_singleton task _).symm
  · intro t hm
    rcases List.mem_append.mp hm with hm | hm
    · exact c.genuine t hm
    · obtain ⟨l,m,hl,htaken⟩ := c.heldLive task ht
      rw [hv] at hl
      simp only [Option.some.injEq,Prod.mk.injEq] at hl
      obtain ⟨rfl,-⟩ := hl
      rw [List.mem_singleton.mp hm]
      exact htaken

theorem free {task : Addr} (c : Custody h head q (task :: held) (task :: begun) pending hist) :
    Custody (h.free task) head q held begun pending
      { hist with freed := hist.freed ++ [task] } := by
  have hframe : ∀ a, a ≠ task → taskView (h.free task) a = taskView h a := fun a ha =>
    taskView_congr (Heap.read_free_of_ne h ha)
  have hnot := (List.nodup_cons.mp c.held_nodup).1
  refine ⟨chain_congr c.chain ?_,c.order,?_,?_,c.genuine,c.fresh,?_,?_,?_⟩
  · intro a ha
    exact hframe a fun he => c.held_not_queued (a := task) (by simp) (he ▸ ha)
  · rw [← List.append_assoc]
    exact (List.perm_append_singleton task _).trans c.owned
  · rw [← List.append_assoc]
    exact (List.perm_append_singleton task _).trans c.ran
  · simpa using c.allocated
  · intro a k ha
    rw [hframe a fun he => c.held_not_pending (a := task) (by simp)
      (he ▸ List.mem_map.mpr ⟨(a,k),ha,rfl⟩)]
    exact c.pendingLive a k ha
  · intro a ha
    rw [hframe a fun he => hnot (he ▸ ha)]
    exact c.heldLive a (.tail _ ha)

theorem drain {task : Addr} {k : α × β} {n : Option Addr}
    (c : Custody h (some task) q held begun pending hist)
    (hv : taskView h task = some (k,n)) :
    ∃ q', q = (task,k) :: q' ∧ Custody (h.free task) n q' held begun pending
      { hist with drained := hist.drained ++ [(task,k)] } := by
  have hn := chain_nodup c.chain
  obtain ⟨k',n',q',rfl,hv',hq⟩ := chain_head c.chain
  rw [hv] at hv'
  simp only [Option.some.injEq,Prod.mk.injEq] at hv'
  obtain ⟨rfl,rfl⟩ := hv'
  have hframe : ∀ a, a ≠ task → taskView (h.free task) a = taskView h a := fun a ha =>
    taskView_congr (Heap.read_free_of_ne h ha)
  refine ⟨q',rfl,chain_congr hq ?_,?_,c.owned,c.ran,c.genuine,c.fresh,?_,?_,?_⟩
  · intro a ha
    exact hframe a fun he => (List.nodup_cons.mp hn).1 (he ▸ ha)
  · simpa [List.append_assoc] using c.order
  · simpa using c.allocated
  · intro a l ha
    rw [hframe a fun he => c.queued_not_pending (a := task) (by simp [addrs])
      (he ▸ List.mem_map.mpr ⟨(a,l),ha,rfl⟩)]
    exact c.pendingLive a l ha
  · intro a ha
    rw [hframe a fun he => c.held_not_queued (he ▸ ha) (by simp [addrs])]
    exact c.heldLive a ha

end Custody
end IntelligentAcoustics.Pool
