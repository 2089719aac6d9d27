import IntelligentAcoustics.PoolQueue

/-!
The queue is first in, first out, and every task is taken and invoked at most once.
-/

set_option autoImplicit false

namespace IntelligentAcoustics.Pool
open Transition BlockHeap LinkedChain
variable {α β : Type} {s : State α β} {q : List (Addr × α × β)}

theorem Inv.order (inv : Inv s q) (hd : s.destroyer.beforeDrain = true) :
    s.hist.taken ++ q = s.hist.appended := by
  simpa [inv.teardown.undrained hd] using inv.custody.order

theorem Inv.counted (inv : Inv s q) (hd : s.destroyer.beforeDrain = true) :
    s.pool.curRequestSize = q.length := by
  simpa [inv.teardown.undrained hd] using inv.size

theorem Inv.appended_nodup (inv : Inv s q) : (addrs s.hist.appended).Nodup :=
  (List.nodup_append.mp inv.custody.fresh).1

theorem Inv.taken_nodup (inv : Inv s q) : (addrs s.hist.taken).Nodup := by
  have hn := inv.appended_nodup
  rw [← inv.custody.order] at hn
  simp only [addrs,List.map_append,List.append_assoc] at hn
  exact (List.nodup_append.mp hn).1

theorem Inv.invoked_nodup (inv : Inv s q) : (addrs s.hist.invoked).Nodup := by
  have hsub : (s.workers.flatMap WorkerPc.begun).Sublist (s.workers.flatMap WorkerPc.held) := by
    induction s.workers with
    | nil => exact .slnil
    | cons pc ws ih =>
      simp only [List.flatMap_cons]
      refine List.Sublist.append ?_ ih
      cases pc <;> simp [WorkerPc.begun,WorkerPc.held]
  have hheld := (inv.custody.owned.nodup_iff).mpr inv.taken_nodup
  exact (inv.custody.ran.nodup_iff).mp (hheld.sublist (hsub.append_right s.hist.freed))

theorem Inv.walk_ends (inv : Inv s q) {member : Addr}
    (h : s.pool.apiRequestHead = some member) :
    ∃ last, ∀ fuel, s.heap.size ≤ fuel → walk (taskView s.heap) fuel member = .stop last := by
  have hc := inv.custody.chain
  rw [h] at hc
  have hlen : q.length ≤ s.heap.size := chain_length_le hc fun a ha => by
    cases hr : s.heap.read a with
    | none => simp [taskView,hr] at ha
    | some t => exact Heap.lt_size hr
  obtain ⟨q',last,k,hq,-⟩ := walk_chain hc hlen
  refine ⟨last,fun fuel hf => ?_⟩
  obtain ⟨q'',last',k',hq',hw⟩ := walk_chain hc (Nat.le_trans hlen hf)
  rw [hq] at hq'
  obtain ⟨-,hlast⟩ := List.append_inj' hq' rfl
  simp only [List.cons.injEq,Prod.mk.injEq,and_true] at hlast
  rw [hlast.1]
  exact hw

theorem queue_fifo {n : Nat} (h : Reachable step (started n) s)
    (hd : s.destroyer.beforeDrain = true) :
    ∃ q : List (Addr × α × β),
      (Chain (taskView s.heap) s.pool.apiRequestHead q ∧ (addrs q).Nodup ∧
        s.pool.curRequestSize = q.length) ∧
      (s.hist.taken ++ q = s.hist.appended ∧ (addrs s.hist.appended).Nodup ∧
        (addrs s.hist.invoked).Nodup ∧ ∀ t ∈ s.hist.invoked, t ∈ s.hist.taken) ∧
      (∀ (i : Nat) (pc : WorkerPc), s.workers[i]? = some pc → pc.retests = true → s.pool.mutex = none →
        ¬ (0 = s.pool.curRequestSize ∧ 0 = s.pool.shutdown) → s.pool.shutdown = 0 →
        s.pool.apiRequestHead ≠ none) ∧
      (∀ member, s.pool.apiRequestHead = some member →
        ∃ last, ∀ fuel, s.heap.size ≤ fuel →
          walk (taskView s.heap) fuel member = .stop last) ∧
      ∀ a, step s a ≠ .fault := by
  obtain ⟨q,inv⟩ := inv_reachable h
  refine ⟨q,⟨inv.custody.chain,chain_nodup inv.custody.chain,inv.counted hd⟩,
    ⟨inv.order hd,inv.appended_nodup,inv.invoked_nodup,inv.custody.genuine⟩,?_,
    fun member => inv.walk_ends,inv.no_fault⟩
  intro i pc _ _ _ hc hs
  exact inv.head_of_size (fun hz => hc ⟨hz.symm,hs.symm⟩) (inv.teardown.undrained hd)

def secondWaiting : State Nat Nat where
  heap := ⟨[some ⟨7,70,some 1⟩,some ⟨8,80,none⟩]⟩
  pool := ⟨.block [0],none,some 1,1,1,0⟩
  workers := [.call 0]
  adds := [.signal,.signal]
  destroyer := .idle
  hist := ⟨[(0,7,70),(1,8,80)],[(0,7,70)],[],[],[]⟩

theorem queue_fifo_secondWaiting : ∃ q : List (Addr × Nat × Nat),
    (Chain (taskView secondWaiting.heap) (some 1) q ∧ (addrs q).Nodup ∧ (1 : Int) = q.length) ∧
      [(0,7,70)] ++ q = [(0,7,70),(1,8,80)] := by
  have hr : Reachable step (started 1) secondWaiting :=
    ⟨[.addStart 7 70,.addStart 8 80,.addAppend 0,.addAppend 1,.test 0],by rfl⟩
  obtain ⟨q,hc,⟨ho,-⟩,-⟩ := queue_fifo hr (by decide)
  exact ⟨q,hc,ho⟩

end IntelligentAcoustics.Pool
