import Mathlib.Data.List.Nodup
import Mathlib.Data.List.Perm.Subperm

/-!
Singly linked chains in a heap. A `View` tells what the node at an address holds, its
content and its `next` pointer; a chain lists the nodes met from a head pointer to NULL.
-/

set_option autoImplicit false

namespace LinkedChain
variable {κ : Type}

abbrev View (κ : Type) := Nat → Option (κ × Option Nat)

abbrev addrs (q : List (Nat × κ)) : List Nat := q.map Prod.fst

def Chain (v : View κ) : Option Nat → List (Nat × κ) → Prop
  | p, [] => p = none
  | p, (a,k) :: q => p = some a ∧ ∃ n, v a = some (k,n) ∧ Chain v n q

inductive Walk where
  | stop (a : Nat) | fault | diverge
  deriving DecidableEq, Repr

/-- `while (member->next != NULL) member = member->next;` from a given node. A walk that
visits more nodes than the heap has blocks never ends, so fuel for every block decides it. -/
def walk (v : View κ) : Nat → Nat → Walk
  | 0, _ => .diverge
  | fuel+1, a =>
    match v a with
    | none => .fault
    | some (_, none) => .stop a
    | some (_, some b) => walk v fuel b

theorem chain_nil_iff {v : View κ} {q : List (Nat × κ)} (h : Chain v none q) : q = [] := by
  cases q with
  | nil => rfl
  | cons x q => obtain ⟨a,k⟩ := x; simp [Chain] at h

theorem chain_head {v : View κ} {a : Nat} {q : List (Nat × κ)} (h : Chain v (some a) q) :
    ∃ k n q', q = (a,k) :: q' ∧ v a = some (k,n) ∧ Chain v n q' := by
  cases q with
  | nil => simp [Chain] at h
  | cons x q =>
    obtain ⟨b,k⟩ := x
    obtain ⟨hb,n,hv,hq⟩ := h
    simp only [Option.some.injEq] at hb
    subst b
    exact ⟨k,n,q,rfl,hv,hq⟩

theorem chain_unique {v : View κ} {p : Option Nat} {q q' : List (Nat × κ)}
    (h : Chain v p q) (h' : Chain v p q') : q = q' := by
  induction q generalizing p q' with
  | nil =>
    simp only [Chain] at h
    subst h
    exact (chain_nil_iff h').symm
  | cons x q ih =>
    obtain ⟨a,k⟩ := x
    obtain ⟨rfl,n,hv,hq⟩ := h
    obtain ⟨k',n',r,rfl,hv',hr⟩ := chain_head h'
    rw [hv] at hv'
    simp only [Option.some.injEq,Prod.mk.injEq] at hv'
    obtain ⟨rfl,rfl⟩ := hv'
    rw [ih hq hr]

theorem chain_suffix {v : View κ} {p : Option Nat} {q r : List (Nat × κ)}
    (h : Chain v p (q ++ r)) : ∃ p', Chain v p' r := by
  induction q generalizing p with
  | nil => exact ⟨p,h⟩
  | cons x q ih =>
    obtain ⟨a,k⟩ := x
    obtain ⟨-,n,-,hq⟩ := h
    exact ih hq

theorem chain_nodup {v : View κ} {p : Option Nat} {q : List (Nat × κ)}
    (h : Chain v p q) : (addrs q).Nodup := by
  induction q generalizing p with
  | nil => exact List.nodup_nil
  | cons x q ih =>
    obtain ⟨a,k⟩ := x
    have hc := h
    obtain ⟨rfl,n,hv,hq⟩ := h
    refine List.nodup_cons.mpr ⟨fun hm => ?_, ih hq⟩
    obtain ⟨⟨b,k'⟩,hb,rfl⟩ := List.mem_map.mp hm
    obtain ⟨q₁,q₂,rfl⟩ := List.append_of_mem hb
    obtain ⟨p',hs⟩ := chain_suffix hq
    have hp : p' = some b := hs.1
    subst hp
    have hl := congrArg List.length (chain_unique hc hs)
    simp only [List.length_cons,List.length_append] at hl
    omega

theorem chain_live {v : View κ} {p : Option Nat} {q : List (Nat × κ)} (h : Chain v p q)
    {a : Nat} {k : κ} (ha : (a,k) ∈ q) : ∃ n, v a = some (k,n) := by
  obtain ⟨q₁,q₂,rfl⟩ := List.append_of_mem ha
  obtain ⟨p',hs⟩ := chain_suffix h
  obtain ⟨-,n,hv,-⟩ := hs
  exact ⟨n,hv⟩

theorem chain_congr {v v' : View κ} {p : Option Nat} {q : List (Nat × κ)} (h : Chain v p q)
    (hv : ∀ a ∈ addrs q, v' a = v a) : Chain v' p q := by
  induction q generalizing p with
  | nil => exact h
  | cons x q ih =>
    obtain ⟨a,k⟩ := x
    obtain ⟨rfl,n,ha,hq⟩ := h
    refine ⟨rfl,n,?_,ih hq fun b hb => hv b (by simp only [addrs,List.map_cons]; exact .tail _ hb)⟩
    rw [hv a (by simp), ha]

theorem chain_snoc {v v' : View κ} {p : Option Nat} {q : List (Nat × κ)} {b c : Nat} {k l : κ}
    (h : Chain v p (q ++ [(b,k)])) (hq : ∀ a ∈ addrs q, v' a = v a)
    (hb : v' b = some (k, some c)) (hc : v' c = some (l, none)) :
    Chain v' p (q ++ [(b,k)] ++ [(c,l)]) := by
  induction q generalizing p with
  | nil =>
    obtain ⟨rfl,-⟩ := h
    exact ⟨rfl,_,hb,rfl,_,hc,rfl⟩
  | cons x q ih =>
    obtain ⟨a,j⟩ := x
    obtain ⟨rfl,n,ha,hn⟩ := h
    refine ⟨rfl,n,?_,ih hn fun d hd => hq d (by simp only [addrs,List.map_cons]; exact .tail _ hd)⟩
    rw [hq a (by simp), ha]

theorem walk_chain {v : View κ} {a : Nat} {q : List (Nat × κ)} (h : Chain v (some a) q)
    {fuel : Nat} (hf : q.length ≤ fuel) :
    ∃ q' b k, q = q' ++ [(b,k)] ∧ walk v fuel a = .stop b := by
  induction q generalizing a fuel with
  | nil => simp [Chain] at h
  | cons x q ih =>
    obtain ⟨k,n,r,hr,hv,hq⟩ := chain_head h
    obtain ⟨rfl,rfl⟩ := List.cons.inj hr
    cases fuel with
    | zero => simp at hf
    | succ fuel =>
      cases n with
      | none =>
        have hnil := chain_nil_iff hq
        subst hnil
        exact ⟨[],a,k,rfl,by simp [walk,hv]⟩
      | some b =>
        obtain ⟨q',c,l,rfl,hw⟩ := ih hq (by simpa using hf)
        exact ⟨(a,k) :: q',c,l,rfl,by simpa [walk,hv] using hw⟩

theorem chain_length_le {v : View κ} {p : Option Nat} {q : List (Nat × κ)} (h : Chain v p q)
    {n : Nat} (hn : ∀ a, v a ≠ none → a < n) : q.length ≤ n := by
  have hs : addrs q ⊆ List.range n := by
    intro a ha
    obtain ⟨⟨b,k⟩,hb,rfl⟩ := List.mem_map.mp ha
    obtain ⟨m,hm⟩ := chain_live h hb
    exact List.mem_range.mpr (hn b (by simp [hm]))
  simpa using (List.subperm_of_subset (chain_nodup h) hs).length_le

end LinkedChain
