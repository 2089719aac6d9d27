import IntelligentAcoustics.Library.LinkedRing
import Mathlib.Data.List.Nodup
import Mathlib.Data.Int.ModEq

/-!
A doubly linked ring as the list of its nodes in the order of `next`. Positions are
integers and count round the ring in both directions.
-/

set_option autoImplicit false

namespace LinkedRing

theorem exists_ofNat {α : Type} {nodes : List α} (h : nodes ≠ []) (z : Int) :
    ∃ i : Nat, i < nodes.length ∧ z % nodes.length = (i : Int) % nodes.length := by
  have hpos : 0 < nodes.length := List.length_pos_iff.mpr h
  have hn : 0 ≤ z % nodes.length := Int.emod_nonneg z (by omega)
  have hl : z % nodes.length < nodes.length := Int.emod_lt_of_pos z (by omega)
  refine ⟨(z % nodes.length).toNat,by omega,?_⟩
  rw [Int.toNat_of_nonneg hn,Int.emod_emod]

section
variable {α : Type} [Inhabited α]

/-- The element at a position, counted modulo the length. -/
def nth (nodes : List α) (z : Int) : α := nodes.getD (z % nodes.length).toNat default

theorem nth_congr {nodes : List α} {z w : Int}
    (h : z % nodes.length = w % nodes.length) : nth nodes z = nth nodes w := by
  simp only [nth,h]

theorem nth_add_length (nodes : List α) (z : Int) :
    nth nodes (z + nodes.length) = nth nodes z := nth_congr (by simp)

theorem nth_ofNat {nodes : List α} {i : Nat} (h : i < nodes.length) :
    nth nodes i = nodes[i] := by
  have hm : ((i : Int) % nodes.length).toNat = i := by
    rw [Int.emod_eq_of_lt (by omega) (by omega)]
    rfl
  simp [nth,hm,h]

theorem nth_mem {nodes : List α} (h : nodes ≠ []) (z : Int) : nth nodes z ∈ nodes := by
  obtain ⟨i,hi,hz⟩ := exists_ofNat h z
  rw [nth_congr hz,nth_ofNat hi]
  exact List.getElem_mem hi

theorem exists_nth {nodes : List α} {a : α} (h : a ∈ nodes) :
    ∃ i : Nat, i < nodes.length ∧ nth nodes i = a := by
  obtain ⟨i,hi,ha⟩ := List.getElem_of_mem h
  exact ⟨i,hi,(nth_ofNat hi).trans ha⟩

theorem nth_inj {nodes : List α} (hn : nodes.Nodup) {i j : Nat} (hi : i < nodes.length)
    (hj : j < nodes.length) (h : nth nodes i = nth nodes j) : i = j := by
  rw [nth_ofNat hi,nth_ofNat hj] at h
  exact (hn.getElem_inj_iff).mp h

theorem nth_append {nodes : List α} {new : α} {i : Nat} (h : i < nodes.length) :
    nth (nodes ++ [new]) i = nth nodes i := by
  rw [nth_ofNat (by simp; omega),nth_ofNat h]
  exact List.getElem_append_left h

theorem nth_append_zero {nodes : List α} (new : α) (h : nodes ≠ []) :
    nth (nodes ++ [new]) 0 = nth nodes 0 :=
  nth_append (i := 0) (List.length_pos_iff.mpr h)

@[simp] theorem nth_singleton (a : α) (z : Int) : nth [a] z = a :=
  List.mem_singleton.mp (nth_mem (by simp) z)

theorem nth_append_last (nodes : List α) (new : α) :
    nth (nodes ++ [new]) nodes.length = new := by
  rw [nth_ofNat (by simp)]
  simp

theorem forall₂_nth {β : Type} [Inhabited β] {R : α → β → Prop} {xs : List α} {ys : List β}
    (h : List.Forall₂ R xs ys) (hx : xs ≠ []) (z : Int) : R (nth xs z) (nth ys z) := by
  obtain ⟨i,hi,hz⟩ := exists_ofNat hx z
  have hlen := h.length_eq
  have hy : nth ys z = nth ys i := nth_congr (hlen ▸ hz)
  rw [nth_congr hz,hy,nth_ofNat hi,nth_ofNat (hlen ▸ hi)]
  exact (List.forall₂_iff_get.mp h).2 i hi (hlen ▸ hi)

end

/-- The nodes in the order of `next`, and `prev` leads back. -/
structure Ring (v : Links) (nodes : List Nat) : Prop where
  nonempty : nodes ≠ []
  nodup : nodes.Nodup
  links : ∀ z, v (nth nodes z) = some (some (nth nodes (z+1)), some (nth nodes (z-1)))

theorem links_of_ofNat {v : Links} {nodes : List Nat} (h : nodes ≠ [])
    (hl : ∀ i : Nat, i < nodes.length →
      v (nth nodes i) = some (some (nth nodes (i+1)), some (nth nodes (i-1)))) (z : Int) :
    v (nth nodes z) = some (some (nth nodes (z+1)), some (nth nodes (z-1))) := by
  obtain ⟨i,hi,hz⟩ := exists_ofNat h z
  have hs : (z+1) % nodes.length = ((i : Int)+1) % nodes.length := Int.ModEq.add_right 1 hz
  have hp : (z-1) % nodes.length = ((i : Int)-1) % nodes.length := Int.ModEq.sub_right 1 hz
  rw [nth_congr hz,nth_congr hs,nth_congr hp]
  exact hl i hi

namespace Ring
variable {v : Links} {nodes : List Nat}

theorem next_nth (h : Ring v nodes) (z : Int) : next v (nth nodes z) = some (nth nodes (z+1)) := by
  simp [next,h.links z]

theorem prev_nth (h : Ring v nodes) (z : Int) : prev v (nth nodes z) = some (nth nodes (z-1)) := by
  simp [prev,h.links z]

theorem length_pos (h : Ring v nodes) : 0 < nodes.length := List.length_pos_iff.mpr h.nonempty

theorem live (h : Ring v nodes) {a : Nat} (ha : a ∈ nodes) : v a ≠ none := by
  obtain ⟨i,-,rfl⟩ := exists_nth ha
  simp [h.links]

theorem congr {w : Links} (h : Ring v nodes) (hw : ∀ a ∈ nodes, w a = v a) : Ring w nodes :=
  ⟨h.nonempty,h.nodup,fun z => (hw _ (nth_mem h.nonempty z)).trans (h.links z)⟩

theorem inverse (h : Ring v nodes) : ∀ a ∈ nodes, ∃ b ∈ nodes, ∃ c ∈ nodes,
    next v a = some b ∧ prev v b = some a ∧ prev v a = some c ∧ next v c = some a := by
  intro a ha
  obtain ⟨i,-,rfl⟩ := exists_nth ha
  have hback := h.prev_nth ((i : Int)+1)
  have hforth := h.next_nth ((i : Int)-1)
  rw [Int.add_sub_cancel] at hback
  rw [Int.sub_add_cancel] at hforth
  exact ⟨_,nth_mem h.nonempty _,_,nth_mem h.nonempty _,h.next_nth i,hback,h.prev_nth i,hforth⟩

theorem single {a : Nat} (h : v a = some (some a, some a)) : Ring v [a] := by
  exact ⟨by simp,by simp,fun z => by simp only [nth_singleton,h]⟩

/-- A node put between the first node and its predecessor becomes the last one. -/
theorem insert (h : Ring v nodes) {new : Nat} (hnew : v new = none) :
    Ring (LinkedRing.insert v new (nth nodes 0) (nth nodes (-1))) (nodes ++ [new]) := by
  have hpos := h.length_pos
  have hfresh : new ∉ nodes := fun hm => h.live hm hnew
  have hlast : nth nodes (-1) = nth nodes (nodes.length - 1 : Nat) := nth_congr (by
    rw [← Int.add_emod_right]
    congr 1
    omega)
  refine ⟨by simp,?_,links_of_ofNat (by simp) fun i hi => ?_⟩
  · rw [List.nodup_append]
    refine ⟨h.nodup,by simp,fun a ha b hb he => ?_⟩
    rw [List.mem_singleton.mp hb] at he
    exact hfresh (he ▸ ha)
  simp only [List.length_append,List.length_singleton] at hi
  by_cases hk : i = nodes.length
  · subst hk
    have hs : nth (nodes ++ [new]) ((nodes.length : Int)+1) = nth nodes 0 := by
      have ha := nth_add_length (nodes ++ [new]) 0
      simp only [List.length_append,List.length_singleton,Nat.cast_add,Nat.cast_one,
        Int.zero_add] at ha
      rw [ha]
      exact nth_append_zero new h.nonempty
    have hp : nth (nodes ++ [new]) ((nodes.length : Int)-1) = nth nodes (-1) := by
      have he : ((nodes.length : Int)-1) = (nodes.length-1 : Nat) := by omega
      rw [he,nth_append (by omega),hlast]
    rw [nth_append_last,hs,hp]
    simp [LinkedRing.insert]
  · have hlt : i < nodes.length := by omega
    have hne : nth nodes i ≠ new := fun he => hfresh (he ▸ nth_mem h.nonempty i)
    rw [nth_append hlt]
    simp only [LinkedRing.insert,hne,if_false,h.links,Option.map_some,Option.some.injEq,
      Prod.mk.injEq]
    constructor
    · by_cases hi1 : i + 1 = nodes.length
      · have hat : nth nodes i = nth nodes (-1) := by
          rw [hlast]
          congr 2
          omega
        have hs : ((i : Int)+1) = nodes.length := by omega
        rw [if_pos hat,hs,nth_append_last]
      · have hat : nth nodes i ≠ nth nodes (-1) := by
          intro he
          rw [hlast] at he
          have := nth_inj h.nodup hlt (by omega) he
          omega
        have hs : ((i : Int)+1) = (i+1 : Nat) := by omega
        rw [if_neg hat,hs,nth_append (by omega)]
    · by_cases hi0 : i = 0
      · subst hi0
        have hp : nth (nodes ++ [new]) ((0 : Nat)-1) = new := by
          have ha := nth_add_length (nodes ++ [new]) ((0 : Nat)-1)
          rw [← ha]
          have he : ((0 : Nat) : Int)-1+((nodes ++ [new]).length : Nat) = nodes.length := by
            simp
          rw [he,nth_append_last]
        rw [if_pos (by simp),hp]
      · have hat : nth nodes i ≠ nth nodes 0 := by
          intro he
          exact hi0 (nth_inj h.nodup hlt hpos he)
        have hp : ((i : Int)-1) = (i-1 : Nat) := by omega
        rw [if_neg hat,hp,nth_append (by omega)]

end Ring

def follow (v : Links) (a : Nat) : Nat → Option Nat
  | 0 => some a
  | n+1 => (follow v a n).bind (next v)

theorem Ring.follow_nth {v : Links} {nodes : List Nat} (h : Ring v nodes) (z : Int) (n : Nat) :
    follow v (nth nodes z) n = some (nth nodes (z+n)) := by
  induction n with
  | zero => simp [follow]
  | succ n ih =>
    rw [follow,ih,Option.bind_some,h.next_nth]
    congr 2
    omega

theorem Ring.reached_iff {v : Links} {nodes : List Nat} (h : Ring v nodes) (z : Int) (a : Nat) :
    (∃ n, follow v (nth nodes z) n = some a) ↔ a ∈ nodes := by
  constructor
  · rintro ⟨n,hn⟩
    rw [h.follow_nth] at hn
    exact Option.some.inj hn ▸ nth_mem h.nonempty _
  · intro ha
    obtain ⟨i,-,hi⟩ := exists_nth ha
    have hpos := h.length_pos
    have hmod : 0 ≤ ((i : Int) - z) % nodes.length := Int.emod_nonneg _ (by omega)
    refine ⟨(((i : Int) - z) % nodes.length).toNat,?_⟩
    rw [h.follow_nth,Int.toNat_of_nonneg hmod,← hi]
    congr 1
    apply nth_congr
    rw [Int.add_emod_emod]
    congr 1
    omega

end LinkedRing
