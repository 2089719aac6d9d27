import Mathlib.Algebra.GroupWithZero.Nat
import Mathlib.Data.List.Perm.Basic

/-!
A population of threads as the list of their program counters. When one of them moves,
the counts and the collected possessions change by what that thread had and has.
-/

set_option autoImplicit false

namespace ThreadList
variable {β γ : Type}

theorem countP_set {l : List β} {i : Nat} {x : β} (h : l[i]? = some x) (y : β) (p : β → Bool) :
    (l.set i y).countP p + (if p x then 1 else 0) = l.countP p + (if p y then 1 else 0) := by
  induction l generalizing i with
  | nil => simp at h
  | cons b l ih =>
    cases i with
    | zero =>
      simp only [List.getElem?_cons_zero, Option.some.injEq] at h
      subst h
      simp only [List.set_cons_zero, List.countP_cons]
      omega
    | succ i =>
      have hi := ih (i := i) (by simpa using h)
      simp only [List.set_cons_succ, List.countP_cons]
      omega

theorem flatMap_set {l : List β} {i : Nat} {x : β} (h : l[i]? = some x) (y : β)
    (f : β → List γ) : (f x ++ (l.set i y).flatMap f).Perm (f y ++ l.flatMap f) := by
  induction l generalizing i with
  | nil => simp at h
  | cons b l ih =>
    cases i with
    | zero =>
      simp only [List.getElem?_cons_zero, Option.some.injEq] at h
      subst h
      simpa using List.perm_append_comm_assoc (f b) (f y) (l.flatMap f)
    | succ i =>
      have hi := ih (i := i) (by simpa using h)
      simp only [List.set_cons_succ, List.flatMap_cons]
      exact (List.perm_append_comm_assoc _ _ _).trans
        ((hi.append_left (f b)).trans (List.perm_append_comm_assoc _ _ _))

theorem flatMap_set_eq {l : List β} {i : Nat} {x y : β} (h : l[i]? = some x) {f : β → List γ}
    (hf : f y = f x) : (l.set i y).flatMap f = l.flatMap f := by
  induction l generalizing i with
  | nil => simp at h
  | cons b l ih =>
    cases i with
    | zero =>
      simp only [List.getElem?_cons_zero, Option.some.injEq] at h
      subst h
      simp [hf]
    | succ i => simp [ih (i := i) (by simpa using h)]

theorem map_set_eq {l : List β} {i : Nat} {x y : β} (h : l[i]? = some x) {f : β → γ}
    (hf : f y = f x) : (l.set i y).map f = l.map f := by
  obtain ⟨hi, rfl⟩ := List.getElem?_eq_some_iff.mp h
  rw [List.map_set, hf, ← List.getElem_map f (h := by simpa using hi), List.set_getElem_self]

theorem getElem?_set_cases {l : List β} {i j : Nat} {y z : β} (h : (l.set i y)[j]? = some z) :
    (j = i ∧ z = y) ∨ (j ≠ i ∧ l[j]? = some z) := by
  by_cases hj : j = i
  · subst j
    have hi : i < l.length := by
      by_contra hn
      simp [List.getElem?_eq_none (by simpa using hn : (l.set i y).length ≤ i)] at h
    simp only [List.getElem?_set_self hi, Option.some.injEq] at h
    exact .inl ⟨rfl, h.symm⟩
  · rw [List.getElem?_set_ne (Ne.symm hj)] at h
    exact .inr ⟨hj, h⟩

theorem mem_flatMap_of_getElem? {l : List β} {i : Nat} {x : β} (h : l[i]? = some x)
    {f : β → List γ} {c : γ} (hc : c ∈ f x) : c ∈ l.flatMap f :=
  List.mem_flatMap.mpr ⟨x, List.mem_of_getElem? h, hc⟩

end ThreadList
