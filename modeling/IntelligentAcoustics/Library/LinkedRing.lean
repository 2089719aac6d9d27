import Mathlib.Tactic.Common

/-!
Doubly linked rings in a heap, locally: every link of a live node leads to a live node
whose opposite link leads back. Inserting and unlinking a node preserve this.
-/

set_option autoImplicit false

namespace LinkedRing

/-- The `next` and `prev` pointers of the node at an address, if there is one. -/
abbrev Links := Nat → Option (Option Nat × Option Nat)

def next (v : Links) (a : Nat) : Option Nat := (v a).bind Prod.fst

def prev (v : Links) (a : Nat) : Option Nat := (v a).bind Prod.snd

def Linked (v : Links) : Prop :=
  ∀ a, v a ≠ none → ∃ n p, v a = some (some n, some p) ∧ prev v n = some a ∧ next v p = some a

theorem live_of_prev {v : Links} {a b : Nat} (h : prev v a = some b) : v a ≠ none := by
  intro hn
  simp [prev,hn] at h

theorem live_of_next {v : Links} {a b : Nat} (h : next v a = some b) : v a ≠ none := by
  intro hn
  simp [next,hn] at h

/-- The links after `p->prev->next = p->next; p->next->prev = p->prev; free(p)`, where
`n` and `m` are the two neighbours of `p`. -/
def unlink (v : Links) (p n m : Nat) : Links := fun a =>
  if a = p then none
  else (v a).map fun x => (if a = m then some n else x.1, if a = n then some m else x.2)

theorem next_unlink {v : Links} {p n m a : Nat} (ha : a ≠ p) (hv : v a ≠ none) :
    next (unlink v p n m) a = if a = m then some n else next v a := by
  cases hx : v a with
  | none => exact absurd hx hv
  | some x => simp [next,unlink,ha,hx]

theorem prev_unlink {v : Links} {p n m a : Nat} (ha : a ≠ p) (hv : v a ≠ none) :
    prev (unlink v p n m) a = if a = n then some m else prev v a := by
  cases hx : v a with
  | none => exact absurd hx hv
  | some x => simp [prev,unlink,ha,hx]

theorem unlink_linked {v : Links} (h : Linked v) {p n m : Nat}
    (hp : v p = some (some n, some m)) (hn : n ≠ p) : Linked (unlink v p n m) := by
  obtain ⟨n',m',hp',hnp,hmp⟩ := h p (by simp [hp])
  rw [hp] at hp'
  simp only [Option.some.injEq,Prod.mk.injEq] at hp'
  obtain ⟨rfl,rfl⟩ := hp'
  have hm : m ≠ p := by
    rintro rfl
    simp [next,hp] at hmp
    exact hn hmp
  intro a ha
  have hap : a ≠ p := by
    rintro rfl
    simp [unlink] at ha
  have hv : v a ≠ none := by
    intro hz
    simp [unlink,hap,hz] at ha
  obtain ⟨b,c,hab,hba,hca⟩ := h a hv
  refine ⟨if a = m then n else b,if a = n then m else c,?_,?_,?_⟩
  · simp only [unlink,hap,if_false,hab,Option.map_some,Option.some.injEq,Prod.mk.injEq]
    exact ⟨by split <;> rfl,by split <;> rfl⟩
  · split
    · rename_i ham
      rw [prev_unlink hn (live_of_prev hnp),if_pos rfl,ham]
    · rename_i ham
      have hbp : b ≠ p := by
        rintro rfl
        simp only [prev,hp,Option.bind_some,Option.some.injEq] at hba
        exact ham hba.symm
      have hbn : b ≠ n := by
        rintro rfl
        rw [hba] at hnp
        exact hap (Option.some.inj hnp)
      rw [prev_unlink hbp (live_of_prev hba),if_neg hbn,hba]
  · split
    · rename_i han
      rw [next_unlink hm (live_of_next hmp),if_pos rfl,han]
    · rename_i han
      have hcp : c ≠ p := by
        rintro rfl
        simp only [next,hp,Option.bind_some,Option.some.injEq] at hca
        exact han hca.symm
      have hcm : c ≠ m := by
        rintro rfl
        rw [hca] at hmp
        exact hap (Option.some.inj hmp)
      rw [next_unlink hcp (live_of_next hca),if_neg hcm,hca]

def insert (v : Links) (new h p : Nat) : Links := fun a =>
  if a = new then some (some h, some p)
  else (v a).map fun x => (if a = p then some new else x.1, if a = h then some new else x.2)

theorem next_insert {v : Links} {new h p a : Nat} (ha : a ≠ new) (hv : v a ≠ none) :
    next (insert v new h p) a = if a = p then some new else next v a := by
  cases hx : v a with
  | none => exact absurd hx hv
  | some x => simp [next,insert,ha,hx]

theorem prev_insert {v : Links} {new h p a : Nat} (ha : a ≠ new) (hv : v a ≠ none) :
    prev (insert v new h p) a = if a = h then some new else prev v a := by
  cases hx : v a with
  | none => exact absurd hx hv
  | some x => simp [prev,insert,ha,hx]

theorem insert_linked {v : Links} (hl : Linked v) {new h p : Nat} (hnew : v new = none)
    (hp : prev v h = some p) : Linked (insert v new h p) := by
  have hlive := live_of_prev hp
  have hhn : h ≠ new := fun he => hlive (he ▸ hnew)
  obtain ⟨n₀,p₀,hh,-,hph⟩ := hl h hlive
  have hpp : p₀ = p := by
    simp only [prev,hh,Option.bind_some,Option.some.injEq] at hp
    exact hp
  subst hpp
  have hpn : p₀ ≠ new := fun he => live_of_next hph (he ▸ hnew)
  intro a ha
  by_cases han : a = new
  · subst han
    refine ⟨h,p₀,by simp [insert],?_,?_⟩
    · rw [prev_insert hhn hlive,if_pos rfl]
    · rw [next_insert hpn (live_of_next hph),if_pos rfl]
  · have hv : v a ≠ none := by
      intro hz
      simp [insert,han,hz] at ha
    obtain ⟨b,c,hab,hba,hca⟩ := hl a hv
    refine ⟨if a = p₀ then new else b,if a = h then new else c,?_,?_,?_⟩
    · simp only [insert,han,if_false,hab,Option.map_some,Option.some.injEq,Prod.mk.injEq]
      exact ⟨by split <;> rfl,by split <;> rfl⟩
    · split
      · rename_i hap
        simp [prev,insert,hap]
      · rename_i hap
        have hbn : b ≠ new := fun he => live_of_prev hba (he ▸ hnew)
        have hbh : b ≠ h := by
          rintro rfl
          rw [hba] at hp
          exact hap (Option.some.inj hp)
        rw [prev_insert hbn (live_of_prev hba),if_neg hbh,hba]
    · split
      · rename_i hah
        simp [next,insert,hah]
      · rename_i hah
        have hcn : c ≠ new := fun he => live_of_next hca (he ▸ hnew)
        have hcp : c ≠ p₀ := by
          rintro rfl
          rw [hca] at hph
          exact hah (Option.some.inj hph)
        rw [next_insert hcn (live_of_next hca),if_neg hcp,hca]

theorem ring_linked {v : Links} (hl : Linked v) {new : Nat} (hnew : v new = none) :
    Linked fun a => if a = new then some (some new, some new) else v a := by
  intro a ha
  by_cases han : a = new
  · subst han
    exact ⟨a,a,by simp,by simp [prev],by simp [next]⟩
  · obtain ⟨b,c,hab,hba,hca⟩ := hl a (by simpa [han] using ha)
    have hbn : b ≠ new := fun he => live_of_prev hba (he ▸ hnew)
    have hcn : c ≠ new := fun he => live_of_next hca (he ▸ hnew)
    refine ⟨b,c,by simp [han,hab],?_,?_⟩
    · simpa [prev,hbn] using hba
    · simpa [next,hcn] using hca

end LinkedRing
