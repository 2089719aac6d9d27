import Mathlib.Data.List.Basic

/-!
A heap of typed blocks. An address is handed out once: `malloc` appends a block and
`free` leaves a hole, so reading a freed block is visible as `none`.
-/

set_option autoImplicit false

namespace BlockHeap

structure Heap (τ : Type) where
  cells : List (Option τ)
  deriving DecidableEq, Repr

namespace Heap
variable {τ : Type}

def empty : Heap τ := ⟨[]⟩

def size (h : Heap τ) : Nat := h.cells.length

def read (h : Heap τ) (a : Nat) : Option τ := h.cells[a]?.join

def malloc (h : Heap τ) (v : τ) : Heap τ := ⟨h.cells ++ [some v]⟩

def write (h : Heap τ) (a : Nat) (v : τ) : Heap τ := ⟨h.cells.set a (some v)⟩

def free (h : Heap τ) (a : Nat) : Heap τ := ⟨h.cells.set a none⟩

/-- A store into the fields of a block, through a pointer that must be live. -/
def update (h : Heap τ) (a : Nat) (f : τ → τ) : Option (Heap τ) :=
  (h.read a).map fun v => h.write a (f v)

@[simp] theorem size_empty : (empty : Heap τ).size = 0 := rfl

@[simp] theorem size_malloc (h : Heap τ) (v : τ) : (h.malloc v).size = h.size + 1 := by
  simp [malloc, size]

@[simp] theorem size_write (h : Heap τ) (a : Nat) (v : τ) : (h.write a v).size = h.size := by
  simp [write, size]

@[simp] theorem size_free (h : Heap τ) (a : Nat) : (h.free a).size = h.size := by
  simp [free, size]

theorem lt_size {h : Heap τ} {a : Nat} {v : τ} (hr : h.read a = some v) : a < h.size := by
  by_contra hn
  have hc : h.cells[a]? = none := List.getElem?_eq_none (by simpa [size] using hn)
  simp [read, hc] at hr

theorem read_malloc_eq (h : Heap τ) (v : τ) (a : Nat) :
    (h.malloc v).read a = if a = h.size then some v else h.read a := by
  rcases Nat.lt_trichotomy a h.cells.length with ha | ha | ha
  · simp [malloc, read, size, List.getElem?_append_left ha, Nat.ne_of_lt ha]
  · simp [malloc, read, size, ha]
  · have hn : (h.cells ++ [some v])[a]? = none := List.getElem?_eq_none (by simp; omega)
    simp [malloc, read, size, hn, Nat.ne_of_gt ha, List.getElem?_eq_none (Nat.le_of_lt ha)]

@[simp] theorem read_malloc_self (h : Heap τ) (v : τ) : (h.malloc v).read h.size = some v := by
  simp [malloc, read, size]

theorem read_malloc {h : Heap τ} {a : Nat} {w : τ} (v : τ) (hr : h.read a = some w) :
    (h.malloc v).read a = some w := by
  have ha := lt_size hr
  simpa [malloc, read, List.getElem?_append_left (show a < h.cells.length from ha)] using hr

@[simp] theorem read_write_of_ne (h : Heap τ) {a b : Nat} (v : τ) (hn : b ≠ a) :
    (h.write a v).read b = h.read b := by
  simp [write, read, List.getElem?_set_ne hn.symm]

theorem read_write_eq (h : Heap τ) (a b : Nat) (v : τ) :
    (h.write a v).read b = if b = a ∧ a < h.size then some v else h.read b := by
  by_cases hb : b = a
  · subst hb
    by_cases ha : b < h.cells.length
    · simp [write, read, size, ha]
    · simp [write, read, size, ha]
  · simp [hb, write, read, List.getElem?_set_ne (Ne.symm hb)]

theorem read_write_self {h : Heap τ} {a : Nat} {w : τ} (v : τ) (hr : h.read a = some w) :
    (h.write a v).read a = some v := by
  have ha : a < h.cells.length := lt_size hr
  simp [write, read, ha]

@[simp] theorem read_free_of_ne (h : Heap τ) {a b : Nat} (hn : b ≠ a) :
    (h.free a).read b = h.read b := by
  simp [free, read, List.getElem?_set_ne hn.symm]

@[simp] theorem read_free_self (h : Heap τ) (a : Nat) : (h.free a).read a = none := by
  by_cases ha : a < h.cells.length
  · simp [free, read, ha]
  · simp [free, read, ha]

theorem update_live {h : Heap τ} {a : Nat} (f : τ → τ) (hr : h.read a ≠ none) :
    ∃ h', h.update a f = some h' := by
  obtain ⟨v, hv⟩ := Option.ne_none_iff_exists'.mp hr
  exact ⟨h.write a (f v), by simp [update, hv]⟩

theorem map_read_update {σ : Type} {h h' : Heap τ} {a : Nat} {f : τ → τ} {v : τ → σ} {g : σ → σ}
    (hu : h.update a f = some h') (hf : ∀ m, v (f m) = g (v m)) (b : Nat) :
    (h'.read b).map v = if b = a then ((h.read b).map v).map g else (h.read b).map v := by
  obtain ⟨m, hm, rfl⟩ := Option.map_eq_some_iff.mp hu
  rw [read_write_eq]
  by_cases hb : b = a
  · subst hb
    simp [lt_size hm, hm, hf]
  · simp [hb]

theorem read_update_ne_none {h h' : Heap τ} {a b : Nat} {f : τ → τ}
    (hu : h.update a f = some h') : h'.read b ≠ none ↔ h.read b ≠ none := by
  have hm := map_read_update (v := fun _ => ()) (g := id) hu (fun _ => rfl) b
  simp only [Option.map_id, id, ite_self] at hm
  cases hx : h.read b <;> cases hy : h'.read b <;> simp_all

end Heap
end BlockHeap
