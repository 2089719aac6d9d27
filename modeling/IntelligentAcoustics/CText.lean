import Mathlib.Algebra.Group.Nat.Defs
import Mathlib.Data.List.Basic

/-!
Bytes and C strings, and the `Atoi` that both command loops of the player use.
-/

set_option autoImplicit false

namespace IntelligentAcoustics

abbrev Bytes := List UInt8

def ascii (s : String) : Bytes := s.toList.map fun c => c.toNat.toUInt8

/-- What a C string function reads: the bytes before the first NUL. -/
def cString (buf : Bytes) : Bytes := buf.takeWhile (· ≠ 0)

/-- `sprintf` of `s` into a buffer: what lies behind the NUL keeps its old bytes, and a
string that does not fit is an overflow. -/
def sprintf (buf s : Bytes) : Option Bytes :=
  if s.length < buf.length then some (s ++ 0 :: buf.drop (s.length+1)) else none

def cStringIn (buf : Bytes) : Option Bytes := if 0 ∈ buf then some (cString buf) else none

def decimal (i : Int) : Bytes :=
  let digits := (Nat.toDigits 10 i.natAbs).map fun c => c.toNat.toUInt8
  if i < 0 then 45 :: digits else digits

def atoi (p : UInt8) : Int := if 48 ≤ p ∧ p ≤ 57 then p.toNat - 48 else 0

@[simp] theorem cString_nil : cString [] = [] := rfl

theorem cString_cons (b : UInt8) (bs : Bytes) :
    cString (b :: bs) = if b = 0 then [] else b :: cString bs := by
  by_cases hb : b = 0 <;> simp [cString,hb]

theorem cString_append_zeros (bs : Bytes) (n : Nat) :
    cString (bs ++ List.replicate n 0) = cString bs := by
  induction bs with
  | nil => cases n <;> simp [List.replicate_succ,cString_cons]
  | cons b bs ih => simp only [List.cons_append,cString_cons,ih]

theorem cString_sprintf {s : Bytes} (hs : 0 ∉ s) (rest : Bytes) : cString (s ++ 0 :: rest) = s := by
  have hne : ∀ b ∈ s, decide (b ≠ 0) = true := fun b hb =>
    decide_eq_true fun he => hs (he ▸ hb)
  rw [cString,List.takeWhile_append_of_pos hne]
  simp

theorem cStringIn_sprintf {s : Bytes} (hs : 0 ∉ s) (rest : Bytes) :
    cStringIn (s ++ 0 :: rest) = some s := by
  simp [cStringIn,cString_sprintf hs]

theorem sprintf_eq_some {buf s buf' : Bytes} :
    sprintf buf s = some buf' ↔ s.length < buf.length ∧ buf' = s ++ 0 :: buf.drop (s.length+1) := by
  simp [sprintf,eq_comm]

theorem sprintf_length {buf s buf' : Bytes} (h : sprintf buf s = some buf') :
    buf'.length = buf.length := by
  obtain ⟨hlt,rfl⟩ := sprintf_eq_some.mp h
  simp only [List.length_append,List.length_cons,List.length_drop]
  omega

theorem cString_of_cStringIn {buf s : Bytes} (h : cStringIn buf = some s) : cString buf = s := by
  simp only [cStringIn,Option.ite_none_right_eq_some,Option.some.injEq] at h
  exact h.2

theorem decimal_of_nonneg {i : Int} (hi : 0 ≤ i) :
    decimal i = (Nat.toDigits 10 i.natAbs).map fun c => c.toNat.toUInt8 := by
  simp [decimal,Int.not_lt.mpr hi]

theorem decimal_of_neg {i : Int} (hi : i < 0) :
    decimal i = 45 :: (Nat.toDigits 10 i.natAbs).map fun c => c.toNat.toUInt8 := by
  simp [decimal,hi]

theorem mem_digits {n : Nat} {b : UInt8}
    (hb : b ∈ (Nat.toDigits 10 n).map fun c => c.toNat.toUInt8) : 48 ≤ b.toNat ∧ b.toNat ≤ 57 := by
  obtain ⟨c,hc,rfl⟩ := List.mem_map.mp hb
  have hdigit := Nat.isDigit_of_mem_toDigits (by decide) (by decide) hc
  simp only [Char.isDigit,Bool.and_eq_true,decide_eq_true_eq,ge_iff_le,UInt32.le_iff_toNat_le] at hdigit
  have hlow : 48 ≤ c.toNat := hdigit.1
  have hhigh : c.toNat ≤ 57 := hdigit.2
  have hmod : c.toNat.toUInt8.toNat = c.toNat := by
    simp only [Nat.toUInt8_eq,UInt8.toNat_ofNat']
    omega
  omega

theorem decimal_noNul (i : Int) : 0 ∉ decimal i := by
  intro h
  rcases Int.lt_or_le i 0 with hi | hi
  · rw [decimal_of_neg hi] at h
    obtain h | h := List.mem_cons.mp h
    · exact absurd h (by decide)
    · exact absurd (mem_digits h).1 (by decide)
  · rw [decimal_of_nonneg hi] at h
    exact absurd (mem_digits h).1 (by decide)

theorem decimal_ne_of_neg {i j : Int} (hi : i < 0) (hj : 0 ≤ j) : decimal i ≠ decimal j := by
  intro h
  rw [decimal_of_neg hi,decimal_of_nonneg hj] at h
  have hsign : (45 : UInt8) ∈ (Nat.toDigits 10 j.natAbs).map fun c => c.toNat.toUInt8 := by
    simp [← h]
  exact absurd (mem_digits hsign).1 (by decide)

theorem decimal_length_le {i : Int} {k : Nat} (hk : 0 < k) (hi : i.natAbs < 10^k) :
    (decimal i).length ≤ k + 1 := by
  have hdigits := (Nat.length_toDigits_le_iff (by decide) hk).mpr hi
  unfold decimal
  split <;> simp only [List.length_cons,List.length_map] <;> omega

end IntelligentAcoustics
