import Mathlib.Algebra.Group.Int.Defs

/-!
The time that `select` is given: `SocketSelect` splits the milliseconds into seconds and
microseconds, the CGI programs put all of them into the microseconds.
-/

set_option autoImplicit false

namespace IntelligentAcoustics

def FitsInt (i : Int) : Prop := -2^31 ≤ i ∧ i < 2^31

instance (i : Int) : Decidable (FitsInt i) := inferInstanceAs (Decidable (_ ∧ _))

/-- Multiplication of two `int`s; there is no value when it overflows. -/
def mulInt (a b : Int) : Option Int := if FitsInt (a*b) then some (a*b) else none

structure Timeval where
  tvSec : Int
  tvUsec : Int
  deriving DecidableEq, Repr

/-- In `SocketSelect` of `msr/socket.c`. -/
def socketSelectTimeval (timeoutMs : Int) : Option Timeval := do
  let tvUsec ← mulInt (timeoutMs.tmod 1000) 1000
  some ⟨timeoutMs.tdiv 1000,tvUsec⟩

/-- In `socket_connect2` of `boa_jpg/src/music.c` and `aitalk.c`. -/
def socketConnect2Timeval (timeoutMs : Int) : Option Timeval := do
  let tvUsec ← mulInt timeoutMs 1000
  some ⟨0,tvUsec⟩

def socketSendTimeval (timeoutMs : Int) : Option Timeval := socketConnect2Timeval timeoutMs

structure Timeval.Exact (tv : Timeval) (timeoutMs : Int) : Prop where
  exact : tv.tvSec * 10^6 + tv.tvUsec = 1000 * timeoutMs
  nonneg : 0 ≤ tv.tvUsec
  normalised : tv.tvUsec < 10^6

def Converts (timeval : Int → Option Timeval) (timeoutMs : Int) : Prop :=
  ∃ tv, timeval timeoutMs = some tv ∧ tv.Exact timeoutMs

variable {timeoutMs : Int}

theorem mulInt_eq_some {a b c : Int} : mulInt a b = some c ↔ FitsInt (a*b) ∧ c = a*b := by
  simp [mulInt,eq_comm]

theorem exact_split {q r : Int} (hsplit : 1000 * q + r = timeoutMs) (h0 : 0 ≤ r) (hlt : r < 1000) :
    mulInt r 1000 = some (r * 1000) ∧ (Timeval.mk q (r * 1000)).Exact timeoutMs := by
  have hfits : FitsInt (r * 1000) := by
    unfold FitsInt
    omega
  refine ⟨if_pos hfits,?_,?_,?_⟩ <;> simp only <;> omega

theorem socketSelect_converts (h0 : 0 ≤ timeoutMs) : Converts socketSelectTimeval timeoutMs := by
  obtain ⟨hmul,hexact⟩ := exact_split (Int.mul_tdiv_add_tmod timeoutMs 1000)
    (Int.tmod_nonneg 1000 h0) (Int.tmod_lt_of_pos timeoutMs (by decide))
  exact ⟨_,by simp only [socketSelectTimeval,hmul,Option.bind_eq_bind,Option.bind_some],hexact⟩

theorem socketConnect2_converts_iff (h0 : 0 ≤ timeoutMs) :
    Converts socketConnect2Timeval timeoutMs ↔ timeoutMs < 1000 := by
  constructor
  · rintro ⟨tv,htv,h⟩
    simp only [socketConnect2Timeval,Option.bind_eq_bind,Option.bind_eq_some_iff,
      mulInt_eq_some,Option.some.injEq] at htv
    obtain ⟨_,⟨-,rfl⟩,rfl⟩ := htv
    have hlt := h.normalised
    simp only at hlt
    omega
  · intro hlt
    obtain ⟨hmul,hexact⟩ := exact_split (q := 0) (Int.zero_add timeoutMs) h0 hlt
    exact ⟨_,by simp only [socketConnect2Timeval,hmul,Option.bind_eq_bind,Option.bind_some],hexact⟩

/-- The conversions agree exactly below one second. -/
theorem timeouts_agree_iff (h0 : 0 ≤ timeoutMs) :
    (Converts socketSelectTimeval timeoutMs ∧ Converts socketConnect2Timeval timeoutMs ∧
      Converts socketSendTimeval timeoutMs) ↔ timeoutMs < 1000 := by
  have hconnect := socketConnect2_converts_iff h0
  exact ⟨fun hc => hconnect.mp hc.2.1,
    fun hlt => ⟨socketSelect_converts h0,hconnect.mpr hlt,hconnect.mpr hlt⟩⟩

theorem timeouts_agree_iff_halfSecond : Converts socketSelectTimeval 500 ∧
    Converts socketConnect2Timeval 500 ∧ Converts socketSendTimeval 500 :=
  (timeouts_agree_iff (by decide)).mpr (by decide)

theorem one_second_not_normalised : socketSelectTimeval 1000 = some ⟨1,0⟩ ∧
    socketConnect2Timeval 1000 = some ⟨0,1000000⟩ ∧ ¬ Converts socketConnect2Timeval 1000 ∧
    socketConnect2Timeval 2147484 = none :=
  ⟨rfl,rfl,fun hc => absurd ((socketConnect2_converts_iff (by decide)).mp hc) (by decide),rfl⟩

end IntelligentAcoustics
