import IntelligentAcoustics.CgiRequest

/-!
What the CGI programs read of their buffer. The length comes from `CONTENT_LENGTH`, and
nobody looks at what `fgets` returns.
-/

set_option autoImplicit false

namespace IntelligentAcoustics.Cgi

def ReadsOwnData (main : Option Bytes → Bytes → Option (Option Bytes)) (env stdin : Bytes) : Prop :=
  main (some env) stdin ≠ none

/-- Nothing is announced, or a size that `malloc` refuses, or a body that is there. -/
def WellAnnounced (env stdin : Bytes) : Prop :=
  env = [] ∨ (atoi env < 2^31-1 ∧ (atoi env < -1 ∨ (0 ≤ atoi env ∧ stdin ≠ [])))

instance (env stdin : Bytes) : Decidable (WellAnnounced env stdin) :=
  inferInstanceAs (Decidable (_ ∨ _))

theorem fgets_nothing {buf : Memory} {n : Int} {stdin : Bytes} (h : n ≤ 0 ∨ stdin = []) :
    fgets buf n stdin = buf := by
  rw [fgets,if_pos h]

theorem strncmp_fresh (k : Nat) (t : Bytes) (n : Nat) :
    strncmp (List.replicate k none) t (n+1) = none := by
  cases k with
  | zero => simp [strncmp]
  | succ k => cases t <;> simp [strncmp,List.replicate_succ]

theorem cgiMain_ne_none_iff {table : List (Bytes × Bytes)} {other : Bytes}
    (ht : ∀ x ∈ table, 0 ∉ x.1) (env stdin : Bytes) :
    cgiMain table other (some env) stdin ≠ none ↔ WellAnnounced env stdin := by
  unfold WellAnnounced
  by_cases he : env = []
  · simp [cgiMain,he]
  by_cases hover : 2^31 ≤ atoi env+1
  · refine iff_of_false ?_ ?_
    · simp only [cgiMain,he,hover,if_true,if_false,ne_eq,not_true_eq_false,not_false_eq_true]
    rintro (h | ⟨h,-⟩)
    · exact he h
    · omega
  by_cases hneg : atoi env+1 < 0
  · refine iff_of_true ?_ (.inr ⟨by omega,.inl (by omega)⟩)
    simp only [cgiMain,he,hover,hneg,if_true,if_false,ne_eq,reduceCtorEq,not_false_eq_true]
  by_cases hread : 0 ≤ atoi env ∧ stdin ≠ []
  · obtain ⟨msg,hmain,-⟩ := @cgiMain_spec table other env stdin ht hread.1 (by omega) hread.2
    exact iff_of_true (by simp [hmain]) (.inr ⟨by omega,.inr hread⟩)
  · -- `fgets` stores nothing, and the first comparison reads what was never stored
    have hnothing : atoi env+1 ≤ 0 ∨ stdin = [] := by
      by_cases hs : stdin = []
      · exact .inr hs
      · exact .inl (by have hlen : ¬ 0 ≤ atoi env := fun h => hread ⟨h,hs⟩; omega)
    have hfresh := strncmp_fresh (atoi env+1).toNat (ascii "msg=" ++ [0]) 3
    refine iff_of_false ?_ ?_
    · simp only [cgiMain,he,hover,hneg,if_false,fgets_nothing hnothing,hfresh,
        Option.bind_eq_bind,Option.bind_none,ne_eq,not_true_eq_false,not_false_eq_true]
    · rintro (h | ⟨-,h | h⟩)
      · exact he h
      · omega
      · exact hread h

/-- Both programs keep to the data they were given exactly when it was well announced. -/
theorem reads_own_data_iff (env stdin : Bytes) :
    (ReadsOwnData musicMain env stdin ↔ WellAnnounced env stdin) ∧
      (ReadsOwnData aitalkMain env stdin ↔ WellAnnounced env stdin) :=
  ⟨cgiMain_ne_none_iff (by decide) env stdin,cgiMain_ne_none_iff (by decide) env stdin⟩

theorem unread_buffer_compared : musicMain (some (ascii "9")) [] = none ∧
    aitalkMain (some (ascii "9")) [] = none ∧
    musicMain (some (ascii "2147483647")) (ascii "msg=play") = none ∧
    ¬ ReadsOwnData musicMain (ascii "9") [] := by
  refine ⟨?_,?_,?_,?_⟩
  · decide
  · decide
  · decide
  · exact fun h => h (by decide)

end IntelligentAcoustics.Cgi
