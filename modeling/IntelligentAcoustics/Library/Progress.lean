import IntelligentAcoustics.Library.Transition

/-!
Systems that come to rest. When every step of some kind lowers a measure, the runs of such
steps are bounded, and each of them can be extended until no step of the kind is possible.
-/

set_option autoImplicit false

namespace Transition
variable {σ α : Type} {step : σ → α → Outcome σ}

def Stuck (step : σ → α → Outcome σ) (G : α → Prop) (s : σ) : Prop :=
  ∀ a, G a → ∀ t, step s a ≠ .next t

/-- `μ` counts at least the steps that are left. -/
structure Falls (step : σ → α → Outcome σ) (I : σ → Prop) (G : α → Prop) (μ : σ → Nat) :
    Prop where
  keeps : ∀ s a t, I s → step s a = .next t → I t
  lowers : ∀ s a t, I s → G a → step s a = .next t → μ t < μ s

variable {I : σ → Prop} {G : α → Prop} {μ : σ → Nat}

theorem Falls.run_length (h : Falls step I G μ) {s t : σ} {as : List α}
    (hr : run step s as = .next t) (ha : ∀ a ∈ as, G a) (hs : I s) :
    as.length + μ t ≤ μ s := by
  induction as generalizing s with
  | nil =>
    simp only [run_nil,Outcome.next.injEq] at hr
    simp [hr]
  | cons a as ih =>
    simp only [run_cons,Outcome.bind_eq_next] at hr
    obtain ⟨u,hu,hr⟩ := hr
    have hlow := h.lowers s a u hs (ha a (by simp)) hu
    have hrest := ih hr (fun b hb => ha b (by simp [hb])) (h.keeps s a u hs hu)
    simp only [List.length_cons]
    omega

end Transition
