import IntelligentAcoustics.Library.Transition

/-!
Refinement of a system whose calls take many steps by one where each call is one action.
Calls are performed in the order in which they came. What else happens keeps its order too,
but may come before a call that was under way.
-/

set_option autoImplicit false

namespace Transition

/-- A step of the system is matched by actions that perform the calls it has completed;
`pending` is the call under way. -/
structure Serialises {σ τ α β ℓ κ : Type} (step : σ → α → Outcome σ) (G : σ → α → Prop)
    (act : τ → β → τ) (R : τ → σ → Prop) (heard : α → Option ℓ) (performs : β → Option ℓ)
    (pending : σ → Option ℓ) (happens : α → Option κ) (happens' : β → Option κ) : Prop where
  matched : ∀ t s a s', R t s → G s a → step s a = .next s' → ∃ bs : List β, R (bs.foldl act t) s' ∧
    (pending s).toList ++ (heard a).toList = bs.filterMap performs ++ (pending s').toList ∧
    (happens a).toList = bs.filterMap happens'

variable {σ τ α β ℓ κ : Type} {step : σ → α → Outcome σ} {G : σ → α → Prop} {act : τ → β → τ}
  {R : τ → σ → Prop} {heard : α → Option ℓ} {performs : β → Option ℓ} {pending : σ → Option ℓ}
  {happens : α → Option κ} {happens' : β → Option κ}

theorem filterMap_cons_toList {γ δ : Type} (f : γ → Option δ) (c : γ) (cs : List γ) :
    (c :: cs).filterMap f = (f c).toList ++ cs.filterMap f := by
  cases h : f c <;> simp [h]

theorem Serialises.run (h : Serialises step G act R heard performs pending happens happens')
    {t : τ} {s s' : σ} {as : List α} (hR : R t s) (hG : Along step G s as)
    (hs : run step s as = .next s') : ∃ bs : List β, R (bs.foldl act t) s' ∧
      (pending s).toList ++ as.filterMap heard = bs.filterMap performs ++ (pending s').toList ∧
      as.filterMap happens = bs.filterMap happens' := by
  induction as generalizing s t with
  | nil =>
    simp only [run_nil,Outcome.next.injEq] at hs
    subst hs
    exact ⟨[],hR,by simp,by simp⟩
  | cons a as ih =>
    simp only [run_cons,Outcome.bind_eq_next] at hs
    obtain ⟨u,hu,hs⟩ := hs
    obtain ⟨hg,hG⟩ := hG u hu
    obtain ⟨bs,hbs,hcalls,hothers⟩ := h.matched t s a u hR hg hu
    obtain ⟨bs',hbs',hcalls',hothers'⟩ := ih hbs hG hs
    refine ⟨bs ++ bs',by rwa [List.foldl_append],?_,?_⟩
    · rw [filterMap_cons_toList,← List.append_assoc,hcalls,List.append_assoc,hcalls',
        List.filterMap_append,List.append_assoc]
    · rw [filterMap_cons_toList,hothers,hothers',List.filterMap_append]

end Transition
