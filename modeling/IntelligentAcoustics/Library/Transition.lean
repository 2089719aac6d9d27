import Mathlib.Data.List.Basic

/-!
Labelled transition systems given by a step function. A step may be disabled, may fault,
or leads to one state; a schedule is the list of the labels taken.
-/

set_option autoImplicit false

namespace Transition

inductive Outcome (σ : Type) where
  | blocked | fault | next (s : σ)
  deriving DecidableEq, Repr

def Outcome.bind {σ τ : Type} : Outcome σ → (σ → Outcome τ) → Outcome τ
  | .blocked, _ => .blocked
  | .fault, _ => .fault
  | .next s, f => f s

@[simp] theorem Outcome.next_bind {σ τ : Type} (s : σ) (f : σ → Outcome τ) :
    (Outcome.next s).bind f = f s := rfl

@[simp] theorem Outcome.bind_eq_next {σ τ : Type} {o : Outcome σ} {f : σ → Outcome τ} {t : τ} :
    o.bind f = .next t ↔ ∃ s, o = .next s ∧ f s = .next t := by
  cases o <;> simp [Outcome.bind]

theorem Outcome.map_eq_next {σ τ : Type} {o : Outcome σ} {f : σ → τ} {t : τ} :
    (o.bind fun s => .next (f s)) = .next t ↔ ∃ s, o = .next s ∧ t = f s := by
  simp only [Outcome.bind_eq_next, Outcome.next.injEq]
  exact exists_congr fun s => and_congr_right fun _ => eq_comm

theorem Outcome.bind_assoc {σ τ υ : Type} (o : Outcome σ) (f : σ → Outcome τ)
    (g : τ → Outcome υ) : (o.bind f).bind g = o.bind fun s => (f s).bind g := by
  cases o <;> rfl

theorem Outcome.bind_ne_fault {σ τ : Type} {o : Outcome σ} {f : σ → Outcome τ}
    (ho : o ≠ .fault) (hf : ∀ s, f s ≠ .fault) : o.bind f ≠ .fault := by
  cases o with
  | blocked => simp [Outcome.bind]
  | fault => exact absurd rfl ho
  | next s => exact hf s

theorem Outcome.bind_ne_blocked {σ τ : Type} {o : Outcome σ} {f : σ → Outcome τ}
    (ho : o ≠ .blocked) (hf : ∀ s, f s ≠ .blocked) : o.bind f ≠ .blocked := by
  cases o with
  | blocked => exact absurd rfl ho
  | fault => simp [Outcome.bind]
  | next s => exact hf s

def Outcome.ofOption {σ : Type} : Option σ → Outcome σ
  | none => .fault
  | some s => .next s

@[simp] theorem Outcome.ofOption_bind {σ τ : Type} (o : Option σ) (f : σ → τ) :
    ((Outcome.ofOption o).bind fun s => .next (f s)) = .ofOption (o.map f) := by
  cases o <;> rfl

theorem Outcome.next_unique {σ τ : Type} {o : Outcome (σ × τ)} {s s' : σ} {t t' : τ}
    (h : o = .next (s, t)) (h' : o = .next (s', t')) : s' = s ∧ t' = t := by
  rw [h] at h'
  simpa [eq_comm] using h'

theorem guard_eq_next {σ : Type} {c : Prop} [Decidable c] {o : Outcome σ} {t : σ} :
    (if c then o else .blocked) = .next t ↔ c ∧ o = .next t := by
  split <;> simp_all

section
variable {σ α : Type} (step : σ → α → Outcome σ)

/-- Follow a schedule; it ends at the first step that is disabled or faults. -/
def run : σ → List α → Outcome σ
  | s, [] => .next s
  | s, a :: as => (step s a).bind fun t => run t as

def Reachable (s t : σ) : Prop := ∃ as, run step s as = .next t

def Always (P : σ → Prop) : σ → List α → Prop
  | s, [] => P s
  | s, a :: as => P s ∧ ∀ t, step s a = .next t → Always P t as

/-- Every step that the schedule takes is taken in a state where `G` allows it. -/
def Along (G : σ → α → Prop) : σ → List α → Prop
  | _, [] => True
  | s, a :: as => ∀ t, step s a = .next t → G s a ∧ Along G t as

/-- The same system where only the steps that `G` allows are enabled. -/
def restrict (G : σ → α → Bool) (s : σ) (a : α) : Outcome σ :=
  if G s a then step s a else .blocked

end

variable {σ α : Type} {step : σ → α → Outcome σ}

@[simp] theorem run_nil (s : σ) : run step s [] = .next s := rfl

@[simp] theorem run_cons (s : σ) (a : α) (as : List α) :
    run step s (a :: as) = (step s a).bind fun t => run step t as := rfl

theorem run_append {s t : σ} {as : List α} (h : run step s as = .next t) (bs : List α) :
    run step s (as ++ bs) = run step t bs := by
  induction as generalizing s with
  | nil => simp only [run_nil, Outcome.next.injEq] at h; subst h; rfl
  | cons a as ih =>
    simp only [run_cons, Outcome.bind_eq_next] at h
    obtain ⟨u, hu, hr⟩ := h
    simp [hu, ih hr]

theorem invariant_run {I : σ → Prop} (hI : ∀ s a t, I s → step s a = .next t → I t)
    {s t : σ} {as : List α} (h : run step s as = .next t) (hs : I s) : I t := by
  induction as generalizing s with
  | nil => simp only [run_nil, Outcome.next.injEq] at h; exact h ▸ hs
  | cons a as ih =>
    simp only [run_cons, Outcome.bind_eq_next] at h
    obtain ⟨u, hu, hr⟩ := h
    exact ih hr (hI s a u hs hu)

theorem invariant_reachable {I : σ → Prop} (hI : ∀ s a t, I s → step s a = .next t → I t)
    {s t : σ} (h : Reachable step s t) (hs : I s) : I t := by
  obtain ⟨as, h⟩ := h
  exact invariant_run hI h hs

/-- What the steps of a schedule show, each in the state in which it is taken. -/
def trace {ε : Type} (step : σ → α → Outcome σ) (out : σ → α → List ε) : σ → List α → List ε
  | _, [] => []
  | s, a :: as =>
    match step s a with
    | .next t => out s a ++ trace step out t as
    | .blocked | .fault => []

section
variable {ε : Type} (out : σ → α → List ε)

theorem trace_cons {s t : σ} {a : α} (h : step s a = .next t) (as : List α) :
    trace step out s (a :: as) = out s a ++ trace step out t as := by
  simp [trace, h]

theorem invariant_trace {I : σ → List ε → Prop}
    (hI : ∀ s xs a t, I s xs → step s a = .next t → I t (xs ++ out s a))
    {s t : σ} {as : List α} {xs : List ε} (h : run step s as = .next t) (hs : I s xs) :
    I t (xs ++ trace step out s as) := by
  induction as generalizing s xs with
  | nil =>
    simp only [run_nil, Outcome.next.injEq] at h
    simpa [trace, h] using hs
  | cons a as ih =>
    simp only [run_cons, Outcome.bind_eq_next] at h
    obtain ⟨u, hu, hr⟩ := h
    rw [trace_cons out hu, ← List.append_assoc]
    exact ih hr (hI s xs a u hs hu)

theorem trace_map {γ : Type} {f : ε → γ} {g : α → γ} (hf : ∀ s a, (out s a).map f = [g a])
    {s t : σ} {as : List α} (h : run step s as = .next t) :
    (trace step out s as).map f = as.map g := by
  induction as generalizing s with
  | nil => rfl
  | cons a as ih =>
    simp only [run_cons, Outcome.bind_eq_next] at h
    obtain ⟨u, hu, hr⟩ := h
    rw [trace_cons out hu, List.map_append, hf, ih hr, List.map_cons, List.singleton_append]

end

theorem invariant_schedule {I : σ → List α → Prop}
    (hI : ∀ s as a t, I s as → step s a = .next t → I t (as ++ [a]))
    {s t : σ} {as : List α} (h : run step s as = .next t) (hs : I s []) : I t as := by
  have hinv := invariant_trace (fun _ a => [a]) hI h hs
  have hall := trace_map (f := id) (g := id) (fun _ a => [a]) (fun _ _ => rfl) h
  rw [List.map_id, List.map_id] at hall
  rwa [hall, List.nil_append] at hinv

theorem Always.head {P : σ → Prop} {s : σ} {as : List α} (h : Always step P s as) : P s := by
  cases as with
  | nil => exact h
  | cons a as => exact h.1

theorem Always.last {P : σ → Prop} {s t : σ} {as : List α} (h : Always step P s as)
    (hr : run step s as = .next t) : P t := by
  induction as generalizing s with
  | nil => simp only [run_nil, Outcome.next.injEq] at hr; exact hr ▸ h
  | cons a as ih =>
    simp only [run_cons, Outcome.bind_eq_next] at hr
    obtain ⟨u, hu, hr⟩ := hr
    exact ih (h.2 u hu) hr

/-- An invariant that only the steps allowed by `G` preserve holds along a schedule
whose steps are all allowed. -/
theorem always_of_along {I P : σ → Prop} {G : σ → α → Prop}
    (hI : ∀ s a t, I s → G s a → step s a = .next t → I t) (hP : ∀ s, I s → P s)
    {s : σ} {as : List α} (hs : I s) (h : Along step G s as) : Always step P s as := by
  induction as generalizing s with
  | nil => exact hP s hs
  | cons a as ih =>
    refine ⟨hP s hs, fun t ht => ?_⟩
    obtain ⟨hg, hrest⟩ := h t ht
    exact ih (hI s a t hs hg ht) hrest

theorem always_of_invariant {I P : σ → Prop} (hI : ∀ s a t, I s → step s a = .next t → I t)
    (hP : ∀ s, I s → P s) {s : σ} (hs : I s) (as : List α) : Always step P s as := by
  induction as generalizing s with
  | nil => exact hP s hs
  | cons a as ih => exact ⟨hP s hs, fun t ht => ih (hI s a t hs ht)⟩

theorem invariant_run_of_always {I P : σ → Prop}
    (hI : ∀ s a t, I s → P t → step s a = .next t → I t) {s t : σ} {as : List α}
    (ha : Always step P s as) (h : run step s as = .next t) (hs : I s) : I t := by
  induction as generalizing s with
  | nil => simp only [run_nil, Outcome.next.injEq] at h; exact h ▸ hs
  | cons a as ih =>
    simp only [run_cons, Outcome.bind_eq_next] at h
    obtain ⟨u, hu, hr⟩ := h
    exact ih (ha.2 u hu) hr (hI s a u hs (ha.2 u hu).head hu)

theorem along_of_forall {G : σ → α → Prop} {as : List α} (h : ∀ a ∈ as, ∀ s, G s a) (s : σ) :
    Along step G s as := by
  induction as generalizing s with
  | nil => trivial
  | cons a as ih =>
    exact fun t _ => ⟨h a (by simp) s, ih (fun b hb => h b (by simp [hb])) t⟩

theorem along_of_invariant {I : σ → Prop} {G : α → Prop} {T : σ → α → Prop}
    (hI : ∀ s a t, I s → G a → step s a = .next t → I t) (hT : ∀ s a, I s → G a → T s a)
    {as : List α} (ha : ∀ a ∈ as, G a) {s : σ} (hs : I s) : Along step T s as := by
  induction as generalizing s with
  | nil => trivial
  | cons a as ih =>
    have hg := ha a (by simp)
    exact fun t ht => ⟨hT s a hs hg, ih (fun b hb => ha b (by simp [hb])) (hI s a t hs hg ht)⟩

theorem invariant_run_of_forall {I : σ → Prop} {G : α → Prop}
    (hI : ∀ s a t, I s → G a → step s a = .next t → I t) {s t : σ} {as : List α}
    (h : run step s as = .next t) (ha : ∀ a ∈ as, G a) (hs : I s) : I t := by
  have halong : Along step (fun _ a => G a) s as := along_of_forall (fun a hm _ => ha a hm) s
  exact (always_of_along hI (fun _ hi => hi) hs halong).last h

/-- When moreover a step that `G` forbids leads straight out of `P`, keeping `P` is the same
as obeying `G`. -/
theorem always_iff_along {I P : σ → Prop} {G : σ → α → Prop}
    (hI : ∀ s a t, I s → G s a → step s a = .next t → I t) (hP : ∀ s, I s → P s)
    (hG : ∀ s a t, I s → step s a = .next t → P t → G s a)
    {s : σ} (hs : I s) (as : List α) : Always step P s as ↔ Along step G s as := by
  constructor
  · intro h
    induction as generalizing s with
    | nil => trivial
    | cons a as ih =>
      intro t ht
      have hg := hG s a t hs ht (h.2 t ht).head
      exact ⟨hg, ih (hI s a t hs hg ht) (h.2 t ht)⟩
  · exact always_of_along hI hP hs

theorem always_iff_along_of_invariant {I P : σ → Prop} {G : σ → α → Prop}
    (hI : ∀ s a t, I s → step s a = .next t → I t)
    (hG : ∀ s a t, I s → P s → step s a = .next t → (P t ↔ G s a))
    {s : σ} (hs : I s) (hp : P s) (as : List α) : Always step P s as ↔ Along step G s as := by
  induction as generalizing s with
  | nil => exact iff_of_true hp trivial
  | cons a as ih =>
    constructor
    · intro h t ht
      have hpt := (h.2 t ht).head
      exact ⟨(hG s a t hs hp ht).mp hpt, (ih (hI s a t hs ht) hpt).mp (h.2 t ht)⟩
    · refine fun h => ⟨hp, fun t ht => ?_⟩
      obtain ⟨hg, hrest⟩ := h t ht
      exact (ih (hI s a t hs ht) ((hG s a t hs hp ht).mpr hg)).mpr hrest

instance decidableAlong {G : σ → α → Prop} [∀ s a, Decidable (G s a)] :
    ∀ s as, Decidable (Along step G s as)
  | _, [] => .isTrue trivial
  | s, a :: as =>
    match h : step s a with
    | .next t =>
      have : Decidable (Along step G t as) := decidableAlong t as
      decidable_of_iff (G s a ∧ Along step G t as) (by simp [Along, h])
    | .blocked => .isTrue (by simp [Along, h])
    | .fault => .isTrue (by simp [Along, h])

theorem restrict_next {G : σ → α → Bool} {s t : σ} {a : α}
    (h : restrict step G s a = .next t) : G s a = true ∧ step s a = .next t := by
  unfold restrict at h
  split at h
  · exact ⟨‹_›, h⟩
  · simp at h

theorem run_of_restrict {G : σ → α → Bool} {s t : σ} {as : List α}
    (h : run (restrict step G) s as = .next t) : run step s as = .next t := by
  induction as generalizing s with
  | nil => exact h
  | cons a as ih =>
    simp only [run_cons, Outcome.bind_eq_next] at h ⊢
    obtain ⟨u, hu, hr⟩ := h
    exact ⟨u, (restrict_next hu).2, ih hr⟩

theorem Reachable.of_restrict {G : σ → α → Bool} {s t : σ}
    (h : Reachable (restrict step G) s t) : Reachable step s t := by
  obtain ⟨as, h⟩ := h
  exact ⟨as, run_of_restrict h⟩

theorem restrict_ne_fault {G : σ → α → Bool} {s : σ} {a : α} (h : step s a ≠ .fault) :
    restrict step G s a ≠ .fault := by
  unfold restrict
  split
  · exact h
  · simp

end Transition
