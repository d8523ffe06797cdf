import Mathlib.Tactic.Common

/-! # Runs of a partial step function

    A component is a function `step : σ → ι → Option σ` that takes a state and
    an input and gives the next state, or `none` where the input is not allowed
    in that state.

    * `run`: the state after a list of inputs.
    * `AllSteps`: every step of a run meets a condition on the state before it
      and the input.
    * `run_invariant`, `run_invariant_of`, `run_history_invariant_of`: what a step
      preserves, a run does.
    * `run_loop`, `run_loop_total`, `run_isSome`: a run as a loop over a list whose body may fail.
    * `run_total_of`, `run_history_total_of`, `run_lockstep`: runs that never stop,
      of one component and of two that stay related.
    * `rel_bind`, `rel_mono`: two programs that both fail or both return related results.
    * `decidableExistsResult`, `exists_result`: a property of a result can be evaluated, and
      what follows from it.
-/

namespace AxonCore.Lib

open List Option

variable {σ ι : Type}

/-- The state after the inputs, or `none` if one of them is not allowed. -/
def run (step : σ → ι → Option σ) : σ → List ι → Option σ
  | s, [] => some s
  | s, i :: is => (step s i).bind (fun s' => run step s' is)

/-- Every step of the run meets `G`. -/
def AllSteps (step : σ → ι → Option σ) (G : σ → ι → Prop) : σ → List ι → Prop
  | _, [] => True
  | s, i :: is => G s i ∧ ∀ s', step s i = some s' → AllSteps step G s' is

instance decidableAllSteps (step : σ → ι → Option σ) (G : σ → ι → Prop)
    [∀ s i, Decidable (G s i)] : (s : σ) → (is : List ι) → Decidable (AllSteps step G s is)
  | _, [] => isTrue trivial
  | s, i :: is =>
    match hstep : step s i with
    | none =>
      decidable_of_iff (G s i) ⟨fun h => ⟨h, fun _ ht => nomatch hstep.symm.trans ht⟩, And.left⟩
    | some t =>
      have := decidableAllSteps step G t is
      decidable_of_iff (G s i ∧ AllSteps step G t is)
        ⟨fun h => ⟨h.1, fun _ ht => some.inj (hstep.symm.trans ht) ▸ h.2⟩,
          fun h => ⟨h.1, h.2 t hstep⟩⟩

variable {step : σ → ι → Option σ} {s s' : σ}

@[simp] theorem run_nil : run step s [] = some s := rfl

variable {is : List ι}

theorem run_cons {i : ι} :
    run step s (i :: is) = some s' ↔ ∃ t, step s i = some t ∧ run step t is = some s' := by
  simp [run, bind_eq_some_iff]

theorem run_append {js : List ι} :
    run step s (is ++ js) = some s' ↔ ∃ t, run step s is = some t ∧ run step t js = some s' := by
  induction is generalizing s with
  | nil => simp
  | cons i is ih =>
    rw [cons_append, run_cons]
    constructor
    · rintro ⟨t, ht, hrun⟩
      obtain ⟨u, hu, hjs⟩ := ih.mp hrun
      exact ⟨u, run_cons.mpr ⟨t, ht, hu⟩, hjs⟩
    · rintro ⟨u, hu, hjs⟩
      obtain ⟨t, ht, htu⟩ := run_cons.mp hu
      exact ⟨t, ht, ih.mpr ⟨u, htu, hjs⟩⟩

variable {G : σ → ι → Prop}

variable {I : List ι → σ → Prop} {τ : Type}

/-- What every step that meets `G` preserves holds after every run whose steps all meet `G`.
    The invariant may speak of the inputs so far. -/
theorem run_history_invariant_of
    (hstep : ∀ hist s i s', I hist s → G s i → step s i = some s' → I (hist ++ [i]) s') :
    ∀ {is hist : List ι} {s s' : σ}, I hist s → AllSteps step G s is → run step s is = some s' →
      I (hist ++ is) s' := by
  intro is
  induction is with
  | nil =>
    intro hist s s' hI _ hrun
    rw [run_nil, some.injEq] at hrun
    rw [append_nil]
    exact hrun ▸ hI
  | cons i is ih =>
    intro hist s s' hI hG hrun
    obtain ⟨t, ht, hrun'⟩ := run_cons.mp hrun
    have h := ih (hstep hist s i t hI hG.1 ht) (hG.2 t ht) hrun'
    rwa [append_assoc, singleton_append] at h

theorem run_invariant_of {I : σ → Prop}
    (hstep : ∀ s i s', I s → G s i → step s i = some s' → I s') (hI : I s)
    (hG : AllSteps step G s is) (hrun : run step s is = some s') : I s' :=
  @run_history_invariant_of _ _ _ _ (fun _ => I) (fun _ => hstep) is [] s s' hI hG hrun

theorem run_congr {step' : σ → ι → Option σ} (h : ∀ i ∈ is, ∀ s, step s i = step' s i) (s : σ) :
    run step s is = run step' s is := by
  induction is generalizing s with
  | nil => rfl
  | cons i is ih =>
    have hrest := ih fun j hj => h j (mem_cons_of_mem i hj)
    simp only [run, h i mem_cons_self s, hrest]

theorem AllSteps.and {H : σ → ι → Prop} :
    ∀ {s : σ}, AllSteps step G s is → AllSteps step H s is →
      AllSteps step (fun s i => G s i ∧ H s i) s is := by
  induction is with
  | nil => exact fun _ _ => trivial
  | cons i is ih =>
    intro s hG hH
    exact ⟨⟨hG.1, hH.1⟩, fun t ht => ih (hG.2 t ht) (hH.2 t ht)⟩

theorem AllSteps.mono {H : σ → ι → Prop} (hGH : ∀ s i, G s i → H s i) :
    ∀ {s : σ}, AllSteps step G s is → AllSteps step H s is := by
  induction is with
  | nil => exact fun _ => trivial
  | cons i is ih => exact fun {s} hG => ⟨hGH s i hG.1, fun t ht => ih (hG.2 t ht)⟩

theorem allSteps_of_forall (h : ∀ i ∈ is, ∀ s, G s i) (s : σ) :
    AllSteps step G s is := by
  induction is generalizing s with
  | nil => trivial
  | cons i is ih =>
    exact ⟨h i mem_cons_self s, fun t _ => ih (fun j hj => h j (mem_cons_of_mem _ hj)) t⟩

theorem run_invariant {I : σ → Prop} (hstep : ∀ s i s', I s → step s i = some s' → I s') (hI : I s)
    (hrun : run step s is = some s') : I s' :=
  run_invariant_of (fun s i s' h _ => hstep s i s' h) hI
    (allSteps_of_forall (fun _ _ _ => trivial) s) hrun

/-- The rule for a loop: the invariant speaks of the elements still to come. -/
theorem run_loop (hstep : ∀ i is s s', I (i :: is) s → step s i = some s' → I is s') :
    ∀ {is : List ι} {s s' : σ}, I is s → run step s is = some s' → I [] s' := by
  intro is
  induction is with
  | nil =>
    intro s s' hI hrun
    rw [run_nil, some.injEq] at hrun
    exact hrun ▸ hI
  | cons i is ih =>
    intro s s' hI hrun
    obtain ⟨t, ht, hrun'⟩ := run_cons.mp hrun
    exact ih (hstep i is s t hI ht) hrun'

theorem run_loop_total (hstep : ∀ i is s, I (i :: is) s → ∃ s', step s i = some s' ∧ I is s') :
    ∀ {is : List ι} {s : σ}, I is s → ∃ s', run step s is = some s' ∧ I [] s' := by
  intro is
  induction is with
  | nil => exact fun {s} hI => ⟨s, rfl, hI⟩
  | cons i is ih =>
    intro s hI
    obtain ⟨t, ht, hI'⟩ := hstep i is s hI
    obtain ⟨s', hs', hdone⟩ := ih hI'
    exact ⟨s', run_cons.mpr ⟨t, ht, hs'⟩, hdone⟩

/-- What a loop does for each element stays done if no other round undoes it. -/
theorem run_each {I : σ → Prop} {D : σ → ι → Prop}
    (hstep : ∀ s i s', I s → step s i = some s' → I s' ∧ D s' i ∧ ∀ j, D s j → D s' j) (hI : I s)
    (hrun : run step s is = some s') : I s' ∧ ∀ i ∈ is, D s' i := by
  have hloop := run_loop (I := fun rest s => I s ∧ ∀ j ∈ is, j ∈ rest ∨ D s j) ?_
    ⟨hI, fun j hj => .inl hj⟩ hrun
  · exact ⟨hloop.1, fun j hj => (hloop.2 j hj).resolve_left not_mem_nil⟩
  · rintro i rest s s' ⟨hs, hall⟩ hs'
    obtain ⟨hI', hi, hkeep⟩ := hstep s i s' hs hs'
    refine ⟨hI', fun j hj => ?_⟩
    rcases hall j hj with hj' | hj'
    · rcases mem_cons.mp hj' with rfl | hj'
      · exact .inr hi
      · exact .inl hj'
    · exact .inr (hkeep j hj')

theorem run_isSome {I : σ → Prop} (hsome : ∀ i ∈ is, ∀ s, I s → (step s i).isSome)
    (hstep : ∀ i ∈ is, ∀ s s', I s → step s i = some s' → I s') :
    ∀ {s : σ}, I s → (run step s is).isSome := by
  induction is with
  | nil => exact fun _ => rfl
  | cons i is ih =>
    intro s hI
    obtain ⟨t, ht⟩ := isSome_iff_exists.mp (hsome i mem_cons_self s hI)
    have hrest := ih (fun j hj => hsome j (mem_cons_of_mem i hj))
      (fun j hj => hstep j (mem_cons_of_mem i hj)) (hstep i mem_cons_self s t hI ht)
    show ((step s i).bind (fun s' => run step s' is)).isSome
    rw [ht]
    exact hrest

/-- A run whose steps all meet `G` goes through if every step that meets `G` does where the
    invariant holds. -/
theorem run_history_total_of
    (hstep : ∀ hist s i, I hist s → G s i → ∃ s', step s i = some s' ∧ I (hist ++ [i]) s') :
    ∀ {is hist : List ι} {s : σ}, I hist s → AllSteps step G s is →
      ∃ s', run step s is = some s' ∧ I (hist ++ is) s' := by
  intro is
  induction is with
  | nil =>
    intro hist s hI _
    refine ⟨s, rfl, ?_⟩
    rwa [append_nil]
  | cons i is ih =>
    intro hist s hI hG
    obtain ⟨t, ht, hI'⟩ := hstep hist s i hI hG.1
    obtain ⟨s', hs', hI''⟩ := ih hI' (hG.2 t ht)
    refine ⟨s', run_cons.mpr ⟨t, ht, hs'⟩, ?_⟩
    rwa [append_assoc, singleton_append] at hI''

theorem run_total_of {I : σ → Prop} (hstep : ∀ s i, I s → G s i → ∃ s', step s i = some s' ∧ I s')
    (hI : I s) (hG : AllSteps step G s is) : ∃ s', run step s is = some s' ∧ I s' :=
  @run_history_total_of _ _ _ _ (fun _ => I) (fun _ => hstep) is [] s hI hG

/-- A component that can follow every step of a run follows the run. -/
theorem run_simulates {step' : τ → ι → Option τ} {R : σ → τ → Prop}
    (hstep : ∀ i ∈ is, ∀ s t s', R s t → step s i = some s' → ∃ t', step' t i = some t' ∧ R s' t') :
    ∀ {s s' : σ} {t : τ}, R s t → run step s is = some s' →
      ∃ t', run step' t is = some t' ∧ R s' t' := by
  induction is with
  | nil =>
    intro s s' t hR hrun
    rw [run_nil, some.injEq] at hrun
    exact ⟨t, rfl, hrun ▸ hR⟩
  | cons i is ih =>
    intro s s' t hR hrun
    obtain ⟨s₁, hs₁, hrun'⟩ := run_cons.mp hrun
    obtain ⟨t₁, ht₁, hR₁⟩ := hstep i mem_cons_self s t s₁ hR hs₁
    obtain ⟨t', ht', hR'⟩ := ih (fun j hj => hstep j (mem_cons_of_mem i hj)) hR₁ hrun'
    exact ⟨t', run_cons.mpr ⟨t₁, ht₁, ht'⟩, hR'⟩

/-- A property of a result can be evaluated. -/
instance decidableExistsResult {α : Type} {P : α → Prop} [DecidablePred P] (o : Option α) :
    Decidable (∃ a, o = some a ∧ P a) :=
  inferInstanceAs (Decidable (∃ a ∈ o, P a))

section Result

variable {α : Type} {P Q : α → Prop} {o : Option α}

theorem exists_of_result (h : ∃ a, o = some a ∧ P a) (hQ : ∀ a, o = some a → P a → Q a) :
    ∃ a, o = some a ∧ Q a := by
  obtain ⟨a, ha, hP⟩ := h
  exact ⟨a, ha, hQ a ha hP⟩

theorem exists_result (h : ∃ a, o = some a ∧ P a) (hQ : ∀ a, o = some a → P a → Q a) :
    ∃ a, o = some a ∧ P a ∧ Q a :=
  exists_of_result h fun a ha hP => ⟨hP, hQ a ha hP⟩

end Result

/-! ## Related results -/

section Rel

variable {α β γ δ : Type} {R : α → β → Prop} {S : γ → δ → Prop} {o : Option α} {o' : Option β}

theorem rel_none_right : Option.Rel R o none ↔ o = none := by
  constructor
  · intro h
    cases h
    rfl
  · intro h
    rw [h]
    exact Option.Rel.none

theorem rel_none_left : Option.Rel R none o' ↔ o' = none := by
  constructor
  · intro h
    cases h
    rfl
  · intro h
    rw [h]
    exact Option.Rel.none

theorem exists_of_rel_some {b : β} (h : Option.Rel R o (some b)) :
    ∃ a, o = some a ∧ R a b := by
  cases h with
  | some hab => exact ⟨_, rfl, hab⟩

theorem eq_of_rel {o o' : Option α} (h : Option.Rel Eq o o') : o = o' := by
  cases h with
  | none => rfl
  | some hab => rw [hab]

theorem rel_mono {R' : α → β → Prop} (h : Option.Rel R o o') (hR : ∀ a b, R a b → R' a b) :
    Option.Rel R' o o' := by
  cases h with
  | none => exact .none
  | some hab => exact .some (hR _ _ hab)

theorem rel_bind {f : α → Option γ} {g : β → Option δ} (h : Option.Rel R o o')
    (hfg : ∀ a b, R a b → Option.Rel S (f a) (g b)) : Option.Rel S (o.bind f) (o'.bind g) := by
  cases h with
  | none => exact .none
  | some hab => exact hfg _ _ hab

theorem rel_map {f : α → γ} {g : β → δ} (h : Option.Rel R o o')
    (hfg : ∀ a b, R a b → S (f a) (g b)) : Option.Rel S (o.map f) (o'.map g) := by
  cases h with
  | none => exact .none
  | some hab => exact .some (hfg _ _ hab)

end Rel

theorem mapM_eq_some_iff_map {α β : Type} {f : α → Option β} :
    ∀ {l : List α} {l' : List β}, l.mapM f = some l' ↔ l.map f = l'.map some := by
  intro l
  induction l with
  | nil =>
    intro l'
    rw [mapM_nil, map_nil, eq_comm (a := []), map_eq_nil_iff]
    exact ⟨fun h => (some.inj h).symm, fun h => congrArg some h.symm⟩
  | cons a l ih =>
    intro l'
    rw [mapM_cons, map_cons]
    constructor
    · intro h
      obtain ⟨b, hb, hrest⟩ := bind_eq_some_iff.mp h
      obtain ⟨bs, hbs, hl'⟩ := bind_eq_some_iff.mp hrest
      obtain rfl := some.inj hl'
      rw [hb, ih.mp hbs]
      rfl
    · intro h
      obtain ⟨b, bs, rfl, hb, hrest⟩ := map_eq_cons_iff.mp h.symm
      rw [← hb, ih.mpr hrest.symm]
      rfl

end AxonCore.Lib
