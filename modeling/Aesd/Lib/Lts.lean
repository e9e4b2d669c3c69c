import Mathlib.Tactic

/-! # Runs of a partial transition function

A system is a function `step : σ → α → Option σ` (`none`: the action is not enabled). `run` takes a
list of actions, `visited` lists the states on the way, `Meets G` says that every step of a run is
taken in a state and with an action that satisfy `G`. The induction over runs is done once, in
`run_invariant`, `Meets.invariant` and `Reachable.invariant`. -/

namespace Aesd.Lib.Lts

variable {σ α : Type*} (step : σ → α → Option σ)

/-- The state after a list of actions, if each of them is enabled when it is taken. -/
def run : σ → List α → Option σ
  | s, [] => some s
  | s, a :: as => (step s a).bind fun s' => run s' as

/-- The states a run passes through, the first and the last included. -/
def visited : σ → List α → List σ
  | s, [] => [s]
  | s, a :: as => s :: ((step s a).map fun s' => visited s' as).getD []

/-- Every step of the run satisfies `G`. -/
def Meets (G : σ → α → Prop) : σ → List α → Prop
  | _, [] => True
  | s, a :: as => G s a ∧ ∀ s', step s a = some s' → Meets G s' as

/-- The system that takes only the steps that satisfy `G`. -/
def restrict (G : σ → α → Prop) [∀ s a, Decidable (G s a)] : σ → α → Option σ :=
  fun s a => if G s a then step s a else none

/-- The states that some run from an initial state ends in. -/
def Reachable (init : σ → Prop) (s : σ) : Prop :=
  ∃ s₀ as, init s₀ ∧ run step s₀ as = some s

@[simp] theorem run_nil (s : σ) : run step s [] = some s := rfl

theorem run_cons (s : σ) (a : α) (as : List α) :
    run step s (a :: as) = (step s a).bind fun s' => run step s' as := rfl

@[simp] theorem visited_nil (s : σ) : visited step s [] = [s] := rfl

theorem run_append (s : σ) (as bs : List α) :
    run step s (as ++ bs) = (run step s as).bind fun s' => run step s' bs := by
  induction as generalizing s with
  | nil => simp
  | cons a as ih =>
    rw [List.cons_append, run_cons, run_cons]
    cases step s a with
    | none => rfl
    | some s' => simpa using ih s'

variable {step}

theorem run_cons_some {s s'' : σ} {a : α} {as : List α} :
    run step s (a :: as) = some s'' ↔ ∃ s', step s a = some s' ∧ run step s' as = some s'' := by
  rw [run_cons, Option.bind_eq_some_iff]

theorem restrict_some {G : σ → α → Prop} [∀ s a, Decidable (G s a)] {s s' : σ} {a : α} :
    restrict step G s a = some s' ↔ G s a ∧ step s a = some s' := by
  unfold restrict
  by_cases hg : G s a <;> simp [hg]

theorem visited_cons {s s' : σ} {a : α} (as : List α) (h : step s a = some s') :
    visited step s (a :: as) = s :: visited step s' as := by
  simp [visited, h]

theorem start_mem_visited (s : σ) (as : List α) : s ∈ visited step s as := by
  cases as <;> simp [visited]

/-- **The invariant rule**: what every step preserves, every run preserves. -/
theorem run_invariant {P : σ → Prop} (hP : ∀ s a s', P s → step s a = some s' → P s') :
    ∀ {s s' : σ} {as : List α}, P s → run step s as = some s' → P s'
  | s, s', [], hs, h => by
    rw [run_nil, Option.some.injEq] at h
    exact h ▸ hs
  | s, s', a :: as, hs, h => by
    obtain ⟨s₁, h₁, h₂⟩ := run_cons_some.mp h
    exact run_invariant hP (hP s a s₁ hs h₁) h₂

/-- The same for the runs whose steps all meet a condition: only such steps have to preserve. -/
theorem Meets.invariant {P : σ → Prop} {G : σ → α → Prop}
    (hP : ∀ s a s', P s → G s a → step s a = some s' → P s') :
    ∀ {s s' : σ} {as : List α}, P s → Meets step G s as → run step s as = some s' → P s'
  | s, s', [], hs, _, h => by
    rw [run_nil, Option.some.injEq] at h
    exact h ▸ hs
  | s, s', a :: as, hs, hm, h => by
    obtain ⟨s₁, h₁, h₂⟩ := run_cons_some.mp h
    exact Meets.invariant hP (hP s a s₁ hs hm.1 h₁) (hm.2 s₁ h₁) h₂

/-- The same for what is known of a state and of the steps that led to it. -/
theorem Meets.history {P : List α → σ → Prop} {G : σ → α → Prop}
    (hP : ∀ as s a s', P as s → G s a → step s a = some s' → P (as ++ [a]) s') :
    ∀ {s s' : σ} (past : List α) {as : List α}, P past s → Meets step G s as → run step s as = some s' →
      P (past ++ as) s'
  | s, s', past, [], hs, _, h => by
    rw [run_nil, Option.some.injEq] at h
    rw [List.append_nil]
    exact h ▸ hs
  | s, s', past, a :: as, hs, hm, h => by
    obtain ⟨s₁, h₁, h₂⟩ := run_cons_some.mp h
    have hrest := Meets.history hP (past ++ [a]) (hP past s a s₁ hs hm.1 h₁) (hm.2 s₁ h₁) h₂
    rwa [List.append_assoc] at hrest

/-- A condition that can be decided in each state can be decided along a run. -/
instance decidableMeets {G : σ → α → Prop} [∀ s a, Decidable (G s a)] :
    ∀ (s : σ) (as : List α), Decidable (Meets step G s as)
  | _, [] => isTrue trivial
  | s, a :: as =>
    match h : step s a with
    | none => decidable_of_iff (G s a) ⟨fun hg => ⟨hg, fun s' hs => by simp [h] at hs⟩, fun hm => hm.1⟩
    | some s' =>
      have : Decidable (Meets step G s' as) := decidableMeets s' as
      decidable_of_iff (G s a ∧ Meets step G s' as)
        ⟨fun hg => ⟨hg.1, fun t ht => Option.some.inj (h.symm.trans ht) ▸ hg.2⟩,
          fun hm => ⟨hm.1, hm.2 s' h⟩⟩

theorem Meets.imp {G G' : σ → α → Prop} :
    ∀ {s : σ} {as : List α}, Meets step G s as → (∀ a ∈ as, ∀ s, G s a → G' s a) → Meets step G' s as
  | _, [], _, _ => trivial
  | s, a :: _, h, himp =>
    ⟨himp a List.mem_cons_self s h.1, fun s' hs =>
      Meets.imp (h.2 s' hs) fun b hb => himp b (List.mem_cons_of_mem a hb)⟩

theorem Meets.of_forall {G : α → Prop} :
    ∀ {s : σ} {as : List α}, (∀ a ∈ as, G a) → Meets step (fun _ a => G a) s as
  | _, [], _ => trivial
  | _, a :: as, h =>
    ⟨h a (by simp), fun _ _ => Meets.of_forall fun b hb => h b (List.mem_cons_of_mem a hb)⟩

theorem visited_invariant {P : σ → Prop} (hP : ∀ s a s', P s → step s a = some s' → P s') :
    ∀ {s : σ} (as : List α), P s → ∀ v ∈ visited step s as, P v
  | s, [], hs, v, hv => by
    rw [visited_nil, List.mem_singleton] at hv
    exact hv ▸ hs
  | s, a :: as, hs, v, hv => by
    rcases h : step s a with _ | s₁
    · simp only [visited, h, Option.map_none, Option.getD_none, List.mem_singleton] at hv
      exact hv ▸ hs
    · rw [visited_cons as h, List.mem_cons] at hv
      rcases hv with rfl | hv
      · exact hs
      · exact visited_invariant hP as (hP s a s₁ hs h) v hv

/-- **A condition that is exact for a property of the states**: under it every step keeps an invariant
that gives the property, and a step that fails it loses the property. Then the runs that have the
property throughout are those that meet the condition. -/
theorem visited_iff_meets {I P : σ → Prop} {G : σ → α → Prop} (hP : ∀ s, I s → P s)
    (hkeep : ∀ s a s', I s → G s a → step s a = some s' → I s')
    (hbreak : ∀ s a s', I s → ¬ G s a → step s a = some s' → ¬ P s') :
    ∀ {s s' : σ} {as : List α}, I s → run step s as = some s' →
      ((∀ v ∈ visited step s as, P v) ↔ Meets step G s as)
  | s, _, [], hs, _ => by simp [Meets, hP s hs]
  | s, s', a :: as, hs, h => by
    obtain ⟨s₁, h₁, h₂⟩ := run_cons_some.mp h
    rw [visited_cons as h₁]
    by_cases hg : G s a
    · have ih := visited_iff_meets hP hkeep hbreak (hkeep s a s₁ hs hg h₁) h₂
      simp [Meets, hP s hs, hg, h₁, ih]
    · refine iff_of_false (fun hv => ?_) fun hm => hg hm.1
      exact hbreak s a s₁ hs hg h₁ (hv s₁ (List.mem_cons_of_mem s (start_mem_visited s₁ as)))

theorem mem_visited_of_run : ∀ {s s' : σ} {as : List α} (bs : List α),
    run step s as = some s' → s' ∈ visited step s (as ++ bs)
  | s, s', [], bs, h => by
    rw [run_nil, Option.some.injEq] at h
    exact h ▸ start_mem_visited s bs
  | s, s', a :: as, bs, h => by
    obtain ⟨s₁, h₁, h₂⟩ := run_cons_some.mp h
    rw [List.cons_append, visited_cons _ h₁]
    exact List.mem_cons_of_mem _ (mem_visited_of_run bs h₂)

variable {init : σ → Prop}

theorem Reachable.run {s s' : σ} {as : List α} (h : Reachable step init s)
    (hr : run step s as = some s') : Reachable step init s' := by
  obtain ⟨s₀, bs, h₀, hb⟩ := h
  refine ⟨s₀, bs ++ as, h₀, ?_⟩
  rw [run_append, hb]
  simpa using hr

/-- **Invariants hold in every reachable state.** -/
theorem Reachable.invariant {P : σ → Prop} (h₀ : ∀ s, init s → P s)
    (hP : ∀ s a s', P s → step s a = some s' → P s') {s : σ} (h : Reachable step init s) : P s := by
  obtain ⟨s₀, as, hi, hr⟩ := h
  exact run_invariant hP (h₀ s₀ hi) hr

end Aesd.Lib.Lts
