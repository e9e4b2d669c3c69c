import Aesd.Lib.Lts

/-! # Progress

A goal is `Inevitable` if the system gets there however it goes on: in a state that is not yet a goal some
step is enabled that waits for nobody (`E`), and after every step that may be taken (`A`) the goal is
inevitable still. So no choice of steps, fair or not, runs into a state without a way on, and none goes on
forever. It is shown with an invariant, a step out of each of its states, and a measure that the steps
lower (`inevitable_of_measure`). -/

namespace Aesd.Lib.Progress

open Aesd.Lib.Lts

variable {σ α : Type*}

inductive Inevitable (step : σ → α → Option σ) (A E : α → Prop) (Goal : σ → Prop) : σ → Prop
  | now {s : σ} (h : Goal s) : Inevitable step A E Goal s
  | later {s : σ} (hex : ∃ a s', E a ∧ step s a = some s')
      (hall : ∀ a s', A a → step s a = some s' → Inevitable step A E Goal s') :
      Inevitable step A E Goal s

variable {step : σ → α → Option σ} {A E : α → Prop} {P Goal : σ → Prop}

theorem sum_update {ι γ : Type*} [DecidableEq ι] {t : Finset ι} (f : ι → γ) (g : γ → ℕ) {i : ι}
    (hi : i ∈ t) (c : γ) :
    ∑ j ∈ t, g (Function.update f i c j) + g (f i) = ∑ j ∈ t, g (f j) + g c := by
  have hrest : ∑ j ∈ t.erase i, g (Function.update f i c j) = ∑ j ∈ t.erase i, g (f j) :=
    Finset.sum_congr rfl fun j hj => by rw [Function.update_of_ne (Finset.ne_of_mem_erase hj)]
  rw [← Finset.add_sum_erase t _ hi, ← Finset.add_sum_erase t (fun j => g (f j)) hi, hrest,
    Function.update_self]
  omega

/-- **The progress rule.** -/
theorem inevitable_of_measure {β : Type*} [LT β] [WellFoundedLT β] (μ : σ → β)
    (hkeep : ∀ s a s', P s → A a → step s a = some s' → P s')
    (hlower : ∀ s a s', P s → A a → step s a = some s' → μ s' < μ s)
    (hex : ∀ s, P s → ¬ Goal s → ∃ a s', E a ∧ step s a = some s') :
    ∀ {s : σ}, P s → Inevitable step A E Goal s := by
  intro s
  induction s using WellFounded.induction (InvImage.wf μ wellFounded_lt) with
  | _ s ih =>
    intro hs
    by_cases hg : Goal s
    · exact .now hg
    · exact .later (hex s hs hg) fun a s' ha h =>
        ih s' (hlower s a s' hs ha h) (hkeep s a s' hs ha h)

/-- With fewer steps taken, more may be known of the goal. -/
theorem Inevitable.mono {A' E' : α → Prop} {Goal' : σ → Prop} {s : σ}
    (h : Inevitable step A E Goal s) (hs : P s)
    (hkeep : ∀ s a s', P s → A' a → step s a = some s' → P s') (hA : ∀ a, A' a → A a)
    (hE : ∀ a, E a → E' a) (hgoal : ∀ s, P s → Goal s → Goal' s) : Inevitable step A' E' Goal' s := by
  induction h with
  | now hg => exact .now (hgoal _ hs hg)
  | later hex _ ih =>
    obtain ⟨a, s', ha, hstep⟩ := hex
    exact .later ⟨a, s', hE a ha, hstep⟩ fun a s' ha hstep =>
      ih a s' (hA a ha) hstep (hkeep _ a s' hs ha hstep)

end Aesd.Lib.Progress
