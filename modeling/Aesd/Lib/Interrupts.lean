import Aesd.Lib.Lts
import Mathlib.Data.Set.Insert

/-! # Threads that can be interrupted

Each thread has a stack of frames: an interrupt puts a frame of its handler on top, and only the frame
on top runs. What an interrupt may break is told by the shared state and the set of all frames,
whichever thread they are on: a step adds the frame of a handler, or takes one frame a step on and
leaves the others (`step_effect`). An invariant of the two is kept by every step if it is kept in these
two cases, for any number of threads and any nesting (`step_keeps`). -/

namespace Aesd.Lib.Interrupts

open Aesd.Lib.Lts

/-- What the handlers and the code they interrupt do. -/
structure Program (ν φ σ ε : Type*) where
  /-- The first frame of a handler. -/
  enter : ν → φ
  /-- While the frame is on the stack of a thread, the interrupt is held back there. -/
  masked : φ → ν → Bool
  /-- A step of the frame on top; `none` in place of the next frame: it returns. -/
  exec : σ → φ → Option (σ × Option φ)
  /-- What happens outside the frames. -/
  outside : σ → ε → Option σ
  /-- Nothing runs any more. -/
  ended : σ → Bool

/-- The shared state, and the frames of each thread, the running one first. -/
structure Machine (τ φ σ : Type*) where
  shared : σ
  stack : τ → List φ

inductive Event (τ ν ε : Type*)
  | deliver (t : τ) (n : ν)
  | exec (t : τ)
  | outside (e : ε)

variable {τ ν φ σ ε : Type*}

/-- The frames on the stacks. -/
def Machine.frames (m : Machine τ φ σ) : Set φ := {f | ∃ t, f ∈ m.stack t}

variable [DecidableEq τ]

/-- **One step**; none after the end. -/
def step (p : Program ν φ σ ε) (m : Machine τ φ σ) : Event τ ν ε → Option (Machine τ φ σ)
  | .deliver t n =>
    if p.ended m.shared || (m.stack t).any (p.masked · n) then none
    else some { m with stack := Function.update m.stack t (p.enter n :: m.stack t) }
  | .exec t =>
    if p.ended m.shared then none
    else
      match m.stack t with
      | [] => none
      | f :: fs => (p.exec m.shared f).map fun r =>
          ⟨r.1, Function.update m.stack t (r.2.toList ++ fs)⟩
  | .outside e =>
    if p.ended m.shared then none
    else (p.outside m.shared e).map fun s => { m with shared := s }

/-- Each step of a frame is taken where `C` holds of the shared state, of all frames and of the frame. -/
def Guarded (C : σ → Set φ → φ → Prop) (m : Machine τ φ σ) : Event τ ν ε → Prop
  | .exec t => ∀ f ∈ (m.stack t).head?, C m.shared m.frames f
  | _ => True

/-- What a step does to the shared state and to the set of frames. -/
inductive Effect (p : Program ν φ σ ε) (m m' : Machine τ φ σ) : Event τ ν ε → Prop
  | deliver {t : τ} {n : ν} (shared : m'.shared = m.shared)
      (frames : m'.frames = insert (p.enter n) m.frames) : Effect p m m' (.deliver t n)
  | exec {t : τ} {f : φ} {next : Option φ} {rest : Set φ} (top : (m.stack t).head? = some f)
      (ran : p.exec m.shared f = some (m'.shared, next)) (before : m.frames = insert f rest)
      (after : m'.frames = {g | next = some g} ∪ rest) : Effect p m m' (.exec t)
  | outside {e : ε} (ran : p.outside m.shared e = some m'.shared) (frames : m'.frames = m.frames) :
      Effect p m m' (.outside e)

/-- The frames below the one on top of `t`, and those of the other threads. -/
def others (m : Machine τ φ σ) (t : τ) : Set φ :=
  {g | g ∈ (m.stack t).tail ∨ ∃ u, u ≠ t ∧ g ∈ m.stack u}

theorem frames_of_stack {m : Machine τ φ σ} {t : τ} {f : φ} {fs : List φ} (h : m.stack t = f :: fs) :
    m.frames = insert f (others m t) := by
  ext g
  simp only [Machine.frames, others, h, List.tail_cons, Set.mem_ofPred_eq, Set.mem_insert_iff]
  refine ⟨fun ⟨u, hu⟩ => ?_, fun hg => ?_⟩
  · by_cases hut : u = t
    · rw [hut, h, List.mem_cons] at hu
      exact hu.imp_right .inl
    · exact .inr (.inr ⟨u, hut, hu⟩)
  · rcases hg with rfl | hg | ⟨u, -, hu⟩
    · exact ⟨t, by simp [h]⟩
    · exact ⟨t, by simp [h, hg]⟩
    · exact ⟨u, hu⟩

theorem frames_update {m : Machine τ φ σ} {t : τ} {f : φ} {fs : List φ} (h : m.stack t = f :: fs)
    (s : σ) (next : Option φ) :
    (Machine.mk s (Function.update m.stack t (next.toList ++ fs))).frames =
      {g | next = some g} ∪ others m t := by
  ext g
  simp only [Machine.frames, others, h, List.tail_cons, Set.mem_ofPred_eq, Set.mem_union]
  refine ⟨fun ⟨u, hu⟩ => ?_, fun hg => ?_⟩
  · by_cases hut : u = t
    · rw [hut, Function.update_self, List.mem_append, Option.mem_toList] at hu
      exact hu.imp_right .inl
    · rw [Function.update_of_ne hut] at hu
      exact .inr (.inr ⟨u, hut, hu⟩)
  · rcases hg with hg | hg | ⟨u, hut, hu⟩
    · exact ⟨t, by simp [hg]⟩
    · exact ⟨t, by simp [hg]⟩
    · exact ⟨u, by rwa [Function.update_of_ne hut]⟩

theorem frames_deliver (m : Machine τ φ σ) (t : τ) (f : φ) :
    (Machine.mk m.shared (Function.update m.stack t (f :: m.stack t))).frames = insert f m.frames := by
  ext g
  simp only [Machine.frames, Set.mem_ofPred_eq, Set.mem_insert_iff]
  refine ⟨fun ⟨u, hu⟩ => ?_, fun hg => ?_⟩
  · by_cases hut : u = t
    · rw [hut, Function.update_self, List.mem_cons] at hu
      exact hu.imp_right fun hg => ⟨t, hg⟩
    · rw [Function.update_of_ne hut] at hu
      exact .inr ⟨u, hu⟩
  · rcases hg with rfl | ⟨u, hu⟩
    · exact ⟨t, by simp⟩
    · refine ⟨u, ?_⟩
      by_cases hut : u = t
      · rw [hut, Function.update_self]
        exact List.mem_cons_of_mem _ (hut ▸ hu)
      · rwa [Function.update_of_ne hut]

variable {p : Program ν φ σ ε} {m m' : Machine τ φ σ} {a : Event τ ν ε}

/-- **One step, told by the set of frames.** -/
theorem step_effect (h : step p m a = some m') : Effect p m m' a := by
  rcases a with ⟨t, n⟩ | t | e
  · simp only [step] at h
    split_ifs at h
    rw [← Option.some.inj h]
    exact .deliver rfl (frames_deliver m t _)
  · simp only [step] at h
    split_ifs at h
    rcases hst : m.stack t with _ | ⟨f, fs⟩
    · simp [hst] at h
    simp only [hst, Option.map_eq_some_iff] at h
    obtain ⟨⟨s, next⟩, hr, rfl⟩ := h
    exact .exec (by rw [hst]; rfl) hr (frames_of_stack hst) (frames_update hst s next)
  · simp only [step] at h
    split_ifs at h
    obtain ⟨s, hs, rfl⟩ := Option.map_eq_some_iff.mp h
    exact .outside hs rfl

/-! ### Invariants of the shared state and the frames -/

section Rules
variable {I : σ → Set φ → Prop} {C : σ → Set φ → φ → Prop} {P : σ → Prop}

/-- A step under the condition keeps what is kept when a handler starts, when one frame takes a step and
when the outside moves. -/
theorem step_keeps (hdeliver : ∀ s F n, I s F → I s (insert (p.enter n) F))
    (hexec : ∀ s R f s' next, I s (insert f R) → C s (insert f R) f →
      p.exec s f = some (s', next) → I s' ({g | next = some g} ∪ R))
    (houtside : ∀ s F e s', I s F → p.outside s e = some s' → I s' F)
    (hm : I m.shared m.frames) (hg : Guarded C m a) (hs : step p m a = some m') :
    I m'.shared m'.frames := by
  cases step_effect hs with
  | deliver hshared hframes => exact hshared ▸ hframes ▸ hdeliver _ _ _ hm
  | exec htop hran hbefore hafter =>
    have hc := hg _ htop
    rw [hbefore] at hm hc
    exact hafter ▸ hexec _ _ _ _ _ hm hc hran
  | outside hran hframes => exact hframes ▸ houtside _ _ _ _ hm hran

/-- A step that fails the condition is a step of a frame. -/
theorem step_breaks (hexec : ∀ s R f s' next, I s (insert f R) → ¬ C s (insert f R) f →
      p.exec s f = some (s', next) → ¬ P s')
    (hm : I m.shared m.frames) (hg : ¬ Guarded C m a) (hs : step p m a = some m') :
    ¬ P m'.shared := by
  cases step_effect hs with
  | deliver => exact absurd trivial hg
  | exec htop hran hbefore _ =>
    simp only [Guarded, htop, Option.mem_def, Option.some.injEq, forall_eq'] at hg
    rw [hbefore] at hm hg
    exact hexec _ _ _ _ _ hm hg hran
  | outside => exact absurd trivial hg

/-- **The runs with a property are those that meet a condition**, if the condition on the frame that runs
is exact. -/
theorem run_iff_guarded (hP : ∀ s F, I s F → P s)
    (hdeliver : ∀ s F n, I s F → I s (insert (p.enter n) F))
    (hkeep : ∀ s R f s' next, I s (insert f R) → C s (insert f R) f →
      p.exec s f = some (s', next) → I s' ({g | next = some g} ∪ R))
    (hbreak : ∀ s R f s' next, I s (insert f R) → ¬ C s (insert f R) f →
      p.exec s f = some (s', next) → ¬ P s')
    (houtside : ∀ s F e s', I s F → p.outside s e = some s' → I s' F)
    {as : List (Event τ ν ε)} (hm : I m.shared m.frames) (h : run (step p) m as = some m') :
    (∀ v ∈ visited (step p) m as, P v.shared) ↔ Meets (step p) (Guarded C) m as :=
  visited_iff_meets (fun v => hP v.shared v.frames)
    (fun _ _ _ hv hg hs => step_keeps hdeliver hkeep houtside hv hg hs)
    (fun _ _ _ hv hg hs => step_breaks hbreak hv hg hs) hm h

end Rules

end Aesd.Lib.Interrupts
