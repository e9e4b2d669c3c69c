import Aesd.Lib.Lts

/-! # Atomic objects

An object says what its operations do to a state when each takes effect at one moment (`apply`); an
operation ends with a result, or goes on as another operation. Called by many threads, an operation is
pending until its moment and over from then until it returns (`Moves`). A history of calls and returns is
linearizable if it is what one sees of such moves: the order of the moments is a sequential run
(`Moves.sequential`), and each lies between its call and its return.

A system whose steps are matched by moves has linearizable histories only (`linearizable_of_simulates`). -/

namespace Aesd.Lib.Objects

open Aesd.Lib.Lts

variable {ι σ ω ρ : Type*}

/-- `apply i s o s' out`: the operation `o` of the thread `i` may take the state `s` to `s'`, and end with
a result or go on as another operation. -/
structure Object (ι σ ω ρ : Type*) where
  apply : ι → σ → ω → σ → ω ⊕ ρ → Prop

inductive Status (ω ρ : Type*)
  | idle
  | pending (o : ω)
  | over (r : ρ)

/-- What an outcome makes of a pending operation. -/
def Status.next : ω ⊕ ρ → Status ω ρ
  | .inl o => .pending o
  | .inr r => .over r

inductive Event (ι ω ρ : Type*)
  | call (i : ι) (o : ω)
  | effect (i : ι) (o : ω) (out : ω ⊕ ρ)
  | ret (i : ι) (r : ρ)

/-- The object, and the operation each thread is in. -/
structure Atomic (ι σ ω ρ : Type*) where
  state : σ
  status : ι → Status ω ρ

/-- No thread is in an operation. -/
def Atomic.start (s : σ) : Atomic ι σ ω ρ := ⟨s, fun _ => .idle⟩

variable [DecidableEq ι]

def Atomic.put (m : Atomic ι σ ω ρ) (i : ι) (st : Status ω ρ) : Atomic ι σ ω ρ :=
  { m with status := Function.update m.status i st }

@[simp] theorem Atomic.put_state (m : Atomic ι σ ω ρ) (i : ι) (st : Status ω ρ) :
    (m.put i st).state = m.state := rfl

@[simp] theorem Atomic.put_status (m : Atomic ι σ ω ρ) (i : ι) (st : Status ω ρ) :
    (m.put i st).status i = st := Function.update_self _ _ _

theorem Atomic.put_status_of_ne (m : Atomic ι σ ω ρ) {i j : ι} (hj : j ≠ i) (st : Status ω ρ) :
    (m.put i st).status j = m.status j := Function.update_of_ne hj _ _

/-- The moves of the object and its callers, with their events. -/
inductive Moves (obj : Object ι σ ω ρ) (m : Atomic ι σ ω ρ) :
    List (Event ι ω ρ) → Atomic ι σ ω ρ → Prop
  | refl : Moves obj m [] m
  | call {t : List (Event ι ω ρ)} {m' : Atomic ι σ ω ρ} {i : ι} {o : ω} (h : Moves obj m t m')
      (hi : m'.status i = .idle) : Moves obj m (t ++ [.call i o]) (m'.put i (.pending o))
  | effect {t : List (Event ι ω ρ)} {m' : Atomic ι σ ω ρ} {i : ι} {o : ω} {s : σ} {out : ω ⊕ ρ}
      (h : Moves obj m t m') (hi : m'.status i = .pending o) (ha : obj.apply i m'.state o s out) :
      Moves obj m (t ++ [.effect i o out]) ({ m' with state := s }.put i (.next out))
  | ret {t : List (Event ι ω ρ)} {m' : Atomic ι σ ω ρ} {i : ι} {r : ρ} (h : Moves obj m t m')
      (hi : m'.status i = .over r) : Moves obj m (t ++ [.ret i r]) (m'.put i .idle)

/-- What a caller sees: the calls and the returns. -/
def visible : List (Event ι ω ρ) → List (Event ι ω ρ)
  | [] => []
  | .effect .. :: t => visible t
  | e :: t => e :: visible t

/-- The operations that took effect, in order. -/
def effects : List (Event ι ω ρ) → List (ι × ω × (ω ⊕ ρ))
  | [] => []
  | .effect i o out :: t => (i, o, out) :: effects t
  | _ :: t => effects t

/-- What the thread `i` called, in order. -/
def callsOf (i : ι) : List (Event ι ω ρ) → List ω
  | [] => []
  | .call j o :: t => if j = i then o :: callsOf i t else callsOf i t
  | _ :: t => callsOf i t

/-- What was returned to the thread `i`, in order. -/
def returnsOf (i : ι) : List (Event ι ω ρ) → List ρ
  | [] => []
  | .ret j r :: t => if j = i then r :: returnsOf i t else returnsOf i t
  | _ :: t => returnsOf i t

/-- A sequential run of the object. -/
def Sequential (obj : Object ι σ ω ρ) : σ → List (ι × ω × (ω ⊕ ρ)) → σ → Prop
  | s, [], s' => s = s'
  | s, (i, o, out) :: es, s' => ∃ s₁, obj.apply i s o s₁ out ∧ Sequential obj s₁ es s'

/-- **A linearizable history**: one sees it of moves of the object. -/
def Linearizable (obj : Object ι σ ω ρ) (s : σ) (h : List (Event ι ω ρ)) : Prop :=
  ∃ t m, Moves obj (.start s) t m ∧ visible t = h

omit [DecidableEq ι] in
theorem visible_append (t t' : List (Event ι ω ρ)) : visible (t ++ t') = visible t ++ visible t' := by
  induction t with
  | nil => rfl
  | cons e t ih => cases e <;> simp [visible, ih]

omit [DecidableEq ι] in
theorem effects_append (t t' : List (Event ι ω ρ)) : effects (t ++ t') = effects t ++ effects t' := by
  induction t with
  | nil => rfl
  | cons e t ih => cases e <;> simp [effects, ih]

theorem callsOf_append (i : ι) (t t' : List (Event ι ω ρ)) :
    callsOf i (t ++ t') = callsOf i t ++ callsOf i t' := by
  induction t with
  | nil => rfl
  | cons e t ih =>
    cases e with
    | call j o => by_cases hj : j = i <;> simp [callsOf, hj, ih]
    | _ => simp [callsOf, ih]

theorem returnsOf_append (i : ι) (t t' : List (Event ι ω ρ)) :
    returnsOf i (t ++ t') = returnsOf i t ++ returnsOf i t' := by
  induction t with
  | nil => rfl
  | cons e t ih =>
    cases e with
    | ret j r => by_cases hj : j = i <;> simp [returnsOf, hj, ih]
    | _ => simp [returnsOf, ih]

theorem callsOf_visible (i : ι) (t : List (Event ι ω ρ)) : callsOf i (visible t) = callsOf i t := by
  induction t with
  | nil => rfl
  | cons e t ih => cases e <;> simp [visible, callsOf, ih]

theorem returnsOf_visible (i : ι) (t : List (Event ι ω ρ)) :
    returnsOf i (visible t) = returnsOf i t := by
  induction t with
  | nil => rfl
  | cons e t ih => cases e <;> simp [visible, returnsOf, ih]

omit [DecidableEq ι] in
theorem Sequential.append {obj : Object ι σ ω ρ} {s s' s'' : σ} {es es' : List (ι × ω × (ω ⊕ ρ))}
    (h : Sequential obj s es s') (h' : Sequential obj s' es' s'') : Sequential obj s (es ++ es') s'' := by
  induction es generalizing s with
  | nil => exact h.symm ▸ h'
  | cons e es ih =>
    obtain ⟨s₁, ha, hrest⟩ := h
    exact ⟨s₁, ha, ih hrest⟩

variable {obj : Object ι σ ω ρ} {m m' m'' : Atomic ι σ ω ρ} {t t' : List (Event ι ω ρ)}

/-- **The effects are a sequential run.** -/
theorem Moves.sequential (h : Moves obj m t m') : Sequential obj m.state (effects t) m'.state := by
  induction h with
  | refl => rfl
  | call _ _ ih | ret _ _ ih =>
    rw [effects_append]
    exact ih.append rfl
  | effect _ _ ha ih =>
    rw [effects_append]
    exact ih.append ⟨_, ha, rfl⟩

theorem Moves.trans (h : Moves obj m t m') (h' : Moves obj m' t' m'') : Moves obj m (t ++ t') m'' := by
  induction h' with
  | refl => rwa [List.append_nil]
  | call _ hi ih => exact List.append_assoc t _ _ ▸ ih.call hi
  | effect _ hi ha ih => exact List.append_assoc t _ _ ▸ ih.effect hi ha
  | ret _ hi ih => exact List.append_assoc t _ _ ▸ ih.ret hi

/-- **Refinement of objects.** If `f` maps the states of `obj'` to those of `obj`, and `obj'` can do what
`obj` does, the moves of `obj` are moves of `obj'`, with the same events. -/
theorem Moves.lift {σ' : Type*} {obj' : Object ι σ' ω ρ} {f : σ' → σ}
    (hsim : ∀ i g o s out, obj.apply i (f g) o s out → ∃ g', f g' = s ∧ obj'.apply i g o g' out)
    (h : Moves obj m t m') {g : σ'} (hg : f g = m.state) :
    ∃ g', f g' = m'.state ∧ Moves obj' ⟨g, m.status⟩ t ⟨g', m'.status⟩ := by
  induction h with
  | refl => exact ⟨g, hg, .refl⟩
  | call _ hi ih =>
    obtain ⟨g', hg', hm⟩ := ih
    exact ⟨g', hg', hm.call hi⟩
  | ret _ hi ih =>
    obtain ⟨g', hg', hm⟩ := ih
    exact ⟨g', hg', hm.ret hi⟩
  | effect _ hi ha ih =>
    obtain ⟨g', hg', hm⟩ := ih
    obtain ⟨g'', hg'', ha'⟩ := hsim _ _ _ _ _ (hg' ▸ ha)
    exact ⟨g'', hg'', hm.effect hi ha'⟩

/-! ### Systems that implement an object -/

section Implementation
variable {γ α : Type*} {step : γ → α → Option γ} {event : γ → α → Option (Event ι ω ρ)}

/-- The events of a run. -/
def history (step : γ → α → Option γ) (event : γ → α → Option (Event ι ω ρ)) :
    γ → List α → List (Event ι ω ρ)
  | _, [] => []
  | c, a :: as => (event c a).toList ++ ((step c a).map fun c' => history step event c' as).getD []

omit [DecidableEq ι] in
theorem history_cons {c c' : γ} {a : α} (as : List α) (h : step c a = some c') :
    history step event c (a :: as) = (event c a).toList ++ history step event c' as := by
  simp [history, h]

/-- The step is matched by moves of the object that show its event. -/
def Matched (obj : Object ι σ ω ρ) (R : γ → Atomic ι σ ω ρ → Prop) (m : Atomic ι σ ω ρ)
    (e : Option (Event ι ω ρ)) (c' : γ) : Prop :=
  ∃ t m', Moves obj m t m' ∧ visible t = e.toList ∧ R c' m'

/-- **A run whose steps are matched is matched.** -/
theorem moves_of_simulates {R : γ → Atomic ι σ ω ρ → Prop}
    (hstep : ∀ c a c' m, R c m → step c a = some c' → Matched obj R m (event c a) c') :
    ∀ {as : List α} {c c' : γ} {m : Atomic ι σ ω ρ}, R c m → run step c as = some c' →
      ∃ t m', Moves obj m t m' ∧ visible t = history step event c as ∧ R c' m'
  | [], c, c', m, hR, hr => by
    rw [run_nil, Option.some.injEq] at hr
    exact ⟨[], m, .refl, rfl, hr ▸ hR⟩
  | a :: as, c, c', m, hR, hr => by
    obtain ⟨c₁, hs, hr'⟩ := run_cons_some.mp hr
    obtain ⟨t₁, m₁, hm₁, hv₁, hR₁⟩ := hstep c a c₁ m hR hs
    obtain ⟨t₂, m₂, hm₂, hv₂, hR₂⟩ := moves_of_simulates hstep hR₁ hr'
    refine ⟨t₁ ++ t₂, m₂, hm₁.trans hm₂, ?_, hR₂⟩
    rw [visible_append, hv₁, hv₂, history_cons as hs]

theorem linearizable_of_simulates {R : γ → Atomic ι σ ω ρ → Prop}
    (hstep : ∀ c a c' m, R c m → step c a = some c' → Matched obj R m (event c a) c') {as : List α}
    {c c' : γ} {s : σ} (hR : R c (.start s)) (hr : run step c as = some c') :
    Linearizable obj s (history step event c as) := by
  obtain ⟨t, m, hm, hv, -⟩ := moves_of_simulates hstep hR hr
  exact ⟨t, m, hm, hv⟩

/-! The four ways to match a step. -/

theorem Matched.silent {R : γ → Atomic ι σ ω ρ → Prop} {c' : γ} (h : R c' m) :
    Matched obj R m none c' := ⟨[], m, .refl, rfl, h⟩

theorem Matched.call {R : γ → Atomic ι σ ω ρ → Prop} {c' : γ} {i : ι} {o : ω}
    (hi : m.status i = .idle) (h : R c' (m.put i (.pending o))) :
    Matched obj R m (some (.call i o)) c' := ⟨_, _, Moves.refl.call hi, rfl, h⟩

theorem Matched.effect {R : γ → Atomic ι σ ω ρ → Prop} {c' : γ} {i : ι} {o : ω} {s : σ}
    {out : ω ⊕ ρ} (hi : m.status i = .pending o) (ha : obj.apply i m.state o s out)
    (h : R c' ({ m with state := s }.put i (.next out))) : Matched obj R m none c' :=
  ⟨_, _, Moves.refl.effect hi ha, rfl, h⟩

theorem Matched.ret {R : γ → Atomic ι σ ω ρ → Prop} {c' : γ} {i : ι} {r : ρ}
    (hi : m.status i = .over r) (h : R c' (m.put i .idle)) :
    Matched obj R m (some (.ret i r)) c' := ⟨_, _, Moves.refl.ret hi, rfl, h⟩

end Implementation

end Aesd.Lib.Objects
