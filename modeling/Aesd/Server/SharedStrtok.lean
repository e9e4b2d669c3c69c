import Aesd.Lib.Lts
import Aesd.Server.Command

/-!
# Seek commands in several threads

`strtok` saves its buffer and position in one place for the whole process, and `process_packet` calls
`is_seekto_packet` without a lock. Here any number of calls of it run together; a step is the copying
of a packet, one `strtok`, the conversion, or the `free`. A call whose second `strtok` finds the
position saved by its first one returns what it would return alone (`verdicts_alone`); one that finds
another call's position takes a part of that call's packet (`strtok_race`).
-/

namespace Aesd.Server.SharedStrtok

open Aesd.Lib.CString Aesd.Lib.Lts
open Aesd.Driver.Device Aesd.Server.Command

/-- A call of `is_seekto_packet`: its packet, whether its `malloc` succeeds, and what is in its
`*seekto_cmd` before. -/
structure Call where
  packet : Bytes
  allocated : Bool
  seekto : Seekto

/-- What the call returns alone. -/
def Call.alone (c : Call) : Option (Bool × Seekto) :=
  isSeektoPacket c.allocated c.packet c.seekto

/-- Where a call is. A pointer is a position in the memory of a call. -/
inductive Pc (ι : Type*)
  /-- at its beginning -/
  | start
  /-- before `strtok(xy_str, ",")` -/
  | first
  /-- before `strtok(NULL, ",")` -/
  | second (xStr : Option ℕ)
  /-- before `convert_str_to_long` -/
  | convert (xStr : Option ℕ) (yStr : Option (ι × ℕ))
  /-- before `free` -/
  | release (ret : Bool × Seekto)
  /-- returned -/
  | done (ret : Bool × Seekto)
  deriving DecidableEq

/-- The memory `xy_str` of each call while it is allocated, what `strtok` has saved, and the places. -/
structure State (ι : Type*) where
  xy : ι → Option Bytes
  saved : Option (ι × ℕ)
  pc : ι → Pc ι
  fault : Bool

variable {ι : Type*} [DecidableEq ι]

namespace State

/-- The call `i` goes on at `pc`. -/
def goto (s : State ι) (i : ι) (pc : Pc ι) : State ι := { s with pc := Function.update s.pc i pc }

/-- The memory of the call `j` becomes `mem`. -/
def setXy (s : State ι) (j : ι) (mem : Option Bytes) : State ι :=
  { s with xy := Function.update s.xy j mem }

/-- Undefined behaviour. -/
def crash (s : State ι) : State ι := { s with fault := true }

/-- `strtok` on the memory of the call `j` from `pos` on; the caller `i` goes on with the token. -/
def strtokOn (s : State ι) (i j : ι) (pos : ℕ) (next : Option ℕ → Pc ι) : State ι :=
  match s.xy j with
  | none => s.crash
  | some mem =>
    match strtok comma mem pos with
    | none => s.crash
    | some (mem', tok, save) => { (s.setXy j (some mem')).goto i (next tok) with saved := some (j, save) }

end State

/-- **One step of the call `i`.** -/
def step (calls : ι → Call) (s : State ι) (i : ι) : Option (State ι) :=
  if s.fault then none
  else match s.pc i with
    | .start =>
      if hasPrefix (calls i).packet = true then
        if (calls i).allocated then
          some ((s.setXy i (some (xyStr (calls i).packet))).goto i .first)
        else some (s.goto i (.release (false, (calls i).seekto)))
      else some (s.goto i (.done (false, (calls i).seekto)))
    | .first => some (s.strtokOn i i 0 .second)
    | .second xStr =>
      match s.saved with
      | none => some s.crash
      | some (j, pos) => some (s.strtokOn i j pos fun y => .convert xStr (y.map fun p => (j, p)))
    | .convert xStr yStr =>
      match s.xy i with
      | none => some s.crash
      | some mem =>
        match convertStrs (xStr.map fun p => mem.drop p)
          (yStr.map fun y => (s.xy y.1).map fun mem => mem.drop y.2) (calls i).seekto with
        | none => some s.crash
        | some ret => some (s.goto i (.release ret))
    | .release ret => some ((s.setXy i none).goto i (.done ret))
    | .done _ => none

/-- No call has begun; what `strtok` has saved may be anything. -/
structure Init (s : State ι) : Prop where
  xy : ∀ i, s.xy i = none
  pc : ∀ i, s.pc i = .start
  fault : s.fault = false

/-- The calls that returned did so with what they return alone. -/
def Alone (calls : ι → Call) (s : State ι) : Prop :=
  ∀ i ret, s.pc i = .done ret → (calls i).alone = some ret

/-- The call is not before its second `strtok`, or `strtok` has saved a position of it. -/
def Undisturbed (s : State ι) (i : ι) : Prop :=
  match s.pc i with
  | .second _ => s.saved.map Prod.fst = some i
  | _ => True

instance (s : State ι) (i : ι) : Decidable (Undisturbed s i) := by
  unfold Undisturbed
  cases s.pc i <;> infer_instance

/-- Where the call `i` is, told from its packet. -/
def CallOk (c : Call) (s : State ι) (i : ι) : Prop :=
  match s.pc i with
  | .start => True
  | .first => (hasPrefix c.packet = true ∧ c.allocated = true) ∧ s.xy i = some (xyStr c.packet)
  | .second xStr => (hasPrefix c.packet = true ∧ c.allocated = true) ∧ ∃ xy save,
      strtok comma (xyStr c.packet) 0 = some (xy, xStr, save) ∧ s.xy i = some xy ∧
        ∀ p, s.saved = some (i, p) → p = save
  | .convert xStr yStr => (hasPrefix c.packet = true ∧ c.allocated = true) ∧ ∃ xy save xy' y save',
      strtok comma (xyStr c.packet) 0 = some (xy, xStr, save) ∧
        strtok comma xy save = some (xy', y, save') ∧ s.xy i = some xy' ∧
          yStr = y.map fun p => (i, p)
  | .release ret => c.alone = some ret
  | .done ret => c.alone = some ret

omit [DecidableEq ι] in
/-- A step of another call, which leaves this one's place and memory alone and saves no position of
it. -/
theorem CallOk.frame {c : Call} {s s' : State ι} {i : ι} (h : CallOk c s i) (hpc : s'.pc i = s.pc i)
    (hxy : s'.xy i = s.xy i)
    (hsaved : ∀ p, s'.saved = some (i, p) → s.saved = some (i, p)) : CallOk c s' i := by
  unfold CallOk at h ⊢
  rw [hpc]
  cases hp : s.pc i <;> simp only [hp] at h ⊢
  case first => rwa [hxy]
  case second =>
    obtain ⟨hc, xy, save, htok, hmem, hpos⟩ := h
    exact ⟨hc, xy, save, htok, by rw [hxy, hmem], fun p hp => hpos p (hsaved p hp)⟩
  case convert => rwa [hxy]
  all_goals exact h

/-- All calls are where their packets say. -/
structure Good (calls : ι → Call) (s : State ι) : Prop where
  sane : s.fault = false
  call : ∀ i, CallOk (calls i) s i

section Good
variable {calls : ι → Call} {s : State ι} (h : Good calls s)
include h

theorem Good.local {i : ι} {s' : State ι} (hfault : s'.fault = false)
    (hpc : ∀ j, j ≠ i → s'.pc j = s.pc j) (hxy : ∀ j, j ≠ i → s'.xy j = s.xy j)
    (hsaved : s'.saved = s.saved ∨ ∃ p, s'.saved = some (i, p))
    (hown : CallOk (calls i) s' i) : Good calls s' := by
  refine ⟨hfault, fun j => ?_⟩
  by_cases hj : j = i
  · rw [hj]
    exact hown
  refine (h.call j).frame (hpc j hj) (hxy j hj) fun p hp => ?_
  rcases hsaved with hs | ⟨q, hs⟩
  · rw [← hs, hp]
  · rw [hs, Option.some.injEq, Prod.mk.injEq] at hp
    exact absurd hp.1.symm hj

end Good

theorem alone_of_parts {c : Call} (hc : hasPrefix c.packet = true ∧ c.allocated = true)
    {xy xy' : Bytes} {x y : Option ℕ} {save save' : ℕ}
    (hx : strtok comma (xyStr c.packet) 0 = some (xy, x, save))
    (hy : strtok comma xy save = some (xy', y, save')) :
    c.alone = convertStrs (x.map fun p => xy'.drop p) (y.map fun p => some (xy'.drop p)) c.seekto := by
  unfold Call.alone isSeektoPacket
  rw [if_pos hc.1, if_pos hc.2]
  simp only [parseXStrAndYStr, hx, hy, Option.bind_eq_bind, Option.bind_some]

theorem good_step {calls : ι → Call} (s : State ι) (i : ι) (s' : State ι) (h : Good calls s)
    (hu : Undisturbed s i) (hs : step calls s i = some s') : Good calls s' := by
  have hi := h.call i
  unfold step at hs
  rw [if_neg (by simp [h.sane])] at hs
  unfold CallOk at hi
  unfold Undisturbed at hu
  have hother : ∀ (pc : Pc ι) (j : ι), j ≠ i → Function.update s.pc i pc j = s.pc j :=
    fun pc j hj => Function.update_of_ne hj _ _
  have hmem : ∀ (mem : Option Bytes) (j : ι), j ≠ i → Function.update s.xy i mem j = s.xy j :=
    fun mem j hj => Function.update_of_ne hj _ _
  cases hpc : s.pc i with
  | start =>
    simp only [hpc] at hs
    split_ifs at hs with hp ha
    · rw [← Option.some.inj hs]
      refine h.local h.sane (hother _) (hmem _) (Or.inl rfl) ?_
      simp [CallOk, State.goto, State.setXy, hp, ha]
    · rw [← Option.some.inj hs]
      refine h.local h.sane (hother _) (fun _ _ => rfl) (Or.inl rfl) ?_
      simp [CallOk, State.goto, Call.alone, isSeektoPacket, hp, ha]
    · rw [← Option.some.inj hs]
      refine h.local h.sane (hother _) (fun _ _ => rfl) (Or.inl rfl) ?_
      simp [CallOk, State.goto, Call.alone, isSeektoPacket, hp]
  | first =>
    simp only [hpc] at hs hi
    obtain ⟨hc, hxy⟩ := hi
    obtain ⟨mem, tok, save, htok, -⟩ :=
      strtok_ok (show comma ≠ 0 by decide) (terminated_xyStr hc.1)
    simp only [State.strtokOn, hxy, htok] at hs
    rw [← Option.some.inj hs]
    refine h.local h.sane (hother _) (hmem _) (Or.inr ⟨save, rfl⟩) ?_
    simp [CallOk, State.goto, State.setXy, hc, htok]
  | second xStr =>
    simp only [hpc] at hs hi hu
    obtain ⟨hc, xy, save, hx, hxy, hsave⟩ := hi
    obtain ⟨⟨j, pos⟩, hsaved, rfl⟩ := Option.map_eq_some_iff.mp hu
    obtain rfl := hsave pos hsaved
    obtain ⟨xy₁, x₁, save₁, hx₁, hterm, -⟩ :=
      strtok_ok (show comma ≠ 0 by decide) (terminated_xyStr hc.1)
    rw [hx, Option.some.injEq, Prod.mk.injEq, Prod.mk.injEq] at hx₁
    obtain ⟨rfl, rfl, rfl⟩ := hx₁
    obtain ⟨mem, tok, save, htok, -⟩ := strtok_ok (show comma ≠ 0 by decide) hterm
    simp only [hsaved, State.strtokOn, hxy, htok] at hs
    rw [← Option.some.inj hs]
    refine h.local h.sane (hother _) (hmem _) (Or.inr ⟨save, rfl⟩) ?_
    simp [CallOk, State.goto, State.setXy, hc, hx, htok]
  | convert xStr yStr =>
    simp only [hpc] at hs hi
    obtain ⟨hc, xy, save, xy', y, save', hx, hy, hxy, rfl⟩ := hi
    have halone := alone_of_parts hc hx hy
    obtain ⟨ret, hret⟩ : ∃ ret, (calls i).alone = some ret := isSeektoPacket_returns _ _ _
    rw [hret] at halone
    have hstr : ((y.map fun p => (i, p)).map fun q => (s.xy q.1).map fun mem => mem.drop q.2) =
        y.map fun p => some (xy'.drop p) := by
      rw [Option.map_map]
      congr 1
      funext p
      simp [hxy]
    simp only [hxy, hstr, ← halone] at hs
    rw [← Option.some.inj hs]
    refine h.local h.sane (hother _) (fun _ _ => rfl) (Or.inl rfl) ?_
    simpa [CallOk, State.goto] using hret
  | release ret =>
    simp only [hpc] at hs hi
    rw [← Option.some.inj hs]
    refine h.local h.sane (hother _) (hmem _) (Or.inl rfl) ?_
    simpa [CallOk, State.goto, State.setXy] using hi
  | done ret =>
    simp only [hpc] at hs
    cases hs

/-- **Seek commands do not interfere in a run in which no call's two `strtok`s are separated by
another call's**: nothing is undefined, and each call returns what it returns alone. -/
theorem verdicts_alone {calls : ι → Call} {s₀ s : State ι} (h₀ : Init s₀) {as : List ι}
    (hm : Meets (step calls) Undisturbed s₀ as) (hr : run (step calls) s₀ as = some s) :
    s.fault = false ∧ Alone calls s := by
  have hgood₀ : Good calls s₀ := ⟨h₀.fault, fun i => by simp [CallOk, h₀.pc i]⟩
  have hgood : Good calls s := Meets.invariant good_step hgood₀ hm hr
  refine ⟨hgood.sane, fun i ret hpc => ?_⟩
  have hi := hgood.call i
  simpa only [CallOk, hpc] using hi

/-- The commands `0,1` and `0,2`. -/
def twoCalls : Fin 2 → Call := fun i =>
  ⟨seektoPacketPrefix ++ [48, comma, if i.val = 0 then 49 else 50, newline], true, ⟨0, 0⟩⟩

/-- No call has begun. -/
def idle : State (Fin 2) := ⟨fun _ => none, none, fun _ => .start, false⟩

/-- Each call is under way when the other one begins, and both `strtok`s of each are next to each other. -/
theorem verdicts_alone_two :
    ∃ s, run (step twoCalls) idle [0, 1, 0, 0, 1, 1, 0, 1, 1, 0] = some s ∧
      s.pc 0 = .done (true, ⟨0, 1⟩) ∧ s.pc 1 = .done (true, ⟨0, 2⟩) ∧ s.fault = false ∧
      Alone twoCalls s := by
  have hm : Meets (step twoCalls) Undisturbed idle [0, 1, 0, 0, 1, 1, 0, 1, 1, 0] := by decide
  have hr : (run (step twoCalls) idle [0, 1, 0, 0, 1, 1, 0, 1, 1, 0]).map
      (fun s => (s.pc 0, s.pc 1)) = some (.done (true, ⟨0, 1⟩), .done (true, ⟨0, 2⟩)) := by decide
  obtain ⟨s, hs, hpcs⟩ := Option.map_eq_some_iff.mp hr
  rw [Prod.mk.injEq] at hpcs
  exact ⟨s, hs, hpcs.1, hpcs.2, verdicts_alone ⟨fun _ => rfl, fun _ => rfl, rfl⟩ hm hs⟩

/-- **The calls in turns**: the first one takes the offset of the second one's command, and the
second one is not recognised as a command. -/
theorem strtok_race :
    ∃ s, run (step twoCalls) idle [0, 1, 0, 1, 0, 1, 0, 1, 0, 1] = some s ∧
      s.pc 0 = .done (true, ⟨0, 2⟩) ∧ (twoCalls 0).alone = some (true, ⟨0, 1⟩) ∧
      s.pc 1 = .done (false, ⟨0, 0⟩) ∧ (twoCalls 1).alone = some (true, ⟨0, 2⟩) ∧
      ¬ Alone twoCalls s := by
  have hr : (run (step twoCalls) idle [0, 1, 0, 1, 0, 1, 0, 1, 0, 1]).map
      (fun s => (s.pc 0, s.pc 1)) = some (.done (true, ⟨0, 2⟩), .done (false, ⟨0, 0⟩)) := by decide
  obtain ⟨s, hs, hpcs⟩ := Option.map_eq_some_iff.mp hr
  rw [Prod.mk.injEq] at hpcs
  have h₀ : (twoCalls 0).alone = some (true, ⟨0, 1⟩) := by decide
  have h₁ : (twoCalls 1).alone = some (true, ⟨0, 2⟩) := by decide
  refine ⟨s, hs, hpcs.1, h₀, hpcs.2, h₁, fun hall => ?_⟩
  have hzero := hall 0 _ hpcs.1
  rw [h₀] at hzero
  exact absurd hzero (by decide)

end Aesd.Server.SharedStrtok
