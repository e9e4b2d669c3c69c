import Aesd.Lib.Lts
import Aesd.Driver.Conservation

/-!
# `AESDCHAR_IOCSEEKTO` against writers

`aesd_ioctl` reads the buffer twice: it looks the command up under one read lock, and `aesd_llseek`
checks the position found against the end of the content under a second one. Writers may run before
the first lock, between the two and after the second; every interleaving of the call with writers is
given by these three runs. The outcome is that of a call made at one moment exactly if the position
found still is within the content at the second lock (`ioctl_linearizable_iff`).
-/

namespace Aesd.Driver.SeekRace

open Aesd.Lib.Alloc Aesd.Lib.Concat Aesd.Lib.Lts
open Aesd.Driver.Ring Aesd.Driver.Ring.CircularBuffer Aesd.Driver.Device Aesd.Driver.Store
open Aesd.Driver.Write Aesd.Driver.Read Aesd.Driver.Conservation

/-- A call of `aesd_write` by another opener. -/
def writeStep (d : AesdDev) (call : Bytes × WriteEnv) : Option AesdDev :=
  (aesdWrite d call.1 call.2).map Prod.snd

/-- The devices that runs of writes reach from the one just loaded. -/
abbrev Loaded (d : AesdDev) : Prop := Reachable writeStep (fun s => s = initModule) d

theorem inv_writeStep (d : AesdDev) (call : Bytes × WriteEnv) (d' : AesdDev) (h : Owned d)
    (hs : writeStep d call = some d') : Owned d' := by
  obtain ⟨e, he, hi, -⟩ := aesdWrite_refines h call.1 call.2
  simp only [writeStep, he, Option.map_some, Option.some.injEq] at hs
  exact hs ▸ hi

theorem inv_loaded {d : AesdDev} (h : Loaded d) : Owned d :=
  h.invariant (fun _ hs => hs ▸ inv_initModule) inv_writeStep

/-- A call whose locks are taken and whose command is copied in. -/
def granted : IoctlEnv := ⟨false, false, false⟩

/-- The command names a byte of a stored line. -/
def ValidIn (s : LineStore) (seekto : Seekto) : Prop :=
  ∃ b, s.entries[seekto.writeCmd.toNat]? = some b ∧ seekto.writeCmdOffset.toNat < b.length

/-- The position of that byte in the content. -/
def positionIn (s : LineStore) (seekto : Seekto) : ℕ :=
  ((s.entries.map List.length).take seekto.writeCmd.toNat).sum + seekto.writeCmdOffset.toNat

theorem positionIn_lt {s : LineStore} {seekto : Seekto} (h : ValidIn s seekto) :
    positionIn s seekto < s.entries.flatten.length := by
  obtain ⟨b, hb, hlt⟩ := h
  rw [List.length_flatten]
  exact take_sum_add_lt (by rw [List.getElem?_map, hb]; rfl) hlt

/-- `aesd_ioctl` with the buffer `d₁` under the first lock and `d₂` under the second one. -/
abbrev seekBetween (d₁ d₂ : AesdDev) (fpos : ℤ) (seekto : Seekto) : ℤ × ℤ :=
  aesdIoctl d₁.buffer d₂.buffer granted fpos aesdcharIocseekto seekto

open Classical in
theorem seekBetween_eq {d₁ d₂ : AesdDev} (h₁ : Owned d₁) (h₂ : Owned d₂) (fpos : ℤ) (seekto : Seekto) :
    seekBetween d₁ d₂ fpos seekto =
      if ValidIn (view d₁) seekto then
        if positionIn (view d₁) seekto ≤ (content d₂).length then
          ((positionIn (view d₁) seekto : ℤ), (positionIn (view d₁) seekto : ℤ))
        else (-erange, fpos)
      else (-einval, fpos) := by
  have habs := findAbsoluteOffset_view h₁ seekto.writeCmd.toNat seekto.writeCmdOffset.toNat
  have hset := aesdLlseek_set h₂ fpos (positionIn (view d₁) seekto)
  unfold seekBetween aesdIoctl ioctlLookup
  by_cases hv : ValidIn (view d₁) seekto
  · have hv' := hv
    unfold ValidIn at hv'
    rw [if_pos hv'] at habs
    have hcast : d₁.buffer.findAbsoluteOffset seekto.writeCmd.toNat seekto.writeCmdOffset.toNat =
        (positionIn (view d₁) seekto : ℤ) := by rw [habs]; unfold positionIn; push_cast; rfl
    have hnn : ¬ (positionIn (view d₁) seekto : ℤ) < 0 := by omega
    simp only [granted, hcast, hnn, if_true, if_false, Bool.false_eq_true, if_pos hv]
    exact hset
  · have hv' := hv
    unfold ValidIn at hv'
    rw [if_neg hv'] at habs
    simp only [granted, habs, if_true, if_false, Bool.false_eq_true, if_neg hv]
    rfl

/-- The call has the outcome of one made while the device was in one of the states `vs`; if the
command names a stored byte in all of them, it does not fail. -/
def Linearizable (vs : List AesdDev) (fpos : ℤ) (seekto : Seekto) (outcome : ℤ × ℤ) : Prop :=
  (∃ v ∈ vs, seekBetween v v fpos seekto = outcome) ∧
    ((∀ v ∈ vs, ValidIn (view v) seekto) → 0 ≤ outcome.1)

/-- **When the call is linearizable**: with writers running before its first lock (`ws₁`), between
its two locks (`ws₂`) and after the second one (`ws₃`), exactly if it is not the case that the command
names a byte at the first lock whose position then is beyond the end of the content at the second. -/
theorem ioctl_linearizable_iff {d₀ d₁ d₂ d₃ : AesdDev} (hd : Loaded d₀)
    {ws₁ ws₂ ws₃ : List (Bytes × WriteEnv)} (h₁ : run writeStep d₀ ws₁ = some d₁)
    (h₂ : run writeStep d₁ ws₂ = some d₂) (_h₃ : run writeStep d₂ ws₃ = some d₃) (fpos : ℤ)
    (seekto : Seekto) :
    Linearizable (visited writeStep d₀ (ws₁ ++ (ws₂ ++ ws₃))) fpos seekto
        (seekBetween d₁ d₂ fpos seekto) ↔
      ¬ (ValidIn (view d₁) seekto ∧ (content d₂).length < positionIn (view d₁) seekto) := by
  have hi₁ := inv_loaded (hd.run h₁)
  have hi₂ := inv_loaded ((hd.run h₁).run h₂)
  have hvis := visited_invariant inv_writeStep (ws₁ ++ (ws₂ ++ ws₃)) (inv_loaded hd)
  have hmem : d₁ ∈ visited writeStep d₀ (ws₁ ++ (ws₂ ++ ws₃)) := mem_visited_of_run _ h₁
  have hat : ∀ v, Owned v → seekBetween v v fpos seekto = (-erange, fpos) → False := by
    intro v hv he
    rw [seekBetween_eq hv hv] at he
    by_cases hval : ValidIn (view v) seekto
    · have hlt := positionIn_lt hval
      rw [if_pos hval, if_pos (show _ ≤ (content v).length from hlt.le)] at he
      have := congrArg Prod.fst he
      simp only [erange] at this
      omega
    · rw [if_neg hval] at he
      have hne : -einval ≠ -erange := by decide
      exact hne (congrArg Prod.fst he)
  rw [seekBetween_eq hi₁ hi₂]
  by_cases hval : ValidIn (view d₁) seekto
  · rw [if_pos hval]
    by_cases hle : positionIn (view d₁) seekto ≤ (content d₂).length
    · rw [if_pos hle]
      refine ⟨fun _ h => absurd h.2 (not_lt.mpr hle), fun _ => ⟨⟨d₁, hmem, ?_⟩, fun _ => ?_⟩⟩
      · rw [seekBetween_eq hi₁ hi₁, if_pos hval,
          if_pos (show _ ≤ (content d₁).length from (positionIn_lt hval).le)]
      · exact Int.natCast_nonneg _
    · rw [if_neg hle]
      refine ⟨fun h => ?_, fun h => absurd ⟨hval, not_le.mp hle⟩ h⟩
      obtain ⟨⟨v, hv, he⟩, -⟩ := h
      exact (hat v (hvis v hv) he).elim
  · rw [if_neg hval]
    refine ⟨fun _ h => hval h.1, fun _ => ⟨⟨d₁, hmem, ?_⟩, fun h => absurd (h d₁ hmem) hval⟩⟩
    rw [seekBetween_eq hi₁ hi₁, if_neg hval]

/-- A line of two bytes and its newline, then nine lines of only a newline. -/
def tenLines : List (Bytes × WriteEnv) :=
  ([97, 97, newline], smooth) :: List.replicate 9 ([newline], smooth)

theorem run_writeStep : ∀ {d : AesdDev}, Owned d → ∀ calls : List (Bytes × WriteEnv),
    ∃ d', run writeStep d calls = some d' ∧ Owned d' ∧
      view d' = (LineStore.writes (view d) calls).2
  | d, h, [] => ⟨d, rfl, h, rfl⟩
  | d, h, call :: calls => by
    obtain ⟨d₁, h₁, hi₁, hv₁⟩ := aesdWrite_refines h call.1 call.2
    obtain ⟨d₂, h₂, hi₂, hv₂⟩ := run_writeStep hi₁ calls
    refine ⟨d₂, run_cons_some.mpr ⟨d₁, by simp [writeStep, h₁], h₂⟩, hi₂, ?_⟩
    rw [hv₂, hv₁]; rfl

/-- **A seek fails though its target is there all the time**: the byte of the tenth line is sought
while a writer replaces the first, long line by a short one. -/
theorem seek_not_linearizable :
    ∃ d₀ d₁, run writeStep initModule tenLines = some d₀ ∧
      run writeStep d₀ [([newline], smooth)] = some d₁ ∧
      (∀ v ∈ visited writeStep d₀ [([newline], smooth)], ValidIn (view v) ⟨9, 0⟩) ∧
      seekBetween d₀ d₁ 0 ⟨9, 0⟩ = (-erange, 0) ∧
      ¬ Linearizable (visited writeStep d₀ [([newline], smooth)]) 0 ⟨9, 0⟩
        (seekBetween d₀ d₁ 0 ⟨9, 0⟩) := by
  obtain ⟨d₀, hr₀, hi₀, hv₀⟩ := run_writeStep inv_initModule tenLines
  obtain ⟨d₁, hr₁, hi₁, hv₁⟩ := run_writeStep hi₀ [([newline], smooth)]
  rw [view_initModule] at hv₀
  rw [hv₀] at hv₁
  have hs₀ : ValidIn (view d₀) ⟨9, 0⟩ := by rw [hv₀]; exact ⟨[newline], by decide, by decide⟩
  have hs₁ : ValidIn (view d₁) ⟨9, 0⟩ := by rw [hv₁]; exact ⟨[newline], by decide, by decide⟩
  have hvis : ∀ v ∈ visited writeStep d₀ [([newline], smooth)], ValidIn (view v) ⟨9, 0⟩ := by
    obtain ⟨e, he, hrest⟩ := run_cons_some.mp hr₁
    rw [run_nil, Option.some.injEq] at hrest
    rw [visited_cons _ he, visited_nil, hrest]
    simp [hs₀, hs₁]
  have hpos : (content d₁).length < positionIn (view d₀) ⟨9, 0⟩ := by
    unfold content
    rw [hv₁, hv₀]
    decide
  have hout : seekBetween d₀ d₁ 0 ⟨9, 0⟩ = (-erange, 0) := by
    rw [seekBetween_eq hi₀ hi₁, if_pos hs₀, if_neg (not_le.mpr hpos)]
  refine ⟨d₀, d₁, hr₀, hr₁, hvis, hout, fun h => ?_⟩
  have hnn := h.2 hvis
  rw [hout] at hnn
  exact absurd hnn (by decide)

/-- A seek into the first of ten lines, which a writer replaces between the two locks. -/
theorem ioctl_linearizable_iff_replaced :
    ∃ d₀ d₁ d₂ d₃, run writeStep initModule tenLines = some d₀ ∧
      run writeStep d₀ [([98], smooth)] = some d₁ ∧
      run writeStep d₁ [([newline], smooth)] = some d₂ ∧
      run writeStep d₂ [([newline], smooth)] = some d₃ ∧ seekBetween d₁ d₂ 0 ⟨0, 2⟩ = (2, 2) ∧
      Linearizable (visited writeStep d₀ ([([98], smooth)] ++ ([([newline], smooth)] ++
        [([newline], smooth)]))) 0 ⟨0, 2⟩ (seekBetween d₁ d₂ 0 ⟨0, 2⟩) := by
  obtain ⟨d₀, hr₀, hi₀, hv₀⟩ := run_writeStep inv_initModule tenLines
  obtain ⟨d₁, hr₁, hi₁, hv₁⟩ := run_writeStep hi₀ [([98], smooth)]
  obtain ⟨d₂, hr₂, hi₂, hv₂⟩ := run_writeStep hi₁ [([newline], smooth)]
  obtain ⟨d₃, hr₃, -, -⟩ := run_writeStep hi₂ [([newline], smooth)]
  rw [view_initModule] at hv₀
  rw [hv₀] at hv₁
  rw [hv₁] at hv₂
  have hvalid : ValidIn (view d₁) ⟨0, 2⟩ := by rw [hv₁]; exact ⟨[97, 97, newline], by decide, by decide⟩
  have hpos : positionIn (view d₁) ⟨0, 2⟩ = 2 := by rw [hv₁]; decide
  have hle : positionIn (view d₁) ⟨0, 2⟩ ≤ (content d₂).length := by
    unfold content
    rw [hv₁, hv₂]
    decide
  refine ⟨d₀, d₁, d₂, d₃, hr₀, hr₁, hr₂, hr₃, ?_,
    (ioctl_linearizable_iff ⟨initModule, tenLines, rfl, hr₀⟩ hr₁ hr₂ hr₃ 0 ⟨0, 2⟩).mpr
      fun h => absurd h.2 (not_lt.mpr hle)⟩
  rw [seekBetween_eq hi₁ hi₂, if_pos hvalid, if_pos hle, hpos]
  rfl

end Aesd.Driver.SeekRace
