import Aesd.Server.Serving

/-!
# The server refines its purpose

The steps under `log_file_mutex`, one lemma each: taking the lock, handing the packet's bytes to the
driver, the two halves of the `ioctl`, the two `fseek`s, the reads, the sends, and the release, where
the session joins the answered ones. `good_step` collects them.
-/

namespace Aesd.Server.Refinement

open Aesd.Lib.Alloc Aesd.Lib.Blocks Aesd.Lib.Lts
open Aesd.Driver.Ring Aesd.Driver.Device Aesd.Driver.Store Aesd.Driver.Read
open Aesd.Server.Packet Aesd.Server.Framing Aesd.Server.Answer Aesd.Server.Clients
open Aesd.Server.Serving

variable {ι : Type*} [DecidableEq ι]

/-- The first `k` elements of a slice, and the rest of it. -/
theorem slice_split {α : Type*} (l : List α) {t k n : ℕ} (h : t + k ≤ n) :
    (l.take n).drop t = (l.drop t).take k ++ (l.take n).drop (t + k) := by
  have htake : ((l.take n).drop t).take k = (l.drop t).take k := by
    rw [List.drop_take, List.take_take, min_eq_left (by omega)]
  rw [← htake, ← List.drop_drop, List.take_append_drop]

section Good
variable {s : State ι} (h : Good s)
include h

/-! ### Taking the lock -/

theorem good_lock {i : ι} {verdict : Option Seekto} (hpc : (s.client i).pc = .lock verdict)
    {s' : State ι} (hs : s.lock i verdict = some s') : Good s' := by
  have hno : ¬ Refused s i := h.not_refused (by rw [hpc]; simp) (by rw [hpc]; simp)
  unfold State.lock at hs
  rcases hholder : s.holder with _ | cur
  swap
  · simp [hholder] at hs
  simp only [hholder, Option.some.injEq] at hs
  obtain ⟨hview, hlog⟩ := h.free hholder
  have hself : s'.client i = { s.client i with pc := .fopen verdict } := by
    rw [← hs]; exact Function.update_self _ _ _
  have hother : ∀ j, j ≠ i → s'.client j = s.client j := by
    intro j hj; rw [← hs]; exact Function.update_of_ne hj _ _
  have hnew : s'.holder = some ⟨i, (s.client i).buf.handed.1, verdict, []⟩ := by rw [← hs]
  have hdone : s'.done = s.done := by rw [← hs]; rfl
  have hlines : lines s' = lines s := by rw [lines, hdone, lines]
  have hrefused : ∀ j, Refused s' j = Refused s j := fun j => by rw [Refused, hdone, Refused]
  have hpackets : ∀ j, packetsOf s' j =
      packetsOf s j ++ if j = i then [(s.client i).buf.handed.1] else [] := by
    intro j
    unfold packetsOf sessions
    rw [hdone, hholder, hnew]
    by_cases hj : i = j
    · simp [hj]
    · simp [hj, Ne.symm hj]
  have hsent : ∀ j, sentTo s' j = sentTo s j := by
    intro j
    unfold sentTo sessions
    rw [hdone, hholder, hnew]
    by_cases hj : i = j <;> simp [hj]
  refine ⟨by rw [← hs]; exact h.owned, by rw [← hs]; exact h.sane, by rw [hdone]; exact h.answered,
    by rw [hdone]; exact h.silent, by rw [hlines]; exact h.bounded, fun j => ?_, fun j => ?_,
    fun j hj => ?_, fun j hj => ?_, fun hnone => absurd (hnew ▸ hnone) (by simp), fun e he => ?_⟩
  · rw [hpackets, hrefused]
    by_cases hj : j = i
    · subst hj
      obtain ⟨hfits, l, hrec, hshort, hplace⟩ := h.framed j
      simp only [Place, hpc] at hplace
      rw [hself, if_pos rfl]
      exact ⟨hfits, l, hrec, hshort, hplace⟩
    · rw [hother j hj, if_neg hj, List.append_nil]
      exact h.framed j
  · rw [hsent]
    by_cases hj : j = i
    · subst hj
      rw [hself]
      exact h.outbox j
    · rw [hother j hj]
      exact h.outbox j
  · rw [hrefused] at hj
    have hji : j ≠ i := fun hji => hno (hji ▸ hj)
    rw [hother j hji]
    exact h.ends j hj
  · by_cases hji : j = i
    · exact ⟨_, hnew, hji.symm⟩
    · rw [hother j hji] at hj
      obtain ⟨e, he, -⟩ := h.exclusive j hj
      rw [hholder] at he
      cases he
  · rw [hnew, Option.some.injEq] at he
    rw [hlines, ← he, hself, ← hs]
    exact ⟨hview, rfl, rfl, rfl⟩

/-! ### The steps of the holder -/

theorem good_fopen {i : ι} {verdict : Option Seekto} (hpc : (s.client i).pc = .fopen verdict)
    {ok : Bool} (hok : ok = true) : Good (s.fopen i verdict ok) := by
  obtain ⟨cur, hcur, rfl⟩ := h.exclusive i (by rw [hpc]; rfl)
  have hphase := h.phase cur hcur
  simp only [Phase, hpc] at hphase
  obtain ⟨hview, hverdict, hpacket, hsent⟩ := hphase
  have hne : cur.packet ≠ [] := by
    obtain ⟨⟨c, hc, -⟩, -⟩ := h.packet hcur
    simp [hc]
  unfold State.fopen
  rw [hok]
  rcases verdict with _ | seekto
  · refine h.move hcur _ (some LogFile.init) h.owned
      ⟨⟨[], by rw [List.nil_append, hpacket], ?_⟩, rfl, hverdict.symm, rfl, hsent⟩
    rw [hpacket, if_neg hne]
    exact hview
  · exact h.move hcur _ (some LogFile.init) h.owned ⟨hview, rfl, hverdict.symm, hsent⟩

theorem good_write {i : ι} {left : Bytes} {failed : Bool}
    (hpc : (s.client i).pc = .write left failed) {count : ℕ} {env : WriteEnv}
    (henv : Granted env) {s' : State ι} (hs : s.write i left count env = some s') :
    Good s' := by
  obtain ⟨cur, hcur, rfl⟩ := h.exclusive i (by rw [hpc]; rfl)
  have hphase := h.phase cur hcur
  simp only [Phase, hpc] at hphase
  obtain ⟨⟨w, hw, hview⟩, hlog, hverdict, hfailed, hsent⟩ := hphase
  obtain ⟨f, hf⟩ := Option.isSome_iff_exists.mp hlog
  simp only [State.write, State.onLog, hf] at hs
  split_ifs at hs with hcount
  obtain ⟨hpos, hle⟩ := hcount
  have hleft : left ≠ [] := by
    rintro rfl
    simp at hle
    omega
  rw [if_neg hleft] at hview
  have hpiece : left.take count ≠ [] := by
    intro hnil
    rcases List.take_eq_nil_iff.mp hnil with hz | hz
    · omega
    · exact hleft hz
  obtain ⟨d', hwrite, howned, hview'⟩ := aesdWrite_piece h.owned hview
    (by rw [List.take_append_drop, hw]) (h.packet hcur).1 hpiece henv
  have hlen : (left.take count).length = count := by rw [List.length_take, min_eq_left hle]
  simp only [hwrite, hlen, Int.toNat_natCast] at hs
  rw [← Option.some.inj hs]
  have hanswer : (answer (lines s) (request cur)).1 =
      (lines s ++ [cur.packet]).rtake maxWriteOperationsSupported := by
    simp [answer, request, hverdict]
  refine h.move hcur _ s.log howned ⟨⟨w ++ left.take count, ?_, ?_⟩, hlog, hverdict, ?_, hsent⟩
  · rw [List.append_assoc, List.take_append_drop, hw]
  · rw [hview', hanswer]
  · simp

theorem good_fflush {i : ι} {left : Bytes} {failed : Bool}
    (hpc : (s.client i).pc = .write left failed) {s' : State ι}
    (hs : (s.onLog fun _ => if left = [] ∨ failed = true then some (s.goto i (.seekSet 0))
      else none) = some s') : Good s' := by
  obtain ⟨cur, hcur, rfl⟩ := h.exclusive i (by rw [hpc]; rfl)
  have hphase := h.phase cur hcur
  simp only [Phase, hpc] at hphase
  obtain ⟨⟨w, hw, hview⟩, hlog, hverdict, hfailed, hsent⟩ := hphase
  obtain ⟨f, hf⟩ := Option.isSome_iff_exists.mp hlog
  simp only [State.onLog, hf] at hs
  split_ifs at hs with hleft
  have hnil : left = [] := hleft.resolve_right (by simp [hfailed])
  rw [if_pos hnil] at hview
  rw [← Option.some.inj hs]
  refine h.move hcur _ s.log h.owned ⟨hview, hlog, hsent, 0, rfl, Nat.zero_le _, ?_⟩
  simp [answer, request, hverdict]

/-- The `ioctl` returns a position of the content. -/
theorem cint_position {cur : Session ι} (hcur : s.holder = some cur) {pos : ℕ}
    (hpos : pos ≤ (answer (lines s) (request cur)).1.flatten.length) : cint pos = pos := by
  have hlen := (h.bounded_answer hcur).length_flatten
  unfold cint
  rw [Int.bmod_eq_of_le] <;> omega

theorem good_ioctl {i : ι} {seekto : Seekto} (hpc : (s.client i).pc = .ioctl seekto)
    {copyFails semKilled : Bool} (hcopy : copyFails = false) (hsem : semKilled = false)
    {s' : State ι} (hs : s.ioctl i seekto copyFails semKilled = some s') : Good s' := by
  obtain ⟨cur, hcur, rfl⟩ := h.exclusive i (by rw [hpc]; rfl)
  have hphase := h.phase cur hcur
  simp only [Phase, hpc] at hphase
  obtain ⟨hview, hlog, hverdict, hsent⟩ := hphase
  obtain ⟨f, hf⟩ := Option.isSome_iff_exists.mp hlog
  have hanswer : answer (lines s) (request cur) =
      (lines s, (seekPosition (lines s) seekto).map fun pos => (lines s).flatten.drop pos) := by
    simp [answer, request, hverdict]
  simp only [State.ioctl, State.onLog, hf, hcopy, hsem, ioctlLookup_eq h.owned hview] at hs
  rcases hpos : seekPosition (lines s) seekto with _ | pos
  · have hneg : cint (-einval) < 0 := by decide
    simp only [hpos, Option.some.injEq] at hs
    rw [← hs, State.ioctlReturned, if_pos hneg]
    refine h.move hcur _ s.log h.owned ⟨?_, ?_, fun _ => hsent⟩
    · rw [hanswer]
      exact hview
    · simp [hanswer, hpos]
  · simp only [hpos, Option.some.injEq] at hs
    rw [← hs]
    refine h.move hcur _ s.log h.owned ⟨?_, hlog, hsent, pos, rfl, ?_, ?_⟩
    · rw [hanswer]
      exact hview
    · rw [hanswer]
      exact (seekPosition_lt hpos).le
    · simp [hanswer, hpos]

/-- The second half of the `ioctl` goes to a position of the content. -/
theorem llseek_within {cur : Session ι} (hcur : s.holder = some cur)
    (hview : view s.dev = ⟨(answer (lines s) (request cur)).1, []⟩) {f : LogFile}
    (hf : s.log = some f) {pos : ℕ}
    (hpos : pos ≤ (answer (lines s) (request cur)).1.flatten.length) (i : ι) :
    s.llseek i pos false =
      some { s.goto i (.seekSet pos) with log := some { f with fpos := pos } } := by
  have hnn : ¬ (pos : ℤ) < 0 := by omega
  simp only [State.llseek, State.onLog, hf, aesdLlseek_within h.owned hview _ hpos,
    State.ioctlReturned, cint_position h hcur hpos, if_neg hnn]

/-- `fseek` goes to a position of the content. -/
theorem seekSet_within {L : List Bytes} (hview : view s.dev = ⟨L, []⟩)
    (hlog : s.log.isSome = true) {pos : ℕ} (hpos : pos ≤ L.flatten.length) (i : ι) :
    s.seekSet i pos false =
      some { s.goto i (.read true) with log := some ⟨pos, [], false⟩ } := by
  obtain ⟨f, hf⟩ := Option.isSome_iff_exists.mp hlog
  have hnn : ¬ (pos : ℤ) < 0 := by omega
  simp only [State.seekSet, State.onLog, hf, aesdLlseek_within h.owned hview _ hpos, if_neg hnn]

theorem good_llseek {i : ι} {offset : ℤ} (hpc : (s.client i).pc = .llseek offset)
    {semKilled : Bool} (hsem : semKilled = false) {s' : State ι}
    (hs : s.llseek i offset semKilled = some s') : Good s' := by
  obtain ⟨cur, hcur, rfl⟩ := h.exclusive i (by rw [hpc]; rfl)
  have hphase := h.phase cur hcur
  simp only [Phase, hpc] at hphase
  obtain ⟨hview, hlog, hsent, pos, rfl, hpos, hanswer⟩ := hphase
  obtain ⟨f, hf⟩ := Option.isSome_iff_exists.mp hlog
  rw [hsem, llseek_within h hcur hview hf hpos] at hs
  rw [← Option.some.inj hs]
  exact h.move hcur _ _ h.owned ⟨hview, rfl, hsent, pos, rfl, hpos, hanswer⟩

theorem good_seekSet {i : ι} {offset : ℤ} (hpc : (s.client i).pc = .seekSet offset)
    {semKilled : Bool} (hsem : semKilled = false) {s' : State ι}
    (hs : s.seekSet i offset semKilled = some s') : Good s' := by
  obtain ⟨cur, hcur, rfl⟩ := h.exclusive i (by rw [hpc]; rfl)
  have hphase := h.phase cur hcur
  simp only [Phase, hpc] at hphase
  obtain ⟨hview, hlog, hsent, pos, rfl, hpos, hanswer⟩ := hphase
  rw [hsem, seekSet_within h hview hlog hpos] at hs
  rw [← Option.some.inj hs]
  refine h.move hcur _ _ h.owned ⟨hview, rfl, _, pos, rfl, rfl, by simp, ?_⟩
  simp [hanswer, hsent]

theorem good_fill {i : ι} {ret : Bool} (hpc : (s.client i).pc = .read ret) {count : ℕ}
    {env : ReadEnv} (hsem : env.semKilled = false) (hcopy : ∀ i, env.copy i = none) {s' : State ι}
    (hs : s.fill count env = some s') : Good s' := by
  obtain ⟨cur, hcur, rfl⟩ := h.exclusive i (by rw [hpc]; rfl)
  have hphase := h.phase cur hcur
  simp only [Phase, hpc] at hphase
  obtain ⟨hview, hret, f, pos, hf, hpos, hstop, hanswer⟩ := hphase
  simp only [State.fill, State.onLog, hf] at hs
  split_ifs at hs with hcount
  have hread := aesdRead_eq h.owned hsem hcopy pos
    ((List.length_take_le count _).trans
      (show count ≤ (List.replicate count (0 : UInt8)).length by simp))
  rw [content_eq hview] at hread
  set rest := (answer (lines s) (request cur)).1.flatten.drop pos with hrest
  have hover : (overlay (List.replicate count 0) 0 (rest.take count)).take (rest.take count).length =
      rest.take count := by
    simp [overlay]
  simp only [hpos, Int.toNat_natCast, hread, hover] at hs
  rw [← Option.some.inj hs]
  have hdrop : (answer (lines s) (request cur)).1.flatten.drop
      (pos + (rest.take count).length) = rest.drop count := by
    rw [← List.drop_drop, ← hrest, List.length_take]
    rcases le_total count rest.length with hle | hle
    · rw [min_eq_left hle]
    · rw [min_eq_right hle, List.drop_length, List.drop_eq_nil_of_le hle]
  have hsame : ({ s.client cur.client with pc := .read ret } : Client) = s.client cur.client := by
    rw [← hpc]
  have hmove := h.move hcur (.read ret)
    (some ⟨((pos + (rest.take count).length : ℕ) : ℤ), f.ahead ++ rest.take count,
      decide (((rest.take count).length : ℤ) ≤ 0)⟩) h.owned
    ⟨hview, hret, _, pos + (rest.take count).length, rfl, rfl, fun hz => ?_, ?_⟩
  · have hgoto : s.goto cur.client (.read ret) = s := by
      unfold State.goto State.put
      rw [hsame, Function.update_eq_self]
    rw [hgoto] at hmove
    exact hmove
  · have hz' : (rest.take count).length = 0 := by
      have := of_decide_eq_true hz
      omega
    rw [hz', Nat.add_zero, ← hrest]
    rcases List.take_eq_nil_iff.mp (List.length_eq_zero_iff.mp hz') with hc | hc
    · omega
    · exact hc
  · rw [hdrop, hanswer]
    simp

theorem good_fread {i : ι} {ret : Bool} (hpc : (s.client i).pc = .read ret) {n : ℕ}
    {s' : State ι} (hs : s.fread i ret n = some s') : Good s' := by
  obtain ⟨cur, hcur, rfl⟩ := h.exclusive i (by rw [hpc]; rfl)
  have hphase := h.phase cur hcur
  simp only [Phase, hpc] at hphase
  obtain ⟨hview, hret, f, pos, hf, hpos, hstop, hanswer⟩ := hphase
  simp only [State.fread, State.onLog, hf] at hs
  split_ifs at hs with hn hend hle
  · rw [← Option.some.inj hs]
    refine h.move hcur _ s.log h.owned ⟨hview, by simp [hf], hret, ?_⟩
    rw [hanswer, hend.2, hstop hend.1]
    simp
  · obtain ⟨hahead, hsize⟩ := hle
    have hfits := (h.framed cur.client).fits
    have hlen : (f.ahead.take n).length = n := by rw [List.length_take, min_eq_left hahead]
    have hmem := hfits.allocated
    have hover : (overlay (s.client cur.client).buf.packet 0 (f.ahead.take n)).length =
        (s.client cur.client).buf.packet.length := length_overlay (by omega)
    have htake : (overlay (s.client cur.client).buf.packet 0 (f.ahead.take n)).take n =
        f.ahead.take n := by
      unfold overlay
      rw [List.take_zero, List.nil_append, List.take_append_of_le_length hlen.ge,
        List.take_of_length_le hlen.le]
    rw [← Option.some.inj hs]
    refine h.inside hcur [] rfl rfl h.sane hcur (by rw [List.append_nil]) ⟨rfl, rfl⟩
      (List.append_nil _).symm ⟨hfits.doubled, hover.trans hmem, hfits.index_le, hfits.index_max⟩
      h.owned ⟨hview, hret, by omega, ?_, _, pos, rfl, hpos, hstop, ?_⟩
    · show n ≤ (overlay _ 0 _).length
      omega
    · show _ = some (cur.sent ++ (((overlay _ 0 _).take n).drop 0 ++ _))
      rw [htake, List.drop_zero, hanswer]
      simp only [List.nil_append]
      rw [← List.append_assoc (f.ahead.take n), List.take_append_drop]

theorem good_send {i : ι} {ret : Bool} {bytesRead total : ℕ}
    (hpc : (s.client i).pc = .send ret bytesRead total) {sent : Option ℕ}
    (hsent : sent ≠ none) {s' : State ι}
    (hs : s.send i ret bytesRead total sent = some s') : Good s' := by
  obtain ⟨cur, hcur, rfl⟩ := h.exclusive i (by rw [hpc]; rfl)
  have hphase := h.phase cur hcur
  simp only [Phase, hpc] at hphase
  obtain ⟨hview, hret, hlt, hle, f, pos, hf, hpos, hstop, hanswer⟩ := hphase
  rcases sent with _ | k
  · exact absurd rfl hsent
  simp only [State.send, hcur, Option.map_some] at hs
  split_ifs at hs with hk hmore
  all_goals
    rw [← Option.some.inj hs]
    have hsplit : ((s.client cur.client).buf.packet.take bytesRead).drop total =
        ((s.client cur.client).buf.packet.drop total).take k ++
          ((s.client cur.client).buf.packet.take bytesRead).drop (total + k) := slice_split _ hk.2
    rw [hsplit, List.append_assoc, ← List.append_assoc cur.sent] at hanswer
  · exact h.inside hcur _ rfl rfl h.sane rfl rfl ⟨rfl, rfl⟩ rfl (h.framed cur.client).fits h.owned
      ⟨hview, hret, hmore, hle, f, pos, hf, hpos, hstop, hanswer⟩
  · have hall : ((s.client cur.client).buf.packet.take bytesRead).drop (total + k) = [] :=
      List.drop_eq_nil_of_le (by rw [List.length_take]; omega)
    rw [hall] at hanswer
    exact h.inside hcur _ rfl rfl h.sane rfl rfl ⟨rfl, rfl⟩ rfl (h.framed cur.client).fits h.owned
      ⟨hview, hret, f, pos, hf, hpos, hstop, hanswer⟩

theorem good_seekEnd {i : ι} {ret : Bool} (hpc : (s.client i).pc = .seekEnd ret)
    {semKilled : Bool} (hsem : semKilled = false) {s' : State ι}
    (hs : s.seekEnd i ret semKilled = some s') : Good s' := by
  obtain ⟨cur, hcur, rfl⟩ := h.exclusive i (by rw [hpc]; rfl)
  have hphase := h.phase cur hcur
  simp only [Phase, hpc] at hphase
  obtain ⟨hview, hlog, hret, hanswer⟩ := hphase
  obtain ⟨f, hf⟩ := Option.isSome_iff_exists.mp hlog
  have hok : (ret && decide ((0 : ℤ) ≤ (answer (lines s) (request cur)).1.flatten.length)) = true := by
    rw [hret, Bool.true_and]
    exact decide_eq_true (Int.natCast_nonneg _)
  simp only [State.seekEnd, State.onLog, hf, hsem,
    aesdLlseek_end h.owned hview (h.bounded_answer hcur), hok] at hs
  rw [← Option.some.inj hs]
  refine h.move hcur _ _ h.owned ⟨hview, hanswer, fun hfalse => ?_⟩
  cases hfalse

theorem good_fclose {i : ι} {ret : Bool} (hpc : (s.client i).pc = .fclose ret) :
    Good { s.goto i (.unlock ret) with log := none } := by
  obtain ⟨cur, hcur, rfl⟩ := h.exclusive i (by rw [hpc]; rfl)
  have hphase := h.phase cur hcur
  simp only [Phase, hpc] at hphase
  exact h.move hcur _ none h.owned ⟨hphase.1, rfl, hphase.2⟩

/-! ### Releasing the lock -/

theorem good_unlock {i : ι} {ret : Bool} (hpc : (s.client i).pc = .unlock ret) :
    Good (s.unlock i ret) := by
  obtain ⟨cur, hcur, rfl⟩ := h.exclusive i (by rw [hpc]; rfl)
  have hphase := h.phase cur hcur
  have hcrit := hphase.critical
  simp only [Phase, hpc] at hphase
  obtain ⟨hview, hlog, hanswer, hsilent⟩ := hphase
  set s' := s.unlock cur.client ret with hs'
  have hself : s'.client cur.client = { s.client cur.client with pc := .returned ret } :=
    Function.update_self _ _ _
  have hother : ∀ j, j ≠ cur.client → s'.client j = s.client j :=
    fun j hj => Function.update_of_ne hj _ _
  have hdone : s'.done = s.done ++ [(cur, ret)] := by simp [hs', State.unlock, hcur]
  have hholder : s'.holder = none := rfl
  have hserve : serve [] (s'.done.map fun e => request e.1) =
      ((answer (lines s) (request cur)).1,
        s.done.map outcome ++ [(answer (lines s) (request cur)).2]) := by
    rw [hdone, List.map_append, List.map_singleton, serve_concat, h.answered]
    rfl
  have hlines : lines s' = (answer (lines s) (request cur)).1 := by rw [lines, hserve]
  have hsessions : sessions s' = sessions s := by
    unfold sessions
    rw [hdone, hholder, hcur]
    simp
  have hpackets : ∀ j, packetsOf s' j = packetsOf s j := fun j => by
    rw [packetsOf, hsessions, packetsOf]
  have hrefused : ∀ j, Refused s' j ↔ Refused s j ∨ (j = cur.client ∧ ret = false) := by
    intro j
    unfold Refused
    rw [hdone]
    simp only [List.mem_append, List.mem_singleton, or_and_right, exists_or, exists_eq_left,
      eq_comm]
  have hno : ¬ Refused s cur.client := by
    intro hr
    rcases h.ends _ hr with he | he <;> rw [hpc] at he <;> cases he
  refine ⟨h.owned, h.sane, ?_, ?_, by rw [hlines]; exact h.bounded_answer hcur, fun j => ?_,
    fun j => ?_, fun j hj => ?_, fun j hj => ?_, fun _ => ⟨by rw [hlines]; exact hview, hlog⟩,
    fun e he => absurd (hholder ▸ he) (by simp)⟩
  · rw [hserve, hdone, List.map_append, List.map_singleton, hanswer]
    rfl
  · intro e he hfalse
    rw [hdone, List.mem_append, List.mem_singleton] at he
    rcases he with he | rfl
    · exact h.silent e he hfalse
    · exact hsilent hfalse
  · rw [hpackets]
    obtain ⟨hfits, l, hrec, hshort, hplace⟩ := h.framed j
    by_cases hj : j = cur.client
    · subst hj
      rw [place_critical hcrit] at hplace
      rw [hself]
      exact ⟨hfits, l, hrec, hshort, hplace.1, hplace.2,
        fun hret => (hrefused cur.client).mpr (Or.inr ⟨rfl, hret⟩)⟩
    · rw [hother j hj, show Refused s' j = Refused s j from
        propext ((hrefused j).trans (or_iff_left fun hc => hj hc.1))]
      exact ⟨hfits, l, hrec, hshort, hplace⟩
  · rw [sentTo, hsessions, ← sentTo]
    by_cases hj : j = cur.client
    · subst hj
      rw [hself]
      exact h.outbox cur.client
    · rw [hother j hj]
      exact h.outbox j
  · by_cases hjc : j = cur.client
    · subst hjc
      rw [hself]
      rcases (hrefused cur.client).mp hj with hr | hr
      · exact absurd hr hno
      · exact Or.inl (by rw [hr.2])
    · rw [hother j hjc]
      exact h.ends j (((hrefused j).mp hj).resolve_right fun hc => hjc hc.1)
  · by_cases hjc : j = cur.client
    · subst hjc
      rw [hself] at hj
      cases hj
    · rw [hother j hjc] at hj
      exact absurd (h.holder_of_critical hcur hj) hjc

end Good

/-- **The invariant is kept by every step in which nothing fails.** -/
theorem good_step (s : State ι) (a : ι × Act) (s' : State ι) (h : Good s) (ha : Smooth a.2)
    (hs : step s a = some s') : Good s' := by
  obtain ⟨i, act⟩ := a
  simp only [step, h.sane, Bool.false_eq_true, if_false] at hs
  cases hpc : (s.client i).pc <;> cases act <;> simp only [hpc, reduceCtorEq] at hs
  case recv.recv => exact good_recv h hpc hs
  case bytes.byte => exact good_byte h hpc ha hs
  case bytes.chunkEnd running =>
    by_cases htodo : (s.client i).todo = []
    · rw [if_pos htodo] at hs
      exact (Option.some.inj hs) ▸ good_chunkEnd h hpc htodo running
    · rw [if_neg htodo] at hs
      cases hs
  case lock.lock => exact good_lock h hpc hs
  case fopen.fopen => exact (Option.some.inj hs) ▸ good_fopen h hpc ha
  case write.write => exact good_write h hpc ha hs
  case write.fflush => exact good_fflush h hpc hs
  case ioctl.ioctl => exact good_ioctl h hpc ha.1 ha.2 hs
  case llseek.fseek => exact good_llseek h hpc ha hs
  case seekSet.fseek => exact good_seekSet h hpc ha hs
  case read.fill => exact good_fill h hpc ha.1 ha.2 hs
  case read.fread => exact good_fread h hpc hs
  case send.send => exact good_send h hpc ha hs
  case seekEnd.fseek => exact good_seekEnd h hpc ha hs
  case fclose.fclose => exact (Option.some.inj hs) ▸ good_fclose h hpc
  case unlock.unlock => exact (Option.some.inj hs) ▸ good_unlock h hpc
  case returned.back => exact (Option.some.inj hs) ▸ good_back h hpc

end Aesd.Server.Refinement
