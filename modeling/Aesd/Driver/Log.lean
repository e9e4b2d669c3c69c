import Aesd.Lib.Stretches
import Aesd.Driver.Linearize

/-!
# The log of the device

The atomic device with all the lines ever completed, of which it shows the last ten. A line that is
dropped moves the rest of the content towards the start, under the positions of the openers. So an opener
that only reads gets stretches of the log in order, none of it twice (`reads_in_order`): what it misses
is what was dropped between two of its reads, and what its failed reads step over.
-/

namespace Aesd.Driver.Log

open Aesd.Lib.Alloc Aesd.Lib.Circular Aesd.Lib.Lts Aesd.Lib.Objects Aesd.Lib.Stretches
open Aesd.Driver.Ring
open Aesd.Driver.Ring.CircularBuffer hiding init
open Aesd.Driver.Device Aesd.Driver.Store Aesd.Driver.Read
open Aesd.Driver.Calls Aesd.Driver.Atomic Aesd.Driver.Beside Aesd.Driver.Linearize

/-- All lines completed so far, the line under construction, and the positions. -/
structure LineLog (ι : Type*) where
  lines : List Bytes
  pending : Bytes
  fpos : ι → ℕ

namespace LineLog

def init (ι : Type*) : LineLog ι := ⟨[], [], fun _ => 0⟩

variable {ι : Type*}

/-- What the device shows. -/
def files (g : LineLog ι) : Files ι :=
  ⟨⟨g.lines.rtake maxWriteOperationsSupported, g.pending⟩, g.fpos⟩

/-- The bytes dropped from the device. -/
def dropped (g : LineLog ι) : ℕ :=
  (g.lines.take (g.lines.length - maxWriteOperationsSupported)).flatten.length

def accept (g : LineLog ι) (buf : Bytes) : LineLog ι :=
  if buf.getLast? = some newline then { g with lines := g.lines ++ [g.pending ++ buf], pending := [] }
  else { g with pending := g.pending ++ buf }

/-- `LineStore.write`, with nothing dropped. -/
def write (g : LineLog ι) (buf : Bytes) (env : WriteEnv) : ℤ × LineLog ι :=
  if buf.length = 0 then (0, g)
  else if env.mutexKilled then (-eintr, g)
  else if env.alloc.isOk = false then (-enomem, { g with pending := [] })
  else if env.copy.isSome then (-efault, g)
  else if buf.getLast? = some newline ∧ env.semKilled then
    (-eintr, { g with pending := g.pending ++ buf })
  else (buf.length, g.accept buf)

end LineLog

variable {ι : Type*} [DecidableEq ι]

/-- **The log as an atomic object**: a write is one of the log, and the other calls are those of the
device it shows. -/
def lineLog : Object ι (LineLog ι) Call Result where
  apply i g c g' out := match c with
    | .write buf => ∃ env, g' = (g.write buf env).2 ∧ out = .inr ⟨(g.write buf env).1, []⟩
    | c => Applies i g.files c g'.files out ∧ g'.lines = g.lines

/-! ### The device shows the end of the log -/

omit [DecidableEq ι] in
theorem files_accept (g : LineLog ι) (buf : Bytes) :
    (g.accept buf).files = { g.files with store := g.files.store.accept buf } := by
  unfold LineLog.accept LineStore.accept
  split_ifs
  · simp only [LineLog.files, rtake_concat]
  · rfl

omit [DecidableEq ι] in
theorem files_write (g : LineLog ι) (buf : Bytes) (env : WriteEnv) :
    (g.write buf env).1 = (g.files.store.write buf env).1 ∧
      (g.write buf env).2.files = { g.files with store := (g.files.store.write buf env).2 } := by
  unfold LineLog.write LineStore.write
  split_ifs
  · exact ⟨rfl, rfl⟩
  · exact ⟨rfl, rfl⟩
  · exact ⟨rfl, rfl⟩
  · exact ⟨rfl, rfl⟩
  · exact ⟨rfl, rfl⟩
  · exact ⟨rfl, files_accept g buf⟩

/-- What the device does, the log does. -/
theorem lineLog_applies (i : ι) (g : LineLog ι) (c : Call) (f : Files ι) (out : Call ⊕ Result)
    (h : Applies i g.files c f out) : ∃ g' : LineLog ι, g'.files = f ∧ lineLog.apply i g c g' out := by
  have hother : ∀ pos, ∃ g' : LineLog ι, g'.files = g.files.move i pos ∧ g'.lines = g.lines :=
    fun pos => ⟨{ g with fpos := Function.update g.fpos i pos }, rfl, rfl⟩
  have hcalls : ∀ {c}, (∀ buf, c ≠ .write buf) → Applies i g.files c f out →
      (∃ g' : LineLog ι, g'.files = f ∧ g'.lines = g.lines) →
      ∃ g' : LineLog ι, g'.files = f ∧ lineLog.apply i g c g' out := by
    rintro c hc ha ⟨g', hf, hl⟩
    refine ⟨g', hf, ?_⟩
    cases c with
    | write buf => exact absurd rfl (hc buf)
    | _ => exact ⟨hf ▸ ha, hl⟩
  cases h with
  | write buf env =>
    obtain ⟨hr, hf⟩ := files_write g buf env
    exact ⟨_, hf, env, rfl, by rw [hr]⟩
  | read ubuf hw => exact hcalls nofun (.read ubuf hw) (hother _)
  | readFault ubuf hw hn hlt => exact hcalls nofun (.readFault ubuf hw hn hlt) (hother _)
  | llseek offset whence hr => exact hcalls nofun (.llseek offset whence hr) (hother _)
  | readKilled ubuf => exact hcalls nofun (.readKilled ubuf) ⟨g, rfl, rfl⟩
  | llseekKilled offset whence => exact hcalls nofun (.llseekKilled offset whence) ⟨g, rfl, rfl⟩
  | ioctlCmd seekto hcmd => exact hcalls nofun (.ioctlCmd seekto hcmd) ⟨g, rfl, rfl⟩
  | ioctlFault seekto => exact hcalls nofun (.ioctlFault seekto) ⟨g, rfl, rfl⟩
  | ioctlKilled seekto => exact hcalls nofun (.ioctlKilled seekto) ⟨g, rfl, rfl⟩
  | ioctlInvalid hv => exact hcalls nofun (.ioctlInvalid hv) ⟨g, rfl, rfl⟩
  | ioctl hv => exact hcalls nofun (.ioctl hv) ⟨g, rfl, rfl⟩

/-! ### Where the content is in the log -/

section Position
omit [DecidableEq ι]

theorem drop_dropped (g : LineLog ι) :
    g.lines.flatten.drop g.dropped = g.files.store.entries.flatten := by
  have hsplit := congrArg List.flatten (rtake_append_drop g.lines maxWriteOperationsSupported)
  rw [List.flatten_append] at hsplit
  rw [← hsplit]
  exact List.drop_left

theorem dropped_mono {g g' : LineLog ι} (h : g.lines <+: g'.lines) : g.dropped ≤ g'.dropped := by
  have hlen := h.length_le
  refine List.IsPrefix.length_le (List.IsPrefix.flatten (List.prefix_take_iff.mpr ⟨?_, ?_⟩))
  · exact (List.take_prefix _ _).trans h
  · rw [List.length_take]
    omega

theorem dropped_eq_zero {g : LineLog ι} (h : g.lines.length ≤ maxWriteOperationsSupported) :
    g.dropped = 0 := by
  rw [LineLog.dropped, Nat.sub_eq_zero_of_le h, List.take_zero, List.flatten_nil, List.length_nil]

theorem lines_write (g : LineLog ι) (buf : Bytes) (env : WriteEnv) :
    g.lines <+: (g.write buf env).2.lines ∧ (g.write buf env).2.fpos = g.fpos := by
  unfold LineLog.write LineLog.accept
  split_ifs
  · exact ⟨List.prefix_rfl, rfl⟩
  · exact ⟨List.prefix_rfl, rfl⟩
  · exact ⟨List.prefix_rfl, rfl⟩
  · exact ⟨List.prefix_rfl, rfl⟩
  · exact ⟨List.prefix_rfl, rfl⟩
  · exact ⟨List.prefix_append _ _, rfl⟩
  · exact ⟨List.prefix_rfl, rfl⟩

end Position

/-- The log only grows, and a call moves no other opener. -/
theorem lineLog_grows {i : ι} {g g' : LineLog ι} {c : Call} {out : Call ⊕ Result}
    (h : lineLog.apply i g c g' out) :
    g.lines <+: g'.lines ∧ ∀ j, j ≠ i → g'.fpos j = g.fpos j := by
  have hfpos : ∀ {c}, Applies i g.files c g'.files out → ∀ j, j ≠ i → g'.fpos j = g.fpos j := by
    intro c ha j hj
    have hmove : ∀ {f : Files ι} {pos : ℕ}, g'.files = f.move i pos → f.fpos = g.fpos →
        g'.fpos j = g.fpos j := by
      intro f pos hf hg
      have hj' := congrFun (congrArg Files.fpos hf) j
      rw [← hg]
      exact hj'.trans (Function.update_of_ne hj _ _)
    generalize hf : g'.files = f at ha
    cases ha with
    | read | readFault | llseek => exact hmove hf rfl
    | _ => exact congrFun (congrArg Files.fpos hf) j
  cases c with
  | write buf =>
    obtain ⟨env, rfl, -⟩ := h
    obtain ⟨hl, hp⟩ := lines_write g buf env
    exact ⟨hl, fun j _ => by rw [hp]⟩
  | _ => exact ⟨h.2 ▸ List.prefix_rfl, hfpos h.1⟩

/-! ### What an opener gets that only reads -/

/-- The bytes a read has put into the user's buffer, by its return value. -/
def gained (r : Result) : Bytes := r.ubuf.take r.retval.toNat

/-- The call is a read. -/
def isRead : Call → Bool
  | .read _ => true
  | _ => false

/-- **A read gains a stretch of the log** from its position on, and its position then is behind it. -/
theorem read_gains {i : ι} {g g' : LineLog ι} {ubuf : Bytes} {out : Call ⊕ Result}
    (h : lineLog.apply i g (.read ubuf) g' out) :
    ∃ r, out = .inr r ∧ g'.lines = g.lines ∧
      gained r <+: g.lines.flatten.drop (g.dropped + g.fpos i) ∧
      g.fpos i + (gained r).length ≤ g'.fpos i ∧
      (0 ≤ r.retval → g'.fpos i = g.fpos i + (gained r).length) := by
  obtain ⟨ha, hl⟩ := h
  have hcontent : ∀ n, g.lines.flatten.drop (g.dropped + n) =
      g.files.store.entries.flatten.drop n := fun n => by rw [← List.drop_drop, drop_dropped]
  rw [hcontent]
  generalize hf : g'.files = f at ha
  cases ha with
  | readKilled => 
    have hpos : g'.fpos i = g.fpos i := congrFun (congrArg Files.fpos hf) i
    refine ⟨_, rfl, hl, ?_⟩
    simp [gained, hpos, eintr]
  | @read _ w hw =>
    have hpos : g'.fpos i = g.fpos i + w.length :=
      (congrFun (congrArg Files.fpos hf) i).trans (Function.update_self _ _ _)
    have hfit : w.length ≤ ubuf.length := by
      rw [hw, sliceOf, List.length_take]
      exact min_le_left _ _
    have hgain : gained ⟨w.length, overlay ubuf 0 w⟩ = w := by
      simp [gained, overlay]
    refine ⟨_, rfl, hl, ?_⟩
    rw [hgain, hpos]
    exact ⟨hw ▸ List.take_prefix _ _, le_rfl, fun _ => rfl⟩
  | @readFault _ w n hw hn hlt =>
    have hpos : g'.fpos i = g.fpos i + n :=
      (congrFun (congrArg Files.fpos hf) i).trans (Function.update_self _ _ _)
    refine ⟨_, rfl, hl, ?_⟩
    simp [gained, hpos, efault]

/-- What the results of the reads of an opener say about the log: `rs` are all its results, those of a
call that has not returned yet included. -/
structure Gains (g : LineLog ι) (i : ι) (rs : List Result) : Prop where
  pieces : Pieces g.lines.flatten (rs.map gained) (g.dropped + g.fpos i)
  whole : g.dropped = 0 → (∀ r ∈ rs, 0 ≤ r.retval) →
    (rs.map gained).flatten = g.lines.flatten.take (g.fpos i) ∧ g.fpos i ≤ g.lines.flatten.length

omit [DecidableEq ι] in
/-- The others go on. -/
theorem Gains.grow {g g' : LineLog ι} {i : ι} {rs : List Result} (h : Gains g i rs)
    (hl : g.lines <+: g'.lines) (hp : g'.fpos i = g.fpos i) : Gains g' i rs where
  pieces := by
    rw [hp]
    exact (h.pieces.grow hl.flatten).mono (Nat.add_le_add_right (dropped_mono hl) _)
  whole hd hr := by
    have hd' := dropped_mono hl
    obtain ⟨hw, hle⟩ := h.whole (by omega) hr
    rw [hp, hw]
    refine ⟨?_, hle.trans hl.flatten.length_le⟩
    obtain ⟨l, hl'⟩ := hl.flatten
    rw [← hl', List.take_append_of_le_length hle]

theorem Gains.read {g g' : LineLog ι} {i : ι} {rs : List Result} (h : Gains g i rs) {ubuf : Bytes}
    {out : Call ⊕ Result} (ha : lineLog.apply i g (.read ubuf) g' out) :
    ∃ r, out = .inr r ∧ Gains g' i (rs ++ [r]) := by
  obtain ⟨r, hr, hl, hpre, hle, heq⟩ := read_gains ha
  have hdropped : g'.dropped = g.dropped := by rw [LineLog.dropped, hl, LineLog.dropped]
  refine ⟨r, hr, ?_, fun hd hrs => ?_⟩
  · rw [List.map_append, hl]
    refine .snoc h.pieces le_rfl hpre ?_
    rw [hdropped]
    omega
  · rw [hdropped] at hd
    obtain ⟨hw, hlen⟩ := h.whole hd fun r hr => hrs r (List.mem_append_left _ hr)
    have hpos := heq (hrs r (by simp))
    rw [hd, Nat.zero_add, List.prefix_iff_eq_take] at hpre
    have hroom := congrArg List.length hpre
    rw [List.length_take, List.length_drop] at hroom
    refine ⟨?_, by rw [hpos, hl]; omega⟩
    rw [hpos, hl, List.map_append, List.flatten_append, hw, List.take_add, List.map_singleton,
      List.flatten_singleton, ← hpre]

/-- The results of an opener, that of a call that has taken effect included. -/
def resultsOf (i : ι) (t : List (Event ι Call Result)) : Status Call Result → List Result
  | .over r => returnsOf i t ++ [r]
  | _ => returnsOf i t

theorem gains_of_moves {t : List (Event ι Call Result)} {m : Atomic ι (LineLog ι) Call Result}
    (h : Moves lineLog (.start (LineLog.init ι)) t m) (i : ι) (hi : ∀ c ∈ callsOf i t, isRead c = true) :
    Gains m.state i (resultsOf i t (m.status i)) ∧
      ∀ c, m.status i = .pending c → isRead c = true := by
  induction h with
  | refl =>
    exact ⟨⟨.nil _, fun _ _ => ⟨rfl, Nat.zero_le _⟩⟩, fun c hc => by cases hc⟩
  | @call t m j o hm hj ih =>
    rw [callsOf_append] at hi
    obtain ⟨hg, hp⟩ := ih fun c hc => hi c (List.mem_append_left _ hc)
    by_cases hji : j = i
    · subst hji
      rw [hj] at hg
      rw [Atomic.put_status]
      refine ⟨?_, fun c hc => ?_⟩
      · simpa [resultsOf, returnsOf_append, returnsOf] using hg
      · cases hc
        exact hi o (by simp [callsOf])
    · rw [m.put_status_of_ne (Ne.symm hji)]
      refine ⟨?_, hp⟩
      cases hst : m.status i <;> simpa [resultsOf, returnsOf_append, returnsOf, hst] using hg
  | @ret t m j r hm hj ih =>
    rw [callsOf_append] at hi
    obtain ⟨hg, hp⟩ := ih fun c hc => hi c (List.mem_append_left _ hc)
    by_cases hji : j = i
    · subst hji
      rw [hj] at hg
      rw [Atomic.put_status]
      refine ⟨?_, fun c hc => by cases hc⟩
      simpa [resultsOf, returnsOf_append, returnsOf] using hg
    · rw [m.put_status_of_ne (Ne.symm hji)]
      refine ⟨?_, hp⟩
      cases hst : m.status i <;> simpa [resultsOf, returnsOf_append, returnsOf, hst, hji] using hg
  | @effect t m j o g' out hm hj ha ih =>
    rw [callsOf_append] at hi
    obtain ⟨hg, hp⟩ := ih fun c hc => hi c (List.mem_append_left _ hc)
    by_cases hji : j = i
    · subst hji
      have ho := hp o hj
      rw [hj] at hg
      cases o with
      | read ubuf =>
        obtain ⟨r, rfl, hg'⟩ := hg.read ha
        rw [Atomic.put_status]
        refine ⟨?_, fun c hc => by cases hc⟩
        simpa [resultsOf, returnsOf_append, returnsOf, Status.next] using hg'
      | _ => cases ho
    · obtain ⟨hl, hpos⟩ := lineLog_grows ha
      rw [Atomic.put_status_of_ne _ (Ne.symm hji)]
      refine ⟨?_, hp⟩
      have hg' := hg.grow hl (hpos i (Ne.symm hji))
      cases hst : m.status i <;> simpa [resultsOf, returnsOf_append, returnsOf, hst] using hg'

/-- What the results `rs` of an opener that only reads are beside a log of the lines `lines`: stretches of
it, in order and none twice; and a beginning of it, if nothing was dropped and no read failed. -/
structure InOrder (lines : List Bytes) (rs : List Result) : Prop where
  pieces : ∃ b, Pieces lines.flatten (rs.map gained) b
  sublist : (rs.map gained).flatten.Sublist lines.flatten
  whole : lines.length ≤ maxWriteOperationsSupported → (∀ r ∈ rs, 0 ≤ r.retval) →
    (rs.map gained).flatten <+: lines.flatten

omit [DecidableEq ι] in
theorem Gains.inOrder {g : LineLog ι} {i : ι} {rs : List Result} (h : Gains g i rs) :
    InOrder g.lines rs where
  pieces := ⟨_, h.pieces⟩
  sublist := h.pieces.sublist.trans (List.take_sublist _ _)
  whole hl hr := by
    rw [(h.whole (dropped_eq_zero hl) hr).1]
    exact List.take_prefix _ _

/-- **Readers get the log in order.** Every run of the driver is one of the log, of which the device shows
the last ten lines; and whatever the others write in the meantime, what an opener has got that only reads
is in the order of the log, and nothing of it twice. -/
theorem reads_in_order {as : List (ι × Act)} {s : State ι} (hr : run step (init ι) as = some s) :
    ∃ t m, Moves lineLog (.start (LineLog.init ι)) t m ∧ visible t = history step event (init ι) as ∧
      (s.tempEntryMutex = none → view s.dev = m.state.files.store) ∧
      ∀ i, s.pc i = .idle → (∀ c ∈ callsOf i (history step event (init ι) as), isRead c = true) →
        InOrder m.state.lines (returnsOf i (history step event (init ι) as)) := by
  obtain ⟨t, m, hmoves, hvisible, hrel⟩ := moves_of_simulates rel_step rel_init hr
  obtain ⟨g, hg, hlog⟩ := hmoves.lift lineLog_applies (g := LineLog.init ι) rfl
  refine ⟨t, ⟨g, m.status⟩, hlog, hvisible, fun hm => hg ▸ (hrel.free hm).2, fun i hidle hi => ?_⟩
  rw [← hvisible] at hi ⊢
  rw [callsOf_visible] at hi
  have hc := hrel.caller i
  rw [hidle] at hc
  obtain ⟨hgains, -⟩ := gains_of_moves hlog i hi
  rw [returnsOf_visible]
  simp only [hc.2, resultsOf] at hgains
  exact hgains.inOrder

/-- One opener reads while the other one writes. -/
theorem reads_in_order_twoOpeners : ∃ s, run step (init Bool) twoOpeners = some s ∧
    ∃ lines, InOrder lines [⟨0, [0]⟩, ⟨1, [newline]⟩] ∧
      (view s.dev).entries = lines.rtake maxWriteOperationsSupported := by
  obtain ⟨s, hs, hidle⟩ := run_twoOpeners
  obtain ⟨t, m, -, -, hview, hin⟩ := reads_in_order hs
  have hmutex := ((quiescent hs).2 hidle).1
  have hrs := hin true (hidle true) (by decide +kernel)
  have hret : returnsOf true (history step event (init Bool) twoOpeners) =
      [⟨0, [0]⟩, ⟨1, [newline]⟩] := by decide +kernel
  rw [hret] at hrs
  exact ⟨s, hs, m.state.lines, hrs, by rw [hview hmutex]; rfl⟩

end Aesd.Driver.Log
