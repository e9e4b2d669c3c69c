import Aesd.Server.Refinement

/-!
# End to end

`clients_refine`: in every state that a run without failures reaches, the sessions were answered as
`serve` says, in the order of the lock, and each thread's packets are lines of its stream. That the
answers are given at all is `finishes`: the holder of `log_file_mutex` always has calls left that
complete its answer and release the lock, whatever it did so far.
-/

namespace Aesd.Server.EndToEnd

open Aesd.Lib.Alloc Aesd.Lib.Blocks Aesd.Lib.Lts
open Aesd.Driver.Ring Aesd.Driver.Device Aesd.Driver.Store Aesd.Driver.Read
open Aesd.Server.Packet Aesd.Server.Framing Aesd.Server.Answer Aesd.Server.Clients
open Aesd.Server.Serving Aesd.Server.Refinement

variable {ι : Type*} [DecidableEq ι]

/-! ### The holder finishes -/

/-- The holder has a run that completes its session. -/
def Finishes (s : State ι) (cur : Session ι) : Prop :=
  ∃ as s' sent ret, (∀ a ∈ as, a.1 = cur.client ∧ Smooth a.2) ∧ run step s as = some s' ∧
    s'.holder = none ∧ s'.done = s.done ++ [({ cur with sent }, ret)]

/-- A read in which nothing fails. -/
def readEnv : ReadEnv := ⟨false, fun _ => none⟩

/-- A write in which nothing fails. -/
def writeEnv : WriteEnv := ⟨false, .ok false fun _ => 0, none, false⟩

section Good
variable {s : State ι} (h : Good s) {cur : Session ι} (hcur : s.holder = some cur)
include h

theorem Finishes.call {act : Act} {s₁ : State ι} (hs : step s (cur.client, act) = some s₁)
    (ha : Smooth act) (hdone : s₁.done = s.done) {sent : Bytes}
    (hnext : Good s₁ → Finishes s₁ { cur with sent }) : Finishes s cur := by
  obtain ⟨as, s', sent', ret, hall, hrun, hfree, hd⟩ :=
    hnext (good_step s (cur.client, act) s₁ h ha hs)
  refine ⟨(cur.client, act) :: as, s', sent', ret, fun a hm => ?_,
    run_cons_some.mpr ⟨s₁, hs, hrun⟩, hfree, by rw [hd, hdone]⟩
  rcases List.mem_cons.mp hm with rfl | hm
  · exact ⟨rfl, ha⟩
  · exact hall a hm

include hcur

theorem finishes_unlock {ret : Bool} (hpc : (s.client cur.client).pc = .unlock ret) :
    Finishes s cur := by
  refine ⟨[(cur.client, .unlock)], s.unlock cur.client ret, cur.sent, ret, ?_, ?_, rfl, ?_⟩
  · simp [Smooth]
  · simp [run, step, h.sane, hpc]
  · simp [State.unlock, hcur]

theorem finishes_fclose {ret : Bool} (hpc : (s.client cur.client).pc = .fclose ret) :
    Finishes s cur := by
  have hs : step s (cur.client, .fclose) =
      some { s.goto cur.client (.unlock ret) with log := none } := by
    simp [step, h.sane, hpc]
  exact Finishes.call h hs trivial rfl fun h₁ => finishes_unlock h₁ hcur (State.pc_goto _ _ _)

theorem finishes_seekEnd {ret : Bool} (hpc : (s.client cur.client).pc = .seekEnd ret) :
    Finishes s cur := by
  have hphase := h.phase cur hcur
  simp only [Phase, hpc] at hphase
  obtain ⟨f, hf⟩ := Option.isSome_iff_exists.mp hphase.2.1
  have hs : step s (cur.client, .fseek false) = s.seekEnd cur.client ret false := by
    simp [step, h.sane, hpc]
  simp only [State.seekEnd, State.onLog, hf] at hs
  exact Finishes.call h hs rfl rfl fun h₁ => finishes_fclose h₁ hcur (State.pc_goto _ _ _)

end Good

/-- **Reading and sending end.** The measure counts a byte not yet read three times and a byte read
ahead twice, so that each call decreases it. -/
theorem finishes_read : ∀ (w : ℕ) {s : State ι}, Good s → ∀ {cur : Session ι},
    s.holder = some cur → ∀ {ret : Bool} {f : LogFile}, s.log = some f →
      (s.client cur.client).pc = .read ret →
      3 * ((content s.dev).drop f.fpos.toNat).length + 2 * f.ahead.length +
        (if f.stopped = true then 0 else 1) ≤ w → Finishes s cur := by
  intro w
  induction w using Nat.strong_induction_on with
  | _ w ih =>
    intro s h cur hcur ret f hf hpc hw
    have hphase := h.phase cur hcur
    simp only [Phase, hpc] at hphase
    obtain ⟨hview, hret, f', pos, hf', hpos, hstop, hanswer⟩ := hphase
    obtain rfl : f = f' := Option.some.inj (hf.symm.trans hf')
    rcases hahead : f.ahead with _ | ⟨a, ahead⟩
    · by_cases hstopped : f.stopped = true
      · -- nothing is left: `fread` returns 0
        have hs : step s (cur.client, .fread 0) = some (s.goto cur.client (.seekEnd ret)) := by
          simp [step, h.sane, hpc, State.fread, State.onLog, hf, hahead, hstopped]
        exact Finishes.call h hs trivial rfl fun h₁ => finishes_seekEnd h₁ hcur (State.pc_goto _ _ _)
      · -- the driver is asked for more than it has left
        set left := (content s.dev).drop pos with hleft
        have hread := aesdRead_eq h.owned (show readEnv.semKilled = false from rfl) (fun _ => rfl) pos
          ((List.length_take_le (left.length + 1) _).trans
            (show left.length + 1 ≤ (List.replicate (left.length + 1) (0 : UInt8)).length by simp))
        have htake : left.take (left.length + 1) = left := List.take_of_length_le (by omega)
        have hover : (overlay (List.replicate (left.length + 1) 0) 0 left).take left.length =
            left := by simp [overlay]
        rw [← hleft, htake] at hread
        have hs : step s (cur.client, .fill (left.length + 1) readEnv) =
            some { s with log := some ⟨((pos + left.length : ℕ) : ℤ), left,
              decide ((left.length : ℤ) ≤ 0)⟩ } := by
          simp [step, h.sane, hpc, State.fill, State.onLog, hf, hstopped, hpos, hread, hover, hahead]
        refine Finishes.call h hs ⟨rfl, fun _ => rfl⟩ rfl fun h₁ =>
          ih _ ?_ h₁ hcur rfl hpc le_rfl
        have hend : ((content s.dev).drop (pos + left.length)).length = 0 := by
          rw [← List.drop_drop, ← hleft, List.drop_length]
          rfl
        rw [if_neg hstopped, hahead, hpos, Int.toNat_natCast, ← hleft] at hw
        simp only [Int.toNat_natCast, hend, decide_eq_true_eq]
        by_cases hnil : (left.length : ℤ) ≤ 0
        · rw [if_pos hnil]
          simp only [List.length_nil] at hw
          omega
        · rw [if_neg hnil]
          simp only [List.length_nil] at hw
          omega
    · -- what was read ahead goes through the packet buffer to the socket
      have hfits := (h.framed cur.client).fits
      set n := min f.ahead.length (s.client cur.client).buf.packetSize with hn
      have hpos' : 0 < n := by
        obtain ⟨k, -, hk⟩ := hfits.doubled
        rw [hn, hahead, hk]
        exact lt_min (by simp) (by positivity)
      set buf : PacketBuf := { (s.client cur.client).buf with
        packet := overlay (s.client cur.client).buf.packet 0 (f.ahead.take n) } with hbuf
      set s₁ : State ι := { s.put cur.client { s.client cur.client with
        buf, pc := .send ret n 0 } with log := some { f with ahead := f.ahead.drop n } } with hs₁
      have hs : step s (cur.client, .fread n) = some s₁ := by
        simp only [step, h.sane, hpc, State.fread, State.onLog, hf, Bool.false_eq_true, if_false,
          if_neg (show n ≠ 0 by omega)]
        rw [if_pos ⟨min_le_left _ _, min_le_right _ _⟩]
      have hnext : Good s₁ → Finishes s₁ cur := by
        intro h₁
        have hpc₁ : (s₁.client cur.client).pc = .send ret n 0 := by simp [hs₁]
        have hsend : step s₁ (cur.client, .send (some n)) =
            s₁.send cur.client ret n 0 (some n) := by
          simp only [step, h₁.sane, hpc₁, Bool.false_eq_true, if_false]
        have hcur₁ : s₁.holder = some cur := hcur
        simp only [State.send, Nat.zero_add, lt_irrefl, if_false, hcur₁, Option.map_some,
          if_pos (show 1 ≤ n ∧ n ≤ n by omega)] at hsend
        refine Finishes.call h₁ hsend (by simp [Smooth]) rfl fun h₂ =>
          ih _ ?_ h₂ rfl rfl (congrArg Client.pc (State.client_put _ _ _)) le_rfl
        show 3 * ((content s.dev).drop f.fpos.toNat).length + 2 * (f.ahead.drop n).length +
          (if f.stopped = true then 0 else 1) < w
        have hdrop : (f.ahead.drop n).length = f.ahead.length - n := List.length_drop
        have hnle : n ≤ f.ahead.length := min_le_left _ _
        omega
      exact Finishes.call h hs trivial rfl hnext

section Good
variable {s : State ι} (h : Good s) {cur : Session ι} (hcur : s.holder = some cur)
include h hcur

theorem finishes_send {ret : Bool} {bytesRead total : ℕ}
    (hpc : (s.client cur.client).pc = .send ret bytesRead total) : Finishes s cur := by
  have hphase := h.phase cur hcur
  simp only [Phase, hpc] at hphase
  obtain ⟨-, -, hlt, -, f, pos, hf, -⟩ := hphase
  have hsend : step s (cur.client, .send (some (bytesRead - total))) =
      s.send cur.client ret bytesRead total (some (bytesRead - total)) := by
    simp only [step, h.sane, hpc, Bool.false_eq_true, if_false]
  have hall : total + (bytesRead - total) = bytesRead := by omega
  simp only [State.send, hall, lt_irrefl, if_false, hcur, Option.map_some,
    if_pos (show 1 ≤ bytesRead - total ∧ bytesRead ≤ bytesRead by omega)] at hsend
  exact Finishes.call h hsend (by simp [Smooth]) rfl fun h₁ =>
    finishes_read _ h₁ rfl hf (congrArg Client.pc (State.client_put _ _ _)) le_rfl

theorem finishes_seekSet {offset : ℤ} (hpc : (s.client cur.client).pc = .seekSet offset) :
    Finishes s cur := by
  have hphase := h.phase cur hcur
  simp only [Phase, hpc] at hphase
  obtain ⟨hview, hlog, -, pos, rfl, hpos, -⟩ := hphase
  have hs : step s (cur.client, .fseek false) = s.seekSet cur.client pos false := by
    simp only [step, h.sane, hpc, Bool.false_eq_true, if_false]
  rw [seekSet_within h hview hlog hpos] at hs
  exact Finishes.call h hs rfl rfl fun h₁ =>
    finishes_read _ h₁ hcur rfl (State.pc_goto _ _ _) le_rfl

theorem finishes_llseek {offset : ℤ} (hpc : (s.client cur.client).pc = .llseek offset) :
    Finishes s cur := by
  have hphase := h.phase cur hcur
  simp only [Phase, hpc] at hphase
  obtain ⟨hview, hlog, -, pos, rfl, hpos, -⟩ := hphase
  obtain ⟨f, hf⟩ := Option.isSome_iff_exists.mp hlog
  have hs : step s (cur.client, .fseek false) = s.llseek cur.client pos false := by
    simp only [step, h.sane, hpc, Bool.false_eq_true, if_false]
  rw [llseek_within h hcur hview hf hpos] at hs
  exact Finishes.call h hs rfl rfl fun h₁ => finishes_seekSet h₁ hcur (State.pc_goto _ _ _)

theorem finishes_ioctl {seekto : Seekto} (hpc : (s.client cur.client).pc = .ioctl seekto) :
    Finishes s cur := by
  have hphase := h.phase cur hcur
  simp only [Phase, hpc] at hphase
  obtain ⟨hview, hlog, -⟩ := hphase
  obtain ⟨f, hf⟩ := Option.isSome_iff_exists.mp hlog
  have hs : step s (cur.client, .ioctl false false) = s.ioctl cur.client seekto false false := by
    simp only [step, h.sane, hpc, Bool.false_eq_true, if_false]
  simp only [State.ioctl, State.onLog, hf, ioctlLookup_eq h.owned hview] at hs
  rcases hpos : seekPosition (lines s) seekto with _ | pos
  · have hneg : cint (-einval) < 0 := by decide
    simp only [hpos, State.ioctlReturned, if_pos hneg] at hs
    exact Finishes.call h hs ⟨rfl, rfl⟩ rfl fun h₁ => finishes_fclose h₁ hcur (State.pc_goto _ _ _)
  · simp only [hpos] at hs
    exact Finishes.call h hs ⟨rfl, rfl⟩ rfl fun h₁ => finishes_llseek h₁ hcur (State.pc_goto _ _ _)

theorem finishes_flushed {failed : Bool} (hpc : (s.client cur.client).pc = .write [] failed) :
    Finishes s cur := by
  have hphase := h.phase cur hcur
  simp only [Phase, hpc] at hphase
  obtain ⟨-, hlog, -⟩ := hphase
  obtain ⟨f, hf⟩ := Option.isSome_iff_exists.mp hlog
  have hs : step s (cur.client, .fflush) = some (s.goto cur.client (.seekSet 0)) := by
    simp [step, h.sane, hpc, State.onLog, hf]
  exact Finishes.call h hs trivial rfl fun h₁ => finishes_seekSet h₁ hcur (State.pc_goto _ _ _)

theorem finishes_write {left : Bytes} {failed : Bool}
    (hpc : (s.client cur.client).pc = .write left failed) : Finishes s cur := by
  by_cases hleft : left = []
  · exact finishes_flushed h hcur (hleft ▸ hpc)
  have hphase := h.phase cur hcur
  simp only [Phase, hpc, if_neg hleft] at hphase
  obtain ⟨⟨w, hw, hview⟩, hlog, -⟩ := hphase
  obtain ⟨f, hf⟩ := Option.isSome_iff_exists.mp hlog
  have henv : Granted writeEnv := ⟨rfl, rfl, rfl, rfl⟩
  obtain ⟨d', hwrite, -⟩ := aesdWrite_piece h.owned hview
    (show w ++ (left ++ []) = cur.packet by rw [List.append_nil, hw]) (h.packet hcur).1 hleft henv
  have hs : step s (cur.client, .write left.length writeEnv) =
      s.write cur.client left left.length writeEnv := by
    simp only [step, h.sane, hpc, Bool.false_eq_true, if_false]
  have hpos : 1 ≤ left.length ∧ left.length ≤ left.length :=
    ⟨List.length_pos_iff.mpr hleft, le_rfl⟩
  simp only [State.write, State.onLog, hf, if_pos hpos, List.take_length, hwrite,
    Int.toNat_natCast, List.drop_length] at hs
  exact Finishes.call h hs henv rfl fun h₁ => finishes_flushed h₁ hcur (State.pc_goto _ _ _)

theorem finishes_fopen {verdict : Option Seekto}
    (hpc : (s.client cur.client).pc = .fopen verdict) : Finishes s cur := by
  have hs : step s (cur.client, .fopen true) = some (s.fopen cur.client verdict true) := by
    simp only [step, h.sane, hpc, Bool.false_eq_true, if_false]
  rcases verdict with _ | seekto
  · exact Finishes.call h hs rfl rfl fun h₁ => finishes_write h₁ hcur (State.pc_goto _ _ _)
  · exact Finishes.call h hs rfl rfl fun h₁ => finishes_ioctl h₁ hcur (State.pc_goto _ _ _)

/-- **The holder can always complete its answer** and release the lock. -/
theorem finishes : Finishes s cur := by
  have hphase := h.phase cur hcur
  cases hpc : (s.client cur.client).pc <;> simp only [Phase, hpc] at hphase
  case fopen => exact finishes_fopen h hcur hpc
  case write => exact finishes_write h hcur hpc
  case ioctl => exact finishes_ioctl h hcur hpc
  case llseek => exact finishes_llseek h hcur hpc
  case seekSet => exact finishes_seekSet h hcur hpc
  case read =>
    obtain ⟨-, -, f, pos, hf, -⟩ := hphase
    exact finishes_read _ h hcur hf hpc le_rfl
  case send => exact finishes_send h hcur hpc
  case seekEnd => exact finishes_seekEnd h hcur hpc
  case fclose => exact finishes_fclose h hcur hpc
  case unlock => exact finishes_unlock h hcur hpc

end Good

/-! ### What the clients see -/

/-- What the clients see of a state: sessions that are over have the answers of `serve`, a refused one
sent nothing and ended its connection; the one under way has sent a beginning of its answer and can
complete it; a thread's packets are lines of its stream, in order, and all of them once it waits for
more or has ended without a refusal. -/
structure Refines (s : State ι) : Prop where
  sane : s.fault = false
  answers : s.done.map outcome = (serve [] (s.done.map fun e => request e.1)).2
  refused : ∀ e ∈ s.done, e.2 = false → e.1.sent = [] ∧
    ((s.client e.1.client).pc = .returned false ∨ (s.client e.1.client).pc = .ended)
  store : s.holder = none →
    view s.dev = ⟨(serve [] (s.done.map fun e => request e.1)).1, []⟩
  underway : ∀ cur, s.holder = some cur → Finishes s cur ∧
    cur.sent <+: (answer (serve [] (s.done.map fun e => request e.1)).1 (request cur)).2.getD []
  outbox : ∀ i, (s.client i).outbox = sentTo s i
  order : ∀ i, packetsOf s i <+: blocks isNewline (s.client i).received
  complete : ∀ i, (s.client i).pc = .recv ∨ (s.client i).pc = .ended →
    (∀ p ∈ blocks isNewline (s.client i).received ++ [rest isNewline (s.client i).received],
      p.length ≤ maxPacketSize) →
    Refused s i ∨ packetsOf s i = blocks isNewline (s.client i).received

omit [DecidableEq ι] in
theorem sent_prefix_answer {L : List Bytes} {cur : Session ι} {d : AesdDev} {log : Option LogFile}
    {c : Client} (h : Phase L cur d log c) :
    cur.sent <+: (answer L (request cur)).2.getD [] := by
  have hstreams : ∀ block, Streams (answer L (request cur)) cur.sent block log →
      cur.sent <+: (answer L (request cur)).2.getD [] := by
    rintro block ⟨f, pos, -, -, -, hanswer⟩
    rw [hanswer]
    exact List.prefix_append _ _
  have hsettled : ∀ ret, Settled (answer L (request cur)) cur.sent ret →
      cur.sent <+: (answer L (request cur)).2.getD [] := by
    rintro ret ⟨hanswer, hsilent⟩
    cases ret with
    | true => rw [hanswer, if_pos rfl]; rfl
    | false => rw [hsilent rfl]; exact List.nil_prefix
  unfold Phase at h
  cases hpc : c.pc <;> simp only [hpc] at h
  case fopen => rw [h.2.2.2]; exact List.nil_prefix
  case write => rw [h.2.2.2.2]; exact List.nil_prefix
  case ioctl => rw [h.2.2.2]; exact List.nil_prefix
  case llseek => rw [h.2.2.1]; exact List.nil_prefix
  case seekSet => rw [h.2.2.1]; exact List.nil_prefix
  case read => exact hstreams _ h.2.2
  case send => exact hstreams _ h.2.2.2.2
  case seekEnd => rw [h.2.2.2]; rfl
  case fclose => exact hsettled _ h.2
  case unlock => exact hsettled _ h.2.2

section Good
variable {s : State ι} (h : Good s)
include h

theorem packetsOf_prefix (i : ι) : packetsOf s i <+: blocks isNewline (s.client i).received := by
  obtain ⟨-, l, hrec, -, hplace⟩ := h.framed i
  rw [hrec]
  refine List.IsPrefix.trans ?_ (blocks_mono isNewline l (s.client i).todo)
  unfold Place at hplace
  cases hpc : (s.client i).pc <;> simp only [hpc] at hplace
  case recv => rw [hplace.2.2]
  case bytes => rw [hplace.2]
  case lock => exact ⟨_, hplace.2⟩
  case returned => rw [hplace.2.1]
  case ended => rw [hplace.1]
  all_goals rw [hplace.2]

theorem packetsOf_complete {i : ι} (hpc : (s.client i).pc = .recv ∨ (s.client i).pc = .ended)
    (hshort : ∀ p ∈ blocks isNewline (s.client i).received ++
      [rest isNewline (s.client i).received], p.length ≤ maxPacketSize) :
    Refused s i ∨ packetsOf s i = blocks isNewline (s.client i).received := by
  obtain ⟨-, l, hrec, -, hplace⟩ := h.framed i
  unfold Place at hplace
  rcases hpc with hpc | hpc <;> simp only [hpc] at hplace
  · right
    rw [hplace.2.2, hrec, hplace.1, List.append_nil]
  · obtain ⟨hps, htodo | hrefused | ⟨hne, hlimit⟩⟩ := hplace
    · right
      rw [hps, hrec, htodo, List.append_nil]
    · exact Or.inl hrefused
    · obtain ⟨a, todo, htodo⟩ := List.exists_cons_of_ne_nil hne
      obtain ⟨p, hp, hlong⟩ := exists_long_of_full isNewline l a todo hlimit
      rw [hrec, htodo] at hshort
      exact absurd (hshort p hp) (not_le.mpr hlong)

end Good

/-- **End to end.** Whatever the clients send, however it arrives, and however the threads are
interleaved. -/
theorem clients_refine {s₀ s : State ι} (h₀ : Init s₀) {as : List (ι × Act)}
    (ha : ∀ a ∈ as, Smooth a.2) (hr : run step s₀ as = some s) : Refines s := by
  have h : Good s :=
    Meets.invariant (fun s a s' hs ha hstep => good_step s a s' hs ha hstep) (good_init h₀)
      (Meets.of_forall ha) hr
  exact
    { sane := h.sane
      answers := h.answered
      refused := fun e he hfalse => ⟨h.silent e he hfalse, h.ends _ ⟨e, he, rfl, hfalse⟩⟩
      store := fun hnone => (h.free hnone).1
      underway := fun cur hcur => ⟨finishes h hcur, sent_prefix_answer (h.phase cur hcur)⟩
      outbox := h.outbox
      order := packetsOf_prefix h
      complete := fun i hpc hshort => packetsOf_complete h hpc hshort }

/-- A server about to receive, with zeroed packet buffers. -/
def start : State (Fin 2) :=
  ⟨initModule, none, none, fun _ => Client.init fun _ => 0, [], false⟩

theorem init_start : Init start := ⟨rfl, rfl, rfl, fun _ => ⟨fun _ => 0, rfl⟩, rfl, rfl⟩

/-- A thread takes the line `"a\n"` and the lock. -/
theorem run_start_line :
    ∃ as s, (∀ a ∈ as, Smooth a.2) ∧ run step start as = some s ∧ s.done = [] ∧
      s.holder = some ⟨0, [97, newline], none, []⟩ ∧ (s.client 0).pc = .fopen none := by
  set o : Outcome UInt8 := .ok false fun _ => 0 with ho
  obtain ⟨b₁, b₂, hcap, hstore, htook⟩ :=
    (assembles_init fun _ => 0).takes_byte (show o.isOk = true from rfl) (by decide) 97
  have hasm := htook.continues (by decide) (by simp)
  obtain ⟨b₃, b₄, hcap', hstore', htook'⟩ :=
    hasm.takes_byte (show o.isOk = true from rfl) (by rw [htook.index]; decide) newline
  have hpacket : b₄.handed.1 = [97, newline] := htook'.pending
  have hrun : run step start [(0, .recv (some [97, newline])), (0, .byte o none),
      (0, .byte o none), (0, .lock)] =
        some ⟨initModule, some ⟨0, [97, newline], none, []⟩, none,
          Function.update start.client 0 ⟨b₄, [], .fopen none, [], [97, newline]⟩, [], false⟩ := by
    have hsize : 2 ≤ socketBufferSize := by decide
    have hne : (97 : UInt8) ≠ newline := by decide
    simp [run, step, start, State.recv, State.byte, State.lock, State.goto, State.put, Client.init,
      u16, hsize, hne, hcap, hstore, hcap', hstore', hpacket]
  exact ⟨_, _, by simp [Smooth, ho, Outcome.isOk], hrun, rfl, rfl, by simp⟩

/-- Two clients: a line of the first, one of the second that arrives in two pieces meanwhile, and a seek of
the first one to the second byte of that line. -/
def twoClients : List (Fin 2 × Act) :=
  let byte (i : Fin 2) : Fin 2 × Act := (i, .byte (.ok false fun _ => 0) none)
  [(0, .recv (some [97, newline])), byte 0, (1, .recv (some [98])), byte 0, (0, .lock), byte 1,
    (0, .fopen true), (1, .chunkEnd true), (0, .write 1 writeEnv), (1, .recv (some [99, newline])),
    (0, .write 1 writeEnv), byte 1, byte 1, (0, .fflush), (0, .fseek false), (0, .fill 4 readEnv),
    (0, .fread 2), (0, .send (some 1)), (0, .send (some 1)), (0, .fill 1 readEnv), (0, .fread 0),
    (0, .fseek false), (0, .fclose), (0, .unlock), (1, .lock), (0, .back), (1, .fopen true),
    (0, .chunkEnd true), (1, .write 3 writeEnv), (0, .recv (some [115, newline])), (1, .fflush),
    byte 0, (1, .fseek false), (0, .byte (.ok false fun _ => 0) (some ⟨1, 1⟩)), (1, .fill 8 readEnv),
    (1, .fread 5), (1, .send (some 5)), (1, .fill 1 readEnv), (1, .fread 0), (1, .fseek false),
    (1, .fclose), (1, .unlock), (0, .lock), (0, .fopen true), (1, .back), (0, .ioctl false false),
    (0, .fseek false), (0, .fseek false), (0, .fill 4 readEnv), (0, .fread 2), (0, .send (some 2)),
    (0, .fill 1 readEnv), (0, .fread 0), (0, .fseek false), (0, .fclose), (0, .unlock)]

theorem clients_refine_two :
    ∃ s, run step start twoClients = some s ∧
      s.done.map outcome = [some [97, newline], some [97, newline, 98, 99, newline], some [99, newline]] ∧
      (s.client 0).outbox = [97, newline, 99, newline] ∧ s.holder = none ∧ Refines s := by
  have hall : ∀ a ∈ twoClients, Smooth a.2 := by
    have hwrite : Granted writeEnv := ⟨rfl, rfl, rfl, rfl⟩
    simp [twoClients, Smooth, Outcome.isOk, readEnv, hwrite]
  have hrun : (run step start twoClients).map
      (fun s => (s.done.map outcome, (s.client 0).outbox, s.holder.isNone)) =
        some ([some [97, newline], some [97, newline, 98, 99, newline], some [99, newline]],
          [97, newline, 99, newline], true) := by decide +kernel
  obtain ⟨s, hr, he⟩ := Option.map_eq_some_iff.mp hrun
  simp only [Prod.mk.injEq] at he
  exact ⟨s, hr, he.1, he.2.1, Option.isNone_iff_eq_none.mp he.2.2, clients_refine init_start hall hr⟩

end Aesd.Server.EndToEnd
