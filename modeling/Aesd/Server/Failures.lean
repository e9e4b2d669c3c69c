import Aesd.Driver.Conservation
import Aesd.Server.EndToEnd

/-!
# The client threads when calls fail

The runs of the client threads in which almost any call may fail: `recv`, `realloc`, the copies and the
taking of `temp_entry_mutex` in the driver, `ioctl`, `fseek`, `fread`, `send`. What the device has then
accepted of a packet is a beginning of it, and the next packet comes after that: the device stores the
last ten lines of the bytes it accepted (`lastLines`), in the order of the lock. What a client is sent is
some of the log, in order, and a stretch of it without a gap if `process_packet` succeeds.

`Held` is the invariant: the part of it on the threads (`Threads`) is kept by every step outside the
mutex, and `Phase` says what the holder is doing.
-/

namespace Aesd.Server.Failures

open Aesd.Lib.Alloc Aesd.Lib.Blocks Aesd.Lib.Circular Aesd.Lib.Lts
open Aesd.Driver.Ring Aesd.Driver.Device Aesd.Driver.Store Aesd.Driver.Write Aesd.Driver.Read
open Aesd.Driver.Conservation
open Aesd.Server.Packet Aesd.Server.Framing Aesd.Server.Answer Aesd.Server.Clients
open Aesd.Server.Serving

/-! ### What is stored -/

/-- The store of a device that accepted the bytes `S`. -/
def lastLines (S : Bytes) : LineStore :=
  ⟨(blocks isNewline S).rtake maxWriteOperationsSupported, rest isNewline S⟩

/-- A write whose only newline is its last byte. -/
theorem lastLines_accept (S : Bytes) {piece : Bytes} (h : ∀ a ∈ piece.dropLast, isNewline a = false) :
    (lastLines S).accept piece = lastLines (S ++ piece) := by
  rcases List.eq_nil_or_concat' piece with rfl | ⟨c, a, rfl⟩
  · simp [lastLines, LineStore.accept]
  rw [List.dropLast_concat] at h
  obtain ⟨hblocks, hrest⟩ := cut_append_neg S h
  have hassoc : S ++ (c ++ [a]) = S ++ c ++ [a] := by rw [List.append_assoc]
  unfold lastLines LineStore.accept
  rw [List.getLast?_concat, hassoc]
  by_cases ha : a = newline
  · have hpos : isNewline a = true := by simp [ha]
    rw [if_pos (congrArg some ha), blocks_concat_pos hpos, rest_concat_pos hpos, hblocks, hrest,
      rtake_concat, List.append_assoc]
  · have hneg : isNewline a = false := by simp [ha]
    rw [if_neg (by simpa using ha), blocks_concat_neg hneg, rest_concat_neg hneg, hblocks, hrest]
    simp

/-- What a write returns is the number of its bytes, or nothing was accepted. -/
theorem write_fst (s : LineStore) (buf : Bytes) (env : WriteEnv) :
    (s.write buf env).1 = buf.length ∨ (s.write buf env).1 ≤ 0 := by
  unfold LineStore.write
  split_ifs with h
  · exact .inr le_rfl
  all_goals simp [eintr, enomem, efault]

/-- A piece of a packet has no newline before its end. -/
theorem dropLast_piece {p w piece left : Bytes} (hline : IsLine p) (hp : w ++ (piece ++ left) = p) :
    ∀ a ∈ piece.dropLast, isNewline a = false := by
  obtain ⟨c, rfl, hc⟩ := hline
  rcases List.eq_nil_or_concat' piece with rfl | ⟨q, x, rfl⟩
  · simp
  intro a ha
  rw [List.dropLast_concat] at ha
  have hinit := congrArg List.dropLast hp
  rw [List.dropLast_concat, List.append_assoc q, List.dropLast_append_of_ne_nil (by simp),
    List.dropLast_append_of_ne_nil (by simp)] at hinit
  have hmem : a ∈ c := by
    rw [← hinit]
    simp [ha]
  simpa using ne_of_mem_of_not_mem hmem hc

/-! ### What is read -/

section Owned
variable {d : AesdDev} (h : Owned d)
include h

/-- A read returns an error, or as many bytes of the content from the position on as it says. -/
theorem aesdRead_sound (env : ReadEnv) {count : ℕ} (fpos : ℕ) {ubuf : Bytes}
    (hu : count ≤ ubuf.length) :
    ∃ r pos' u, aesdRead d env count fpos ubuf = some (r, pos', u) ∧
      (r < 0 ∨ r = (u.take r.toNat).length ∧ pos' = fpos + r.toNat ∧
        u.take r.toNat <+: (content d).drop fpos) := by
  unfold aesdRead
  by_cases hsem : env.semKilled = true
  · rw [if_pos hsem]
    exact ⟨_, _, _, rfl, .inl (by decide)⟩
  rw [if_neg hsem]
  by_cases hfault : ∃ i < linesTouched d fpos count, env.copy i ≠ none
  · obtain ⟨pos', u, hloop, -⟩ :=
      @readLoop_fault d h env 0 count 0 fpos ubuf (by simpa using hfault)
    exact ⟨_, pos', u, hloop, .inl (by decide)⟩
  · have hall : ∀ j < linesTouched d fpos count, env.copy (0 + j) = none := by
      intro j hj
      rw [Nat.zero_add]
      exact not_not.mp fun hn => hfault ⟨j, hj, hn⟩
    obtain ⟨u, hloop, hroom⟩ := @readLoop_ok d h env 0 count 0 fpos ubuf hall
    have hlen : (((content d).drop fpos).take count).length ≤ ubuf.length :=
      (List.length_take_le _ _).trans hu
    rw [Nat.zero_add] at hloop hroom
    have htake : (overlay ubuf 0 (((content d).drop fpos).take count)).take
        (((content d).drop fpos).take count).length = ((content d).drop fpos).take count := by
      simp [overlay]
    refine ⟨_, _, u, hloop, .inr ?_⟩
    rw [hroom hlen, Int.toNat_natCast, htake]
    exact ⟨rfl, rfl, List.take_prefix _ _⟩

end Owned

/-- A position set by `fseek(..., SEEK_SET)` is the one asked for. -/
theorem aesdLlseek_sound {buffer : CircularBuffer} {semKilled : Bool} {fpos offset : ℤ}
    (h : ¬ (aesdLlseek buffer semKilled fpos offset Aesd.Driver.Device.seekSet).1 < 0) :
    (aesdLlseek buffer semKilled fpos offset Aesd.Driver.Device.seekSet).2 = offset.toNat := by
  have hneg : -eintr < 0 ∧ -erange < 0 := by decide
  unfold aesdLlseek seekTo at *
  by_cases hsem : semKilled = true
  · rw [if_pos hsem] at h
    exact absurd hneg.1 h
  simp only [if_neg hsem, if_true] at h ⊢
  by_cases hout : offset < 0 ∨ buffer.findEOFOffset < offset.toNat
  · rw [if_pos hout] at h
    exact absurd hneg.2 h
  · rw [if_neg hout]
    omega

/-! ### The sessions -/

variable {ι : Type*}

/-- What a client was sent of the content `C` in the session `e`. -/
structure Answered (C : Bytes) (e : Session ι) (ret : Bool) : Prop where
  sublist : e.sent.Sublist C
  stretch : ret = true → e.sent <:+: C
  start : ret = true → e.verdict = none → e.sent <+: C

/-- The device accepted the bytes `w` of the packet of `e`. -/
structure Accepted (e : Session ι) (w : Bytes) : Prop where
  beginning : w <+: e.packet
  seek : e.verdict ≠ none → w = []

/-- The sessions that are over, and the bytes the device accepted in them. -/
inductive History : List (Session ι × Bool) → Bytes → Prop
  | nil : History [] []
  | snoc {done : List (Session ι × Bool)} {S w : Bytes} {e : Session ι} {ret : Bool}
      (h : History done S) (hw : Accepted e w)
      (ha : Answered (lastLines (S ++ w)).entries.flatten e ret) :
      History (done ++ [(e, ret)]) (S ++ w)

theorem Answered.of_false {C : Bytes} {e : Session ι} {ret ret' : Bool} (h : Answered C e ret)
    (hret : ret' = true → ret = true) : Answered C e ret' :=
  ⟨h.sublist, fun hr => h.stretch (hret hr), fun hr => h.start (hret hr)⟩

theorem answered_nil (C : Bytes) {e : Session ι} (h : e.sent = []) (ret : Bool) :
    Answered C e ret := by
  constructor <;> simp [h]

/-- The bytes sent come from before `q`, and `block`, what the stream read ahead and what it will still
read come after it. -/
def Streams (C : Bytes) (e : Session ι) (block : Bytes) (ret : Bool) (log : Option LogFile) : Prop :=
  ∃ (f : LogFile) (start q : ℕ), log = some f ∧ start ≤ q ∧ (e.verdict = none → start = 0) ∧
    e.sent.Sublist ((C.take q).drop start) ∧ (ret = true → e.sent = (C.take q).drop start) ∧
    block ++ f.ahead <+: C.drop q ∧
    (f.stopped = false → f.fpos = (q + (block ++ f.ahead).length : ℕ))

theorem stretch_add (C : Bytes) {start q : ℕ} (h : start ≤ q) (k : ℕ) :
    (C.take (q + k)).drop start = (C.take q).drop start ++ (C.drop q).take k := by
  rw [List.take_add, List.drop_append, List.length_take]
  rcases le_total q C.length with hle | hle
  · rw [min_eq_left hle, Nat.sub_eq_zero_of_le h, List.drop_zero]
  · rw [List.drop_eq_nil_of_le hle]
    simp

theorem Streams.answered {C : Bytes} {e : Session ι} {block : Bytes} {ret : Bool}
    {log : Option LogFile} (h : Streams C e block ret log) : Answered C e ret := by
  obtain ⟨f, start, q, -, -, hstart, hsub, hret, -⟩ := h
  refine ⟨hsub.trans ((List.drop_sublist _ _).trans (List.take_sublist _ _)), fun hr => ?_,
    fun hr hv => ?_⟩
  · rw [hret hr]
    exact (List.drop_suffix _ _).isInfix.trans (List.take_prefix _ _).isInfix
  · rw [hret hr, hstart hv, List.drop_zero]
    exact List.take_prefix _ _

theorem prefix_append {l a b : Bytes} (ha : a <+: l) (hb : b <+: l.drop a.length) : a ++ b <+: l := by
  obtain ⟨m, rfl⟩ := ha
  rw [List.drop_left] at hb
  exact (List.prefix_append_right_inj a).mpr hb

namespace Streams

variable {C block : Bytes} {e : Session ι} {ret : Bool} {log : Option LogFile} {f : LogFile}

/-- The stream is at `start`, and nothing is read. -/
theorem of_seek {start : ℕ} (hsent : e.sent = []) (hstart : e.verdict = none → start = 0) :
    Streams C e [] true (some ⟨start, [], false⟩) := by
  have hnone : (C.take start).drop start = [] :=
    List.drop_eq_nil_of_le (List.length_take_le _ _)
  refine ⟨_, start, start, rfl, le_rfl, hstart, by simp [hsent], fun _ => ?_, List.nil_prefix, ?_⟩
  · rw [hsent, hnone]
  · simp

/-- The driver gave the stream some bytes, or none. -/
theorem fill (h : Streams C e [] ret (some f)) (hstop : f.stopped = false) {r : ℤ} {pos' : ℕ}
    {u : Bytes} (hr : r < 0 ∨ r = (u.take r.toNat).length ∧ pos' = f.fpos.toNat + r.toNat ∧
      u.take r.toNat <+: C.drop f.fpos.toNat) :
    Streams C e [] ret (some ⟨pos', f.ahead ++ u.take r.toNat, decide (r ≤ 0)⟩) := by
  obtain ⟨f', start, q, hf, hle, hstart, hsub, hret, hahead, hpos⟩ := h
  cases hf
  rw [List.nil_append] at hahead hpos
  have hpos' := hpos hstop
  refine ⟨_, start, q, rfl, hle, hstart, hsub, hret, ?_, fun hgo => ?_⟩
  · rw [List.nil_append]
    rcases hr with hr | ⟨-, -, hu⟩
    · rw [Int.toNat_of_nonpos hr.le, List.take_zero, List.append_nil]
      exact hahead
    · refine prefix_append hahead ?_
      rw [hpos', Int.toNat_natCast] at hu
      rwa [List.drop_drop]
  · have hr0 : 0 < r := by simpa using hgo
    obtain ⟨hlen, hp, -⟩ := hr.resolve_left (by omega)
    simp only [List.nil_append, List.length_append] at hpos' ⊢
    omega

theorem fread (h : Streams C e [] ret (some f)) (n : ℕ) :
    Streams C e (f.ahead.take n) ret (some { f with ahead := f.ahead.drop n }) := by
  obtain ⟨f', start, q, hf, hle, hstart, hsub, hret, hahead, hpos⟩ := h
  cases hf
  refine ⟨_, start, q, rfl, hle, hstart, hsub, hret, ?_, ?_⟩
  · rwa [List.take_append_drop]
  · rwa [List.take_append_drop]

theorem send {b₁ b₂ : Bytes} (h : Streams C e (b₁ ++ b₂) ret log) :
    Streams C { e with sent := e.sent ++ b₁ } b₂ ret log := by
  obtain ⟨f, start, q, rfl, hle, hstart, hsub, hret, hahead, hpos⟩ := h
  rw [List.append_assoc] at hahead hpos
  have hfirst : b₁ = (C.drop q).take b₁.length :=
    List.prefix_iff_eq_take.mp ((List.prefix_append _ _).trans hahead)
  have hstretch := stretch_add C hle b₁.length
  rw [← hfirst] at hstretch
  refine ⟨f, start, q + b₁.length, rfl, by omega, hstart, ?_, fun hr => ?_, ?_, fun hs => ?_⟩
  · rw [hstretch]
    exact hsub.append (List.Sublist.refl b₁)
  · rw [hstretch, ← hret hr]
  · obtain ⟨m, hm⟩ := hahead
    rw [← List.drop_drop, ← hm, List.append_assoc, List.drop_left]
    exact List.prefix_append _ _
  · rw [hpos hs, List.length_append, Nat.add_assoc]

theorem lose (h : Streams C e block ret log) : Streams C e [] false log := by
  obtain ⟨f, start, q, rfl, hle, hstart, hsub, -, hahead, hpos⟩ := h
  refine ⟨f, start, q + block.length, rfl, by omega, hstart, ?_, nofun, ?_, fun hs => ?_⟩
  · rw [stretch_add C hle]
    exact hsub.trans (List.sublist_append_left _ _)
  · obtain ⟨m, hm⟩ := hahead
    rw [← List.drop_drop, ← hm, List.append_assoc, List.drop_left]
    exact List.prefix_append _ _
  · rw [hpos hs, List.length_append, Nat.add_assoc]
    rfl

end Streams

/-! ### The invariant -/

variable [DecidableEq ι]

/-- Which calls may fail: all but `fopen`, the allocations of `aesd_write`, and its wait for
`circular_buffer_semaphore`. -/
def Tolerated : Act → Prop
  | .fopen ok => ok = true
  | .write _ env => NoLoss env
  | _ => True

/-- What the holder is doing, when `w` was accepted of its packet and the content is `C`. -/
def Stage (w C : Bytes) (cur : Session ι) (log : Option LogFile) (c : Client) : Prop :=
  match c.pc with
  | .fopen verdict => w = [] ∧ verdict = cur.verdict ∧ c.buf.handed.1 = cur.packet ∧ cur.sent = []
  | .write left _ => w ++ left = cur.packet ∧ log.isSome = true ∧ cur.verdict = none ∧ cur.sent = []
  | .ioctl _ | .llseek _ => log.isSome = true ∧ cur.verdict ≠ none ∧ cur.sent = []
  | .seekSet pos => log.isSome = true ∧ (cur.verdict = none → pos = 0) ∧ cur.sent = []
  | .read ret => Streams C cur [] ret log
  | .send ret bytesRead total => total < bytesRead ∧ bytesRead ≤ c.buf.packet.length ∧
      Streams C cur ((c.buf.packet.take bytesRead).drop total) ret log
  | .seekEnd ret => log.isSome = true ∧ Answered C cur ret
  | .fclose ret => Answered C cur ret
  | .unlock ret => log = none ∧ Answered C cur ret
  | _ => False

/-- **The phase of the holder**, when the sessions before had `S` accepted. -/
def Phase (S : Bytes) (cur : Session ι) (d : AesdDev) (log : Option LogFile) (c : Client) : Prop :=
  ∃ w, view d = lastLines (S ++ w) ∧ Accepted cur w ∧ Stage w (content d) cur log c

/-- **The invariant.** -/
structure Held (S : Bytes) (s : State ι) : Prop where
  owned : Owned s.dev
  sane : s.fault = false
  history : History s.done S
  framed : ∀ i, Framed (s.client i) (packetsOf s i) True
  outbox : ∀ i, (s.client i).outbox = sentTo s i
  exclusive : ∀ i, critical (s.client i).pc = true → ∃ cur, s.holder = some cur ∧ cur.client = i
  free : s.holder = none → view s.dev = lastLines S ∧ s.log = none
  phase : ∀ cur, s.holder = some cur → Phase S cur s.dev s.log (s.client cur.client)

omit [DecidableEq ι] in
theorem Phase.critical {S : Bytes} {cur : Session ι} {d : AesdDev} {log : Option LogFile} {c : Client}
    (h : Phase S cur d log c) : critical c.pc = true := by
  obtain ⟨w, -, -, h⟩ := h
  unfold Stage at h
  unfold Serving.critical
  cases hpc : c.pc <;> simp_all

theorem held_init {s : State ι} (h : Init s) : Held [] s := by
  have hdone := h.done
  have hholder := h.holder
  refine ⟨?_, h.fault, by rw [hdone]; exact .nil, fun i => ?_, fun i => ?_, fun i hi => ?_,
    fun _ => ?_, by simp [hholder]⟩
  · rw [h.dev]
    exact inv_initModule
  · obtain ⟨fill, hc⟩ := h.client i
    have hps : packetsOf s i = [] := by simp [packetsOf, sessions, hdone, hholder]
    rw [hc, hps]
    refine ⟨fits_init fill, [], rfl, by simp, ?_⟩
    simp [Place, Client.init, PacketBuf.init, PacketBuf.handed]
  · obtain ⟨fill, hc⟩ := h.client i
    rw [hc]
    simp [Client.init, sentTo, sessions, hdone, hholder]
  · obtain ⟨fill, hc⟩ := h.client i
    rw [hc] at hi
    cases hi
  · rw [h.dev, h.log]
    exact ⟨view_initModule, rfl⟩

section Held
variable {S : Bytes} {s : State ι} (h : Held S s)
include h

theorem Held.holder_of_critical {cur : Session ι} (hcur : s.holder = some cur) {j : ι}
    (hj : critical (s.client j).pc = true) : j = cur.client := by
  obtain ⟨e, he, hec⟩ := h.exclusive j hj
  rw [hcur, Option.some.injEq] at he
  exact (he ▸ hec).symm

theorem Held.packet {cur : Session ι} (hcur : s.holder = some cur) : IsLine cur.packet := by
  obtain ⟨l, -, -, hplace⟩ := (h.framed cur.client).place
  rw [place_critical (h.phase cur hcur).critical] at hplace
  have hmem : cur.packet ∈ blocks isNewline l := by
    rw [← hplace.2]
    unfold packetsOf sessions
    simp [hcur]
  obtain ⟨c, a, heq, ha, hc⟩ := (blocks_shape isNewline l).1 _ hmem
  simp only [isNewline, beq_iff_eq] at ha
  refine ⟨c, by rw [heq, ha], fun hm => ?_⟩
  simpa using hc newline hm

/-! ### Frames -/

theorem Held.outside {i : ι} {c : Client} (hpc : critical (s.client i).pc = false)
    (hpc' : critical c.pc = false) (hout : c.outbox = (s.client i).outbox)
    (hframed : Framed c (packetsOf s i) True) : Held S (s.put i c) := by
  have hself : (s.put i c).client i = c := Function.update_self _ _ _
  have hother : ∀ j, j ≠ i → (s.put i c).client j = s.client j :=
    fun j hj => Function.update_of_ne hj _ _
  refine ⟨h.owned, h.sane, h.history, fun j => ?_, fun j => ?_, fun j hj => ?_, h.free,
    fun cur hcur => ?_⟩
  · by_cases hji : j = i
    · subst hji
      rw [hself]
      exact hframed
    · rw [hother j hji]
      exact h.framed j
  · by_cases hji : j = i
    · subst hji
      rw [hself, hout]
      exact h.outbox j
    · rw [hother j hji]
      exact h.outbox j
  · by_cases hji : j = i
    · subst hji
      rw [hself, hpc'] at hj
      cases hj
    · rw [hother j hji] at hj
      exact h.exclusive j hj
  · have hphase := h.phase cur hcur
    have hne : cur.client ≠ i := by
      rintro rfl
      rw [hphase.critical] at hpc
      cases hpc
    rw [hother _ hne]
    exact hphase

/-- **A step inside the mutex**: the holder goes on, having sent `delta`. -/
theorem Held.inside {cur cur' : Session ι} (hcur : s.holder = some cur) (delta : Bytes)
    {s' : State ι} {c : Client} (hclient : s'.client = Function.update s.client cur.client c)
    (hdone : s'.done = s.done) (hfault : s'.fault = false) (hholder : s'.holder = some cur')
    (hsession : cur' = { cur with sent := cur.sent ++ delta })
    (hstream : c.todo = (s.client cur.client).todo ∧ c.received = (s.client cur.client).received)
    (hout : c.outbox = (s.client cur.client).outbox ++ delta) (hfits : Fits c.buf)
    (howned : Owned s'.dev) (hphase : Phase S cur' s'.dev s'.log c) : Held S s' := by
  have hself : s'.client cur.client = c := by rw [hclient, Function.update_self]
  have hother : ∀ j, j ≠ cur.client → s'.client j = s.client j :=
    fun j hj => by rw [hclient, Function.update_of_ne hj]
  have hpackets : ∀ j, packetsOf s' j = packetsOf s j := by
    intro j
    unfold packetsOf sessions
    rw [hdone, hholder, hcur, hsession]
    by_cases hj : cur.client = j <;> simp [hj]
  have hsent : ∀ j, sentTo s' j = sentTo s j ++ if j = cur.client then delta else [] := by
    intro j
    unfold sentTo sessions
    rw [hdone, hholder, hcur, hsession]
    by_cases hj : cur.client = j
    · simp [hj]
    · simp [hj, Ne.symm hj]
  refine ⟨howned, hfault, hdone ▸ h.history, fun j => ?_, fun j => ?_, fun j hj => ?_,
    fun hnone => absurd (hholder ▸ hnone) (by simp), fun e he => ?_⟩
  · rw [hpackets]
    by_cases hj : j = cur.client
    · subst hj
      obtain ⟨l, hrec, hshort, hplace⟩ := (h.framed cur.client).place
      rw [place_critical (h.phase cur hcur).critical] at hplace
      rw [hself]
      refine ⟨hfits, l, by rw [hstream.1, hstream.2, hrec], hshort, ?_⟩
      rw [place_critical hphase.critical]
      exact hplace
    · rw [hother j hj]
      exact h.framed j
  · rw [hsent]
    by_cases hj : j = cur.client
    · subst hj
      rw [hself, hout, h.outbox, if_pos rfl]
    · rw [hother j hj, h.outbox, if_neg hj, List.append_nil]
  · by_cases hjc : j = cur.client
    · exact ⟨cur', hholder, by rw [hsession, hjc]⟩
    · rw [hother j hjc] at hj
      exact absurd (h.holder_of_critical hcur hj) hjc
  · rw [hholder, Option.some.injEq] at he
    have hec : e.client = cur.client := by rw [← he, hsession]
    rw [hec, hself, ← he]
    exact hphase

/-- The holder goes on at `pc`, having sent nothing. -/
theorem Held.move {cur : Session ι} (hcur : s.holder = some cur) (pc : Pc) (log : Option LogFile)
    {d : AesdDev} (howned : Owned d)
    (hphase : Phase S cur d log { s.client cur.client with pc }) :
    Held S { s.goto cur.client pc with dev := d, log } :=
  h.inside hcur [] rfl rfl h.sane hcur (by rw [List.append_nil]) ⟨rfl, rfl⟩
    (List.append_nil _).symm (h.framed cur.client).fits howned hphase

/-! ### The steps outside the mutex -/

theorem held_recv {i : ι} (hpc : (s.client i).pc = .recv) {received : Option Bytes} {s' : State ι}
    (hs : s.recv i received = some s') : Held S s' := by
  obtain ⟨hfits, l, hrec, hshort, hplace⟩ := h.framed i
  simp only [Place, hpc] at hplace
  obtain ⟨htodo, hopen, hps⟩ := hplace
  have hend : Held S (s.goto i .ended) :=
    h.outside (by rw [hpc]; rfl) rfl rfl ⟨hfits, l, hrec, hshort, hps, .inl htodo⟩
  unfold State.recv at hs
  rcases received with _ | _ | ⟨a, buffer⟩
  · exact (Option.some.inj hs) ▸ hend
  · exact (Option.some.inj hs) ▸ hend
  · simp only at hs
    split_ifs at hs with hle
    have hu : (a :: buffer).take (u16 (a :: buffer).length) = a :: buffer := by
      rw [u16_received hle, List.take_length]
    rw [hu, Option.some.injEq] at hs
    rw [← hs]
    refine h.outside (by rw [hpc]; rfl) rfl rfl ⟨hfits, l, ?_, hshort, hopen, hps⟩
    show (s.client i).received ++ a :: buffer = l ++ a :: buffer
    rw [hrec, htodo, List.append_nil]

omit h in
theorem ensurePacketCapacity_cases (b : PacketBuf) (o : Outcome UInt8) :
    ensurePacketCapacity b o = (false, b) ∨ b.packetIndex < maxPacketSize ∧
      ∃ o' : Outcome UInt8, o'.isOk = true ∧ ensurePacketCapacity b o = ensurePacketCapacity b o' := by
  by_cases hmax : b.packetIndex < maxPacketSize
  swap
  · exact .inl (ensurePacketCapacity_full (not_lt.mp hmax) o)
  rcases o with _ | ⟨moved, fill⟩
  · by_cases hfull : b.packetIndex ≥ b.packetSize
    · left
      simp [ensurePacketCapacity, hfull, hmax]
    · right
      refine ⟨hmax, .ok false fun _ => 0, rfl, ?_⟩
      have hno : ¬ (b.packetIndex ≥ b.packetSize ∧ b.packetIndex < maxPacketSize) :=
        fun hn => hfull hn.1
      simp only [ensurePacketCapacity, if_neg hno]
  · exact .inr ⟨hmax, .ok moved fill, rfl, rfl⟩

theorem held_byte {i : ι} (hpc : (s.client i).pc = .bytes) {alloc : Outcome UInt8}
    {verdict : Option Seekto} {s' : State ι} (hs : s.byte i alloc verdict = some s') : Held S s' := by
  obtain ⟨hfits, l, hrec, hshort, hplace⟩ := h.framed i
  simp only [Place, hpc] at hplace
  obtain ⟨hopen, hps⟩ := hplace
  have hasm : Assembles (s.client i).buf l := ⟨hfits, hopen, hshort⟩
  unfold State.byte at hs
  rcases htodo : (s.client i).todo with _ | ⟨a, todo⟩
  · simp [htodo] at hs
  rw [htodo] at hrec
  simp only [htodo] at hs
  rcases ensurePacketCapacity_cases (s.client i).buf alloc with hfull | ⟨hmax, o, ho, hcap⟩
  · rw [hfull] at hs
    rw [← Option.some.inj hs]
    exact h.outside (by rw [hpc]; rfl) rfl rfl
      ⟨hfits, l, hrec, hshort, hps, .inr (.inl trivial)⟩
  obtain ⟨b₁, b₂, hcap', hstore, hbyte⟩ := hasm.takes_byte ho hmax a
  rw [hcap'] at hcap
  simp only [hcap, hstore] at hs
  rw [← Option.some.inj hs]
  have hrec' : (s.client i).received = l ++ [a] ++ todo := by rw [hrec]; simp
  by_cases ha : a = newline
  · have hp : isNewline a = true := by simp [ha]
    rw [if_pos ha]
    refine h.outside (by rw [hpc]; rfl) rfl rfl
      ⟨hbyte.fits, l ++ [a], hrec', hbyte.short hp hshort, rest_concat_pos hp l, ?_⟩
    rw [blocks_concat_pos hp, ← hbyte.pending, hps]
    rfl
  · have hp : isNewline a = false := by simp [ha]
    rw [if_neg ha]
    have hnext := hbyte.continues hp hshort
    refine h.outside (by rw [hpc]; rfl) rfl rfl
      ⟨hbyte.fits, l ++ [a], hrec', hnext.short, hnext.pending, ?_⟩
    rw [blocks_concat_neg hp, hps]

theorem held_chunkEnd {i : ι} (hpc : (s.client i).pc = .bytes) (htodo : (s.client i).todo = [])
    (running : Bool) : Held S (s.goto i (if running = true then .recv else .ended)) := by
  obtain ⟨hfits, l, hrec, hshort, hplace⟩ := h.framed i
  simp only [Place, hpc] at hplace
  cases running with
  | true => exact h.outside (by rw [hpc]; rfl) rfl rfl ⟨hfits, l, hrec, hshort, htodo, hplace⟩
  | false => exact h.outside (by rw [hpc]; rfl) rfl rfl ⟨hfits, l, hrec, hshort, hplace.2, .inl htodo⟩

theorem held_back {i : ι} {ret : Bool} (hpc : (s.client i).pc = .returned ret) :
    Held S (s.back i ret) := by
  obtain ⟨hfits, l, hrec, hshort, hplace⟩ := h.framed i
  simp only [Place, hpc] at hplace
  obtain ⟨hopen, hps, -⟩ := hplace
  have hfits' : Fits { (s.client i).buf with packetIndex := 0 } :=
    ⟨hfits.doubled, hfits.allocated, Nat.zero_le _, Nat.zero_le _⟩
  cases ret with
  | true =>
    refine h.outside (by rw [hpc]; rfl) rfl rfl ⟨hfits', l, hrec, hshort, ?_, hps⟩
    rw [hopen]
    rfl
  | false =>
    exact h.outside (by rw [hpc]; rfl) rfl rfl
      ⟨hfits', l, hrec, hshort, hps, .inr (.inl trivial)⟩

/-! ### Taking the lock -/

theorem held_lock {i : ι} {verdict : Option Seekto} (hpc : (s.client i).pc = .lock verdict)
    {s' : State ι} (hs : s.lock i verdict = some s') : Held S s' := by
  unfold State.lock at hs
  rcases hholder : s.holder with _ | cur
  swap
  · simp [hholder] at hs
  simp only [hholder, Option.some.injEq] at hs
  obtain ⟨hview, hlog⟩ := h.free hholder
  have hself : s'.client i = { s.client i with pc := .fopen verdict } := by
    rw [← hs]; exact Function.update_self _ _ _
  have hother : ∀ j, j ≠ i → s'.client j = s.client j := by
    intro j hj; rw [← hs]; exact Function.update_of_ne hj _ _
  have hnew : s'.holder = some ⟨i, (s.client i).buf.handed.1, verdict, []⟩ := by rw [← hs]
  have hdone : s'.done = s.done := by rw [← hs]; rfl
  have hpackets : ∀ j, packetsOf s' j =
      packetsOf s j ++ if j = i then [(s.client i).buf.handed.1] else [] := by
    intro j
    unfold packetsOf sessions
    rw [hdone, hholder, hnew]
    by_cases hj : i = j
    · simp [hj]
    · simp [hj, Ne.symm hj]
  have hsent : ∀ j, sentTo s' j = sentTo s j := by
    intro j
    unfold sentTo sessions
    rw [hdone, hholder, hnew]
    by_cases hj : i = j <;> simp [hj]
  refine ⟨by rw [← hs]; exact h.owned, by rw [← hs]; exact h.sane, hdone ▸ h.history, fun j => ?_,
    fun j => ?_, fun j hj => ?_, fun hnone => absurd (hnew ▸ hnone) (by simp), fun e he => ?_⟩
  · rw [hpackets]
    by_cases hj : j = i
    · subst hj
      obtain ⟨hfits, l, hrec, hshort, hplace⟩ := h.framed j
      simp only [Place, hpc] at hplace
      rw [hself, if_pos rfl]
      exact ⟨hfits, l, hrec, hshort, hplace⟩
    · rw [hother j hj, if_neg hj, List.append_nil]
      exact h.framed j
  · rw [hsent]
    by_cases hj : j = i
    · subst hj
      rw [hself]
      exact h.outbox j
    · rw [hother j hj]
      exact h.outbox j
  · by_cases hji : j = i
    · exact ⟨_, hnew, hji.symm⟩
    · rw [hother j hji] at hj
      obtain ⟨e, he, -⟩ := h.exclusive j hj
      rw [hholder] at he
      cases he
  · rw [hnew, Option.some.injEq] at he
    rw [← he, hself, ← hs]
    refine ⟨[], by rw [List.append_nil]; exact hview, ⟨List.nil_prefix, fun _ => rfl⟩, ?_⟩
    exact ⟨rfl, rfl, rfl, rfl⟩

/-! ### The steps of the holder -/

theorem held_fopen {i : ι} {verdict : Option Seekto} (hpc : (s.client i).pc = .fopen verdict) :
    Held S (s.fopen i verdict true) := by
  obtain ⟨cur, hcur, rfl⟩ := h.exclusive i (by rw [hpc]; rfl)
  obtain ⟨w, hview, hw, hstage⟩ := h.phase cur hcur
  simp only [Stage, hpc] at hstage
  obtain ⟨rfl, hverdict, hpacket, hsent⟩ := hstage
  unfold State.fopen
  rcases verdict with _ | seekto
  · refine h.move hcur _ (some LogFile.init) h.owned ⟨[], hview, hw, ?_⟩
    exact ⟨hpacket, rfl, hverdict.symm, hsent⟩
  · refine h.move hcur _ (some LogFile.init) h.owned ⟨[], hview, hw, ?_⟩
    exact ⟨rfl, by simp [← hverdict], hsent⟩

theorem held_write {i : ι} {left : Bytes} {failed : Bool} (hpc : (s.client i).pc = .write left failed)
    {count : ℕ} {env : WriteEnv} (henv : NoLoss env) {s' : State ι}
    (hs : s.write i left count env = some s') : Held S s' := by
  obtain ⟨cur, hcur, rfl⟩ := h.exclusive i (by rw [hpc]; rfl)
  obtain ⟨w, hview, hw, hstage⟩ := h.phase cur hcur
  simp only [Stage, hpc] at hstage
  obtain ⟨hpacket, hlog, hverdict, hsent⟩ := hstage
  obtain ⟨f, hf⟩ := Option.isSome_iff_exists.mp hlog
  simp only [State.write, State.onLog, hf] at hs
  split_ifs at hs with hcount
  have hsplit : w ++ (left.take count ++ left.drop count) = cur.packet := by
    rw [List.take_append_drop, hpacket]
  obtain ⟨d', hwrite, howned, hview'⟩ := aesdWrite_refines h.owned (left.take count) env
  rw [write_noLoss henv] at hview'
  simp only [hwrite] at hs
  rw [← Option.some.inj hs]
  by_cases hpos : 0 < ((view s.dev).write (left.take count) env).1
  · -- the piece was accepted
    have hr := (write_fst (view s.dev) (left.take count) env).resolve_right (not_le.mpr hpos)
    rw [if_pos hpos, hview, lastLines_accept _ (dropLast_piece (h.packet hcur) hsplit)] at hview'
    have hlen : (left.take count).length = count := by rw [List.length_take, min_eq_left hcount.2]
    rw [hr, hlen, Int.toNat_natCast]
    refine h.move hcur _ s.log howned ⟨w ++ left.take count, ?_, ⟨?_, ?_⟩, ?_⟩
    · rw [hview', List.append_assoc]
    · rw [← hsplit, ← List.append_assoc]
      exact List.prefix_append _ _
    · exact fun hv => absurd hverdict hv
    · exact ⟨by rw [List.append_assoc, hsplit], hlog, hverdict, hsent⟩
  · -- nothing was accepted
    rw [if_neg hpos] at hview'
    rw [Int.toNat_of_nonpos (not_lt.mp hpos), List.drop_zero]
    exact h.move hcur _ s.log howned ⟨w, hview'.trans hview, hw, hpacket, hlog, hverdict, hsent⟩

theorem held_fflush {i : ι} {left : Bytes} {failed : Bool}
    (hpc : (s.client i).pc = .write left failed) {s' : State ι}
    (hs : (s.onLog fun _ => if left = [] ∨ failed = true then some (s.goto i (.seekSet 0))
      else none) = some s') : Held S s' := by
  obtain ⟨cur, hcur, rfl⟩ := h.exclusive i (by rw [hpc]; rfl)
  obtain ⟨w, hview, hw, hstage⟩ := h.phase cur hcur
  simp only [Stage, hpc] at hstage
  obtain ⟨-, hlog, -, hsent⟩ := hstage
  obtain ⟨f, hf⟩ := Option.isSome_iff_exists.mp hlog
  simp only [State.onLog, hf] at hs
  split_ifs at hs
  rw [← Option.some.inj hs]
  exact h.move hcur _ s.log h.owned ⟨w, hview, hw, hlog, fun _ => rfl, hsent⟩

/-- The `ioctl` returned: the answer begins at what it returned, or is refused. -/
theorem held_ioctlReturned {cur : Session ι} (hcur : s.holder = some cur) (log : Option LogFile)
    (hlog : log.isSome = true) {w : Bytes} (hview : view s.dev = lastLines (S ++ w))
    (hw : Accepted cur w) (hverdict : cur.verdict ≠ none) (hsent : cur.sent = []) (r : ℤ) :
    Held S { s.ioctlReturned cur.client r with log } := by
  unfold State.ioctlReturned
  by_cases hneg : cint r < 0
  · rw [if_pos hneg]
    exact h.move hcur _ log h.owned ⟨w, hview, hw, answered_nil _ hsent false⟩
  · rw [if_neg hneg]
    exact h.move hcur _ log h.owned ⟨w, hview, hw, hlog, fun hv => absurd hv hverdict, hsent⟩

theorem held_ioctl {i : ι} {seekto : Seekto} (hpc : (s.client i).pc = .ioctl seekto)
    {copyFails semKilled : Bool} {s' : State ι} (hs : s.ioctl i seekto copyFails semKilled = some s') :
    Held S s' := by
  obtain ⟨cur, hcur, rfl⟩ := h.exclusive i (by rw [hpc]; rfl)
  obtain ⟨w, hview, hw, hstage⟩ := h.phase cur hcur
  simp only [Stage, hpc] at hstage
  obtain ⟨hlog, hverdict, hsent⟩ := hstage
  obtain ⟨f, hf⟩ := Option.isSome_iff_exists.mp hlog
  simp only [State.ioctl, State.onLog, hf] at hs
  split at hs
  · rw [← Option.some.inj hs]
    exact held_ioctlReturned h hcur s.log hlog hview hw hverdict hsent _
  · rw [← Option.some.inj hs]
    exact h.move hcur _ s.log h.owned ⟨w, hview, hw, hlog, hverdict, hsent⟩

theorem held_llseek {i : ι} {offset : ℤ} (hpc : (s.client i).pc = .llseek offset) {semKilled : Bool}
    {s' : State ι} (hs : s.llseek i offset semKilled = some s') : Held S s' := by
  obtain ⟨cur, hcur, rfl⟩ := h.exclusive i (by rw [hpc]; rfl)
  obtain ⟨w, hview, hw, hstage⟩ := h.phase cur hcur
  simp only [Stage, hpc] at hstage
  obtain ⟨hlog, hverdict, hsent⟩ := hstage
  obtain ⟨f, hf⟩ := Option.isSome_iff_exists.mp hlog
  simp only [State.llseek, State.onLog, hf] at hs
  rw [← Option.some.inj hs]
  exact held_ioctlReturned h hcur _ rfl hview hw hverdict hsent _

theorem held_seekSet {i : ι} {offset : ℤ} (hpc : (s.client i).pc = .seekSet offset) {semKilled : Bool}
    {s' : State ι} (hs : s.seekSet i offset semKilled = some s') : Held S s' := by
  obtain ⟨cur, hcur, rfl⟩ := h.exclusive i (by rw [hpc]; rfl)
  obtain ⟨w, hview, hw, hstage⟩ := h.phase cur hcur
  simp only [Stage, hpc] at hstage
  obtain ⟨hlog, hstart, hsent⟩ := hstage
  obtain ⟨f, hf⟩ := Option.isSome_iff_exists.mp hlog
  simp only [State.seekSet, State.onLog, hf] at hs
  split_ifs at hs with hneg
  · rw [← Option.some.inj hs]
    exact h.move hcur _ s.log h.owned ⟨w, hview, hw, answered_nil _ hsent false⟩
  · rw [← Option.some.inj hs, aesdLlseek_sound hneg]
    refine h.move hcur _ _ h.owned ⟨w, hview, hw, ?_⟩
    exact Streams.of_seek hsent fun hv => by rw [hstart hv]; rfl

theorem held_fill {i : ι} {ret : Bool} (hpc : (s.client i).pc = .read ret) {count : ℕ} {env : ReadEnv}
    {s' : State ι} (hs : s.fill count env = some s') : Held S s' := by
  obtain ⟨cur, hcur, rfl⟩ := h.exclusive i (by rw [hpc]; rfl)
  obtain ⟨w, hview, hw, hstage⟩ := h.phase cur hcur
  simp only [Stage, hpc] at hstage
  obtain ⟨f, -, -, hf, -⟩ := id hstage
  simp only [State.fill, State.onLog, hf] at hs
  split_ifs at hs with hcount
  obtain ⟨r, pos', u, hread, hr⟩ := aesdRead_sound h.owned env f.fpos.toNat
    (show count ≤ (List.replicate count (0 : UInt8)).length by simp)
  simp only [hread] at hs
  rw [← Option.some.inj hs]
  rw [hf] at hstage
  have hmove := h.move hcur (.read ret) _ h.owned ⟨w, hview, hw, hstage.fill hcount.2 hr⟩
  have hgoto : s.goto cur.client (.read ret) = s := by
    unfold State.goto State.put
    rw [← hpc, Function.update_eq_self]
  rwa [hgoto] at hmove

theorem held_fread {i : ι} {ret : Bool} (hpc : (s.client i).pc = .read ret) {n : ℕ} {s' : State ι}
    (hs : s.fread i ret n = some s') : Held S s' := by
  obtain ⟨cur, hcur, rfl⟩ := h.exclusive i (by rw [hpc]; rfl)
  obtain ⟨w, hview, hw, hstage⟩ := h.phase cur hcur
  simp only [Stage, hpc] at hstage
  obtain ⟨f, -, -, hf, -⟩ := id hstage
  simp only [State.fread, State.onLog, hf] at hs
  split_ifs at hs with hn hend hle
  · rw [← Option.some.inj hs]
    exact h.move hcur _ s.log h.owned ⟨w, hview, hw, by rw [hf]; rfl, hstage.answered⟩
  · obtain ⟨hahead, hsize⟩ := hle
    have hfits := (h.framed cur.client).fits
    have hlen : (f.ahead.take n).length = n := by rw [List.length_take, min_eq_left hahead]
    have hmem := hfits.allocated
    have hover : (overlay (s.client cur.client).buf.packet 0 (f.ahead.take n)).length =
        (s.client cur.client).buf.packet.length := length_overlay (by omega)
    have htake : (overlay (s.client cur.client).buf.packet 0 (f.ahead.take n)).take n =
        f.ahead.take n := by
      unfold overlay
      rw [List.take_zero, List.nil_append, List.take_append_of_le_length hlen.ge,
        List.take_of_length_le hlen.le]
    rw [← Option.some.inj hs]
    refine h.inside hcur [] rfl rfl h.sane hcur (by rw [List.append_nil]) ⟨rfl, rfl⟩
      (List.append_nil _).symm ⟨hfits.doubled, hover.trans hmem, hfits.index_le, hfits.index_max⟩
      h.owned ⟨w, hview, hw, by omega, ?_, ?_⟩
    · show n ≤ (overlay _ 0 _).length
      omega
    · show Streams _ _ (((overlay _ 0 _).take n).drop 0) _ _
      rw [htake, List.drop_zero]
      rw [hf] at hstage
      exact hstage.fread n

theorem held_send {i : ι} {ret : Bool} {bytesRead total : ℕ}
    (hpc : (s.client i).pc = .send ret bytesRead total) {sent : Option ℕ} {s' : State ι}
    (hs : s.send i ret bytesRead total sent = some s') : Held S s' := by
  obtain ⟨cur, hcur, rfl⟩ := h.exclusive i (by rw [hpc]; rfl)
  obtain ⟨w, hview, hw, hstage⟩ := h.phase cur hcur
  simp only [Stage, hpc] at hstage
  obtain ⟨hlt, hle, hstreams⟩ := hstage
  rcases sent with _ | k
  · rw [← Option.some.inj hs]
    exact h.move hcur _ s.log h.owned ⟨w, hview, hw, hstreams.lose⟩
  simp only [State.send, hcur, Option.map_some] at hs
  split_ifs at hs with hk hmore
  all_goals
    rw [← Option.some.inj hs]
    rw [Refinement.slice_split _ hk.2] at hstreams
  · exact h.inside hcur _ rfl rfl h.sane rfl rfl ⟨rfl, rfl⟩ rfl (h.framed cur.client).fits h.owned
      ⟨w, hview, ⟨hw.beginning, hw.seek⟩, hmore, hle, hstreams.send⟩
  · have hall : ((s.client cur.client).buf.packet.take bytesRead).drop (total + k) = [] :=
      List.drop_eq_nil_of_le (by rw [List.length_take]; omega)
    rw [hall] at hstreams
    exact h.inside hcur _ rfl rfl h.sane rfl rfl ⟨rfl, rfl⟩ rfl (h.framed cur.client).fits h.owned
      ⟨w, hview, ⟨hw.beginning, hw.seek⟩, hstreams.send⟩

theorem held_seekEnd {i : ι} {ret : Bool} (hpc : (s.client i).pc = .seekEnd ret) {semKilled : Bool}
    {s' : State ι} (hs : s.seekEnd i ret semKilled = some s') : Held S s' := by
  obtain ⟨cur, hcur, rfl⟩ := h.exclusive i (by rw [hpc]; rfl)
  obtain ⟨w, hview, hw, hstage⟩ := h.phase cur hcur
  simp only [Stage, hpc] at hstage
  obtain ⟨hlog, hanswered⟩ := hstage
  obtain ⟨f, hf⟩ := Option.isSome_iff_exists.mp hlog
  simp only [State.seekEnd, State.onLog, hf] at hs
  rw [← Option.some.inj hs]
  refine h.move hcur _ _ h.owned ⟨w, hview, hw, hanswered.of_false fun hret => ?_⟩
  exact (Bool.and_eq_true_iff.mp hret).1

theorem held_fclose {i : ι} {ret : Bool} (hpc : (s.client i).pc = .fclose ret) :
    Held S { s.goto i (.unlock ret) with log := none } := by
  obtain ⟨cur, hcur, rfl⟩ := h.exclusive i (by rw [hpc]; rfl)
  obtain ⟨w, hview, hw, hstage⟩ := h.phase cur hcur
  simp only [Stage, hpc] at hstage
  exact h.move hcur _ none h.owned ⟨w, hview, hw, rfl, hstage⟩

/-! ### Releasing the lock -/

theorem held_unlock {i : ι} {ret : Bool} (hpc : (s.client i).pc = .unlock ret) :
    ∃ S', Held S' (s.unlock i ret) := by
  obtain ⟨cur, hcur, rfl⟩ := h.exclusive i (by rw [hpc]; rfl)
  have hcrit := (h.phase cur hcur).critical
  obtain ⟨w, hview, hw, hstage⟩ := h.phase cur hcur
  simp only [Stage, hpc] at hstage
  obtain ⟨hlog, hanswered⟩ := hstage
  set s' := s.unlock cur.client ret with hs'
  have hself : s'.client cur.client = { s.client cur.client with pc := .returned ret } :=
    Function.update_self _ _ _
  have hother : ∀ j, j ≠ cur.client → s'.client j = s.client j :=
    fun j hj => Function.update_of_ne hj _ _
  have hdone : s'.done = s.done ++ [(cur, ret)] := by simp [hs', State.unlock, hcur]
  have hholder : s'.holder = none := rfl
  have hsessions : sessions s' = sessions s := by
    unfold sessions
    rw [hdone, hholder, hcur]
    simp
  have hcontent : content s.dev = (lastLines (S ++ w)).entries.flatten := by rw [content, hview]
  refine ⟨S ++ w, h.owned, h.sane, ?_, fun j => ?_, fun j => ?_, fun j hj => ?_,
    fun _ => ⟨hview, hlog⟩, fun e he => absurd (hholder ▸ he) (by simp)⟩
  · rw [hdone]
    exact .snoc h.history hw (hcontent ▸ hanswered)
  · rw [packetsOf, hsessions, ← packetsOf]
    obtain ⟨hfits, l, hrec, hshort, hplace⟩ := h.framed j
    by_cases hj : j = cur.client
    · subst hj
      rw [place_critical hcrit] at hplace
      rw [hself]
      exact ⟨hfits, l, hrec, hshort, hplace.1, hplace.2, fun _ => trivial⟩
    · rw [hother j hj]
      exact ⟨hfits, l, hrec, hshort, hplace⟩
  · rw [sentTo, hsessions, ← sentTo]
    by_cases hj : j = cur.client
    · subst hj
      rw [hself]
      exact h.outbox cur.client
    · rw [hother j hj]
      exact h.outbox j
  · by_cases hjc : j = cur.client
    · subst hjc
      rw [hself] at hj
      cases hj
    · rw [hother j hjc] at hj
      exact absurd (h.holder_of_critical hcur hj) hjc

end Held

theorem held_step {S : Bytes} {s : State ι} (h : Held S s) {a : ι × Act} {s' : State ι}
    (ha : Tolerated a.2) (hs : step s a = some s') : ∃ S', Held S' s' := by
  obtain ⟨i, act⟩ := a
  simp only [step, h.sane, Bool.false_eq_true, if_false] at hs
  cases hpc : (s.client i).pc <;> cases act <;> simp only [hpc, reduceCtorEq] at hs
  case recv.recv => exact ⟨S, held_recv h hpc hs⟩
  case bytes.byte => exact ⟨S, held_byte h hpc hs⟩
  case bytes.chunkEnd running =>
    by_cases htodo : (s.client i).todo = []
    · rw [if_pos htodo] at hs
      exact ⟨S, (Option.some.inj hs) ▸ held_chunkEnd h hpc htodo running⟩
    · rw [if_neg htodo] at hs
      cases hs
  case lock.lock => exact ⟨S, held_lock h hpc hs⟩
  case fopen.fopen ok =>
    obtain rfl : ok = true := ha
    exact ⟨S, (Option.some.inj hs) ▸ held_fopen h hpc⟩
  case write.write => exact ⟨S, held_write h hpc ha hs⟩
  case write.fflush => exact ⟨S, held_fflush h hpc hs⟩
  case ioctl.ioctl => exact ⟨S, held_ioctl h hpc hs⟩
  case llseek.fseek => exact ⟨S, held_llseek h hpc hs⟩
  case seekSet.fseek => exact ⟨S, held_seekSet h hpc hs⟩
  case read.fill => exact ⟨S, held_fill h hpc hs⟩
  case read.fread => exact ⟨S, held_fread h hpc hs⟩
  case send.send => exact ⟨S, held_send h hpc hs⟩
  case seekEnd.fseek => exact ⟨S, held_seekEnd h hpc hs⟩
  case fclose.fclose => exact ⟨S, (Option.some.inj hs) ▸ held_fclose h hpc⟩
  case unlock.unlock => exact (Option.some.inj hs) ▸ held_unlock h hpc
  case returned.back => exact ⟨S, (Option.some.inj hs) ▸ held_back h hpc⟩

/-! ### What is left when calls fail -/

/-- What is seen of a state: the device stores the last ten lines of the bytes it accepted, which are in
each session the beginning of the packet; the answers of the sessions that are over came from what was
stored then; and a thread's packets are the first lines of its stream. -/
structure Contained (s : State ι) : Prop where
  sane : s.fault = false
  store : ∃ S, History s.done S ∧ (s.holder = none → view s.dev = lastLines S) ∧
    ∀ cur, s.holder = some cur → ∃ w, Accepted cur w ∧ view s.dev = lastLines (S ++ w)
  outbox : ∀ i, (s.client i).outbox = sentTo s i
  order : ∀ i, packetsOf s i <+: blocks isNewline (s.client i).received

omit [DecidableEq ι] in
theorem framed_prefix {c : Client} {ps : List Bytes} (h : Framed c ps True) :
    ps <+: blocks isNewline c.received := by
  obtain ⟨-, l, hrec, -, hplace⟩ := h
  rw [hrec]
  refine List.IsPrefix.trans ?_ (blocks_mono isNewline l c.todo)
  unfold Place at hplace
  cases hpc : c.pc <;> simp only [hpc] at hplace
  case recv => rw [hplace.2.2]
  case bytes => rw [hplace.2]
  case lock => exact ⟨_, hplace.2⟩
  case returned => rw [hplace.2.1]
  case ended => rw [hplace.1]
  all_goals rw [hplace.2]

/-- **Failures are contained.** For any number of clients, whatever they send, however it arrives, however
the threads are interleaved, and whichever of the calls fail that may (`Tolerated`). -/
theorem failures_contained {s₀ s : State ι} (h₀ : Init s₀) {as : List (ι × Act)}
    (ha : ∀ a ∈ as, Tolerated a.2) (hr : run step s₀ as = some s) : Contained s := by
  obtain ⟨S, h⟩ : ∃ S, Held S s :=
    Meets.invariant (P := fun s => ∃ S, Held S s)
      (fun _ _ _ ⟨_, h⟩ ha hs => held_step h ha hs) ⟨[], held_init h₀⟩ (Meets.of_forall ha) hr
  exact
    { sane := h.sane
      store := ⟨S, h.history, fun hfree => (h.free hfree).1, fun cur hcur => by
        obtain ⟨w, hview, hw, -⟩ := h.phase cur hcur
        exact ⟨w, hw, hview⟩⟩
      outbox := h.outbox
      order := fun i => framed_prefix (h.framed i) }

/-- The second byte of the line of `i` is not copied; then `j` sends a line, and both get no answer. -/
def torn (i j : ι) : List (ι × Act) :=
  [(i, .recv (some [97, newline])), (i, .byte (.ok false fun _ => 0) none),
    (i, .byte (.ok false fun _ => 0) none), (i, .lock), (i, .fopen true), (i, .write 1 smooth),
    (i, .write 1 { smooth with copy := some 0 }), (i, .fflush), (i, .fseek true), (i, .fclose),
    (i, .unlock), (j, .recv (some [98, newline])), (j, .byte (.ok false fun _ => 0) none),
    (j, .byte (.ok false fun _ => 0) none), (j, .lock), (j, .fopen true), (j, .write 2 smooth),
    (j, .fflush), (j, .fseek true), (j, .fclose), (j, .unlock)]

/-- What was accepted of the first packet is the beginning of the line stored. -/
theorem failures_contained_torn : ∃ s, run step EndToEnd.start (torn 0 1) = some s ∧
    (view s.dev).entries = [[97, 98, newline]] ∧ Contained s := by
  have hrun : (run step EndToEnd.start (torn 0 1)).map (fun s => (view s.dev).entries) =
      some [[97, 98, newline]] := by decide +kernel
  obtain ⟨s, hr, he⟩ := Option.map_eq_some_iff.mp hrun
  have hall : ∀ a ∈ torn (0 : Fin 2) 1, Tolerated a.2 := by
    simp [torn, Tolerated, NoLoss, smooth, Outcome.isOk]
  exact ⟨s, hr, he, failures_contained EndToEnd.init_start hall hr⟩

end Aesd.Server.Failures
