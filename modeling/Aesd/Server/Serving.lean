import Aesd.Server.Answer
import Aesd.Server.Clients

/-!
# The invariant of the client threads

`Good` says what holds between any two steps of the client threads when nothing fails: the sessions
that are over were answered as `serve` says; each thread has processed the lines of what it received so
far (`Framed`); and the thread that holds `log_file_mutex` is in a phase of its answer (`Phase`): before
its packet is written the device shows the lines of the sessions before, from then on those after it,
and the bytes sent, in the packet buffer, read ahead and not yet read are together its answer.

The frame lemmas say what a step outside (`Good.outside`) and inside (`Good.inside`) the mutex has to
establish; the rest of the module does the steps outside.
-/

namespace Aesd.Server.Serving

open Aesd.Lib.Alloc Aesd.Lib.Blocks
open Aesd.Driver.Ring Aesd.Driver.Device Aesd.Driver.Store Aesd.Driver.Write Aesd.Driver.Read
open Aesd.Server.Packet Aesd.Server.Framing Aesd.Server.Answer Aesd.Server.Clients
open Aesd.Server.Clients.State

variable {ι : Type*} [DecidableEq ι]

/-! ### What is seen of a state -/

/-- The packet of a session, with its verdict. -/
def request (e : Session ι) : Request := ⟨e.packet, e.verdict⟩

/-- The sessions in the order of the lock, the one under way included. -/
def sessions (s : State ι) : List (Session ι) := s.done.map Prod.fst ++ s.holder.toList

/-- The packets of the thread `i`, in the order of the lock. -/
def packetsOf (s : State ι) (i : ι) : List Bytes :=
  ((sessions s).filter fun e => e.client = i).map Session.packet

/-- The bytes sent in the sessions of the thread `i`. -/
def sentTo (s : State ι) (i : ι) : Bytes :=
  ((sessions s).filter fun e => e.client = i).flatMap Session.sent

/-- What came of a session: the bytes sent, or a refusal. -/
def outcome (e : Session ι × Bool) : Option Bytes := if e.2 = true then some e.1.sent else none

/-- The list of packets after the sessions that are over. -/
def lines (s : State ι) : List Bytes := (serve [] (s.done.map fun e => request e.1)).1

/-- A seek of the thread was refused. -/
def Refused (s : State ι) (i : ι) : Prop := ∃ e ∈ s.done, e.1.client = i ∧ e.2 = false

/-- Nothing fails. -/
def Smooth : Act → Prop
  | .byte alloc _ => alloc.isOk = true
  | .fopen ok => ok = true
  | .write _ env => Granted env
  | .ioctl copyFails semKilled => copyFails = false ∧ semKilled = false
  | .fseek semKilled => semKilled = false
  | .fill _ env => env.semKilled = false ∧ ∀ i, env.copy i = none
  | .send sent => sent ≠ none
  | _ => True

/-! ### The invariant -/

/-- The thread holds `log_file_mutex`. -/
def critical : Pc → Bool
  | .recv | .bytes | .lock _ | .returned _ | .ended => false
  | _ => true

/-- Where a thread is in its stream, of which it handled the bytes `l`; `ps` are its packets that got
the lock. -/
def Place (c : Client) (l : Bytes) (ps : List Bytes) (refused : Prop) : Prop :=
  match c.pc with
  | .recv => c.todo = [] ∧ c.buf.handed.1 = rest isNewline l ∧ ps = blocks isNewline l
  | .bytes => c.buf.handed.1 = rest isNewline l ∧ ps = blocks isNewline l
  | .lock _ => rest isNewline l = [] ∧ ps ++ [c.buf.handed.1] = blocks isNewline l
  | .returned ret => rest isNewline l = [] ∧ ps = blocks isNewline l ∧ (ret = false → refused)
  | .ended => ps = blocks isNewline l ∧
      (c.todo = [] ∨ refused ∨ c.todo ≠ [] ∧ maxPacketSize ≤ (rest isNewline l).length)
  | _ => rest isNewline l = [] ∧ ps = blocks isNewline l

/-- **A thread has processed the lines of what it received.** -/
structure Framed (c : Client) (ps : List Bytes) (refused : Prop) : Prop where
  fits : Fits c.buf
  place : ∃ l, c.received = l ++ c.todo ∧
    (∀ p ∈ blocks isNewline l, p.length ≤ maxPacketSize) ∧ Place c l ps refused

/-- The answer `a` is what was sent, the bytes of `block`, what the stream read ahead, and what the
driver has after the stream's position. -/
def Streams (a : List Bytes × Option Bytes) (sent block : Bytes) (log : Option LogFile) : Prop :=
  ∃ (f : LogFile) (pos : ℕ), log = some f ∧ f.fpos = pos ∧
    (f.stopped = true → a.1.flatten.drop pos = []) ∧
    a.2 = some (sent ++ (block ++ (f.ahead ++ a.1.flatten.drop pos)))

/-- The answer `a` is about to be streamed from the offset on. -/
def Positioned (a : List Bytes × Option Bytes) (offset : ℤ) : Prop :=
  ∃ pos : ℕ, offset = pos ∧ pos ≤ a.1.flatten.length ∧ a.2 = some (a.1.flatten.drop pos)

/-- The answer `a` was given. -/
def Settled (a : List Bytes × Option Bytes) (sent : Bytes) (ret : Bool) : Prop :=
  a.2 = (if ret = true then some sent else none) ∧ (ret = false → sent = [])

/-- **The phase of the answer** to the packet of `cur`, after the sessions that left the list `L`. -/
def Phase (L : List Bytes) (cur : Session ι) (d : AesdDev) (log : Option LogFile) (c : Client) :
    Prop :=
  let a := answer L (request cur)
  match c.pc with
  | .fopen verdict => view d = ⟨L, []⟩ ∧ verdict = cur.verdict ∧ c.buf.handed.1 = cur.packet ∧
      cur.sent = []
  | .write left failed => (∃ w, w ++ left = cur.packet ∧
        view d = if left = [] then ⟨a.1, []⟩ else ⟨L, w⟩) ∧
      log.isSome = true ∧ cur.verdict = none ∧ failed = false ∧ cur.sent = []
  | .ioctl seekto => view d = ⟨L, []⟩ ∧ log.isSome = true ∧ cur.verdict = some seekto ∧
      cur.sent = []
  | .llseek offset => view d = ⟨a.1, []⟩ ∧ log.isSome = true ∧ cur.sent = [] ∧ Positioned a offset
  | .seekSet offset => view d = ⟨a.1, []⟩ ∧ log.isSome = true ∧ cur.sent = [] ∧ Positioned a offset
  | .read ret => view d = ⟨a.1, []⟩ ∧ ret = true ∧ Streams a cur.sent [] log
  | .send ret bytesRead total => view d = ⟨a.1, []⟩ ∧ ret = true ∧ total < bytesRead ∧
      bytesRead ≤ c.buf.packet.length ∧
      Streams a cur.sent ((c.buf.packet.take bytesRead).drop total) log
  | .seekEnd ret => view d = ⟨a.1, []⟩ ∧ log.isSome = true ∧ ret = true ∧ a.2 = some cur.sent
  | .fclose ret => view d = ⟨a.1, []⟩ ∧ Settled a cur.sent ret
  | .unlock ret => view d = ⟨a.1, []⟩ ∧ log = none ∧ Settled a cur.sent ret
  | _ => False

/-- **The invariant.** -/
structure Good (s : State ι) : Prop where
  owned : Owned s.dev
  sane : s.fault = false
  answered : s.done.map outcome = (serve [] (s.done.map fun e => request e.1)).2
  silent : ∀ e ∈ s.done, e.2 = false → e.1.sent = []
  bounded : Bounded (lines s)
  framed : ∀ i, Framed (s.client i) (packetsOf s i) (Refused s i)
  outbox : ∀ i, (s.client i).outbox = sentTo s i
  ends : ∀ i, Refused s i → (s.client i).pc = .returned false ∨ (s.client i).pc = .ended
  exclusive : ∀ i, critical (s.client i).pc = true → ∃ cur, s.holder = some cur ∧ cur.client = i
  free : s.holder = none → view s.dev = ⟨lines s, []⟩ ∧ s.log = none
  phase : ∀ cur, s.holder = some cur →
    Phase (lines s) cur s.dev s.log (s.client cur.client)

omit [DecidableEq ι] in
theorem Phase.critical {L : List Bytes} {cur : Session ι} {d : AesdDev} {log : Option LogFile}
    {c : Client} (h : Phase L cur d log c) : critical c.pc = true := by
  unfold Phase at h
  unfold Serving.critical
  cases hpc : c.pc <;> simp_all

theorem place_critical {c : Client} (hc : critical c.pc = true) (l : Bytes) (ps : List Bytes)
    (refused : Prop) :
    Place c l ps refused ↔ rest isNewline l = [] ∧ ps = blocks isNewline l := by
  unfold critical at hc
  unfold Place
  cases hpc : c.pc <;> simp_all

theorem good_init {s : State ι} (h : Init s) : Good s := by
  have hdone := h.done
  have hholder := h.holder
  have hclient : ∀ i, (s.client i).pc = .recv := by
    intro i
    obtain ⟨fill, hc⟩ := h.client i
    rw [hc]
    rfl
  have hlines : lines s = [] := by simp [lines, hdone, serve]
  refine ⟨?_, h.fault, ?_, ?_, ?_, fun i => ?_, fun i => ?_, ?_, fun i hi => ?_, fun _ => ?_, ?_⟩
  · rw [h.dev]
    exact inv_initModule
  · simp [hdone, serve]
  · simp [hdone]
  · rw [hlines]
    exact ⟨by simp, by simp⟩
  · obtain ⟨fill, hc⟩ := h.client i
    have hps : packetsOf s i = [] := by simp [packetsOf, sessions, hdone, hholder]
    rw [hc, hps]
    refine ⟨fits_init fill, [], rfl, by simp, ?_⟩
    simp [Place, Client.init, PacketBuf.init, PacketBuf.handed]
  · obtain ⟨fill, hc⟩ := h.client i
    rw [hc]
    simp [Client.init, sentTo, sessions, hdone, hholder]
  · simp [Refused, hdone]
  · rw [hclient i] at hi
    cases hi
  · rw [h.dev, hlines, h.log]
    exact ⟨view_initModule, rfl⟩
  · simp [hholder]

section Good
variable {s : State ι} (h : Good s)
include h

/-- Only the holder of the mutex stands where it must be held. -/
theorem Good.holder_of_critical {cur : Session ι} (hcur : s.holder = some cur) {j : ι}
    (hj : critical (s.client j).pc = true) : j = cur.client := by
  obtain ⟨e, he, hec⟩ := h.exclusive j hj
  rw [hcur, Option.some.injEq] at he
  exact (he ▸ hec).symm

/-- The packet under way is a line within the limit. -/
theorem Good.packet {cur : Session ι} (hcur : s.holder = some cur) :
    IsLine cur.packet ∧ cur.packet.length ≤ maxPacketSize := by
  obtain ⟨l, -, hshort, hplace⟩ := (h.framed cur.client).place
  rw [place_critical (h.phase cur hcur).critical] at hplace
  have hmem : cur.packet ∈ blocks isNewline l := by
    rw [← hplace.2]
    unfold packetsOf sessions
    rw [hcur]
    simp
  refine ⟨?_, hshort _ hmem⟩
  obtain ⟨c, a, heq, ha, hc⟩ := (blocks_shape isNewline l).1 _ hmem
  simp only [isNewline, beq_iff_eq] at ha
  refine ⟨c, by rw [heq, ha], fun hm => ?_⟩
  simpa using hc newline hm

theorem Good.bounded_answer {cur : Session ι} (hcur : s.holder = some cur) :
    Bounded (answer (lines s) (request cur)).1 :=
  Answer.bounded_answer h.bounded (h.packet hcur).2

/-! ### Frames -/

/-- **A step outside the mutex**: only the thread changes. -/
theorem Good.outside {i : ι} {c : Client} (hpc : critical (s.client i).pc = false)
    (hpc' : critical c.pc = false) (hout : c.outbox = (s.client i).outbox)
    (hframed : Framed c (packetsOf s i) (Refused s i))
    (hends : Refused s i → c.pc = .returned false ∨ c.pc = .ended) : Good (s.put i c) := by
  have hself : (s.put i c).client i = c := Function.update_self _ _ _
  have hother : ∀ j, j ≠ i → (s.put i c).client j = s.client j :=
    fun j hj => Function.update_of_ne hj _ _
  refine ⟨h.owned, h.sane, h.answered, h.silent, h.bounded, fun j => ?_, fun j => ?_,
    fun j hj => ?_, fun j hj => ?_, h.free, fun cur hcur => ?_⟩
  · by_cases hji : j = i
    · subst hji
      rw [hself]
      exact hframed
    · rw [hother j hji]
      exact h.framed j
  · by_cases hji : j = i
    · subst hji
      rw [hself, hout]
      exact h.outbox j
    · rw [hother j hji]
      exact h.outbox j
  · by_cases hji : j = i
    · subst hji
      rw [hself]
      exact hends hj
    · rw [hother j hji]
      exact h.ends j hj
  · by_cases hji : j = i
    · subst hji
      rw [hself, hpc'] at hj
      cases hj
    · rw [hother j hji] at hj
      exact h.exclusive j hj
  · have hphase := h.phase cur hcur
    have hne : cur.client ≠ i := by
      rintro rfl
      rw [hphase.critical] at hpc
      cases hpc
    rw [hother _ hne]
    exact hphase

/-- **A step inside the mutex**: the holder goes on, having sent `delta`. -/
theorem Good.inside {cur cur' : Session ι} (hcur : s.holder = some cur) (delta : Bytes)
    {s' : State ι} {c : Client}
    (hclient : s'.client = Function.update s.client cur.client c) (hdone : s'.done = s.done)
    (hfault : s'.fault = false) (hholder : s'.holder = some cur')
    (hsession : cur' = { cur with sent := cur.sent ++ delta })
    (hstream : c.todo = (s.client cur.client).todo ∧
      c.received = (s.client cur.client).received)
    (hout : c.outbox = (s.client cur.client).outbox ++ delta) (hfits : Fits c.buf)
    (howned : Owned s'.dev) (hphase : Phase (lines s) cur' s'.dev s'.log c) : Good s' := by
  have hself : s'.client cur.client = c := by rw [hclient, Function.update_self]
  have hother : ∀ j, j ≠ cur.client → s'.client j = s.client j :=
    fun j hj => by rw [hclient, Function.update_of_ne hj]
  have hlines : lines s' = lines s := by rw [lines, hdone, lines]
  have hrefused : ∀ j, Refused s' j ↔ Refused s j := fun j => by rw [Refused, hdone, Refused]
  have hpackets : ∀ j, packetsOf s' j = packetsOf s j := by
    intro j
    unfold packetsOf sessions
    rw [hdone, hholder, hcur, hsession]
    by_cases hj : cur.client = j <;> simp [hj]
  have hsent : ∀ j, sentTo s' j = sentTo s j ++ if j = cur.client then delta else [] := by
    intro j
    unfold sentTo sessions
    rw [hdone, hholder, hcur, hsession]
    by_cases hj : cur.client = j
    · simp [hj]
    · simp [hj, Ne.symm hj]
  have hcrit := (h.phase cur hcur).critical
  refine ⟨howned, hfault, by rw [hdone]; exact h.answered, by rw [hdone]; exact h.silent,
    by rw [hlines]; exact h.bounded, fun j => ?_, fun j => ?_, fun j hj => ?_, fun j hj => ?_,
    fun hnone => absurd (hholder ▸ hnone) (by simp), fun e he => ?_⟩
  · rw [hpackets]
    by_cases hj : j = cur.client
    · subst hj
      obtain ⟨l, hrec, hshort, hplace⟩ := (h.framed cur.client).place
      rw [place_critical hcrit] at hplace
      rw [hself]
      refine ⟨hfits, l, by rw [hstream.1, hstream.2, hrec], hshort, ?_⟩
      rw [place_critical hphase.critical]
      exact hplace
    · rw [hother j hj]
      obtain ⟨hf, l, hrec, hshort, hplace⟩ := h.framed j
      refine ⟨hf, l, hrec, hshort, ?_⟩
      rw [show Refused s' j = Refused s j from propext (hrefused j)]
      exact hplace
  · rw [hsent]
    by_cases hj : j = cur.client
    · subst hj
      rw [hself, hout, h.outbox, if_pos rfl]
    · rw [hother j hj, h.outbox, if_neg hj, List.append_nil]
  · rw [hrefused] at hj
    have hends := h.ends j hj
    by_cases hjc : j = cur.client
    · subst hjc
      rcases hends with he | he <;> rw [he] at hcrit <;> cases hcrit
    · rw [hother j hjc]
      exact hends
  · by_cases hjc : j = cur.client
    · exact ⟨cur', hholder, by rw [hsession, hjc]⟩
    · rw [hother j hjc] at hj
      exact absurd (h.holder_of_critical hcur hj) hjc
  · rw [hholder, Option.some.injEq] at he
    have hec : e.client = cur.client := by rw [← he, hsession]
    rw [hlines, hec, hself, ← he]
    exact hphase

/-- The holder goes on at `pc`, having sent nothing. -/
theorem Good.move {cur : Session ι} (hcur : s.holder = some cur) (pc : Pc) (log : Option LogFile)
    {d : AesdDev} (howned : Owned d)
    (hphase : Phase (lines s) cur d log { s.client cur.client with pc }) :
    Good { s.goto cur.client pc with dev := d, log } :=
  h.inside hcur [] rfl rfl h.sane hcur (by rw [List.append_nil]) ⟨rfl, rfl⟩
    (List.append_nil _).symm (h.framed cur.client).fits howned hphase

/-! ### The steps outside the mutex -/

/-- A thread of which no seek was refused. -/
theorem Good.not_refused {i : ι} (hpc : (s.client i).pc ≠ .returned false)
    (hpc' : (s.client i).pc ≠ .ended) : ¬ Refused s i :=
  fun hr => (h.ends i hr).elim hpc hpc'

theorem good_recv {i : ι} (hpc : (s.client i).pc = .recv) {received : Option Bytes} {s' : State ι}
    (hs : s.recv i received = some s') : Good s' := by
  obtain ⟨hfits, l, hrec, hshort, hplace⟩ := h.framed i
  have hno : ¬ Refused s i := h.not_refused (by rw [hpc]; simp) (by rw [hpc]; simp)
  simp only [Place, hpc] at hplace
  obtain ⟨htodo, hopen, hps⟩ := hplace
  have hend : Good (s.goto i .ended) := by
    refine h.outside (by rw [hpc]; rfl) rfl rfl ⟨hfits, l, hrec, hshort, hps, Or.inl htodo⟩ ?_
    exact fun hr => absurd hr hno
  unfold State.recv at hs
  rcases received with _ | _ | ⟨a, buffer⟩
  · exact (Option.some.inj hs) ▸ hend
  · exact (Option.some.inj hs) ▸ hend
  · simp only at hs
    split_ifs at hs with hle
    have hu : (a :: buffer).take (u16 (a :: buffer).length) = a :: buffer := by
      rw [u16_received hle, List.take_length]
    rw [hu, Option.some.injEq] at hs
    rw [← hs]
    refine h.outside (by rw [hpc]; rfl) rfl rfl ⟨hfits, l, ?_, hshort, hopen, hps⟩ ?_
    · show (s.client i).received ++ a :: buffer = l ++ a :: buffer
      rw [hrec, htodo, List.append_nil]
    · exact fun hr => absurd hr hno

theorem good_byte {i : ι} (hpc : (s.client i).pc = .bytes) {alloc : Outcome UInt8}
    {verdict : Option Seekto} (ho : alloc.isOk = true) {s' : State ι}
    (hs : s.byte i alloc verdict = some s') : Good s' := by
  obtain ⟨hfits, l, hrec, hshort, hplace⟩ := h.framed i
  have hno : ¬ Refused s i := h.not_refused (by rw [hpc]; simp) (by rw [hpc]; simp)
  simp only [Place, hpc] at hplace
  obtain ⟨hopen, hps⟩ := hplace
  have hasm : Assembles (s.client i).buf l := ⟨hfits, hopen, hshort⟩
  unfold State.byte at hs
  rcases htodo : (s.client i).todo with _ | ⟨a, todo⟩
  · simp [htodo] at hs
  rw [htodo] at hrec
  simp only [htodo] at hs
  by_cases hmax : maxPacketSize ≤ (s.client i).buf.packetIndex
  · rw [ensurePacketCapacity_full hmax] at hs
    rw [← Option.some.inj hs]
    have hlimit : maxPacketSize ≤ (rest isNewline l).length := by rw [hasm.length_rest]; exact hmax
    refine h.outside (by rw [hpc]; rfl) rfl rfl
      ⟨hfits, l, hrec, hshort, hps, Or.inr (Or.inr ⟨by simp, hlimit⟩)⟩ ?_
    exact fun hr => absurd hr hno
  obtain ⟨b₁, b₂, hcap, hstore, hbyte⟩ := hasm.takes_byte ho (not_le.mp hmax) a
  simp only [hcap, hstore] at hs
  rw [← Option.some.inj hs]
  have hrec' : (s.client i).received = l ++ [a] ++ todo := by rw [hrec]; simp
  by_cases ha : a = newline
  · have hp : isNewline a = true := by simp [ha]
    rw [if_pos ha]
    refine h.outside (by rw [hpc]; rfl) rfl rfl
      ⟨hbyte.fits, l ++ [a], hrec', hbyte.short hp hshort, rest_concat_pos hp l, ?_⟩ ?_
    · rw [blocks_concat_pos hp, ← hbyte.pending, hps]
      rfl
    · exact fun hr => absurd hr hno
  · have hp : isNewline a = false := by simp [ha]
    rw [if_neg ha]
    have hnext := hbyte.continues hp hshort
    refine h.outside (by rw [hpc]; rfl) rfl rfl
      ⟨hbyte.fits, l ++ [a], hrec', hnext.short, hnext.pending, ?_⟩ ?_
    · rw [blocks_concat_neg hp, hps]
    · exact fun hr => absurd hr hno

theorem good_chunkEnd {i : ι} (hpc : (s.client i).pc = .bytes) (htodo : (s.client i).todo = [])
    (running : Bool) : Good (s.goto i (if running = true then .recv else .ended)) := by
  obtain ⟨hfits, l, hrec, hshort, hplace⟩ := h.framed i
  have hno : ¬ Refused s i := h.not_refused (by rw [hpc]; simp) (by rw [hpc]; simp)
  simp only [Place, hpc] at hplace
  obtain ⟨hopen, hps⟩ := hplace
  cases running with
  | true =>
    refine h.outside (by rw [hpc]; rfl) rfl rfl
      ⟨hfits, l, hrec, hshort, htodo, hopen, hps⟩ (fun hr => absurd hr hno)
  | false =>
    refine h.outside (by rw [hpc]; rfl) rfl rfl
      ⟨hfits, l, hrec, hshort, hps, Or.inl htodo⟩ (fun hr => absurd hr hno)

theorem good_back {i : ι} {ret : Bool} (hpc : (s.client i).pc = .returned ret) :
    Good (s.back i ret) := by
  obtain ⟨hfits, l, hrec, hshort, hplace⟩ := h.framed i
  simp only [Place, hpc] at hplace
  obtain ⟨hopen, hps, href⟩ := hplace
  have hfits' : Fits { (s.client i).buf with packetIndex := 0 } :=
    ⟨hfits.doubled, hfits.allocated, Nat.zero_le _, Nat.zero_le _⟩
  cases ret with
  | true =>
    have hno : ¬ Refused s i := h.not_refused (by rw [hpc]; simp) (by rw [hpc]; simp)
    refine h.outside (by rw [hpc]; rfl) rfl rfl ⟨hfits', l, hrec, hshort, ?_, hps⟩
      (fun hr => absurd hr hno)
    rw [hopen]
    rfl
  | false =>
    exact h.outside (by rw [hpc]; rfl) rfl rfl
      ⟨hfits', l, hrec, hshort, hps, Or.inr (Or.inl (href rfl))⟩ (fun _ => Or.inr rfl)

end Good

end Aesd.Server.Serving
