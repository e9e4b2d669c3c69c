import Aesd.Lib.Progress
import Aesd.Server.Failures
import Mathlib.Data.Prod.Lex

/-!
# Every client is served

Nothing a client thread does lasts for ever as long as its calls return. What it has received and not
handled is counted in `clientWork`; under the mutex each call leads on (`rank`), hands over some of the
packet, or brings a byte of the log nearer to the client (`unread`). A thread under the mutex can always
make its next call, and when nobody is there the others can. So whatever the threads do, and whichever
calls fail, if nothing more is received the mutex is given back and each thread waits for more or has ended
(`clients_served`); and when nothing fails all lines received are then answered (`clients_answered`).
-/

namespace Aesd.Server.Progress

open Aesd.Lib.Alloc Aesd.Lib.Blocks Aesd.Lib.Lts Aesd.Lib.Progress
open Aesd.Driver.Ring Aesd.Driver.Device Aesd.Driver.Store Aesd.Driver.Write Aesd.Driver.Read
open Aesd.Driver.Conservation
open Aesd.Server.Packet Aesd.Server.Framing Aesd.Server.Answer Aesd.Server.Clients
open Aesd.Server.Serving Aesd.Server.Failures

/-! ### What is left to do -/

/-- The bytes a thread still has to handle, and where it is with the current one. -/
def clientWork (c : Client) : ℕ :=
  match c.pc with
  | .recv | .ended => 0
  | .bytes => 4 * c.todo.length + 1
  | .returned _ => 4 * c.todo.length + 2
  | .lock _ => 4 * c.todo.length + 4
  | _ => 4 * c.todo.length + 3

/-- The calls of the holder lead on. -/
def rank : Pc → ℕ
  | .fopen _ => 8
  | .write .. => 7
  | .ioctl _ => 6
  | .llseek _ => 5
  | .seekSet _ => 4
  | .read _ | .send .. => 3
  | .seekEnd _ => 2
  | .fclose _ => 1
  | _ => 0

/-- A byte counts three times before it is read ahead, and twice before `fread` takes it. -/
def unread (C : Bytes) : Option LogFile → ℕ
  | none => 0
  | some f => 2 * f.ahead.length +
      if f.stopped = true then 0 else 3 * (C.drop f.fpos.toNat).length + 1

/-- The bytes to be written, or to be read and sent. -/
def bytesLeft (C : Bytes) (log : Option LogFile) : Pc → ℕ
  | .write left _ => left.length
  | .read _ => unread C log
  | .send _ bytesRead total => unread C log + (bytesRead - total)
  | _ => 0

variable {ι : Type*} [DecidableEq ι]

def holderWork (s : State ι) : ℕ ×ₗ ℕ :=
  match s.holder with
  | none => toLex (0, 0)
  | some cur => toLex (rank (s.client cur.client).pc,
      bytesLeft (content s.dev) s.log (s.client cur.client).pc)

def remaining [Fintype ι] (s : State ι) : ℕ ×ₗ ℕ ×ₗ ℕ :=
  toLex (∑ i, clientWork (s.client i), holderWork s)

/-- A call that returns: no more is received, `fopen` succeeds, and so do the writes, which the stream may
otherwise try again. -/
def Prompt : Act → Prop
  | .recv _ => False
  | .fopen ok => ok = true
  | .write _ env => Granted env
  | _ => True

theorem Prompt.tolerated {act : Act} (h : Prompt act) : Tolerated act := by
  cases act <;> first | exact h | exact trivial | exact ⟨h.alloc, h.sem⟩

variable {s s' : State ι} {i : ι} {c : Client}

section Lower

variable [Fintype ι]

omit [DecidableEq ι] in
theorem remaining_of_sum
    (h : ∑ i, clientWork (s'.client i) < ∑ i, clientWork (s.client i)) : remaining s' < remaining s :=
  Prod.Lex.toLex_lt_toLex.mpr (.inl h)

omit [DecidableEq ι] [Fintype ι] in
theorem onLog_some {k : LogFile → Option (State ι)} (hs : s.onLog k = some s')
    (hsane : s'.fault = false) : ∃ f, s.log = some f ∧ k f = some s' := by
  unfold State.onLog at hs
  split at hs
  · rw [← Option.some.inj hs] at hsane
    cases hsane
  · exact ⟨_, ‹_›, hs⟩

theorem remaining_of_client (hc : s'.client = Function.update s.client i c)
    (hw : clientWork c < clientWork (s.client i)) : remaining s' < remaining s := by
  have hsum := sum_update s.client clientWork (Finset.mem_univ i) c
  refine remaining_of_sum ?_
  rw [hc]
  omega

theorem remaining_of_holder {cur cur' : Session ι} (hcur : s.holder = some cur)
    (hcur' : s'.holder = some cur') (hid : cur'.client = cur.client)
    (hc : s'.client = Function.update s.client cur.client c)
    (hw : clientWork c = clientWork (s.client cur.client))
    (hlt : rank c.pc < rank (s.client cur.client).pc ∨ rank c.pc = rank (s.client cur.client).pc ∧
      bytesLeft (content s'.dev) s'.log c.pc <
        bytesLeft (content s.dev) s.log (s.client cur.client).pc) : remaining s' < remaining s := by
  have hsum := sum_update s.client clientWork (Finset.mem_univ cur.client) c
  have hself : s'.client cur'.client = c := by rw [hc, hid, Function.update_self]
  refine Prod.Lex.toLex_lt_toLex.mpr (.inr ⟨?_, ?_⟩)
  · rw [hc]
    omega
  · unfold holderWork
    rw [hcur, hcur']
    simp only [hself]
    exact Prod.Lex.toLex_lt_toLex.mpr hlt

omit [DecidableEq ι] [Fintype ι] in
theorem clientWork_critical (h : critical c.pc = true) : clientWork c = 4 * c.todo.length + 3 := by
  unfold critical at h
  unfold clientWork
  cases hpc : c.pc <;> simp_all

/-- The holder goes on at a place that is further on. -/
theorem remaining_goto {cur : Session ι} (hcur : s.holder = some cur) {pc : Pc} {d : AesdDev}
    {log : Option LogFile} (hin : critical (s.client cur.client).pc = true) (hin' : critical pc = true)
    (hlt : rank pc < rank (s.client cur.client).pc) :
    remaining { s.goto cur.client pc with dev := d, log } < remaining s := by
  refine remaining_of_holder hcur hcur rfl rfl ?_ (.inl hlt)
  rw [clientWork_critical hin', clientWork_critical hin]

section Held
variable {S : Bytes} (h : Held S s)
include h

theorem remaining_write {left : Bytes} {failed : Bool} (hpc : (s.client i).pc = .write left failed)
    {count : ℕ} {env : WriteEnv} (henv : Granted env) (hs : s.write i left count env = some s') :
    remaining s' < remaining s := by
  obtain ⟨cur, hcur, rfl⟩ := h.exclusive i (by rw [hpc]; rfl)
  obtain ⟨w, hview, hw, hstage⟩ := h.phase cur hcur
  simp only [Stage, hpc] at hstage
  obtain ⟨f, hf⟩ := Option.isSome_iff_exists.mp hstage.2.1
  simp only [State.write, State.onLog, hf] at hs
  split_ifs at hs with hcount
  have hlen : (left.take count).length = count := by rw [List.length_take, min_eq_left hcount.2]
  obtain ⟨d', hwrite, -, -⟩ := aesdWrite_refines h.owned (left.take count) env
  have hr : ((view s.dev).write (left.take count) env).1 = count := by
    unfold LineStore.write
    have hpos : count ≠ 0 := by omega
    simp [hlen, hpos, henv.mutex, henv.alloc, henv.copy, henv.sem]
  simp only [hwrite, hr, Int.toNat_natCast] at hs
  rw [← Option.some.inj hs]
  refine remaining_of_holder hcur hcur rfl rfl ?_ (.inr ⟨?_, ?_⟩)
  · rw [clientWork_critical rfl, clientWork_critical (by rw [hpc]; rfl)]
  · rw [hpc]
    rfl
  · rw [hpc]
    simp only [bytesLeft, List.length_drop]
    omega

theorem remaining_fill {ret : Bool} (hpc : (s.client i).pc = .read ret) {count : ℕ} {env : ReadEnv}
    (hs : s.fill count env = some s') : remaining s' < remaining s := by
  obtain ⟨cur, hcur, rfl⟩ := h.exclusive i (by rw [hpc]; rfl)
  obtain ⟨w, hview, hw, hstage⟩ := h.phase cur hcur
  simp only [Stage, hpc] at hstage
  obtain ⟨f, -, -, hf, -⟩ := hstage
  simp only [State.fill, State.onLog, hf] at hs
  split_ifs at hs with hcount
  obtain ⟨r, pos', u, hread, hr⟩ := aesdRead_sound h.owned env f.fpos.toNat
    (show count ≤ (List.replicate count (0 : UInt8)).length by simp)
  simp only [hread] at hs
  rw [← Option.some.inj hs]
  refine remaining_of_holder hcur hcur rfl (Function.update_eq_self _ _).symm rfl (.inr ⟨rfl, ?_⟩)
  rw [hpc, hf]
  simp only [bytesLeft, unread, hcount.2, List.length_append, List.length_take]
  by_cases hend : r ≤ 0
  · rw [Int.toNat_of_nonpos hend]
    simp [hend]
  · obtain ⟨hlen, rfl, hu⟩ := hr.resolve_left (by omega)
    have hle := hu.length_le
    rw [List.length_take] at hlen hle
    simp only [List.length_drop, decide_eq_true_eq, if_neg hend, Bool.false_eq_true, if_false,
      Int.toNat_natCast] at hle ⊢
    omega

theorem remaining_fread {ret : Bool} (hpc : (s.client i).pc = .read ret) {n : ℕ}
    (hs : s.fread i ret n = some s') : remaining s' < remaining s := by
  obtain ⟨cur, hcur, rfl⟩ := h.exclusive i (by rw [hpc]; rfl)
  obtain ⟨w, hview, hw, hstage⟩ := h.phase cur hcur
  simp only [Stage, hpc] at hstage
  obtain ⟨f, -, -, hf, -⟩ := hstage
  have hin : critical (s.client cur.client).pc = true := by rw [hpc]; rfl
  simp only [State.fread, State.onLog, hf] at hs
  split_ifs at hs with hn hend hle
  · rw [← Option.some.inj hs]
    exact remaining_goto hcur hin rfl (by rw [hpc]; exact Nat.lt_succ_self 2)
  · rw [← Option.some.inj hs]
    refine remaining_of_holder hcur hcur rfl rfl ?_ (.inr ⟨?_, ?_⟩)
    · rw [clientWork_critical rfl, clientWork_critical hin]
    · rw [hpc]
      rfl
    · rw [hpc, hf]
      have hlen : (f.ahead.drop n).length = f.ahead.length - n := List.length_drop
      show unread (content s.dev) (some { f with ahead := f.ahead.drop n }) + (n - 0) <
        unread (content s.dev) (some f)
      simp only [unread, hlen]
      omega

theorem remaining_send {ret : Bool} {bytesRead total : ℕ}
    (hpc : (s.client i).pc = .send ret bytesRead total) {sent : Option ℕ}
    (hs : s.send i ret bytesRead total sent = some s') : remaining s' < remaining s := by
  obtain ⟨cur, hcur, rfl⟩ := h.exclusive i (by rw [hpc]; rfl)
  obtain ⟨w, hview, hw, hstage⟩ := h.phase cur hcur
  simp only [Stage, hpc] at hstage
  obtain ⟨hlt, -, -⟩ := hstage
  have hin : critical (s.client cur.client).pc = true := by rw [hpc]; rfl
  rcases sent with _ | k
  · rw [← Option.some.inj hs]
    refine remaining_of_holder hcur hcur rfl rfl ?_ (.inr ⟨?_, ?_⟩)
    · rw [clientWork_critical rfl, clientWork_critical hin]
    · rw [hpc]
      rfl
    · rw [hpc]
      show unread (content s.dev) s.log < unread (content s.dev) s.log + (bytesRead - total)
      omega
  simp only [State.send, hcur, Option.map_some] at hs
  split_ifs at hs with hk hmore
  · rw [← Option.some.inj hs]
    refine remaining_of_holder hcur rfl rfl rfl ?_ (.inr ⟨?_, ?_⟩)
    · rw [clientWork_critical rfl, clientWork_critical hin]
    · rw [hpc]
      rfl
    · rw [hpc]
      show unread (content s.dev) s.log + (bytesRead - (total + k)) <
        unread (content s.dev) s.log + (bytesRead - total)
      omega
  · rw [← Option.some.inj hs]
    refine remaining_of_holder hcur rfl rfl rfl ?_ (.inr ⟨?_, ?_⟩)
    · rw [clientWork_critical rfl, clientWork_critical hin]
    · rw [hpc]
      rfl
    · rw [hpc]
      show unread (content s.dev) s.log < unread (content s.dev) s.log + (bytesRead - total)
      omega

omit h in
theorem remaining_byte (hpc : (s.client i).pc = .bytes) {alloc : Outcome UInt8}
    {verdict : Option Seekto} (hs : s.byte i alloc verdict = some s') (hsane : s'.fault = false) :
    remaining s' < remaining s := by
  unfold State.byte at hs
  rcases htodo : (s.client i).todo with _ | ⟨a, todo⟩
  · simp [htodo] at hs
  have hwork : clientWork (s.client i) = 4 * (todo.length + 1) + 1 := by
    simp [clientWork, hpc, htodo]
  simp only [htodo] at hs
  rcases hcap : ensurePacketCapacity (s.client i).buf alloc with ⟨_ | _, buf⟩ <;>
    simp only [hcap] at hs
  · rw [← Option.some.inj hs]
    exact remaining_of_client rfl (by rw [hwork]; exact Nat.succ_pos _)
  rcases hstore : storeByte buf a with _ | buf' <;> simp only [hstore] at hs
  · rw [← Option.some.inj hs] at hsane
    cases hsane
  rw [← Option.some.inj hs]
  refine remaining_of_client rfl ?_
  rw [hwork]
  split_ifs
  · show 4 * todo.length + 4 < _
    omega
  · show 4 * todo.length + 1 < _
    omega

/-- **Every step leaves less to do.** -/
theorem remaining_step {a : ι × Act} (ha : Prompt a.2) (hs : step s a = some s') :
    remaining s' < remaining s := by
  obtain ⟨_, h'⟩ := held_step h ha.tolerated hs
  have hsane := h'.sane
  obtain ⟨i, act⟩ := a
  -- the steps of the holder that only go on
  have hgoto : ∀ {pc : Pc} {d : AesdDev} {log : Option LogFile},
      critical (s.client i).pc = true → critical pc = true → rank pc < rank (s.client i).pc →
        remaining { s.goto i pc with dev := d, log } < remaining s := by
    intro pc d log hin hin' hlt
    obtain ⟨cur, hcur, rfl⟩ := h.exclusive i hin
    exact remaining_goto hcur hin hin' hlt
  simp only [step, h.sane, Bool.false_eq_true, if_false] at hs
  cases hpc : (s.client i).pc <;> cases act <;> simp only [hpc, reduceCtorEq] at hs
  case recv.recv => exact ha.elim
  case bytes.byte => exact remaining_byte hpc hs hsane
  case bytes.chunkEnd running =>
    by_cases htodo : (s.client i).todo = []
    swap
    · rw [if_neg htodo] at hs
      cases hs
    rw [if_pos htodo] at hs
    rw [← Option.some.inj hs]
    refine remaining_of_client rfl ?_
    cases running <;> simp [clientWork, hpc]
  case lock.lock =>
    unfold State.lock at hs
    split at hs
    · cases hs
    · rw [← Option.some.inj hs]
      refine remaining_of_client rfl ?_
      simp [clientWork, hpc]
  case fopen.fopen verdict ok =>
    rw [← Option.some.inj hs]
    cases verdict <;> exact hgoto (by rw [hpc]; rfl) rfl (by simp [hpc, rank])
  case write.write => exact remaining_write h hpc ha hs
  case write.fflush =>
    obtain ⟨f, -, hk⟩ := onLog_some hs hsane
    split_ifs at hk
    rw [← Option.some.inj hk]
    exact hgoto (by rw [hpc]; rfl) rfl (by simp [hpc, rank])
  case ioctl.ioctl =>
    obtain ⟨f, -, hk⟩ := onLog_some hs hsane
    split at hk
    · rw [← Option.some.inj hk]
      unfold State.ioctlReturned
      split_ifs <;> exact hgoto (by rw [hpc]; rfl) rfl (by simp [hpc, rank])
    · rw [← Option.some.inj hk]
      exact hgoto (by rw [hpc]; rfl) rfl (by simp [hpc, rank])
  case llseek.fseek =>
    obtain ⟨f, -, hk⟩ := onLog_some hs hsane
    rw [← Option.some.inj hk]
    unfold State.ioctlReturned
    split_ifs <;> exact hgoto (by rw [hpc]; rfl) rfl (by simp [hpc, rank])
  case seekSet.fseek =>
    obtain ⟨f, -, hk⟩ := onLog_some hs hsane
    dsimp only at hk
    split_ifs at hk <;> rw [← Option.some.inj hk] <;>
      exact hgoto (by rw [hpc]; rfl) rfl (by simp [hpc, rank])
  case read.fill => exact remaining_fill h hpc hs
  case read.fread => exact remaining_fread h hpc hs
  case send.send => exact remaining_send h hpc hs
  case seekEnd.fseek =>
    obtain ⟨f, -, hk⟩ := onLog_some hs hsane
    rw [← Option.some.inj hk]
    exact hgoto (by rw [hpc]; rfl) rfl (by simp [hpc, rank])
  case fclose.fclose =>
    rw [← Option.some.inj hs]
    exact hgoto (by rw [hpc]; rfl) rfl (by simp [hpc, rank])
  case unlock.unlock =>
    rw [← Option.some.inj hs]
    refine remaining_of_client rfl ?_
    simp [clientWork, hpc]
  case returned.back ret =>
    rw [← Option.some.inj hs]
    refine remaining_of_client rfl ?_
    cases ret <;> simp [clientWork, hpc]

end Held

end Lower

/-! ### Someone can go on -/

section Held
variable {S : Bytes} (h : Held S s)
include h

/-- The thread under the mutex can make its next call, and the call may come out well. -/
theorem holder_goes_on {cur : Session ι} (hcur : s.holder = some cur) :
    ∃ act s', (Prompt act ∧ Smooth act) ∧ step s (cur.client, act) = some s' := by
  obtain ⟨w, hview, hw, hstage⟩ := h.phase cur hcur
  have hsane := h.sane
  cases hpc : (s.client cur.client).pc <;> simp only [Stage, hpc] at hstage
  case fopen => exact ⟨.fopen true, _, ⟨rfl, rfl⟩, by simp only [step, hsane, hpc]; rfl⟩
  case write left failed =>
    obtain ⟨f, hf⟩ := Option.isSome_iff_exists.mp hstage.2.1
    by_cases hleft : left = []
    · refine ⟨.fflush, s.goto cur.client (.seekSet 0), ⟨trivial, trivial⟩, ?_⟩
      simp [step, hsane, hpc, State.onLog, hf, hleft]
    · obtain ⟨d', hwrite, -⟩ := aesdWrite_refines h.owned (left.take left.length) EndToEnd.writeEnv
      have hcount : 1 ≤ left.length ∧ left.length ≤ left.length :=
        ⟨List.length_pos_iff.mpr hleft, le_rfl⟩
      have henv : Granted EndToEnd.writeEnv := ⟨rfl, rfl, rfl, rfl⟩
      refine ⟨.write left.length EndToEnd.writeEnv, ?_⟩
      simp only [step, hsane, hpc, State.write, State.onLog, hf, if_pos hcount, hwrite]
      exact ⟨_, ⟨henv, henv⟩, rfl⟩
  case ioctl seekto =>
    obtain ⟨f, hf⟩ := Option.isSome_iff_exists.mp hstage.1
    refine ⟨.ioctl false false, ?_⟩
    simp only [step, hsane, hpc, State.ioctl, State.onLog, hf]
    rcases ioctlLookup s.dev.buffer ⟨false, false, false⟩ aesdcharIocseekto seekto with r | pos
    · exact ⟨_, ⟨trivial, rfl, rfl⟩, rfl⟩
    · exact ⟨_, ⟨trivial, rfl, rfl⟩, rfl⟩
  case llseek =>
    obtain ⟨f, hf⟩ := Option.isSome_iff_exists.mp hstage.1
    refine ⟨.fseek false, ?_⟩
    simp only [step, hsane, hpc, State.llseek, State.onLog, hf]
    exact ⟨_, ⟨trivial, rfl⟩, rfl⟩
  case seekSet pos =>
    obtain ⟨f, hf⟩ := Option.isSome_iff_exists.mp hstage.1
    refine ⟨.fseek false, ?_⟩
    simp only [step, hsane, hpc, State.seekSet, State.onLog, hf]
    by_cases hneg : (aesdLlseek s.dev.buffer false f.fpos pos Aesd.Driver.Device.seekSet).1 < 0
    · exact ⟨_, ⟨trivial, rfl⟩, if_pos hneg⟩
    · exact ⟨_, ⟨trivial, rfl⟩, if_neg hneg⟩
  case read ret =>
    obtain ⟨f, -, -, hf, -⟩ := hstage
    by_cases hahead : f.ahead = []
    · by_cases hstop : f.stopped = true
      · refine ⟨.fread 0, s.goto cur.client (.seekEnd ret), ⟨trivial, trivial⟩, ?_⟩
        simp [step, hsane, hpc, State.fread, State.onLog, hf, hahead, hstop]
      · obtain ⟨r, pos, u, hread, -⟩ := aesdRead_sound h.owned EndToEnd.readEnv f.fpos.toNat
          (show 1 ≤ (List.replicate 1 (0 : UInt8)).length by simp)
        have hcount : 1 ≤ 1 ∧ f.stopped = false := ⟨le_rfl, by simpa using hstop⟩
        refine ⟨.fill 1 EndToEnd.readEnv, ?_⟩
        simp only [step, hsane, hpc, State.fill, State.onLog, hf, if_pos hcount, hread]
        exact ⟨_, ⟨trivial, rfl, fun _ => rfl⟩, rfl⟩
    · -- there is room for a byte in the packet buffer
      obtain ⟨k, -, hk⟩ := (h.framed cur.client).fits.doubled
      have hroom : 1 ≤ f.ahead.length ∧ 1 ≤ (s.client cur.client).buf.packetSize :=
        ⟨List.length_pos_iff.mpr hahead, by rw [hk]; exact Nat.succ_le_of_lt (by positivity)⟩
      refine ⟨.fread 1, ?_⟩
      simp only [step, hsane, hpc, State.fread, State.onLog, hf, if_neg one_ne_zero, if_pos hroom]
      exact ⟨_, ⟨trivial, trivial⟩, rfl⟩
  case send ret bytesRead total =>
    have hone : 1 ≤ 1 ∧ total + 1 ≤ bytesRead := ⟨le_rfl, hstage.1⟩
    refine ⟨.send (some 1), ?_⟩
    simp only [step, hsane, hpc, State.send, if_pos hone]
    exact ⟨_, ⟨trivial, Option.some_ne_none 1⟩, rfl⟩
  case seekEnd =>
    obtain ⟨f, hf⟩ := Option.isSome_iff_exists.mp hstage.1
    refine ⟨.fseek false, ?_⟩
    simp only [step, hsane, hpc, State.seekEnd, State.onLog, hf]
    exact ⟨_, ⟨trivial, rfl⟩, rfl⟩
  case fclose => exact ⟨.fclose, _, ⟨trivial, trivial⟩, by simp only [step, hsane, hpc]; rfl⟩
  case unlock => exact ⟨.unlock, _, ⟨trivial, trivial⟩, by simp only [step, hsane, hpc]; rfl⟩

theorem client_goes_on (hfree : s.holder = none) (hrecv : (s.client i).pc ≠ .recv)
    (hended : (s.client i).pc ≠ .ended) :
    ∃ act s', (Prompt act ∧ Smooth act) ∧ step s (i, act) = some s' := by
  have hsane := h.sane
  have hout : critical (s.client i).pc = false := by
    by_contra hin
    obtain ⟨cur, hcur, -⟩ := h.exclusive i (by simpa using hin)
    rw [hfree] at hcur
    cases hcur
  cases hpc : (s.client i).pc <;> rw [hpc] at hout <;> try cases hout
  case recv => exact absurd hpc hrecv
  case ended => exact absurd hpc hended
  case bytes =>
    rcases htodo : (s.client i).todo with _ | ⟨a, todo⟩
    · refine ⟨.chunkEnd true, s.goto i .recv, ⟨trivial, trivial⟩, ?_⟩
      simp [step, hsane, hpc, htodo]
    · refine ⟨.byte (.ok false fun _ => 0) none, ?_⟩
      simp only [step, hsane, hpc, State.byte, htodo]
      rcases ensurePacketCapacity (s.client i).buf (.ok false fun _ => 0) with ⟨_ | _, buf⟩
      · exact ⟨_, ⟨trivial, rfl⟩, rfl⟩
      · rcases hstore : storeByte buf a with _ | buf'
        · exact ⟨_, ⟨trivial, rfl⟩, by simp only [hstore]; rfl⟩
        · exact ⟨_, ⟨trivial, rfl⟩, by simp only [hstore]; rfl⟩
  case lock =>
    refine ⟨.lock, ?_⟩
    simp only [step, hsane, hpc, State.lock, hfree]
    exact ⟨_, ⟨trivial, trivial⟩, rfl⟩
  case returned => exact ⟨.back, _, ⟨trivial, trivial⟩, by simp only [step, hsane, hpc]; rfl⟩

end Held

/-- The mutex is free, and every thread waits for more to receive or has ended. -/
def Quiet (s : State ι) : Prop :=
  s.holder = none ∧ ∀ i, (s.client i).pc = .recv ∨ (s.client i).pc = .ended

theorem goes_on {S : Bytes} (h : Held S s) (hq : ¬ Quiet s) :
    ∃ a s', (Prompt a.2 ∧ Smooth a.2) ∧ step s a = some s' := by
  rcases hfree : s.holder with _ | cur
  · have hex : ∃ i, ¬ ((s.client i).pc = .recv ∨ (s.client i).pc = .ended) := by
      by_contra hno
      exact hq ⟨hfree, fun i => not_not.mp fun hi => hno ⟨i, hi⟩⟩
    obtain ⟨i, hi⟩ := hex
    obtain ⟨act, s', hact, hs⟩ :=
      client_goes_on h hfree (fun he => hi (.inl he)) (fun he => hi (.inr he))
    exact ⟨(i, act), s', hact, hs⟩
  · obtain ⟨act, s', hact, hs⟩ := holder_goes_on h hfree
    exact ⟨(cur.client, act), s', hact, hs⟩

theorem held_inevitable [Finite ι] {S : Bytes} (h : Held S s) :
    Inevitable step (fun a => Prompt a.2) (fun a => Prompt a.2 ∧ Smooth a.2) Quiet s := by
  have := Fintype.ofFinite ι
  refine inevitable_of_measure (P := fun s => ∃ S, Held S s) remaining ?_ ?_ ?_ ⟨S, h⟩
  · exact fun s a s' ⟨_, hs⟩ ha hstep => held_step hs ha.tolerated hstep
  · exact fun s a s' ⟨_, hs⟩ ha hstep => remaining_step hs ha hstep
  · exact fun s ⟨_, hs⟩ hq => goes_on hs hq

theorem tolerated_of_smooth {act : Act} (h : Smooth act) : Tolerated act := by
  cases act <;> first | exact trivial | exact h | exact ⟨h.alloc, h.sem⟩

/-- **Every client is served.** After any run, whatever failed in it that may, the threads finish with what
they received in whichever order they go on and whichever of their calls fail (`Prompt`). -/
theorem clients_served [Finite ι] {s₀ s : State ι} (h₀ : Init s₀) {as : List (ι × Act)}
    (ha : ∀ a ∈ as, Tolerated a.2) (hr : run step s₀ as = some s) :
    Inevitable step (fun a => Prompt a.2) (fun a => Prompt a.2 ∧ Smooth a.2) Quiet s := by
  obtain ⟨S, h⟩ : ∃ S, Held S s :=
    Meets.invariant (P := fun s => ∃ S, Held S s)
      (fun _ _ _ ⟨_, h⟩ ha hs => held_step h ha hs) ⟨[], held_init h₀⟩ (Meets.of_forall ha) hr
  exact held_inevitable h

theorem clients_served_line : ∃ as s, run step EndToEnd.start as = some s ∧
    s.holder = some ⟨0, [97, newline], none, []⟩ ∧
      Inevitable step (fun a => Prompt a.2) (fun a => Prompt a.2 ∧ Smooth a.2) Quiet s := by
  obtain ⟨as, s, hall, hrun, -, hcur, -⟩ := EndToEnd.run_start_line
  exact ⟨as, s, hrun, hcur,
    clients_served EndToEnd.init_start (fun a ha => tolerated_of_smooth (hall a ha)) hrun⟩

/-! ### When nothing fails -/

/-- The lines received within the limit are answered, in each stream up to a refusal. -/
structure Served (s : State ι) : Prop where
  quiet : Quiet s
  answers : s.done.map outcome = (serve [] (s.done.map fun e => request e.1)).2
  outbox : ∀ i, (s.client i).outbox = sentTo s i
  lines : ∀ i, (∀ p ∈ blocks isNewline (s.client i).received ++
      [rest isNewline (s.client i).received], p.length ≤ maxPacketSize) →
    Refused s i ∨ packetsOf s i = blocks isNewline (s.client i).received

/-- **Every line is answered.** When no call fails and nothing more is received, all lines received before
are answered in the end, as `serve` says. -/
theorem clients_answered [Finite ι] {s₀ s : State ι} (h₀ : Init s₀) {as : List (ι × Act)}
    (ha : ∀ a ∈ as, Smooth a.2) (hr : run step s₀ as = some s) :
    Inevitable step (fun a => Prompt a.2 ∧ Smooth a.2) (fun a => Prompt a.2 ∧ Smooth a.2) Served s := by
  have h := clients_served h₀ (fun a hm => tolerated_of_smooth (ha a hm)) hr
  have hgood : Serving.Good s :=
    Meets.invariant (fun s a s' hs ha hstep => Refinement.good_step s a s' hs ha hstep)
      (good_init h₀) (Meets.of_forall ha) hr
  refine h.mono hgood (fun s a s' hs ha hstep => Refinement.good_step s a s' hs ha.2 hstep)
    (fun a ha => ha.1) (fun a ha => ha) fun s hs hq => ?_
  exact
    { quiet := hq
      answers := hs.answered
      outbox := hs.outbox
      lines := fun i => EndToEnd.packetsOf_complete hs (hq.2 i) }

/-- The line `"a\n"` is under way. -/
theorem clients_answered_line : ∃ as s, run step EndToEnd.start as = some s ∧
    s.holder = some ⟨0, [97, newline], none, []⟩ ∧ Inevitable step (fun a => Prompt a.2 ∧ Smooth a.2)
      (fun a => Prompt a.2 ∧ Smooth a.2) Served s := by
  obtain ⟨as, s, hall, hrun, -, hcur, -⟩ := EndToEnd.run_start_line
  exact ⟨as, s, hrun, hcur, clients_answered EndToEnd.init_start hall hrun⟩

end Aesd.Server.Progress
