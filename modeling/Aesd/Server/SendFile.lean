import Aesd.Lib.Concat
import Aesd.Driver.Device

/-!
# Sending the log

`send_file` of `aesdsocket_client.c`: the log is read block by block, and each block is sent by as many
calls of `send` as it takes. A call that returns `-1` ends the loop over the block and not the loop over
the log, so the blocks after it are sent, too. What the socket takes is a beginning of the log exactly
if nothing of a later block is taken after such a block (`sendFile_holeFree_iff`); equal bytes could
hide a hole, so the log is also sent with every byte marked with its place, or with any contents.
-/

namespace Aesd.Server.SendFile

open Aesd.Lib.Concat
open Aesd.Driver.Device

variable {α β : Type*}

/-- What the C library and the kernel decide in `send_file`. The two `fseek`s succeed or not. The `b`-th
`fread` delivers `k + 1` bytes for `some k`, or what is left of the log and fits the buffer, and none
for `none`, on an error. The `j`-th `send` for that block takes `k + 1` bytes for `some k`, or what is
left of the block, and returns `-1` for `none`. -/
structure SendEnv where
  seekStart : Bool
  seekEnd : Bool
  fread : ℕ → Option ℕ
  send : ℕ → ℕ → Option ℕ

/-- The loop over a block, with the outcomes of its calls of `send`: whether none of them was `-1`, and
what the socket took. -/
def sendBlock (send : ℕ → Option ℕ) (left : List α) : Bool × List α :=
  if _h : 0 < left.length then
    match send 0 with
    | none => (false, [])
    | some k =>
      let r := sendBlock (fun j => send (j + 1)) (left.drop (k + 1))
      (r.1, left.take (k + 1) ++ r.2)
  else (true, [])
  termination_by left.length
  decreasing_by
    rw [List.length_drop]
    omega

/-- How many bytes `fread` delivers when `left` are left. -/
def blockLength (bufferSize left : ℕ) : Option ℕ → ℕ
  | none => 0
  | some k => min (k + 1) (min bufferSize left)

theorem blockLength_le (bufferSize left : ℕ) (o : Option ℕ) :
    blockLength bufferSize left o ≤ min bufferSize left := by
  unfold blockLength
  split <;> omega

/-- The loop over the log from its round `b` on, `file` being what is left of it: `ret_val`, and what
the socket took. -/
def sendLoop (bufferSize : ℕ) (env : SendEnv) (b : ℕ) (file : List α) : Bool × List α :=
  let bytesRead := blockLength bufferSize file.length (env.fread b)
  if _h : 0 < bytesRead then
    let r := sendBlock (env.send b) (file.take bytesRead)
    let rs := sendLoop bufferSize env (b + 1) (file.drop bytesRead)
    (r.1 && rs.1, r.2 ++ rs.2)
  else (true, [])
  termination_by file.length
  decreasing_by
    have := blockLength_le bufferSize file.length (env.fread b)
    rw [List.length_drop]
    omega

/-- `send_file`, `file` being the log from `seek_pos` on: whether it returns `EXIT_SUCCESS`, and what the
socket took. -/
def sendFile (bufferSize : ℕ) (env : SendEnv) (file : List α) : Bool × List α :=
  if env.seekStart then
    let r := sendLoop bufferSize env 0 file
    (r.1 && env.seekEnd, r.2)
  else (false, [])

/-! ### One block -/

/-- The bytes that the first `j` calls of `send` may take. -/
def taken (send : ℕ → Option ℕ) (j : ℕ) : ℕ :=
  ((List.range j).map fun i => (send i).elim 0 (· + 1)).sum

/-- A call of `send` for a block of `size` bytes returns `-1`. -/
def Interrupted (send : ℕ → Option ℕ) (size : ℕ) : Prop :=
  ∃ j, send j = none ∧ (∀ i < j, send i ≠ none) ∧ taken send j < size

theorem taken_succ {send : ℕ → Option ℕ} {k : ℕ} (h : send 0 = some k) (j : ℕ) :
    taken send (j + 1) = k + 1 + taken (fun i => send (i + 1)) j := by
  unfold taken
  rw [List.range_succ_eq_map, List.map_cons, List.sum_cons, h, List.map_map]
  rfl

theorem interrupted_of_none {send : ℕ → Option ℕ} (h : send 0 = none) {size : ℕ} :
    Interrupted send size ↔ 0 < size := by
  constructor
  · rintro ⟨j, -, -, hj⟩
    omega
  · intro hs
    exact ⟨0, h, by simp, by simpa [taken] using hs⟩

theorem interrupted_of_some {send : ℕ → Option ℕ} {k : ℕ} (h : send 0 = some k) {size : ℕ} :
    Interrupted send size ↔ Interrupted (fun j => send (j + 1)) (size - (k + 1)) := by
  constructor
  · rintro ⟨j, hj, hbefore, hlt⟩
    rcases j with _ | j
    · rw [h] at hj
      cases hj
    · rw [taken_succ h] at hlt
      exact ⟨j, hj, fun i hi => hbefore (i + 1) (by omega), by omega⟩
  · rintro ⟨j, hj, hbefore, hlt⟩
    refine ⟨j + 1, hj, fun i hi => ?_, by rw [taken_succ h]; omega⟩
    rcases i with _ | i
    · rw [h]
      simp
    · exact hbefore i (by omega)

theorem interrupted_zero (send : ℕ → Option ℕ) : ¬ Interrupted send 0 := by
  rintro ⟨j, -, -, hj⟩
  omega

/-- **What becomes of a block**: a beginning of it is taken, all of it unless a call returned `-1`. -/
theorem sendBlock_ok (send : ℕ → Option ℕ) (left : List α) :
    (sendBlock send left).2 <+: left ∧
      ((sendBlock send left).1 = true ↔ ¬ Interrupted send left.length) ∧
      ((sendBlock send left).2 = left ↔ ¬ Interrupted send left.length) := by
  induction hn : left.length using Nat.strong_induction_on generalizing send left with
  | _ n ih =>
    subst hn
    rw [sendBlock]
    split_ifs with hpos
    · rcases h0 : send 0 with _ | k
      · have hint : Interrupted send left.length := (interrupted_of_none h0).mpr hpos
        have hne : ([] : List α) ≠ left := (List.ne_nil_of_length_pos hpos).symm
        exact ⟨List.nil_prefix, by simp [hint], by simp [hint, hne]⟩
      · have hlen : (left.drop (k + 1)).length = left.length - (k + 1) := List.length_drop
        obtain ⟨hpre, hok, hall⟩ :=
          ih _ (by omega) (fun j => send (j + 1)) (left.drop (k + 1)) rfl
        rw [hlen, ← interrupted_of_some h0] at hok hall
        have hsplit := List.take_append_drop (k + 1) left
        refine ⟨?_, hok, Iff.trans ⟨fun h => ?_, fun h => ?_⟩ hall⟩
        · conv_rhs => rw [← hsplit]
          exact (List.prefix_append_right_inj _).mpr hpre
        · exact List.append_cancel_left (h.trans hsplit.symm)
        · dsimp only
          rw [h, hsplit]
    · have hnil : left = [] := List.eq_nil_of_length_eq_zero (by omega)
      simp [hnil, interrupted_zero]

theorem sendBlock_eq_nil (send : ℕ → Option ℕ) {left : List α} (hpos : 0 < left.length) :
    (sendBlock send left).2 = [] ↔ send 0 = none := by
  rw [sendBlock, dif_pos hpos]
  rcases send 0 with _ | k
  · simp
  · have hne : left ≠ [] := List.ne_nil_of_length_pos hpos
    simp [hne]

/-! ### The blocks of the log -/

/-- The lengths of the blocks that `fread` delivers, from its call `b` on, when `left` bytes are left. -/
def blockLengths (bufferSize : ℕ) (fread : ℕ → Option ℕ) (b left : ℕ) : List ℕ :=
  if _h : 0 < blockLength bufferSize left (fread b) then
    blockLength bufferSize left (fread b) ::
      blockLengths bufferSize fread (b + 1) (left - blockLength bufferSize left (fread b))
  else []
  termination_by left
  decreasing_by
    have := blockLength_le bufferSize left (fread b)
    omega

theorem sum_blockLengths_le (bufferSize : ℕ) (fread : ℕ → Option ℕ) (b left : ℕ) :
    (blockLengths bufferSize fread b left).sum ≤ left := by
  induction left using Nat.strong_induction_on generalizing b with
  | _ left ih =>
    have hle := blockLength_le bufferSize left (fread b)
    rw [blockLengths]
    split_ifs with hpos
    · have := ih (left - blockLength bufferSize left (fread b)) (by omega) (b + 1)
      rw [List.sum_cons]
      omega
    · simp

theorem sum_blockLengths {bufferSize : ℕ} (hb : 1 ≤ bufferSize) {fread : ℕ → Option ℕ}
    (hread : ∀ b, fread b ≠ none) (b left : ℕ) :
    (blockLengths bufferSize fread b left).sum = left := by
  induction left using Nat.strong_induction_on generalizing b with
  | _ left ih =>
    obtain ⟨k, hk⟩ := Option.ne_none_iff_exists'.mp (hread b)
    have hlen : blockLength bufferSize left (fread b) = min (k + 1) (min bufferSize left) := by
      rw [hk]
      rfl
    rw [blockLengths]
    split_ifs with hpos
    · rw [List.sum_cons, ih (left - blockLength bufferSize left (fread b)) (by omega) (b + 1)]
      omega
    · rw [List.sum_nil]
      omega

theorem pos_of_mem_blockLengths {bufferSize : ℕ} {fread : ℕ → Option ℕ} {b left n : ℕ}
    (hn : n ∈ blockLengths bufferSize fread b left) : 0 < n := by
  induction left using Nat.strong_induction_on generalizing b with
  | _ left ih =>
    have hle := blockLength_le bufferSize left (fread b)
    rw [blockLengths] at hn
    split_ifs at hn with hpos
    · rcases List.mem_cons.mp hn with rfl | hn
      · exact hpos
      · exact ih _ (by omega) hn
    · simp at hn

/-- The blocks of a log, `fread` being about to make its call `b`. -/
def blocks (bufferSize : ℕ) (fread : ℕ → Option ℕ) (b : ℕ) (file : List α) : List (List α) :=
  pieces (blockLengths bufferSize fread b file.length) file

/-- The blocks are sent one after the other. -/
def sendBlocks (send : ℕ → ℕ → Option ℕ) : ℕ → List (List α) → Bool × List α
  | _, [] => (true, [])
  | b, block :: blocks =>
    let r := sendBlock (send b) block
    let rs := sendBlocks send (b + 1) blocks
    (r.1 && rs.1, r.2 ++ rs.2)

theorem sendLoop_eq (bufferSize : ℕ) (env : SendEnv) (b : ℕ) (file : List α) :
    sendLoop bufferSize env b file =
      sendBlocks env.send b (blocks bufferSize env.fread b file) := by
  induction hn : file.length using Nat.strong_induction_on generalizing b file with
  | _ n ih =>
    subst hn
    have hle := blockLength_le bufferSize file.length (env.fread b)
    unfold blocks
    rw [sendLoop, blockLengths]
    split_ifs with hpos
    · have hrest := ih _ (by rw [List.length_drop]; omega) (b + 1)
        (file.drop (blockLength bufferSize file.length (env.fread b))) rfl
      unfold blocks at hrest
      rw [List.length_drop] at hrest
      dsimp only
      rw [pieces, sendBlocks, hrest]
    · rfl

/-- Each block of a list with what is taken of it. -/
def transfers (send : ℕ → ℕ → Option ℕ) (b : ℕ) (blocks : List (List α)) :
    List (List α × List α) :=
  blocks.mapIdx fun i block => (block, (sendBlock (send (b + i)) block).2)

theorem transfers_cons (send : ℕ → ℕ → Option ℕ) (b : ℕ) (block : List α)
    (blocks : List (List α)) :
    transfers send b (block :: blocks) =
      (block, (sendBlock (send b) block).2) :: transfers send (b + 1) blocks := by
  unfold transfers
  rw [List.mapIdx_cons]
  simp only [Nat.add_zero, Nat.add_assoc, Nat.add_comm 1]

theorem sendBlocks_snd (send : ℕ → ℕ → Option ℕ) (b : ℕ) (blocks : List (List α)) :
    (sendBlocks send b blocks).2 = ((transfers send b blocks).map Prod.snd).flatten := by
  induction blocks generalizing b with
  | nil => rfl
  | cons block blocks ih =>
    rw [transfers_cons, List.map_cons, List.flatten_cons, ← ih]
    rfl

theorem map_fst_transfers (send : ℕ → ℕ → Option ℕ) (b : ℕ) (blocks : List (List α)) :
    (transfers send b blocks).map Prod.fst = blocks := by
  induction blocks generalizing b with
  | nil => rfl
  | cons block blocks ih => rw [transfers_cons, List.map_cons, ih]

theorem sendBlocks_fst (send : ℕ → ℕ → Option ℕ) (b : ℕ) (blocks : List (List α)) :
    (sendBlocks send b blocks).1 = true ↔
      ∀ i block, blocks[i]? = some block → ¬ Interrupted (send (b + i)) block.length := by
  induction blocks generalizing b with
  | nil => simp [sendBlocks]
  | cons block blocks ih =>
    unfold sendBlocks
    rw [Bool.and_eq_true, ih, (sendBlock_ok (send b) block).2.1]
    constructor
    · rintro ⟨hfirst, hrest⟩ i block' hi
      rcases i with _ | i
      · obtain rfl : block = block' := by simpa using hi
        exact hfirst
      · rw [← Nat.add_assoc, Nat.add_right_comm]
        exact hrest i block' (by simpa using hi)
    · intro h
      refine ⟨h 0 block (by simp), fun i block' hi => ?_⟩
      have := h (i + 1) block' (by simpa using hi)
      rwa [← Nat.add_assoc, Nat.add_right_comm] at this

/-! ### Holes -/

/-- What the socket took is a beginning of the log, and all of it if success is returned. -/
def HoleFree (file : List α) (r : Bool × List α) : Prop :=
  r.2 <+: file ∧ (r.1 = true → r.2 = file)

/-- After a block of which a `send` returned `-1`, the first `send` of every later block returns `-1`;
`lengths` are the lengths of the blocks. -/
def Stops (send : ℕ → ℕ → Option ℕ) (lengths : List ℕ) : Prop :=
  ∀ b b' n n', b < b' → lengths[b]? = some n → lengths[b']? = some n' → Interrupted (send b) n →
    send b' 0 = none

/-- The transfers of a log leave no later bytes after a block sent in part exactly if the sending
stops. -/
theorem pairwise_transfers (send : ℕ → ℕ → Option ℕ) {lengths : List ℕ}
    (hpos : ∀ n ∈ lengths, 0 < n) {blocks : List (List α)}
    (hlen : blocks.map List.length = lengths) :
    (transfers send 0 blocks).Pairwise (fun q q' => q.2 ≠ q.1 → q'.2 = []) ↔ Stops send lengths := by
  subst hlen
  have hget : ∀ i (hi : i < (transfers send 0 blocks).length), ∃ hi' : i < blocks.length,
      (transfers send 0 blocks)[i] = (blocks[i], (sendBlock (send i) blocks[i]).2) := by
    intro i hi
    unfold transfers at hi ⊢
    rw [List.length_mapIdx] at hi
    exact ⟨hi, by rw [List.getElem_mapIdx, Nat.zero_add]⟩
  have hblock : ∀ b n, (blocks.map List.length)[b]? = some n →
      ∃ hb : b < blocks.length, blocks[b].length = n := by
    intro b n h
    rw [List.getElem?_map, Option.map_eq_some_iff] at h
    obtain ⟨block, hb, rfl⟩ := h
    obtain ⟨hlt, rfl⟩ := List.getElem?_eq_some_iff.mp hb
    exact ⟨hlt, rfl⟩
  rw [List.pairwise_iff_getElem]
  constructor
  · intro h b b' n n' hbb hn hn' hint
    obtain ⟨hb, rfl⟩ := hblock b n hn
    obtain ⟨hb', rfl⟩ := hblock b' n' hn'
    have hlen : (transfers send 0 blocks).length = blocks.length := by
      unfold transfers
      rw [List.length_mapIdx]
    have hpair := h b b' (by omega) (by omega) hbb
    obtain ⟨_, hq⟩ := hget b (by omega)
    obtain ⟨_, hq'⟩ := hget b' (by omega)
    rw [hq, hq'] at hpair
    rw [← sendBlock_eq_nil (send b') (hpos _ (List.mem_of_getElem? hn'))]
    exact hpair fun heq => (sendBlock_ok (send b) blocks[b]).2.2.mp heq hint
  · intro h b b' hb hb' hbb hne
    obtain ⟨hlt, hq⟩ := hget b hb
    obtain ⟨hlt', hq'⟩ := hget b' hb'
    rw [hq] at hne
    rw [hq', sendBlock_eq_nil (send b')]
    · refine h b b' _ _ hbb (by rw [List.getElem?_map, List.getElem?_eq_getElem hlt]; rfl)
        (by rw [List.getElem?_map, List.getElem?_eq_getElem hlt']; rfl) ?_
      by_contra hint
      exact hne ((sendBlock_ok (send b) blocks[b]).2.2.mpr hint)
    · exact hpos _ (List.mem_map_of_mem (List.getElem_mem hlt'))

theorem map_length_blocks (bufferSize : ℕ) (fread : ℕ → Option ℕ) (file : List α) :
    (blocks bufferSize fread 0 file).map List.length =
      blockLengths bufferSize fread 0 file.length :=
  map_length_pieces (sum_blockLengths_le _ _ _ _)

theorem prefix_of_mem_transfers {send : ℕ → ℕ → Option ℕ} {b : ℕ} {blocks : List (List α)}
    {q : List α × List α} (hq : q ∈ transfers send b blocks) : q.2 <+: q.1 := by
  obtain ⟨i, hi, rfl⟩ := List.mem_mapIdx.mp hq
  exact (sendBlock_ok _ _).1

/-- **Success is for the whole log**: if no `send` returned `-1`, every block read was sent. -/
theorem sendBlocks_all {send : ℕ → ℕ → Option ℕ} {b : ℕ} {blocks : List (List α)}
    (h : (sendBlocks send b blocks).1 = true) : (sendBlocks send b blocks).2 = blocks.flatten := by
  induction blocks generalizing b with
  | nil => rfl
  | cons block blocks ih =>
    unfold sendBlocks at h ⊢
    rw [Bool.and_eq_true] at h
    obtain ⟨hfirst, hrest⟩ := h
    have hok := sendBlock_ok (send b) block
    dsimp only
    rw [List.flatten_cons, ih hrest, hok.2.2.mpr (hok.2.1.mp hfirst)]

theorem length_sendBlocks_le (send : ℕ → ℕ → Option ℕ) (b : ℕ) (blocks : List (List α)) :
    (sendBlocks send b blocks).2.length ≤ blocks.flatten.length := by
  induction blocks generalizing b with
  | nil => exact le_rfl
  | cons block blocks ih =>
    have hfirst := (sendBlock_ok (send b) block).1.length_le
    have hrest := ih (b + 1)
    unfold sendBlocks
    rw [List.length_append, List.flatten_cons, List.length_append]
    omega

theorem sendFile_eq {env : SendEnv} (hstart : env.seekStart = true) (bufferSize : ℕ) (file : List α) :
    sendFile bufferSize env file =
      ((sendBlocks env.send 0 (blocks bufferSize env.fread 0 file)).1 && env.seekEnd,
        (sendBlocks env.send 0 (blocks bufferSize env.fread 0 file)).2) := by
  unfold sendFile
  rw [hstart, if_pos rfl, sendLoop_eq]

section Delivered
variable {bufferSize : ℕ} (hb : 1 ≤ bufferSize) {env : SendEnv} (hstart : env.seekStart = true)
  (hread : ∀ b, env.fread b ≠ none)
include hb hread

theorem flatten_blocks (file : List α) : (blocks bufferSize env.fread 0 file).flatten = file := by
  unfold blocks
  rw [flatten_pieces, sum_blockLengths hb hread, List.take_length]

include hstart

theorem sendFile_all {file : List α} (hok : (sendFile bufferSize env file).1 = true) :
    (sendFile bufferSize env file).2 = file := by
  rw [sendFile_eq hstart, Bool.and_eq_true] at hok
  rw [sendFile_eq hstart]
  dsimp only
  rw [sendBlocks_all hok.1, flatten_blocks hb hread]

theorem length_sendFile_le (file : List α) :
    (sendFile bufferSize env file).2.length ≤ file.length := by
  have hle := length_sendBlocks_le env.send 0 (blocks bufferSize env.fread 0 file)
  rw [flatten_blocks hb hread] at hle
  rw [sendFile_eq hstart]
  exact hle

theorem holeFree_of_stops (file : List α)
    (h : Stops env.send (blockLengths bufferSize env.fread 0 file.length)) :
    HoleFree file (sendFile bufferSize env file) := by
  have hflat := flatten_blocks hb hread file
  have hpw := (pairwise_transfers env.send (fun n hn => pos_of_mem_blockLengths hn)
    (map_length_blocks bufferSize env.fread file)).mpr h
  have hpre := flatten_prefix (fun q hq => prefix_of_mem_transfers hq) hpw
  rw [map_fst_transfers, hflat, ← sendBlocks_snd] at hpre
  refine ⟨?_, sendFile_all hb hstart hread⟩
  rw [sendFile_eq hstart]
  exact hpre

/-- When no two bytes of the log are alike, there is no hole only if the sending stops. -/
theorem stops_of_holeFree {file : List α} (hnd : file.Nodup)
    (h : HoleFree file (sendFile bufferSize env file)) :
    Stops env.send (blockLengths bufferSize env.fread 0 file.length) := by
  have hflat := flatten_blocks hb hread file
  have hpre := h.1
  rw [sendFile_eq hstart, sendBlocks_snd] at hpre
  have hpw := (flatten_prefix_iff (fun q hq => prefix_of_mem_transfers hq)
    (l := transfers env.send 0 (blocks bufferSize env.fread 0 file))
    (by rw [map_fst_transfers, hflat]; exact hnd)).mp (by rw [map_fst_transfers, hflat]; exact hpre)
  exact (pairwise_transfers env.send (fun n hn => pos_of_mem_blockLengths hn)
    (map_length_blocks bufferSize env.fread file)).mp hpw

end Delivered

/-! ### Contents and places -/

theorem sendBlock_map (f : α → β) (send : ℕ → Option ℕ) (left : List α) :
    sendBlock send (left.map f) = ((sendBlock send left).1, (sendBlock send left).2.map f) := by
  induction hn : left.length using Nat.strong_induction_on generalizing send left with
  | _ n ih =>
    subst hn
    rw [sendBlock, sendBlock, List.length_map]
    split_ifs with hpos
    · rcases send 0 with _ | k
      · rfl
      · have hrest := ih _ (by rw [List.length_drop]; omega) (fun j => send (j + 1))
          (left.drop (k + 1)) rfl
        dsimp only
        rw [← List.map_drop, hrest, ← List.map_take, List.map_append]
    · rfl

theorem sendLoop_map (f : α → β) (bufferSize : ℕ) (env : SendEnv) (b : ℕ) (file : List α) :
    sendLoop bufferSize env b (file.map f) =
      ((sendLoop bufferSize env b file).1, (sendLoop bufferSize env b file).2.map f) := by
  induction hn : file.length using Nat.strong_induction_on generalizing b file with
  | _ n ih =>
    subst hn
    have hle := blockLength_le bufferSize file.length (env.fread b)
    rw [sendLoop.eq_def bufferSize env b (file.map f), sendLoop.eq_def bufferSize env b file,
      List.length_map]
    dsimp only
    split_ifs with hpos
    · have hrest := ih _ (by rw [List.length_drop]; omega) (b + 1)
        (file.drop (blockLength bufferSize file.length (env.fread b))) rfl
      rw [← List.map_drop, hrest, ← List.map_take, sendBlock_map, List.map_append]
    · rfl

/-- The code does not look at the bytes. -/
theorem sendFile_map (f : α → β) (bufferSize : ℕ) (env : SendEnv) (file : List α) :
    sendFile bufferSize env (file.map f) =
      ((sendFile bufferSize env file).1, (sendFile bufferSize env file).2.map f) := by
  unfold sendFile
  split_ifs
  · rw [sendLoop_map]
  · rfl

/-- A list of places that is no beginning of `0, 1, 2, …` has a place that is not its own index. -/
theorem exists_misplaced {l : List ℕ} {n : ℕ} (h : ¬ l <+: List.range n) (hle : l.length ≤ n) :
    ∃ (i : ℕ) (p : ℕ), l[i]? = some p ∧ p ≠ i := by
  by_contra hn
  have hall : ∀ i p, l[i]? = some p → p = i :=
    fun i p hp => by_contra fun hne => hn ⟨i, p, hp, hne⟩
  refine h ?_
  have hl : l = List.range l.length := by
    refine List.ext_getElem (by simp) fun i hi hi' => ?_
    rw [List.getElem_range]
    exact hall i l[i] (List.getElem?_eq_getElem hi)
  have htake : List.range l.length = (List.range n).take l.length := by
    rw [List.take_range, min_eq_left hle]
  rw [hl, htake]
  exact List.take_prefix _ _

/-- **When the log is sent without a hole.** For every buffer size, every length of the log and every
outcome of the calls of `send` (with the first `fseek` succeeding and `fread` delivering the log): every
log of that length is sent without a hole exactly if the sending stops at the first block of which a
`send` returned `-1`. For each log the places of the bytes taken say the same, and the bytes taken are
those at these places. -/
theorem sendFile_holeFree_iff {bufferSize : ℕ} (hb : 1 ≤ bufferSize) {env : SendEnv}
    (hstart : env.seekStart = true) (hread : ∀ b, env.fread b ≠ none) (n : ℕ) :
    ((∀ file : Bytes, file.length = n → HoleFree file (sendFile bufferSize env file)) ↔
      Stops env.send (blockLengths bufferSize env.fread 0 n)) ∧
    (HoleFree (List.range n) (sendFile bufferSize env (List.range n)) ↔
      Stops env.send (blockLengths bufferSize env.fread 0 n)) ∧
    ∀ file : Bytes, file.length = n → sendFile bufferSize env file =
      ((sendFile bufferSize env (List.range n)).1,
        (sendFile bufferSize env (List.range n)).2.map fun i => file.getD i 0) := by
  have hlen : (List.range n).length = n := List.length_range
  have hplaces : HoleFree (List.range n) (sendFile bufferSize env (List.range n)) ↔
      Stops env.send (blockLengths bufferSize env.fread 0 n) := by
    constructor
    · intro h
      have hstop := stops_of_holeFree hb hstart hread List.nodup_range h
      rwa [hlen] at hstop
    · intro h
      exact holeFree_of_stops hb hstart hread _ (by rwa [hlen])
  refine ⟨⟨fun h => ?_, fun h file hf => ?_⟩, hplaces, fun file hf => ?_⟩
  · by_contra hstop
    have hle := length_sendFile_le hb hstart hread (List.range n)
    rw [hlen] at hle
    have hpre : ¬ (sendFile bufferSize env (List.range n)).2 <+: List.range n :=
      fun hpre => hstop (hplaces.mp ⟨hpre, sendFile_all hb hstart hread⟩)
    obtain ⟨i, p, hp, hne⟩ := exists_misplaced hpre hle
    obtain ⟨hi, rfl⟩ := List.getElem?_eq_some_iff.mp hp
    -- a log whose only `1` is the byte that was taken too early
    set r := (sendFile bufferSize env (List.range n)).2 with hr
    set mark : ℕ → UInt8 := fun x => if x = r[i] then 1 else 0 with hmark
    have hfile := (h ((List.range n).map mark) (by simp)).1
    rw [sendFile_map, ← hr] at hfile
    have hat := hfile.getElem (i := i) (by simpa using hi)
    simp only [List.getElem_map, List.getElem_range, hmark, if_true] at hat
    split_ifs at hat with hip
    · exact hne hip.symm
    · exact absurd hat (by decide)
  · subst hf
    exact holeFree_of_stops hb hstart hread file h
  · have hfile : file = (List.range n).map fun i => file.getD i 0 := by
      refine List.ext_getElem (by simp [hf]) fun i hi _ => ?_
      simp [hi]
    conv_lhs => rw [hfile]
    exact sendFile_map _ _ _ _

/-- Two blocks of two bytes are read; of the calls of `send`, the first one alone returns `-1`. -/
def firstInterrupted : SendEnv :=
  ⟨true, true, fun _ => some 1, fun b _ => if b = 0 then none else some 1⟩

/-- Every call of `send` returns `-1` from the second block on. -/
def secondInterrupted : SendEnv :=
  ⟨true, true, fun _ => some 1, fun b _ => if b = 0 then some 1 else none⟩

/-- Of the log `abcd` the first two bytes are sent. -/
theorem sendFile_holeFree_iff_abcd :
    (∀ file : Bytes, file.length = 4 → HoleFree file (sendFile 2 secondInterrupted file)) ↔
      Stops secondInterrupted.send (blockLengths 2 secondInterrupted.fread 0 4) :=
  (@sendFile_holeFree_iff 2 (by norm_num) secondInterrupted rfl (by simp [secondInterrupted]) 4).1

/-- **A stream with a hole**: of the log `abcd`, sent in blocks of two bytes, the first call of `send`
returns `-1`; the client receives `cd`. -/
theorem sendFile_hole :
    sendFile 2 firstInterrupted ([97, 98, 99, 100] : Bytes) = (false, [99, 100]) ∧
      ¬ HoleFree [97, 98, 99, 100] (sendFile 2 firstInterrupted ([97, 98, 99, 100] : Bytes)) := by
  have hrun : sendFile 2 firstInterrupted ([97, 98, 99, 100] : Bytes) = (false, [99, 100]) := by
    unfold sendFile
    simp [sendLoop, sendBlock, blockLength, firstInterrupted]
  refine ⟨hrun, ?_⟩
  rw [hrun]
  unfold HoleFree
  decide

end Aesd.Server.SendFile
