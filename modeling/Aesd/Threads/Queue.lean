import Aesd.Lib.SList
import Aesd.Threads.Steps

/-!
# The list of nodes in memory

`thread_list` as `queue.h` keeps it: the head is the address of the first node, and each node holds that
of the next one. The macros used on it and the functions that go through it are here on this memory;
`none` is an access through `NULL` or to a freed node, or a loop that goes on for more than `fuel` rounds.
`Represents` ties the memory to the list of the model, and each operation on the memory does what the
model's operation does to the list.
-/

namespace Aesd.Threads.Queue

open Aesd.Lib.SList
open Aesd.Threads.Model Aesd.Threads.Steps

/-- `thread_list` and the nodes. -/
structure Memory where
  slhFirst : Option ℕ
  cell : Cells ThreadNode

namespace Memory

/-- `SLIST_NEXT(elm)` -/
def next (m : Memory) (elm : ℕ) : Option (Option ℕ) := (m.cell elm).map Cell.next

/-- `SLIST_NEXT(elm) = p` -/
def setNext (m : Memory) (elm : ℕ) (p : Option ℕ) : Option Memory :=
  (m.cell elm).map fun c => { m with cell := Function.update m.cell elm (some { c with next := p }) }

/-- `SLIST_INSERT_HEAD` -/
def insertHead (m : Memory) (elm : ℕ) : Option Memory :=
  (m.setNext elm m.slhFirst).map fun m => { m with slhFirst := some elm }

/-- `SLIST_REMOVE_HEAD` -/
def removeHead (m : Memory) : Option Memory :=
  m.slhFirst.bind fun first => (m.next first).map fun p => { m with slhFirst := p }

/-- `SLIST_REMOVE_AFTER` -/
def removeAfter (m : Memory) (elm : ℕ) : Option Memory :=
  (m.next elm).bind fun p => p.bind fun n => (m.next n).bind fun p' => m.setNext elm p'

/-- The loop of `SLIST_REMOVE`: the node before `elm`, from `curelm` on. -/
def findBefore (m : Memory) (elm : ℕ) : ℕ → ℕ → Option ℕ
  | 0, _ => none
  | fuel + 1, curelm => (m.next curelm).bind fun p =>
    if p = some elm then some curelm else p.bind fun n => findBefore m elm fuel n

/-- `SLIST_REMOVE` -/
def remove (m : Memory) (fuel elm : ℕ) : Option Memory :=
  if m.slhFirst = some elm then m.removeHead
  else m.slhFirst.bind fun curelm => (m.findBefore elm fuel curelm).bind m.removeAfter

/-- `free` of a node. -/
def free (m : Memory) (n : ℕ) : Option Memory :=
  (m.cell n).map fun _ => { m with cell := Function.update m.cell n none }

/-- The node `n` becomes `f` of what it is. -/
def write (m : Memory) (n : ℕ) (f : ThreadNode → ThreadNode) : Option Memory :=
  (m.cell n).map fun c =>
    { m with cell := Function.update m.cell n (some { c with val := f c.val }) }

/-! ### The functions that go through the list -/

/-- `one_communiction_thread_completed`, from `current_thread_node` on. -/
def oneCommunictionThreadCompleted (m : Memory) : ℕ → Option ℕ → Option Bool
  | _, none => some false
  | 0, some _ => none
  | fuel + 1, some n => (m.cell n).bind fun c =>
    if c.val.threadCompleted = true then some true
    else m.oneCommunictionThreadCompleted fuel c.next

/-- `join_completed_client_threads`, from `current_thread_node` on, `SLIST_REMOVE` with `limit` rounds:
the memory left and the threads joined, in order. -/
def joinCompletedClientThreads (limit : ℕ) : ℕ → Memory → Option ℕ → Option (Memory × List ℕ)
  | _, m, none => some (m, [])
  | 0, _, some _ => none
  | fuel + 1, m, some n => (m.cell n).bind fun c =>
    -- `next_thread_node` is read before the node is removed
    if c.val.threadCompleted = true then
      (m.remove limit n).bind fun m => (m.free n).bind fun m =>
        (joinCompletedClientThreads limit fuel m c.next).map fun r => (r.1, c.val.threadId :: r.2)
    else joinCompletedClientThreads limit fuel m c.next

/-- `add_thread_to_list`, where `malloc` returns the node `n`; its `sle_next` is not set yet. -/
def addThreadToList (m : Memory) (n threadId fd : ℕ) (garbage : Option ℕ) : Option Memory :=
  { m with cell := Function.update m.cell n (some ⟨⟨threadId, false, some fd⟩, garbage⟩) }.insertHead n

end Memory

/-- The memory holds the list and the nodes of the books. -/
structure Represents (m : Memory) (b : Books) : Prop where
  list : Seg m.cell m.slhFirst b.list none
  node : ∀ n, (m.cell n).map Cell.val = b.node n

variable {m m' : Memory} {b b' : Books} {n : ℕ} {l l' : List ℕ}

/-! ### The macros -/

theorem setNext_eq {c : Cell ThreadNode} (hn : m.cell n = some c) (p : Option ℕ) :
    m.setNext n p =
      some { m with cell := Function.update m.cell n (some { c with next := p }) } := by
  simp [Memory.setNext, hn]

theorem removeHead_ok (h : Seg m.cell m.slhFirst (n :: l) none) :
    ∃ m', m.removeHead = some m' ∧ Seg m'.cell m'.slhFirst l none ∧ m'.cell = m.cell := by
  obtain ⟨hfirst, c, hn, hl⟩ := h.cons_inv
  refine ⟨{ m with slhFirst := c.next }, ?_, hl, rfl⟩
  simp [Memory.removeHead, Memory.next, hfirst, hn]

/-- The loop of `SLIST_REMOVE` stops at the node before. -/
theorem findBefore_ok {before elm : ℕ} :
    ∀ {l : List ℕ} {n : ℕ} (fuel : ℕ), Seg m.cell (some n) (l ++ before :: elm :: l') none →
      l.length < fuel → m.findBefore elm fuel n = some before
  | [], n, fuel + 1, h, _ => by
    obtain ⟨hn, c, hc, hl⟩ := h.cons_inv
    cases hn
    obtain ⟨hnext, -⟩ := hl.cons_inv
    simp [Memory.findBefore, Memory.next, hc, hnext]
  | k :: l, n, fuel + 1, h, hfuel => by
    have hnd := h.nodup
    obtain ⟨hn, c, hc, hl⟩ := h.cons_inv
    cases hn
    obtain ⟨p, hp⟩ : ∃ p, c.next = some p := by
      cases l <;> exact ⟨_, hl.cons_inv.1⟩
    have hne : p ≠ elm := by
      rintro rfl
      rw [hp] at hl
      cases l with
      | nil =>
        cases hl.cons_inv.1
        simp at hnd
      | cons k' l =>
        cases hl.cons_inv.1
        simp at hnd
    have ih := findBefore_ok fuel (hp ▸ hl) (Nat.lt_of_succ_lt_succ hfuel)
    simp [Memory.findBefore, Memory.next, hc, hp, hne, ih]

/-- **`SLIST_REMOVE`** unlinks the node, and changes nothing but a link before it. -/
theorem remove_ok (fuel : ℕ) (h : Seg m.cell m.slhFirst (l ++ n :: l') none) (hfuel : l.length ≤ fuel) :
    ∃ m', m.remove fuel n = some m' ∧ Seg m'.cell m'.slhFirst (l ++ l') none ∧
      (∀ k, (m'.cell k).map Cell.val = (m.cell k).map Cell.val) ∧
      ∀ k, k ∉ l → m'.cell k = m.cell k := by
  rcases List.eq_nil_or_concat l with rfl | ⟨l₁, before, rfl⟩
  · obtain ⟨m', hm', hseg, hcell⟩ := removeHead_ok (l := l') h
    refine ⟨m', ?_, hseg, by simp [hcell], by simp [hcell]⟩
    rw [Memory.remove, if_pos h.cons_inv.1, hm']
  · rw [List.concat_eq_append, List.append_assoc, List.singleton_append] at h
    have hnd := h.nodup
    obtain ⟨q, hq, hrest⟩ := h.split
    obtain ⟨rfl, b, hb, hrest⟩ := hrest.cons_inv
    obtain ⟨hbn, c, hc, -⟩ := hrest.cons_inv
    obtain ⟨first, hfirst⟩ : ∃ first, m.slhFirst = some first := by
      cases l₁ <;> exact ⟨_, h.cons_inv.1⟩
    have hne : first ≠ n := by
      rintro rfl
      rw [hfirst] at h
      cases l₁ with
      | nil =>
        cases h.cons_inv.1
        simp at hnd
      | cons k l₁ =>
        cases h.cons_inv.1
        simp at hnd
    have hlen : l₁.length < fuel := by simpa using hfuel
    have hfind := findBefore_ok fuel (hfirst ▸ h) hlen
    refine ⟨{ m with cell := Function.update m.cell before (some { b with next := c.next }) },
      ?_, ?_, fun k => ?_, fun k hk => ?_⟩
    · simp [Memory.remove, hfirst, hne, hfind, Memory.removeAfter, Memory.next, hb, hbn, hc,
        setNext_eq hb]
    · rw [List.concat_eq_append, List.append_assoc, List.singleton_append]
      exact h.unlink hc rfl
    · by_cases hk : k = before
      · simp [hk, hb]
      · simp [hk]
    · refine Function.update_of_ne ?_ _ _
      rintro rfl
      simp at hk

/-- `free` of a node that is not linked. -/
theorem free_ok (h : Seg m.cell m.slhFirst l none) (hn : n ∉ l) {c : Cell ThreadNode}
    (hc : m.cell n = some c) :
    ∃ m', m.free n = some m' ∧ Seg m'.cell m'.slhFirst l none ∧
      m'.cell = Function.update m.cell n none := by
  refine ⟨{ m with cell := Function.update m.cell n none }, by simp [Memory.free, hc], ?_, rfl⟩
  exact h.congr fun k hk => by simp [ne_of_mem_of_not_mem hk hn]

/-! ### The functions -/

/-- The node `n` is there and has `thread_completed` set. -/
def Memory.completed (m : Memory) (n : ℕ) : Bool := (m.cell n).any fun c => c.val.threadCompleted

theorem oneCompleted_ok : ∀ {l : List ℕ} {p : Option ℕ} {fuel : ℕ}, Seg m.cell p l none →
    l.length ≤ fuel → m.oneCommunictionThreadCompleted fuel p = some (l.any m.completed)
  | [], p, fuel, h, _ => by
    cases h.nil_inv
    cases fuel <;> rfl
  | n :: l, p, fuel + 1, h, hfuel => by
    obtain ⟨rfl, c, hc, hl⟩ := h.cons_inv
    have ih := oneCompleted_ok hl (Nat.le_of_succ_le_succ hfuel)
    by_cases hcomp : c.val.threadCompleted = true
    · simp [Memory.oneCommunictionThreadCompleted, hc, Memory.completed, hcomp]
    · simp [Memory.oneCommunictionThreadCompleted, hc, Memory.completed, hcomp, ih]

/-- **`join_completed_client_threads`** from the node `p` on: the completed nodes of the rest of the list
are joined in order, unlinked and freed, and nothing else is. -/
theorem joinCompleted_ok (limit : ℕ) : ∀ {rest : List ℕ} (kept : List ℕ) {m : Memory} {p : Option ℕ}
    {fuel : ℕ}, Seg m.cell m.slhFirst (kept ++ rest) none → Seg m.cell p rest none →
    (kept ++ rest).length ≤ limit → rest.length ≤ fuel →
    ∃ m', Memory.joinCompletedClientThreads limit fuel m p =
        some (m', (rest.filter m.completed).filterMap fun n => (m.cell n).map fun c => c.val.threadId) ∧
      Seg m'.cell m'.slhFirst (kept ++ rest.filter fun n => !m.completed n) none ∧
      ∀ n, (m'.cell n).map Cell.val =
        if n ∈ rest ∧ m.completed n = true then none else (m.cell n).map Cell.val
  | [], kept, m, p, fuel, h, hp, _, _ => by
    cases hp.nil_inv
    exact ⟨m, by cases fuel <;> rfl, by simpa using h, by simp⟩
  | n :: rest, kept, m, p, fuel + 1, h, hp, hlimit, hfuel => by
    obtain ⟨rfl, c, hc, hl⟩ := hp.cons_inv
    have hnd := h.nodup
    have hfuel' : rest.length ≤ fuel := Nat.le_of_succ_le_succ hfuel
    have hcomp : m.completed n = c.val.threadCompleted := by simp [Memory.completed, hc]
    by_cases hcompleted : c.val.threadCompleted = true
    · have hout : n ∉ kept ∧ n ∉ rest := by
        rw [List.nodup_middle, List.nodup_cons] at hnd
        simpa using hnd.1
      have hkept : ∀ k ∈ rest, k ∉ kept := fun k hk hk' =>
        (List.nodup_append.mp hnd).2.2 k hk' k (List.mem_cons_of_mem n hk) rfl
      obtain ⟨m₁, hm₁, hseg₁, hval₁, hsame₁⟩ := remove_ok limit h (by simp at hlimit; omega)
      obtain ⟨m₂, hm₂, hseg₂, hcell₂⟩ := free_ok hseg₁ (n := n) (by simpa using hout)
        ((hsame₁ n hout.1).trans hc)
      have hrest : ∀ k ∈ rest, m₂.cell k = m.cell k := by
        intro k hk
        rw [hcell₂, Function.update_of_ne (ne_of_mem_of_not_mem hk hout.2), hsame₁ k (hkept k hk)]
      have hcompleted₂ : ∀ k ∈ rest, m₂.completed k = m.completed k := fun k hk => by
        rw [Memory.completed, hrest k hk, Memory.completed]
      have hlimit' : (kept ++ rest).length ≤ limit := by simp at hlimit ⊢; omega
      obtain ⟨m', hm', hseg', hval'⟩ := joinCompleted_ok limit kept hseg₂
        (hl.congr fun k hk => by rw [hrest k hk]) hlimit' hfuel'
      have hfilter : rest.filter m₂.completed = rest.filter m.completed :=
        List.filter_congr hcompleted₂
      have hleft : (rest.filter fun n => !m₂.completed n) = rest.filter fun n => !m.completed n :=
        List.filter_congr fun k hk => by rw [hcompleted₂ k hk]
      have hthreads : ((rest.filter m₂.completed).filterMap fun n =>
            (m₂.cell n).map fun c => c.val.threadId) =
          (rest.filter m.completed).filterMap fun n => (m.cell n).map fun c => c.val.threadId := by
        rw [hfilter]
        exact List.filterMap_congr fun k hk => by rw [hrest k (List.mem_of_mem_filter hk)]
      refine ⟨m', ?_, ?_, fun k => ?_⟩
      · rw [hthreads] at hm'
        simp [Memory.joinCompletedClientThreads, hc, hcompleted, hm₁, hm₂, hm', hcomp]
      · rw [List.filter_cons_of_neg (by simp [hcomp, hcompleted]), ← hleft]
        exact hseg'
      · rw [hval']
        by_cases hkn : k = n
        · simp [hkn, hout.2, hcell₂, hcomp, hcompleted]
        by_cases hk : k ∈ rest
        · simp [hk, hcompleted₂ k hk, hrest k hk]
        · simp [hk, hkn, hcell₂, hval₁]
    · have hstep : Memory.joinCompletedClientThreads limit (fuel + 1) m (some n) =
          Memory.joinCompletedClientThreads limit fuel m c.next := by
        simp [Memory.joinCompletedClientThreads, hc, hcompleted]
      obtain ⟨m', hm', hseg, hval⟩ := joinCompleted_ok limit (kept ++ [n]) (by simpa using h) hl
        (by simpa using hlimit) hfuel'
      refine ⟨m', ?_, ?_, fun k => ?_⟩
      · rw [hstep, hm', List.filter_cons_of_neg (by simp [hcomp, hcompleted])]
      · rw [List.filter_cons_of_pos (by simp [hcomp, hcompleted])]
        simpa using hseg
      · rw [hval]
        by_cases hkn : k = n
        · simp [hkn, hcomp, hcompleted]
        · simp [hkn]

/-! ### The list and the nodes of the model -/

namespace Represents

theorem cell_of_node (h : Represents m b) {nd : ThreadNode} (hn : b.node n = some nd) :
    ∃ p, m.cell n = some ⟨nd, p⟩ := by
  obtain ⟨c, hc, rfl⟩ := Option.map_eq_some_iff.mp ((h.node n).trans hn)
  exact ⟨c.next, hc⟩

theorem first (h : Represents m b) : m.slhFirst = b.list.head? := by
  have hlist := h.list
  cases hl : b.list with
  | nil => exact (hl ▸ hlist).nil_inv
  | cons n l => exact (hl ▸ hlist).cons_inv.1

/-- The way through an end of the list. -/
theorem rest (h : Represents m b) (hl : l <:+ b.list) : Seg m.cell l.head? l none := by
  obtain ⟨t, ht⟩ := hl
  obtain ⟨p, -, hp⟩ := (ht ▸ h.list).split
  cases l with
  | nil => exact .nil none
  | cons n l =>
    obtain rfl := hp.cons_inv.1
    exact hp

theorem next (h : Represents m b) (hl : n :: l <:+ b.list) : m.next n = some l.head? := by
  obtain ⟨-, c, hc, hrest⟩ := (h.rest hl).cons_inv
  have hnext : c.next = l.head? := by
    cases l with
    | nil => exact hrest.nil_inv
    | cons k l => exact hrest.cons_inv.1
  rw [Memory.next, hc, Option.map_some, hnext]

theorem completed (h : Represents m b) (n : ℕ) :
    m.completed n = (b.node n).any fun nd => nd.threadCompleted := by
  rw [Memory.completed, ← h.node n, Option.any_map]

theorem scan (h : Represents m b) (hlive : ∀ n ∈ b.list, b.Live n) :
    m.oneCommunictionThreadCompleted b.list.length m.slhFirst = b.oneCompleted b.list := by
  rw [oneCompleted_ok h.list le_rfl]
  have hcomp : ∀ n ∈ b.list, m.completed n = true ↔ b.Completed n := fun n _ => by
    rw [h.completed, Option.any_eq_true]
    rfl
  rcases oneCompleted_of_live hlive with ⟨he, n, hn, hc⟩ | ⟨he, hno⟩
  · rw [he, List.any_eq_true.mpr ⟨n, hn, (hcomp n hn).mpr hc⟩]
  · rw [he, List.any_eq_false.mpr fun n hn => mt (hcomp n hn).mp (hno n hn)]

theorem of_eq (h : Represents m b) (hl : b'.list = b.list) (hn : b'.node = b.node) :
    Represents m b' := ⟨hl ▸ h.list, hn ▸ h.node⟩

theorem write (h : Represents m b) {nd : ThreadNode} (hn : b.node n = some nd)
    (f : ThreadNode → ThreadNode) : ∃ m', m.write n f = some m' ∧ Represents m' (b.setNode n (f nd)) := by
  obtain ⟨p, hc⟩ := h.cell_of_node hn
  refine ⟨{ m with cell := Function.update m.cell n (some ⟨f nd, p⟩) }, by simp [Memory.write, hc],
    h.list.congr fun k _ => ?_, fun k => ?_⟩
  · by_cases hk : k = n <;> simp [hk, hc]
  · by_cases hk : k = n <;> simp [hk, Books.setNode, h.node]

theorem add (h : Represents m b) (hfresh : b.next ∉ b.list) (fd : ℕ) (garbage : Option ℕ) :
    ∃ m', m.addThreadToList b.next 0 fd garbage = some m' ∧ Represents m' (b.add fd) := by
  let node : Cell ThreadNode := ⟨⟨0, false, some fd⟩, m.slhFirst⟩
  refine ⟨⟨some b.next, Function.update m.cell b.next (some node)⟩, ?_, ?_, fun k => ?_⟩
  · simp [Memory.addThreadToList, Memory.insertHead, Memory.setNext, node]
  · refine .cons (Function.update_self _ _ _) (h.list.congr fun k hk => ?_)
    simp [ne_of_mem_of_not_mem hk hfresh]
  · by_cases hk : k = b.next <;> simp [hk, Books.add, h.node, node]

theorem removeHead (h : Represents m b) (hl : b.list = n :: l) :
    ∃ m', m.removeHead = some m' ∧ Represents m' { b with list := l } := by
  obtain ⟨m', hm', hseg, hcell⟩ := removeHead_ok (hl ▸ h.list)
  exact ⟨m', hm', hseg, fun k => by rw [hcell, h.node]⟩

theorem remove (h : Represents m b) (hn : n ∈ b.list) :
    ∃ m', m.remove b.list.length n = some m' ∧
      Represents m' { b with list := b.list.erase n } := by
  have hnd := h.list.nodup
  obtain ⟨l, l', hl⟩ := List.append_of_mem hn
  have hout : n ∉ l := by
    rw [hl] at hnd
    exact fun hmem => (List.nodup_append.mp hnd).2.2 n hmem n List.mem_cons_self rfl
  obtain ⟨m', hm', hseg, hval, -⟩ := remove_ok b.list.length (hl ▸ h.list) (by simp [hl])
  refine ⟨m', hm', ?_, fun k => by rw [hval, h.node]⟩
  rwa [hl, List.erase_append_right _ hout, List.erase_cons_head]

theorem free (h : Represents m b) (hn : b.Live n) (hout : n ∉ b.list) :
    ∃ m', m.free n = some m' ∧ Represents m' (b.free n) := by
  obtain ⟨nd, hnd⟩ := hn
  obtain ⟨p, hc⟩ := h.cell_of_node hnd
  obtain ⟨m', hm', hseg, hcell⟩ := free_ok h.list hout hc
  refine ⟨m', hm', hseg, fun k => ?_⟩
  rw [hcell]
  by_cases hk : k = n <;> simp [hk, Books.free, h.node]

end Represents

end Aesd.Threads.Queue
