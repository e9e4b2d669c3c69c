import Aesd.Threads.Exclusion

/-!
# The account of a node

A node is in the list while its thread runs, and gone before its thread is created or after the thread
is joined; between the two stands at most one node, which a thread inside the mutex is working on (its
`Stage`). `Accounts` says for every node what its stage stands for. A step touches one node
(`Accounts.touch`), so the steps are the ways a single account may change.
-/

namespace Aesd.Threads.Nodes

open Aesd.Threads.Model Aesd.Threads.Steps Aesd.Threads.Exclusion

/-- What a thread inside the mutex is doing to a node. -/
inductive Stage
  /-- in the list, and its thread is not created yet -/
  | unborn (fd : ℕ)
  /-- out of the list, because its thread was not created -/
  | scrapped (fd : ℕ)
  /-- its thread is created, and the `pthread_t` not stored yet -/
  | unnamed (id : ℕ)
  /-- before the `pthread_join` of its thread -/
  | due
  /-- its thread is joined -/
  | joined
  /-- and it is out of the list -/
  | removed

/-- The node `n` is the one of a thread at `pc`. -/
structure Runs (b : Books) (n : ℕ) (nd : ThreadNode) (pc : ClientPc) : Prop where
  node : b.node n = some nd
  client : b.client n = some pc
  joins : b.joins n = 0
  frees : b.frees n = 0
  completed : nd.threadCompleted = pc.completed
  closed : pc.closed = true → nd.clientSockFd = none

/-- The thread of the node `n` is joined, and the node is live. -/
structure Joined (b : Books) (n : ℕ) : Prop where
  node : ∃ nd, b.node n = some nd ∧ nd.clientSockFd = none
  client : b.client n = some .exited
  joins : b.joins n = 1
  frees : b.frees n = 0

/-- The node `n` is live, and has no thread. -/
structure Single (b : Books) (n : ℕ) (fd : ℕ) : Prop where
  node : b.node n = some ⟨0, false, some fd⟩
  client : b.client n = none
  joins : b.joins n = 0
  frees : b.frees n = 0

/-- The node `n` is not live, and its thread, if there was one, is joined. -/
structure Gone (b : Books) (n : ℕ) : Prop where
  node : b.node n = none
  thread : b.client n = none ∧ b.joins n = 0 ∨ b.client n = some .exited ∧ b.joins n = 1
  frees : b.frees n ≤ 1

/-- There was no node `n` so far. -/
structure Fresh (b : Books) (n : ℕ) : Prop where
  list : n ∉ b.list
  node : b.node n = none
  client : b.client n = none
  joins : b.joins n = 0
  frees : b.frees n = 0

/-- What holds of the node `n` at its stage. -/
def Account (b : Books) (n : ℕ) : Option Stage → Prop
  | none => n ∈ b.list ∧ (∃ nd pc, Runs b n nd pc ∧ b.threads nd.threadId = some n) ∨
      n ∉ b.list ∧ Gone b n
  | some (.unborn fd) => n ∈ b.list ∧ Single b n fd
  | some (.scrapped fd) => n ∉ b.list ∧ Single b n fd
  | some (.unnamed id) => n ∈ b.list ∧ ∃ nd pc, Runs b n nd pc ∧ b.threads id = some n
  | some .due => n ∈ b.list ∧ ∃ nd pc, Runs b n nd pc ∧ b.threads nd.threadId = some n ∧
      nd.threadCompleted = true
  | some .joined => n ∈ b.list ∧ Joined b n
  | some .removed => n ∉ b.list ∧ Joined b n

/-- The stage of the node `n`, if it is the node worked on. -/
def stage : Option (ℕ × Stage) → ℕ → Option Stage
  | none, _ => none
  | some (m, st), n => if n = m then some st else none

/-- The account of every node is right, where `focus` is the node worked on. -/
structure Accounts (b : Books) (focus : Option (ℕ × Stage)) : Prop where
  nodup : b.list.Nodup
  fresh : ∀ n, b.next ≤ n → Fresh b n
  head : ∀ n fd, focus = some (n, .unborn fd) → b.list.head? = some n
  account : ∀ n, Account b n (stage focus n)

variable {b b' : Books} {focus focus' : Option (ℕ × Stage)} {st : Option Stage} {n : ℕ}

/-! ### One account -/

/-- The books `b` and `b'` say the same of the node `n`. -/
structure Same (b b' : Books) (n : ℕ) : Prop where
  list : n ∈ b'.list ↔ n ∈ b.list
  node : b'.node n = b.node n
  client : b'.client n = b.client n
  joins : b'.joins n = b.joins n
  frees : b'.frees n = b.frees n
  threads : ∀ id, b.threads id = some n → b'.threads id = some n

theorem Same.refl (b : Books) (n : ℕ) : Same b b n :=
  ⟨Iff.rfl, rfl, rfl, rfl, rfl, fun _ h => h⟩

theorem Same.runs (h : Same b b' n) {nd : ThreadNode} {pc : ClientPc} (hr : Runs b n nd pc) :
    Runs b' n nd pc :=
  ⟨h.node ▸ hr.node, h.client ▸ hr.client, h.joins ▸ hr.joins, h.frees ▸ hr.frees, hr.completed,
    hr.closed⟩

theorem Same.single (h : Same b b' n) {fd : ℕ} (hs : Single b n fd) : Single b' n fd :=
  ⟨h.node ▸ hs.node, h.client ▸ hs.client, h.joins ▸ hs.joins, h.frees ▸ hs.frees⟩

theorem Same.joined (h : Same b b' n) (hj : Joined b n) : Joined b' n :=
  ⟨h.node ▸ hj.node, h.client ▸ hj.client, h.joins ▸ hj.joins, h.frees ▸ hj.frees⟩

theorem Same.gone (h : Same b b' n) (hg : Gone b n) : Gone b' n :=
  ⟨h.node ▸ hg.node, by rw [h.client, h.joins]; exact hg.thread, h.frees ▸ hg.frees⟩

theorem Same.fresh (h : Same b b' n) (hf : Fresh b n) : Fresh b' n :=
  ⟨fun hn => hf.list (h.list.mp hn), h.node ▸ hf.node, h.client ▸ hf.client, h.joins ▸ hf.joins,
    h.frees ▸ hf.frees⟩

theorem Same.account (h : Same b b' n) (ha : Account b n st) : Account b' n st := by
  have hout : n ∉ b.list → n ∉ b'.list := fun hn hn' => hn (h.list.mp hn')
  cases st with
  | none =>
    rcases ha with ⟨hl, nd, pc, hr, ht⟩ | ⟨hl, hg⟩
    · exact Or.inl ⟨h.list.mpr hl, nd, pc, h.runs hr, h.threads _ ht⟩
    · exact Or.inr ⟨hout hl, h.gone hg⟩
  | some st =>
    cases st with
    | unborn fd => exact ⟨h.list.mpr ha.1, h.single ha.2⟩
    | scrapped fd => exact ⟨hout ha.1, h.single ha.2⟩
    | unnamed id =>
      obtain ⟨hl, nd, pc, hr, ht⟩ := ha
      exact ⟨h.list.mpr hl, nd, pc, h.runs hr, h.threads id ht⟩
    | due =>
      obtain ⟨hl, nd, pc, hr, ht, hc⟩ := ha
      exact ⟨h.list.mpr hl, nd, pc, h.runs hr, h.threads _ ht, hc⟩
    | joined => exact ⟨h.list.mpr ha.1, h.joined ha.2⟩
    | removed => exact ⟨hout ha.1, h.joined ha.2⟩

/-- The node of a thread that has not exited is live, in the list, and the thread's own. -/
theorem Account.runs (h : Account b n st) {pc : ClientPc} (hc : b.client n = some pc)
    (hp : pc ≠ .exited) : n ∈ b.list ∧ ∃ nd, Runs b n nd pc := by
  have hpc : ∀ {nd pc'}, Runs b n nd pc' → Runs b n nd pc := by
    intro nd pc' hr
    have : pc' = pc := Option.some.inj (hr.client.symm.trans hc)
    exact this ▸ hr
  have hno : ¬ Joined b n := fun hj => hp (Option.some.inj (hc.symm.trans hj.client))
  have hnone : ∀ fd, ¬ Single b n fd := fun fd hs => by simp [hs.client] at hc
  rcases st with _ | st
  · rcases h with ⟨hl, nd, pc', hr, -⟩ | ⟨-, hg⟩
    · exact ⟨hl, nd, hpc hr⟩
    · rcases hg.thread with ⟨hn, -⟩ | ⟨he, -⟩
      · simp [hn] at hc
      · exact absurd (Option.some.inj (hc.symm.trans he)) hp
  · cases st with
    | unborn fd => exact absurd h.2 (hnone fd)
    | scrapped fd => exact absurd h.2 (hnone fd)
    | unnamed id =>
      obtain ⟨hl, nd, pc', hr, -⟩ := h
      exact ⟨hl, nd, hpc hr⟩
    | due =>
      obtain ⟨hl, nd, pc', hr, -⟩ := h
      exact ⟨hl, nd, hpc hr⟩
    | joined => exact absurd h.2 hno
    | removed => exact absurd h.2 hno

/-- A thread goes on: its node keeps its `thread_id` and stays completed. -/
theorem Account.goOn (h : Account b n st) {nd nd' : ThreadNode} {pc pc' : ClientPc}
    (hr : Runs b n nd pc) (hp : pc ≠ .exited) (hr' : Runs b' n nd' pc') (hl : b'.list = b.list)
    (ht : b'.threads = b.threads) (hid : nd'.threadId = nd.threadId)
    (hc : nd.threadCompleted = true → nd'.threadCompleted = true) : Account b' n st := by
  have hnd : ∀ {nd₁ pc₁}, Runs b n nd₁ pc₁ → nd₁ = nd := fun hr₁ =>
    Option.some.inj (hr₁.node.symm.trans hr.node)
  have hin := (h.runs hr.client hp).1
  have hno : ¬ Joined b n := fun hj => hp (Option.some.inj (hr.client.symm.trans hj.client))
  have hnone : ∀ fd, ¬ Single b n fd := fun fd hs => by simpa [hs.client] using hr.client
  rw [← hl] at hin
  rcases st with _ | st
  · rcases h with ⟨-, nd₁, pc₁, hr₁, ht₁⟩ | ⟨hout, -⟩
    · exact Or.inl ⟨hin, nd', pc', hr', by rw [ht, hid, ← hnd hr₁, ht₁]⟩
    · exact absurd (hl ▸ hin) hout
  · cases st with
    | unborn fd => exact absurd h.2 (hnone fd)
    | scrapped fd => exact absurd (hl ▸ hin) h.1
    | unnamed id =>
      obtain ⟨-, nd₁, pc₁, hr₁, ht₁⟩ := h
      exact ⟨hin, nd', pc', hr', ht ▸ ht₁⟩
    | due =>
      obtain ⟨-, nd₁, pc₁, hr₁, ht₁, hc₁⟩ := h
      rw [hnd hr₁] at ht₁ hc₁
      exact ⟨hin, nd', pc', hr', by rw [ht, hid, ht₁], hc hc₁⟩
    | joined => exact absurd h.2 hno
    | removed => exact absurd h.2 hno

/-! ### What a step says of the other nodes -/

section Others

variable {m : ℕ}

theorem same_add (b : Books) (fd : ℕ) (hm : m ≠ b.next) : Same b (b.add fd) m := by
  constructor <;> simp [Books.add, hm]

theorem same_spawn {id : ℕ} (hi : b.threads id = none) (hm : m ≠ n) : Same b (b.spawn n id) m := by
  refine ⟨Iff.rfl, rfl, by simp [Books.spawn, hm], rfl, rfl, fun id' hid => ?_⟩
  have hne : id' ≠ id := by
    rintro rfl
    rw [hi] at hid
    cases hid
  simpa [Books.spawn, hne] using hid

theorem same_setNode (b : Books) (nd : ThreadNode) (hm : m ≠ n) : Same b (b.setNode n nd) m := by
  constructor <;> simp [Books.setNode, hm]

theorem same_setClient (b : Books) (pc : ClientPc) (hm : m ≠ n) : Same b (b.setClient n pc) m := by
  constructor <;> simp [Books.setClient, hm]

/-- The `pthread_t` that is given back named the thread `n` only. -/
theorem same_join {id : ℕ} (ht : b.threads id = some n) (hm : m ≠ n) : Same b (b.join n id) m := by
  refine ⟨Iff.rfl, rfl, rfl, by simp [Books.join, hm], rfl, fun id' hid => ?_⟩
  have hne : id' ≠ id := by
    rintro rfl
    exact hm (Option.some.inj (hid.symm.trans ht))
  simpa [Books.join, hne] using hid

theorem same_free (b : Books) (hm : m ≠ n) : Same b (b.free n) m := by
  constructor <;> simp [Books.free, hm]

theorem same_tail {l : List ℕ} (hl : b.list = n :: l) (hm : m ≠ n) : Same b { b with list := l } m :=
  ⟨by simp [hl, hm], rfl, rfl, rfl, rfl, fun _ ht => ht⟩

theorem same_erase (b : Books) (hm : m ≠ n) : Same b { b with list := b.list.erase n } m :=
  ⟨List.mem_erase_of_ne hm, rfl, rfl, rfl, rfl, fun _ ht => ht⟩

theorem Same.trans {b'' : Books} (h : Same b b' m) (h' : Same b' b'' m) : Same b b'' m :=
  ⟨h'.list.trans h.list, h'.node.trans h.node, h'.client.trans h.client, h'.joins.trans h.joins,
    h'.frees.trans h.frees, fun id ht => h'.threads id (h.threads id ht)⟩

theorem Same.completed (h : Same b b' m) : b'.Completed m ↔ b.Completed m := by
  rw [Books.Completed, Books.Completed, h.node]

end Others

/-! ### All accounts -/

theorem Accounts.lt_next (h : Accounts b focus) (hn : ¬ Fresh b n) : n < b.next := by
  by_contra hlt
  exact hn (h.fresh n (not_lt.mp hlt))

theorem Accounts.lt_next_of_live (h : Accounts b focus) (hn : b.Live n) : n < b.next := by
  obtain ⟨nd, hn⟩ := hn
  refine h.lt_next fun hf => ?_
  rw [hf.node] at hn
  cases hn

/-- **A step touches one node.** -/
theorem Accounts.touch (h : Accounts b focus) (hnext : b.next ≤ b'.next) (hn : n < b'.next)
    (hsame : ∀ m, m ≠ n → Same b b' m) (hnodup : b'.list.Nodup)
    (hhead : ∀ m fd, focus' = some (m, .unborn fd) → b'.list.head? = some m)
    (hst : ∀ m, m ≠ n → stage focus' m = stage focus m) (ha : Account b' n (stage focus' n)) :
    Accounts b' focus' := by
  constructor
  · exact hnodup
  · intro m hm
    have hmn : m ≠ n := by
      rintro rfl
      omega
    exact (hsame m hmn).fresh (h.fresh m (hnext.trans hm))
  · exact hhead
  · intro m
    by_cases hmn : m = n
    · exact hmn ▸ ha
    · rw [hst m hmn]
      exact (hsame m hmn).account (h.account m)

@[simp] theorem stage_self (n : ℕ) (st : Stage) : stage (some (n, st)) n = some st := if_pos rfl

/-- The account of the node worked on. -/
theorem Accounts.worked {st : Stage} (h : Accounts b (some (n, st))) : Account b n (some st) := by
  have ha := h.account n
  rwa [stage_self] at ha

theorem stage_of_ne {m : ℕ} {st : Stage} (h : m ≠ n) : stage (some (n, st)) m = none := if_neg h

/-- A thread goes on, and its node may change. -/
theorem Accounts.goOn (h : Accounts b focus) {nd : ThreadNode} {pc : ClientPc} (nd' : ThreadNode)
    (pc' : ClientPc)
    (hn : b.node n = some nd) (hc : b.client n = some pc) (hp : pc ≠ .exited)
    (hid : nd'.threadId = nd.threadId)
    (hcomp : nd.threadCompleted = pc.completed → nd'.threadCompleted = pc'.completed)
    (hkeep : nd.threadCompleted = true → nd'.threadCompleted = true)
    (hclosed : (pc.closed = true → nd.clientSockFd = none) → pc'.closed = true →
      nd'.clientSockFd = none) :
    Accounts ((b.setNode n nd').setClient n pc') focus := by
  have hr : Runs b n nd pc := by
    obtain ⟨-, nd₁, hr⟩ := (h.account n).runs hc hp
    exact Option.some.inj (hr.node.symm.trans hn) ▸ hr
  have hr' : Runs ((b.setNode n nd').setClient n pc') n nd' pc' :=
    ⟨by simp [Books.setClient, Books.setNode], by simp [Books.setClient], hr.joins, hr.frees,
      hcomp hr.completed, hclosed hr.closed⟩
  exact h.touch (n := n) le_rfl (h.lt_next_of_live ⟨nd, hn⟩)
    (fun m hm => (same_setNode b nd' hm).trans (same_setClient _ pc' hm)) h.nodup h.head
    (fun _ _ => rfl) ((h.account n).goOn hr hp hr' rfl rfl hid hkeep)

theorem setNode_self {nd : ThreadNode} (hn : b.node n = some nd) : b.setNode n nd = b := by
  rw [Books.setNode, ← hn, Function.update_eq_self]

/-- A thread goes on, and its node stays. -/
theorem Accounts.move (h : Accounts b focus) {pc pc' : ClientPc} (hc : b.client n = some pc)
    (hp : pc ≠ .exited) (hcomp : pc'.completed = pc.completed)
    (hclosed : pc'.closed = true → pc.closed = true) : Accounts (b.setClient n pc') focus := by
  obtain ⟨-, nd, hr⟩ := (h.account n).runs hc hp
  have ha := h.goOn nd pc' hr.node hc hp rfl (fun he => he.trans hcomp.symm) id
    fun hcl hc' => hcl (hclosed hc')
  rwa [setNode_self hr.node] at ha

/-- The handler closes the socket of a node. -/
theorem Accounts.closeNode (h : Accounts b none) (hin : n ∈ b.list) {nd : ThreadNode}
    (hn : b.node n = some nd) : Accounts (b.setNode n { nd with clientSockFd := none }) none := by
  obtain ⟨-, nd₁, pc, hr, ht⟩ | ⟨hout, -⟩ := h.account n
  · obtain rfl : nd₁ = nd := Option.some.inj (hr.node.symm.trans hn)
    refine h.touch (n := n) le_rfl (h.lt_next_of_live ⟨nd₁, hn⟩) (fun m hm => same_setNode b _ hm)
      h.nodup h.head (fun _ _ => rfl)
      (Or.inl ⟨hin, { nd₁ with clientSockFd := none }, pc, ?_, ht⟩)
    exact ⟨by simp [Books.setNode], hr.client, hr.joins, hr.frees, hr.completed, fun _ => rfl⟩
  · exact absurd hin hout

/-! ### The stages in turn -/

theorem Accounts.add (h : Accounts b none) (fd : ℕ) :
    Accounts (b.add fd) (some (b.next, .unborn fd)) := by
  have hf := h.fresh b.next le_rfl
  refine h.touch (n := b.next) (Nat.le_succ _) (Nat.lt_succ_self _) (fun m hm => same_add b fd hm)
    (List.nodup_cons.mpr ⟨hf.list, h.nodup⟩) (fun m fd' he => ?_) (fun m hm => stage_of_ne hm) ?_
  · cases he
    rfl
  · rw [stage_self]
    exact ⟨List.mem_cons_self, by simp [Books.add], hf.client, hf.joins, hf.frees⟩

/-- The node worked on goes to its next stage. -/
theorem Accounts.next {st st' : Stage} (h : Accounts b (some (n, st))) (hl : b.Live n)
    (hnext : b'.next = b.next) (hsame : ∀ m, m ≠ n → Same b b' m) (hnodup : b'.list.Nodup)
    (hst : ∀ fd, st' ≠ .unborn fd) (ha : Account b' n (some st')) : Accounts b' (some (n, st')) := by
  refine h.touch (n := n) hnext.ge (hnext ▸ h.lt_next_of_live hl) hsame hnodup ?_
    (fun m hm => by rw [stage_of_ne hm, stage_of_ne hm]) (by rwa [stage_self])
  intro m fd he
  cases he
  exact absurd rfl (hst fd)

/-- The work on a node is over. -/
theorem Accounts.finish {st : Stage} (h : Accounts b (some (n, st))) (hl : b.Live n)
    (hnext : b'.next = b.next) (hsame : ∀ m, m ≠ n → Same b b' m) (hnodup : b'.list.Nodup)
    (ha : Account b' n none) : Accounts b' none :=
  h.touch (n := n) hnext.ge (hnext ▸ h.lt_next_of_live hl) hsame hnodup nofun
    (fun _ hm => (stage_of_ne hm).symm) ha

theorem Accounts.spawn {fd id : ℕ} (h : Accounts b (some (n, .unborn fd)))
    (hi : b.threads id = none) : Accounts (b.spawn n id) (some (n, .unnamed id)) := by
  obtain ⟨hin, hs⟩ := h.worked
  refine h.next ⟨_, hs.node⟩ rfl (fun m hm => same_spawn hi hm) h.nodup (by simp) ?_
  refine ⟨hin, ⟨0, false, some fd⟩, .start, ?_, by simp [Books.spawn]⟩
  exact ⟨hs.node, by simp [Books.spawn], hs.joins, hs.frees, rfl, by simp [ClientPc.closed]⟩

theorem Accounts.undo {fd : ℕ} {l : List ℕ} (h : Accounts b (some (n, .unborn fd)))
    (hl : b.list = n :: l) : Accounts { b with list := l } (some (n, .scrapped fd)) := by
  obtain ⟨-, hs⟩ := h.worked
  have hnodup := h.nodup
  rw [hl, List.nodup_cons] at hnodup
  refine h.next ⟨_, hs.node⟩ rfl (fun m hm => same_tail hl hm) hnodup.2 (by simp) ?_
  exact ⟨hnodup.1, hs.node, hs.client, hs.joins, hs.frees⟩

theorem Accounts.release {fd : ℕ} (h : Accounts b (some (n, .scrapped fd))) :
    Accounts (b.free n) none := by
  obtain ⟨hout, hs⟩ := h.worked
  refine h.finish ⟨_, hs.node⟩ rfl (fun m hm => same_free b hm) h.nodup (Or.inr ⟨hout, ?_⟩)
  exact ⟨by simp [Books.free], Or.inl ⟨hs.client, hs.joins⟩, by simp [Books.free, hs.frees]⟩

theorem Accounts.setId {id : ℕ} {nd : ThreadNode} (h : Accounts b (some (n, .unnamed id)))
    (hn : b.node n = some nd) : Accounts (b.setNode n { nd with threadId := id }) none := by
  obtain ⟨hin, nd₁, pc, hr, ht⟩ := h.worked
  obtain rfl : nd₁ = nd := Option.some.inj (hr.node.symm.trans hn)
  refine h.finish ⟨nd₁, hn⟩ rfl (fun m hm => same_setNode b _ hm) h.nodup
    (Or.inl ⟨hin, { nd₁ with threadId := id }, pc, ?_, ht⟩)
  exact ⟨by simp [Books.setNode], hr.client, hr.joins, hr.frees, hr.completed, hr.closed⟩

theorem Accounts.due (h : Accounts b none) (hin : n ∈ b.list) (hc : b.Completed n) :
    Accounts b (some (n, .due)) := by
  obtain ⟨nd, hn, hcomp⟩ := hc
  obtain ⟨-, nd₁, pc, hr, ht⟩ | ⟨hout, -⟩ := h.account n
  · obtain rfl : nd₁ = nd := Option.some.inj (hr.node.symm.trans hn)
    refine h.touch (n := n) le_rfl (h.lt_next_of_live ⟨nd₁, hn⟩) (fun m _ => Same.refl b m) h.nodup
      nofun (fun m hm => stage_of_ne hm) ?_
    rw [stage_self]
    exact ⟨hin, nd₁, pc, hr, ht, hcomp⟩
  · exact absurd hin hout

theorem Accounts.join {nd : ThreadNode} (h : Accounts b (some (n, .due)))
    (hn : b.node n = some nd) (hc : b.client n = some .exited) :
    Accounts (b.join n nd.threadId) (some (n, .joined)) := by
  obtain ⟨hin, nd₁, pc, hr, ht, -⟩ := h.worked
  obtain rfl : nd₁ = nd := Option.some.inj (hr.node.symm.trans hn)
  obtain rfl : pc = .exited := Option.some.inj (hr.client.symm.trans hc)
  refine h.next ⟨nd₁, hn⟩ rfl (fun m hm => same_join ht hm) h.nodup (by simp) ?_
  exact ⟨hin, ⟨nd₁, hn, hr.closed rfl⟩, hc, by simp [Books.join, hr.joins], hr.frees⟩

theorem Accounts.remove (h : Accounts b (some (n, .joined))) :
    Accounts { b with list := b.list.erase n } (some (n, .removed)) := by
  obtain ⟨-, hj⟩ := h.worked
  obtain ⟨nd, hn, -⟩ := hj.node
  refine h.next ⟨nd, hn⟩ rfl (fun m hm => same_erase b hm) (h.nodup.erase n) (by simp) ?_
  exact ⟨h.nodup.not_mem_erase, hj.node, hj.client, hj.joins, hj.frees⟩

theorem Accounts.free (h : Accounts b (some (n, .removed))) : Accounts (b.free n) none := by
  obtain ⟨hout, hj⟩ := h.worked
  obtain ⟨nd, hn, -⟩ := hj.node
  refine h.finish ⟨nd, hn⟩ rfl (fun m hm => same_free b hm) h.nodup (Or.inr ⟨hout, ?_⟩)
  exact ⟨by simp [Books.free], Or.inr ⟨hj.client, hj.joins⟩, by simp [Books.free, hj.frees]⟩

end Aesd.Threads.Nodes
