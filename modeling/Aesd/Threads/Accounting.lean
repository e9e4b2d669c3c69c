import Aesd.Threads.Nodes

/-!
# Every step keeps the accounts

`Kept` joins the mutex, the accounts of the nodes, and the position of the thread handler in its
traversal, which is an end of the list as long as the handler is inside. A thread outside works on no
node; so a step of the main thread that touches the books finds the handler outside, and the other way
round, and each such step is one of the changes of `Nodes`.
-/

namespace Aesd.Threads.Accounting

open Aesd.Threads.Model Aesd.Threads.Steps Aesd.Threads.Exclusion Aesd.Threads.Nodes

/-- The node the main thread works on, and its stage. -/
def mainFocus : MainPc → Option (ℕ × Stage)
  | .spawn fd n => some (n, .unborn fd)
  | .undo fd n => some (n, .unborn fd)
  | .release fd n => some (n, .scrapped fd)
  | .setId n id => some (n, .unnamed id)
  | _ => none

/-- The node the handler works on, and its stage. -/
def handlerFocus : HandlerPc → Option (ℕ × Stage)
  | .join _ n _ => some (n, .due)
  | .remove _ n _ => some (n, .joined)
  | .free _ n _ => some (n, .removed)
  | _ => none

/-- What the handler has not traversed yet. -/
def handlerRest : HandlerPc → List ℕ
  | .visit _ l => l
  | .join _ n l => n :: l
  | .remove _ n l => n :: l
  | .free _ _ l => l
  | .close l => l
  | _ => []

/-- The node worked on, and its stage. -/
def focus (s : State) : Option (ℕ × Stage) := (mainFocus s.main).or (handlerFocus s.handler)

/-- **The mutex, the accounts and the traversal.** -/
structure Kept (s : State) : Prop where
  locked : Locked s
  accounts : Accounts s.books (focus s)
  rest : handlerRest s.handler <:+ s.books.list

variable {s s' : State} {act : Act} {n : ℕ}

theorem mainFocus_of_outside {pc : MainPc} (h : pc.inside = false) : mainFocus pc = none := by
  cases pc <;> first | rfl | cases h

theorem handlerFocus_of_outside {pc : HandlerPc} (h : pc.inside = false) :
    handlerFocus pc = none := by
  cases pc <;> first | rfl | cases h

theorem handlerRest_of_outside {pc : HandlerPc} (h : pc.inside = false) : handlerRest pc = [] := by
  cases pc <;> first | rfl | cases h

@[simp] theorem handlerFocus_notified (pc : HandlerPc) :
    handlerFocus pc.notified = handlerFocus pc := by
  cases pc <;> rfl

@[simp] theorem handlerRest_notified (pc : HandlerPc) : handlerRest pc.notified = handlerRest pc := by
  cases pc <;> rfl

@[simp] theorem handlerFocus_woken (forced : Bool) :
    handlerFocus (.woken forced) = none := by
  cases forced <;> rfl

@[simp] theorem handlerRest_woken (forced : Bool) : handlerRest (.woken forced) = [] := by
  cases forced <;> rfl

@[simp] theorem handlerFocus_back (forced : Bool) : handlerFocus (.back forced) = none := by
  cases forced <;> rfl

@[simp] theorem handlerRest_back (forced : Bool) : handlerRest (.back forced) = [] := by
  cases forced <;> rfl

namespace Kept

theorem focus_of_main (h : Kept s) (hm : s.main.inside = true) : focus s = mainFocus s.main := by
  rw [focus, handlerFocus_of_outside (h.locked.handler_of_main hm), Option.or_none]

theorem focus_of_handler (h : Kept s) (hh : s.handler.inside = true) :
    focus s = handlerFocus s.handler := by
  rw [focus, mainFocus_of_outside (h.locked.main_of_handler hh), Option.none_or]

/-- While the mutex is free no node is worked on. -/
theorem focus_of_free (h : Kept s) (hm : s.mutex = none) : focus s = none := by
  rw [focus, mainFocus_of_outside (h.locked.main_outside hm),
    handlerFocus_of_outside (h.locked.handler_outside hm), Option.or_none]

/-- The accounts as a thread inside the mutex finds them. -/
theorem accounts_of_main (h : Kept s) {f : Option (ℕ × Stage)} (hm : s.main.inside = true)
    (hf : mainFocus s.main = f) : Accounts s.books f := by
  have ha := h.accounts
  rwa [h.focus_of_main hm, hf] at ha

theorem accounts_of_handler (h : Kept s) {f : Option (ℕ × Stage)} (hh : s.handler.inside = true)
    (hf : handlerFocus s.handler = f) : Accounts s.books f := by
  have ha := h.accounts
  rwa [h.focus_of_handler hh, hf] at ha

theorem main_account (h : Kept s) {st : Stage} (hf : mainFocus s.main = some (n, st)) :
    Account s.books n (some st) := by
  have hin : s.main.inside = true := by
    by_contra hout
    rw [mainFocus_of_outside (by simpa using hout)] at hf
    cases hf
  exact (h.accounts_of_main hin hf).worked

theorem handler_account (h : Kept s) {st : Stage} (hf : handlerFocus s.handler = some (n, st)) :
    Account s.books n (some st) := by
  have hin : s.handler.inside = true := by
    by_contra hout
    rw [handlerFocus_of_outside (by simpa using hout)] at hf
    cases hf
  exact (h.accounts_of_handler hin hf).worked

/-- The handler has nothing in hand while the main thread is inside. -/
theorem rest_of_main (h : Kept s) (hm : s.main.inside = true) : handlerRest s.handler = [] :=
  handlerRest_of_outside (h.locked.handler_of_main hm)

/-! ### The steps -/

/-- What the main thread establishes by a step inside. -/
theorem of_main (h : Kept s) (hl : Locked s') (hm : s.main.inside = true)
    (hh : s'.handler = s.handler) (ha : Accounts s'.books (mainFocus s'.main)) : Kept s' := by
  refine ⟨hl, ?_, ?_⟩
  · rwa [focus, hh, handlerFocus_of_outside (h.locked.handler_of_main hm), Option.or_none]
  · rw [hh, h.rest_of_main hm]
    exact List.nil_suffix

/-- What the handler establishes by a step inside. -/
theorem of_handler (h : Kept s) (hl : Locked s') (hh : s.handler.inside = true)
    (hm : s'.main = s.main) (ha : Accounts s'.books (handlerFocus s'.handler))
    (hr : handlerRest s'.handler <:+ s'.books.list) : Kept s' := by
  refine ⟨hl, ?_, hr⟩
  rwa [focus, hm, mainFocus_of_outside (h.locked.main_of_handler hh), Option.none_or]

/-- A step that leaves the books and what is worked on. -/
theorem of_quiet (h : Kept s) (hl : Locked s') (hb : s'.books = s.books) (hf : focus s' = focus s)
    (hr : handlerRest s'.handler <:+ s.books.list) : Kept s' := by
  refine ⟨hl, ?_, ?_⟩
  · rw [hb, hf]
    exact h.accounts
  · rwa [hb]

theorem mainStep (h : Kept s) (hm : MainStep s act s') : Kept s' := by
  have hl := h.locked.mainStep hm
  cases hm with
  | testOn hp | testOff hp | acceptFailed hp | accepted hp | stop hp | close hp | join hp | lock hp
  | wakeLock hp | addFailed hp | spawnFailed hp | unlock hp | unlockFailed hp | wakeUnlock hp =>
    exact h.of_quiet hl rfl (by simp [focus, hp, mainFocus]) h.rest
  | broadcast hp =>
    exact h.of_quiet hl rfl (by simp [focus, hp, mainFocus])
      (by rw [handlerRest_notified]; exact h.rest)
  | @add fd hp =>
    exact h.of_main hl (by rw [hp]; rfl) rfl
      ((h.accounts_of_main (f := none) (by rw [hp]; rfl) (by rw [hp]; rfl)).add fd)
  | @spawn fd m id hp hi =>
    exact h.of_main hl (by rw [hp]; rfl) rfl
      ((h.accounts_of_main (f := some (m, .unborn fd)) (by rw [hp]; rfl) (by rw [hp]; rfl)).spawn hi)
  | @undo fd m l hp hlist =>
    exact h.of_main hl (by rw [hp]; rfl) rfl
      ((h.accounts_of_main (f := some (m, .unborn fd)) (by rw [hp]; rfl) (by rw [hp]; rfl)).undo hlist)
  | @release fd m hp =>
    exact h.of_main hl (by rw [hp]; rfl) rfl
      (h.accounts_of_main (f := some (m, .scrapped fd)) (by rw [hp]; rfl) (by rw [hp]; rfl)).release
  | @setId m id nd hp hn =>
    exact h.of_main hl (by rw [hp]; rfl) rfl
      ((h.accounts_of_main (f := some (m, .unnamed id)) (by rw [hp]; rfl) (by rw [hp]; rfl)).setId hn)

/-- The current node of a traversal is in the list. -/
theorem rest_mem (h : Kept s) {l : List ℕ} (hr : handlerRest s.handler = n :: l) :
    n ∈ s.books.list := by
  have hs := h.rest
  rw [hr] at hs
  exact hs.subset List.mem_cons_self

/-- The rest of a traversal stays an end of the list, also when the node before it is removed. -/
theorem rest_tail (h : Kept s) {l : List ℕ} (hr : handlerRest s.handler = n :: l) :
    l <:+ s.books.list ∧ l <:+ s.books.list.erase n := by
  have hs := h.rest
  rw [hr] at hs
  obtain ⟨t, ht⟩ := hs
  refine ⟨⟨t ++ [n], by simp [← ht]⟩, t, ?_⟩
  have hnodup := h.accounts.nodup
  rw [← ht, List.nodup_append] at hnodup
  have hn : n ∉ t := fun hn => hnodup.2.2 n hn n List.mem_cons_self rfl
  rw [← ht, List.erase_append_right _ hn, List.erase_cons_head]

theorem handlerStep (h : Kept s) (hh : HandlerStep s s') : Kept s' := by
  have hl := h.locked.handlerStep hh
  cases hh with
  | lock hp | outerOn hp | outerOff hp | innerOn hp | innerOff hp | scanFound hp | scanNone hp
  | sleep hp | testOff hp | unlock hp | closeEnd hp | forcedOuterEnd hp | forcedOuter hp
  | forcedInner hp | forcedScanNone hp | forceUnlock hp =>
    exact h.of_quiet hl rfl (by simp [focus, hp, handlerFocus]) List.nil_suffix
  | wake hp | visitEnd hp =>
    have hf : handlerFocus s.handler = none := by rw [hp]; rfl
    exact h.of_quiet hl rfl (by simp [focus, hf]) (by simp)
  | testOn hp | forceLock hp | forcedInnerEnd hp | forcedScanFound hp =>
    exact h.of_quiet hl rfl (by simp [focus, hp, handlerFocus]) List.suffix_rfl
  | visitNext hp =>
    exact h.of_quiet hl rfl (by simp [focus, hp, handlerFocus]) (h.rest_tail (by rw [hp]; rfl)).1
  | closeNone hp =>
    exact h.of_quiet hl rfl (by simp [focus, hp, handlerFocus]) (h.rest_tail (by rw [hp]; rfl)).1
  | @visitCompleted forced m rest hp hc =>
    have ha : Accounts s.books none := h.accounts_of_handler (by rw [hp]; rfl) (by rw [hp]; rfl)
    have hr : handlerRest s.handler = m :: rest := by rw [hp]; rfl
    have hend : m :: rest <:+ s.books.list := hr ▸ h.rest
    exact h.of_handler hl (by rw [hp]; rfl) rfl (ha.due (h.rest_mem hr) hc) hend
  | @join forced m rest nd hp hn hc =>
    have ha : Accounts s.books (some (m, .due)) :=
      h.accounts_of_handler (by rw [hp]; rfl) (by rw [hp]; rfl)
    have hr : handlerRest s.handler = m :: rest := by rw [hp]; rfl
    have hend : m :: rest <:+ s.books.list := hr ▸ h.rest
    exact h.of_handler hl (by rw [hp]; rfl) rfl (ha.join hn hc) hend
  | @remove forced m rest hp =>
    have ha : Accounts s.books (some (m, .joined)) :=
      h.accounts_of_handler (by rw [hp]; rfl) (by rw [hp]; rfl)
    exact h.of_handler hl (by rw [hp]; rfl) rfl ha.remove (h.rest_tail (by rw [hp]; rfl)).2
  | @free forced m rest hp =>
    have ha : Accounts s.books (some (m, .removed)) :=
      h.accounts_of_handler (by rw [hp]; rfl) (by rw [hp]; rfl)
    have hr : handlerRest s.handler = rest := by rw [hp]; rfl
    exact h.of_handler hl (by rw [hp]; rfl) rfl ha.free (hr ▸ h.rest)
  | @closeSome m fd k rest nd hp hn hf hk =>
    have ha : Accounts s.books none := h.accounts_of_handler (by rw [hp]; rfl) (by rw [hp]; rfl)
    have hr : handlerRest s.handler = m :: rest := by rw [hp]; rfl
    exact h.of_handler hl (by rw [hp]; rfl) rfl (ha.closeNode (h.rest_mem hr) hn) (h.rest_tail hr).1

/-- The client threads work on their own nodes. -/
theorem of_client (h : Kept s) (hl : Locked s') (hm : s'.main = s.main)
    (hh : s'.handler = s.handler ∨ s'.handler = s.handler.notified)
    (hlist : s'.books.list = s.books.list) (ha : Accounts s'.books (focus s)) : Kept s' := by
  refine ⟨hl, ?_, ?_⟩
  · have hf : focus s' = focus s := by
      rcases hh with hh | hh <;> simp [focus, hm, hh]
    exact hf ▸ ha
  · rw [hlist]
    rcases hh with hh | hh <;> simpa [hh] using h.rest

theorem clientStep (h : Kept s) (hc : ClientStep s n s') : Kept s' := by
  have hl := h.locked.clientStep hc
  cases hc with
  | start hp | run hp | unlock hp | exiting hp | lock hp =>
    exact h.of_client hl rfl (Or.inl rfl) rfl
      (h.accounts.move hp (by simp) rfl (by simp [ClientPc.closed]))
  | signal hp =>
    exact h.of_client hl rfl (Or.inr rfl) rfl
      (h.accounts.move hp (by simp) rfl (by simp [ClientPc.closed]))
  | closeNone hp hn hf =>
    refine h.of_client hl rfl (Or.inl rfl) rfl ?_
    have := h.accounts.goOn _ .complete hn hp (by simp) rfl id id fun _ _ => hf
    rwa [setNode_self hn] at this
  | @closeSome nd fd m hp hn hf hk =>
    exact h.of_client hl rfl (Or.inl rfl) rfl
      (h.accounts.goOn { nd with clientSockFd := none } .complete hn hp (by simp) rfl id id
        fun _ _ => rfl)
  | @complete nd hp hn =>
    exact h.of_client hl rfl (Or.inl rfl) rfl
      (h.accounts.goOn { nd with threadCompleted := true } .signal hn hp (by simp) rfl
        (fun _ => rfl) (fun _ => rfl) fun hc _ => hc rfl)

end Kept

end Aesd.Threads.Accounting
