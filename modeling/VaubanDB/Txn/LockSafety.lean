import VaubanDB.Txn.LockQueue

/-!
Safety of the lock manager over every interleaving of its sections.

`Ordered` holds in every state: the holders are compatible and of one mode per family, the first
candidate of each queue is refused by a holder of another transaction, and plain requests are
granted in arrival order.  `Honest` says that what a transaction was granted is still covered by
what it holds; it needs that a transaction does not run two calls on one resource at once (`Alone`).
-/

namespace VaubanDB

open List (pairwise_append mem_singleton mem_append mem_map)

namespace LockTable

variable (t : LockTable)

@[simp] lemma entry_insert (r r' : LockResource) (e : LockEntry) (n : ℕ) (g : List ℕ) :
    (⟨t.entries.insert r e, n, g⟩ : LockTable).entry r' = if r' = r then e else t.entry r' := by
  simp only [entry, OrderedMap.get?_insert]
  split <;> rfl

lemma entry_setEntry (r r' : LockResource) (e : LockEntry) :
    (t.setEntry r e).entry r' = if r' = r then e else t.entry r' := by
  rw [setEntry]
  split
  · rename_i hempty
    have he : e = .empty := by
      simp only [LockEntry.isEmpty, Bool.and_eq_true, List.isEmpty_iff] at hempty
      cases e
      simp_all [LockEntry.empty]
    by_cases h : r' = r
    · subst h
      simp [entry, he]
    · simp [entry, h, OrderedMap.get?_erase_ne]
  · exact entry_insert t r r' e _ _

lemma entry_grantPass (r r' : LockResource) : (t.grantPass r).entry r' =
      if r' = r then (LockEntry.grantLoop (t.entry r).holders (t.entry r).queue).1
      else t.entry r' :=
  entry_setEntry t r r' _

@[simp] lemma nextTicket_grantPass (r : LockResource) :
    (t.grantPass r).nextTicket = t.nextTicket := by
  simp only [grantPass, setEntry]
  split <;> rfl

@[simp] lemma granted_grantPass (r : LockResource) :
    (t.grantPass r).granted = t.granted ++ (t.grants r).map Waiter.ticket := rfl

end LockTable

namespace LockWorld

open LockTable (dropTicket enqueue entry_insert entry_grantPass)

/-! ### What holds in every state -/

/-- The table and the log are in order; the front of `skip` has not been looked at yet. -/
structure Ordered (w : LockWorld) (skip : Option LockResource) : Prop where
  holders : ∀ r, HoldersSound (w.table.entry r).holders
  refused : ∀ r x, some r ≠ skip → (w.table.entry r).queue.head? = some x →
    holdersAllow (w.table.entry r).holders x.txn x.mode = false
  queues : ∀ r, QueueLog r (w.table.entry r).queue w.log
  numbered : w.log.Pairwise Numbered
  fresh : ∀ r x, .queued r x ∈ w.log → x.ticket < w.table.nextTicket
  parked : ∀ c ∈ w.parked, c.ticket < w.table.nextTicket
  order : InArrivalOrder w.log

variable {x : Waiter} {r : LockResource}

/-- A call that looks at its ticket is answered, goes on waiting, or gives up: then its candidate,
if there is one, leaves the queue. -/
lemma wake_rule {w : LockWorld} {c : LockCall} (P : LockWorld → Prop) (givesUp : Bool)
    (h : givesUp = false → P w)
    (hanswer : c.ticket ∈ w.table.granted → P ((w.unpark c).answer c))
    (hunpark : c.ticket ∉ w.table.granted →
      (∀ x ∈ (w.table.entry c.resource).queue, x.ticket ≠ c.ticket) → P (w.unpark c))
    (hdrop : c.ticket ∉ w.table.granted → ∀ x ∈ (w.table.entry c.resource).queue,
      x.ticket = c.ticket → P (((w.unpark c).drop c.resource x).grantPass c.resource)) :
    P (w.wake c givesUp) := by
  simp only [wake, List.contains_iff_mem]
  split_ifs with hg hgives
  · exact hanswer hg
  · rw [giveUp]
    cases hx : (w.unpark c).table.waiting c.resource c.ticket with
    | none => exact hunpark hg fun x hx' => by simpa using List.find?_eq_none.mp hx x hx'
    | some x => exact hdrop hg x (List.mem_of_find?_eq_some hx) (by simpa using List.find?_some hx)
  · exact h (by simpa using hgives)

lemma drop_holders (w : LockWorld) (r r' : LockResource) (x : Waiter) :
    ((w.drop r x).table.entry r').holders = (w.table.entry r').holders := by
  simp only [drop, dropTicket, entry_insert]
  split_ifs with hr
  · rw [hr]
  · rfl

lemma mem_queue_of_grants {t : LockTable} (hx : x ∈ t.grants r) : x ∈ (t.entry r).queue := by
  rw [← LockEntry.grantLoop_append (t.entry r).holders (t.entry r).queue]
  exact List.mem_append_left _ hx

namespace Ordered

variable {w : LockWorld}

lemma initial : LockWorld.initial.Ordered none where
  holders _ := .nil
  refused := nofun
  queues _ := ⟨.nil, nofun, nofun⟩
  numbered := .nil
  fresh := nofun
  parked := nofun
  order := by
    intro pre post r y h
    simp [LockWorld.initial] at h

lemma numbered_append {log new : List LockEvent} (h : log.Pairwise Numbered)
    (hnew : ∀ e ∈ new, ∀ r x, e ≠ .queued r x) : (log ++ new).Pairwise Numbered := by
  have hright : ∀ e e', e' ∈ new → Numbered e e' := by
    intro e e' he'
    cases e' with
    | queued r x => exact absurd rfl (hnew _ he' r x)
    | granted r x | left r x => cases e <;> trivial
  refine pairwise_append.mpr ⟨h, ?_, fun e _ e' he' => hright e e' he'⟩
  exact List.pairwise_of_forall_mem_list fun e he e' he' => hright e e' he'

lemma grantPass (h : w.Ordered (some r)) : (w.grantPass r).Ordered none := by
  have hloop := (h.queues r).grantLoop (w.table.entry r).holders h.numbered h.order
  refine ⟨fun r' => ?_, fun r' x _ hx => ?_, fun r' => ?_, ?_, fun r' x hx => ?_, ?_, hloop.2⟩
  · simp only [LockWorld.grantPass, entry_grantPass]
    split
    · exact LockEntry.grantLoop_sound (h.holders r) _
    · exact h.holders r'
  · simp only [LockWorld.grantPass, entry_grantPass] at hx ⊢
    split
    · rename_i hr
      rw [if_pos hr] at hx
      exact LockEntry.grantLoop_refused hx
    · rename_i hr
      rw [if_neg hr] at hx
      exact h.refused r' x (by simp [hr]) hx
  · simp only [LockWorld.grantPass, entry_grantPass]
    split_ifs with hr
    · subst hr
      exact hloop.1
    · exact (h.queues r').append_other fun x hx => by simp at hx
  · exact numbered_append h.numbered fun e he r x heq => by simp [heq] at he
  · simp only [LockWorld.grantPass, LockTable.nextTicket_grantPass] at hx ⊢
    refine h.fresh r' x ?_
    simpa using hx
  · simpa [LockWorld.grantPass] using h.parked

variable (h : w.Ordered none)
include h

/-- An entry loses some of its candidates, and the next one has not been looked at yet. -/
lemma left {e : LockEntry} (gone : List Waiter) (served : List Grant)
    (hholders : HoldersSound e.holders) (hsub : e.queue.Sublist (w.table.entry r).queue)
    (hgone : ∀ y ∈ (w.table.entry r).queue, y ∈ e.queue ∨ y ∈ gone) : Ordered { w with
      table := { w.table with entries := w.table.entries.insert r e }
      served
      log := w.log ++ gone.map (.left r) } (some r) := by
  refine ⟨fun r' => ?_, fun r' y hr' hy => ?_, fun r' => ?_,
    numbered_append h.numbered fun e he r x heq => by simp [heq] at he,
    fun r' y hy => h.fresh r' y (by simpa using hy), h.parked,
    h.order.append fun r' y hy => by simp at hy⟩
  · simp only [entry_insert]
    split
    · exact hholders
    · exact h.holders r'
  · have hne : r' ≠ r := fun heq => hr' (by rw [heq])
    simp only [entry_insert, if_neg hne] at hy ⊢
    exact h.refused r' y (by simp) hy
  · simp only [entry_insert]
    split_ifs with hr
    · subst hr
      exact (h.queues r').leave gone hsub hgone
    · exact (h.queues r').append_other fun y hy => by simp at hy

lemma drop (hx : x ∈ (w.table.entry r).queue) : (w.drop r x).Ordered (some r) := by
  refine h.left [x] w.served (h.holders r) List.eraseP_sublist fun y hy => ?_
  by_cases hyt : y.ticket = x.ticket
  · have heq := eq_of_ticket h.numbered ((h.queues r).logged y hy) ((h.queues r).logged x hx) hyt
    exact .inr (by simp [heq.2])
  · exact .inl ((List.mem_eraseP_of_neg (by simpa using hyt)).mpr hy)

lemma leave (txn : TxnId) (r : LockResource) : (w.leave txn r).Ordered (some r) := by
  refine h.left _ _ ((h.holders r).filter _) List.filter_sublist fun y hy => ?_
  by_cases hyt : y.txn = txn
  · exact .inr (by simp [hy, hyt])
  · exact .inl (by simp [LockEntry.without, hy, hyt])

lemma retire (txn : TxnId) (r : LockResource) :
    (w.retire txn r).Ordered none := (h.leave txn r).grantPass

lemma answer (c : LockCall) : (w.answer c).Ordered none := { h with }

lemma unpark (c : LockCall) : (w.unpark c).Ordered none :=
  { h with parked := fun c' hc' => h.parked c' (List.mem_of_mem_erase hc') }

lemma wake (c : LockCall) (givesUp : Bool) : (w.wake c givesUp).Ordered none :=
  wake_rule (Ordered · none) givesUp (fun _ => h) (fun _ => (h.unpark c).answer c)
    (fun _ _ => h.unpark c) fun _ _ hx _ => ((h.unpark c).drop hx).grantPass

end Ordered

/-! ### A request -/

variable {w : LockWorld}

def queued (w : LockWorld) (r : LockResource) (x : Waiter) (c : LockCall) : LockWorld :=
  { w with
    table := { w.table with
      entries := w.table.entries.insert r ((w.table.entry r).put x)
      nextTicket := w.table.nextTicket + 1 }
    parked := w.parked ++ [c]
    log := w.log ++ [.queued r x] }

variable {mode : LockMode}

lemma queued_holders (w : LockWorld) (r r' : LockResource) (x : Waiter) (c : LockCall) :
    ((w.queued r x c).table.entry r').holders = (w.table.entry r').holders := by
  simp only [queued, entry_insert]
  split_ifs with hr
  · rw [LockEntry.put_holders, hr]
  · rfl

lemma ticket_of_request {t : LockTable} {txn : TxnId}
    (hx : t.request txn r mode = .queued x) : x.ticket = t.nextTicket := by
  simp only [LockTable.request] at hx
  split at hx
  · split at hx <;> cases hx
    rfl
  · cases hx
    rfl

/-- A request that is not covered joins the queue, and goes on as a call that was woken up. -/
lemma request_eq (h : w.Ordered none) {txn : TxnId}
    (hx : w.table.request txn r mode = .queued x) (givesUp : Bool) : w.request txn r mode givesUp =
      ((w.queued r x ⟨x.ticket, txn, r, mode⟩).grantPass r).wake ⟨x.ticket, txn, r, mode⟩
        givesUp := by
  have hticket := ticket_of_request hx
  have hnew : (⟨x.ticket, txn, r, mode⟩ : LockCall) ∉ w.parked := by
    intro hc
    have := h.parked _ hc
    rw [hticket] at this
    exact lt_irrefl _ this
  have herase : (w.parked ++ [(⟨x.ticket, txn, r, mode⟩ : LockCall)]).erase
      ⟨x.ticket, txn, r, mode⟩ = w.parked := by
    rw [List.erase_append_right _ hnew]
    simp
  rw [request, enqueue, hx]
  simp only [wake, unpark, queued, grantPass, herase]
  rfl

lemma Ordered.queued (h : w.Ordered none)
    (hticket : x.ticket = w.table.nextTicket) (c : LockCall) (hc : c.ticket = x.ticket) :
    (w.queued r x c).Ordered (some r) := by
  refine ⟨fun r' => ?_, fun r' y hr' hy => ?_, fun r' => ?_, ?_, fun r' y hy => ?_,
    fun c' hc' => ?_, ?_⟩
  · rw [queued_holders]
    exact h.holders r'
  · have hne : r' ≠ r := fun heq => hr' (by rw [heq])
    simp only [LockWorld.queued, entry_insert, if_neg hne] at hy ⊢
    exact h.refused r' y (by simp) hy
  · simp only [LockWorld.queued, entry_insert]
    split_ifs with hr
    · subst hr
      exact (h.queues r').put fun y hy => hticket ▸ h.fresh r' y hy
    · refine (h.queues r').append_other fun y hy => ?_
      simp only [mem_singleton, LockEvent.queued.injEq] at hy
      exact hr hy.1
  · refine pairwise_append.mpr ⟨h.numbered, List.pairwise_singleton .., fun e he e' he' => ?_⟩
    rw [mem_singleton] at he'
    subst he'
    cases e with
    | queued r' y => exact (h.fresh r' y he).trans_eq hticket.symm
    | granted | left => trivial
  · rcases mem_append.mp hy with hy | hy
    · exact (h.fresh r' y hy).trans (Nat.lt_succ_self _)
    · simp only [mem_singleton, LockEvent.queued.injEq] at hy
      rw [hy.2, hticket]
      exact Nat.lt_succ_self _
  · rcases mem_append.mp hc' with hc' | hc'
    · exact (h.parked c' hc').trans (Nat.lt_succ_self _)
    · rw [mem_singleton] at hc'
      rw [hc', hc, hticket]
      exact Nat.lt_succ_self _
  · exact h.order.append fun r' y hy => by simp at hy

lemma Ordered.request (h : w.Ordered none) (txn : TxnId) (r : LockResource) (mode : LockMode)
    (givesUp : Bool) : (w.request txn r mode givesUp).Ordered none := by
  cases hx : w.table.request txn r mode with
  | reentrant =>
    rw [LockWorld.request, enqueue, hx]
    exact { h with
      fresh := fun r' x hx => (h.fresh r' x hx).trans (Nat.lt_succ_self _)
      parked := fun c hc => (h.parked c hc).trans (Nat.lt_succ_self _) }
  | queued x =>
    rw [request_eq h hx]
    exact ((h.queued (ticket_of_request hx) _ rfl).grantPass).wake _ _

variable {w' : LockWorld} {a : LockAction}

/-- A property that a request, a wake-up of a waiting call and the return of a single resource keep
is kept by every section.  While resources are given back, the same calls wait. -/
lemma exec_rule (P : LockWorld → Prop) (hs : w.exec a = some w')
    (h : P w) (hrequest : ∀ txn r mode givesUp, a = .request txn r mode givesUp →
      P (w.request txn r mode givesUp))
    (hwake : ∀ c givesUp, a = .wake c givesUp → c ∈ w.parked → P (w.wake c givesUp))
    (hretire : ∀ txn r v, (a = .unlock txn r ∨ ∃ order, a = .releaseAll txn order) →
      v.parked = w.parked → (w.Ordered none → v.Ordered none) → P v → P (v.retire txn r)) :
    P w' := by
  cases a with
  | request txn r mode givesUp =>
    cases hs
    exact hrequest txn r mode givesUp rfl
  | wake c givesUp =>
    rw [exec] at hs
    split_ifs at hs with hc
    cases hs
    exact hwake c givesUp rfl hc
  | unlock txn r =>
    rw [exec] at hs
    split_ifs at hs <;> cases hs
    · exact hretire txn r w (.inl rfl) rfl id h
    · exact h
  | releaseAll txn order =>
    rw [exec] at hs
    split_ifs at hs
    cases hs
    refine (List.foldlRecOn order (fun v r => retire v txn r) (motive := fun v =>
      v.parked = w.parked ∧ (w.Ordered none → v.Ordered none) ∧ P v) ⟨rfl, id, h⟩ ?_).2.2
    rintro v ⟨hparked, ho, hv⟩ r _
    exact ⟨hparked, fun hw => (ho hw).retire txn r,
      hretire txn r v (.inr ⟨order, rfl⟩) hparked ho hv⟩

lemma Ordered.exec (h : w.Ordered none) (hs : w.exec a = some w') : w'.Ordered none :=
  exec_rule (Ordered · none) hs h (fun txn r mode givesUp _ => h.request txn r mode givesUp)
    (fun c givesUp _ _ => h.wake c givesUp) fun txn r _ _ _ _ hv => hv.retire txn r

/-! ### What a transaction was granted -/

/-- What was granted is covered by what is held. -/
structure Honest (w : LockWorld) : Prop where
  faithful : ∀ r, Faithful (w.table.entry r).holders (w.table.entry r).queue
  parked : w.parked.Pairwise fun c c' => c.ticket ≠ c'.ticket
  calls : ∀ r, ∀ x ∈ (w.table.entry r).queue, ∃ c ∈ w.parked, c.ticket = x.ticket ∧
    c.txn = x.txn ∧ c.resource = r ∧ x.mode.covers c.mode = true
  tickets : ∀ r, ∀ x ∈ (w.table.entry r).queue, x.ticket ∉ w.table.granted
  nodup : w.table.granted.Nodup
  granted : ∀ ticket ∈ w.table.granted, ∃ c ∈ w.parked, c.ticket = ticket ∧
    HeldCovers (w.table.entry c.resource).holders c.txn c.mode
  served : ∀ g ∈ w.served, HeldCovers (w.table.entry g.resource).holders g.txn g.mode

namespace Honest

variable {w : LockWorld} {r : LockResource} {c : LockCall} {txn : TxnId}

lemma initial : LockWorld.initial.Honest where
  faithful _ := ⟨.nil, nofun⟩
  parked := .nil
  calls := nofun
  tickets := nofun
  nodup := .nil
  granted := nofun
  served := nofun

lemma grantPass {skip : Option LockResource} (ho : w.Ordered skip) (h : w.Honest) :
    (w.grantPass r).Honest := by
  have hsplit := LockEntry.grantLoop_append (w.table.entry r).holders (w.table.entry r).queue
  have hshape := (ho.queues r).shape
  rw [← hsplit, pairwise_append] at hshape
  have hrest : ∀ x ∈ (LockEntry.grantLoop (w.table.entry r).holders
      (w.table.entry r).queue).1.queue, x ∈ (w.table.entry r).queue := fun x hx => by
    rw [← hsplit]
    exact List.mem_append_right _ hx
  have hcovered : ∀ r' txn m, HeldCovers (w.table.entry r').holders txn m →
      HeldCovers ((w.table.grantPass r).entry r').holders txn m := by
    intro r' txn m hc
    rw [entry_grantPass]
    split_ifs with hr
    · subst hr
      exact LockEntry.grantLoop_covered (h.faithful r') hc
    · exact hc
  have hqueue : ∀ r' x, x ∈ ((w.table.grantPass r).entry r').queue →
      x ∈ (w.table.entry r').queue := by
    intro r' x hx
    rw [entry_grantPass] at hx
    split at hx
    · rename_i hr
      subst hr
      exact hrest x hx
    · exact hx
  refine ⟨fun r' => ?_, h.parked, fun r' x hx => h.calls r' x (hqueue r' x hx),
    fun r' x hx hg => ?_, ?_, fun ticket ht => ?_, fun g hg => hcovered _ _ _ (h.served g hg)⟩
  · simp only [LockWorld.grantPass, entry_grantPass]
    split
    · exact LockEntry.grantLoop_faithful (h.faithful r)
    · exact h.faithful r'
  · rcases mem_append.mp hg with hg | hg
    · exact h.tickets r' x (hqueue r' x hx) hg
    · -- two requests with one ticket are one request, and it is not in the queue any more
      obtain ⟨y, hy, hticket⟩ := mem_map.mp hg
      obtain ⟨rfl, rfl⟩ := eq_of_ticket ho.numbered ((ho.queues r').logged x (hqueue r' x hx))
        ((ho.queues r).logged y (mem_queue_of_grants hy)) hticket.symm
      simp only [grantPass, entry_grantPass, if_pos] at hx
      exact (hshape.2.2 x hy x hx).ne rfl
  · refine List.nodup_append.mpr ⟨h.nodup, ?_, ?_⟩
    · exact List.pairwise_map.mpr (hshape.1.imp fun hxy => hxy.ne)
    · rintro ticket ht _ hg rfl
      obtain ⟨y, hy, rfl⟩ := mem_map.mp hg
      exact h.tickets r y (mem_queue_of_grants hy) ht
  · rcases mem_append.mp ht with ht | ht
    · obtain ⟨c, hc, hct, hcov⟩ := h.granted ticket ht
      exact ⟨c, hc, hct, hcovered _ _ _ hcov⟩
    · obtain ⟨y, hy, rfl⟩ := mem_map.mp ht
      obtain ⟨c, hc, hct, htxn, rfl, hmode⟩ := h.calls r y (mem_queue_of_grants hy)
      obtain ⟨hh, hmem, hhtxn, hhcov⟩ := LockEntry.grantLoop_granted (h.faithful c.resource) hy
      refine ⟨c, hc, hct, hh, ?_, hhtxn.trans htxn.symm, LockMode.covers_trans hhcov hmode⟩
      simpa [grantPass, entry_grantPass] using hmem

lemma mem_unpark {c' : LockCall} (hc' : c' ∈ w.parked) (hne : c'.ticket ≠ c.ticket) :
    c' ∈ (w.unpark c).parked :=
  (List.mem_erase_of_ne fun heq => hne (by rw [heq])).mpr hc'

lemma unpark (h : w.Honest) (hgranted : c.ticket ∉ w.table.granted)
    (hqueue : ∀ x ∈ (w.table.entry c.resource).queue, x.ticket ≠ c.ticket) :
    (w.unpark c).Honest := by
  refine ⟨h.faithful, h.parked.sublist List.erase_sublist, fun r x hx => ?_, h.tickets, h.nodup,
    fun ticket ht => ?_, h.served⟩
  · obtain ⟨c', hc', hct, htxn, hr, hmode⟩ := h.calls r x hx
    by_cases hcc : c' = c
    · subst hcc hr
      exact absurd hct.symm (hqueue x hx)
    · exact ⟨c', (List.mem_erase_of_ne hcc).mpr hc', hct, htxn, hr, hmode⟩
  · obtain ⟨c', hc', rfl, hcov⟩ := h.granted ticket ht
    exact ⟨c', mem_unpark hc' fun heq => hgranted (heq ▸ ht), rfl, hcov⟩

lemma answer (h : w.Honest) (hc : c ∈ w.parked) (hgranted : c.ticket ∈ w.table.granted) :
    ((w.unpark c).answer c).Honest := by
  obtain ⟨c', hc', hct, hcov⟩ := h.granted c.ticket hgranted
  have : Std.Symm fun c c' : LockCall => c.ticket ≠ c'.ticket := ⟨fun _ _ => Ne.symm⟩
  have heq : c' = c := by
    by_contra hne
    exact h.parked.forall hc' hc hne hct
  subst heq
  refine ⟨h.faithful, h.parked.sublist List.erase_sublist, fun r x hx => ?_, fun r x hx hg => ?_,
    h.nodup.erase _, fun ticket ht => ?_, fun g hg => ?_⟩
  · obtain ⟨d, hd, hdt, hrest⟩ := h.calls r x hx
    refine ⟨d, mem_unpark hd fun heq => ?_, hdt, hrest⟩
    exact h.tickets r x hx (hdt ▸ heq ▸ hgranted)
  · exact h.tickets r x hx (List.mem_of_mem_erase hg)
  · obtain ⟨hne, ht⟩ := h.nodup.mem_erase_iff.mp ht
    obtain ⟨d, hd, rfl, hdcov⟩ := h.granted ticket ht
    exact ⟨d, mem_unpark hd hne, rfl, hdcov⟩
  · rcases mem_append.mp hg with hg | hg
    · exact h.served g hg
    · rw [mem_singleton] at hg
      subst hg
      exact hcov

lemma ticket_ne_of_mem_eraseP {queue : List Waiter} {ticket : ℕ} {y : Waiter}
    (hshape : queue.Pairwise Ahead) (hy : y ∈ queue.eraseP fun w => w.ticket = ticket) :
    y.ticket ≠ ticket := by
  induction queue with
  | nil => simp at hy
  | cons x queue ih =>
    rw [List.pairwise_cons] at hshape
    by_cases hx : x.ticket = ticket
    · rw [List.eraseP_cons_of_pos (by simpa using hx)] at hy
      exact fun hyt => (hshape.1 y hy).ne (hx.trans hyt.symm)
    · rw [List.eraseP_cons_of_neg (by simpa using hx)] at hy
      rcases List.mem_cons.mp hy with rfl | hy
      · exact hx
      · exact ih hshape.2 hy

lemma drop (ho : w.Ordered none) (h : w.Honest) (hgranted : c.ticket ∉ w.table.granted)
    (hx : x ∈ (w.table.entry c.resource).queue) (hticket : x.ticket = c.ticket) :
    ((w.unpark c).drop c.resource x).Honest := by
  have hsub : ∀ r, (((w.unpark c).drop c.resource x).table.entry r).queue.Sublist
      (w.table.entry r).queue := by
    intro r
    simp only [LockWorld.drop, LockWorld.unpark, dropTicket, entry_insert]
    split_ifs with hr
    · subst hr
      exact List.eraseP_sublist
    · exact List.Sublist.refl _
  have hholders : ∀ r, (((w.unpark c).drop c.resource x).table.entry r).holders =
      (w.table.entry r).holders := fun r => drop_holders ..
  refine ⟨fun r => ⟨(h.faithful r).distinct.sublist (hsub r), fun y hy => ?_⟩,
    h.parked.sublist List.erase_sublist, fun r y hy => ?_,
    fun r y hy => h.tickets r y ((hsub r).subset hy), h.nodup, fun ticket ht => ?_,
    fun g hg => ?_⟩
  · rw [hholders r]
    exact (h.faithful r).stronger y ((hsub r).subset hy)
  · obtain ⟨d, hd, hdt, hdtxn, hdr, hmode⟩ := h.calls r y ((hsub r).subset hy)
    refine ⟨d, mem_unpark hd fun heq => ?_, hdt, hdtxn, hdr, hmode⟩
    -- the only candidate with this ticket has left
    have hyt : y.ticket = x.ticket := hdt.symm.trans (heq.trans hticket.symm)
    obtain ⟨rfl, rfl⟩ := eq_of_ticket ho.numbered ((ho.queues r).logged y ((hsub r).subset hy))
      ((ho.queues c.resource).logged x hx) hyt
    simp only [LockWorld.drop, LockWorld.unpark, dropTicket, entry_insert,
      if_pos] at hy
    exact ticket_ne_of_mem_eraseP (ho.queues c.resource).shape hy rfl
  · obtain ⟨d, hd, rfl, hdcov⟩ := h.granted ticket ht
    refine ⟨d, mem_unpark hd fun heq => hgranted (heq ▸ ht), rfl, ?_⟩
    rw [hholders]
    exact hdcov
  · rw [hholders]
    exact h.served g hg

lemma wake (ho : w.Ordered none) (h : w.Honest) (hc : c ∈ w.parked) (givesUp : Bool) :
    (w.wake c givesUp).Honest :=
  wake_rule Honest givesUp (fun _ => h) (h.answer hc) h.unpark fun hg _ hx hticket =>
    grantPass ((ho.unpark c).drop hx) (h.drop ho hg hx hticket)

lemma retire (ho : w.Ordered none) (h : w.Honest)
    (hfree : ∀ c ∈ w.parked, c.txn = txn → c.resource ≠ r) : (w.retire txn r).Honest := by
  have hcovered : ∀ r' txn' m, ¬ (txn' = txn ∧ r' = r) →
      HeldCovers (w.table.entry r').holders txn' m →
      HeldCovers ((w.leave txn r).table.entry r').holders txn' m := by
    rintro r' txn' m hne ⟨g, hg, rfl, hcov⟩
    simp only [leave, LockTable.retire, entry_insert]
    split_ifs with hr
    · subst hr
      exact ⟨g, by simp [LockEntry.without, hg, show g.txn ≠ txn from fun heq => hne ⟨heq, rfl⟩],
        rfl, hcov⟩
    · exact ⟨g, hg, rfl, hcov⟩
  have hqueue : ∀ r' x, x ∈ ((w.leave txn r).table.entry r').queue →
      x ∈ (w.table.entry r').queue := by
    intro r' x hx
    simp only [leave, LockTable.retire, entry_insert] at hx
    split at hx
    · rename_i hr
      subst hr
      exact List.mem_of_mem_filter hx
    · exact hx
  refine grantPass (ho.leave txn r) ⟨fun r' => ?_, h.parked,
    fun r' x hx => h.calls r' x (hqueue r' x hx), fun r' x hx => h.tickets r' x (hqueue r' x hx),
    h.nodup, fun ticket ht => ?_, fun g hg => ?_⟩
  · simp only [leave, LockTable.retire, entry_insert]
    split
    · refine ⟨(h.faithful r).distinct.filter _, fun x hx g hg => ?_⟩
      exact (h.faithful r).stronger x (List.mem_of_mem_filter hx) g (List.mem_of_mem_filter hg)
    · exact h.faithful r'
  · obtain ⟨c, hc, hct, hcov⟩ := h.granted ticket ht
    exact ⟨c, hc, hct, hcovered _ _ _ (fun heq => hfree c hc heq.1 heq.2) hcov⟩
  · have hg' := List.mem_filter.mp hg
    exact hcovered _ _ _ (not_and_or.mpr (by simpa using hg'.2)) (h.served g hg'.1)

/-- A candidate asks for what its call asked and for at least what its transaction holds. -/
lemma request_spec {t : LockTable}
    (hs : HoldersSound (t.entry r).holders) (hx : t.request txn r mode = .queued x) :
    x.txn = txn ∧ x.mode.covers mode = true ∧
      ∀ g ∈ (t.entry r).holders, g.txn = txn → g.mode.isData = x.mode.isData →
        x.mode.covers g.mode = true := by
  simp only [LockTable.request] at hx
  split at hx
  · rename_i held hheld
    have hdata := (mem_of_holderOf hheld).2
    split at hx <;> cases hx
    refine ⟨rfl, LockMode.join_covers_right hdata, fun g hg hgt hgd => ?_⟩
    rw [LockMode.isData_join hdata] at hgd
    rw [hs.eq_of_holderOf hheld hg hgt hgd]
    exact LockMode.join_covers_left hdata
  · rename_i hnone
    cases hx
    exact ⟨rfl, LockMode.covers_refl _,
      fun g hg hgt hgd => absurd hgd (holderOf_eq_none hnone hg hgt)⟩

lemma queued (ho : w.Ordered none) (h : w.Honest)
    (hfree : ∀ c ∈ w.parked, c.txn = txn → c.resource ≠ r)
    (hx : w.table.request txn r mode = .queued x) :
    (w.queued r x ⟨x.ticket, txn, r, mode⟩).Honest := by
  obtain ⟨htxn, hcov, hheld⟩ := request_spec (ho.holders r) hx
  have hothers : ∀ y ∈ (w.table.entry r).queue, y.txn ≠ txn := by
    intro y hy heq
    obtain ⟨c, hc, -, hct, hcr, -⟩ := h.calls r y hy
    exact hfree c hc (hct.trans heq) hcr
  have hqueue : ∀ r' y, y ∈ ((w.queued r x ⟨x.ticket, txn, r, mode⟩).table.entry r').queue →
      y ∈ (w.table.entry r').queue ∨ r' = r ∧ y = x := by
    intro r' y hy
    simp only [LockWorld.queued, entry_insert] at hy
    split at hy
    · rename_i hr
      subst hr
      rw [(LockEntry.put_perm _ _).mem_iff, List.mem_cons] at hy
      exact hy.symm.imp_right fun h => ⟨rfl, h⟩
    · exact .inl hy
  refine ⟨fun r' => ⟨?_, fun y hy => ?_⟩, ?_, fun r' y hy => ?_, fun r' y hy => ?_, h.nodup,
    fun ticket ht => ?_, fun g hg => ?_⟩
  · simp only [LockWorld.queued, entry_insert]
    split
    · have : Std.Symm fun y y' : Waiter => y.txn ≠ y'.txn := ⟨fun _ _ => Ne.symm⟩
      rw [(LockEntry.put_perm _ _).pairwise_iff fun {_ _} => Ne.symm, List.pairwise_cons]
      exact ⟨fun y hy heq => hothers y hy (heq.symm.trans htxn), (h.faithful r).distinct⟩
    · exact (h.faithful r').distinct
  · rw [queued_holders]
    rcases hqueue r' y hy with hy | ⟨rfl, rfl⟩
    · exact (h.faithful r').stronger y hy
    · intro g hg hgt
      exact hheld g hg (hgt.trans htxn)
  · refine pairwise_append.mpr ⟨h.parked, List.pairwise_singleton .., fun c hc c' hc' => ?_⟩
    rw [mem_singleton] at hc'
    rw [hc', ticket_of_request hx]
    exact (ho.parked c hc).ne
  · rcases hqueue r' y hy with hy | ⟨rfl, rfl⟩
    · obtain ⟨c, hc, hrest⟩ := h.calls r' y hy
      exact ⟨c, List.mem_append_left _ hc, hrest⟩
    · exact ⟨_, List.mem_append_right _ (List.mem_singleton_self _), rfl, htxn.symm, rfl, hcov⟩
  · rcases hqueue r' y hy with hy | ⟨rfl, rfl⟩
    · exact h.tickets r' y hy
    · intro hg
      obtain ⟨c, hc, hct, -⟩ := h.granted _ hg
      have := ho.parked c hc
      rw [hct, ticket_of_request hx] at this
      exact lt_irrefl _ this
  · obtain ⟨c, hc, hct, hccov⟩ := h.granted ticket ht
    refine ⟨c, List.mem_append_left _ hc, hct, ?_⟩
    rw [queued_holders]
    exact hccov
  · rw [queued_holders]
    exact h.served g hg

lemma request (ho : w.Ordered none) (h : w.Honest)
    (hfree : ∀ c ∈ w.parked, c.txn = txn → c.resource ≠ r) (givesUp : Bool) :
    (w.request txn r mode givesUp).Honest := by
  cases hx : w.table.request txn r mode with
  | reentrant =>
    rw [LockWorld.request, enqueue, hx]
    refine { h with served := fun g hg => ?_ }
    rcases mem_append.mp hg with hg | hg
    · exact h.served g hg
    · rw [mem_singleton] at hg
      subst hg
      simp only [LockTable.request] at hx
      split at hx
      · rename_i held hheld
        split at hx
        · rename_i hcov
          exact ⟨_, (mem_of_holderOf hheld).1, rfl, hcov⟩
        · cases hx
      · cases hx
  | queued x =>
    rw [request_eq ho hx]
    have ho' := ho.queued (r := r) (ticket_of_request hx) ⟨x.ticket, txn, r, mode⟩ rfl
    refine wake ho'.grantPass (grantPass ho' (h.queued ho hfree hx)) ?_ givesUp
    exact List.mem_append_right _ (List.mem_singleton_self _)

end Honest

/-- A section of a transaction none of whose calls waits for the resource it asks for or gives back.
-/
def Alone (w : LockWorld) : LockAction → Prop
  | .request txn r _ _ | .unlock txn r => ∀ c ∈ w.parked, c.txn = txn → c.resource ≠ r
  | .releaseAll txn _ => ∀ c ∈ w.parked, c.txn ≠ txn
  | .wake _ _ => True

instance (w : LockWorld) (a : LockAction) : Decidable (w.Alone a) := by
  cases a <;> unfold Alone <;> infer_instance

lemma Honest.exec (ho : w.Ordered none) (h : w.Honest)
    (ha : w.Alone a) (hs : w.exec a = some w') : w'.Honest := by
  refine exec_rule Honest hs h ?_ (fun c givesUp _ hc => h.wake ho hc givesUp) ?_
  · rintro txn r mode givesUp rfl
    exact h.request ho ha givesUp
  · rintro txn r v (rfl | ⟨order, rfl⟩) hparked ho' hv
    · exact hv.retire (ho' ho) (hparked ▸ ha)
    · exact hv.retire (ho' ho) fun c hc hct => absurd hct (ha c (hparked ▸ hc))

/-! ### The lock table is safe -/

/-- The modes `txn` holds on `r`, of the data family or of the schema family. -/
def held (w : LockWorld) (r : LockResource) (txn : TxnId) (data : Bool) : List Holder :=
  (w.table.entry r).holders.filter fun h => h.txn = txn ∧ h.mode.isData = data

/-- What a transaction was granted, ticket or answer, is covered by what it holds. -/
structure Honoured (w : LockWorld) : Prop where
  tickets : ∀ ticket ∈ w.table.granted, ∃ c ∈ w.parked, c.ticket = ticket ∧
    HeldCovers (w.table.entry c.resource).holders c.txn c.mode
  answers : ∀ g ∈ w.served, HeldCovers (w.table.entry g.resource).holders g.txn g.mode

lemma held_length_le_one (h : w.Ordered none) (r : LockResource) (txn : TxnId) (data : Bool) :
    (w.held r txn data).length ≤ 1 := by
  have hpair : (w.held r txn data).Pairwise
      fun h h' => ¬ (h.txn = h'.txn ∧ h.mode.isData = h'.mode.isData) :=
    (h.holders r).family.filter _
  have hmem : ∀ h ∈ w.held r txn data, h.txn = txn ∧ h.mode.isData = data := fun h hh => by
    simpa using (List.mem_filter.mp hh).2
  rcases hl : w.held r txn data with _ | ⟨a, _ | ⟨b, l⟩⟩
  · exact Nat.zero_le _
  · exact le_rfl
  · rw [hl] at hpair hmem
    have ha := hmem a List.mem_cons_self
    have hb := hmem b (List.mem_cons_of_mem _ List.mem_cons_self)
    exact absurd ⟨ha.1.trans hb.1.symm, ha.2.trans hb.2.symm⟩
      ((List.pairwise_cons.mp hpair).1 b List.mem_cons_self)

end LockWorld

open LockWorld in
/-- **The lock table over every interleaving.**  In every state of every run: modes held on one
resource by two transactions are compatible; a transaction holds at most one data and one schema
mode per resource; the first waiter of a queue is refused by a holder of another transaction;
and a plain request is granted after every request that arrived before it and did not leave.
In the runs where a transaction has one call at a time on a resource, what was granted is
covered by what is held. -/
theorem lock_table_is_safe {ok : LockWorld → LockAction → Prop} {w : LockWorld}
    (h : lockManager.Reachable ok w) :
    (∀ r, ∀ a ∈ (w.table.entry r).holders, ∀ b ∈ (w.table.entry r).holders, a.txn ≠ b.txn →
      a.mode.compatibleWith b.mode = true) ∧
    (∀ r txn data, (w.held r txn data).length ≤ 1) ∧
    (∀ r x, (w.table.entry r).queue.head? = some x →
      ∃ b ∈ (w.table.entry r).holders, b.txn ≠ x.txn ∧ x.mode.compatibleWith b.mode = false) ∧
    InArrivalOrder w.log ∧
    ((∀ w a, ok w a → w.Alone a) → w.Honoured) := by
  have ho : w.Ordered none :=
    Machine.Reachable.invariant (P := fun w => w.Ordered none) h Ordered.initial
      fun _ _ _ hw _ hs => hw.exec hs
  refine ⟨fun r => (ho.holders r).compatible, held_length_le_one ho, fun r x hx => ?_, ho.order,
    fun halone => ?_⟩
  · exact not_holdersAllow_iff.mp (ho.refused r x (by simp) hx)
  · have hboth : w.Ordered none ∧ w.Honest :=
      Machine.Reachable.invariant (P := fun w => w.Ordered none ∧ w.Honest) h
        ⟨Ordered.initial, Honest.initial⟩ fun v a v' hv ha hs =>
          ⟨hv.1.exec hs, hv.2.exec hv.1 (halone v a ha) hs⟩
    exact ⟨hboth.2.granted, hboth.2.served⟩

/-- Transaction 2 reads a table that transaction 1 waits to change. -/
def waitingWriter : List LockAction :=
  [.request 2 (.table 1) .S false, .request 1 (.table 1) .X false, .unlock 2 (.table 1)]

/-- When the reader leaves, the writer is granted what it asked for. -/
theorem waitingWriter_is_honoured :
    ∃ w : LockWorld, w.table.granted = [1] ∧ w.Honoured := by
  obtain ⟨w, hw, hp⟩ := lockManager.exists_reachable (fun w a => decide (w.Alone a))
    waitingWriter (fun w => w.table.granted = [1]) (fun _ _ => of_decide_eq_true)
    (by decide +kernel)
  exact ⟨w, by simpa using hp, (lock_table_is_safe hw).2.2.2.2 fun _ _ ha => ha⟩

/-- A second call of the waiting transaction asks for less. -/
def twoCallsOfOneWriter : List LockAction :=
  [.request 2 (.table 1) .S false, .request 1 (.table 1) .X false,
    .request 1 (.table 1) .S false, .unlock 2 (.table 1)]

/-- Both calls are granted by one pass, and the second grant takes the mode of the first one
back: the transaction is told it holds `X` and holds `S`. -/
theorem a_weaker_grant_replaces_a_stronger_one :
    ∃ w : LockWorld, lockManager.Reachable Machine.Any w ∧
      (⟨1, 1, .table 1, .X⟩ : LockCall) ∈ w.parked ∧ 1 ∈ w.table.granted ∧
      (w.table.entry (.table 1)).holders = [⟨1, .S⟩] := by
  obtain ⟨w, hw, hp⟩ := lockManager.exists_reachable (fun _ _ => true) twoCallsOfOneWriter
    (fun w => (⟨1, 1, .table 1, .X⟩ : LockCall) ∈ w.parked ∧ 1 ∈ w.table.granted ∧
      (w.table.entry (.table 1)).holders = [⟨1, .S⟩]) (fun _ _ _ => trivial) (by decide +kernel)
  exact ⟨w, hw, by simpa using hp⟩

end VaubanDB
