import VaubanDB.Txn.LockSafety

/-!
What one transaction sees of the lock table.

A transaction that makes one call at a time is known by the modes it holds and by the one request
it may have in a queue.  The sections of the other transactions change neither, but for one thing: a
grant pass may honour the request.  `View` says this of a state, and the lemmas below carry it
through the sections of the others and of the transaction itself.
-/

namespace VaubanDB

open LockEntry List Function
open LockTable (dropTicket enqueue entry_insert granted_grantPass)

/-! ### Own holders and own requests -/

lemma filter_grantTo_self (x : TxnId) (m : LockMode) (holders : List Holder) :
    (grantTo x m holders).filter (fun h => h.txn = x) =
      grantTo x m (holders.filter fun h => h.txn = x) := by
  induction holders with
  | nil => simp [grantTo]
  | cons h hs ih =>
    by_cases hx : h.txn = x
    · by_cases hm : h.mode.isData = m.isData <;> simp [grantTo, hx, hm, ih]
    · simp [grantTo, hx, ih]

variable {y : TxnId}

lemma filter_grantTo_other {x : TxnId} (hne : y ≠ x) (m : LockMode) (holders : List Holder) :
    (grantTo y m holders).filter (fun h => h.txn = x) = holders.filter fun h => h.txn = x := by
  induction holders with
  | nil => simp [grantTo, hne]
  | cons h hs ih =>
    rw [grantTo]
    split_ifs with hy
    · simp [hne, hy.1]
    · simp [filter_cons, ih]

lemma LockEntry.grantLoop_mine (x : TxnId) (holders : List Holder) (queue : List Waiter) :
    (grantLoop holders queue).1.holders.filter (fun h => h.txn = x) =
      ((grantLoop holders queue).2.filter fun u => u.txn = x).foldl
        (fun hs u => grantTo x u.mode hs) (holders.filter fun h => h.txn = x) := by
  induction queue generalizing holders with
  | nil => rfl
  | cons u queue ih =>
    rw [grantLoop]
    split
    · simp only [ih, filter_cons]
      by_cases hu : u.txn = x
      · simp [hu, filter_grantTo_self]
      · simp [hu, filter_grantTo_other hu]
    · rfl

variable {r' : LockResource}

namespace LockTable

def mine (t : LockTable) (x : TxnId) (r : LockResource) : List Holder :=
  (t.entry r).holders.filter fun h => h.txn = x

def waits (t : LockTable) (x : TxnId) (r : LockResource) : List Waiter :=
  (t.entry r).queue.filter fun u => u.txn = x

variable {t : LockTable} {x : TxnId} {r : LockResource}

lemma mem_mine {h : Holder} : h ∈ t.mine x r ↔ h ∈ (t.entry r).holders ∧ h.txn = x := by
  simp [mine]

lemma waits_grantPass (t : LockTable) (x : TxnId) (r : LockResource) :
    ((t.grants r).filter fun u => u.txn = x) ++ (t.grantPass r).waits x r = t.waits x r := by
  rw [waits, entry_grantPass, if_pos rfl, grants, ← filter_append, grantLoop_append, waits]

lemma mine_grantPass (t : LockTable) (x : TxnId) (r : LockResource) : (t.grantPass r).mine x r =
      ((t.grants r).filter fun u => u.txn = x).foldl (fun hs u => grantTo x u.mode hs)
        (t.mine x r) := by
  rw [mine, entry_grantPass, if_pos rfl, grantLoop_mine, mine, grants]

lemma mine_grantPass_of_ne (h : r' ≠ r) : (t.grantPass r).mine x r' = t.mine x r' := by
  rw [mine, entry_grantPass, if_neg h, mine]

lemma waits_grantPass_of_ne (h : r' ≠ r) : (t.grantPass r).waits x r' = t.waits x r' := by
  rw [waits, entry_grantPass, if_neg h, waits]

/-- A pass that grants nothing to a transaction leaves it as it was. -/
lemma grantPass_same (h : (t.grants r).filter (fun u => u.txn = x) = []) (r' : LockResource) :
    (t.grantPass r).mine x r' = t.mine x r' ∧ (t.grantPass r).waits x r' = t.waits x r' := by
  by_cases hr : r' = r
  · subst hr
    have hwaits := t.waits_grantPass x r'
    have hmine := t.mine_grantPass x r'
    rw [h] at hwaits hmine
    exact ⟨hmine, hwaits⟩
  · exact ⟨mine_grantPass_of_ne hr, waits_grantPass_of_ne hr⟩

end LockTable

def LockAction.txn : LockAction → TxnId
  | .request txn .. => txn
  | .wake c _ => c.txn
  | .unlock txn _ => txn
  | .releaseAll txn _ => txn

namespace LockWorld

variable {w w' : LockWorld} {x : TxnId} {H : LockResource → List Holder}

/-- The tickets that were granted have been handed out. -/
def Known (w : LockWorld) : Prop := ∀ k ∈ w.table.granted, k < w.table.nextTicket

/-- A transaction that waits for nothing holds `H`. -/
structure Idle (w : LockWorld) (x : TxnId) (H : LockResource → List Holder) : Prop where
  mine : ∀ r, w.table.mine x r = H r
  waits : ∀ r, w.table.waits x r = []

structure Pending (w : LockWorld) (x : TxnId) (H : LockResource → List Holder) (c : LockCall)
    (u : Waiter) : Prop where
  mine : ∀ r, w.table.mine x r = H r
  waits : ∀ r, w.table.waits x r = if r = c.resource then [u] else []
  granted : c.ticket ∉ w.table.granted

/-- The request has been granted, and the call has not looked yet.  The mode of a conversion is the
join with the one it replaces, which it covers. -/
structure Taken (w : LockWorld) (x : TxnId) (H : LockResource → List Holder) (c : LockCall)
    (u : Waiter) : Prop where
  mine : ∀ r, w.table.mine x r = if r = c.resource then grantTo x u.mode (H r) else H r
  waits : ∀ r, w.table.waits x r = []
  granted : c.ticket ∈ w.table.granted

/-- A transaction that holds `H` waits for the answer to its request. -/
structure Waits (w : LockWorld) (x : TxnId) (H : LockResource → List Holder) (c : LockCall)
    (u : Waiter) : Prop where
  owner : c.txn = x
  txn : u.txn = x
  ticket : u.ticket = c.ticket
  parked : c ∈ w.parked
  others : ∀ c' ∈ w.parked, c'.txn ≠ x → c'.ticket ≠ c.ticket
  lt : c.ticket < w.table.nextTicket
  stage : w.Pending x H c u ∨ w.Taken x H c u

/-- What a transaction holds and waits for. -/
def View (w : LockWorld) (x : TxnId) (H : LockResource → List Holder) :
    Option (LockCall × Waiter) → Prop
  | none => w.Idle x H
  | some (c, u) => w.Waits x H c u

variable {o : Option (LockCall × Waiter)} {skip : Option LockResource}

/-! ### Grant passes -/

lemma Idle.grantPass (h : w.Idle x H) (r : LockResource) : (w.grantPass r).Idle x H := by
  have hnone := w.table.waits_grantPass x r
  rw [h.waits r, append_eq_nil_iff] at hnone
  have hsame := LockTable.grantPass_same hnone.1
  exact ⟨fun r' => (hsame r').1.trans (h.mine r'), fun r' => (hsame r').2.trans (h.waits r')⟩

variable {r : LockResource} {u : Waiter}

lemma ticket_notMem_grants (ho : w.Ordered skip)
    (hu : u ∈ (w.table.entry r).queue) (hnot : r = r' → u ∉ w.table.grants r) :
    u.ticket ∉ (w.table.grants r').map Waiter.ticket := by
  intro hmem
  obtain ⟨v, hv, hticket⟩ := mem_map.mp hmem
  obtain ⟨rfl, rfl⟩ := eq_of_ticket ho.numbered ((ho.queues r).logged u hu)
    ((ho.queues r').logged v (mem_queue_of_grants hv)) hticket.symm
  exact hnot rfl hv

variable {c : LockCall}

lemma Waits.grantPass (ho : w.Ordered skip) (h : w.Waits x H c u)
    (r : LockResource) : (w.grantPass r).Waits x H c u := by
  refine ⟨h.owner, h.txn, h.ticket, h.parked, h.others,
    h.lt.trans_eq (w.table.nextTicket_grantPass r).symm, ?_⟩
  have happend := w.table.waits_grantPass x r
  rcases h.stage with hp | hp
  · have hu : u ∈ (w.table.entry c.resource).queue := by
      have : u ∈ w.table.waits x c.resource := by simp [hp.waits]
      exact mem_of_mem_filter this
    by_cases hnone : (w.table.grants r).filter (fun u => u.txn = x) = []
    · have hsame := LockTable.grantPass_same hnone
      refine .inl ⟨fun r' => (hsame r').1.trans (hp.mine r'),
        fun r' => (hsame r').2.trans (hp.waits r'), ?_⟩
      rw [LockWorld.grantPass, granted_grantPass, mem_append, not_or]
      refine ⟨hp.granted, h.ticket ▸ ticket_notMem_grants ho hu fun heq hmem => ?_⟩
      exact filter_eq_nil_iff.mp hnone u (heq ▸ hmem) (by simpa using h.txn)
    · rw [hp.waits] at happend
      split_ifs at happend with hr
      · subst hr
        obtain ⟨hsome, hwaits⟩ := (append_eq_singleton_iff.mp happend).resolve_left fun h =>
          hnone h.1
        refine .inr ⟨fun r' => ?_, fun r' => ?_, ?_⟩
        · split_ifs with hr'
          · subst hr'
            exact (w.table.mine_grantPass x c.resource).trans (by rw [hsome, hp.mine]; rfl)
          · exact (LockTable.mine_grantPass_of_ne hr').trans (hp.mine r')
        · by_cases hr' : r' = c.resource
          · exact hr' ▸ hwaits
          · exact (LockTable.waits_grantPass_of_ne hr').trans ((hp.waits r').trans (if_neg hr'))
        · rw [LockWorld.grantPass, granted_grantPass, mem_append]
          refine .inr (mem_map.mpr ⟨u, ?_, h.ticket⟩)
          have : u ∈ (w.table.grants c.resource).filter fun u => u.txn = x := by simp [hsome]
          exact mem_of_mem_filter this
      · exact absurd (append_eq_nil_iff.mp happend).1 hnone
  · have hidle : w.Idle x fun r => if r = c.resource then grantTo x u.mode (H r) else H r :=
      ⟨hp.mine, hp.waits⟩
    have hpass := hidle.grantPass r
    refine .inr ⟨hpass.mine, hpass.waits, ?_⟩
    rw [LockWorld.grantPass, granted_grantPass]
    exact mem_append_left _ hp.granted

lemma View.grantPass (ho : w.Ordered skip) (h : w.View x H o) (r : LockResource) :
    (w.grantPass r).View x H o := by
  match o, h with
  | none, h => exact Idle.grantPass h r
  | some (c, u), h => exact Waits.grantPass ho h r

/-! ### Sections of the others -/

/-- Nothing has changed for `x`, its ticket included. -/
structure Still (x : TxnId) (k : Option ℕ) (w w' : LockWorld) : Prop where
  mine : ∀ r, w'.table.mine x r = w.table.mine x r
  waits : ∀ r, w'.table.waits x r = w.table.waits x r
  granted : ∀ ticket ∈ k, ticket ∈ w'.table.granted ↔ ticket ∈ w.table.granted
  parked : ∀ c ∈ w.parked, c.txn = x → c ∈ w'.parked
  others : ∀ c ∈ w'.parked, c.txn ≠ x → c ∈ w.parked ∨ w.table.nextTicket ≤ c.ticket
  next : w.table.nextTicket ≤ w'.table.nextTicket

def ticketOf (o : Option (LockCall × Waiter)) : Option ℕ := o.map fun p => p.1.ticket

lemma View.still (h : w.View x H o) (hs : Still x (ticketOf o) w w') : w'.View x H o := by
  match o, h with
  | none, h =>
    exact ⟨fun r => (hs.mine r).trans (h.mine r), fun r => (hs.waits r).trans (h.waits r)⟩
  | some (c, u), h =>
    have hgranted := hs.granted c.ticket rfl
    refine ⟨h.owner, h.txn, h.ticket, hs.parked c h.parked h.owner, fun c' hc' hne => ?_,
      h.lt.trans_le hs.next, ?_⟩
    · rcases hs.others c' hc' hne with hold | hnew
      · exact h.others c' hold hne
      · exact (h.lt.trans_le hnew).ne'
    · exact h.stage.imp
        (fun hp => ⟨fun r => (hs.mine r).trans (hp.mine r),
          fun r => (hs.waits r).trans (hp.waits r),
          fun hmem => hp.granted (hgranted.mp hmem)⟩)
        fun hp => ⟨fun r => (hs.mine r).trans (hp.mine r), fun r => (hs.waits r).trans (hp.waits r),
          hgranted.mpr hp.granted⟩

lemma View.ticket_ne (h : w.View x H o) (hc : c ∈ w.parked) (hne : c.txn ≠ x) :
    ∀ k ∈ ticketOf o, c.ticket ≠ k := by
  match o, h with
  | none, _ => nofun
  | some (c', u), h =>
    rintro k ⟨⟩
    exact h.others c hc hne

lemma View.ticket_of_waits (h : w.View x H o) {v : Waiter}
    (hv : v ∈ w.table.waits x r) : v.ticket ∈ ticketOf o := by
  match o, h with
  | none, h =>
    rw [h.waits] at hv
    cases hv
  | some (c, u), h =>
    rcases h.stage with hp | hp
    · rw [hp.waits] at hv
      split_ifs at hv
      · rw [mem_singleton.mp hv, h.ticket]
        rfl
      · cases hv
    · rw [hp.waits] at hv
      cases hv

namespace Still

variable {k : Option ℕ}

lemma queued (hu : u.txn ≠ x)
    (hticket : c.ticket = w.table.nextTicket) : Still x k w (w.queued r u c) := by
  refine ⟨fun r' => ?_, fun r' => ?_, fun _ _ => .rfl, fun c' hc' _ => mem_append_left _ hc',
    fun c' hc' _ => ?_, Nat.le_succ _⟩
  · rw [LockTable.mine, queued_holders, LockTable.mine]
  · simp only [LockTable.waits, LockWorld.queued, entry_insert]
    split_ifs with hr
    · rw [hr, put]
      split_ifs with hconv
      · rw [filter_append, filter_cons_of_neg (by simpa using hu), ← filter_append,
          takeWhile_append_dropWhile]
      · simp [hu]
    · rfl
  · rcases mem_append.mp hc' with hold | hnew
    · exact .inl hold
    · exact .inr (mem_singleton.mp hnew ▸ hticket.ge)

lemma unpark (hc : c.txn ≠ x) : Still x k w (w.unpark c) := by
  refine ⟨fun _ => rfl, fun _ => rfl, fun _ _ => .rfl, fun c' hc' hx => ?_,
    fun c' hc' _ => .inl (mem_of_mem_erase hc'), le_rfl⟩
  have hne : c' ≠ c := by
    rintro rfl
    exact hc hx
  exact (mem_erase_of_ne hne).mpr hc'

lemma answer (hc : c.txn ≠ x) (hk : ∀ ticket ∈ k, c.ticket ≠ ticket) :
    Still x k w ((w.unpark c).answer c) :=
  { unpark (k := k) hc with granted := fun ticket ht => mem_erase_of_ne (hk ticket ht).symm }

lemma drop (hu : ∀ v ∈ w.table.waits x r, v.ticket ≠ u.ticket) : Still x k w (w.drop r u) := by
  refine ⟨fun r' => ?_, fun r' => ?_, fun _ _ => .rfl, fun _ h _ => h, fun _ h _ => .inl h, le_rfl⟩
  · rw [LockTable.mine, drop_holders, LockTable.mine]
  · simp only [LockTable.waits, LockWorld.drop, dropTicket, entry_insert]
    split_ifs with hr
    · rw [hr]
      have hkeep : ∀ l : List Waiter, (∀ v ∈ l, v.txn = x → v.ticket ≠ u.ticket) →
          (l.eraseP fun v => v.ticket = u.ticket).filter (fun v => v.txn = x) =
            l.filter fun v => v.txn = x := by
        intro l hl
        induction l with
        | nil => rfl
        | cons v l ih =>
          by_cases hv : v.ticket = u.ticket
          · have hx : v.txn ≠ x := fun hx => hl v (by simp) hx hv
            simp [hv, hx]
          · simp [hv, filter_cons, ih fun v' hv' => hl v' (by simp [hv'])]
      exact hkeep _ fun v hv hx => hu v (mem_filter.mpr ⟨hv, by simpa using hx⟩)
    · rfl

lemma leave (hy : y ≠ x) (r : LockResource) : Still x k w (w.leave y r) := by
  refine ⟨fun r' => ?_, fun r' => ?_, fun _ _ => .rfl, fun _ h _ => h, fun _ h _ => .inl h,
    le_rfl⟩ <;>
  · simp only [LockTable.mine, LockTable.waits, LockWorld.leave, LockTable.retire, entry_insert]
    split_ifs with hr
    · rw [hr, without, filter_filter]
      refine filter_congr fun h _ => ?_
      by_cases hx : h.txn = x <;> simp [hx, hy.symm]
    · rfl

end Still

variable (ho : w.Ordered none)
include ho

lemma View.wake (h : w.View x H o) (hc : c ∈ w.parked)
    (hne : c.txn ≠ x) (givesUp : Bool) : (w.wake c givesUp).View x H o := by
  have hk := h.ticket_ne hc hne
  have hun : (w.unpark c).View x H o := h.still (.unpark hne)
  refine wake_rule (View · x H o) givesUp (fun _ => h) (fun _ => h.still (.answer hne hk))
    (fun _ _ => hun) fun _ u hu hticket => ?_
  have hdrop : ((w.unpark c).drop c.resource u).View x H o := hun.still (.drop fun v hv heq =>
    hk v.ticket (hun.ticket_of_waits hv) (hticket.symm.trans heq.symm))
  exact hdrop.grantPass ((ho.unpark c).drop hu) c.resource

lemma View.retire (h : w.View x H o) (hy : y ≠ x) (r : LockResource) : (w.retire y r).View x H o :=
  (h.still (.leave hy r)).grantPass (ho.leave y r) r

/-- Whatever another transaction does, the view stays. -/
theorem View.exec (h : w.View x H o) {a : LockAction}
    (ha : a.txn ≠ x) (hs : w.exec a = some w') : w'.View x H o := by
  refine exec_rule (View · x H o) hs h ?_ ?_ ?_
  · rintro y r m givesUp rfl
    have hy : y ≠ x := ha
    cases hreq : w.table.request y r m with
    | reentrant =>
      rw [request, enqueue, hreq]
      exact h.still ⟨fun _ => rfl, fun _ => rfl, fun _ _ => .rfl, fun _ h _ => h,
        fun _ h _ => .inl h, Nat.le_succ _⟩
    | queued u =>
      have hticket := ticket_of_request hreq
      have hu : u.txn = y := (Honest.request_spec (ho.holders r) hreq).1
      rw [request_eq ho hreq]
      have hq : (w.queued r u ⟨u.ticket, y, r, m⟩).View x H o := h.still (.queued (hu ▸ hy) hticket)
      have hord := ho.queued (r := r) hticket ⟨u.ticket, y, r, m⟩ rfl
      refine (hq.grantPass hord r).wake hord.grantPass ?_ hy givesUp
      exact mem_append_right _ (by simp)
  · rintro c givesUp rfl hc
    exact h.wake ho hc ha givesUp
  · rintro y r v (rfl | ⟨order, rfl⟩) _ ho' hv <;> exact hv.retire (ho' ho) ha r

/-! ### Tickets -/

namespace Known

omit ho in
lemma grantPass (ho : w.Ordered skip) (h : w.Known) (r : LockResource) : (w.grantPass r).Known := by
  intro k hk
  rw [LockWorld.grantPass, granted_grantPass] at hk
  rw [LockWorld.grantPass, LockTable.nextTicket_grantPass]
  rcases mem_append.mp hk with hk | hk
  · exact h k hk
  · obtain ⟨u, hu, rfl⟩ := mem_map.mp hk
    exact ho.fresh r u ((ho.queues r).logged u (mem_queue_of_grants hu))

lemma wake (h : w.Known) (c : LockCall) (givesUp : Bool) : (w.wake c givesUp).Known := by
  refine wake_rule Known givesUp (fun _ => h) (fun _ k hk => h k (mem_of_mem_erase hk))
    (fun _ _ => h) fun _ u hu _ => ?_
  have hdrop : ((w.unpark c).drop c.resource u).Known := h
  exact hdrop.grantPass ((ho.unpark c).drop hu) c.resource

lemma request (h : w.Known) (x : TxnId) (r : LockResource) (m : LockMode)
    (givesUp : Bool) : (w.request x r m givesUp).Known := by
  cases hreq : w.table.request x r m with
  | reentrant =>
    rw [LockWorld.request, enqueue, hreq]
    exact fun k hk => (h k hk).trans (Nat.lt_succ_self _)
  | queued u =>
    rw [request_eq ho hreq]
    have hord := ho.queued (r := r) (ticket_of_request hreq) ⟨u.ticket, x, r, m⟩ rfl
    have hq : (w.queued r u ⟨u.ticket, x, r, m⟩).Known :=
      fun k hk => (h k hk).trans (Nat.lt_succ_self _)
    exact wake hord.grantPass (hq.grantPass hord r) _ givesUp

lemma retire (h : w.Known) (x : TxnId) (r : LockResource) : (w.retire x r).Known :=
  grantPass (ho.leave x r) h r

lemma exec (h : w.Known) {a : LockAction} (hs : w.exec a = some w') : w'.Known :=
  exec_rule Known hs h (fun y r m givesUp _ => h.request ho y r m givesUp)
    (fun c givesUp _ _ => h.wake ho c givesUp) fun y r _ _ _ ho' hv => hv.retire (ho' ho) y r

end Known

/-! ### Own sections -/

/-- The holders of a transaction once it was granted a mode. -/
def taking (x : TxnId) (m : LockMode) (holders : List Holder) : List Holder :=
  match holderOf holders x m with
  | some held => if held.covers m then holders else grantTo x (held.join m) holders
  | none => grantTo x m holders

def withGrant (H : LockResource → List Holder) (x : TxnId) (r : LockResource) (m : LockMode) :
    LockResource → List Holder :=
  update H r (taking x m (H r))

omit ho in
lemma holderOf_mine (t : LockTable) (x : TxnId) (r : LockResource) (m : LockMode) :
    holderOf (t.mine x r) x m = holderOf (t.entry r).holders x m := by
  rw [holderOf, holderOf, LockTable.mine, find?_filter]
  congr 2
  funext h
  by_cases hx : h.txn = x <;> simp [hx]

variable {m : LockMode}

omit ho in
lemma taking_eq (t : LockTable) :
    (∀ u, t.request x r m = .queued u →
      taking x m (t.mine x r) = grantTo x u.mode (t.mine x r)) ∧
    (t.request x r m = .reentrant → taking x m (t.mine x r) = t.mine x r) := by
  rw [taking, holderOf_mine, LockTable.request]
  cases holderOf (t.entry r).holders x m with
  | none => simp
  | some held =>
    simp only
    split_ifs <;> simp

lemma Idle.queued (hk : w.Known) (h : w.Idle x H) (hreq : w.table.request x r m = .queued u) :
    (w.queued r u ⟨u.ticket, x, r, m⟩).Waits x H ⟨u.ticket, x, r, m⟩ u := by
  have hticket := ticket_of_request hreq
  have hu : u.txn = x := (Honest.request_spec (ho.holders r) hreq).1
  refine ⟨rfl, hu, rfl, mem_append_right _ (by simp), fun c' hc' hne => ?_, ?_,
    .inl ⟨fun r' => ?_, fun r' => ?_, ?_⟩⟩
  · rcases mem_append.mp hc' with hold | hnew
    · exact ((ho.parked c' hold).trans_eq hticket.symm).ne
    · exact absurd (by rw [mem_singleton.mp hnew]) hne
  · exact hticket ▸ Nat.lt_succ_self _
  · rw [← h.mine r', LockTable.mine, queued_holders, LockTable.mine]
  · have hold := h.waits r'
    simp only [LockTable.waits, LockWorld.queued, entry_insert] at hold ⊢
    split_ifs with hr
    · subst hr
      have hperm := ((w.table.entry r').put_perm u).filter fun v => v.txn = x
      rw [filter_cons_of_pos (by simpa using hu), hold] at hperm
      exact perm_singleton.mp hperm
    · exact hold
  · exact fun hmem => (hk _ hmem).ne hticket

lemma Waits.wake_self (h : w.Waits x H c u) (givesUp : Bool) :
    (w.served.length < (w.wake c givesUp).served.length ∧ (w.wake c givesUp).Idle x
      (update H c.resource (grantTo x u.mode (H c.resource)))) ∨
    ((w.wake c givesUp).served.length = w.served.length ∧ w.Pending x H c u ∧
      if givesUp then (w.wake c givesUp).Idle x H else (w.wake c givesUp).Waits x H c u) := by
  rcases h.stage with hp | hp
  · have hnot : w.table.granted.contains c.ticket = false := by simpa using hp.granted
    right
    cases givesUp with
    | false =>
      have hsame : w.wake c false = w := by
        rw [wake, hnot]
        rfl
      rw [hsame]
      exact ⟨rfl, hp, h⟩
    | true =>
      have hu : u ∈ (w.table.entry c.resource).queue := by
        have : u ∈ w.table.waits x c.resource := by simp [hp.waits]
        exact mem_of_mem_filter this
      suffices hidle : (w.wake c true).served.length = w.served.length ∧
        (w.wake c true).Idle x H from
        ⟨hidle.1, hp, hidle.2⟩
      refine wake_rule (fun v => v.served.length = w.served.length ∧ v.Idle x H) true
        (absurd · (by decide)) (absurd · hp.granted) (fun _ hne => absurd h.ticket (hne u hu))
        fun _ v hv hticket => ?_
      -- the candidate with this ticket is the one of the transaction
      obtain rfl : v = u := (eq_of_ticket ho.numbered ((ho.queues c.resource).logged v hv)
        ((ho.queues c.resource).logged u hu) (hticket.trans h.ticket.symm)).2
      refine ⟨rfl, Idle.grantPass ⟨fun r' => ?_, fun r' => ?_⟩ _⟩
      · rw [← hp.mine r', LockTable.mine, drop_holders]
        rfl
      · have hold := hp.waits r'
        simp only [LockTable.waits, drop, dropTicket, entry_insert] at hold ⊢
        split_ifs at hold ⊢ with hr
        · subst hr
          refine filter_eq_nil_iff.mpr fun v hv hvx => ?_
          have hne := Honest.ticket_ne_of_mem_eraseP (ho.queues c.resource).shape hv
          have hmem : v ∈ (w.table.entry c.resource).queue.filter fun u => u.txn = x :=
            mem_filter.mpr ⟨mem_of_mem_eraseP hv, hvx⟩
          rw [hold, mem_singleton] at hmem
          exact hne (by rw [hmem])
        · exact hold
  · have hyes : w.table.granted.contains c.ticket = true := by simpa using hp.granted
    have heq : w.wake c givesUp = (w.unpark c).answer c := by
      rw [wake, hyes]
      rfl
    rw [heq]
    refine .inl ⟨by simp [answer, unpark], fun r' => ?_, hp.waits⟩
    rw [update_apply]
    refine (hp.mine r').trans ?_
    split_ifs with hr
    · rw [hr]
    · rfl

/-- The transaction has asked for a mode: it gets it, it gives up, or it waits. -/
def Answers (w w' : LockWorld) (x : TxnId) (H : LockResource → List Holder) (r : LockResource)
    (m : LockMode) (c : LockCall) (givesUp : Bool) : Prop :=
  (w.served.length < w'.served.length ∧ w'.Idle x (withGrant H x r m)) ∨
    (w'.served.length = w.served.length ∧ if givesUp then w'.Idle x H
      else ∃ u, w'.Waits x H c u ∧
        update H c.resource (grantTo x u.mode (H c.resource)) = withGrant H x r m)

lemma Waits.woken {r : LockResource} {m : LockMode} (h : w.Waits x H c u)
    (hgrant : update H c.resource (grantTo x u.mode (H c.resource)) = withGrant H x r m)
    (givesUp : Bool) : w.Answers (w.wake c givesUp) x H r m c givesUp := by
  rcases h.wake_self ho givesUp with ⟨hlen, hidle⟩ | ⟨hlen, -, hrest⟩
  · exact .inl ⟨hlen, hgrant ▸ hidle⟩
  · refine .inr ⟨hlen, ?_⟩
    split_ifs at hrest ⊢
    · exact hrest
    · exact ⟨u, hrest, hgrant⟩

lemma Idle.request (hk : w.Known) (h : w.Idle x H) (r : LockResource) (m : LockMode)
    (givesUp : Bool) : w.Answers (w.request x r m givesUp) x H r m
      ⟨w.table.nextTicket, x, r, m⟩ givesUp := by
  cases hreq : w.table.request x r m with
  | reentrant =>
    have heq : w.request x r m givesUp = { w with
        table := { w.table with nextTicket := w.table.nextTicket + 1 }
        served := w.served ++ [⟨x, r, m⟩] } := by
      rw [LockWorld.request, enqueue, hreq]
    have hsame : withGrant H x r m = H := by
      rw [withGrant, ← h.mine r, (taking_eq _).2 hreq, h.mine r, update_eq_self]
    rw [heq, Answers, hsame]
    exact .inl ⟨by simp, h.mine, h.waits⟩
  | queued u =>
    have hticket := ticket_of_request hreq
    have hord := ho.queued (r := r) hticket ⟨u.ticket, x, r, m⟩ rfl
    have hgrant : update H r (grantTo x u.mode (H r)) = withGrant H x r m := by
      rw [withGrant, ← h.mine r, (taking_eq _).1 u hreq]
    have hwaits := (h.queued ho hk hreq).grantPass hord r
    rw [request_eq ho hreq, ← hticket]
    exact hwaits.woken hord.grantPass hgrant givesUp

omit ho

lemma Idle.retire (h : w.Idle x H) (r : LockResource) : (w.retire x r).Idle x (update H r []) := by
  refine grantPass ⟨fun r' => ?_, fun r' => ?_⟩ r
  all_goals
    simp only [LockTable.mine, LockTable.waits, leave, LockTable.retire, entry_insert, update_apply]
    split_ifs
    · simp [without, filter_filter]
  exacts [h.mine r', h.waits r']

end LockWorld

end VaubanDB
