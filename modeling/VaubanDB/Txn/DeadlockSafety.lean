import VaubanDB.Txn.Deadlock

/-!
What the deadlock monitor answers over the runs of the lock manager.

A transaction the monitor answers lies on a cycle of waits.  When every transaction makes one call
at a time, no candidate of the cycle is granted while its members keep waiting (`Stuck.exec`), and
the members of a cycle that is found search the same cycle and name the same victim.  A transaction
with two calls in the queues can be answered although its cycle resolves itself
(`answered_though_granted`).
-/

namespace VaubanDB

open LockTable LockEntry List Option

/-! ### The victim of a cycle -/

namespace DeadlockMonitor

variable {m : DeadlockMonitor} {holders : List LockLine} {a b c : TxnId}

lemma givesWayBefore_iff : m.givesWayBefore holders a b = true ↔
    m.priority a < m.priority b ∨ (m.priority a = m.priority b ∧
      (writesHeld a holders < writesHeld b holders ∨
        (writesHeld a holders = writesHeld b holders ∧ b < a))) := by
  simp [givesWayBefore]

lemma givesWayBefore_trans (hab : m.givesWayBefore holders a b = true)
    (hbc : m.givesWayBefore holders b c = true) : m.givesWayBefore holders a c = true := by
  rw [givesWayBefore_iff] at *
  lia

lemma givesWayBefore_total (hne : a ≠ b) :
    m.givesWayBefore holders a b = true ∨ m.givesWayBefore holders b a = true := by
  rw [givesWayBefore_iff, givesWayBefore_iff]
  have hlt : a < b ∨ b < a := lt_or_gt_of_ne hne
  lia

lemma not_givesWayBefore_self : m.givesWayBefore holders a a = false := by
  simp [givesWayBefore]

lemma victim_spec (m : DeadlockMonitor) (holders : List LockLine) {cycle : List TxnId}
    (h : cycle ≠ []) : ∃ v, m.victim cycle holders = some v ∧
    v ∈ cycle ∧ ∀ t ∈ cycle, t ≠ v → m.givesWayBefore holders v t = true := by
  suffices hfold : ∀ (ts seen : List TxnId) (best : TxnId), best ∈ seen →
      (∀ t ∈ seen, t ≠ best → m.givesWayBefore holders best t = true) →
      ∃ v, ts.foldl (fun best t => if m.givesWayBefore holders t best then t else best) best = v ∧
        v ∈ seen ++ ts ∧ ∀ t ∈ seen ++ ts, t ≠ v → m.givesWayBefore holders v t = true by
    obtain ⟨t, ts, rfl⟩ := exists_cons_of_ne_nil h
    obtain ⟨v, hv, hmem, hfirst⟩ := hfold ts [t] t (by simp) (by simp)
    exact ⟨v, congrArg some hv, hmem, hfirst⟩
  intro ts
  induction ts with
  | nil => exact fun seen best hbest hfirst =>
      ⟨best, rfl, by simpa using hbest, by simpa using hfirst⟩
  | cons t ts ih =>
    intro seen best hbest hfirst
    have hcons : seen ++ t :: ts = (seen ++ [t]) ++ ts := by simp
    rw [foldl_cons, hcons]
    split
    · rename_i hbefore
      refine ih (seen ++ [t]) t (by simp) fun x hx hne => ?_
      rcases mem_append.mp hx with hx | hx
      · rcases eq_or_ne x best with rfl | hxb
        · exact hbefore
        · exact givesWayBefore_trans hbefore (hfirst x hx hxb)
      · exact absurd (by simpa using hx) hne
    · rename_i hbefore
      refine ih (seen ++ [t]) best (by simp [hbest]) fun x hx hne => ?_
      rcases mem_append.mp hx with hx | hx
      · exact hfirst x hx hne
      · obtain rfl : x = t := by simpa using hx
        exact (givesWayBefore_total hne).resolve_left hbefore

lemma victim_eq_of_perm {c d : List TxnId} (h : c.Perm d) :
    m.victim c holders = m.victim d holders := by
  rcases eq_or_ne c [] with rfl | hc
  · rw [h.nil_eq]
  · have hd : d ≠ [] := fun hnil => hc (by rw [hnil] at h; exact h.eq_nil)
    obtain ⟨v, hv, hvc, hvfirst⟩ := m.victim_spec holders hc
    obtain ⟨u, hu, hud, hufirst⟩ := m.victim_spec holders hd
    rw [hv, hu]
    by_contra hne
    have hvu : v ≠ u := fun heq => hne (by rw [heq])
    have hloop := givesWayBefore_trans (hvfirst u (h.mem_iff.mpr hud) hvu.symm)
      (hufirst v (h.mem_iff.mp hvc) hvu)
    rw [not_givesWayBefore_self] at hloop
    cases hloop

end DeadlockMonitor

/-! ### Where the waits lead -/

variable {x : Waiter} {skip : Option LockResource}

namespace LockWorld

variable {w w' : LockWorld} {a b : TxnId}

lemma Ordered.exists_blocks (h : w.Ordered none) (hwait : w.table.Waiting a) :
    ∃ b, w.table.Blocks a b := by
  obtain ⟨r, x, hx, rfl⟩ := hwait
  obtain ⟨front, rest, hqueue⟩ := exists_cons_of_ne_nil (ne_nil_of_mem hx)
  rcases eq_or_ne front.txn x.txn with heq | hne
  · obtain ⟨g, hg, hne, hm⟩ := not_holdersAllow_iff.mp
      (h.refused r front (by simp) (by simp [hqueue]))
    exact ⟨g.txn, heq ▸ hne, r, front, by simp [hqueue], heq, .inl ⟨g, hg, rfl, hm⟩⟩
  · have hrest : x ∈ rest := by
      rw [hqueue] at hx
      exact (mem_cons.mp hx).resolve_left fun hxf => hne (by rw [hxf])
    refine ⟨front.txn, hne, r, x, hx, rfl, .inr ⟨front, ?_, rfl⟩⟩
    rw [hqueue]
    exact (singleton_sublist.mpr hrest).cons_cons front

lemma blocked_waits (h : w.table.Blocks a b) : w.table.Waiting a := by
  obtain ⟨-, r, x, hx, hxa, -⟩ := h
  exact ⟨r, x, hx, hxa⟩

/-! ### One call at a time -/

/-- The transaction of a call has no other call that waits. -/
def OneCall (w : LockWorld) : LockAction → Prop
  | .request txn _ _ _ | .unlock txn _ | .releaseAll txn _ => ∀ c ∈ w.parked, c.txn ≠ txn
  | .wake _ _ => True

instance (w : LockWorld) : (a : LockAction) → Decidable (w.OneCall a)
  | .request .. | .unlock .. | .releaseAll .. => inferInstanceAs (Decidable (∀ c ∈ _, _))
  | .wake .. => instDecidableTrue

lemma OneCall.alone {a : LockAction} (h : w.OneCall a) : w.Alone a := by
  cases a with
  | request txn r mode givesUp | unlock txn r => exact fun c hc htxn => absurd htxn (h c hc)
  | wake c givesUp => trivial
  | releaseAll txn order => exact h

@[simp] lemma parked_grantPass (w : LockWorld) (r : LockResource) :
    (w.grantPass r).parked = w.parked := rfl

@[simp] lemma parked_giveUp (w : LockWorld) (r : LockResource) (ticket : ℕ) :
    (w.giveUp r ticket).parked = w.parked := by
  rw [giveUp]
  split <;> rfl

lemma parked_wake (w : LockWorld) (c : LockCall) (givesUp : Bool) :
    (w.wake c givesUp).parked.Sublist w.parked := by
  rw [wake]
  split
  · exact erase_sublist
  · split
    · rw [parked_giveUp]
      exact erase_sublist
    · exact Sublist.refl _

/-- The calls that wait belong to different transactions. -/
def Single (w : LockWorld) : Prop := w.parked.Pairwise fun c c' => c.txn ≠ c'.txn

lemma Single.exec {a : LockAction} (h : w.Single) (ha : w.OneCall a) (hs : w.exec a = some w') :
    w'.Single := by
  refine exec_rule Single hs h ?_ (fun c givesUp _ _ => h.sublist (w.parked_wake c givesUp))
    fun _ _ _ _ _ _ hv => hv
  rintro txn r mode givesUp rfl
  rw [request]
  split
  · exact h
  · dsimp only
    split
    · exact h
    · split
      · rw [Single, parked_giveUp]
        exact h
      · refine pairwise_append.mpr ⟨h, by simp, fun c hc c' hc' => ?_⟩
        obtain rfl := mem_singleton.mp hc'
        exact ha c hc

/-- The three facts a run of single calls keeps. -/
structure Calm (w : LockWorld) : Prop where
  ordered : w.Ordered none
  honest : w.Honest
  single : w.Single

lemma Calm.initial : LockWorld.initial.Calm := ⟨.initial, .initial, Pairwise.nil⟩

lemma Calm.exec {a : LockAction} (h : w.Calm) (ha : w.OneCall a) (hs : w.exec a = some w') :
    w'.Calm :=
  ⟨h.ordered.exec hs, h.honest.exec h.ordered ha.alone hs, h.single.exec ha hs⟩

variable {r : LockResource}

lemma Ordered.eq_of_ticket (h : w.Ordered skip)
    {y : Waiter} (hx : x ∈ (w.table.entry r).queue) (hy : y ∈ (w.table.entry r).queue)
    (hticket : x.ticket = y.ticket) : x = y := by
  have hdistinct : ((w.table.entry r).queue.map Waiter.ticket).Nodup :=
    pairwise_map.mpr ((h.queues r).shape.imp Ahead.ne)
  exact inj_on_of_nodup_map hdistinct hx hy hticket

lemma Calm.call (h : w.Calm) (hx : x ∈ (w.table.entry r).queue)
    {c : LockCall} (hc : c ∈ w.parked) (htxn : c.txn = x.txn) :
    c.ticket = x.ticket ∧ c.resource = r := by
  obtain ⟨c', hc', hticket, htxn', hresource, -⟩ := h.honest.calls r x hx
  have hdistinct : (w.parked.map LockCall.txn).Nodup := pairwise_map.mpr h.single
  obtain rfl : c = c' := inj_on_of_nodup_map hdistinct hc hc' (htxn.trans htxn'.symm)
  exact ⟨hticket, hresource⟩

end LockWorld

/-! ### A cycle that waits -/

namespace LockEntry

variable {P : TxnId → Prop}

/-- Each candidate of `P` is held back by another transaction of `P`. -/
def Stuck (P : TxnId → Prop) (e : LockEntry) : Prop :=
  ∀ x ∈ e.queue, P x.txn → ∃ b, P b ∧ b ≠ x.txn ∧ HeldBack e x b

lemma grantLoop_stuck {holders : List Holder} {queue : List Waiter} (hnodup : queue.Nodup)
    (h : (⟨holders, queue⟩ : LockEntry).Stuck P) :
    (∀ x ∈ (grantLoop holders queue).2, ¬ P x.txn) ∧ (grantLoop holders queue).1.Stuck P := by
  induction queue generalizing holders with
  | nil => exact ⟨by simp [grantLoop], by simp [Stuck, grantLoop]⟩
  | cons w queue ih =>
    rw [grantLoop]
    split
    · rename_i hallow
      have hfresh : w ∉ queue := (nodup_cons.mp hnodup).1
      -- the front is granted, so nothing of `P` holds it back
      have hw : ¬ P w.txn := by
        intro hP
        obtain ⟨b, -, hne, ⟨g, hg, rfl, hm⟩ | ⟨y, hyw, -⟩⟩ := h w (by simp) hP
        · rw [holdersAllow_iff.mp hallow g hg hne] at hm
          cases hm
        · rcases sublist_cons_iff.mp hyw with hsub | ⟨rest, heq, hsub⟩
          · exact hfresh (hsub.subset (by simp))
          · obtain ⟨rfl, rfl⟩ := cons.inj heq
            exact hfresh (hsub.subset (by simp))
      have hrest : (⟨grantTo w.txn w.mode holders, queue⟩ : LockEntry).Stuck P := by
        intro x hx hP
        obtain ⟨b, hb, hne, hback⟩ := h x (mem_cons_of_mem w hx) hP
        refine ⟨b, hb, hne, ?_⟩
        rcases hback with ⟨g, hg, rfl, hm⟩ | ⟨y, hyx, rfl⟩
        · exact .inl ⟨g, mem_grantTo_of_mem hg fun hsame => hw (hsame.1 ▸ hb), rfl, hm⟩
        · rcases sublist_cons_iff.mp hyx with hsub | ⟨rest, heq, -⟩
          · exact .inr ⟨y, hsub, rfl⟩
          · exact absurd (by rw [← (cons.inj heq).1]; exact hb) hw
      obtain ⟨hgranted, hstuck⟩ := ih (nodup_cons.mp hnodup).2 hrest
      refine ⟨fun x hx => ?_, hstuck⟩
      rcases mem_cons.mp hx with rfl | hx
      · exact hw
      · exact hgranted x hx
    · exact ⟨by simp, h⟩

lemma sublist_put (e : LockEntry) (w : Waiter) : e.queue.Sublist (e.put w).queue := by
  rw [put]
  split
  · conv_lhs => rw [← e.queue.takeWhile_append_dropWhile (p := Waiter.conversion)]
    exact (Sublist.refl _).append (sublist_cons_self _ _)
  · exact sublist_append_left _ _

end LockEntry

variable {txn : TxnId}

namespace LockWorld

variable {w w' : LockWorld} {P : TxnId → Prop} {K : List LockCall}

/-- The candidates of `P` hold each other back, and the calls of `K` still wait. -/
structure Stuck (P : TxnId → Prop) (K : List LockCall) (w : LockWorld) : Prop where
  entries : ∀ r, (w.table.entry r).Stuck P
  calls : ∀ k ∈ K, P k.txn ∧ k ∈ w.parked ∧
    ∃ x ∈ (w.table.entry k.resource).queue, x.ticket = k.ticket ∧ x.txn = k.txn

namespace Stuck

variable {r : LockResource} {c : LockCall}

lemma grantPass (ho : w.Ordered skip) (h : w.Stuck P K)
    (r : LockResource) : (w.grantPass r).Stuck P K := by
  have hnodup : (w.table.entry r).queue.Nodup :=
    (ho.queues r).shape.imp fun hahead heq => hahead.ne (by rw [heq])
  obtain ⟨hgranted, hstuck⟩ := grantLoop_stuck hnodup (h.entries r)
  refine ⟨fun r' => ?_, fun k hk => ?_⟩
  · show ((w.table.grantPass r).entry r').Stuck P
    rw [entry_grantPass]
    split
    · exact hstuck
    · exact h.entries r'
  · obtain ⟨hP, hparked, x, hx, hticket, htxn⟩ := h.calls k hk
    refine ⟨hP, hparked, x, ?_, hticket, htxn⟩
    show x ∈ ((w.table.grantPass r).entry k.resource).queue
    rw [entry_grantPass]
    split
    · rename_i heq
      rw [heq, ← grantLoop_append (w.table.entry r).holders (w.table.entry r).queue] at hx
      exact (mem_append.mp hx).resolve_left fun hmem => hgranted x hmem (htxn ▸ hP)
    · exact hx

/-- An entry changes so that the candidates of `P` stay in their order and keep their locks. -/
lemma change {t : LockTable} {e : LockEntry} (h : w.Stuck P K)
    (hentry : ∀ r', t.entry r' = if r' = r then e else w.table.entry r')
    (hqueue : ∀ x, P x.txn → (x ∈ e.queue ↔ x ∈ (w.table.entry r).queue))
    (horder : ∀ y x, P y.txn → P x.txn → [y, x].Sublist (w.table.entry r).queue →
      [y, x].Sublist e.queue) (hholders : ∀ g ∈ (w.table.entry r).holders, P g.txn → g ∈ e.holders)
    (parked : List LockCall) (hparked : ∀ k ∈ w.parked, P k.txn → k ∈ parked) (served : List Grant)
    (log : List LockEvent) : (⟨t, parked, served, log⟩ : LockWorld).Stuck P K := by
  refine ⟨fun r' => ?_, fun k hk => ?_⟩
  · show (t.entry r').Stuck P
    rw [hentry]
    split
    · intro x hx hP
      obtain ⟨b, hb, hne, hback⟩ := h.entries r x ((hqueue x hP).mp hx) hP
      refine ⟨b, hb, hne, ?_⟩
      rcases hback with ⟨g, hg, rfl, hm⟩ | ⟨y, hyx, rfl⟩
      · exact .inl ⟨g, hholders g hg hb, rfl, hm⟩
      · exact .inr ⟨y, horder y x hb hP hyx, rfl⟩
    · exact h.entries r'
  · obtain ⟨hP, hmem, x, hx, hticket, htxn⟩ := h.calls k hk
    refine ⟨hP, hparked k hmem hP, x, ?_, hticket, htxn⟩
    show x ∈ (t.entry k.resource).queue
    rw [hentry]
    split
    · rename_i heq
      exact (hqueue x (htxn ▸ hP)).mpr (heq ▸ hx)
    · exact hx

lemma retire (ho : w.Ordered none) (h : w.Stuck P K) (htxn : ¬ P txn)
    (r : LockResource) : (w.retire txn r).Stuck P K := by
  have hkeep : ∀ t, P t → t ≠ txn := fun t ht heq => htxn (heq ▸ ht)
  refine grantPass (ho.leave txn r) (change (r := r) (e := (w.table.entry r).without txn) h
    (fun r' => entry_insert ..) ?_ ?_ ?_ w.parked (fun k hk _ => hk) _ _) r
  · intro x hP
    simp [without, hkeep x.txn hP]
  · intro y x hy hx hsub
    have hfilter := hsub.filter fun w : Waiter => decide (w.txn ≠ txn)
    simpa [without, hkeep y.txn hy, hkeep x.txn hx] using hfilter
  · intro g hg hP
    simpa [without, hkeep g.txn hP] using hg

lemma queued (h : w.Stuck P K) (hx : ¬ P x.txn) : (w.queued r x c).Stuck P K := by
  refine change (r := r) (e := (w.table.entry r).put x) h (fun r' => entry_insert ..)
    ?_ ?_ ?_ _ ?_ _ _
  · intro y hP
    rw [((w.table.entry r).put_perm x).mem_iff, mem_cons]
    exact or_iff_right fun heq => hx (heq ▸ hP)
  · exact fun y z _ _ hsub => hsub.trans ((w.table.entry r).sublist_put x)
  · intro g hg _
    rwa [put_holders]
  · exact fun k hk _ => mem_append_left _ hk

lemma unpark (h : w.Stuck P K) (hc : ¬ P c.txn) : (w.unpark c).Stuck P K := by
  refine ⟨h.entries, fun k hk => ?_⟩
  obtain ⟨hP, hmem, hx⟩ := h.calls k hk
  have hne : k ≠ c := fun heq => hc (heq ▸ hP)
  exact ⟨hP, (mem_erase_of_ne hne).mpr hmem, hx⟩

lemma drop (ho : w.Ordered none) (h : w.Stuck P K) (hx : x ∈ (w.table.entry r).queue)
    (hticket : ∀ y ∈ (w.table.entry r).queue, y.ticket = x.ticket → ¬ P y.txn) :
    ((w.drop r x).grantPass r).Stuck P K := by
  have hkeep : ∀ y ∈ (w.table.entry r).queue, P y.txn → y.ticket ≠ x.ticket :=
    fun y hy hP heq => hticket y hy heq hP
  refine grantPass (ho.drop hx) (change (r := r)
    (e := { w.table.entry r with
      queue := (w.table.entry r).queue.eraseP fun w => w.ticket = x.ticket })
    h (fun r' => entry_insert ..) ?_ ?_ ?_ w.parked (fun k hk _ => hk) _ _) r
  · intro y hP
    refine ⟨fun hy => mem_of_mem_eraseP hy, fun hy => ?_⟩
    exact (mem_eraseP_of_neg (by simpa using hkeep y hy hP)).mpr hy
  · intro y z hy hz hsub
    have hyq := hkeep y (hsub.subset (by simp)) hy
    have hzq := hkeep z (hsub.subset (by simp)) hz
    have herase := hsub.eraseP (p := fun w : Waiter => w.ticket = x.ticket)
    simpa [eraseP_cons, hyq, hzq] using herase
  · exact fun g hg _ => hg

lemma txn_of_ticket (h : w.Honest) (hc : c ∈ w.parked)
    (hx : x ∈ (w.table.entry r).queue) (hticket : x.ticket = c.ticket) : x.txn = c.txn := by
  obtain ⟨c', hc', hticket', htxn, -⟩ := h.calls r x hx
  have hdistinct : (w.parked.map LockCall.ticket).Nodup := pairwise_map.mpr h.parked
  rw [← htxn, inj_on_of_nodup_map hdistinct hc' hc (hticket'.trans hticket)]

lemma wake (ho : w.Ordered none) (hh : w.Honest) (h : w.Stuck P K) (hmem : c ∈ w.parked)
    (hc : ¬ P c.txn) (givesUp : Bool) : (w.wake c givesUp).Stuck P K := by
  refine wake_rule (Stuck P K ·) givesUp (fun _ => h)
    (fun _ => ⟨(h.unpark hc).entries, (h.unpark hc).calls⟩) (fun _ _ => h.unpark hc)
    fun _ x hx hticket => (h.unpark hc).drop (ho.unpark c) hx fun y hy heq => ?_
  rwa [txn_of_ticket hh hmem hy (heq.trans hticket)]

lemma request {mode : LockMode} (hw : w.Calm) (h : w.Stuck P K)
    (hfree : ∀ c ∈ w.parked, c.txn ≠ txn) (htxn : ¬ P txn) (givesUp : Bool) :
    (w.request txn r mode givesUp).Stuck P K := by
  cases hreq : w.table.request txn r mode with
  | reentrant =>
    simp only [LockWorld.request, enqueue, hreq]
    exact ⟨h.entries, h.calls⟩
  | queued x =>
    rw [request_eq hw.ordered hreq]
    have halone : ∀ c ∈ w.parked, c.txn = txn → c.resource ≠ r :=
      fun c hc heq => absurd heq (hfree c hc)
    have hx := (Honest.request_spec (hw.ordered.holders r) hreq).1
    have hordered := hw.ordered.queued (r := r) (ticket_of_request hreq)
      ⟨x.ticket, txn, r, mode⟩ rfl
    have hhonest := hw.honest.queued hw.ordered halone hreq
    refine wake hordered.grantPass (hhonest.grantPass hordered) ?_ ?_ htxn givesUp
    · exact (h.queued (hx ▸ htxn)).grantPass hordered r
    · simp [LockWorld.queued]

end Stuck

/-- The members of a cycle go on waiting: they make no other call and do not give up. -/
def Patient (c : List TxnId) : LockAction → Prop
  | .request txn _ _ _ | .unlock txn _ | .releaseAll txn _ => txn ∉ c
  | .wake k givesUp => givesUp = true → k.txn ∉ c

/-- A step of the others leaves the waits of the cycle where they are. -/
lemma Stuck.exec {c : List TxnId} {a : LockAction} (hw : w.Calm)
    (hK : ∀ k ∈ w.parked, k.txn ∈ c → k ∈ K) (h : w.Stuck (· ∈ c) K) (ha : w.OneCall a)
    (hpatient : Patient c a) (hs : w.exec a = some w') : w'.Stuck (· ∈ c) K := by
  refine exec_rule (Stuck (· ∈ c) K ·) hs h ?_ ?_ ?_
  · rintro txn r mode givesUp rfl
    exact h.request hw ha hpatient givesUp
  · rintro k givesUp rfl hk
    by_cases hmem : k.txn ∈ c
    · -- a member is not granted, and it does not give up
      obtain ⟨-, -, x, hx, hticket, -⟩ := h.calls k (hK k hk hmem)
      have hnot : k.ticket ∉ w.table.granted := hticket ▸ hw.honest.tickets _ x hx
      have hfalse : givesUp = false := by
        by_contra htrue
        exact hpatient (by simpa using htrue) hmem
      simpa [LockWorld.wake, hnot, hfalse] using h
    · exact h.wake hw.ordered hw.honest hk hmem givesUp
  · rintro txn r v (rfl | ⟨order, rfl⟩) _ ho hv <;> exact hv.retire (ho hw.ordered) hpatient r

lemma parked_exec {c : List TxnId} {a : LockAction} (hpatient : Patient c a)
    (hs : w.exec a = some w') {k : LockCall} (hk : k ∈ w'.parked) (hmem : k.txn ∈ c) :
    k ∈ w.parked := by
  revert hk
  refine exec_rule (fun v => k ∈ v.parked → k ∈ w.parked) hs id ?_
    (fun c givesUp _ _ hk => (w.parked_wake c givesUp).subset hk) fun _ _ _ _ _ _ hv => hv
  rintro txn r mode givesUp rfl hk
  rw [request] at hk
  split at hk
  · exact hk
  · dsimp only at hk
    split at hk
    · exact hk
    · split at hk
      · rwa [parked_giveUp] at hk
      · rcases mem_snoc.mp hk with hk | rfl
        · exact hk
        · exact absurd hmem hpatient

/-- The waits of a cycle are never granted while its members keep waiting, whatever the others
do. -/
def NeverGranted (w : LockWorld) (c : List TxnId) : Prop :=
  ∀ w', (lockManager.after w).Reachable (fun w a => w.OneCall a ∧ Patient c a) w' →
    ∀ k ∈ w.parked, k.txn ∈ c → k ∈ w'.parked ∧ k.ticket ∉ w'.table.granted ∧
      ∃ x ∈ (w'.table.entry k.resource).queue, x.ticket = k.ticket

end LockWorld

/-- A cycle of waits: each member is blocked by the next one, the last one by the first. -/
structure LockTable.WaitCycle (t : LockTable) (cycle : List TxnId) : Prop where
  nodup : cycle.Nodup
  ne_nil : cycle ≠ []
  blocked : ∀ i (h : i < cycle.length), ∃ b, cycle[(i + 1) % cycle.length]? = some b ∧
    t.Blocks (cycle[i]) b

namespace LockTable.WaitCycle

variable {t : LockTable} {c : List TxnId}

lemma exists_blocks (h : t.WaitCycle c) {a : TxnId} (ha : a ∈ c) : ∃ b ∈ c, t.Blocks a b := by
  obtain ⟨i, hi, rfl⟩ := getElem_of_mem ha
  obtain ⟨b, hb, hblocks⟩ := h.blocked i hi
  exact ⟨b, mem_of_getElem? hb, hblocks⟩

lemma of_orbit (h : CycleSearch.Orbit
    (CycleSearch.heading (waitForGraph t.waiters t.holders).successors) c) : t.WaitCycle c := by
  refine ⟨h.nodup, h.ne_nil, fun i hi => ?_⟩
  have hlt : (i + 1) % c.length < c.length := Nat.mod_lt _ (by omega)
  have hstep := h.step i hi
  rw [getElem?_eq_getElem hlt] at hstep
  refine ⟨_, getElem?_eq_getElem hlt, ?_⟩
  rw [← mem_waitForGraph, ← WaitGraph.mem_successors]
  exact mem_of_find?_eq_some hstep

end LockTable.WaitCycle

open LockTable

namespace LockWorld

variable {w : LockWorld} {c : List TxnId}

/-- The candidates of a cycle hold each other back: each member has one candidate. -/
lemma Calm.stuck (h : w.Calm) (hc : w.table.WaitCycle c) :
    w.Stuck (· ∈ c) (w.parked.filter fun k => k.txn ∈ c) := by
  refine ⟨fun r x hx hmem => ?_, fun k hk => ?_⟩
  · obtain ⟨b, hb, hne, r', y, hy, htxn, hback⟩ := hc.exists_blocks hmem
    obtain ⟨c, hcall, hticket, hcx, rfl, -⟩ := h.honest.calls r x hx
    obtain ⟨hticket', rfl⟩ := h.call hy hcall (hcx.trans htxn.symm)
    obtain rfl := h.ordered.eq_of_ticket hx hy (hticket.symm.trans hticket')
    exact ⟨b, hb, hne, hback⟩
  · obtain ⟨hparked, hmem⟩ := mem_filter.mp hk
    have hmem : k.txn ∈ c := by simpa using hmem
    obtain ⟨b, -, -, r, x, hx, htxn, -⟩ := hc.exists_blocks hmem
    obtain ⟨hticket, rfl⟩ := h.call hx hparked htxn.symm
    exact ⟨hmem, hparked, x, hx, hticket.symm, htxn⟩

lemma Calm.neverGranted (h : w.Calm) (hc : w.table.WaitCycle c) : w.NeverGranted c := by
  intro w' hw' k hk hmem
  have hinv : w'.Calm ∧ w'.Stuck (· ∈ c) (w.parked.filter fun k => k.txn ∈ c) ∧
      ∀ k ∈ w'.parked, k.txn ∈ c → k ∈ w.parked.filter fun k => k.txn ∈ c := by
    refine Machine.Reachable.invariant
      (P := fun v => v.Calm ∧ v.Stuck (· ∈ c) (w.parked.filter fun k => k.txn ∈ c) ∧
        ∀ k ∈ v.parked, k.txn ∈ c → k ∈ w.parked.filter fun k => k.txn ∈ c) hw' ?_ ?_
    · exact ⟨h, h.stuck hc, fun k hk hmem => mem_filter.mpr ⟨hk, by simpa using hmem⟩⟩
    · rintro v a v' ⟨hcalm, hstuck, hall⟩ ⟨hone, hpatient⟩ hs
      refine ⟨hcalm.exec hone hs, hstuck.exec hcalm hall hone hpatient hs, fun k hk hmem => ?_⟩
      exact hall k (parked_exec hpatient hs hk hmem) hmem
  obtain ⟨hcalm, hstuck, -⟩ := hinv
  obtain ⟨-, hparked, x, hx, hticket, -⟩ :=
    hstuck.calls k (mem_filter.mpr ⟨hk, by simpa using hmem⟩)
  exact ⟨hparked, hticket ▸ hcalm.honest.tickets _ x hx, x, hx, hticket⟩

lemma Ordered.not_acc (h : w.Ordered none)
    (hblocked : ∀ a b, w.table.Blocks a b → w.table.Waiting b) {a : TxnId}
    (ha : w.table.Waiting a) :
    ¬ Acc (CycleSearch.Next (waitForGraph w.table.waiters w.table.holders).successors) a := by
  intro hacc
  induction hacc with
  | intro a _ ih =>
    obtain ⟨b, hb⟩ := h.exists_blocks ha
    exact ih b (WaitGraph.mem_successors.mpr (mem_waitForGraph.mpr hb)) (hblocked a b hb)

end LockWorld

namespace DeadlockMonitor

variable {m : DeadlockMonitor} {t : LockTable} {a : TxnId} {c : List TxnId}

lemma detect_eq {waiters holders : List LockLine} {v : TxnId} :
    m.detect waiters holders txn = some v ↔ v = txn ∧
      ∃ c, (waitForGraph waiters holders).cycleFrom txn = some c ∧ m.victim c holders = some v := by
  simp only [detect, bind_eq_bind, bind_eq_some_iff, ite_none_right_eq_some, some.injEq]
  constructor
  · rintro ⟨c, hc, u, hu, rfl, rfl⟩
    exact ⟨rfl, c, hc, hu⟩
  · rintro ⟨rfl, c, hc, hu⟩
    exact ⟨c, hc, v, hu, rfl, rfl⟩

/-- The members of a cycle that is found agree on it and on its victim. -/
lemma agree (m : DeadlockMonitor) {waiters holders : List LockLine}
    (hc : (waitForGraph waiters holders).cycleFrom a = some c) :
    ∃ v ∈ c, m.victim c holders = some v ∧ ∀ b ∈ c,
      (∃ d, (waitForGraph waiters holders).cycleFrom b = some d ∧ d.Perm c ∧
        m.victim d holders = some v) ∧
      m.detect waiters holders b = if b = v then some v else none := by
  have hspec := (waitForGraph waiters holders).cycleFrom_spec a
  rw [hc] at hspec
  obtain ⟨v, hv, hmem, -⟩ := m.victim_spec holders hspec.1.ne_nil
  refine ⟨v, hmem, hv, fun b hb => ?_⟩
  obtain ⟨d, hd, hperm⟩ :=
    hspec.1.perm_of_search hb ((waitForGraph waiters holders).cycleFrom_spec b)
  have hvd : m.victim d holders = some v := (victim_eq_of_perm hperm).trans hv
  refine ⟨⟨d, hd, hperm, hvd⟩, ?_⟩
  split
  · rename_i heq
    exact detect_eq.mpr ⟨heq.symm, d, hd, hvd⟩
  · rename_i hne
    rw [eq_none_iff_forall_ne_some]
    intro u hu
    obtain ⟨rfl, d', hd', hu⟩ := detect_eq.mp hu
    rw [hd] at hd'
    obtain rfl := some.inj hd'
    rw [hvd] at hu
    exact hne (some.inj hu).symm

end DeadlockMonitor

open LockWorld in
/-- **The deadlock monitor over every reachable lock table.**  When every transaction makes one
call at a time, a transaction the monitor answers lies on a cycle of waits that are never granted
while the members of the cycle keep waiting.  When every transaction that blocks a waiter waits,
some waiting transaction is answered, whatever the priorities.  The members of a cycle a search
finds all find that cycle and name one victim, which is the one that is answered. -/
theorem deadlock_monitor_is_right {ok : LockWorld → LockAction → Prop} {w : LockWorld}
    (h : lockManager.Reachable ok w) (m : DeadlockMonitor) :
    ((∀ w a, ok w a → w.OneCall a) → ∀ txn v,
      m.detect w.table.waiters w.table.holders txn = some v → v = txn ∧
        ∃ c, w.table.WaitCycle c ∧ txn ∈ c ∧ (∀ b ∈ c, ∃ k ∈ w.parked, k.txn = b) ∧
          w.NeverGranted c) ∧
    ((∃ a, w.table.Waiting a) → (∀ a b, w.table.Blocks a b → w.table.Waiting b) →
      ∃ txn, w.table.Waiting txn ∧ m.detect w.table.waiters w.table.holders txn = some txn) ∧
    (∀ a c, (waitForGraph w.table.waiters w.table.holders).cycleFrom a = some c →
      ∃ v ∈ c, ∀ b ∈ c,
        (∃ d, (waitForGraph w.table.waiters w.table.holders).cycleFrom b = some d ∧ d.Perm c ∧
          m.victim d w.table.holders = some v) ∧
        m.detect w.table.waiters w.table.holders b = if b = v then some v else none) := by
  have ho : w.Ordered none :=
    Machine.Reachable.invariant (P := fun w => w.Ordered none) h Ordered.initial
      fun _ _ _ hw _ hs => hw.exec hs
  refine ⟨fun hone txn v hdetect => ?_, ?_, fun a c hc => ?_⟩
  · have hcalm : w.Calm := Machine.Reachable.invariant (P := Calm) h Calm.initial
      fun v a v' hv ha hs => hv.exec (hone v a ha) hs
    obtain ⟨rfl, c, hc, hv⟩ := DeadlockMonitor.detect_eq.mp hdetect
    have hspec := (waitForGraph w.table.waiters w.table.holders).cycleFrom_spec v
    rw [hc] at hspec
    have hcycle := WaitCycle.of_orbit hspec.1
    obtain ⟨u, hu, hmem, -⟩ := m.victim_spec w.table.holders hspec.1.ne_nil
    obtain rfl : v = u := mem_unique hv hu
    refine ⟨rfl, c, hcycle, hmem, fun b hb => ?_, hcalm.neverGranted hcycle⟩
    obtain ⟨-, -, -, r, x, hx, htxn, -⟩ := hcycle.exists_blocks hb
    obtain ⟨k, hk, -, hkx, -⟩ := hcalm.honest.calls r x hx
    exact ⟨k, hk, hkx.trans htxn⟩
  · rintro ⟨a, ha⟩ hblocked
    have hspec := (waitForGraph w.table.waiters w.table.holders).cycleFrom_spec a
    cases hc : (waitForGraph w.table.waiters w.table.holders).cycleFrom a with
    | none =>
      rw [hc] at hspec
      exact absurd hspec (ho.not_acc hblocked ha)
    | some c =>
      rw [hc] at hspec
      obtain ⟨v, hv, -, hagree⟩ := m.agree hc
      obtain ⟨b, -, hvb⟩ := (WaitCycle.of_orbit hspec.1).exists_blocks hv
      exact ⟨v, blocked_waits hvb, by rw [(hagree v hv).2, if_pos rfl]⟩
  · obtain ⟨v, hv, -, hagree⟩ := m.agree hc
    exact ⟨v, hv, hagree⟩

/-- Two transactions each hold a table the other one asks for. -/
def crossedWriters : List LockAction :=
  [.request 1 (.table 1) .X false, .request 2 (.table 2) .X false,
    .request 1 (.table 2) .S false, .request 2 (.table 1) .S false]

open LockWorld in
/-- The younger one is answered, and its cycle does not resolve itself. -/
theorem crossedWriters_is_detected : ∃ w : LockWorld,
    (⟨.empty⟩ : DeadlockMonitor).detect w.table.waiters w.table.holders 2 = some 2 ∧
      ∃ c, w.table.WaitCycle c ∧ 2 ∈ c ∧ w.NeverGranted c := by
  obtain ⟨w, hw, hp⟩ := lockManager.exists_reachable (fun w a => decide (w.OneCall a))
    crossedWriters (fun w => (⟨.empty⟩ : DeadlockMonitor).detect w.table.waiters w.table.holders 2 =
      some 2) (fun _ _ => of_decide_eq_true) (by decide +kernel)
  have hdetect := of_decide_eq_true hp
  obtain ⟨-, c, hcycle, hmem, -, hnever⟩ :=
    (deadlock_monitor_is_right hw ⟨.empty⟩).1 (fun _ _ ha => ha) 2 2 hdetect
  exact ⟨w, hdetect, c, hcycle, hmem, hnever⟩

/-- Transaction 2 waits in two calls: behind 3, ahead of 1, and for what 1 holds. -/
def twoCallsInACycle : List LockAction :=
  [.request 3 (.table 1) .X false, .request 1 (.table 2) .X false, .request 2 (.table 1) .S false,
    .request 1 (.table 1) .S false, .request 2 (.table 2) .S false]

/-- Transaction 2 is answered although the cycle resolves itself: when transaction 3 gives its
table back, the member ahead and the member behind are both granted. -/
theorem answered_though_granted : ∃ w w' : LockWorld, lockManager.Reachable Machine.Any w ∧
    (⟨.empty⟩ : DeadlockMonitor).detect w.table.waiters w.table.holders 2 = some 2 ∧
    (∀ c, w.table.WaitCycle c → 2 ∈ c → 1 ∈ c) ∧
    w.exec (.unlock 3 (.table 1)) = some w' ∧
    ∃ k ∈ w.parked, k.txn = 1 ∧ k.ticket ∈ w'.table.granted := by
  obtain ⟨w, hw, hp⟩ := lockManager.exists_reachable (fun _ _ => true) twoCallsInACycle
    (fun w => (⟨.empty⟩ : DeadlockMonitor).detect w.table.waiters w.table.holders 2 = some 2 ∧
      (∀ e ∈ (waitForGraph w.table.waiters w.table.holders).edges,
        e ∈ [(1, 2), (1, 3), (2, 1), (2, 3)]) ∧
      (w.exec (.unlock 3 (.table 1))).any fun w' =>
        w.parked.any fun k => k.txn = 1 ∧ k.ticket ∈ w'.table.granted)
    (fun _ _ _ => trivial) (by decide +kernel)
  obtain ⟨hdetect, hedges, hexec⟩ := of_decide_eq_true hp
  obtain ⟨w', hw', hgranted⟩ := (any_eq_true _ _).mp hexec
  obtain ⟨k, hk, hk'⟩ := any_eq_true.mp hgranted
  refine ⟨w, w', hw, hdetect, fun c hc hmem => ?_, hw', k, hk, of_decide_eq_true hk'⟩
  have hnext : ∀ a ∈ c, ∃ b ∈ c, (a, b) ∈ [(1, 2), (1, 3), (2, 1), (2, 3)] := fun a ha => by
    obtain ⟨b, hb, hblocks⟩ := hc.exists_blocks ha
    exact ⟨b, hb, hedges _ (mem_waitForGraph.mpr hblocks)⟩
  obtain ⟨b, hb, hedge⟩ := hnext 2 hmem
  have hb' : b = 1 ∨ b = 3 := by simpa using hedge
  rcases hb' with rfl | rfl
  · exact hb
  · obtain ⟨b', -, hedge'⟩ := hnext 3 hb
    simp at hedge'

end VaubanDB
