import Mathlib.Data.List.TakeWhile
import VaubanDB.Txn.Lock

/-!
What a grant pass does to the holders and to the queue of a resource.

A grant keeps `HoldersSound`, the holders of different transactions being compatible, whatever the
queue holds.  A pass over a queue whose candidates ask for at least what their transaction holds
(`Faithful`) never takes anything away from a transaction.  `QueueLog` is the queue against the log
of its requests: a plain request is granted after those that came before it and did not leave.
-/

namespace VaubanDB

open LockEvent List

/-! ### The holders -/

variable {holders : List Holder} {txn : TxnId} {m : LockMode}

/-- The holders of one resource are what the manager promises. -/
structure HoldersSound (holders : List Holder) : Prop where
  compatible : ∀ h ∈ holders, ∀ h' ∈ holders, h.txn ≠ h'.txn →
    h.mode.compatibleWith h'.mode = true
  family : holders.Pairwise fun h h' => ¬ (h.txn = h'.txn ∧ h.mode.isData = h'.mode.isData)

def HeldCovers (holders : List Holder) (txn : TxnId) (m : LockMode) : Prop :=
  ∃ h ∈ holders, h.txn = txn ∧ h.mode.covers m = true

lemma holdersAllow_iff : holdersAllow holders txn m = true ↔
      ∀ h ∈ holders, h.txn ≠ txn → m.compatibleWith h.mode = true := by
  simp only [holdersAllow, all_eq_true, Bool.or_eq_true, decide_eq_true_eq]
  exact forall₂_congr fun h _ => or_iff_not_imp_left

lemma not_holdersAllow_iff : holdersAllow holders txn m = false ↔
      ∃ h ∈ holders, h.txn ≠ txn ∧ m.compatibleWith h.mode = false := by
  rw [← Bool.not_eq_true, holdersAllow_iff]
  push Not
  simp

lemma mem_grantTo {h : Holder} (hh : h ∈ grantTo txn m holders) : h = ⟨txn, m⟩ ∨ h ∈ holders := by
  induction holders with
  | nil => simpa [grantTo] using hh
  | cons h' hs ih =>
    rw [grantTo] at hh
    split at hh <;> rcases mem_cons.mp hh with rfl | hh
    · exact .inl rfl
    · exact .inr (mem_cons_of_mem _ hh)
    · exact .inr mem_cons_self
    · exact (ih hh).imp_right (mem_cons_of_mem _)

lemma self_mem_grantTo (txn : TxnId) (m : LockMode) (holders : List Holder) :
    (⟨txn, m⟩ : Holder) ∈ grantTo txn m holders := by
  induction holders with
  | nil => simp [grantTo]
  | cons h hs ih =>
    rw [grantTo]
    split
    · exact mem_cons_self
    · exact mem_cons_of_mem _ ih

lemma mem_grantTo_of_mem {h : Holder} (hh : h ∈ holders)
    (hne : ¬ (h.txn = txn ∧ h.mode.isData = m.isData)) : h ∈ grantTo txn m holders := by
  induction holders with
  | nil => cases hh
  | cons h' hs ih =>
    rw [grantTo]
    rcases mem_cons.mp hh with rfl | hh
    · rw [if_neg hne]
      exact mem_cons_self
    · split
      · exact mem_cons_of_mem _ hh
      · exact mem_cons_of_mem _ (ih hh)

lemma HoldersSound.grantTo (hs : HoldersSound holders)
    (hallow : holdersAllow holders txn m = true) :
    HoldersSound (grantTo txn m holders) := by
  rw [holdersAllow_iff] at hallow
  refine ⟨?_, ?_⟩
  · intro h hh h' hh' hne
    rcases mem_grantTo hh with rfl | hh <;> rcases mem_grantTo hh' with rfl | hh'
    · exact absurd rfl hne
    · exact hallow h' hh' (Ne.symm hne)
    · rw [LockMode.compatibleWith_comm]
      exact hallow h hh hne
    · exact hs.compatible h hh h' hh' hne
  · have hfam := hs.family
    clear hs hallow
    induction holders with
    | nil => simp [VaubanDB.grantTo]
    | cons h hs ih =>
      rw [pairwise_cons] at hfam
      rw [VaubanDB.grantTo]
      split
      · rename_i hsame
        refine pairwise_cons.mpr ⟨fun h' hh' heq => ?_, hfam.2⟩
        exact hfam.1 h' hh' ⟨hsame.1.trans heq.1, hsame.2.trans heq.2⟩
      · rename_i hother
        refine pairwise_cons.mpr ⟨fun h' hh' heq => ?_, ih hfam.2⟩
        rcases mem_grantTo hh' with rfl | hh'
        · exact hother heq
        · exact hfam.1 h' hh' heq

lemma HoldersSound.filter (hs : HoldersSound holders) (p : Holder → Bool) :
    HoldersSound (holders.filter p) :=
  ⟨fun h hh h' hh' => hs.compatible h (mem_of_mem_filter hh) h' (mem_of_mem_filter hh'),
    hs.family.filter p⟩

lemma HoldersSound.nil : HoldersSound [] := ⟨by simp, .nil⟩

variable {held : LockMode}

lemma mem_of_holderOf (h : holderOf holders txn m = some held) :
    (⟨txn, held⟩ : Holder) ∈ holders ∧ held.isData = m.isData := by
  obtain ⟨h', hfind, rfl⟩ := Option.map_eq_some_iff.mp h
  have hp := find?_some hfind
  simp only [decide_eq_true_eq] at hp
  obtain ⟨rfl, hdata⟩ := hp
  exact ⟨mem_of_find?_eq_some hfind, hdata⟩

lemma HoldersSound.eq_of_holderOf (hs : HoldersSound holders)
    (h : holderOf holders txn m = some held) {h' : Holder} (hh' : h' ∈ holders)
    (htxn : h'.txn = txn) (hdata : h'.mode.isData = m.isData) : h'.mode = held := by
  obtain ⟨hmem, hd⟩ := mem_of_holderOf h
  by_contra hne
  have hne' : h' ≠ ⟨txn, held⟩ := fun heq => hne (by rw [heq])
  have : Std.Symm fun h h' : Holder => ¬ (h.txn = h'.txn ∧ h.mode.isData = h'.mode.isData) :=
    ⟨fun a b hab hba => hab ⟨hba.1.symm, hba.2.symm⟩⟩
  exact hs.family.forall hh' hmem hne' ⟨htxn, hdata.trans hd.symm⟩

lemma holderOf_eq_none (h : holderOf holders txn m = none) {h' : Holder} (hh' : h' ∈ holders)
    (htxn : h'.txn = txn) : h'.mode.isData ≠ m.isData := by
  intro hdata
  have hfind := Option.map_eq_none_iff.mp h
  rw [find?_eq_none] at hfind
  exact hfind h' hh' (by simp [htxn, hdata])

/-! ### The loop of a grant pass -/

variable {w : Waiter} {queue : List Waiter}

namespace LockEntry

lemma put_perm (e : LockEntry) (w : Waiter) : (e.put w).queue.Perm (w :: e.queue) := by
  rw [put]
  split
  · refine perm_middle.trans (Perm.cons w ?_)
    rw [takeWhile_append_dropWhile]
  · exact perm_append_singleton w e.queue

lemma put_holders (e : LockEntry) (w : Waiter) : (e.put w).holders = e.holders := by
  rw [put]
  split <;> rfl

lemma grantLoop_append (holders : List Holder) (queue : List Waiter) :
    (grantLoop holders queue).2 ++ (grantLoop holders queue).1.queue = queue := by
  induction queue generalizing holders with
  | nil => rfl
  | cons w queue ih =>
    rw [grantLoop]
    split
    · simpa using ih (grantTo w.txn w.mode holders)
    · rfl

lemma grantLoop_sound (hs : HoldersSound holders) (queue : List Waiter) :
    HoldersSound (grantLoop holders queue).1.holders := by
  induction queue generalizing holders with
  | nil => exact hs
  | cons w queue ih =>
    rw [grantLoop]
    split
    · rename_i hallow
      exact ih (hs.grantTo hallow)
    · exact hs

lemma grantLoop_refused (h : (grantLoop holders queue).1.queue.head? = some w) :
    holdersAllow (grantLoop holders queue).1.holders w.txn w.mode = false := by
  induction queue generalizing holders with
  | nil => simp [grantLoop] at h
  | cons w' queue ih =>
    rw [grantLoop] at h ⊢
    split
    · rename_i hallow
      rw [if_pos hallow] at h
      exact ih h
    · rename_i hallow
      rw [if_neg hallow] at h
      simp only [head?_cons, Option.some.injEq] at h
      subst h
      simpa using hallow

end LockEntry

/-! ### Candidates that never ask for less than they hold -/

/-- The candidates are of different transactions, and each asks for at least what its
transaction holds. -/
structure Faithful (holders : List Holder) (queue : List Waiter) : Prop where
  distinct : queue.Pairwise fun w w' => w.txn ≠ w'.txn
  stronger : ∀ w ∈ queue, ∀ h ∈ holders, h.txn = w.txn → h.mode.isData = w.mode.isData →
    w.mode.covers h.mode = true

lemma HeldCovers.grantTo {txn' : TxnId} {m' : LockMode} (hc : HeldCovers holders txn' m')
    (hstronger : ∀ h ∈ holders, h.txn = txn → h.mode.isData = m.isData →
      m.covers h.mode = true) : HeldCovers (grantTo txn m holders) txn' m' := by
  obtain ⟨h, hh, htxn, hcov⟩ := hc
  by_cases hsame : h.txn = txn ∧ h.mode.isData = m.isData
  · exact ⟨⟨txn, m⟩, self_mem_grantTo .., hsame.1.symm.trans htxn,
      LockMode.covers_trans (hstronger h hh hsame.1 hsame.2) hcov⟩
  · exact ⟨h, mem_grantTo_of_mem hh hsame, htxn, hcov⟩

lemma Faithful.tail (hf : Faithful holders (w :: queue)) :
    Faithful (grantTo w.txn w.mode holders) queue := by
  obtain ⟨hdist, hstronger⟩ := hf
  rw [pairwise_cons] at hdist
  refine ⟨hdist.2, fun x hx h hh htxn => ?_⟩
  rcases mem_grantTo hh with rfl | hh
  · exact absurd htxn (hdist.1 x hx)
  · exact hstronger x (mem_cons_of_mem _ hx) h hh htxn

namespace LockEntry

variable {queue : List Waiter}

lemma grantLoop_faithful (hf : Faithful holders queue) :
    Faithful (grantLoop holders queue).1.holders (grantLoop holders queue).1.queue := by
  induction queue generalizing holders with
  | nil => exact ⟨.nil, by simp [grantLoop]⟩
  | cons w queue ih =>
    rw [grantLoop]
    split
    · exact ih hf.tail
    · exact hf

lemma grantLoop_covered (hf : Faithful holders queue) (hc : HeldCovers holders txn m) :
    HeldCovers (grantLoop holders queue).1.holders txn m := by
  induction queue generalizing holders with
  | nil => exact hc
  | cons w queue ih =>
    rw [grantLoop]
    split
    · exact ih hf.tail (hc.grantTo (hf.stronger w mem_cons_self))
    · exact hc

lemma grantLoop_granted (hf : Faithful holders queue) (hw : w ∈ (grantLoop holders queue).2) :
    HeldCovers (grantLoop holders queue).1.holders w.txn w.mode := by
  induction queue generalizing holders with
  | nil => simp [grantLoop] at hw
  | cons w' queue ih =>
    rw [grantLoop] at hw ⊢
    split at hw
    · rename_i hallow
      rw [if_pos hallow]
      rcases mem_cons.mp hw with rfl | hw
      · exact grantLoop_covered hf.tail
          ⟨⟨w.txn, w.mode⟩, self_mem_grantTo .., rfl, LockMode.covers_refl _⟩
      · exact ih hf.tail hw
    · simp at hw

end LockEntry

/-! ### The queue against the log -/

variable {log : List LockEvent}

/-- `a` may stand before `b` in a queue. -/
structure Ahead (a b : Waiter) : Prop where
  ne : a.ticket ≠ b.ticket
  conversion : b.conversion = true → a.conversion = true
  arrival : a.conversion = false → b.conversion = false → a.ticket < b.ticket

/-- The requests of a log are numbered in the order they were queued. -/
def Numbered : LockEvent → LockEvent → Prop
  | .queued _ x, .queued _ y => x.ticket < y.ticket
  | _, _ => True

/-- A plain request is granted after each request queued before it that has not left. -/
def InArrivalOrder (log : List LockEvent) : Prop :=
  ∀ pre post r y, log = pre ++ .granted r y :: post → y.conversion = false →
    ∀ x, [queued r x, .queued r y].Sublist pre →
      .granted r x ∈ pre ∨ .left r x ∈ pre

structure QueueLog (r : LockResource) (queue : List Waiter) (log : List LockEvent) : Prop where
  shape : queue.Pairwise Ahead
  logged : ∀ x ∈ queue, .queued r x ∈ log
  settled : ∀ x, .queued r x ∈ log → x ∈ queue ∨ .granted r x ∈ log ∨ .left r x ∈ log

variable {new : List LockEvent}

lemma InArrivalOrder.append (h : InArrivalOrder log)
    (hnew : ∀ r y, granted r y ∉ new) : InArrivalOrder (log ++ new) := by
  intro pre post r y heq hy x hsub
  obtain ⟨t, rfl, ht⟩ | ⟨t, rfl, ht⟩ := append_eq_append_iff.mp heq
  · have hmem : granted r y ∈ new := by
      rw [ht]
      exact mem_append_right _ mem_cons_self
    exact absurd hmem (hnew r y)
  · cases t with
    | nil =>
      have hmem : granted r y ∈ new := by
        rw [nil_append] at ht
        rw [← ht]
        exact mem_cons_self
      exact absurd hmem (hnew r y)
    | cons e t =>
      rw [cons_append, cons.injEq] at ht
      obtain ⟨rfl, -⟩ := ht
      exact h pre t r y rfl hy x hsub

variable {r : LockResource}

lemma InArrivalOrder.grant
    (h : InArrivalOrder log) (hnum : log.Pairwise Numbered) (hq : QueueLog r (w :: queue) log) :
    InArrivalOrder (log ++ [.granted r w]) := by
  intro pre post r' y heq hy x hsub
  rcases eq_nil_or_concat post with rfl | ⟨post', e, rfl⟩
  · -- the new grant: whatever was queued before it is not behind it in the queue
    obtain ⟨rfl, hlast⟩ := append_inj' heq rfl
    simp only [cons.injEq, granted.injEq, and_true] at hlast
    obtain ⟨rfl, rfl⟩ := hlast
    have hlt : x.ticket < w.ticket := by
      have hpair := hnum.sublist hsub
      simpa [Numbered] using hpair
    have hx : queued r x ∈ log := hsub.subset (by simp)
    rcases hq.settled x hx with hx | hx
    · rcases mem_cons.mp hx with rfl | hx
      · exact absurd hlt (lt_irrefl _)
      · have hahead := (pairwise_cons.mp hq.shape).1 x hx
        have hplain : x.conversion = false := by
          by_contra hc
          rw [Bool.not_eq_false] at hc
          rw [hahead.conversion hc] at hy
          cases hy
        exact absurd hlt (hahead.arrival hy hplain).asymm
    · exact hx
  · rw [concat_eq_append, ← cons_append, ← append_assoc] at heq
    obtain ⟨rfl, -⟩ := append_inj' heq rfl
    exact h pre post' r' y rfl hy x hsub

lemma eq_of_ticket (hnum : log.Pairwise Numbered) {r' : LockResource} {x y : Waiter}
    (hx : queued r x ∈ log) (hy : queued r' y ∈ log) (h : x.ticket = y.ticket) :
    r = r' ∧ x = y := by
  by_contra hne
  have hne' : queued r x ≠ .queued r' y := by
    intro heq
    exact hne ⟨by injection heq, by injection heq⟩
  obtain hsub | hsub : [queued r x, .queued r' y].Sublist log ∨
      [queued r' y, .queued r x].Sublist log := by
    clear hnum hne
    induction log with
    | nil => cases hx
    | cons e log ih =>
      rcases mem_cons.mp hx with rfl | hx'
      · rcases mem_cons.mp hy with heq | hy'
        · exact absurd heq.symm hne'
        · exact .inl (Sublist.cons_cons _ (singleton_sublist.mpr hy'))
      · rcases mem_cons.mp hy with rfl | hy'
        · exact .inr (Sublist.cons_cons _ (singleton_sublist.mpr hx'))
        · exact (ih hx' hy').imp (·.cons _) (·.cons _)
  · have hpair := hnum.sublist hsub
    simp [Numbered, h] at hpair
  · have hpair := hnum.sublist hsub
    simp [Numbered, h] at hpair

namespace QueueLog

variable {r : LockResource} {queue : List Waiter} {log : List LockEvent}

/-- The log grows: whoever leaves the queue is granted or has left, and whoever queues is in it. -/
lemma append {queue' : List Waiter} (hq : QueueLog r queue log) (hshape : queue'.Pairwise Ahead)
    (hlogged : ∀ x ∈ queue', x ∈ queue ∨ queued r x ∈ new)
    (hsettled : ∀ x ∈ queue, x ∈ queue' ∨ granted r x ∈ new ∨ left r x ∈ new)
    (hnew : ∀ x, queued r x ∈ new → x ∈ queue') : QueueLog r queue' (log ++ new) := by
  refine ⟨hshape, fun x hx => mem_append.mpr ((hlogged x hx).imp_left (hq.logged x)),
    fun x hx => ?_⟩
  simp only [mem_append] at hx ⊢
  rcases hx with hx | hx
  · have := hq.settled x hx
    have := hsettled x
    tauto
  · exact .inl (hnew x hx)

lemma append_other (hq : QueueLog r queue log)
    (hnew : ∀ x, queued r x ∉ new) : QueueLog r queue (log ++ new) :=
  hq.append hq.shape (fun _ => .inl) (fun _ => .inl) fun x hx => absurd hx (hnew x)

lemma plain_of_mem_dropWhile (hq : QueueLog r queue log) {x : Waiter}
    (hx : x ∈ queue.dropWhile Waiter.conversion) : x.conversion = false := by
  have hshape := hq.shape.sublist (dropWhile_sublist Waiter.conversion)
  cases hd : queue.dropWhile Waiter.conversion with
  | nil =>
    rw [hd] at hx
    cases hx
  | cons y rest =>
    have hy : y.conversion = false := by
      have := head?_dropWhile_not Waiter.conversion queue
      simpa [hd] using this
    rw [hd] at hx hshape
    rcases mem_cons.mp hx with rfl | hx
    · exact hy
    · by_contra hc
      have := ((pairwise_cons.mp hshape).1 x hx).conversion (by simpa using hc)
      cases hy.symm.trans this

lemma put {e : LockEntry} (hq : QueueLog r e.queue log)
    (hfresh : ∀ x, queued r x ∈ log → x.ticket < w.ticket) :
    QueueLog r (e.put w).queue (log ++ [.queued r w]) := by
  have hlt : ∀ x ∈ e.queue, x.ticket < w.ticket := fun x hx => hfresh x (hq.logged x hx)
  have hmem : ∀ x, x ∈ (e.put w).queue ↔ x = w ∨ x ∈ e.queue := fun x => by
    rw [(e.put_perm w).mem_iff, mem_cons]
  refine hq.append ?_ (fun x hx => ?_) (fun x hx => .inl ((hmem x).mpr (.inr hx))) fun x hx => ?_
  · rw [LockEntry.put]
    split
    · rename_i hconv
      have hparts := hq.shape
      rw [← takeWhile_append_dropWhile (p := Waiter.conversion) (l := e.queue),
        pairwise_append] at hparts
      refine pairwise_append.mpr ⟨hparts.1, pairwise_cons.mpr ⟨?_, hparts.2.1⟩, ?_⟩
      · intro x hx
        have hplain := hq.plain_of_mem_dropWhile hx
        have hxlt := hlt x ((dropWhile_sublist _).subset hx)
        exact ⟨hxlt.ne', by simp [hplain], by simp [hconv]⟩
      · intro x hx y hy
        rcases mem_cons.mp hy with rfl | hy
        · have hxc : x.conversion = true := mem_takeWhile_imp hx
          have hxlt := hlt x ((takeWhile_sublist _).subset hx)
          exact ⟨hxlt.ne, fun _ => hxc, fun _ _ => hxlt⟩
        · exact hparts.2.2 x hx y hy
    · rename_i hplain
      refine pairwise_append.mpr ⟨hq.shape, pairwise_singleton .., fun x hx y hy => ?_⟩
      rw [mem_singleton] at hy
      subst hy
      exact ⟨(hlt x hx).ne, fun hc => absurd hc hplain, fun _ _ => hlt x hx⟩
  · exact ((hmem x).mp hx).symm.imp_right fun h => by simp [h]
  · exact (hmem x).mpr (.inl (by simpa using hx))

lemma leave {queue' : List Waiter} (gone : List Waiter) (hq : QueueLog r queue log)
    (hsub : queue'.Sublist queue) (hgone : ∀ x ∈ queue, x ∈ queue' ∨ x ∈ gone) :
    QueueLog r queue' (log ++ gone.map (.left r)) :=
  hq.append (hq.shape.sublist hsub) (fun _ hx => .inl (hsub.subset hx))
    (fun x hx => (hgone x hx).imp_right fun h => .inr (mem_map_of_mem h)) (by simp)

lemma grant (hq : QueueLog r (w :: queue) log) : QueueLog r queue (log ++ [.granted r w]) :=
  hq.append (pairwise_cons.mp hq.shape).2 (fun _ hx => .inl (mem_cons_of_mem _ hx))
    (fun _ hx => (mem_cons.mp hx).symm.imp_right fun h => by simp [h]) (by simp)

/-- A grant pass keeps the queue and its log in agreement, and grants in order. -/
lemma grantLoop (holders : List Holder) (hq : QueueLog r queue log)
    (hnum : log.Pairwise Numbered) (horder : InArrivalOrder log) :
    QueueLog r (LockEntry.grantLoop holders queue).1.queue
        (log ++ (LockEntry.grantLoop holders queue).2.map (.granted r)) ∧
      InArrivalOrder (log ++ (LockEntry.grantLoop holders queue).2.map (.granted r)) := by
  induction queue generalizing holders log with
  | nil => simpa [LockEntry.grantLoop] using ⟨hq, horder⟩
  | cons w queue ih =>
    rw [LockEntry.grantLoop]
    split
    · have hnum' : (log ++ [granted r w]).Pairwise Numbered := by
        refine pairwise_append.mpr ⟨hnum, pairwise_singleton .., fun e _ e' he' => ?_⟩
        rw [mem_singleton] at he'
        subst he'
        cases e <;> trivial
      simpa using ih _ hq.grant hnum' (horder.grant hnum hq)
    · simpa using ⟨hq, horder⟩

end QueueLog

end VaubanDB
