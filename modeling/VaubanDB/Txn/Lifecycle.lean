import VaubanDB.Memory.OneVersion
import VaubanDB.Txn.Manager

/-!
The lives of the transactions.

`Lives` is what the manager, the storage and the locks come to for the other transactions: who is
open, what is written, who has ended, which locks are held.  Every event of the manager is a few
steps of such lives (`TxnSystem.steps`).  Because of the exclusive locks, a version that is not the
last one of its chain was replaced by the creator of any later one, or by a transaction that has
committed and is closed (`Lives.Sound.layered`).
-/

namespace VaubanDB

open Option
open List (mem_append_left mem_filter mem_append mem_singleton mem_snoc pairwise_append find?_some
  mem_map mem_of_find?_eq_some)
open MemoryStorage

/-! ### Locks that are kept -/

variable {x : TxnId} {a : LockAction}

namespace LockWorld

variable {w w' : LockWorld} {g : Grant} {r : LockResource}

lemma served_giveUp (w : LockWorld) (r : LockResource) (ticket : ℕ) :
    (w.giveUp r ticket).served = w.served := by
  rw [giveUp]
  split <;> rfl

lemma served_wake_subset {c : LockCall} {givesUp : Bool} (hg : g ∈ w.served) :
    g ∈ (w.wake c givesUp).served := by
  rw [wake]
  split_ifs
  · exact mem_append_left _ hg
  · rwa [served_giveUp]
  · exact hg

lemma served_request_subset {txn : TxnId} {mode : LockMode} {givesUp : Bool} (hg : g ∈ w.served) :
    g ∈ (w.request txn r mode givesUp).served := by
  rw [request]
  split
  · exact mem_append_left _ hg
  · simp only
    split_ifs
    · exact mem_append_left _ hg
    · rwa [served_giveUp]
    · exact hg

lemma mem_served_retire {txn : TxnId} :
    g ∈ (w.retire txn r).served ↔ g ∈ w.served ∧ ¬ (g.txn = txn ∧ g.resource = r) := by
  exact mem_filter.trans (and_congr_right' decide_eq_true_iff)

lemma mem_served_exec (hs : w.exec a = some w') (hg : g ∈ w.served)
    (hunlock : a ≠ .unlock g.txn g.resource) (hend : ∀ order, a ≠ .releaseAll g.txn order) :
    g ∈ w'.served := by
  refine exec_rule (g ∈ ·.served) hs hg (fun _ _ _ _ _ => served_request_subset hg)
    (fun _ _ _ _ => served_wake_subset hg) fun txn r v ha _ _ hv => mem_served_retire.mpr ⟨hv, ?_⟩
  rintro ⟨rfl, rfl⟩
  rcases ha with ha | ⟨order, ha⟩
  · exact hunlock ha
  · exact hend order ha

lemma eq_of_data (ho : w.Ordered none) (hh : w.Honest) {m : LockMode} {y : TxnId}
    (hx : (⟨x, r, m⟩ : Grant) ∈ w.served) (hm : m.isData = true)
    (hy : (⟨y, r, .X⟩ : Grant) ∈ w.served) : x = y := by
  have hexcl : ∀ m : LockMode, m.covers .X = true → m = .X := by
    intro m
    cases m <;> decide
  have hdata : ∀ h : LockMode, h.covers m = true → h.compatibleWith .X = false := by
    intro h
    cases h <;> cases m <;> first | decide | cases hm
  obtain ⟨h, hmem, rfl, hcov⟩ := hh.served _ hx
  obtain ⟨h', hmem', rfl, hcov'⟩ := hh.served _ hy
  by_contra hne
  have hcompat := (ho.holders r).compatible h hmem h' hmem' hne
  rw [hexcl _ hcov', hdata _ hcov] at hcompat
  cases hcompat

lemma eq_of_exclusive (ho : w.Ordered none) (hh : w.Honest) {y : TxnId}
    (hx : (⟨x, r, .X⟩ : Grant) ∈ w.served) (hy : (⟨y, r, .X⟩ : Grant) ∈ w.served) : x = y :=
  eq_of_data ho hh hx rfl hy

end LockWorld

/-! ### Transactions that have ended in the storage -/

variable {s : Inner}

lemma Owned.notMem_ended {h : History} (hown : Owned s h.ended)
    (hl : Ledger s.txns h) (hx : (s.stateOf x).status = .inProgress) : x ∉ h.ended := by
  intro hended
  cases hs : s.txns.get? x with
  | none => exact hown.ended x hended hs
  | some st =>
    rw [Inner.stateOf, hs, getD_some] at hx
    exact hl.live x st hs hx hended

lemma Call.after_of_finished (hs : Catalog s ∧ Rows s) {c : Call}
    (hc : c.txn? = some x) (hx : (s.stateOf x).status ≠ .inProgress) : c.after s = s := by
  have heff := c.effect hs.1 hs.2
  generalize c.after s = s' at heff ⊢
  cases heff with
  | idle _ => rfl
  | redefined hdef _ => cases c <;> cases hdef <;> cases hc
  | returned hs hlive _ _ =>
    obtain rfl := some.inj hc
    rw [Inner.stateOf, hs] at hx
    exact absurd hlive hx
  | vacuumed horizon => cases hc
  | _ =>
    obtain rfl := some.inj hc
    exact absurd ‹_› hx

/-! ### Lives -/

/-- The transactions, what they have written and the locks they hold. -/
structure Lives where
  site : Site
  nextId : TxnId
  opened : List TxnId
  locks : LockWorld

namespace Lives

abbrev inner (w : Lives) : Inner := w.site.inner

abbrev committed (w : Lives) : Set TxnId := w.site.history.committed

abbrev ended (w : Lives) : Set TxnId := w.site.history.ended

/-- The transactions that have committed and are closed. -/
def done (w : Lives) : Set TxnId := {x | x ∈ w.committed ∧ x ∉ w.opened}

/-- The exclusive lock of a transaction on a row. -/
def Exclusive (w : Lives) (x : TxnId) (T : TableId) (r : RowId) : Prop :=
  (⟨x, .row T r, .X⟩ : Grant) ∈ w.locks.served

/-- The rows a call replaces are locked by its transaction. -/
def Covers (w : Lives) : Call → Prop
  | .update x T r _ | .delete x T r => w.Exclusive x T r
  | _ => True

/-- The lock call gives back no exclusive lock on a row. -/
def Keeps (w : Lives) : LockAction → Prop
  | .unlock x (.row T r) => ¬ w.Exclusive x T r
  | .releaseAll .. => False
  | _ => True

/-- One step of a transaction, or of the lock manager. -/
inductive Step (w : Lives) : Lives → Prop
  | begin : Step w { w with nextId := w.nextId + 1, opened := w.opened ++ [w.nextId] }
  | call (c : Call) (x : TxnId) (hc : c.txn? = some x) (hopen : x ∈ w.opened)
      (hlive : x ∉ w.ended) (hlock : w.Covers c) : Step w { w with site := w.site.after c }
  | close (x : TxnId) (order : List LockResource) (locks : LockWorld) (hended : x ∈ w.ended)
      (halone : w.locks.Alone (.releaseAll x order))
      (hs : w.locks.exec (.releaseAll x order) = some locks) :
      Step w { w with opened := w.opened.filter fun y => y != x, locks }
  | lock (a : LockAction) (locks : LockWorld) (halone : w.locks.Alone a) (hkeep : w.Keeps a)
      (hs : w.locks.exec a = some locks) : Step w { w with locks }

variable {w w' : Lives}

lemma Step.exclusive (hs : w.Step w') {T : TableId} {r : RowId} (hx : w.Exclusive x T r)
    (hopen : x ∈ w'.opened) : w'.Exclusive x T r := by
  cases hs with
  | begin | call => exact hx
  | close y order locks _ _ hs =>
    have hxy : x ≠ y := by simpa using (mem_filter.mp hopen).2
    exact LockWorld.mem_served_exec hs hx nofun fun order' heq =>
      hxy (LockAction.releaseAll.inj heq).1.symm
  | lock a locks _ hkeep hs =>
    refine LockWorld.mem_served_exec hs hx ?_ ?_
    · rintro rfl
      exact hkeep hx
    · rintro order rfl
      exact hkeep

/-- What the run of a manager keeps. -/
structure Sound (w : Lives) : Prop where
  site : w.site.Reachable fun _ c => c.isVacuum = false
  opened_lt : ∀ x ∈ w.opened, x < w.nextId
  ended_lt : ∀ x ∈ w.ended, x < w.nextId
  closed : ∀ x, x < w.nextId → x ∉ w.opened → x ∈ w.ended ∨ x = 0
  ordered : w.locks.Ordered none
  honest : w.locks.Honest
  creators_lt : ∀ T r c, w.inner.Chain T r c → ∀ v ∈ c, v.xmin < w.nextId
  held : ∀ T r c, w.inner.Chain T r c →
    c.Pairwise fun _ b => b.xmin ∉ w.opened ∨ w.Exclusive b.xmin T r
  layered : ∀ T r c, w.inner.Chain T r c → c.Pairwise (Superseded w.done)

namespace Sound

variable {x : TxnId} {T : TableId} {r : RowId}

variable (h : w.Sound)
include h

lemma owned : Owned w.inner w.ended := h.site.owned

lemma registry : Registry w.inner w.site.history := h.site.registry

lemma committed_lt (hx : x ∈ w.committed) : x < w.nextId :=
  h.ended_lt x (h.registry.ledger.ended x hx)

lemma of_chains (hsite : w'.site = w.site) (hnext : w.nextId ≤ w'.nextId)
    (hopen : ∀ x ∈ w'.opened, x ∈ w.opened ∨ w.nextId ≤ x)
    (hopened_lt : ∀ x ∈ w'.opened, x < w'.nextId)
    (hclosed : ∀ x, x < w'.nextId → x ∉ w'.opened → x ∈ w'.ended ∨ x = 0)
    (hordered : w'.locks.Ordered none) (hhonest : w'.locks.Honest)
    (hheld : ∀ x T r, x ∈ w'.opened → w.Exclusive x T r → w'.Exclusive x T r) : w'.Sound := by
  have hchain : ∀ {T r c}, w'.inner.Chain T r c → w.inner.Chain T r c := fun hc => by
    rwa [inner, hsite] at hc
  refine ⟨hsite ▸ h.site, hopened_lt, fun x hx => ?_, hclosed, hordered, hhonest, ?_, ?_, ?_⟩
  · rw [ended, hsite] at hx
    exact (h.ended_lt x hx).trans_le hnext
  · exact fun T r c hc v hv => (h.creators_lt T r c (hchain hc) v hv).trans_le hnext
  · intro T r c hc
    refine (h.held T r c (hchain hc)).imp_of_mem fun {a b} _ hb hheldb => ?_
    by_cases hmem : b.xmin ∈ w'.opened
    · rcases hopen _ hmem with hold | hle
      · exact .inr (hheld _ T r hmem (hheldb.resolve_left fun hnot => hnot hold))
      · exact absurd (h.creators_lt T r c (hchain hc) b hb) (not_lt.mpr hle)
    · exact .inl hmem
  · intro T r c hc
    refine (h.layered T r c (hchain hc)).imp ?_
    rintro a b ⟨x, hx, heq | ⟨hcom, hnot⟩⟩
    · exact ⟨x, hx, .inl heq⟩
    · refine ⟨x, hx, .inr ⟨?_, fun hmem => ?_⟩⟩
      · rw [committed, hsite]
        exact hcom
      · rcases hopen x hmem with hold | hle
        · exact hnot hold
        · exact absurd (h.committed_lt hcom) (not_lt.mpr hle)

lemma begin : Sound { w with nextId := w.nextId + 1, opened := w.opened ++ [w.nextId] } := by
  refine h.of_chains rfl (Nat.le_succ _) (fun x hx => ?_) (fun x hx => ?_) (fun x hlt hx => ?_)
    h.ordered h.honest fun _ _ _ _ hheld => hheld
  · exact (mem_append.mp hx).imp_right fun hx => (mem_singleton.mp hx).ge
  · rcases mem_append.mp hx with hx | hx
    · exact Nat.lt_succ_of_lt (h.opened_lt x hx)
    · exact mem_singleton.mp hx ▸ Nat.lt_succ_self _
  · rw [mem_append, mem_singleton, not_or] at hx
    exact h.closed x (lt_of_le_of_ne (Nat.le_of_lt_succ hlt) hx.2) hx.1

variable {locks : LockWorld}

lemma lock (halone : w.locks.Alone a)
    (hkeep : w.Keeps a) (hs : w.locks.exec a = some locks) : Sound { w with locks } := by
  refine h.of_chains rfl le_rfl (fun _ => .inl) h.opened_lt h.closed (h.ordered.exec hs)
    (h.honest.exec h.ordered halone hs) fun _ _ _ hx hheld =>
      (Step.lock a locks halone hkeep hs).exclusive hheld hx

lemma close {order : List LockResource} (hended : x ∈ w.ended)
    (halone : w.locks.Alone (.releaseAll x order))
    (hs : w.locks.exec (.releaseAll x order) = some locks) :
    Sound { w with opened := w.opened.filter fun y => y != x, locks } := by
  refine h.of_chains rfl le_rfl (fun y hy => .inl (List.mem_of_mem_filter hy))
    (fun y hy => h.opened_lt y (List.mem_of_mem_filter hy)) (fun y hlt hy => ?_)
    (h.ordered.exec hs) (h.honest.exec h.ordered halone hs)
    fun _ _ _ hx hheld => (Step.close x order locks hended halone hs).exclusive hheld hx
  by_cases hyx : y = x
  · exact .inl (hyx ▸ hended)
  · exact h.closed y hlt fun hmem => hy (mem_filter.mpr ⟨hmem, by simpa using hyx⟩)

/-- What is known of a chain after a call of an open transaction. -/
structure Kept (w : Lives) (T : TableId) (r : RowId) (done : Set TxnId) (c : List Version) :
    Prop where
  creators_lt : ∀ v ∈ c, v.xmin < w.nextId
  held : c.Pairwise fun _ b => b.xmin ∉ w.opened ∨ w.Exclusive b.xmin T r
  layered : c.Pairwise (Superseded done)

variable {c : List Version}

lemma kept (hc : w.inner.Chain T r c) : Kept w T r w.done c :=
  ⟨h.creators_lt T r c hc, h.held T r c hc, h.layered T r c hc⟩

variable {e : List Version} {done : Set TxnId}

omit h in
lemma Kept.stamp_last {a : Version} (h : Kept w T r done (e ++ [a])) (y : Option TxnId) :
    Kept w T r done (e ++ [{ a with xmax := y }]) := by
  refine ⟨fun v hv => ?_, pairwise_stamp_last (fun _ _ _ h => h) y h.held,
    pairwise_stamp_last superseded_stamp y h.layered⟩
  rcases mem_snoc.mp hv with hv | rfl
  · exact h.creators_lt v (mem_append_left _ hv)
  · exact h.creators_lt a (by simp)

variable {c' : List Version}

omit h in
lemma Kept.trim (h : Kept w T r done c) (ht : Trimmed c' c) : Kept w T r done c' := by
  refine ⟨fun v hv => ?_, ht.pairwise (fun _ _ _ h => h) h.held,
    ht.pairwise superseded_stamp h.layered⟩
  obtain ⟨u, hu, hxmin⟩ := ht.exists_creator hv
  exact hxmin ▸ h.creators_lt u hu

omit h in
/-- A new version by the holder of the exclusive lock: whoever replaced the versions before the
last one is closed, or is the writer. -/
lemma Kept.update (hw : w.Sound) {a b : Version}
    (h : Kept w T r w.done (e ++ [a])) (hb : b.xmin = x) (hopen : x ∈ w.opened)
    (hlock : w.Exclusive x T r)
    (hcommitted : (e ++ [{ a with xmax := some x }, b]).Pairwise (Superseded w.committed)) :
    Kept w T r w.done (e ++ [{ a with xmax := some x }, b]) := by
  have hstamp := h.stamp_last (some x)
  rw [List.append_cons] at hcommitted ⊢
  refine ⟨fun v hv => ?_, pairwise_append.mpr ⟨hstamp.held, by simp, fun v _ b' hb' => ?_⟩,
    pairwise_append.mpr ⟨hstamp.layered, by simp, fun v hv b' hb' => ?_⟩⟩
  · rcases mem_snoc.mp hv with hv | rfl
    · exact hstamp.creators_lt v hv
    · exact hb ▸ hw.opened_lt x hopen
  · obtain rfl := mem_singleton.mp hb'
    exact .inr (hb ▸ hlock)
  · obtain ⟨y, hy, hfate⟩ := (pairwise_append.mp hcommitted).2.2 v hv b' hb'
    obtain rfl := mem_singleton.mp hb'
    refine ⟨y, hy, ?_⟩
    rcases hfate with heq | hcom
    · exact .inl heq
    rcases mem_snoc.mp hv with hv | rfl
    · -- the deleter of an older version is the creator of the last one, or it was closed before
      obtain ⟨z, hz, hold⟩ := (pairwise_append.mp h.layered).2.2 v hv a (by simp)
      obtain rfl : y = z := mem_unique hy hz
      rcases hold with rfl | hdone
      · rcases (pairwise_append.mp h.held).2.2 v hv a (by simp) with hclosed | hheld
        · exact .inr ⟨hcom, hclosed⟩
        · exact .inl (hb ▸ LockWorld.eq_of_exclusive hw.ordered hw.honest hheld hlock)
      · exact .inr hdone
    · exact .inl (hb ▸ (some.inj hy).symm)

lemma kept_after {c : Call} (hc : c.txn? = some x) (hopen : x ∈ w.opened)
    (hlock : w.Covers c) (hreg : Registry (w.site.after c).inner (w.site.after c).history)
    (hc' : (c.after w.inner).Chain T r c') : Kept w T r w.done c' := by
  obtain ⟨hcat, hrows⟩ := h.site.sound
  cases c.chain_cases hcat hrows hc' with
  | trimmed hold htrim => exact (h.kept hold).trim htrim
  | inserted hxmin _ _ =>
    obtain rfl := some.inj hc
    refine ⟨fun v hv => ?_, List.pairwise_singleton _ _, List.pairwise_singleton _ _⟩
    obtain rfl := mem_singleton.mp hv
    exact hxmin ▸ h.opened_lt _ hopen
  | deleted hold hxmax => exact (h.kept hold).stamp_last _
  | updated hold hxmax hb _ =>
    obtain rfl := some.inj hc
    exact (h.kept hold).update h hb hopen hlock (hreg.chained.superseded T r _ hc')

lemma call {c : Call} (hc : c.txn? = some x) (hopen : x ∈ w.opened)
    (hlive : x ∉ w.ended) (hlock : w.Covers c) : Sound { w with site := w.site.after c } := by
  have hx : ∀ t, c.txn? = some t → t = x := fun t ht => mem_unique ht hc
  have hsite : (w.site.after c).Reachable fun _ c => c.isVacuum = false := by
    refine h.site.tail (.call c (fun t ht => hx t ht ▸ hlive) ?_)
    cases c <;> first | rfl | cases hc
  have hkept : ∀ {T r c'}, (c.after w.inner).Chain T r c' → Kept w T r w.done c' :=
    h.kept_after hc hopen hlock hsite.registry
  have hcommitted : ∀ y ∈ w.committed, y ∈ (w.site.after c).history.committed := by
    intro y hy
    cases c <;> first | exact hy | exact .inr hy
  refine ⟨hsite, h.opened_lt, fun y hy => ?_, fun y hlt hy => ?_, h.ordered, h.honest,
    fun T r c' hc' => (hkept hc').creators_lt, fun T r c' hc' => (hkept hc').held,
    fun T r c' hc' => (hkept hc').layered.imp ?_⟩
  · rcases World.ended_after hy with hy | rfl | rfl
    · exact h.ended_lt y hy
    · exact hx y rfl ▸ h.opened_lt x hopen
    · exact hx y rfl ▸ h.opened_lt x hopen
  · refine (h.closed y hlt hy).imp_left fun hended => ?_
    cases c <;> first | exact hended | exact .inr hended
  · rintro a b ⟨y, hy, hfate⟩
    exact ⟨y, hy, hfate.imp_right fun hdone => ⟨hcommitted y hdone.1, hdone.2⟩⟩

/-- Every step keeps what is known. -/
theorem step (hs : w.Step w') : w'.Sound := by
  cases hs with
  | begin => exact h.begin
  | call c x hc hopen hlive hlock => exact h.call hc hopen hlive hlock
  | close x order locks hended halone hs => exact h.close hended halone hs
  | lock a locks halone hkeep hs => exact h.lock halone hkeep hs

end Sound

def Leads (w w' : Lives) : Prop := Relation.ReflTransGen Step w w'

lemma Leads.sound (h : w.Sound) (hl : w.Leads w') : w'.Sound := by
  induction hl with
  | refl => exact h
  | tail _ hs ih => exact ih.step hs

lemma Step.opened (hs : w.Step w') (hx : x < w.nextId) (hopen : x ∈ w'.opened) : x ∈ w.opened := by
  cases hs with
  | begin => exact (mem_append.mp hopen).resolve_right fun h => hx.ne (mem_singleton.mp h)
  | call | lock => exact hopen
  | close => exact List.mem_of_mem_filter hopen

lemma Leads.nextId_le (hl : w.Leads w') : w.nextId ≤ w'.nextId := by
  induction hl with
  | refl => exact le_rfl
  | tail _ hs ih =>
    cases hs with
    | begin => exact ih.trans (Nat.le_succ _)
    | _ => exact ih

lemma Leads.exclusive (hl : w.Leads w') {T : TableId} {r : RowId} (hlt : x < w.nextId)
    (hx : w.Exclusive x T r) (hopen : x ∈ w'.opened) : w'.Exclusive x T r := by
  induction hl with
  | refl => exact hx
  | tail hl hs ih =>
    exact hs.exclusive (ih (hs.opened (hlt.trans_le (nextId_le hl)) hopen)) hopen

end Lives

/-! ### The entries of the manager -/

namespace ManagerState

variable {s : ManagerState} {x id : TxnId} {o : OpenTxn} {f : OpenTxn → OpenTxn}

lemma id_of_find (h : s.find x = some o) : o.id = x := by
  simpa using find?_some h

lemma mem_ids_of_find (h : s.find x = some o) : x ∈ s.ids :=
  mem_map.mpr ⟨o, mem_of_find?_eq_some h, id_of_find h⟩

lemma find_of_mem_ids (h : x ∈ s.ids) : ∃ o, s.find x = some o := by
  obtain ⟨o, ho, rfl⟩ := mem_map.mp h
  exact isSome_iff_exists.mp (List.find?_isSome.mpr ⟨o, ho, by simp⟩)

lemma find_of_live (h : s.live x = some o) : s.find x = some o ∧ o.ending = false := by
  obtain ⟨hf, he⟩ := filter_eq_some_iff.mp h
  exact ⟨hf, by simpa using he⟩

lemma mem_ids_of_live (h : s.live x = some o) : x ∈ s.ids := mem_ids_of_find (find_of_live h).1

lemma ids_modify (hf : ∀ o, (f o).id = o.id) : (s.modify id f).ids = s.ids := by
  rw [ids, modify, List.map_map]
  refine List.map_congr_left fun o _ => ?_
  by_cases h : o.id = id <;> simp [h, hf]

lemma find_modify (hf : ∀ o, (f o).id = o.id) :
    (s.modify id f).find x = (s.find x).map fun o => if x = id then f o else o := by
  have hpred : (fun o : OpenTxn => decide (o.id = x)) ∘
      (fun o => if o.id = id then f o else o) = fun o => decide (o.id = x) := by
    funext o
    by_cases h : o.id = id <;> simp [h, hf]
  rw [find, modify, List.find?_map, hpred]
  refine map_congr fun o ho => ?_
  rw [id_of_find (s := s) ho]

lemma ids_begin (db : DbId) (isolation : IsolationLevel) :
    (s.begin db isolation).ids = s.ids ++ [s.nextId] := by
  simp [ids, begin]

lemma ids_remove (h : s.ids.Nodup) : (s.remove x).ids = s.ids.filter fun y => y != x := by
  rw [← h.erase_eq_filter, ids, remove, ids, List.erase_eq_eraseP, List.eraseP_map]
  congr 1
  refine congrFun (congrArg _ ?_) _
  funext o
  simp [eq_comm, beq_eq_decide]

lemma find_remove (h : x ≠ id) : (s.remove id).find x = s.find x := by
  rw [find, remove, find]
  induction s.opened with
  | nil => rfl
  | cons o l ih =>
    by_cases ho : o.id = id
    · simp [ho, h.symm]
    · simp [ho, List.find?_cons, ih]

lemma modify_self (s : ManagerState) (id : TxnId) : s.modify id (fun o => o) = s := by simp [modify]

lemma statementSnapshot_eq (s : ManagerState) (mode : OpenTxn → VersioningMode) (id : TxnId) :
    ∃ f : OpenTxn → OpenTxn, (∀ o, (f o).id = o.id ∧ (f o).ending = o.ending) ∧
      (s.statementSnapshot mode id).2 = s.modify id f := by
  have hsame := s.modify_self id
  rw [statementSnapshot]
  split
  · exact ⟨fun o => o, fun _ => ⟨rfl, rfl⟩, hsame.symm⟩
  · split
    · exact ⟨fun o => o, fun _ => ⟨rfl, rfl⟩, hsame.symm⟩
    · split_ifs
      · exact ⟨fun o => { o with pinned := some (s.snapshotFor id) }, fun _ => ⟨rfl, rfl⟩, rfl⟩
      · exact ⟨fun o => { o with last := some (s.snapshotFor id) }, fun _ => ⟨rfl, rfl⟩, rfl⟩

end ManagerState

open ManagerState

/-! ### What an event can do -/

/-- The call of the storage that an event makes, the ends of the transactions aside. -/
def TxnEvent.call? : TxnEvent → Option Call
  | .savepoint x => some (.savepoint x)
  | .rollbackTo x sp => some (.rollbackTo x sp)
  | .insert x T row => some (.insert x T row)
  | .update x T r row => some (.update x T r row)
  | .delete x T r => some (.delete x T r)
  | _ => none

/-- The call of the lock manager that an event makes, the ends of the transactions aside. -/
def TxnEvent.lockAction? : TxnEvent → Option LockAction
  | .lock x r mode givesUp => some (.request x r mode givesUp)
  | .wake c givesUp => some (.wake c givesUp)
  | .unlock x r => some (.unlock x r)
  | _ => none

namespace TxnSystem

variable {w w' : TxnSystem} {e : TxnEvent} {order : List LockResource}

/-- What an event can do to the system. -/
inductive Effect (w : TxnSystem) : TxnEvent → TxnSystem → Prop
  | idle {e : TxnEvent} (he : ∀ x, e ≠ .statementSnapshot x) : Effect w e w
  | options (db : DbId) (options : VersioningOptions) :
      Effect w (.setVersioningOptions db options)
        { w with versioning := w.versioning.insert db options }
  | begin {e : TxnEvent} (db : DbId) (isolation : IsolationLevel)
      (he : ∀ x, e ≠ .statementSnapshot x) :
      Effect w e { w with state := w.state.begin db isolation }
  | snapshot (x : TxnId) :
      Effect w (.statementSnapshot x) { w with
        state := (w.state.statementSnapshot w.modeOf x).2
        pinnedAt := if w.pins x then w.pinnedAt.insert x w.clock else w.pinnedAt }
  | mark (x : TxnId) (o : OpenTxn) (hlive : w.state.live x = some o) :
      Effect w (.commitMark x) { w with
        state := w.state.modify x fun o => { o with ending := true, log := [] }
        commits := w.commits ++ [⟨x, o.log, none⟩] }
  | refuse (x : TxnId) (refused : Bool) : Effect w (.commitStorage x refused) (w.answered x false)
  | commit (x : TxnId) (refused : Bool) (c : CommitCall) (hc : w.commitOf x = some c)
      (hlive : (w.storage.stateOf x).status = .inProgress) :
      Effect w (.commitStorage x refused) { w.answered x true with
        storage := (Call.commit x).after w.storage
        history := w.history.after (.commit x) }
  | reopen (x : TxnId) (order : List LockResource) (c : CommitCall) (hc : w.commitOf x = some c) :
      Effect w (.commitFinish x order) { w with
        commits := w.commits.erase c
        state := w.state.modify c.txn fun o => { o with ending := false, log := c.log } }
  | finish {x : TxnId} {order : List LockResource} {w' : TxnSystem} (c : CommitCall)
      (hc : w.commitOf x = some c) (hout : c.outcome = some true)
      (hs : { w with commits := w.commits.erase c }.close c.txn order = some w') :
      Effect w (.commitFinish x order) w'
  | rollback (x : TxnId) (order : List LockResource) (o : OpenTxn)
      (hlive : w.state.live x = some o) :
      Effect w (.rollback x order) { w with
        storage := (Call.rollback x).after w.storage
        history := w.history.after (.rollback x) }
  | rollbackClose {x : TxnId} {order : List LockResource} {w' : TxnSystem} (o : OpenTxn)
      (hlive : w.state.live x = some o)
      (hs : { w with
        storage := (Call.rollback x).after w.storage
        history := w.history.after (.rollback x) }.close x order = some w') :
      Effect w (.rollback x order) w'
  | call {e : TxnEvent} (c : Call) (he : e.call? = some c) (x : TxnId) (hc : c.txn? = some x)
      (hopen : x ∈ w.state.ids) (f : OpenTxn → OpenTxn)
      (hf : ∀ o, (f o).id = o.id ∧ (f o).ending = o.ending ∧ (f o).pinned = o.pinned) :
      Effect w e { w with storage := c.after w.storage, state := w.state.modify x f }
  | check (x : TxnId) (T : TableId) (r : RowId)
      (hanswer : w.checkWriteConflict x T r = .ok .proceed) :
      Effect w (.checkWriteConflict x T r) { w with cleared := (x, T, r) :: w.cleared }
  | lock {e : TxnEvent} (a : LockAction) (he : e.lockAction? = some a) (locks : LockWorld)
      (hs : w.locks.exec a = some locks) : Effect w e { w with locks }

lemma effect_write {c : Call} (he : e.call? = some c) (hc : c.txn? = some x)
    (hs : w.write x c = some w') : w.Effect e w' := by
  rw [write] at hs
  split_ifs at hs with hlive
  cases hs
  obtain ⟨o, ho⟩ := isSome_iff_exists.mp hlive
  have hcall := Effect.call c he x hc (mem_ids_of_live ho) (fun o => o)
    fun _ => ⟨rfl, rfl, rfl⟩
  rwa [modify_self] at hcall

lemma effect_commitStorage {refused : Bool}
    (hs : w.event (.commitStorage x refused) = some w') :
    w.Effect (.commitStorage x refused) w' := by
  simp only [event] at hs
  split at hs
  · rename_i hcall
    split_ifs at hs
    · cases hs
      exact .refuse x refused
    · rcases commit_outcome w.storage x with ⟨_, ho, _⟩ | ⟨hlive, ho⟩
      · rw [ho] at hs
        cases hs
        exact .refuse x refused
      · have hcommit := Effect.commit x refused _ hcall hlive
        simp only [Call.after, Call.exec, Call.state_map, ho] at hcommit
        rw [ho] at hs
        cases hs
        exact hcommit
  · cases hs

lemma effect_commitFinish (hs : w.event (.commitFinish x order) = some w') :
    w.Effect (.commitFinish x order) w' := by
  simp only [event] at hs
  split at hs
  · rename_i c hcall
    obtain ⟨committed, hout, hs⟩ := bind_eq_some_iff.mp hs
    rw [finish] at hs
    cases committed with
    | true => exact .finish c hcall hout hs
    | false =>
      cases hs
      exact .reopen x order c hcall
  · cases hs

lemma effect_rollback (hs : w.event (.rollback x order) = some w') :
    w.Effect (.rollback x order) w' := by
  have hstate : (Call.rollback x).after w.storage = (rollback x w.storage).state := by
    simp only [Call.after, Call.exec, Call.state_map]
  simp only [event] at hs
  split at hs
  · cases hs
    exact .idle (by simp)
  rename_i o hlive
  split at hs <;> rename_i hres <;> rw [hres] at hstate
  · refine .rollbackClose o hlive ?_
    rw [hstate]
    exact hs
  · cases hs
    have hend := Effect.rollback x order o hlive
    rwa [hstate] at hend

lemma effect_savepoint (hs : w.event (.savepoint x) = some w') : w.Effect (.savepoint x) w' := by
  have hstate : (Call.savepoint x).after w.storage = (savepoint x w.storage).state := by
    simp only [Call.after, Call.exec, Call.state_map]
  simp only [event] at hs
  split at hs
  · cases hs
    exact .idle (by simp)
  rename_i o hlive
  have hcall := Effect.call (w := w) (e := .savepoint x) _ rfl x rfl
    (mem_ids_of_live hlive)
  split at hs <;> cases hs <;> rename_i hres <;> rw [hstate, hres] at hcall
  · exact hcall _ fun _ => ⟨rfl, rfl, rfl⟩
  · have hsame := hcall (fun o => o) fun _ => ⟨rfl, rfl, rfl⟩
    rwa [modify_self] at hsame

/-- What an event can do. -/
theorem effect_of_event (hs : w.event e = some w') : w.Effect e w' := by
  cases e with
  | setVersioningOptions db options =>
    cases hs
    exact .options db options
  | begin isolation =>
    cases hs
    exact .begin defaultDb isolation (by simp)
  | beginIn db isolation =>
    simp only [event] at hs
    split_ifs at hs <;> cases hs
    · exact .idle (by simp)
    · exact .begin db isolation (by simp)
  | statementSnapshot x =>
    cases hs
    exact .snapshot x
  | commitMark x =>
    simp only [event] at hs
    split at hs <;> cases hs
    · exact .idle (by simp)
    · exact .mark x _ ‹_›
  | commitStorage x refused => exact effect_commitStorage hs
  | commitFinish x order => exact effect_commitFinish hs
  | rollback x order => exact effect_rollback hs
  | savepoint x => exact effect_savepoint hs
  | rollbackTo x sp =>
    simp only [event] at hs
    split at hs
    · cases hs
      exact .idle (by simp)
    rename_i o hlive
    have hcall := Effect.call (w := w) (e := .rollbackTo x sp) _ rfl x rfl
      (mem_ids_of_live hlive)
    simp only [Call.after, Call.exec, Call.state_map] at hcall
    split at hs <;> cases hs
    · exact .idle (by simp)
    · exact hcall _ fun _ => ⟨rfl, rfl, rfl⟩
  | checkWriteConflict x T r =>
    simp only [event] at hs
    split_ifs at hs with hanswer <;> cases hs
    · exact .check x T r hanswer
    · exact .idle (by simp)
  | insert x T row | update x T r row | delete x T r => exact effect_write rfl rfl hs
  | lock x r mode givesUp | wake c givesUp | unlock x r =>
    obtain ⟨locks, hlocks, rfl⟩ := map_eq_some_iff.mp (show w.locking _ = some w' from hs)
    exact .lock _ rfl locks hlocks

/-! ### The events as steps of lives -/

/-- The lives of the transactions of a manager. -/
def lives (w : TxnSystem) : Lives :=
  ⟨⟨w.storage, w.history⟩, w.state.nextId, w.state.ids, w.locks⟩

/-- Each update and delete is made under an exclusive lock on its row, which is kept until the
transaction is closed; a transaction makes one lock call at a time on a resource, and none while it
is being closed. -/
def Locked (w : TxnSystem) : TxnEvent → Prop
  | .update txn T r _ | .delete txn T r => w.lives.Exclusive txn T r
  | .lock txn r mode givesUp => w.locks.Alone (.request txn r mode givesUp)
  | .unlock txn r => w.locks.Alone (.unlock txn r) ∧ w.lives.Keeps (.unlock txn r)
  | .commitFinish txn order | .rollback txn order => w.locks.Alone (.releaseAll txn order)
  | _ => True

/-- The commits that run are those of the entries being ended; an accepted one has taken effect. -/
structure Committing (w : TxnSystem) : Prop where
  ids : w.state.ids.Nodup
  nodup : (w.commits.map CommitCall.txn).Nodup
  ending : ∀ c ∈ w.commits, ∃ o, w.state.find c.txn = some o ∧ o.ending = true
  accepted : ∀ c ∈ w.commits, c.outcome = some true → c.txn ∈ w.history.committed

/-- A call of an open transaction that does not end it; the storage refuses the calls of one that
is not in progress. -/
lemma call_leads (h : w.lives.Sound) {c : Call} (hc : c.txn? = some x)
    (hopen : x ∈ w.state.ids) (hhist : w.history.after c = w.history) (hlock : w.lives.Covers c) :
    w.lives.Leads { w.lives with site := ⟨c.after w.storage, w.history⟩ } := by
  by_cases hstatus : (w.storage.stateOf x).status = .inProgress
  · refine .single ?_
    have hstep := Lives.Step.call (w := w.lives) c x hc hopen
      (h.owned.notMem_ended h.registry.ledger hstatus) hlock
    rwa [Site.after, lives, hhist] at hstep
  · rw [Call.after_of_finished (s := w.storage) h.site.sound hc hstatus]
    exact .refl

lemma close_leads (hids : w.state.ids.Nodup) (hended : x ∈ w.history.ended)
    (halone : w.locks.Alone (.releaseAll x order)) (hs : w.close x order = some w') :
    w.lives.Leads w'.lives := by
  obtain ⟨locks, hlocks, rfl⟩ := map_eq_some_iff.mp hs
  have hstep := Lives.Step.close (w := w.lives) x order locks hended halone hlocks
  rw [show w.lives.opened = w.state.ids from rfl, ← ids_remove hids] at hstep
  exact .single hstep

lemma rollback_leads (h : w.lives.Sound) (hopen : x ∈ w.state.ids) : w.lives.Leads { w.lives with
      site := ⟨(Call.rollback x).after w.storage, w.history.after (.rollback x)⟩ } := by
  by_cases hstatus : (w.storage.stateOf x).status = .inProgress
  · exact .single (Lives.Step.call (w := w.lives) (.rollback x) x rfl hopen
      (h.owned.notMem_ended h.registry.ledger hstatus) trivial)
  have hended : x ∈ w.history.ended := by
    rw [Inner.stateOf] at hstatus
    rcases hst : w.storage.txns.get? x with _ | st
    · exact absurd (by rw [hst]; rfl) hstatus
    rw [hst, getD_some] at hstatus
    have hl := h.registry.ledger
    cases hfate : st.status with
    | inProgress => exact absurd hfate hstatus
    | committed => exact hl.ended x (hl.committed x st hst hfate)
    | aborted => exact (hl.aborted x st hst hfate).1
  have hsame : w.history.after (.rollback x) = w.history := by
    rw [History.after]
    exact congrArg (History.mk · w.history.committed) (Set.insert_eq_of_mem hended)
  rw [Call.after_of_finished (s := w.storage) h.site.sound rfl hstatus, hsame]
  exact .refl

variable {f : OpenTxn → OpenTxn}

lemma modify_leads {id : TxnId} (hf : ∀ o, (f o).id = o.id) :
    w.lives.Leads { w with state := w.state.modify id f }.lives := by
  rw [lives, lives, ids_modify hf]
  exact .refl

/-- Every event is a few steps of lives. -/
theorem event_leads (h : w.lives.Sound) (hc : w.Committing) (hok : w.Locked e)
    (hs : w.event e = some w') : w.lives.Leads w'.lives := by
  cases effect_of_event hs with
  | idle _ | options db options | refuse x refused | check x T r _ => exact .refl
  | begin db isolation _ =>
    have hstep := Lives.Step.begin (w := w.lives)
    rw [show w.lives.opened = w.state.ids from rfl, show w.lives.nextId = w.state.nextId from rfl,
      ← ids_begin db isolation] at hstep
    exact .single hstep
  | snapshot x =>
    obtain ⟨f, hf, heq⟩ := w.state.statementSnapshot_eq w.modeOf x
    rw [heq]
    exact modify_leads fun o => (hf o).1
  | mark x o _ | reopen x order c _ => exact modify_leads fun _ => rfl
  | commit x refused c hcall hlive =>
    obtain ⟨o, ho, _⟩ := hc.ending c (mem_of_find?_eq_some hcall)
    obtain rfl : c.txn = x := by simpa using find?_some hcall
    exact .single (Lives.Step.call (w := w.lives) (.commit c.txn) c.txn rfl
      (mem_ids_of_find ho) (h.owned.notMem_ended h.registry.ledger hlive) trivial)
  | finish c hcall hout hclose =>
    obtain rfl : c.txn = _ := by simpa using find?_some hcall
    have hended := h.registry.ledger.ended _ (hc.accepted c (mem_of_find?_eq_some hcall) hout)
    exact close_leads (w := { w with commits := w.commits.erase c }) hc.ids hended hok hclose
  | rollback x order o hlive =>
    exact rollback_leads h (mem_ids_of_live hlive)
  | @rollbackClose x order w' o hlive hs =>
    have hended : x ∈ (w.history.after (.rollback x)).ended := .inl rfl
    refine (rollback_leads h (mem_ids_of_live hlive)).trans ?_
    exact close_leads (w := { w with
      storage := (Call.rollback x).after w.storage
      history := w.history.after (.rollback x) }) hc.ids hended hok hs
  | call c he x hx hopen f hf =>
    have hlock : w.lives.Covers c := by cases e <;> cases he <;> trivial
    have hhist : w.history.after c = w.history := by cases e <;> cases he <;> rfl
    exact (call_leads h hx hopen hhist hlock).trans
      (modify_leads (w := { w with storage := c.after w.storage }) fun o => (hf o).1)
  | lock a he locks hlocks =>
    have halone : w.locks.Alone a ∧ w.lives.Keeps a := by
      cases e <;> cases he
      · exact ⟨hok, trivial⟩
      · exact ⟨trivial, trivial⟩
      · exact hok
    exact .single (.lock (w := w.lives) a locks halone.1 halone.2 hlocks)

/-! ### Commits that are running -/

namespace Committing

variable (h : w.Committing)
include h

lemma of_find (hids : w'.state.ids.Nodup) (hcommits : w'.commits = w.commits)
    (hfind : ∀ c ∈ w.commits, ∀ o, w.state.find c.txn = some o → o.ending = true →
      ∃ o', w'.state.find c.txn = some o' ∧ o'.ending = true)
    (hcommitted : ∀ x ∈ w.history.committed, x ∈ w'.history.committed) : w'.Committing := by
  refine ⟨hids, hcommits ▸ h.nodup, fun c hc => ?_, fun c hc hout => ?_⟩
  · rw [hcommits] at hc
    obtain ⟨o, ho, hend⟩ := h.ending c hc
    exact hfind c hc o ho hend
  · exact hcommitted _ (h.accepted c (hcommits ▸ hc) hout)

lemma modify {id : TxnId} (hf : ∀ o, (f o).id = o.id ∧ (f o).ending = o.ending)
    (hstate : w'.state = w.state.modify id f) (hcommits : w'.commits = w.commits)
    (hhist : w'.history = w.history) : w'.Committing := by
  refine h.of_find ?_ hcommits (fun c _ o ho hend => ?_) fun x hx => hhist ▸ hx
  · rw [hstate, ids_modify fun o => (hf o).1]
    exact h.ids
  · rw [hstate, find_modify fun o => (hf o).1, ho]
    refine ⟨_, rfl, ?_⟩
    split_ifs
    · exact (hf o).2.trans hend
    · exact hend

lemma ne_of_live {o : OpenTxn} (hx : w.state.live x = some o)
    {c : CommitCall} (hc : c ∈ w.commits) : c.txn ≠ x := by
  rintro rfl
  obtain ⟨o', ho', hend⟩ := h.ending c hc
  obtain ⟨ho, hnot⟩ := find_of_live hx
  cases ho.symm.trans ho'
  cases hend.symm.trans hnot

lemma begin (hlt : ∀ x ∈ w.state.ids, x < w.state.nextId) (db : DbId) (isolation : IsolationLevel) :
    Committing { w with state := w.state.begin db isolation } := by
  refine h.of_find ?_ rfl (fun c _ o ho hend => ⟨o, ?_, hend⟩) fun _ => id
  · rw [ids_begin]
    exact List.nodup_append.mpr ⟨h.ids, List.nodup_singleton _, fun x hx y hy =>
      mem_singleton.mp hy ▸ (hlt x hx).ne⟩
  · rw [ManagerState.find, ManagerState.begin, List.find?_append]
    rw [find] at ho
    rw [ho]
    rfl

lemma close (hx : ∀ c ∈ w.commits, c.txn ≠ x) (hs : w.close x order = some w') : w'.Committing := by
  obtain ⟨locks, _, rfl⟩ := map_eq_some_iff.mp hs
  refine h.of_find ?_ rfl (fun c hc o ho hend => ⟨o, ?_, hend⟩) fun _ => id
  · rw [ids_remove h.ids]
    exact h.ids.filter _
  · rw [find_remove (hx c hc)]
    exact ho

lemma commitMark {o : OpenTxn} (hlive : w.state.live x = some o) : Committing { w with
      state := w.state.modify x fun o => { o with ending := true, log := [] }
      commits := w.commits ++ [⟨x, o.log, none⟩] } := by
  have hfree : ∀ c ∈ w.commits, c.txn ≠ x := fun c hc => h.ne_of_live hlive hc
  refine ⟨?_, ?_, fun c hc => ?_, fun c hc hout => ?_⟩
  · rw [ids_modify (by simp)]
    exact h.ids
  · rw [List.map_append, List.nodup_append]
    refine ⟨h.nodup, List.nodup_singleton _, fun y hy z hz => ?_⟩
    obtain ⟨c, hc, rfl⟩ := mem_map.mp hy
    exact mem_singleton.mp hz ▸ hfree c hc
  · rw [find_modify (by simp)]
    rcases mem_snoc.mp hc with hc | rfl
    · obtain ⟨o', ho', hend⟩ := h.ending c hc
      rw [ho', map_some, if_neg (hfree c hc)]
      exact ⟨o', rfl, hend⟩
    · rw [(find_of_live hlive).1, map_some, if_pos rfl]
      exact ⟨_, rfl, rfl⟩
  · rcases mem_snoc.mp hc with hc | rfl
    · exact h.accepted c hc hout
    · cases hout

lemma answered (txn : TxnId) (outcome : Bool) (history : History)
    (storage : Inner) (hcommitted : ∀ x ∈ w.history.committed, x ∈ history.committed)
    (hout : outcome = true → txn ∈ history.committed) :
    Committing { w.answered txn outcome with storage, history } := by
  have htxn : ∀ c : CommitCall,
      (if c.txn = txn then { c with outcome := some outcome } else c).txn = c.txn := by
    intro c
    split_ifs <;> rfl
  refine ⟨h.ids, ?_, fun c hc => ?_, fun c hc ho => ?_⟩
  · rw [TxnSystem.answered, List.map_map]
    simpa [Function.comp_def, htxn] using h.nodup
  · obtain ⟨c₀, hc₀, rfl⟩ := mem_map.mp hc
    rw [htxn]
    exact h.ending c₀ hc₀
  · obtain ⟨c₀, hc₀, rfl⟩ := mem_map.mp hc
    rw [htxn]
    split_ifs at ho with heq
    · exact heq ▸ hout (some.inj ho)
    · exact hcommitted _ (h.accepted c₀ hc₀ ho)

lemma erase {c : CommitCall} (hc : c ∈ w.commits) :
    Committing { w with commits := w.commits.erase c } ∧
      ∀ c' ∈ w.commits.erase c, c'.txn ≠ c.txn := by
  refine ⟨⟨h.ids, h.nodup.sublist (List.erase_sublist.map _),
    fun c' hc' => h.ending c' (List.mem_of_mem_erase hc'),
    fun c' hc' => h.accepted c' (List.mem_of_mem_erase hc')⟩, fun c' hc' heq => ?_⟩
  have hnodup : w.commits.Nodup := List.Nodup.of_map _ h.nodup
  obtain ⟨hne, hc'⟩ := hnodup.mem_erase_iff.mp hc'
  exact hne (List.inj_on_of_nodup_map h.nodup hc' hc heq)

theorem event (hlt : ∀ x ∈ w.state.ids, x < w.state.nextId)
    (hs : w.event e = some w') : w'.Committing := by
  cases effect_of_event hs with
  | idle _ => exact h
  | options db options | check x T r _ | lock a _ locks _ | rollback x order o _ => exact { h with }
  | begin db isolation _ => exact h.begin hlt db isolation
  | snapshot x =>
    obtain ⟨f, hf, heq⟩ := w.state.statementSnapshot_eq w.modeOf x
    exact h.modify hf heq rfl rfl
  | mark x o hlive => exact h.commitMark hlive
  | refuse x refused => exact h.answered x false w.history w.storage (fun _ => id) nofun
  | commit x refused c _ _ =>
    exact h.answered x true (w.history.after (.commit x)) _ (fun _ hx => .inr hx) fun _ => .inl rfl
  | reopen x order c hcall =>
    obtain ⟨herase, hother⟩ := h.erase (mem_of_find?_eq_some hcall)
    refine herase.of_find ?_ rfl (fun c' hc' o ho hend => ⟨o, ?_, hend⟩) fun _ => id
    · rw [ids_modify (by simp)]
      exact h.ids
    · rw [find_modify (by simp), ho, map_some, if_neg (hother c' hc')]
  | finish c hcall _ hs =>
    obtain ⟨herase, hother⟩ := h.erase (mem_of_find?_eq_some hcall)
    exact herase.close hother hs
  | @rollbackClose x order w' o hlive hs =>
    have hended : Committing { w with
        storage := (Call.rollback x).after w.storage
        history := w.history.after (.rollback x) } := { h with }
    exact hended.close (fun c hc => h.ne_of_live hlive hc) hs
  | call c _ x _ _ f hf => exact h.modify (fun o => ⟨(hf o).1, (hf o).2.1⟩) rfl rfl rfl

end Committing

end TxnSystem

/-! ### Runs of the manager -/

/-- A storage that has its tables and indexes, and where nobody has written yet. -/
def Inner.Prepared (s : Inner) : Prop :=
  Site.Reachable (fun _ c => c.isDefinition = true) ⟨s, .empty⟩

lemma Site.Reachable.no_chain {σ : Site} (h : σ.Reachable fun _ c => c.isDefinition = true) :
    (Catalog σ.inner ∧ Rows σ.inner) ∧ ∀ T r c, ¬ σ.inner.Chain T r c := by
  refine h.induction (P := fun σ => (Catalog σ.inner ∧ Rows σ.inner) ∧
    ∀ T r c, ¬ σ.inner.Chain T r c) ⟨initial_sound, ?_⟩ ?_
  · rintro T r c ⟨t, ht, _⟩
    cases ht
  · rintro σ call ⟨⟨hcat, hrows⟩, hnone⟩ _ hdef
    refine ⟨call.after_sound hcat hrows, fun T r c hc => ?_⟩
    cases call.chain_cases hcat hrows hc with
    | trimmed hold _ => exact hnone T r _ hold
    | inserted | deleted | updated => cases hdef

lemma Inner.Prepared.no_chain (h : s.Prepared) (T : TableId) (r : RowId)
    (c : List Version) : ¬ s.Chain T r c :=
  (Site.Reachable.no_chain h).2 T r c

lemma Inner.Prepared.sound (h : s.Prepared) : (TxnSystem.start s).lives.Sound := by
  have hnone := h.no_chain
  refine ⟨?_, nofun, nofun, fun x hx _ => .inr (Nat.lt_one_iff.mp hx), .initial, .initial,
    fun T r c hc => absurd hc (hnone T r c), fun T r c hc => absurd hc (hnone T r c),
    fun T r c hc => absurd hc (hnone T r c)⟩
  refine Relation.ReflTransGen.mono ?_ _ _ h
  rintro σ σ' ⟨c, hlive, hdef⟩
  refine .call c hlive ?_
  cases c <;> first | rfl | cases hdef

namespace TxnSystem

variable {s : Inner} {w w' : TxnSystem}

lemma exec_leads (h : w.lives.Sound ∧ w.Committing) {e : TxnEvent} (hok : w.Locked e)
    (hs : w.exec e = some w') : w.lives.Leads w'.lives ∧ w'.Committing := by
  obtain ⟨w₁, hevent, rfl⟩ := map_eq_some_iff.mp hs
  have hleads : w.lives.Leads w₁.lives := event_leads h.1 h.2 hok hevent
  exact ⟨hleads, { h.2.event h.1.opened_lt hevent with }⟩

/-- Whatever a run under locks comes to is sound. -/
theorem reachable_sound (hs : s.Prepared) (h : (transactionManager s).Reachable Locked w) :
    w.lives.Sound ∧ w.Committing := by
  refine h.invariant (P := fun w => w.lives.Sound ∧ w.Committing)
    ⟨hs.sound, ⟨.nil, .nil, nofun, nofun⟩⟩ fun w e w' hw hok hexec => ?_
  obtain ⟨hleads, hcommitting⟩ := exec_leads hw hok hexec
  exact ⟨hleads.sound hw.1, hcommitting⟩

/-- A run that goes on is a run of lives. -/
theorem leads_of_reachable (h : w.lives.Sound ∧ w.Committing)
    (hw' : ((transactionManager s).after w).Reachable Locked w') :
    w.lives.Leads w'.lives ∧ w'.Committing := by
  have hrefl : w.lives.Leads w.lives := .refl
  refine hw'.invariant (P := fun w' => w.lives.Leads w'.lives ∧ w'.Committing)
    ⟨hrefl, h.2⟩ fun w₁ e w₂ hw₁ hok hexec => ?_
  obtain ⟨hleads, hcommitting⟩ := exec_leads ⟨hw₁.1.sound h.1, hw₁.2⟩ hok hexec
  exact ⟨hw₁.1.trans hleads, hcommitting⟩

end TxnSystem

end VaubanDB
