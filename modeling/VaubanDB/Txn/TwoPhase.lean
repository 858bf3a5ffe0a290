import VaubanDB.Txn.Isolation

/-!
The row policy is strict two-phase locking.

What a transaction holds and the row reads of its thread are a `Standing`.  A row is asked for under
its intent, a resource is given back only when nothing that lasts is lost, and a row that is kept is
not noted as one that ends with its row.  Every call of the policy meets this (`program_wp`),
whatever the other transactions do in between.
-/

namespace VaubanDB

open LockWorld Program LockMode LockTable LockProgram List Function

/-! ### Taking a mode -/

variable {g : Holder}

section Taking

variable {x : TxnId} {m : LockMode} {holders : List Holder}

/-- The holders of one transaction: one mode per family. -/
structure OwnHolders (x : TxnId) (holders : List Holder) : Prop where
  own : ∀ h ∈ holders, h.txn = x
  family : holders.Pairwise fun h h' => h.mode.isData ≠ h'.mode.isData

namespace OwnHolders

lemma nil (x : TxnId) : OwnHolders x [] := ⟨nofun, .nil⟩

variable (h : OwnHolders x holders)
include h

lemma eq_of_family {a b : Holder} (ha : a ∈ holders) (hb : b ∈ holders)
    (heq : a.mode.isData = b.mode.isData) : a = b := by
  by_contra hne
  have hsymm : Std.Symm fun h h' : Holder => h.mode.isData ≠ h'.mode.isData := ⟨fun _ _ h => h.symm⟩
  exact h.family.forall ha hb hne heq

lemma grantTo : OwnHolders x (grantTo x m holders) := by
  refine ⟨fun g hg => ?_, ?_⟩
  · rcases mem_grantTo hg with rfl | hg
    · rfl
    · exact h.own g hg
  · obtain ⟨hown, hfam⟩ := h
    induction holders with
    | nil => simp [VaubanDB.grantTo]
    | cons g gs ih =>
      obtain ⟨hg, hgs⟩ := pairwise_cons.mp hfam
      rw [VaubanDB.grantTo]
      split_ifs with hcase
      · exact pairwise_cons.mpr ⟨fun g' hg' => hcase.2 ▸ hg g' hg', hgs⟩
      · refine pairwise_cons.mpr ⟨fun g' hg' => ?_, ih (fun g' hg' => hown g' (by simp [hg'])) hgs⟩
        rcases mem_grantTo hg' with rfl | hg'
        · exact fun heq => hcase ⟨hown g (by simp), heq⟩
        · exact hg g' hg'

lemma taking : OwnHolders x (taking x m holders) := by
  rw [LockWorld.taking]
  split
  · split_ifs
    · exact h
    · exact h.grantTo
  · exact h.grantTo

lemma taking_covers (hg : g ∈ holders) :
    ∃ g' ∈ LockWorld.taking x m holders, g'.mode.covers g.mode = true := by
  rw [LockWorld.taking]
  split
  · rename_i held hheld
    obtain ⟨hmem, hdata⟩ := mem_of_holderOf hheld
    split_ifs with hcov
    · exact ⟨g, hg, covers_refl _⟩
    · by_cases heq : g.mode.isData = m.isData
      · obtain rfl := h.eq_of_family hg hmem (heq.trans hdata.symm)
        exact ⟨_, self_mem_grantTo _ _ _, join_covers_left hdata⟩
      · refine ⟨g, mem_grantTo_of_mem hg fun hcase => heq ?_, covers_refl _⟩
        rw [hcase.2, isData_join hdata]
  · rename_i hnone
    have hne := holderOf_eq_none hnone hg (h.own g hg)
    exact ⟨g, mem_grantTo_of_mem hg fun hcase => hne hcase.2, covers_refl _⟩

end OwnHolders

lemma exists_taking : ∃ g ∈ LockWorld.taking x m holders, g.mode.covers m = true := by
  rw [taking]
  split
  · rename_i held hheld
    obtain ⟨hmem, hdata⟩ := mem_of_holderOf hheld
    split_ifs with hcov
    · exact ⟨_, hmem, hcov⟩
    · exact ⟨_, self_mem_grantTo _ _ _, join_covers_right hdata⟩
  · exact ⟨_, self_mem_grantTo _ _ _, covers_refl m⟩

lemma mem_taking (hline : ∀ g ∈ holders, g.mode.isData = m.isData → g.mode.covers m = true ∨
      m.covers g.mode = true) (hg : g ∈ LockWorld.taking x m holders) :
    g ∈ holders ∨ g.mode = m := by
  rw [taking] at hg
  split at hg
  · rename_i held hheld
    obtain ⟨hmem, hdata⟩ := mem_of_holderOf hheld
    split_ifs at hg with hcov
    · exact .inl hg
    · rcases mem_grantTo hg with rfl | hg
      · right
        rw [join, if_neg hcov, if_pos ((hline _ hmem hdata).resolve_left hcov)]
      · exact .inl hg
  · rcases mem_grantTo hg with rfl | hg
    · exact .inr rfl
    · exact .inl hg

end Taking

/-! ### Standings -/

/-- What a transaction holds, and the row reads of its thread that end with their row. -/
structure Standing where
  mine : LockResource → List Holder
  rowReads : List (TxnId × TableId × RowId)

/-- The modes the policy takes on a resource. -/
def LockMode.Used : LockMode → LockResource → Prop
  | m, .row .. => m = .S ∨ m = .U ∨ m = .X
  | m, .table _ => m = .IS ∨ m = .IX ∨ m = .SchS ∨ m = .SchM

/-- The modes that are held until the transaction ends. -/
def LockMode.Lasts : LockMode → LockResource → Prop
  | m, .row .. => m = .U ∨ m = .X
  | m, .table _ => m = .SchM

variable {r : LockResource} {m : LockMode}

lemma LockMode.Used.line {n : LockMode} (hm : m.Used r) (hn : n.Used r)
    (h : m.isData = n.isData) : m.covers n = true ∨ n.covers m = true := by
  cases r with
  | row => rcases hm with rfl | rfl | rfl <;> rcases hn with rfl | rfl | rfl <;> decide
  | table =>
    rcases hm with rfl | rfl | rfl | rfl <;> rcases hn with rfl | rfl | rfl | rfl <;>
      first | decide | cases h

lemma LockMode.Lasts.mono {n : LockMode} (hm : m.Lasts r) (h : n.covers m = true) : n.Lasts r := by
  cases r with
  | row =>
    rcases hm with rfl | rfl <;> cases n <;>
      first | exact .inl rfl | exact .inr rfl | exact absurd h (by decide)
  | table => cases hm; cases n <;> first | rfl | exact absurd h (by decide)

namespace Standing

variable {x : TxnId} {kept : List (TableId × RowId)} {σ : Standing}

def grant (σ : Standing) (x : TxnId) (r : LockResource) (m : LockMode) : Standing :=
  { σ with mine := withGrant σ.mine x r m }

def release (σ : Standing) (r : LockResource) : Standing :=
  { σ with mine := update σ.mine r [] }

/-- Rows are held under an intent that covers them. -/
structure Sound (x : TxnId) (σ : Standing) : Prop where
  own : ∀ r, OwnHolders x (σ.mine r)
  used : ∀ r, ∀ h ∈ σ.mine r, h.mode.Used r
  intent : ∀ T r, ∀ h ∈ σ.mine (.row T r), ∃ g ∈ σ.mine (.table T),
    g.mode.covers (intentOf h.mode) = true

/-- The rows that are kept are held and do not end with their row. -/
def Keeps (x : TxnId) (kept : List (TableId × RowId)) (σ : Standing) : Prop :=
  ∀ p ∈ kept, (x, p.1, p.2) ∉ σ.rowReads ∧ σ.mine (.row p.1 p.2) ≠ []

def Asks (σ : Standing) (r : LockResource) (m : LockMode) : Prop :=
  m.Used r ∧ match r with
    | .row T _ => ∃ g ∈ σ.mine (.table T), g.mode.covers (intentOf m) = true
    | .table _ => True

/-- What giving a resource back needs. -/
def Releases (kept : List (TableId × RowId)) (σ : Standing) (r : LockResource) : Prop :=
  (∀ h ∈ σ.mine r, ¬ h.mode.Lasts r) ∧ match r with
    | .row T r => (T, r) ∉ kept
    | .table T => ∀ r, σ.mine (.row T r) = []

/-- What lasts is still held in the second standing. -/
def Lasting (H H' : LockResource → List Holder) : Prop :=
  ∀ r, ∀ h ∈ H r, h.mode.Lasts r → ∃ h' ∈ H' r, h'.mode.covers h.mode = true

lemma Lasting.refl (H : LockResource → List Holder) : Lasting H H :=
  fun _ h hh _ => ⟨h, hh, covers_refl _⟩

lemma Lasting.trans {H₁ H₂ H₃ : LockResource → List Holder} (h : Lasting H₁ H₂)
    (h' : Lasting H₂ H₃) : Lasting H₁ H₃ := by
  intro r g hg hlast
  obtain ⟨g₂, hg₂, hcov⟩ := h r g hg hlast
  obtain ⟨g₃, hg₃, hcov'⟩ := h' r g₂ hg₂ (hlast.mono hcov)
  exact ⟨g₃, hg₃, covers_trans hcov' hcov⟩

lemma mine_grant_self (σ : Standing) (x : TxnId) (r : LockResource) (m : LockMode) :
    (σ.grant x r m).mine r = taking x m (σ.mine r) := update_self ..

variable {r' : LockResource}

lemma mine_grant_of_ne (h : r' ≠ r) (m : LockMode) :
    (σ.grant x r m).mine r' = σ.mine r' := update_of_ne h ..

lemma mine_release_self (σ : Standing) (r : LockResource) : (σ.release r).mine r = [] :=
  update_self ..

lemma mine_release_of_ne (h : r' ≠ r) : (σ.release r).mine r' = σ.mine r' := update_of_ne h ..

namespace Sound

lemma covers_grant (h : σ.Sound x) (r : LockResource) (m : LockMode) (hg : g ∈ σ.mine r') :
    ∃ g' ∈ (σ.grant x r m).mine r', g'.mode.covers g.mode = true := by
  by_cases hr : r' = r
  · subst hr
    rw [mine_grant_self]
    exact (h.own r').taking_covers hg
  · rw [mine_grant_of_ne hr]
    exact ⟨g, hg, covers_refl _⟩

lemma mem_held {l : List (LockResource × LockMode)} (h : σ.Sound x)
    (hl : ∀ r m, (r, m) ∈ l ↔ ⟨x, m⟩ ∈ σ.mine r) (hg : g ∈ σ.mine r) : (r, g.mode) ∈ l :=
  (hl r g.mode).mpr ((h.own r).own g hg ▸ hg)

lemma lasting_grant (h : σ.Sound x) (r : LockResource) (m : LockMode) :
    Lasting σ.mine (σ.grant x r m).mine :=
  fun _ _ hg _ => h.covers_grant r m hg

lemma grant (h : σ.Sound x) (ha : σ.Asks r m) : (σ.grant x r m).Sound x := by
  have hmem : ∀ g ∈ (σ.grant x r m).mine r, g ∈ σ.mine r ∨ g.mode = m := by
    intro g hg
    rw [mine_grant_self] at hg
    exact mem_taking (fun g' hg' heq => (h.used r g' hg').line ha.1 heq) hg
  refine ⟨fun r' => ?_, fun r' g hg => ?_, fun T row g hg => ?_⟩
  · by_cases hr : r' = r
    · subst hr
      rw [mine_grant_self]
      exact (h.own r').taking
    · rw [mine_grant_of_ne hr]
      exact h.own r'
  · by_cases hr : r' = r
    · subst hr
      rcases hmem g hg with hold | hnew
      · exact h.used r' g hold
      · exact hnew ▸ ha.1
    · rw [mine_grant_of_ne hr] at hg
      exact h.used r' g hg
  · have hold : (∃ g' ∈ σ.mine (.table T), g'.mode.covers (intentOf g.mode) = true) →
        ∃ g' ∈ (σ.grant x r m).mine (.table T), g'.mode.covers (intentOf g.mode) = true := by
      rintro ⟨g', hg', hcov⟩
      obtain ⟨g₂, hg₂, hcov'⟩ := h.covers_grant r m hg'
      exact ⟨g₂, hg₂, covers_trans hcov' hcov⟩
    by_cases hr : LockResource.row T row = r
    · subst hr
      rcases hmem g hg with hin | hnew
      · exact hold (h.intent T row g hin)
      · exact hold (hnew ▸ ha.2)
    · rw [mine_grant_of_ne hr] at hg
      exact hold (h.intent T row g hg)

lemma lasting_release (hr : σ.Releases kept r) : Lasting σ.mine (σ.release r).mine := by
  intro r' g hg hlast
  have hne : r' ≠ r := by
    rintro rfl
    exact hr.1 g hg hlast
  rw [mine_release_of_ne hne]
  exact ⟨g, hg, covers_refl _⟩

lemma release (h : σ.Sound x) (hr : σ.Releases kept r) : (σ.release r).Sound x := by
  have hsub : ∀ r', ∀ g ∈ (σ.release r).mine r', g ∈ σ.mine r' := by
    intro r' g hg
    by_cases heq : r' = r
    · rw [heq, mine_release_self] at hg
      cases hg
    · rwa [mine_release_of_ne heq] at hg
  refine ⟨fun r' => ?_, fun r' g hg => h.used r' g (hsub r' g hg), fun T row g hg => ?_⟩
  · by_cases heq : r' = r
    · rw [heq, mine_release_self]
      exact .nil x
    · rw [mine_release_of_ne heq]
      exact h.own r'
  · have hg' := hsub _ g hg
    obtain ⟨g', hmem, hcov⟩ := h.intent T row g hg'
    have hne : LockResource.table T ≠ r := by
      rintro rfl
      rw [hr.2 row] at hg'
      cases hg'
    exact ⟨g', by rwa [mine_release_of_ne hne], hcov⟩

end Sound

namespace Keeps

lemma grant (h : σ.Keeps x kept) (hs : σ.Sound x) (r : LockResource) (m : LockMode) :
    (σ.grant x r m).Keeps x kept := by
  refine fun p hp => ⟨(h p hp).1, fun hnil => ?_⟩
  obtain ⟨g, hg⟩ := exists_mem_of_ne_nil _ (h p hp).2
  obtain ⟨g', hg', _⟩ := hs.covers_grant r m hg
  rw [hnil] at hg'
  cases hg'

lemma release (h : σ.Keeps x kept) (hr : σ.Releases kept r) : (σ.release r).Keeps x kept := by
  refine fun p hp => ⟨(h p hp).1, ?_⟩
  have hne : LockResource.row p.1 p.2 ≠ r := by
    rintro rfl
    exact hr.2 hp
  rw [mine_release_of_ne hne]
  exact (h p hp).2

end Keeps

end Standing

/-! ### The calls -/

/-- What the operations need of a standing, and what they make of it. -/
def policySpec (x : TxnId) (kept : List (TableId × RowId)) :
    Spec LockOp LockOp.Answer Standing
  | .tryAcquire r m _, σ, Q =>
    σ.Asks r m ∧ Q .granted (σ.grant x r m) ∧ ∀ o, o ≠ .granted → Q o σ
  | .held, σ, Q => ∀ l, (∀ r m, (r, m) ∈ l ↔ ⟨x, m⟩ ∈ σ.mine r) → Q l σ
  | .unlock r, σ, Q =>
    (σ.mine r = [] → Q false σ) ∧ (σ.mine r ≠ [] → σ.Releases kept r ∧ Q true (σ.release r))
  | .readVersioning _, σ, Q => ∀ mode, Q mode σ
  | .recordRowRead T r, σ, Q =>
    (T, r) ∉ kept ∧ Q () { σ with rowReads := σ.rowReads.insert (x, T, r) }
  | .takeRowRead T r, σ, Q =>
    Q (σ.rowReads.contains (x, T, r))
      { σ with rowReads := σ.rowReads.filter (· ≠ (x, T, r)) }

lemma policySpec_mono (x : TxnId) (kept : List (TableId × RowId)) : (policySpec x kept).Mono := by
  intro op σ Q Q' hQ h
  cases op with
  | tryAcquire r m t => exact ⟨h.1, hQ _ _ h.2.1, fun o ho => hQ _ _ (h.2.2 o ho)⟩
  | held => exact fun l hl => hQ _ _ (h l hl)
  | unlock r => exact ⟨fun hnil => hQ _ _ (h.1 hnil), fun hne => (h.2 hne).imp_right (hQ _ _)⟩
  | readVersioning level => exact fun mode => hQ _ _ (h mode)
  | recordRowRead T r => exact ⟨h.1, hQ _ _ h.2⟩
  | takeRowRead T r => exact hQ _ _ h

namespace LockProgram

variable {x : TxnId} {kept : List (TableId × RowId)} {σ : Standing} {α : Type} {T : TableId}

@[simp] lemma wp_op (o : LockOp) (Q : Except LockError o.Answer → Standing → Prop) :
    (op o).run.wp (policySpec x kept) Q σ = policySpec x kept o σ fun a σ' => Q (.ok a) σ' := by
  rw [op, wp_run_lift, wp_perform]

variable {Q : Except LockError Unit → Standing → Prop}

lemma wp_take {t : LockTimeout} (hask : σ.Asks r m)
    (hok : Q (.ok ()) (σ.grant x r m)) (herr : ∀ e, Q (.error e) σ) :
    (take r m t).run.wp (policySpec x kept) Q σ := by
  rw [take, wp_run_bind, wp_op]
  refine ⟨hask, hok, fun o ho => ?_⟩
  cases o with
  | granted => exact absurd rfl ho
  | _ => exact herr _

variable {txn : TxnHandle}

lemma wp_unlock (hrel : σ.mine r ≠ [] → σ.Releases kept r ∧ Q (.ok ()) (σ.release r))
    (herr : ∀ e, Q (.error e) σ) : (unlock txn r).run.wp (policySpec x kept) Q σ := by
  rw [unlock, wp_run_bind, wp_op]
  exact ⟨fun _ => herr _, fun hne => hrel hne⟩

lemma wp_dataModeHeld {Q : Except LockError (Option LockMode) → Standing → Prop}
    (hnone : (∀ h ∈ σ.mine r, h.mode.isData = false) → Q (.ok none) σ)
    (hsome : ∀ m, ⟨x, m⟩ ∈ σ.mine r → m.isData = true → Q (.ok (some m)) σ)
    (hown : σ.Sound x) : (dataModeHeld r).run.wp (policySpec x kept) Q σ := by
  rw [dataModeHeld, wp_run_bind, wp_op]
  intro l hl
  change Q (.ok _) σ
  cases hf : l.find? fun p => p.1 = r ∧ p.2.isData with
  | none =>
    refine hnone fun h hh => ?_
    simpa using find?_eq_none.mp hf _ (hown.mem_held hl hh)
  | some p =>
    obtain ⟨r', m⟩ := p
    have hp := find?_some hf
    simp only [decide_eq_true_eq] at hp
    obtain ⟨rfl, hdata⟩ := hp
    exact hsome m ((hl _ _).mp (mem_of_find?_eq_some hf)) hdata

lemma readMode_used {level : IsolationLevel} {hints : LockIntent}
    (h : readMode level hints = some m) (T : TableId) (r : RowId) : m.Used (.row T r) := by
  unfold readMode at h
  split_ifs at h
  · exact .inr (.inr (Option.some.inj h).symm)
  · exact .inr (.inl (Option.some.inj h).symm)
  · cases level <;> first | exact .inl (Option.some.inj h).symm | cases h

lemma asks_row {r : RowId} (hm : m.Used (.row T r)) :
    (σ.grant x (.table T) (intentOf m)).Asks (.row T r) m := by
  refine ⟨hm, ?_⟩
  change ∃ g ∈ (σ.grant x (.table T) (intentOf m)).mine (.table T), _
  rw [Standing.mine_grant_self]
  exact exists_taking

lemma mine_grant_ne_nil (σ : Standing) (r : LockResource) (m : LockMode) :
    (σ.grant x r m).mine r ≠ [] := by
  intro hnil
  rw [Standing.mine_grant_self] at hnil
  obtain ⟨g, hg, _⟩ : ∃ g ∈ taking x m (σ.mine r), _ := exists_taking
  rw [hnil] at hg
  cases hg

/-- A read at a level that keeps its rows leaves the row held, and not to be given back. -/
lemma wp_takeRead (level : IsolationLevel) {mode : LockMode} {r : RowId} (hs : σ.Sound x)
    (hk : σ.Keeps x kept) (hmode : mode.Used (.row T r)) (hints : LockIntent) :
    (takeRead level mode T r hints).run.wp (policySpec x kept) (fun res σ' => res = .ok .locked →
      releasesAtEndOfRow level = false → (x, T, r) ∉ σ'.rowReads ∧ σ'.mine (.row T r) ≠ []) σ := by
  have hasks : σ.Asks (.table T) (intentOf mode) :=
    ⟨by cases mode <;> first | exact .inl rfl | exact .inr (.inl rfl), trivial⟩
  have hs' := hs.grant hasks
  have hk' := hk.grant hs (.table T) (intentOf mode)
  have hrow : ∀ heldBefore : Option LockMode, (heldBefore = none → (T, r) ∉ kept) →
      (takeRow level mode T r hints heldBefore).run.wp (policySpec x kept)
        (fun res σ' => res = .ok .locked → releasesAtEndOfRow level = false →
          (x, T, r) ∉ σ'.rowReads ∧ σ'.mine (.row T r) ≠ [])
        (σ.grant x (.table T) (intentOf mode)) := by
    intro heldBefore hbefore
    rw [takeRow, wp_run_bind, wp_run_attempt]
    refine wp_take (asks_row hmode) ?_ fun e => ?_
    · have hheld := mine_grant_ne_nil (x := x) (σ.grant x (.table T) (intentOf mode))
        (.row T r) mode
      by_cases hends : mode ≠ .S ∨ releasesAtEndOfRow level = false
      · simp only [if_pos hends]
        rw [wp_run_bind, wp_op]
        exact fun _ _ => ⟨by simp, hheld⟩
      · simp only [if_neg hends]
        split_ifs with hnone
        · rw [wp_run_bind, wp_op]
          exact ⟨hbefore (by simpa using hnone), fun _ hlevel => absurd (.inr hlevel) hends⟩
        · exact fun _ hlevel => absurd (.inr hlevel) hends
    · simp only
      split_ifs <;> exact fun h => by cases h
  rw [takeRead, wp_run_bind]
  refine wp_take hasks ?_ fun e h => by cases h
  rw [wp_run_bind]
  refine wp_dataModeHeld (fun hdata => hrow none fun _ hkept => ?_)
    (fun m _ _ => hrow (some m) fun h => by cases h) hs'
  obtain ⟨h, hh⟩ := exists_mem_of_ne_nil _ (hk' (T, r) hkept).2
  have hrowdata := hdata h hh
  rcases hs'.used _ h hh with hm | hm | hm <;> rw [hm] at hrowdata <;> cases hrowdata

lemma wp_readLock (txn : TxnHandle) (hs : σ.Sound x) (hk : σ.Keeps x kept) (T : TableId)
    (r : RowId) (hints : LockIntent) :
    (readLock txn T r hints).run.wp (policySpec x kept) (fun res σ' => res = .ok .locked →
      releasesAtEndOfRow (effectiveLevel txn hints) = false →
        (x, T, r) ∉ σ'.rowReads ∧ σ'.mine (.row T r) ≠ []) σ := by
  rw [readLock]
  rcases hmode : readMode (effectiveLevel txn hints) hints with _ | mode
  · exact nofun
  have htake := wp_takeRead (effectiveLevel txn hints) hs hk (readMode_used hmode T r) hints
  simp only
  split_ifs
  · rw [wp_run_bind, wp_op]
    intro versioning
    change wp _ (ExceptT.run (if versioning ≠ .locking then _ else _)) _ σ
    split_ifs
    · exact nofun
    · exact htake
  · exact htake

lemma wp_endRowRead (txn : TxnHandle) (hs : σ.Sound x) (hk : σ.Keeps x kept) (T : TableId)
    (r : RowId) : (endRowRead txn T r).run.wp (policySpec x kept) (fun _ _ => True) σ := by
  rw [endRowRead, wp_run_bind, wp_op]
  change wp _ (ExceptT.run (if σ.rowReads.contains (x, T, r) = true then _ else _)) _ _
  split_ifs with hread
  · have hnot : (T, r) ∉ kept := fun hmem => (hk _ hmem).1 (by simpa using hread)
    rw [wp_run_bind]
    refine wp_dataModeHeld (fun _ => trivial) (fun m hm _ => ?_) ⟨hs.own, hs.used, hs.intent⟩
    simp only
    split_ifs with hshared
    · obtain rfl := Option.some.inj hshared
      refine wp_unlock (fun _ => ⟨⟨fun h hh hlast => ?_, hnot⟩, trivial⟩) fun _ => trivial
      have heq := (hs.own _).eq_of_family hh hm (by
        rcases hs.used _ h hh with hm | hm | hm <;> rw [hm] <;> rfl)
      rw [heq] at hlast
      rcases hlast with hl | hl <;> cases hl
    · trivial
  · trivial

lemma wp_writeLock (T : TableId) (r : RowId) (hints : LockIntent) :
    (writeLock T r hints).run.wp (policySpec x kept) (fun _ _ => True) σ := by
  rw [writeLock, wp_run_bind]
  refine wp_take ⟨.inr (.inl rfl), trivial⟩ ?_ fun _ => trivial
  rw [wp_run_bind]
  refine wp_take (asks_row (m := .X) (.inr (.inr rfl))) ?_ fun _ => trivial
  rw [wp_run_bind, wp_op]
  trivial

variable {l : List (LockResource × LockMode)}

lemma modeOf_eq (hs : σ.Sound x) (hl : ∀ r m, (r, m) ∈ l ↔ ⟨x, m⟩ ∈ σ.mine r) {h : Holder}
    (hh : h ∈ σ.mine r) : modeOf l r h.mode.isData = some h.mode := by
  have hmem : (r, h.mode) ∈ l.filter fun p => p.1 = r ∧ p.2.isData = h.mode.isData :=
    mem_filter.mpr ⟨hs.mem_held hl hh, by simp⟩
  rw [modeOf]
  cases hlast : (l.filter fun p => p.1 = r ∧ p.2.isData = h.mode.isData).getLast? with
  | none =>
    rw [getLast?_eq_none_iff.mp hlast] at hmem
    cases hmem
  | some p =>
    obtain ⟨r', m⟩ := p
    obtain ⟨hp, hcond⟩ := mem_filter.mp (mem_of_getLast? hlast)
    simp only [decide_eq_true_eq] at hcond
    obtain ⟨rfl, hdata⟩ := hcond
    have := (hs.own _).eq_of_family ((hl _ m).mp hp) hh hdata
    simp [← this]

/-- A table whose locks go has no row that is held, and nothing that lasts. -/
lemma releases_of_goes (hs : σ.Sound x) {statement : List TableId}
    (hl : ∀ r m, (r, m) ∈ l ↔ ⟨x, m⟩ ∈ σ.mine r)
    (hgoes : goes txn statement l T = true) : σ.Releases kept (.table T) := by
  simp only [goes, Bool.and_eq_true] at hgoes
  obtain ⟨hdata, hschema⟩ := hgoes
  refine ⟨fun h hh hlast => ?_, fun r => eq_nil_iff_forall_not_mem.mpr fun h hh => ?_⟩
  · change h.mode = .SchM at hlast
    have hmode := modeOf_eq hs hl hh
    rw [hlast] at hmode
    rw [show (false : Bool) = SchM.isData from rfl, hmode] at hschema
    cases hschema
  · obtain ⟨g, hg, hcov⟩ := hs.intent T r h hh
    have hmode := modeOf_eq hs hl hg
    have hrows : (l.any fun p => match p.1 with
        | .row t _ => decide (t = T)
        | .table _ => false) = true := any_eq_true.mpr ⟨_, hs.mem_held hl hh, by simp⟩
    have hgdata : g.mode.isData = true := by
      rw [isData_of_covers hcov]
      cases h.mode <;> rfl
    rw [hgdata] at hmode
    rw [hmode] at hdata
    rcases hs.used _ g hg with hm | hm | hm | hm <;> rw [hm] at hdata hgdata
    · simp only [Bool.and_eq_true, Bool.not_eq_true'] at hdata
      exact Bool.false_ne_true (hdata.2.symm.trans hrows)
    · cases hdata
    · cases hgdata
    · cases hgdata

lemma wp_endStatement (txn : TxnHandle) (hs : σ.Sound x) (statement : List TableId) :
    (endStatement txn statement).run.wp (policySpec x kept) (fun _ _ => True) σ := by
  rw [endStatement, wp_run_bind, wp_op]
  intro l hl
  -- the tables already looked at are given back or as they were
  refine wp_run_forM (policySpec_mono x kept)
    (I := fun σ' => (∀ T r, σ'.mine (.row T r) = σ.mine (.row T r)) ∧
      ∀ T, σ'.mine (.table T) = σ.mine (.table T) ∨ σ'.mine (.table T) = [])
    (fun _ _ => trivial) _ (fun T _ σ' hσ' => ?_) ⟨fun _ _ => rfl, fun _ => .inl rfl⟩
  split_ifs with hgoes
  · have hrel : σ.Releases kept (.table T) := releases_of_goes hs hl hgoes
    refine wp_unlock (fun hne => ⟨⟨fun h hh => ?_, fun r => ?_⟩, fun T' r => ?_, fun T' => ?_⟩)
      fun _ => trivial
    · rcases hσ'.2 T with heq | hnil
      · exact hrel.1 h (heq ▸ hh)
      · exact absurd hnil hne
    · rw [hσ'.1]
      exact hrel.2 r
    · rw [Standing.mine_release_of_ne (show LockResource.row T' r ≠ .table T from nofun)]
      exact hσ'.1 T' r
    · by_cases hT : LockResource.table T' = .table T
      · rw [hT, Standing.mine_release_self]
        exact .inr rfl
      · rw [Standing.mine_release_of_ne hT]
        exact hσ'.2 T'
  · exact hσ'

lemma wp_holdSchemaStability (hs : σ.Sound x) (T : TableId) (timeout : LockTimeout) :
    (holdSchemaStability T timeout).run.wp (policySpec x kept) (fun res σ' => ∀ hold : SchemaHold,
      res = .ok hold → hold.taken = true → σ'.Releases kept (.table T)) σ := by
  rw [holdSchemaStability, wp_run_bind, wp_op]
  intro l hl
  simp only
  split
  · rintro hold ⟨⟩ htaken
    cases htaken
  · rename_i hany
    have hnil : σ.mine (.table T) = [] := eq_nil_iff_forall_not_mem.mpr fun h hh =>
      hany (any_eq_true.mpr ⟨_, hs.mem_held hl hh, by simp⟩)
    have hrows : ∀ r, σ.mine (.row T r) = [] := by
      refine fun r => eq_nil_iff_forall_not_mem.mpr fun h hh => ?_
      obtain ⟨g, hg, _⟩ := hs.intent T r h hh
      rw [hnil] at hg
      cases hg
    have hasks : σ.Asks (.table T) .SchS := ⟨.inr (.inr (.inl rfl)), trivial⟩
    have hrel : (σ.grant x (.table T) .SchS).Releases kept (.table T) := by
      refine ⟨fun h hh hlast => ?_, fun r => ?_⟩
      · rw [Standing.mine_grant_self, hnil] at hh
        obtain rfl := mem_singleton.mp hh
        cases hlast
      · rw [Standing.mine_grant_of_ne (show LockResource.row T r ≠ .table T from nofun)]
        exact hrows r
    rw [wp_run_bind, wp_op]
    refine ⟨hasks, fun hold _ _ => hrel, fun o ho => ?_⟩
    simp only [if_neg ho]
    split_ifs
    · exact nofun
    · rw [wp_run_bind]
      exact wp_take hasks (fun hold _ _ => hrel) fun _ => nofun

lemma wp_waitForSchemaStability (txn : TxnHandle) (hs : σ.Sound x) (T : TableId)
    (timeout : LockTimeout) :
    (waitForSchemaStability txn T timeout).run.wp (policySpec x kept) (fun _ _ => True) σ := by
  rw [waitForSchemaStability, wp_run_bind]
  refine wp_mono (policySpec_mono x kept) (wp_holdSchemaStability hs T timeout)
    fun res σ' hres => ?_
  cases res with
  | error e => trivial
  | ok hold =>
    simp only
    split_ifs with htaken
    · rw [wp_run_bind]
      exact wp_unlock (fun _ => ⟨hres hold rfl htaken, trivial⟩) fun _ => trivial
    · trivial

end LockProgram

/-- The row a call has read at a level that keeps it. -/
def keptRow (txn : TxnHandle) :
    PolicyCall × Except LockError PolicyAnswer → Option (TableId × RowId)
  | (.readLock T r hints, .ok (.access .locked)) =>
    if releasesAtEndOfRow (effectiveLevel txn hints) then none else some (T, r)
  | _ => none

/-- The calls of the policy meet the specification, and a row that a call keeps is held when it
answers. -/
theorem program_wp (txn : TxnHandle) {kept : List (TableId × RowId)} {σ : Standing}
    (hs : σ.Sound txn.id) (hk : σ.Keeps txn.id kept) (call : PolicyCall) :
    (call.program txn).run.wp (policySpec txn.id kept) (fun res σ' =>
      ∀ p, keptRow txn (call, res) = some p →
        (txn.id, p.1, p.2) ∉ σ'.rowReads ∧ σ'.mine (.row p.1 p.2) ≠ []) σ := by
  have hmono := policySpec_mono txn.id kept
  have hmap : ∀ {α : Type} {p : LockProgram α} {f : α → PolicyAnswer} {Q},
      p.run.wp (policySpec txn.id kept) (fun _ _ => True) σ → (∀ res σ', Q res σ') →
      (f <$> p).run.wp (policySpec txn.id kept) Q σ := by
    intro α p f Q hp hQ
    rw [wp_run_map]
    exact wp_mono hmono hp fun _ σ' _ => hQ _ σ'
  cases call with
  | readLock T r hints =>
    rw [PolicyCall.program, wp_run_map]
    refine wp_mono hmono (wp_readLock txn hs hk T r hints) fun res σ' hres => ?_
    cases res with
    | error e => exact nofun
    | ok access =>
      intro p hp
      cases access with
      | locked =>
        change (if releasesAtEndOfRow (effectiveLevel txn hints) = true then none
          else some (T, r)) = some p at hp
        split_ifs at hp with hlevel
        cases hp
        exact hres rfl (by simpa using hlevel)
      | _ => cases hp
  | endRowRead T r => exact hmap (wp_endRowRead txn hs hk T r) fun _ _ => nofun
  | writeLock T r hints => exact hmap (wp_writeLock T r hints) fun _ _ => nofun
  | endStatement held => exact hmap (wp_endStatement txn hs held) fun _ _ => nofun
  | schemaStabilityLock T =>
    exact hmap (wp_take ⟨.inr (.inr (.inl rfl)), trivial⟩ trivial fun _ => trivial) fun _ _ => nofun
  | schemaModifyLock T =>
    exact hmap (wp_take ⟨.inr (.inr (.inr rfl)), trivial⟩ trivial fun _ => trivial) fun _ _ => nofun
  | holdSchemaStability T timeout =>
    exact hmap (wp_mono hmono (wp_holdSchemaStability hs T timeout)
      fun _ _ _ => trivial) fun _ _ => nofun
  | waitForSchemaStability T timeout =>
    exact hmap (wp_waitForSchemaStability txn hs T timeout) fun _ _ => nofun

/-! ### Runs -/

variable {x : TxnId}

lemma LockTable.mem_heldBy {t : LockTable} :
    (r, m) ∈ t.heldBy x ↔ (⟨x, m⟩ : Holder) ∈ t.mine x r := by
  simp only [heldBy, mem_flatMap, mem_map, mem_filter, decide_eq_true_eq,
    Prod.exists, Prod.mk.injEq, mem_mine]
  constructor
  · rintro ⟨r', e, he, h, ⟨hh, rfl⟩, rfl, rfl⟩
    rw [entry, OrderedMap.get?_eq_some_iff.mpr he]
    exact ⟨hh, trivial⟩
  · rintro ⟨hh, -⟩
    rw [entry] at hh
    cases hget : t.entries.get? r with
    | none =>
      rw [hget] at hh
      cases hh
    | some e =>
      rw [hget] at hh
      exact ⟨r, e, OrderedMap.get?_eq_some_iff.mp hget, _, ⟨hh, rfl⟩, rfl, rfl⟩

lemma LockTable.any_holders_iff {t : LockTable} :
    ((t.entry r).holders.any fun h => h.txn = x) = true ↔ t.mine x r ≠ [] := by
  rw [mine, ne_eq, filter_eq_nil_iff, any_eq_true]
  simp

/-- What a section of a request leaves the transaction with. -/
lemma LockWorld.Answers.requested {w w' : LockWorld} {H : LockResource → List Holder}
    {c : LockCall} {g : Bool} {timeout : LockTimeout} {refusal : LockOutcome}
    {o : Option LockOutcome} (h : w.Answers w' x H r m c g)
    (ho : w.requested w' timeout g refusal = some o) :
    (o = some .granted ∧ w'.Idle x (withGrant H x r m)) ∨
    w'.served.length = w.served.length ∧ ((∃ a, o = some a ∧ a ≠ .granted ∧ w'.Idle x H) ∨
      (o = none ∧ ∃ u, w'.Waits x H c u ∧
        update H c.resource (grantTo x u.mode (H c.resource)) = withGrant H x r m)) := by
  rw [LockWorld.requested] at ho
  rcases h with ⟨hlen, hnew⟩ | ⟨hlen, hnew⟩
  · rw [if_pos hlen] at ho
    cases ho
    exact .inl ⟨rfl, hnew⟩
  · rw [if_neg hlen.not_gt] at ho
    refine .inr ⟨hlen, ?_⟩
    split_ifs at ho hnew with hg hends <;> cases ho
    · refine .inl ⟨refusal, rfl, fun heq => ?_, hnew⟩
      rw [heq] at hends
      cases timeout <;> cases hends
    · exact .inr ⟨rfl, hnew⟩

namespace LockSession

variable {txn : TxnHandle} {s s' : LockSession} {σ : Standing} {call : PolicyCall}
  {choice : LockChoice}

/-- The rows that were read at a level that keeps them. -/
def kept (txn : TxnHandle) (s : LockSession) : List (TableId × RowId) :=
  s.answers.filterMap (keptRow txn)

/-- What is left to do meets the specification, from what the transaction holds. -/
def Follows (txn : TxnHandle) (s : LockSession) (call : PolicyCall) (σ : Standing)
    (p : Program LockOp LockOp.Answer (Except LockError PolicyAnswer)) : Prop :=
  p.wp (policySpec txn.id (s.kept txn)) (fun res σ' => ∀ p, keptRow txn (call, res) = some p →
    (txn.id, p.1, p.2) ∉ σ'.rowReads ∧ σ'.mine (.row p.1 p.2) ≠ []) σ

/-- Where the thread is, when the transaction held `σ` after its last operation. -/
def At (txn : TxnHandle) (s : LockSession) (σ : Standing) : Prop :=
  match s.running with
  | none => s.world.Idle txn.id σ.mine
  | some (call, .next p) => s.world.Idle txn.id σ.mine ∧ s.Follows txn call σ p
  | some (call, .waiting c _ k) => ∃ u, s.world.Waits txn.id σ.mine c u ∧
      update σ.mine c.resource (grantTo txn.id u.mode (σ.mine c.resource)) =
        withGrant σ.mine txn.id c.resource c.mode ∧
      σ.Asks c.resource c.mode ∧
      s.Follows txn call (σ.grant txn.id c.resource c.mode) (k .granted) ∧
      ∀ o, o ≠ .granted → s.Follows txn call σ (k o)

/-- What holds in every state of a session. -/
structure Strict (txn : TxnHandle) (s : LockSession) (σ : Standing) : Prop where
  ordered : s.world.Ordered none
  known : s.world.Known
  reads : σ.rowReads = s.rowReads
  sound : σ.Sound txn.id
  keeps : σ.Keeps txn.id (s.kept txn)
  place : s.At txn σ

lemma mine_of_taken {w : LockWorld} {c : LockCall} {u : Waiter} (h : w.Taken x σ.mine c u)
    (hgrant : update σ.mine c.resource (grantTo x u.mode (σ.mine c.resource)) =
      withGrant σ.mine x c.resource c.mode) :
    w.table.mine x = (σ.grant x c.resource c.mode).mine := by
  change _ = withGrant σ.mine x c.resource c.mode
  rw [← hgrant]
  funext r
  rw [update_apply, h.mine r]
  split_ifs with hr
  · rw [hr]
  · rfl

variable (h : s.Strict txn σ)
include h

/-- What the transaction holds in the table: what it held after its last operation, and what a
grant pass may have given it since. -/
lemma Strict.actual :
    ∃ σ' : Standing, (∀ r, s.world.table.mine txn.id r = σ'.mine r) ∧ σ'.Sound txn.id ∧
      σ'.Keeps txn.id (s.kept txn) ∧ Standing.Lasting σ.mine σ'.mine := by
  have hat := h.place
  rw [At] at hat
  split at hat
  · exact ⟨σ, hat.mine, h.sound, h.keeps, .refl _⟩
  · exact ⟨σ, hat.1.mine, h.sound, h.keeps, .refl _⟩
  · rename_i call c t k _
    obtain ⟨u, hwaits, hgrant, hasks, _⟩ := hat
    rcases hwaits.stage with hp | hp
    · exact ⟨σ, hp.mine, h.sound, h.keeps, .refl _⟩
    · exact ⟨σ.grant txn.id c.resource c.mode, fun r => congrFun (mine_of_taken hp hgrant) r,
        h.sound.grant hasks, h.keeps.grant h.sound _ _, h.sound.lasting_grant _ _⟩

lemma Strict.lasting {H : LockResource → List Holder}
    (hl : Standing.Lasting H σ.mine) : Standing.Lasting H (s.world.table.mine txn.id) := by
  obtain ⟨σ₁, hactual, _, _, hlast⟩ := h.actual
  rw [show s.world.table.mine txn.id = σ₁.mine from funext hactual]
  exact hl.trans hlast

variable {k : LockOutcome → Program LockOp LockOp.Answer (Except LockError PolicyAnswer)}

variable {timeout : LockTimeout}

/-- A request that is answered, gives up or waits leaves the session as its thread goes on. -/
lemma Strict.leaves {w : LockWorld} {c : LockCall} {g : Bool} {H : LockResource → List Holder}
    (hs : (s.world.requested w timeout g choice.refusal).map (s.goOn call w c timeout k) = some s')
    (hord : w.Ordered none) (hknown : w.Known) (hasks : σ.Asks c.resource c.mode)
    (hgranted : s.Follows txn call (σ.grant txn.id c.resource c.mode) (k .granted))
    (hrefused : ∀ o, o ≠ .granted → s.Follows txn call σ (k o))
    (hans : s.world.Answers w txn.id σ.mine c.resource c.mode c g)
    (hgrant : Standing.Lasting H (σ.grant txn.id c.resource c.mode).mine)
    (hsame : w.served.length = s.world.served.length → Standing.Lasting H σ.mine) :
    ∃ σ' : Standing, s'.Strict txn σ' ∧ Standing.Lasting H σ'.mine := by
  obtain ⟨o, ho, rfl⟩ := Option.map_eq_some_iff.mp hs
  rcases hans.requested ho with ⟨rfl, hnew⟩ | ⟨hlen, ⟨a, rfl, ha, hnew⟩ | ⟨rfl, u, hwaits, hmine⟩⟩
  · exact ⟨σ.grant txn.id c.resource c.mode, ⟨hord, hknown, h.reads, h.sound.grant hasks,
      h.keeps.grant h.sound _ _, hnew, hgranted⟩, hgrant⟩
  · exact ⟨σ, ⟨hord, hknown, h.reads, h.sound, h.keeps, hnew, hrefused a ha⟩, hsame hlen⟩
  · exact ⟨σ, ⟨hord, hknown, h.reads, h.sound, h.keeps, u, hwaits, hmine, hasks, hgranted,
      hrefused⟩, hsame hlen⟩

lemma Strict.perform (hidle : s.world.Idle txn.id σ.mine) {o : LockOp}
    {k : o.Answer → Program LockOp LockOp.Answer (Except LockError PolicyAnswer)}
    (hp : s.Follows txn call σ (.call o k)) (hs : s.perform txn call choice o k = some s') :
    ∃ σ' : Standing, s'.Strict txn σ' ∧ Standing.Lasting σ.mine σ'.mine := by
  cases o with
  | tryAcquire r m timeout =>
    exact h.leaves hs (h.ordered.request ..) (h.known.request h.ordered _ _ _ _) hp.1 hp.2.1 hp.2.2
      (hidle.request h.ordered h.known r m _) (h.sound.lasting_grant r m) fun _ => .refl _
  | held =>
    cases hs
    refine ⟨σ, ⟨h.ordered, h.known, h.reads, h.sound, h.keeps, hidle, hp _ fun r m => ?_⟩, .refl _⟩
    rw [mem_heldBy, hidle.mine]
  | unlock r =>
    obtain ⟨hfree, hheld⟩ := hp
    simp only [LockSession.perform, LockOp.perform] at hs
    split_ifs at hs with hany
    · cases hs
      rw [any_holders_iff, hidle.mine] at hany
      obtain ⟨hrel, hrest⟩ := hheld hany
      exact ⟨σ.release r, ⟨h.ordered.retire txn.id r, h.known.retire h.ordered txn.id r, h.reads,
        h.sound.release hrel, h.keeps.release hrel, hidle.retire r, hrest⟩,
        Standing.Sound.lasting_release hrel⟩
    · cases hs
      rw [any_holders_iff, hidle.mine, not_not] at hany
      exact ⟨σ, ⟨h.ordered, h.known, h.reads, h.sound, h.keeps, hidle, hfree hany⟩, .refl _⟩
  | readVersioning level =>
    cases hs
    exact ⟨σ, ⟨h.ordered, h.known, h.reads, h.sound, h.keeps, hidle, hp _⟩, .refl _⟩
  | recordRowRead T r =>
    cases hs
    obtain ⟨hnot, hrest⟩ := hp
    refine ⟨{ σ with rowReads := σ.rowReads.insert (txn.id, T, r) }, ⟨h.ordered, h.known,
      by rw [h.reads], ⟨h.sound.own, h.sound.used, h.sound.intent⟩, fun p hp => ⟨fun hmem => ?_,
        (h.keeps p hp).2⟩, hidle, hrest⟩, .refl _⟩
    rcases mem_insert_iff.mp hmem with heq | hold
    · cases heq
      exact hnot hp
    · exact (h.keeps p hp).1 hold
  | takeRowRead T r =>
    cases hs
    refine ⟨{ σ with rowReads := σ.rowReads.filter (· ≠ (txn.id, T, r)) }, ⟨h.ordered, h.known,
      by rw [h.reads], ⟨h.sound.own, h.sound.used, h.sound.intent⟩,
      fun p hp => ⟨fun hmem => (h.keeps p hp).1 (mem_of_mem_filter hmem), (h.keeps p hp).2⟩,
      hidle, ?_⟩, .refl _⟩
    rw [← h.reads]
    exact hp

lemma Strict.wake {c : LockCall} (hrun : s.running = some (call, .waiting c timeout k))
    (hs : s.wake call c timeout k choice = some s') : ∃ σ' : Standing, s'.Strict txn σ' ∧
      Standing.Lasting (s.world.table.mine txn.id) σ'.mine := by
  have hat := h.place
  rw [At, hrun] at hat
  obtain ⟨u, hwaits, hgrant, hasks, hgranted, hrefused⟩ := hat
  refine h.leaves hs (h.ordered.wake ..) (h.known.wake h.ordered _ _) hasks hgranted hrefused
    (hwaits.woken h.ordered hgrant _) ?_ fun hlen => ?_
  · rcases hwaits.stage with hp | hp
    · rw [show s.world.table.mine txn.id = σ.mine from funext hp.mine]
      exact h.sound.lasting_grant _ _
    · rw [mine_of_taken hp hgrant]
      exact .refl _
  · rcases hwaits.wake_self h.ordered choice.givesUp with ⟨hlt, _⟩ | ⟨_, hpending, _⟩
    · exact absurd hlen hlt.ne'
    · rw [show s.world.table.mine txn.id = σ.mine from funext hpending.mine]
      exact .refl _

lemma Strict.other {a : LockAction} (ha : a.txn ≠ txn.id) {world : LockWorld}
    (hs : s.world.exec a = some world) : Strict txn { s with world } σ ∧
      Standing.Lasting (s.world.table.mine txn.id) (world.table.mine txn.id) := by
  have hord := h.ordered.exec hs
  have hknown := h.known.exec h.ordered hs
  have hidle : ∀ {H}, s.world.Idle txn.id H → world.Idle txn.id H :=
    fun hi => View.exec (o := none) h.ordered hi ha hs
  have hsame : ∀ {H}, s.world.Idle txn.id H →
      Standing.Lasting (s.world.table.mine txn.id) (world.table.mine txn.id) := by
    intro H hi
    rw [show s.world.table.mine txn.id = H from funext hi.mine,
      show world.table.mine txn.id = H from funext (hidle hi).mine]
    exact .refl H
  obtain ⟨w₀, reads, running, answers⟩ := s
  rcases running with _ | ⟨call, p | ⟨c, timeout, k⟩⟩
  · exact ⟨⟨hord, hknown, h.reads, h.sound, h.keeps, hidle h.place⟩, hsame h.place⟩
  · exact ⟨⟨hord, hknown, h.reads, h.sound, h.keeps, hidle h.place.1, h.place.2⟩, hsame h.place.1⟩
  · obtain ⟨u, hwaits, hgrant, hrest⟩ := h.place
    have hwaits' : world.Waits txn.id σ.mine c u :=
      View.exec (o := some (c, u)) h.ordered hwaits ha hs
    have hstrict : Strict txn ⟨world, reads, some (call, .waiting c timeout k), answers⟩ σ :=
      ⟨hord, hknown, h.reads, h.sound, h.keeps, u, hwaits', hgrant, hrest⟩
    refine ⟨hstrict, ?_⟩
    rcases hwaits.stage with hp | hp
    · rw [show w₀.table.mine txn.id = σ.mine from funext hp.mine]
      exact hstrict.lasting (.refl _)
    · exact hsame ⟨hp.mine, hp.waits⟩

variable {e : SessionEvent}

/-- Every event keeps it, and what lasts is still held. -/
theorem Strict.step (hok : OneThread txn s e)
    (hs : s.exec txn e = some s') : ∃ σ' : Standing, s'.Strict txn σ' ∧
      Standing.Lasting (s.world.table.mine txn.id) (s'.world.table.mine txn.id) := by
  cases e with
  | other a =>
    obtain ⟨world, hexec, rfl⟩ := Option.map_eq_some_iff.mp hs
    exact ⟨σ, h.other hok hexec⟩
  | begin c =>
    obtain ⟨w, reads, _ | _, answers⟩ := s <;> cases hs
    exact ⟨σ, ⟨h.ordered, h.known, h.reads, h.sound, h.keeps, h.place,
      program_wp txn h.sound h.keeps c⟩, .refl _⟩
  | run choice =>
    obtain ⟨w, reads, _ | ⟨call, (a | ⟨o, k⟩) | ⟨c, timeout, k⟩⟩, answers⟩ := s
    · cases hs
    · cases hs
      refine ⟨σ, ⟨h.ordered, h.known, h.reads, h.sound, fun p hp => ?_, h.place.1⟩, .refl _⟩
      rw [kept, filterMap_append, mem_append] at hp
      rcases hp with hold | hnew
      · exact h.keeps p hold
      · exact h.place.2 p (by simpa using hnew)
    · obtain ⟨σ', hstrict, hlast⟩ := h.perform h.place.1 h.place.2 hs
      refine ⟨σ', hstrict, hstrict.lasting ?_⟩
      rw [show w.table.mine txn.id = σ.mine from funext h.place.1.mine]
      exact hlast
    · obtain ⟨σ', hstrict, hlast⟩ := h.wake rfl hs
      exact ⟨σ', hstrict, hstrict.lasting hlast⟩

omit h

lemma Strict.start (txn : TxnHandle) : LockSession.start.Strict txn ⟨fun _ => [], []⟩ :=
  ⟨.initial, nofun, rfl, ⟨fun _ => .nil _, nofun, nofun⟩, nofun, ⟨fun _ => rfl, fun _ => rfl⟩⟩

lemma answers_goOn {w : LockWorld} {c : LockCall} {o : Option (Option LockOutcome)}
    (hs : o.map (s.goOn call w c timeout k) = some s')
    {a : PolicyCall × Except LockError PolicyAnswer} (ha : a ∈ s.answers) : a ∈ s'.answers := by
  obtain ⟨_ | _, _, rfl⟩ := Option.map_eq_some_iff.mp hs <;> exact ha

lemma answers_exec (hs : s.exec txn e = some s')
    {a : PolicyCall × Except LockError PolicyAnswer} (ha : a ∈ s.answers) : a ∈ s'.answers := by
  cases e with
  | other b =>
    obtain ⟨world, _, rfl⟩ := Option.map_eq_some_iff.mp hs
    exact ha
  | begin c =>
    obtain ⟨w, reads, _ | _, answers⟩ := s <;> cases hs
    exact ha
  | run choice =>
    obtain ⟨w, reads, _ | ⟨call, (b | ⟨o, k⟩) | ⟨c, timeout, k⟩⟩, answers⟩ := s
    · cases hs
    · cases hs
      exact mem_append_left _ ha
    · cases o with
      | tryAcquire => exact answers_goOn hs ha
      | unlock r =>
        change Option.map _ (if _ then _ else _) = _ at hs
        split_ifs at hs <;> cases hs <;> exact ha
      | _ =>
        cases hs
        exact ha
    · exact answers_goOn hs ha

def Holds (txn : TxnHandle) (s : LockSession) (r : LockResource) (m : LockMode) : Prop :=
  (⟨txn.id, m⟩ : Holder) ∈ (s.world.table.entry r).holders

/-- The transaction holds a mode or a stronger one. -/
def HoldsAtLeast (txn : TxnHandle) (s : LockSession) (r : LockResource) (m : LockMode) : Prop :=
  ∃ m', s.Holds txn r m' ∧ m'.covers m = true

lemma mem_mine_iff : s.Holds txn r m ↔ (⟨txn.id, m⟩ : Holder) ∈ s.world.table.mine txn.id r := by
  rw [Holds, mem_mine]
  simp

lemma holdsAtLeast_of_mine {h : Holder}
    (hh : h ∈ s.world.table.mine txn.id r) (hcov : h.mode.covers m = true) :
    s.HoldsAtLeast txn r m := by
  obtain ⟨y, m'⟩ := h
  obtain rfl : y = txn.id := (mem_mine.mp hh).2
  exact ⟨m', mem_mine_iff.mpr hh, hcov⟩

/-- Strict two-phase locking: over every run of the calls of one transaction on one thread, and
whatever the other transactions do, an update or exclusive lock on a row, a shared lock of a row
that was read at REPEATABLE READ or SERIALIZABLE and a schema modification lock are held from then
on, in the same mode or a stronger one; and a row is held under an intent lock on its table that
covers it. -/
theorem row_policy_is_strict {txn : TxnHandle}
    (hs : (lockSession txn).Reachable (OneThread txn) s)
    (hs' : ((lockSession txn).after s).Reachable (OneThread txn) s') :
    (∀ T r m, s.Holds txn (.row T r) m → m = .U ∨ m = .X → s'.HoldsAtLeast txn (.row T r) m) ∧
    (∀ T r hints, (.readLock T r hints, .ok (.access .locked)) ∈ s.answers →
      effectiveLevel txn hints = .repeatableRead ∨ effectiveLevel txn hints = .serializable →
      s'.HoldsAtLeast txn (.row T r) .S) ∧
    (∀ T, s.Holds txn (.table T) .SchM → s'.HoldsAtLeast txn (.table T) .SchM) ∧
    ∀ T r m, s'.Holds txn (.row T r) m → s'.HoldsAtLeast txn (.table T) (intentOf m) := by
  have hstart : ∃ σ, s.Strict txn σ := by
    refine hs.invariant (P := fun s => ∃ σ, s.Strict txn σ) ⟨_, .start txn⟩ ?_
    rintro s e s' ⟨σ, h⟩ hok hstep
    obtain ⟨σ', h', _⟩ := h.step hok hstep
    exact ⟨σ', h'⟩
  -- from `s` on: the invariant, what lasts, and the answers
  have hrun : (∃ σ, s'.Strict txn σ) ∧
      Standing.Lasting (s.world.table.mine txn.id) (s'.world.table.mine txn.id) ∧
      ∀ a ∈ s.answers, a ∈ s'.answers := by
    refine hs'.invariant (P := fun s' => (∃ σ, s'.Strict txn σ) ∧
      Standing.Lasting (s.world.table.mine txn.id) (s'.world.table.mine txn.id) ∧
      ∀ a ∈ s.answers, a ∈ s'.answers) ⟨hstart, .refl _, fun _ ha => ha⟩ ?_
    rintro s₁ e s₂ ⟨⟨σ, h⟩, hlast, hans⟩ hok hstep
    obtain ⟨σ', h', hlast'⟩ := h.step hok hstep
    exact ⟨⟨σ', h'⟩, hlast.trans hlast', fun a ha => answers_exec hstep (hans a ha)⟩
  obtain ⟨⟨σ, hstrict⟩, hlast, hanswers⟩ := hrun
  obtain ⟨σ₁, hactual, hsound, hkeeps, _⟩ := hstrict.actual
  have hmine : s'.world.table.mine txn.id = σ₁.mine := funext hactual
  have hholds : ∀ {r m}, s.Holds txn r m → m.Lasts r → s'.HoldsAtLeast txn r m := by
    intro r m hm hlasts
    obtain ⟨h', hh', hcov⟩ := hlast r _ (mem_mine_iff.mp hm) hlasts
    exact holdsAtLeast_of_mine hh' hcov
  refine ⟨fun T r m hm hmode => hholds hm hmode, fun T r hints hans hlevel => ?_,
    fun T hm => hholds hm rfl, fun T r m hm => ?_⟩
  · have hkept : (T, r) ∈ s'.kept txn := by
      refine mem_filterMap.mpr ⟨_, hanswers _ hans, ?_⟩
      rcases hlevel with hl | hl <;> simp [keptRow, hl, releasesAtEndOfRow]
    obtain ⟨h, hh⟩ := exists_mem_of_ne_nil _ (hkeeps _ hkept).2
    refine holdsAtLeast_of_mine (hmine ▸ hh) ?_
    rcases hsound.used _ h hh with hm | hm | hm <;> rw [hm] <;> rfl
  · obtain ⟨g, hg, hcov⟩ := hsound.intent T r _ (hmine ▸ mem_mine_iff.mp hm)
    exact holdsAtLeast_of_mine (hmine ▸ hg) hcov

/-- A READ COMMITTED transaction reads a row under a REPEATABLE READ hint. -/
def hintedRead : List SessionEvent :=
  .begin (.readLock 1 1 { level := some .repeatableRead }) ::
    replicate 6 (.run ⟨false, .cancelled, .off⟩)

/-- It reads the row again without the hint, ends the read and the statement. -/
def plainRead : List SessionEvent :=
  .begin (.readLock 1 1 {}) :: replicate 5 (.run ⟨false, .cancelled, .off⟩) ++
    .begin (.endRowRead 1 1) :: replicate 2 (.run ⟨false, .cancelled, .off⟩) ++
    .begin (.endStatement []) :: replicate 2 (.run ⟨false, .cancelled, .off⟩)

def ownCalls (_ : LockSession) : SessionEvent → Bool
  | .other _ => false
  | _ => true

def hintedAnswer : PolicyCall × Except LockError PolicyAnswer → Bool
  | (.readLock T r hints, .ok (.access .locked)) =>
    T = 1 ∧ r = 1 ∧ hints = { level := some .repeatableRead }
  | _ => false

/-- The row that was read under the hint is still held. -/
theorem hintedRead_is_held : ∃ s s' : LockSession,
    (lockSession ⟨1, .readCommitted⟩).Reachable (OneThread ⟨1, .readCommitted⟩) s ∧
    ((lockSession ⟨1, .readCommitted⟩).after s).Reachable (OneThread ⟨1, .readCommitted⟩) s' ∧
    s'.answers.length = 4 ∧ s'.HoldsAtLeast ⟨1, .readCommitted⟩ (.row 1 1) .S := by
  have hok : ∀ s e, ownCalls s e = true → OneThread ⟨1, .readCommitted⟩ s e := by
    intro s e he
    cases e with
    | other a => cases he
    | _ => trivial
  obtain ⟨s, hs, hp⟩ := (lockSession ⟨1, .readCommitted⟩).exists_reachable ownCalls hintedRead
    (fun s => s.answers.any hintedAnswer &&
      (((lockSession ⟨1, .readCommitted⟩).after s).run ownCalls s plainRead).any fun s' =>
        s'.answers.length = 4) hok (by decide +kernel)
  obtain ⟨hread, hrest⟩ := Bool.and_eq_true_iff.mp hp
  obtain ⟨s', hs', hlen⟩ := ((lockSession ⟨1, .readCommitted⟩).after s).exists_reachable ownCalls
    plainRead (fun s' => s'.answers.length = 4) hok hrest
  obtain ⟨⟨call, res⟩, hmem, hcall⟩ := any_eq_true.mp hread
  refine ⟨s, s', hs, hs', by simpa using hlen, (row_policy_is_strict hs hs').2.1 1 1
    { level := some .repeatableRead } ?_ (.inl rfl)⟩
  unfold hintedAnswer at hcall
  split at hcall
  · rename_i T r hints heq
    simp only [decide_eq_true_eq] at hcall
    obtain ⟨rfl, rfl, rfl⟩ := hcall
    exact heq ▸ hmem
  · cases hcall

end LockSession

end VaubanDB
