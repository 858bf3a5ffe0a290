import VaubanDB.Disk.BufferPool

/-!
The buffer pool is coherent and keeps the write rule.

`Allowed` says what may happen to a page in each view of it: it is read back as it was last written,
written to the file only when the journal is durable up to it and no transaction in progress changed
it, and loses its frame only when nobody holds it and nothing of it is owed to the file.
-/

namespace VaubanDB

open Option Function

/-! ### What may happen to a page -/

/-- What may happen to a page seen as `v`, `disk` being the data file at the start. -/
def Allowed (disk : PageId → Image) (v : PageView) : PoolEvent → Prop
  | .loaded id page => v.content = none ∧ v.image.getD (disk id) = some page ∧ page.pageId = id
  | .observed _ _ page => v.content = some page
  | .wrote _ page durable inProgress | .tore _ _ page durable inProgress =>
    v.content = some page ∧ page.lsn ≤ durable ∧ inProgress = false
  | .evicted _ => v.guards = [] ∧ v.owed = false
  | _ => True

@[simp] lemma viewOf_nil (id : PageId) : viewOf [] id = .untouched := rfl

lemma viewOf_snoc (log : List PoolEvent) (e : PoolEvent) (id : PageId) :
    viewOf (log ++ [e]) id = if e.page = id then (viewOf log id).step e else viewOf log id := by
  by_cases h : e.page = id <;> simp [viewOf, List.filter_append, h]

lemma viewOf_snoc_ne (log : List PoolEvent) {e : PoolEvent} {id : PageId} (h : e.page ≠ id) :
    viewOf (log ++ [e]) id = viewOf log id := by
  simp [viewOf_snoc, h]

/-- The frame caches what the page is seen as. -/
structure Frame.Agrees (f : Frame) (v : PageView) : Prop where
  pins : v.guards.length = f.pins
  content : v.content = some f.page
  dirty : v.owed = f.dirty

variable {owner : ThreadId} {page : Page}

namespace PoolWorld

variable {disk : PageId → Image} {w : PoolWorld} {slot : ℕ} {f : Frame}

/-- The pool agrees with what the history says about each page. -/
structure Coherent (disk : PageId → Image) (w : PoolWorld) : Prop where
  slots : ∀ id slot, w.byPage id = some slot ↔ ∃ f, w.frames[slot]? = some f ∧ f.id = id
  cached : ∀ (slot : ℕ) (f : Frame), w.frames[slot]? = some f → f.Agrees (viewOf w.log f.id)
  absent : ∀ id, w.byPage id = none → (viewOf w.log id).guards = [] ∧
    (viewOf w.log id).content = none ∧ (viewOf w.log id).owed = false
  image : ∀ id, w.file id = (viewOf w.log id).image.getD (disk id)
  allowed : Justified (fun before e => Allowed disk (viewOf before e.page) e) w.log

lemma getElem?_set_frame (hf : w.frames[slot]? = some f) (f' : Frame) (i : ℕ) :
    (w.frames.set slot f')[i]? = if i = slot then some f' else w.frames[i]? := by
  have hlt : slot < w.frames.length := (List.getElem?_eq_some_iff.mp hf).1
  rw [List.getElem?_set]
  by_cases hi : slot = i
  · subst hi
    simp [hlt]
  · simp [hi, Ne.symm hi]

lemma set_frame_self (hf : w.frames[slot]? = some f) : w.frames.set slot f = w.frames := by
  obtain ⟨hlt, rfl⟩ := List.getElem?_eq_some_iff.mp hf
  exact List.set_getElem_self hlt

namespace Coherent

lemma opened (capacity pageCount : ℕ) (disk : PageId → Image) (durable : Lsn) :
    (PoolWorld.opened capacity pageCount disk durable).Coherent disk where
  slots id slot := by simp [PoolWorld.opened]
  cached slot f h := by simp [PoolWorld.opened] at h
  absent id _ := by simp [PoolWorld.opened, PageView.untouched]
  image id := by simp [PoolWorld.opened, PageView.untouched]
  allowed := .nil

variable (h : w.Coherent disk)
include h

lemma slot_unique {i : ℕ} {g : Frame} (hf : w.frames[slot]? = some f)
    (hg : w.frames[i]? = some g) (hid : g.id = f.id) : i = slot := by
  have h1 := (h.slots f.id slot).mpr ⟨f, hf, rfl⟩
  have h2 := (h.slots f.id i).mpr ⟨g, hg, hid⟩
  simpa [h1] using h2.symm

lemma happens (hf : w.frames[slot]? = some f) (f' : Frame)
    (e : PoolEvent) (image : Image) (hid : f'.id = f.id) (he : e.page = f.id)
    (hagree : f'.Agrees ((viewOf w.log f.id).step e)) (hok : Allowed disk (viewOf w.log f.id) e)
    (himage : image = ((viewOf w.log f.id).step e).image.getD (disk f.id)) : ({ w with
      frames := w.frames.set slot f'
      file := update w.file f.id image
      log := w.log ++ [e] } : PoolWorld).Coherent disk := by
  have hview : viewOf (w.log ++ [e]) f.id = (viewOf w.log f.id).step e := by simp [viewOf_snoc, he]
  have hother : ∀ id, id ≠ f.id → viewOf (w.log ++ [e]) id = viewOf w.log id :=
    fun id hne => viewOf_snoc_ne _ (by rw [he]; exact hne.symm)
  have hget := getElem?_set_frame hf f'
  refine ⟨fun id i => ?_, fun i g hg => ?_, fun id hnone => ?_, fun id => ?_,
    h.allowed.snoc (by rw [he]; exact hok)⟩
  · rw [h.slots id i]
    simp only [hget]
    by_cases hi : i = slot
    · subst hi
      simp [hf, hid]
    · simp [hi]
  · simp only [hget] at hg
    split at hg
    · cases hg
      rw [hid, hview]
      exact hagree
    · rename_i hi
      have hne : g.id ≠ f.id := fun heq => hi (h.slot_unique hf hg heq)
      simp only [hother _ hne]
      exact h.cached i g hg
  · have hne : id ≠ f.id := by
      rintro rfl
      rw [(h.slots f.id slot).mpr ⟨f, hf, rfl⟩] at hnone
      cases hnone
    simpa only [hother id hne] using h.absent id hnone
  · by_cases hid' : id = f.id
    · subst hid'
      simp [hview, himage]
    · simp [hid', hother id hid', h.image id]

lemma setFrame (hf : w.frames[slot]? = some f) (f' : Frame)
    (hid : f'.id = f.id) (hpage : f'.page = f.page) (hpins : f'.pins = f.pins)
    (hdirty : f'.dirty = f.dirty) :
    ({ w with frames := w.frames.set slot f' } : PoolWorld).Coherent disk := by
  have hget := getElem?_set_frame hf f'
  refine ⟨fun id i => ?_, fun i g hg => ?_, h.absent, h.image, h.allowed⟩
  · rw [h.slots id i]
    simp only [hget]
    by_cases hi : i = slot
    · subst hi
      simp [hf, hid]
    · simp [hi]
  · simp only [hget] at hg
    split at hg
    · cases hg
      have hag := h.cached slot f hf
      rw [hid]
      exact ⟨hag.pins.trans hpins.symm, by rw [hpage]; exact hag.content,
        hag.dirty.trans hdirty.symm⟩
    · exact h.cached i g hg

/-- A page just read takes a frame that is new, or that a page nobody needs any more gives up. -/
lemma install (slot : ℕ) {id : PageId}
    {frames' : List Frame} {byPage' : PageId → Option ℕ} {log' : List PoolEvent}
    (hget : ∀ i, frames'[i]? = if i = slot then some (.loaded id page owner) else w.frames[i]?)
    (hby : ∀ k, byPage' k =
      if k = id then some slot else if w.byPage k = some slot then none else w.byPage k)
    (hnone : w.byPage id = none) (hpage : w.file id = some page) (hid : page.pageId = id)
    (hlog : w.frames[slot]? = none ∧ log' = w.log ∨ ∃ f, w.frames[slot]? = some f ∧ f.pins = 0 ∧
      f.dirty = false ∧ log' = w.log ++ [.evicted f.id]) :
    ({ w with
      frames := frames'
      byPage := byPage'
      log := log' ++ [.loaded id page] ++ [.pinned owner id] } : PoolWorld).Coherent disk := by
  -- what the eviction, if there is one, leaves of each page
  obtain ⟨hallowed, himage, hkept, hlost⟩ :
      Justified (fun before e => Allowed disk (viewOf before e.page) e) log' ∧
      (∀ k, (viewOf log' k).image = (viewOf w.log k).image) ∧
      (∀ k, w.byPage k ≠ some slot → viewOf log' k = viewOf w.log k) ∧
      ∀ k, w.byPage k = some slot → (viewOf log' k).guards = [] ∧
        (viewOf log' k).content = none ∧ (viewOf log' k).owed = false := by
    rcases hlog with ⟨hvacant, rfl⟩ | ⟨f, hf, hpins, hdirty, rfl⟩
    · refine ⟨h.allowed, fun _ => rfl, fun _ _ => rfl, fun k hk => ?_⟩
      obtain ⟨g, hg, -⟩ := (h.slots k slot).mp hk
      simp [hvacant] at hg
    · have hag := h.cached slot f hf
      have hguards : (viewOf w.log f.id).guards = [] :=
        List.eq_nil_of_length_eq_zero (hag.pins.trans hpins)
      have howed : (viewOf w.log f.id).owed = false := hag.dirty.trans hdirty
      have hby' : w.byPage f.id = some slot := (h.slots f.id slot).mpr ⟨f, hf, rfl⟩
      refine ⟨h.allowed.snoc ⟨hguards, howed⟩, fun k => ?_, fun k hk => ?_, fun k hk => ?_⟩
      · rw [viewOf_snoc]
        split <;> rfl
      · refine viewOf_snoc_ne _ fun heq => hk ?_
        rw [← heq]
        exact hby'
      · obtain ⟨g, hg, rfl⟩ := (h.slots k slot).mp hk
        have : g = f := by simpa [hf] using hg.symm
        subst this
        simp [viewOf_snoc, PoolEvent.page, PageView.step, hguards, howed]
  have hid' : viewOf log' id = viewOf w.log id := hkept id (by simp [hnone])
  obtain ⟨hg0, hc0, ho0⟩ := h.absent id hnone
  have hview : viewOf (log' ++ [.loaded id page] ++ [.pinned owner id]) id =
      ⟨[owner], some page, false, (viewOf w.log id).image⟩ := by
    rw [viewOf_snoc, viewOf_snoc]
    simp [PoolEvent.page, PageView.step, hid', hg0, ho0]
  have hother : ∀ k, k ≠ id →
      viewOf (log' ++ [.loaded id page] ++ [.pinned owner id]) k = viewOf log' k := by
    intro k hk
    rw [viewOf_snoc, viewOf_snoc]
    simp [PoolEvent.page, hk.symm]
  refine ⟨fun k i => ?_, fun i g hg => ?_, fun k hk => ?_, fun k => ?_, ?_⟩
  · simp only [hby, hget]
    by_cases hk : k = id
    · subst hk
      by_cases hi : i = slot
      · subst hi
        simp [Frame.loaded]
      · have : ¬ ∃ f, w.frames[i]? = some f ∧ f.id = k := by
          rw [← h.slots k i, hnone]
          simp
        simp [hi, Ne.symm hi, this]
    · have hs := h.slots k i
      by_cases hi : i = slot
      · subst hi
        simp only [hk, if_false, if_true]
        by_cases hki : w.byPage k = some i <;> simp [hki, Frame.loaded, Ne.symm hk]
      · simp only [hk, hi, if_false]
        rw [← hs]
        by_cases hks : w.byPage k = some slot
        · simp [hks, Ne.symm hi]
        · simp [hks]
  · simp only [hget] at hg
    split at hg
    · cases hg
      show Frame.Agrees _ (viewOf (log' ++ [.loaded id page] ++ [.pinned owner id]) id)
      rw [hview]
      exact ⟨rfl, rfl, rfl⟩
    · rename_i hi
      have hby' := (h.slots g.id i).mpr ⟨g, hg, rfl⟩
      have hne : g.id ≠ id := by
        rintro rfl
        simp [hnone] at hby'
      simp only [hother _ hne]
      rw [hkept g.id (by rw [hby']; simpa using hi)]
      exact h.cached i g hg
  · simp only [hby] at hk
    have hne : k ≠ id := by
      rintro rfl
      simp at hk
    simp only [hne, if_false] at hk
    simp only [hother k hne]
    split at hk
    · exact hlost k ‹_›
    · rename_i hks
      rw [hkept k hks]
      exact h.absent k hk
  · simp only
    by_cases hk : k = id
    · subst hk
      rw [hview, h.image k]
    · rw [hother k hk, himage, h.image k]
  · refine (hallowed.snoc ?_).snoc trivial
    refine ⟨?_, ?_, hid⟩
    · show (viewOf log' id).content = none
      rw [hid', hc0]
    · show (viewOf log' id).image.getD (disk id) = some page
      rw [himage, ← h.image id, hpage]

end Coherent

end PoolWorld

/-! ### What each call keeps -/

open EStateM

variable {disk : PageId → Image}

namespace Pool

variable {w : PoolWorld} {id : PageId}

lemma frame_of_get {slot : ℕ} {f : Frame} (hf : w.frames[slot]? = some f) :
    frame slot w = .ok f w := by
  simp [frame, hf]

lemma readPage_spec (w : PoolWorld) (id : PageId) (ok : Bool) :
    Ends w (readPage id ok) (fun page w' => w' = w ∧ w.file id = some page ∧ page.pageId = id)
      (· = w) := by
  rw [readPage, ends_get_bind]
  by_cases hpast : id ≥ w.pageCount
  · rw [if_pos hpast]
    exact rfl
  rw [if_neg hpast]
  cases ok with
  | false => exact rfl
  | true =>
    rcases hpage : w.file id with _ | page
    · exact rfl
    by_cases hid : page.pageId = id
    · simp [hid]
    · simp [hid]

variable {fault : Option Image}

lemma writePage_spec {inProgress : Bool} {Q : PoolWorld → Prop}
    {E : PoolWorld → Prop} (hpast : E w) (hfault : ∀ image, E { w with
      file := update w.file id image
      log := w.log ++ [.tore id image page w.durable inProgress] }) (hok : Q { w with
      file := update w.file id (some page)
      log := w.log ++ [.wrote id page w.durable inProgress] }) :
    Ends w (writePage id page inProgress fault) (fun _ => Q) E := by
  rw [writePage, ends_get_bind]
  by_cases hid : id ≥ w.pageCount
  · rw [if_pos hid]
    exact hpast
  · rw [if_neg hid]
    cases fault with
    | some image => exact hfault image
    | none => exact hok

/-- What the write of a frame leaves: everything but the page of the frame is as it was. -/
structure Written (disk : PageId → Image) (w : PoolWorld) (slot : ℕ) (f : Frame)
    (w' : PoolWorld) : Prop where
  coherent : w'.Coherent disk
  byPage : w'.byPage = w.byPage
  file : ∀ id, id ≠ f.id → w'.file id = w.file id
  frame : ∃ f', w'.frames[slot]? = some f' ∧ f'.id = f.id ∧ f'.pins = f.pins ∧
    (f'.dirty = true → f.dirty = true ∧ f.inProgress = true)

/-- A page is written with the content it has, when the rules allow it; the frame is then
clean. -/
lemma writeIfNeeded_spec (h : w.Coherent disk) {slot : ℕ} {f : Frame}
    (hf : w.frames[slot]? = some f) (fault : Option Image) :
    Ends w (writeIfNeeded slot fault) (fun _ => Written disk w slot f) (·.Coherent disk) := by
  have hag := h.cached slot f hf
  rw [writeIfNeeded, ends_bind_of_ok (frame_of_get hf), ends_get_bind]
  by_cases hskip : (!f.dirty || f.inProgress) = true
  · rw [if_pos hskip]
    exact ⟨h, rfl, fun _ _ => rfl, f, hf, rfl, rfl, fun hd => ⟨hd, by simpa [hd] using hskip⟩⟩
  obtain ⟨hdirty, hprog⟩ : f.dirty = true ∧ f.inProgress = false := by simpa using hskip
  rw [if_neg hskip]
  by_cases hahead : (!writable f.page.lsn w.durable) = true
  · rw [if_pos hahead]
    exact h
  have hlsn : f.page.lsn ≤ w.durable := by
    by_cases h0 : f.page.lsn = 0
    · exact h0 ▸ Nat.zero_le _
    · simpa [writable, h0] using hahead
  rw [if_neg hahead, ends_bind]
  refine writePage_spec h (fun image => ?_) ?_
  · have htorn := h.happens hf f (.tore f.id image f.page w.durable f.inProgress) image rfl rfl
      ⟨hag.pins, hag.content, hag.dirty⟩ ⟨hag.content, hlsn, hprog⟩ rfl
    rwa [PoolWorld.set_frame_self hf] at htorn
  · have hdone := h.happens hf { f with dirty := false }
      (.wrote f.id f.page w.durable f.inProgress) (some f.page) rfl rfl
      ⟨hag.pins, hag.content, rfl⟩ ⟨hag.content, hlsn, hprog⟩ rfl
    have hlt := (List.getElem?_eq_some_iff.mp hf).1
    exact ⟨hdone, rfl, fun id hid => by simp [hid], { f with dirty := false }, by simp [hlt], rfl,
      rfl, by simp⟩

/-- The clock only takes chances away, and picks a frame nobody holds whose page may leave. -/
lemma victimLoop_spec (turns : ℕ) (h : w.Coherent disk) : Ends w (victimLoop turns)
      (fun victim w' => w'.Coherent disk ∧ w'.byPage = w.byPage ∧ w'.file = w.file ∧
        ∀ slot, victim = some slot → ∃ f, w'.frames[slot]? = some f ∧ f.pins = 0 ∧
          (f.dirty = true → f.inProgress = false))
      (·.Coherent disk) := by
  induction turns generalizing w with
  | zero => exact ⟨h, rfl, rfl, by simp⟩
  | succ turns ih =>
    rw [victimLoop, ends_get_bind, ends_set_bind]
    have hturned : ({ w with hand := (w.hand + 1) % w.frames.length } : PoolWorld).Coherent disk :=
      ⟨h.slots, h.cached, h.absent, h.image, h.allowed⟩
    cases hf : w.frames[w.hand]? with
    | none =>
      rw [ends_bind]
      simpa [frame, hf] using hturned
    | some f =>
      have hframe : frame w.hand { w with hand := (w.hand + 1) % w.frames.length } =
          .ok f { w with hand := (w.hand + 1) % w.frames.length } := frame_of_get hf
      rw [ends_bind_of_ok hframe]
      by_cases hpins : f.pins > 0
      · rw [if_pos hpins]
        exact ih hturned
      rw [if_neg hpins]
      by_cases hkept : (f.dirty && (f.inProgress || !writable f.page.lsn w.durable)) = true
      · rw [if_pos hkept]
        exact ih hturned
      rw [if_neg hkept]
      by_cases href : f.referenced = true
      · rw [if_pos href, setFrame, ends_modify_bind]
        exact ih (hturned.setFrame hf { f with referenced := false } rfl rfl rfl rfl)
      rw [if_neg href]
      refine ⟨hturned, rfl, rfl, fun slot hslot => ?_⟩
      cases hslot
      refine ⟨f, hf, by lia, fun hd => ?_⟩
      by_contra hp
      simp [hd, hp] at hkept

lemma chooseVictim_spec (wanted : PageId) (h : w.Coherent disk) : Ends w (chooseVictim wanted)
      (fun slot w' => w'.Coherent disk ∧ w'.byPage = w.byPage ∧ w'.file = w.file ∧
        ∃ f, w'.frames[slot]? = some f ∧ f.pins = 0 ∧ (f.dirty = true → f.inProgress = false))
      (·.Coherent disk) := by
  rw [chooseVictim, ends_get_bind, ends_bind]
  refine (victimLoop_spec _ h).mono (fun victim w' hw' => ?_) fun _ hw' => hw'
  obtain ⟨hcoh, hby, hfile, hvictim⟩ := hw'
  cases victim with
  | none => exact hcoh
  | some slot => exact ⟨hcoh, hby, hfile, hvictim slot rfl⟩

/-- A page just read gets a frame, and the pool is coherent once the page is in the index. -/
lemma placeLoaded_spec (owner : ThreadId) (fault : Option Image) (h : w.Coherent disk)
    (hby : w.byPage id = none) (hpage : w.file id = some page) (hid : page.pageId = id) :
    Ends w (placeLoaded owner id page fault) (fun slot w' => ({ w' with
        byPage := update w'.byPage id (some slot)
        log := w'.log ++ [.loaded id page] ++ [.pinned owner id] } : PoolWorld).Coherent disk)
      (·.Coherent disk) := by
  rw [placeLoaded, ends_get_bind]
  by_cases hroom : w.frames.length < w.capacity
  · rw [if_pos hroom]
    refine h.install w.frames.length (fun i => ?_) (fun k => ?_) hby hpage hid (.inl ⟨by simp, rfl⟩)
    · rcases Nat.lt_trichotomy i w.frames.length with hi | rfl | hi
      · simp [List.getElem?_append_left hi, hi.ne]
      · simp
      · have : ¬ i = w.frames.length := by lia
        simp [this, hi]
        lia
    · have hslot : w.byPage k ≠ some w.frames.length := by
        intro hk
        obtain ⟨f, hf, -⟩ := (h.slots k _).mp hk
        simp at hf
      by_cases hk : k = id <;> simp [update, hk, hslot]
  · rw [if_neg hroom, ends_bind]
    refine (chooseVictim_spec id h).mono (fun victim w₁ hw₁ => ?_) fun _ hw₁ => hw₁
    obtain ⟨h₁, hby₁, hfile₁, f, hf, hpins, hclean⟩ := hw₁
    rw [ends_bind]
    refine (writeIfNeeded_spec h₁ hf fault).mono (fun _ w₂ hw₂ => ?_) fun _ hw₂ => hw₂
    obtain ⟨g, hg, hgid, hgpins, hgdirty⟩ := hw₂.frame
    have hdirty : g.dirty = false := by
      by_contra hd
      obtain ⟨hd, hp⟩ := hgdirty (by simpa using hd)
      simp [hclean hd] at hp
    have hnone : w₂.byPage id = none := by rw [hw₂.byPage, hby₁, hby]
    have hne : id ≠ f.id := by
      rintro rfl
      have hcached := (h₁.slots f.id victim).mpr ⟨f, hf, rfl⟩
      rw [hby₁, hby] at hcached
      cases hcached
    rw [ends_bind_of_ok (frame_of_get hg)]
    refine hw₂.coherent.install victim (PoolWorld.getElem?_set_frame hg _) (fun k => ?_) hnone
      (by rw [hw₂.file id hne, hfile₁, hpage]) hid
      (.inr ⟨g, hg, hgpins.trans hpins, hdirty, rfl⟩)
    have hgby : w₂.byPage g.id = some victim := (hw₂.coherent.slots _ _).mpr ⟨g, hg, rfl⟩
    by_cases hk : k = id
    · simp [update, hk]
    · by_cases hkg : k = g.id
      · subst hkg
        simp [update, hk, hgby]
      · have : w₂.byPage k ≠ some victim := by
          intro hkv
          obtain ⟨g', hg', rfl⟩ := (hw₂.coherent.slots k victim).mp hkv
          simp only [hg, some.injEq] at hg'
          exact hkg (hg' ▸ rfl)
        simp [update, hk, hkg, this]

lemma pin_spec (owner : ThreadId) (id : PageId) (readOk : Bool) (fault : Option Image)
    (h : w.Coherent disk) :
    Ends w (pin owner id readOk fault) (fun _ w' => w'.Coherent disk) (·.Coherent disk) := by
  rw [pin, ends_get_bind]
  cases hby : w.byPage id with
  | some slot =>
    obtain ⟨f, hf, rfl⟩ := (h.slots id slot).mp hby
    have hag := h.cached slot f hf
    have hdone := h.happens hf { f.addPin owner with referenced := true } (.pinned owner f.id)
      (w.file f.id) rfl rfl ⟨by simp [PageView.step, hag.pins, Frame.addPin], hag.content,
        hag.dirty⟩
      trivial (h.image f.id)
    rw [update_eq_self] at hdone
    simp only [ends_bind_of_ok (frame_of_get hf)]
    exact hdone
  | none =>
    rw [ends_bind]
    refine (readPage_spec w id readOk).mono (fun page w' hw' => ?_) fun _ hw' => hw' ▸ h
    obtain ⟨rfl, hpage, hid⟩ := hw'
    rw [ends_bind]
    exact (placeLoaded_spec owner fault h hby hpage hid).mono (fun _ _ hw => hw) fun _ hw => hw

variable (h : w.Coherent disk)
include h

lemma unpin_spec (hguard : owner ∈ (viewOf w.log id).guards) :
    Ends w (unpin owner id) (fun _ w' => w'.Coherent disk) (·.Coherent disk) := by
  rw [unpin, ends_get_bind]
  rcases hby : w.byPage id with _ | slot
  · simp [(h.absent id hby).1] at hguard
  obtain ⟨f, hf, rfl⟩ := (h.slots id slot).mp hby
  have hag := h.cached slot f hf
  have hdone := h.happens hf (f.removePin owner) (.released owner f.id) (w.file f.id) rfl rfl
    ⟨by simp [PageView.step, List.length_erase_of_mem hguard, hag.pins, Frame.removePin],
      hag.content, hag.dirty⟩ trivial (h.image f.id)
  rw [update_eq_self] at hdone
  simp only [hf]
  exact hdone

lemma withPage_spec :
    Ends w (withPage owner id) (fun _ w' => w'.Coherent disk) (·.Coherent disk) := by
  rw [withPage, ends_bind, slot, ends_get_bind]
  rcases hby : w.byPage id with _ | slot
  · exact h
  obtain ⟨f, hf, rfl⟩ := (h.slots id slot).mp hby
  have hag := h.cached slot f hf
  have hdone := h.happens hf f (.observed owner f.id f.page) (w.file f.id) rfl rfl
    ⟨hag.pins, hag.content, hag.dirty⟩ hag.content (h.image f.id)
  rw [update_eq_self, PoolWorld.set_frame_self hf] at hdone
  rw [ends_pure, ends_bind_of_ok (frame_of_get hf)]
  exact hdone

lemma withPageMut_spec {change : Page → Page} :
    Ends w (withPageMut owner id change) (fun _ w' => w'.Coherent disk) (·.Coherent disk) := by
  have hwaiting : ∀ waiting, ({ w with waiting := waiting } : PoolWorld).Coherent disk :=
    fun _ => ⟨h.slots, h.cached, h.absent, h.image, h.allowed⟩
  rw [withPageMut, ends_get_bind]
  rcases hby : w.byPage id with _ | slot
  · exact hwaiting _
  obtain ⟨f, hf, rfl⟩ := (h.slots id slot).mp hby
  have hag := h.cached slot f hf
  simp only [ends_bind_of_ok (frame_of_get hf)]
  by_cases hmine : f.pinsOf owner > 1
  · rw [if_pos hmine]
    exact hwaiting _
  rw [if_neg hmine]
  by_cases hfree : f.pinsInTheWay owner w.waiting = 0
  · rw [if_pos hfree]
    have hdone := (hwaiting (w.waiting.filter (· ≠ owner))).happens hf
      { f with page := change f.page } (.changed f.id (change f.page)) (w.file f.id) rfl rfl
      ⟨hag.pins, rfl, hag.dirty⟩ trivial (h.image f.id)
    rw [update_eq_self] at hdone
    exact hdone
  rw [if_neg hfree]
  split
  · exact hwaiting _
  · exact h

lemma markDirty_spec {recLsn : Lsn} :
    Ends w (markDirty id recLsn) (fun _ w' => w'.Coherent disk) (·.Coherent disk) := by
  rw [markDirty, ends_get_bind]
  rcases hby : w.byPage id with _ | slot
  · exact h
  obtain ⟨f, hf, rfl⟩ := (h.slots id slot).mp hby
  have hag := h.cached slot f hf
  simp only [ends_bind_of_ok (frame_of_get hf)]
  by_cases hpins : f.pins = 0
  · rw [if_pos hpins]
    exact h
  rw [if_neg hpins]
  generalize (if recLsn > f.page.lsn then { f.page with lsn := recLsn } else f.page) = page
  have hlt := (List.getElem?_eq_some_iff.mp hf).1
  -- the change of the number, then the mark
  have hchanged := h.happens hf { f with page := page } (.changed f.id page) (w.file f.id) rfl rfl
    ⟨hag.pins, rfl, hag.dirty⟩ trivial (h.image f.id)
  rw [update_eq_self] at hchanged
  have hf' : (w.frames.set slot { f with page := page })[slot]? = some { f with page := page } := by
    simp [hlt]
  have hag' := hchanged.cached slot _ hf'
  have hmarked := hchanged.happens hf' { f with dirty := true, page := page } (.marked f.id)
    (w.file f.id) rfl rfl ⟨hag'.pins, hag'.content, rfl⟩ trivial (hchanged.image f.id)
  rw [update_eq_self] at hmarked
  simp only [List.set_set] at hmarked
  exact hmarked

lemma setInProgress_spec {b : Bool} :
    Ends w (setInProgress id b) (fun _ w' => w'.Coherent disk) (·.Coherent disk) := by
  rw [setInProgress, ends_get_bind]
  rcases hby : w.byPage id with _ | slot
  · cases b <;> exact h
  obtain ⟨f, hf, rfl⟩ := (h.slots id slot).mp hby
  simp only [ends_bind_of_ok (frame_of_get hf)]
  exact h.setFrame hf { f with inProgress := b } rfl rfl rfl rfl

lemma flush_spec : Ends w (flush id fault) (fun _ w' => w'.Coherent disk) (·.Coherent disk) := by
  rw [flush, ends_get_bind]
  rcases hby : w.byPage id with _ | slot
  · exact h
  obtain ⟨f, hf, rfl⟩ := (h.slots id slot).mp hby
  rw [ends_bind]
  exact (writeIfNeeded_spec h hf fault).mono (fun _ _ hw => hw.coherent) fun _ hw => hw

lemma flushAll_spec {fault : Option (ℕ × Image)} :
    Ends w (flushAll fault) (fun _ w' => w'.Coherent disk) (·.Coherent disk) := by
  rw [flushAll, ends_get_bind]
  refine Ends.forM (fun slot _ w' hw' => ?_) h
  rw [ends_bind]
  cases hf : w'.frames[slot]? with
  | none =>
    rw [writeIfNeeded, ends_bind]
    simpa [frame, hf, Ends] using hw'
  | some f => exact (writeIfNeeded_spec hw' hf _).mono (fun _ _ hw => hw.coherent) fun _ hw => hw

end Pool

/-! ### Every run -/

lemma PoolWorld.Coherent.exec {w w' : PoolWorld} (h : w.Coherent disk) (a : PoolAction)
    (hs : w.exec a = some w') : w'.Coherent disk := by
  cases a <;> simp only [PoolWorld.exec, ite_none_right_eq_some, some.injEq] at hs
  case pin t id readOk fault => exact hs ▸ (Pool.pin_spec t id readOk fault h).state
  case unpin t id => exact hs.2 ▸ (Pool.unpin_spec h hs.1).state
  case withPage t id => exact hs.2 ▸ (Pool.withPage_spec h).state
  case withPageMut t id change => exact hs.2 ▸ (Pool.withPageMut_spec h).state
  case markDirty id recLsn => exact hs ▸ (Pool.markDirty_spec h).state
  case setInProgress id b => exact hs ▸ (Pool.setInProgress_spec h).state
  case flush id fault => exact hs ▸ (Pool.flush_spec h).state
  case flushAll fault => exact hs ▸ (Pool.flushAll_spec h).state
  case sync lsn => exact hs ▸ ⟨h.slots, h.cached, h.absent, h.image, h.allowed⟩

/-- What the users of the pool may rely on. -/
structure PoolWorld.Safe (disk : PageId → Image) (w : PoolWorld) : Prop where
  /-- A page goes to the file, whether the write fails or not, when the journal is durable up to it
  and its frame is not flagged. -/
  writes : ∀ before e after id page durable inProgress, w.log = before ++ e :: after →
    (e = .wrote id page durable inProgress ∨ ∃ image, e = .tore id image page durable inProgress) →
    (viewOf before id).content = some page ∧ page.lsn ≤ durable ∧ inProgress = false
  /-- A page that loses its frame has no guard on it, and nothing of it is owed to the file. -/
  evictions : ∀ before id after, w.log = before ++ .evicted id :: after →
    (viewOf before id).guards = [] ∧ (viewOf before id).owed = false
  pinned : ∀ id, (viewOf w.log id).guards ≠ [] →
    ∃ slot f, w.byPage id = some slot ∧ w.frames[slot]? = some f ∧ f.id = id
  /-- Content that was marked dirty is in a dirty frame until it is written. -/
  owed : ∀ id, (viewOf w.log id).owed = true →
    ∃ slot f, w.byPage id = some slot ∧ w.frames[slot]? = some f ∧ f.id = id ∧ f.dirty = true ∧
      (viewOf w.log id).content = some f.page
  /-- A reader gets what was last written to the page through the pool since it was loaded. -/
  reads : ∀ before t id page after, w.log = before ++ .observed t id page :: after →
    (viewOf before id).content = some page
  /-- A page is loaded when it has no other copy, with the content of the file. -/
  loads : ∀ before id page after, w.log = before ++ .loaded id page :: after →
    (viewOf before id).content = none ∧ (viewOf before id).image.getD (disk id) = some page

/-- In every state of every run the pool keeps the write rule and is coherent. -/
theorem buffer_pool_is_coherent {capacity pageCount : ℕ} {durable : Lsn} {w : PoolWorld}
    (h : (bufferPool capacity pageCount disk durable).Reachable Machine.Any w) : w.Safe disk := by
  have hc : w.Coherent disk := h.invariant (P := fun w => w.Coherent disk)
    (.opened capacity pageCount disk durable) fun _ a _ hs _ hstep => hs.exec a hstep
  have hheld : ∀ id, w.byPage id ≠ none → ∃ slot f, w.byPage id = some slot ∧
      w.frames[slot]? = some f ∧ f.id = id := by
    intro id hid
    obtain ⟨slot, hslot⟩ := ne_none_iff_exists'.mp hid
    obtain ⟨f, hf, hfid⟩ := (hc.slots id slot).mp hslot
    exact ⟨slot, f, hslot, hf, hfid⟩
  refine ⟨fun before e after id page durable inProgress heq he => ?_,
    fun before id after heq => hc.allowed _ _ _ heq,
    fun id hid => hheld id fun hnone => hid (hc.absent id hnone).1, fun id hid => ?_,
    fun before t id page after heq => hc.allowed _ _ _ heq,
    fun before id page after heq => ?_⟩
  · rcases he with rfl | ⟨image, rfl⟩ <;> exact hc.allowed _ _ _ heq
  · obtain ⟨slot, f, hslot, hf, rfl⟩ := hheld id
      fun hnone => by simp [(hc.absent id hnone).2.2] at hid
    have hag := hc.cached slot f hf
    exact ⟨slot, f, hslot, hf, rfl, hag.dirty.symm.trans hid, hag.content⟩
  · obtain ⟨hcontent, himage, -⟩ := hc.allowed _ _ _ heq
    exact ⟨hcontent, himage⟩

/-- Two pages of a file, and a pool of one frame. -/
def twoPages : PageId → Image
  | 0 => some ⟨.heap, 0, 0, 0, 32, []⟩
  | 1 => some ⟨.heap, 1, 0, 0, 32, []⟩
  | _ => none

/-- Page 0 is changed, given up for page 1 once the journal is durable, then read again. -/
def changeAndEvict : List PoolAction :=
  [.pin 7 0 true none, .withPageMut 7 0 fun page => { page with slotCount := 5 },
    .markDirty 0 1, .unpin 7 0, .pin 7 1 true none, .sync 1, .pin 7 1 true none, .unpin 7 1,
    .pin 7 0 true none, .withPage 7 0]

/-- The page comes back as it was changed. -/
theorem changeAndEvict_is_coherent : ∃ w,
    (bufferPool 1 2 twoPages 0).Reachable Machine.Any w ∧
    PoolEvent.observed 7 0 ⟨.heap, 0, 1, 5, 32, []⟩ ∈ w.log ∧ w.Safe twoPages := by
  obtain ⟨w, hw, hp⟩ := (bufferPool 1 2 twoPages 0).exists_reachable
    (fun _ _ => true) changeAndEvict
    (fun w => decide (PoolEvent.observed 7 0 ⟨.heap, 0, 1, 5, 32, []⟩ ∈ w.log))
    (fun _ _ _ => trivial) (by decide +kernel)
  exact ⟨w, hw, of_decide_eq_true hp, buffer_pool_is_coherent hw⟩

end VaubanDB
