import VaubanDB.Disk.Allocator

/-!
The allocator is safe, crashes included.

`AllocWorld.Sound w c l` is about the files, since they are what a crash leaves: the control file
holds the block `c`, the free list it names is `l`, and the pages of `l` are synced, not changed in
the pool and not in use.  A page is written and synced before the control file names it, and let go
by the control file before its owner gets it.
-/

namespace VaubanDB

open Option

/-- What a page of the file says as a cell of the free list. -/
def freeLink (pages : PageId → Image) (id : PageId) : Option (Option PageId) :=
  match pages id with
  | some page => if page.kind = .free then some (nextFree page) else none
  | none => none

variable {log : List AllocEvent}

lemma mem_inUse_handedOut {id x : PageId} :
    x ∈ inUse (log ++ [.handedOut id]) ↔ x = id ∨ x ∈ inUse log := by
  simp [inUse]

lemma mem_inUse_freed {id x : PageId} :
    x ∈ inUse (log ++ [.freed id]) ↔ x ≠ id ∧ x ∈ inUse log := by
  simp [inUse, and_comm]

/-- What may happen to a page: it is handed out when it is not in use. -/
def Available (before : List AllocEvent) : AllocEvent → Prop
  | .handedOut id => id ∉ inUse before
  | .freed _ => True

namespace AllocWorld

variable {w : AllocWorld} {c : Control} {l : List PageId} {id : PageId}

/-- The page is on the data file, and the pool has no other content for it. -/
def OnFile (w : AllocWorld) (id : PageId) (page : Page) : Prop :=
  w.dirty id = false ∧ w.data.pages id = some page

/-- The page is a free one that links to the head of the list. -/
def Relinked (c : Control) (page : Page) : Prop :=
  page.kind = .free ∧ nextFree page = c.freeHead

/-- What is known of the call under way. -/
def PhaseSound (w : AllocWorld) (c : Control) (l : List PageId) : AllocPhase → Prop
  | .idle => w.control = c ∧ w.data.len ≤ c.nextPageId
  | .detached head next => w.control = c ∧ w.data.len ≤ c.nextPageId ∧
      ∃ rest, l = head :: rest ∧ freeLink w.data.pages head = some next
  | .growing => w.control = c ∧ w.data.len ≤ c.nextPageId ∧ c.nextPageId < maxU64
  | .extended => w.control = c ∧ w.data.len = c.nextPageId + 1 ∧ c.nextPageId < maxU64 ∧
      w.cached c.nextPageId = none ∧ w.data.pages c.nextPageId = none
  | .grown => w.control = c ∧ w.data.len = c.nextPageId + 1 ∧ c.nextPageId < maxU64
  | .handing id updated => updated = c ∧ w.data.len ≤ c.nextPageId ∧ id < c.nextPageId ∧
      id ∉ l ∧ id ∉ inUse w.log
  | .freeing id => w.control = c ∧ w.data.len ≤ c.nextPageId ∧ id ∈ inUse w.log ∧
      id < w.data.len ∧ ∃ page, Relinked c page ∧
        (w.cached id = some page ∧ w.dirty id = true ∨ w.OnFile id page)
  | .flushed id => w.control = c ∧ w.data.len ≤ c.nextPageId ∧ id ∈ inUse w.log ∧
      id < w.data.len ∧ ∃ page, Relinked c page ∧ w.OnFile id page
  | .synced id => w.control = c ∧ w.data.len ≤ c.nextPageId ∧ id ∈ inUse w.log ∧
      id < w.data.syncedLen ∧ id ∉ w.data.unsynced ∧ ∃ page, Relinked c page ∧ w.OnFile id page
  | .linking updated => updated = c ∧ w.data.len ≤ c.nextPageId

/-- The files hold the control block `c` and the free list `l`. -/
structure Sound (w : AllocWorld) (c : Control) (l : List PageId) : Prop where
  ctl : w.ctl = c.toBytes
  fits : c.Fits
  chain : Threaded (freeLink w.data.pages) c.freeHead l
  nodup : l.Nodup
  below : ∀ id ∈ l, id < c.nextPageId
  durable : ∀ id ∈ l, id < w.data.syncedLen ∧ id ∉ w.data.unsynced
  clean : ∀ id ∈ l, ∃ page, w.OnFile id page
  unused : ∀ id ∈ l, id ∉ inUse w.log
  used : ∀ id ∈ inUse w.log, id < c.nextPageId
  synced_le : w.data.syncedLen ≤ w.data.len
  cached : ∀ id page, w.cached id = some page → id < w.data.len
  dirty : ∀ id, w.dirty id = true → ∃ page, w.cached id = some page
  same : ∀ id page, w.cached id = some page → w.dirty id = false → w.data.pages id = some page
  phase : w.PhaseSound c l w.phase
  handed : Justified Available w.log

namespace Sound

lemma created : AllocWorld.created.Sound .fresh [] where
  ctl := rfl
  fits := Control.fits_fresh
  chain := trivial
  nodup := .nil
  below := by simp
  durable := by simp
  clean := by simp
  unused := by simp
  used := by simp [AllocWorld.created, inUse]
  synced_le := le_rfl
  cached := by simp [AllocWorld.created]
  dirty := by simp [AllocWorld.created]
  same := by simp [AllocWorld.created]
  phase := ⟨rfl, le_rfl⟩
  handed := .nil

variable (h : w.Sound c l)
include h

lemma stands {p : AllocPhase} (hp : w.phase = p) : w.PhaseSound c l p := hp ▸ h.phase

lemma others {data : DataFile} {cached : PageId → Option Page}
    {dirty : PageId → Bool} {w' : AllocWorld}
    (hw' : w' = { w with data := data, cached := cached, dirty := dirty })
    (hlen : data.len = w.data.len) (hsynced : w.data.syncedLen ≤ data.syncedLen)
    (hle : data.syncedLen ≤ data.len)
    (hkeep : ∀ x page, x ∈ l ∨ w.phase.taken = some x → w.OnFile x page →
      w'.OnFile x page ∧ (x ∉ w.data.unsynced → x ∉ data.unsynced))
    (htaken : ∀ x page, w.phase.taken = some x → w.cached x = some page → w.dirty x = true →
      cached x = some page ∧ dirty x = true ∨ w'.OnFile x page)
    (hcached : ∀ x page, cached x = some page → x < data.len ∧
      (dirty x = false → data.pages x = some page))
    (hdirty : ∀ x, dirty x = true → ∃ page, cached x = some page)
    (hfresh : w.phase = .extended → w.cached c.nextPageId = none →
      w.data.pages c.nextPageId = none →
      cached c.nextPageId = none ∧ data.pages c.nextPageId = none) : w'.Sound c l := by
  have hlink : ∀ x ∈ l, freeLink data.pages x = freeLink w.data.pages x := by
    intro x hx
    obtain ⟨page, hpage⟩ := h.clean x hx
    have hpage' := (hkeep x page (.inl hx) hpage).1
    subst hw'
    rw [freeLink, freeLink, hpage.2, hpage'.2]
  subst hw'
  refine ⟨h.ctl, h.fits, h.chain.congr hlink, h.nodup, h.below, fun x hx => ?_, fun x hx => ?_,
    h.unused, h.used, hle, fun x page hx => (hcached x page hx).1, hdirty,
    fun x page hx => (hcached x page hx).2, ?_, h.handed⟩
  · obtain ⟨page, hpage⟩ := h.clean x hx
    obtain ⟨hlt, hun⟩ := h.durable x hx
    exact ⟨hlt.trans_le hsynced, (hkeep x page (.inl hx) hpage).2 hun⟩
  · obtain ⟨page, hpage⟩ := h.clean x hx
    exact ⟨page, (hkeep x page (.inl hx) hpage).1⟩
  · simp only
    cases hp : w.phase with
    | detached head next =>
      obtain ⟨hc, hl, rest, hrest, hnext⟩ := h.stands hp
      exact ⟨hc, hlen.trans_le hl, rest, hrest, (hlink head (by simp [hrest])).trans hnext⟩
    | extended =>
      obtain ⟨hc, hl, hmax, hca, hpa⟩ := h.stands hp
      exact ⟨hc, hlen.trans hl, hmax, hfresh hp hca hpa⟩
    | freeing x =>
      rw [hp] at hkeep htaken
      obtain ⟨hc, hl, hin, hx, page, hre, hheld⟩ := h.stands hp
      refine ⟨hc, hlen.trans_le hl, hin, hx.trans_eq hlen.symm, page, hre, ?_⟩
      rcases hheld with ⟨hca, hdi⟩ | hon
      · exact htaken x page rfl hca hdi
      · exact .inr (hkeep x page (.inr rfl) hon).1
    | flushed x =>
      rw [hp] at hkeep
      obtain ⟨hc, hl, hin, hx, page, hre, hon⟩ := h.stands hp
      exact ⟨hc, hlen.trans_le hl, hin, hx.trans_eq hlen.symm, page, hre,
        (hkeep x page (.inr rfl) hon).1⟩
    | synced x =>
      rw [hp] at hkeep
      obtain ⟨hc, hl, hin, hx, hun, page, hre, hon⟩ := h.stands hp
      obtain ⟨hon', hun'⟩ := hkeep x page (.inr rfl) hon
      exact ⟨hc, hlen.trans_le hl, hin, hx.trans_le hsynced, hun' hun, page, hre, hon'⟩
    | _ => simpa [PhaseSound, hlen] using h.stands hp

lemma load {page : Page} (hpin : w.pin id = some page) : (w.cache id page).Sound c l := by
  cases hcached : w.cached id with
  | some p =>
    obtain rfl : p = page := by simpa [pin, hcached] using hpin
    have : w.cache id p = w := by simp [cache, ← hcached]
    rwa [this]
  | none =>
    have hclean : w.dirty id = false := by
      by_contra hd
      obtain ⟨p, hp⟩ := h.dirty id (by simpa using hd)
      simp [hcached] at hp
    obtain ⟨hlen, hpage⟩ : id < w.data.len ∧ w.data.pages id = some page := by
      simp only [pin, hcached, DataFile.read] at hpin
      grind
    refine h.others rfl rfl le_rfl h.synced_le (fun x q _ hq => ⟨hq, fun hx => hx⟩)
      (fun x q _ hq hd => ?_) (fun x q hq => ?_) (fun x hx => ?_) fun _ hca hpa => ?_
    · left
      have hne : x ≠ id := by
        rintro rfl
        simp [hclean] at hd
      simp [hne, hq, hd]
    · by_cases hx : x = id
      · subst hx
        obtain rfl : page = q := by simpa using hq
        exact ⟨hlen, fun _ => hpage⟩
      · have hq' : w.cached x = some q := by simpa [hx] using hq
        exact ⟨h.cached x q hq', h.same x q hq'⟩
    · obtain ⟨q, hq⟩ := h.dirty x hx
      have hne : x ≠ id := by
        rintro rfl
        simp [hclean] at hx
      exact ⟨q, by simp [hne, hq]⟩
    · have hne : c.nextPageId ≠ id := by
        rintro rfl
        simp [hpa] at hpage
      simpa [hne] using ⟨hca, hpa⟩

lemma evict (hd : w.dirty id = false) :
    Sound { w with cached := Function.update w.cached id none } c l := by
  have hne : ∀ x, w.dirty x = true → x ≠ id := by
    rintro x hx rfl
    simp [hd] at hx
  refine h.others rfl rfl le_rfl h.synced_le (fun x q _ hq => ⟨hq, fun hx => hx⟩)
    (fun x q _ hq hdx => .inl ⟨by simp [hne x hdx, hq], hdx⟩) (fun x q hq => ?_) (fun x hx => ?_)
    fun _ hca hpa => ⟨by by_cases hx : c.nextPageId = id <;> simp [Function.update, hx, hca], hpa⟩
  · have hxid : x ≠ id := by
      rintro rfl
      simp at hq
    have hq' : w.cached x = some q := by simpa [hxid] using hq
    exact ⟨h.cached x q hq', h.same x q hq'⟩
  · obtain ⟨q, hq⟩ := h.dirty x hx
    exact ⟨q, by simp [hne x hx, hq]⟩

lemma writeBack (id : PageId) : (w.writeBack id).Sound c l := by
  unfold AllocWorld.writeBack
  rcases hcached : w.cached id with _ | page
  · exact h
  simp only
  split
  · rename_i hd
    have hne : ∀ x q, w.OnFile x q → x ≠ id := by
      rintro x q ⟨hq, -⟩ rfl
      simp [hd] at hq
    refine h.others rfl rfl le_rfl h.synced_le (fun x q _ hq => ?_) (fun x q _ hq hdx => ?_)
      (fun x q hq => ?_) (fun x hx => ?_) fun _ hca hpa => ?_
    · have hxid := hne x q hq
      simpa [OnFile, DataFile.write, hxid] using hq
    · by_cases hxid : x = id
      · subst hxid
        right
        obtain rfl : page = q := by simpa [hcached] using hq
        simp [OnFile, DataFile.write]
      · left
        simp [hxid, hq, hdx]
    · refine ⟨h.cached x q hq, fun hx => ?_⟩
      by_cases hxid : x = id
      · subst hxid
        simpa [DataFile.write, hcached] using hq
      · simpa [DataFile.write, hxid] using h.same x q hq (by simpa [hxid] using hx)
    · refine h.dirty x ?_
      by_cases hxid : x = id
      · simp [hxid] at hx
      · simpa [hxid] using hx
    · have hxid : c.nextPageId ≠ id := by
        rintro rfl
        simp [hca] at hcached
      simpa [DataFile.write, hxid] using ⟨hca, hpa⟩
  · exact h

lemma ownerWrites {page : Page} (hin : id ∈ inUse w.log)
    (htaken : w.phase.taken ≠ some id) (hlen : id < w.data.len) :
    Sound { w.cache id page with dirty := Function.update w.dirty id true } c l := by
  have hne : ∀ x, x ∈ l ∨ w.phase.taken = some x → x ≠ id := by
    rintro x (hx | hx) rfl
    · exact h.unused x hx hin
    · exact htaken hx
  refine h.others rfl rfl le_rfl h.synced_le (fun x q hx hq => ?_) (fun x q hx hq hd => ?_)
    (fun x q hq => ?_) (fun x hx => ?_) fun _ hca hpa => ?_
  · simpa [OnFile, hne x hx, cache] using hq
  · left
    simp [cache, hne x (.inr hx), hq, hd]
  · by_cases hxid : x = id
    · subst hxid
      exact ⟨hlen, by simp⟩
    · have hq' : w.cached x = some q := by simpa [cache, hxid] using hq
      exact ⟨h.cached x q hq', by simpa [cache, hxid] using h.same x q hq'⟩
  · by_cases hxid : x = id
    · exact ⟨page, by simp [cache, hxid]⟩
    · obtain ⟨q, hq⟩ := h.dirty x (by simpa [hxid] using hx)
      exact ⟨q, by simp [cache, hxid, hq]⟩
  · simpa [cache, (h.used id hin).ne'] using ⟨hca, hpa⟩

lemma sync : Sound { w with data := w.data.sync } c l :=
  h.others rfl rfl h.synced_le le_rfl (fun x q _ hq => ⟨hq, by simp [DataFile.sync]⟩)
    (fun x q _ hq hd => .inl ⟨hq, hd⟩) (fun x q hq => ⟨h.cached x q hq, h.same x q hq⟩) h.dirty
    fun _ hca hpa => ⟨hca, hpa⟩

/-! ### The steps of the allocator -/

lemma setPhase {p : AllocPhase} (hp : w.PhaseSound c l p) :
    Sound { w with phase := p } c l :=
  { h with phase := by cases p <;> exact hp }

lemma allocate (hidle : w.phase = .idle) : w.allocate.Sound c l := by
  obtain ⟨hcontrol, hlen⟩ := h.stands hidle
  unfold AllocWorld.allocate
  cases hhead : w.control.freeHead with
  | some head =>
    simp only
    rcases hpin : w.pin head with _ | page
    · exact h
    have hload := h.load hpin
    simp only
    split
    · rename_i hkind
      refine hload.setPhase ⟨hcontrol, hlen, ?_⟩
      rw [hcontrol] at hhead
      obtain ⟨next, rest, rfl, hnext, -⟩ := (hhead ▸ h.chain : Threaded _ (some head) l).uncons
      obtain ⟨p, hd, hp⟩ := h.clean head (by simp)
      have hpage : page = p := by
        simp only [pin, DataFile.read] at hpin
        cases hca : w.cached head with
        | some q =>
          have := h.same head q hca hd
          grind
        | none => grind
      subst hpage
      refine ⟨rest, rfl, ?_⟩
      simp [freeLink, cache, hp, hkind]
    · exact hload
  | none =>
    simp only
    split
    · exact h
    · rename_i hmax
      refine h.setPhase ⟨hcontrol, hlen, ?_⟩
      rw [hcontrol] at hmax
      exact lt_of_le_of_ne h.fits.nextPageId hmax

lemma extend (hgrow : w.phase = .growing) : Sound { w with
      data := w.data.extendTo (w.control.nextPageId + 1)
      phase := .extended } c l := by
  obtain ⟨rfl, hlen, hmax⟩ := h.stands hgrow
  have hpages : ∀ x, x < w.data.len →
      (w.data.extendTo (w.control.nextPageId + 1)).pages x = w.data.pages x := by
    intro x hx
    simp [DataFile.extendTo, hx]
  have hlt : ∀ x ∈ l, x < w.data.len := fun x hx => (h.durable x hx).1.trans_le h.synced_le
  refine { h with
    chain := h.chain.congr fun x hx => ?_
    clean := fun x hx => ?_
    synced_le := ?_
    cached := fun x q hq => ?_
    same := fun x q hq hd => ?_
    phase := ⟨rfl, rfl, hmax, ?_, ?_⟩ }
  · simp only [freeLink, hpages x (hlt x hx)]
  · obtain ⟨q, hd, hq⟩ := h.clean x hx
    exact ⟨q, hd, (hpages x (hlt x hx)).trans hq⟩
  · exact h.synced_le.trans (hlen.trans (Nat.le_succ _))
  · exact (h.cached x q hq).trans_le (hlen.trans (Nat.le_succ _))
  · exact (hpages x (h.cached x q hq)).trans (h.same x q hq hd)
  · by_contra hne
    obtain ⟨q, hq⟩ := ne_none_iff_exists'.mp hne
    exact absurd (h.cached _ q hq) (by lia)
  · simp [DataFile.extendTo, hlen]

lemma writeGrown (hext : w.phase = .extended) : Sound { w with
      data := w.data.write w.control.nextPageId (grownPage w.control.nextPageId)
      phase := .grown } c l := by
  obtain ⟨rfl, hlen, hmax, hca, -⟩ := h.stands hext
  have hne : ∀ x ∈ l, x ≠ w.control.nextPageId := fun x hx => (h.below x hx).ne
  have hpages : ∀ x, x ≠ w.control.nextPageId →
      (w.data.write w.control.nextPageId (grownPage w.control.nextPageId)).pages x =
        w.data.pages x := by
    intro x hx
    simp [DataFile.write, hx]
  refine { h with
    chain := h.chain.congr fun x hx => ?_
    durable := fun x hx => ⟨(h.durable x hx).1, ?_⟩
    clean := fun x hx => ?_
    same := fun x q hq hd => ?_
    phase := ⟨rfl, hlen, hmax⟩ }
  · simp only [freeLink, hpages x (hne x hx)]
  · simpa [DataFile.write, hne x hx] using (h.durable x hx).2
  · obtain ⟨q, hd, hq⟩ := h.clean x hx
    exact ⟨q, hd, (hpages x (hne x hx)).trans hq⟩
  · have hx : x ≠ w.control.nextPageId := by
      rintro rfl
      simp [hca] at hq
    exact (hpages x hx).trans (h.same x q hq hd)

lemma writeControl_detached {head : PageId} {next : Option PageId}
    (hp : w.phase = .detached head next) : ∃ rest, ({ w with
      ctl := ({ w.control with freeHead := next } : Control).toBytes
      phase := .handing head { w.control with freeHead := next } } : AllocWorld).Sound
        { w.control with freeHead := next } rest := by
  obtain ⟨rfl, hlen, rest, rfl, hnext⟩ := h.stands hp
  obtain ⟨-, next', hnext', hrest⟩ := h.chain.of_cons
  obtain rfl : next = next' := by simpa [hnext] using hnext'
  obtain ⟨hnotin, hnodup⟩ := List.nodup_cons.mp h.nodup
  have hfits : ∀ x, next = some x → x < maxU64 := by
    rintro x rfl
    exact (h.below x (by simp [hrest.head_mem])).trans_le h.fits.nextPageId
  refine ⟨rest, rfl, h.fits.setFreeHead hfits, hrest, hnodup,
    fun x hx => h.below x (by simp [hx]), fun x hx => h.durable x (by simp [hx]),
    fun x hx => h.clean x (by simp [hx]), fun x hx => h.unused x (by simp [hx]), h.used,
    h.synced_le, h.cached, h.dirty, h.same, ?_, h.handed⟩
  exact ⟨rfl, hlen, h.below head (by simp), hnotin, h.unused head (by simp)⟩

lemma writeControl_grown (hp : w.phase = .grown) : ({ w with
      ctl := ({ w.control with nextPageId := w.control.nextPageId + 1 } : Control).toBytes
      phase := .handing w.control.nextPageId
        { w.control with nextPageId := w.control.nextPageId + 1 } } : AllocWorld).Sound
        { w.control with nextPageId := w.control.nextPageId + 1 } l := by
  obtain ⟨rfl, hlen, hmax⟩ := h.stands hp
  refine ⟨rfl, h.fits.setNextPageId hmax, h.chain, h.nodup,
    fun x hx => (h.below x hx).trans (Nat.lt_succ_self _), h.durable, h.clean, h.unused,
    fun x hx => (h.used x hx).trans (Nat.lt_succ_self _), h.synced_le, h.cached, h.dirty, h.same,
    ?_, h.handed⟩
  exact ⟨rfl, hlen.le, Nat.lt_succ_self _, fun hin => (h.below _ hin).false,
    fun hin => (h.used _ hin).false⟩

lemma writeControl_synced (hp : w.phase = .synced id) : ({ w with
      ctl := ({ w.control with freeHead := some id } : Control).toBytes
      phase := .linking { w.control with freeHead := some id }
      log := w.log ++ [.freed id] } : AllocWorld).Sound
        { w.control with freeHead := some id } (id :: l) := by
  obtain ⟨rfl, hlen, hin, hsynced, hun, page, ⟨hkind, hnext⟩, hon⟩ := h.stands hp
  have hbelow := h.used id hin
  have hlink : freeLink w.data.pages id = some w.control.freeHead := by
    simp [freeLink, hon.2, hkind, hnext]
  refine ⟨rfl, h.fits.setFreeHead ?_, .cons hlink h.chain, ?_, ?_, ?_, ?_, ?_, ?_, h.synced_le,
    h.cached, h.dirty, h.same, ⟨rfl, hlen⟩, h.handed.snoc trivial⟩
  · rintro x hx
    obtain rfl : id = x := by simpa using hx
    exact hbelow.trans_le h.fits.nextPageId
  · exact List.nodup_cons.mpr ⟨fun hl => h.unused id hl hin, h.nodup⟩
  · simpa [hbelow] using h.below
  · simpa [hsynced, hun] using h.durable
  · rintro x hx
    rcases List.mem_cons.mp hx with rfl | hx
    · exact ⟨page, hon⟩
    · exact h.clean x hx
  · intro x hx
    rw [mem_inUse_freed]
    rintro ⟨hne, hused⟩
    rcases List.mem_cons.mp hx with rfl | hx
    · exact hne rfl
    · exact h.unused x hx hused
  · intro x hx
    exact h.used x (mem_inUse_freed.mp hx).2

variable {updated : Control}

lemma publish_handing (hp : w.phase = .handing id updated) :
    Sound { w with
      control := updated
      phase := .idle
      log := w.log ++ [.handedOut id] } c l := by
  obtain ⟨rfl, hlen, hbelow, hl, hunused⟩ := h.stands hp
  refine { h with
    unused := fun x hx => ?_
    used := fun x hx => ?_
    phase := ⟨rfl, hlen⟩
    handed := h.handed.snoc hunused }
  · rw [mem_inUse_handedOut]
    rintro (rfl | hused)
    · exact hl hx
    · exact h.unused x hx hused
  · rcases mem_inUse_handedOut.mp hx with rfl | hused
    · exact hbelow
    · exact h.used x hused

lemma free (hidle : w.phase = .idle) (hin : id ∈ inUse w.log) (last : Lsn) :
    (w.free id last).Sound c l := by
  obtain ⟨hcontrol, hlen⟩ := h.stands hidle
  unfold AllocWorld.free
  split
  · exact h
  · cases hpin : w.pin id with
    | none => exact h
    | some page =>
      have hid : id < w.data.len := by
        cases hca : w.cached id with
        | some q => exact h.cached id q hca
        | none =>
          simp only [pin, hca, DataFile.read] at hpin
          grind
      refine ((h.ownerWrites hin (by simp [hidle, AllocPhase.taken]) hid).setPhase
        (p := .freeing id) ⟨hcontrol, hlen, hin, hid, freedPage page w.control.freeHead last, ?_,
          .inl ⟨by simp [cache], by simp⟩⟩)
      refine ⟨freedPage_kind _ _ _, ?_⟩
      rw [hcontrol]
      refine nextFree_freedPage ?_ h.fits.freeHead
      exact h.fits.words _ (by simp [Control.words])

lemma flush (hp : w.phase = .freeing id) :
    Sound { w.writeBack id with phase := .flushed id } c l := by
  have hback := h.writeBack id
  have hp' : (w.writeBack id).phase = .freeing id := by
    unfold AllocWorld.writeBack
    split
    · split <;> exact hp
    · exact hp
  obtain ⟨hcontrol, hlen, hin, hid, page, hre, hheld⟩ := hback.stands hp'
  refine hback.setPhase (p := .flushed id) ⟨hcontrol, hlen, hin, hid, page, hre, ?_⟩
  rcases hheld with ⟨hca, hd⟩ | hon
  · -- a page is not dirty once it is written back
    exfalso
    unfold AllocWorld.writeBack at hca hd
    rcases hc : w.cached id with _ | q
    · simp [hc] at hca
    simp only [hc] at hca hd
    split at hd
    · simp at hd
    · exact absurd hd ‹_›
  · exact hon

lemma syncData (hp : w.phase = .flushed id) :
    Sound { w with data := w.data.sync, phase := .synced id } c l := by
  obtain ⟨hcontrol, hlen, hin, hid, page, hre, hon⟩ := h.stands hp
  exact h.sync.setPhase (p := .synced id)
    ⟨hcontrol, hlen, hin, hid, by simp [DataFile.sync], page, hre, hon⟩

lemma counters (hidle : w.phase = .idle) (hnext : updated.nextPageId = w.control.nextPageId)
    (hhead : updated.freeHead = w.control.freeHead) (hwords : ∀ n ∈ updated.words, n ≤ maxU64)
    (hroot : updated.metaRoot ≠ some maxU64) :
    ({ w with control := updated, ctl := updated.toBytes } : AllocWorld).Sound updated l := by
  obtain ⟨rfl, hlen⟩ := h.stands hidle
  refine ⟨rfl, ⟨hwords, hhead ▸ h.fits.freeHead, hroot⟩, hhead ▸ h.chain, h.nodup,
    fun x hx => hnext ▸ h.below x hx, h.durable, h.clean, h.unused, fun x hx => hnext ▸ h.used x hx,
    h.synced_le, h.cached, h.dirty, h.same, ?_, h.handed⟩
  show AllocWorld.PhaseSound _ _ _ w.phase
  rw [hidle]
  exact ⟨rfl, hlen.trans_eq hnext.symm⟩

lemma reopen {torn : List (PageId × Image)} {len : ℕ}
    (hsynced : w.data.syncedLen ≤ len) (hlen : len ≤ w.data.len) {w' : AllocWorld}
    (hw' : w.reopen torn len = some w') : w'.Sound (countPages len c) l := by
  simp only [AllocWorld.reopen, h.ctl, Control.fromBytes_toBytes h.fits, some.injEq] at hw'
  subst hw'
  have hlenU : len ≤ maxU64 := by
    have hbound : w.data.len ≤ maxU64 := by
      have hnext := h.fits.nextPageId
      cases hp : w.phase <;> have hphase := h.stands hp <;> simp only [PhaseSound] at hphase <;> lia
    exact hlen.trans hbound
  have hcount : (countPages len c).Fits ∧ (countPages len c).freeHead = c.freeHead ∧
      c.nextPageId ≤ (countPages len c).nextPageId ∧ len ≤ (countPages len c).nextPageId := by
    unfold countPages
    split
    · exact ⟨h.fits, rfl, le_rfl, ‹_›⟩
    · rename_i hgt
      exact ⟨h.fits.setNextPageId hlenU, rfl, (not_le.mp hgt).le, le_rfl⟩
  obtain ⟨hfits, hhead, hnext, hlen'⟩ := hcount
  have hpages : ∀ x ∈ l, (w.data.crash torn len).pages x = w.data.pages x := by
    intro x hx
    simp [DataFile.crash, (h.durable x hx).2]
  refine ⟨?_, hfits, ?_, h.nodup, fun x hx => (h.below x hx).trans_le hnext, fun x hx => ?_,
    fun x hx => ?_, h.unused, fun x hx => (h.used x hx).trans_le hnext, le_rfl, by simp, by simp,
    by simp, ⟨rfl, hlen'⟩, h.handed⟩
  · unfold countPages
    split <;> rfl
  · rw [hhead]
    refine h.chain.congr fun x hx => ?_
    simp only [freeLink, hpages x hx]
  · exact ⟨(h.durable x hx).1.trans_le hsynced, by simp [DataFile.crash]⟩
  · obtain ⟨q, -, hq⟩ := h.clean x hx
    exact ⟨q, rfl, (hpages x hx).trans hq⟩

lemma exec (a : AllocAction) {w' : AllocWorld} (hs : w.exec a = some w') :
    ∃ c' l', w'.Sound c' l' := by
  cases a <;> simp only [AllocWorld.exec, ite_none_right_eq_some, ite_none_left_eq_some, some.injEq,
    map_eq_some_iff] at hs
  case allocate => exact ⟨c, l, hs.2 ▸ h.allocate hs.1⟩
  case extend =>
    obtain ⟨hgrow, hs⟩ := hs
    split at hs <;> cases hs
    · exact ⟨c, l, h.setPhase ⟨(h.stands hgrow).1, (h.stands hgrow).2.1⟩⟩
    · exact ⟨c, l, h.extend hgrow⟩
  case writeGrown => exact ⟨c, l, hs.2 ▸ h.writeGrown hs.1⟩
  case writeControl =>
    rw [writeControl] at hs
    cases hp : w.phase <;> simp only [hp] at hs <;> cases hs
    · exact ⟨_, h.writeControl_detached hp⟩
    · exact ⟨_, _, h.writeControl_grown hp⟩
    · exact ⟨_, _, h.writeControl_synced hp⟩
  case publish =>
    cases hp : w.phase <;> simp only [hp] at hs <;> cases hs
    · exact ⟨_, _, h.publish_handing hp⟩
    · obtain ⟨rfl, hlen⟩ := h.stands hp
      exact ⟨_, _, { h with phase := ⟨rfl, hlen⟩ }⟩
  case free id last => exact ⟨c, l, hs.2 ▸ h.free hs.1.1 hs.1.2 last⟩
  case flush =>
    cases hp : w.phase <;> simp only [hp] at hs <;> cases hs
    exact ⟨c, l, h.flush hp⟩
  case syncData =>
    cases hp : w.phase <;> simp only [hp] at hs <;> cases hs
    exact ⟨c, l, h.syncData hp⟩
  case ownerWrites id page => exact ⟨c, l, hs.2 ▸ h.ownerWrites hs.1.1 hs.1.2.1 hs.1.2.2⟩
  case load id =>
    obtain ⟨page, hpin, rfl⟩ := hs
    exact ⟨c, l, h.load hpin⟩
  case writeBack id => exact ⟨c, l, hs ▸ h.writeBack id⟩
  case evict id => exact ⟨c, l, hs.2 ▸ h.evict (by simpa using hs.1)⟩
  case sync => exact ⟨c, l, hs ▸ h.sync⟩
  case counters updated =>
    obtain ⟨⟨hidle, hnext, hhead, hwords, hroot⟩, rfl⟩ := hs
    exact ⟨updated, l, h.counters hidle hnext hhead hwords hroot⟩
  case crash torn len => exact ⟨_, _, h.reopen hs.1.1 hs.1.2 hs.2⟩

end Sound

end AllocWorld

/-! ### The allocator is safe -/

/-- The free list the control file names, seen on the data file. -/
structure AllocWorld.FreeList (w : AllocWorld) (c : Control) (l : List PageId) : Prop where
  chain : Threaded (freeLink w.data.pages) c.freeHead l
  nodup : l.Nodup
  /-- The pages are free ones, below the counter, and not in use. -/
  free : ∀ id ∈ l, ∃ page, w.data.pages id = some page ∧ page.kind = .free
  below : ∀ id ∈ l, id < c.nextPageId
  disjoint : ∀ id ∈ l, id ∉ inUse w.log
  pool : ∀ id ∈ l, ∀ page, w.cached id = some page → w.data.pages id = some page

/-- In every state of every run, crashes and reopenings included, the control file can be read, the
free list it names is finite, without repetition, made of free pages that are not in use, and no
page was handed out while it was in use. -/
theorem allocator_is_safe {w : AllocWorld} (h : allocator.Reachable Machine.Any w) :
    (∃ c l, Control.fromBytes w.ctl = .ok c ∧ w.FreeList c l ∧
      (w.phase = .idle → w.control = c)) ∧
    ∀ before id after, w.log = before ++ .handedOut id :: after → id ∉ inUse before := by
  obtain ⟨c, l, hs⟩ : ∃ c l, w.Sound c l := h.invariant (P := fun w => ∃ c l, w.Sound c l)
    ⟨_, _, .created⟩ fun _ a _ ⟨_, _, hs⟩ _ hstep => hs.exec a hstep
  refine ⟨⟨c, l, ?_, ⟨hs.chain, hs.nodup, fun id hid => ?_, hs.below, hs.unused,
    fun id hid page hp => ?_⟩,
    fun hidle => ?_⟩, fun before id after heq => hs.handed _ _ _ heq⟩
  · rw [hs.ctl, Control.fromBytes_toBytes hs.fits]
  · obtain ⟨page, -, hpage⟩ := hs.clean id hid
    obtain ⟨next, hnext⟩ := hs.chain.link_of_mem hid
    refine ⟨page, hpage, ?_⟩
    by_contra hkind
    simp [freeLink, hpage, hkind] at hnext
  · obtain ⟨q, hd, -⟩ := hs.clean id hid
    exact hs.same id page hp hd
  · exact (hs.stands hidle).1

/-- The process stops before the control file names the second page that is freed. -/
def freedThenCrashed : List AllocAction :=
  [.allocate, .extend, .writeGrown, .writeControl, .publish,
    .allocate, .extend, .writeGrown, .writeControl, .publish,
    .free 0 0, .flush, .syncData, .writeControl, .publish,
    .free 1 0, .flush, .crash [(1, none)] 2,
    .allocate, .writeControl, .publish]

/-- In that run page 0 is in use again, page 1 was never on the list. -/
theorem freedThenCrashed_is_safe : ∃ w, allocator.Reachable Machine.Any w ∧
    (inUse w.log = [0, 1] ∧ w.control.freeHead = none ∧ w.control.nextPageId = 2) ∧
    (∃ c l, Control.fromBytes w.ctl = .ok c ∧ w.FreeList c l ∧
      (w.phase = .idle → w.control = c)) ∧
    ∀ before id after, w.log = before ++ .handedOut id :: after → id ∉ inUse before := by
  obtain ⟨w, hw, hp⟩ := allocator.exists_reachable (fun _ _ => true) freedThenCrashed
    (fun w => decide (inUse w.log = [0, 1] ∧ w.control.freeHead = none ∧
      w.control.nextPageId = 2)) (fun _ _ _ => trivial) (by decide +kernel)
  exact ⟨w, hw, of_decide_eq_true hp, allocator_is_safe hw⟩

end VaubanDB
