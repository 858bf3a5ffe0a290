import VaubanDB.Disk.Encode

/-!
The reader of rows accepts only what the writer writes.

`Spells m S` says that whatever `m` answers, the bytes it has read are related to the answer by
`S`, wherever they stand in a buffer.  It composes along the reader like `Decodes`, and gives the
converse of the round trip: bytes that are read as a row are the encoding of that row
(`encodeRow_of_decodeRow`).
-/

namespace VaubanDB

open Reader List Nat

/-- Whatever the computation answers, it has read bytes that spell the answer. -/
def Spells {α : Type} (m : Read α) (S : α → List UInt8 → Prop) : Prop :=
  ∀ before rest a r, m ⟨before ++ rest, before.length⟩ = .ok a r →
    ∃ bs after, rest = bs ++ after ∧ S a bs ∧ r = ⟨before ++ rest, before.length + bs.length⟩

namespace Spells

variable {α β : Type} {m : Read α} {f : α → Read β} {R : α → List UInt8 → Prop}
  {S : β → List UInt8 → Prop}

lemma pure {b : β} (h : S b []) : Spells (Pure.pure b) S := by
  rintro before rest _ _ ⟨⟩
  exact ⟨[], rest, rfl, h, rfl⟩

lemma throw (e : InternalError) : Spells (MonadExcept.throw e : Read β) S := nofun

lemma get_bind {f : Reader → Read β} (h : ∀ r, Spells (f r) S) : Spells (MonadState.get >>= f) S :=
  fun before rest => h ⟨before ++ rest, before.length⟩ before rest

lemma bind (hm : Spells m R) (hf : ∀ a bs, R a bs → Spells (f a) fun b cs => S b (bs ++ cs)) :
    Spells (m >>= f) S := by
  intro before rest b r h
  obtain ⟨a, r₁, h₁, h₂⟩ := EStateM.bind_eq_ok_iff.mp h
  obtain ⟨bs, after, rfl, hR, rfl⟩ := hm before rest a r₁ h₁
  rw [← append_assoc, ← length_append] at h₂
  obtain ⟨cs, after', rfl, hS, rfl⟩ := hf a bs hR (before ++ bs) after b r h₂
  exact ⟨bs ++ cs, after', by simp, hS, by simp [add_assoc]⟩

lemma map (hm : Spells m R) {g : α → β} (h : ∀ a bs, R a bs → S (g a) bs) :
    Spells (m >>= fun a => Pure.pure (g a)) S :=
  hm.bind fun a bs ha => pure (by simpa using h a bs ha)

lemma tryCatch (hm : Spells m R) (g : InternalError → InternalError) :
    Spells (MonadExcept.tryCatch m fun e => MonadExcept.throw (g e)) R := by
  intro before rest a r h
  refine hm before rest a r ?_
  simp only [MonadExcept.tryCatch, tryCatchThe, MonadExceptOf.tryCatch, EStateM.tryCatch] at h
  cases hres : m ⟨before ++ rest, before.length⟩ with
  | ok a' r' => rwa [hres] at h
  | error e r' =>
    rw [hres] at h
    cases h

lemma take (n : ℕ) (what : String) :
    Spells (Reader.take n what) fun a bs => a = bs ∧ bs.length = n := by
  intro before rest a r h
  rw [Reader.take, EStateM.get_bind_apply] at h
  simp only at h
  split_ifs at h with hfits
  · cases h
  · cases h
    simp only [length_append, not_lt, add_le_add_iff_left] at hfits
    refine ⟨rest.take n, rest.drop n, (take_append_drop n rest).symm, ⟨by simp, ?_⟩, ?_⟩ <;>
      simp [hfits]

lemma byte (what : String) : Spells (Reader.byte what) fun b bs => bs = [b] := by
  refine (take 1 what).map ?_
  rintro _ bs ⟨rfl, hlen⟩
  obtain ⟨b, rfl⟩ := length_eq_one_iff.mp hlen
  rfl

lemma array (n : ℕ) (what : String) : Spells (Reader.array n what) fun v bs => bs = v.toList := by
  refine (take n what).map ?_
  rintro _ bs ⟨rfl, rfl⟩
  refine ext_getElem (by simp) fun i hi hi' => ?_
  simp

lemma number (k : ℕ) (what : String) :
    Spells (Reader.number k what) fun n bs => bs = leBytes k n ∧ n < 256 ^ k := by
  refine (array k what).map ?_
  rintro v _ rfl
  have h := leBytes_leNat v.toList
  rw [Vector.length_toList] at h
  exact ⟨h.1.symm, h.2⟩

lemma number_map {k : ℕ} {what : String} {g : ℕ → β}
    (h : ∀ n, n < 256 ^ k → S (g n) (leBytes k n)) :
    Spells (Reader.number k what >>= fun n => Pure.pure (g n)) S := by
  refine (number k what).map ?_
  rintro n _ ⟨rfl, hn⟩
  exact h n hn

lemma lenPrefixed (what : String) :
    Spells (Reader.lenPrefixed what) fun p bs => bs = encodeLenPrefixed p ∧ p.length < 2 ^ 32 := by
  refine (number 4 what).bind ?_
  rintro n _ ⟨rfl, hn⟩ before rest p r h
  obtain ⟨bs, after, hrest, ⟨rfl, rfl⟩, hr⟩ := take n what before rest p r h
  have hmin : min p.length (2 ^ 32 - 1) = p.length := by omega
  exact ⟨p, after, hrest, ⟨by rw [encodeLenPrefixed, encodeLen, hmin], hn⟩, hr⟩

end Spells

/-! ### Payloads -/

lemma spells_datePayload : Spells readDatePayload fun date bs => bs = encodeDatePayload date := by
  refine Spells.number_map fun n hn => ?_
  simp (disch := omega) [encodeDatePayload, mod_eq_of_lt]

lemma spells_timePayload : Spells readTimePayload fun time bs => bs = encodeTimePayload time := by
  refine Spells.number_map fun n hn => ?_
  simp (disch := omega) [encodeTimePayload, mod_eq_of_lt]

lemma spells_dateTime2Payload :
    Spells readDateTime2Payload fun stamp bs => bs = encodeDateTime2Payload stamp := by
  refine spells_datePayload.bind ?_
  rintro date _ rfl
  refine spells_timePayload.map ?_
  rintro time _ rfl
  rfl

lemma spells_string : Spells readString fun v bs => encodeValue v = 10 :: bs ∧ v.Counted := by
  refine Spells.get_bind fun r => (Spells.lenPrefixed _).bind ?_
  rintro p _ ⟨rfl, hp⟩
  rcases htext : String.fromUTF8? ⟨p.toArray⟩ with _ | text
  · exact Spells.throw _
  have hbytes : utf8Bytes text = p := by
    rw [String.fromUTF8?] at htext
    split_ifs at htext with hvalid
    cases htext
    rfl
  exact Spells.pure ⟨by rw [encodeValue, hbytes, append_nil],
    show (utf8Bytes text).length < 2 ^ 32 by rwa [hbytes]⟩

/-- The payload read after a tag is the payload the writer writes after it. -/
lemma spells_payload (tagAt : ℕ) (tag : UInt8) :
    Spells (readPayload tagAt tag) fun v bs => encodeValue v = tag :: bs ∧ v.Counted := by
  unfold readPayload
  split
  · exact Spells.pure ⟨rfl, trivial⟩
  · refine Spells.get_bind fun r => (Spells.byte _).bind ?_
    rintro flag _ rfl
    split_ifs with h₀ h₁
    · exact Spells.pure ⟨by simp [encodeValue, h₀], trivial⟩
    · exact Spells.pure ⟨by simp [encodeValue, h₁], trivial⟩
    · exact Spells.throw _
  · refine (Spells.byte _).map ?_
    rintro n _ rfl
    exact ⟨rfl, trivial⟩
  iterate 3
    · refine Spells.number_map fun n hn => ⟨?_, trivial⟩
      simp (disch := omega) [encodeValue, mod_eq_of_lt]
  · refine (Spells.number 16 _).bind ?_
    rintro n _ ⟨rfl, hn⟩
    refine (Spells.byte _).bind ?_
    rintro precision _ rfl
    refine (Spells.byte _).map ?_
    rintro scale _ rfl
    exact ⟨by simp (disch := omega) [encodeValue, mod_eq_of_lt], trivial⟩
  iterate 3
    · refine Spells.number_map fun n hn => ⟨?_, trivial⟩
      simp (disch := omega) [encodeValue, mod_eq_of_lt]
  · exact spells_string
  · refine (Spells.lenPrefixed _).map ?_
    rintro p _ ⟨rfl, hp⟩
    exact ⟨rfl, hp⟩
  · refine spells_datePayload.map ?_
    rintro date _ rfl
    exact ⟨rfl, trivial⟩
  · refine spells_timePayload.map ?_
    rintro time _ rfl
    exact ⟨rfl, trivial⟩
  · refine (Spells.number 4 _).bind ?_
    rintro days _ ⟨rfl, hdays⟩
    refine Spells.number_map fun ticks hticks => ?_
    exact ⟨by simp (disch := omega) [encodeValue, mod_eq_of_lt], trivial⟩
  · refine spells_dateTime2Payload.map ?_
    rintro stamp _ rfl
    exact ⟨rfl, trivial⟩
  · refine spells_dateTime2Payload.bind ?_
    rintro utc _ rfl
    refine Spells.number_map fun minutes hminutes => ?_
    exact ⟨by simp (disch := omega) [encodeValue, mod_eq_of_lt], trivial⟩
  · refine (Spells.array 16 _).map ?_
    rintro v _ rfl
    exact ⟨rfl, trivial⟩
  · exact Spells.throw _

lemma spells_value : Spells readValue fun v bs => bs = encodeValue v ∧ v.Counted := by
  refine Spells.get_bind fun r => (Spells.byte _).bind ?_
  rintro tag _ rfl before rest v r' h
  obtain ⟨bs, after, hrest, hv, hr⟩ := spells_payload _ _ before rest v r' h
  exact ⟨bs, after, hrest, ⟨hv.1.symm, hv.2⟩, hr⟩

/-! ### Rows -/

lemma spells_columns (column count : ℕ) : Spells (readColumns column count) fun row bs =>
    bs = row.flatMap encodeValue ∧ row.length = count ∧ ∀ v ∈ row, v.Counted := by
  induction count generalizing column with
  | zero => exact Spells.pure ⟨rfl, rfl, nofun⟩
  | succ count ih =>
    refine (spells_value.tryCatch _).bind ?_
    rintro v _ ⟨rfl, hv⟩
    refine (ih (column + 1)).map ?_
    rintro row _ ⟨rfl, hlen, hrow⟩
    exact ⟨rfl, by rw [length_cons, hlen], forall_mem_cons.mpr ⟨hv, hrow⟩⟩

/-- Bytes that are read as a row are the encoding of that row. -/
theorem encodeRow_of_decodeRow {bytes : List UInt8} {row : List Value}
    (h : decodeRow bytes = .ok row) : encodeRow row = bytes ∧ RowCounted row := by
  have hrow : Spells readRow fun row bs => bs = encodeRow row ∧ RowCounted row := by
    refine (Spells.byte _).bind ?_
    rintro codec _ rfl
    split_ifs with hcodec
    · exact Spells.throw _
    refine (Spells.number 4 _).bind ?_
    rintro columns _ ⟨rfl, hcolumns⟩
    refine (spells_columns 0 columns).bind ?_
    rintro row _ ⟨rfl, rfl, hrow⟩
    refine Spells.get_bind fun r => ?_
    dsimp only
    split_ifs with hleft
    · exact Spells.throw _
    have hmin : min row.length (2 ^ 32 - 1) = row.length := by omega
    exact Spells.pure ⟨by rw [encodeRow, encodeLen, hmin, not_not.mp hcodec]; simp, hcolumns, hrow⟩
  rw [decodeRow] at h
  cases hres : readRow ⟨bytes, 0⟩ with
  | error e r =>
    rw [hres] at h
    cases h
  | ok row' r =>
    obtain ⟨_, after, rfl, ⟨rfl, hcounted⟩, _⟩ := hrow [] bytes row' r hres
    have happend := decodeRow_append hcounted after
    rw [decodeRow, hres] at happend
    rw [hres] at h
    cases h
    split_ifs at happend with hafter
    rw [eq_nil_of_length_eq_zero hafter, append_nil]
    exact ⟨rfl, hcounted⟩

/-- The codec is a bijection between the rows whose counts fit their fields and the byte strings
it accepts, and no strict part or extension of an encoded row is accepted. -/
theorem row_codec_is_canonical :
    (∀ row, decodeRow (encodeRow row) = .ok row ↔ RowCounted row) ∧
    (∀ bytes row, decodeRow bytes = .ok row → encodeRow row = bytes) ∧
    ∀ row, RowCounted row → ∀ bytes, bytes ≠ encodeRow row →
      bytes <+: encodeRow row ∨ encodeRow row <+: bytes → ∀ row', decodeRow bytes ≠ .ok row' := by
  have hround : ∀ row, decodeRow (encodeRow row) = .ok row ↔ RowCounted row := by
    refine fun row => ⟨fun h => (encodeRow_of_decodeRow h).2, fun h => ?_⟩
    have happend := decodeRow_append h []
    rwa [append_nil, if_pos length_nil] at happend
  -- an encoded row is not read when something stands behind it
  have hlonger : ∀ row, RowCounted row → ∀ rest, rest ≠ [] → ∀ row',
      decodeRow (encodeRow row ++ rest) ≠ .ok row' := by
    intro row h rest hrest row'
    rw [decodeRow_append h, if_neg (by simpa using hrest)]
    nofun
  refine ⟨hround, fun bytes row h => (encodeRow_of_decodeRow h).1, ?_⟩
  rintro row hrow bytes hne (⟨rest, hrest⟩ | ⟨rest, rfl⟩) row' h
  · obtain ⟨rfl, hrow'⟩ := encodeRow_of_decodeRow h
    refine hlonger row' hrow' rest ?_ row (hrest ▸ (hround row).mpr hrow)
    rintro rfl
    exact hne (by simpa using hrest)
  · exact hlonger row hrow rest (by rintro rfl; simp at hne) row' h

/-- A row of `2^32` columns does not fit its count. -/
theorem oversized_row_is_not_read_back : ∃ row, decodeRow (encodeRow row) ≠ .ok row := by
  refine ⟨replicate (2 ^ 32) .null, fun h => ?_⟩
  have hlen := (encodeRow_of_decodeRow h).2.1
  rw [length_replicate] at hlen
  exact lt_irrefl _ hlen

/-- A row of two columns is read back, and not without its last byte. -/
theorem small_row_is_read_back :
    decodeRow (encodeRow [.i32 7, .bit true]) = .ok [.i32 7, .bit true] ∧
    ∀ row, decodeRow (encodeRow [.i32 7, .bit true]).dropLast ≠ .ok row := by
  have hcounted : RowCounted [.i32 7, .bit true] := by simp [RowCounted, Value.Counted]
  exact ⟨(row_codec_is_canonical.1 _).mpr hcounted, row_codec_is_canonical.2.2 _ hcounted _
    (by decide) (.inl (List.dropLast_prefix _))⟩

end VaubanDB
