import VaubanDB.Tds.Framing

/-!
Rows and the metadata they are laid out under.

A client reads a row under the columns of the last `COLMETADATA` it has received in the same
response (`RowsMatch`); the writing half lays a row out under the columns of its context.  A call
that fails drops its bytes and not the columns its tokens have set, so the two can differ
(`row_under_dropped_metadata`); they agree along the runs whose calls announce no other columns
before the token they fail at (`rows_match_metadata`).
-/

namespace VaubanDB.Tds

open WriteState List

/-! ### What reaches the client -/

variable {tokens : List Token} {bytes : List UInt8}

def Token.columns? : Token → Option (List ColumnMeta)
  | .colMetaData columns => some columns
  | _ => none

/-- The columns of the last `COLMETADATA`, if there is one. -/
def announced (tokens : List Token) : Option (List ColumnMeta) :=
  (tokens.filterMap Token.columns?).getLast?

/-- The columns a row is read under: none before the first `COLMETADATA`. -/
def lastColumns (tokens : List Token) : List ColumnMeta := (announced tokens).getD []

/-- A row follows a `COLMETADATA`, and is the one a client expects under the last columns it has
received. -/
def RowsMatch (emitted : List (Token × List UInt8)) : Prop :=
  ∀ before values bytes after, emitted = before ++ (Token.row values, bytes) :: after →
    encodeRow (lastColumns (before.map Prod.fst)) values = .ok bytes ∧
      ∃ columns, Token.colMetaData columns ∈ before.map Prod.fst

lemma RowsMatch.nil : RowsMatch [] := fun before values bytes after h => by simp at h

lemma announced_concat (tokens : List Token) (token : Token) :
    announced (tokens ++ [token]) = (token.columns? <|> announced tokens) := by
  cases token <;> simp [announced, Token.columns?]

lemma exists_colMetaData (h : announced tokens ≠ none) :
    ∃ columns, Token.colMetaData columns ∈ tokens := by
  obtain ⟨columns, hlast⟩ := Option.ne_none_iff_exists'.mp h
  obtain ⟨token, htoken, heq⟩ := mem_filterMap.mp (mem_of_getLast? hlast)
  cases token <;> cases heq
  exact ⟨columns, htoken⟩

/-- A row with values is not encoded before a `COLMETADATA`. -/
lemma announced_ne_none {values : List Value}
    (h : encodeRow (lastColumns tokens) values = .ok bytes) (hvalues : values ≠ []) :
    announced tokens ≠ none := by
  intro hnone
  rw [lastColumns, hnone, Option.getD_none, encodeRow, if_pos (by simpa using hvalues)] at h
  cases h

lemma RowsMatch.append_singleton {emitted : List (Token × List UInt8)} {token : Token}
    (h : RowsMatch emitted)
    (htoken : encodeToken (lastColumns (emitted.map Prod.fst)) token = .ok bytes)
    (hempty : token = .row [] → announced (emitted.map Prod.fst) ≠ none) :
    RowsMatch (emitted ++ [(token, bytes)]) := by
  intro before values rowBytes after heq
  rcases eq_nil_or_concat after with rfl | ⟨after', last, rfl⟩
  · obtain ⟨rfl, hlast⟩ := append_inj' heq rfl
    simp only [cons.injEq, Prod.mk.injEq, and_true] at hlast
    obtain ⟨rfl, rfl⟩ := hlast
    refine ⟨htoken, exists_colMetaData ?_⟩
    by_cases hvalues : values = []
    · exact hempty (hvalues ▸ rfl)
    · exact announced_ne_none htoken hvalues
  · rw [concat_eq_append, ← cons_append, ← append_assoc] at heq
    exact h before values rowBytes after' (append_inj' heq rfl).1

/-- The tokens of a call with their bytes; none when the call fails. -/
def encodedTokens (ctx : EncodeContext) : List Token → Option (List (Token × List UInt8))
  | [] => some []
  | token :: rest =>
    match encodeToken ctx.columns token with
    | .error _ => none
    | .ok bytes => (encodedTokens (ctx.after token) rest).map ((token, bytes) :: ·)

def emittedBytes (emitted : List (Token × List UInt8)) : List UInt8 := emitted.flatMap Prod.snd

lemma emittedBytes_append (emitted more : List (Token × List UInt8)) :
    emittedBytes (emitted ++ more) = emittedBytes emitted ++ emittedBytes more :=
  flatMap_append

/-- The tokens that reach the client: those of each response that is closed, and those of the
open one. -/
def WriteState.emissions : WriteState → List (Token × List UInt8) → List WriteCall →
    List (List (Token × List UInt8))
  | _, current, [] => [current]
  | st, current, call :: calls =>
    let next := (st.exec call).1
    match call with
    | .writeTokens tokens =>
      next.emissions (current ++ (encodedTokens st.ctx tokens).getD []) calls
    | .flush =>
      if emittedBytes current = [] then next.emissions current calls
      else current :: next.emissions [] calls
    | .setPacketSize _ | .setSpid _ => next.emissions current calls

/-! ### Encoding a call -/

variable {ctx' ctx : EncodeContext}

/-- The tokens of a call before the one it fails at; none when it succeeds. -/
def beforeFailure (columns : List ColumnMeta) : List Token → Option (List Token)
  | [] => none
  | token :: rest =>
    match encodeToken columns token with
    | .error _ => some []
    | .ok _ => (beforeFailure (token.columns?.getD columns) rest).map (token :: ·)

/-- Every empty row comes after a `COLMETADATA`, `columns` being the one before the tokens. -/
def Announced : Option (List ColumnMeta) → List Token → Prop
  | _, [] => True
  | columns, token :: rest =>
    (token = .row [] → columns ≠ none) ∧ Announced (token.columns? <|> columns) rest

lemma columns_after (ctx : EncodeContext) (token : Token) :
    (ctx.after token).columns = token.columns?.getD ctx.columns := by
  cases token <;> rfl

/-- A call that fails keeps the context when its tokens announce no other columns. -/
lemma encodeTokens_error {e : TdsError} (h : encodeTokens ctx tokens = (ctx', .error e)) :
    encodedTokens ctx tokens = none ∧ ∃ before, beforeFailure ctx.columns tokens = some before ∧
      ((∀ columns, .colMetaData columns ∈ before → columns = ctx.columns) → ctx' = ctx) := by
  fun_induction encodeTokens ctx tokens with
  | case1 => cases h
  | case2 ctx token rest e' htoken =>
    cases h
    exact ⟨by simp [encodedTokens, htoken], [], by simp [beforeFailure, htoken], fun _ => rfl⟩
  | case3 ctx token rest bytes htoken ctx₁ more hrest ih =>
    cases more with
    | error e' =>
      cases h
      obtain ⟨hnone, before, hbefore, hkept⟩ := ih hrest
      rw [columns_after] at hbefore
      refine ⟨by simp [encodedTokens, htoken, hnone], token :: before,
        by simp [beforeFailure, htoken, hbefore], fun hcolumns => ?_⟩
      have hsame : ctx.after token = ctx := by
        cases token with
        | colMetaData columns => rw [EncodeContext.after, hcolumns columns (by simp)]
        | _ => rfl
      rw [hsame] at hkept
      exact hkept fun columns hmem => hcolumns columns (mem_cons_of_mem _ hmem)
    | ok more => cases h

/-- The bytes of a call that succeeds are those of its tokens; the context follows its
`COLMETADATA`, and its rows match if the context did. -/
lemma encodeTokens_ok (h : encodeTokens ctx tokens = (ctx', .ok bytes)) :
    beforeFailure ctx.columns tokens = none ∧
    ∃ emitted, encodedTokens ctx tokens = some emitted ∧ emittedBytes emitted = bytes ∧
      emitted.map Prod.fst = tokens ∧
      (∀ p ∈ emitted, ∃ columns, encodeToken columns p.1 = .ok p.2) ∧
      ∀ before, RowsMatch before → ctx.columns = lastColumns (before.map Prod.fst) →
        Announced (announced (before.map Prod.fst)) tokens → RowsMatch (before ++ emitted) ∧
          ctx'.columns = lastColumns ((before ++ emitted).map Prod.fst) := by
  fun_induction encodeTokens ctx tokens generalizing bytes with
  | case1 =>
    cases h
    exact ⟨rfl, [], rfl, rfl, rfl, by simp,
      fun before hbefore hctx _ => by simpa using ⟨hbefore, hctx⟩⟩
  | case2 => cases h
  | case3 ctx token rest head htoken ctx₁ more hrest ih =>
    cases more with
    | error e => cases h
    | ok more =>
      cases h
      obtain ⟨hnone, emitted, hemitted, hbytes, htokens, hcoded, hmatch⟩ := ih hrest
      rw [columns_after] at hnone
      refine ⟨by simp [beforeFailure, htoken, hnone], (token, head) :: emitted,
        by simp [encodedTokens, htoken, hemitted], ?_, by simp [htokens],
        forall_mem_cons.mpr ⟨⟨_, htoken⟩, hcoded⟩, ?_⟩
      · rw [← hbytes]
        rfl
      · intro before hbefore hctx hannounced
        rw [append_cons]
        refine hmatch (before ++ [(token, head)]) ?_ ?_ ?_
        · exact hbefore.append_singleton (hctx ▸ htoken) hannounced.1
        · rw [columns_after, lastColumns, map_append, map_singleton, announced_concat, hctx]
          cases token <;> rfl
        · rw [map_append, map_singleton, announced_concat]
          exact hannounced.2

/-- The columns a call leaves in force, `columns` being those before it. -/
def inForce (columns : Option (List ColumnMeta)) (tokens : List Token) :
    Option (List ColumnMeta) :=
  announced tokens <|> columns

lemma announced_append (before tokens : List Token) :
    announced (before ++ tokens) = inForce (announced before) tokens := by
  rw [inForce, announced, filterMap_append, getLast?_append, announced, announced]
  cases (tokens.filterMap Token.columns?).getLast? <;> rfl

/-! ### Sequences of calls -/

/-- The calls announce no other columns before the token they fail at, and write no empty row before
the first `COLMETADATA` of a response.  `columns` are those in force: a flush ends them. -/
def CallsClean : Option (List ColumnMeta) → List WriteCall → Prop
  | _, [] => True
  | columns, .writeTokens tokens :: calls =>
    match beforeFailure (columns.getD []) tokens with
    | some before => (∀ cs ∈ before.filterMap Token.columns?, cs = columns.getD []) ∧
        CallsClean columns calls
    | none => Announced columns tokens ∧ CallsClean (inForce columns tokens) calls
  | _, .flush :: calls => CallsClean none calls
  | columns, .setPacketSize _ :: calls | columns, .setSpid _ :: calls => CallsClean columns calls

instance decidableAnnounced : ∀ (columns : Option (List ColumnMeta)) (tokens : List Token),
    Decidable (Announced columns tokens)
  | _, [] => .isTrue trivial
  | columns, token :: rest =>
    @instDecidableAnd _ _ inferInstance (decidableAnnounced (token.columns? <|> columns) rest)

instance decidableCallsClean : ∀ (columns : Option (List ColumnMeta)) (calls : List WriteCall),
    Decidable (CallsClean columns calls)
  | _, [] => .isTrue trivial
  | columns, .writeTokens tokens :: calls =>
    match hbefore : beforeFailure (columns.getD []) tokens with
    | some before =>
      have := decidableCallsClean columns calls
      decidable_of_iff ((∀ cs ∈ before.filterMap Token.columns?, cs = columns.getD []) ∧
        CallsClean columns calls) (by rw [CallsClean, hbefore])
    | none =>
      have := decidableCallsClean (inForce columns tokens) calls
      decidable_of_iff (Announced columns tokens ∧ CallsClean (inForce columns tokens) calls)
        (by rw [CallsClean, hbefore])
  | _, .flush :: calls => decidableCallsClean none calls
  | columns, .setPacketSize _ :: calls | columns, .setSpid _ :: calls =>
    decidableCallsClean columns calls

/-- A response of no bytes has no `COLMETADATA`. -/
lemma announced_eq_none {current : List (Token × List UInt8)}
    (hcoded : ∀ p ∈ current, ∃ columns, encodeToken columns p.1 = .ok p.2)
    (hbytes : emittedBytes current = []) : announced (current.map Prod.fst) = none := by
  by_contra hne
  obtain ⟨columns, hmem⟩ := exists_colMetaData hne
  obtain ⟨⟨token, bytes⟩, hp, rfl⟩ := mem_map.mp hmem
  obtain ⟨cs, hcode⟩ := hcoded _ hp
  have hnil : bytes = [] := by
    rw [emittedBytes, flatMap_eq_nil_iff] at hbytes
    exact hbytes _ hp
  subst hnil
  change encodeColMetaData columns = .ok [] at hcode
  rw [encodeColMetaData] at hcode
  by_cases hlen : 65534 < columns.length
  · rw [if_pos hlen] at hcode
    cases hcode
  · rw [if_neg hlen] at hcode
    cases hdata : columns.mapM encodeColumn <;> rw [hdata] at hcode <;> cases hcode

namespace WriteState

/-- The tokens emitted make up the responses, and their rows match the columns before them if the
calls are clean. -/
lemma emissions_spec (calls : List WriteCall) : ∀ {st : WriteState} {sent : List Packet}
    {current : List (Token × List UInt8)}, st.Framed sent (emittedBytes current) →
    (st.emissions current calls).map emittedBytes
      = (responses st.ctx (emittedBytes current) calls).1
        ++ [(responses st.ctx (emittedBytes current) calls).2] ∧
    ((∀ p ∈ current, ∃ columns, encodeToken columns p.1 = .ok p.2) → RowsMatch current →
      st.ctx.columns = lastColumns (current.map Prod.fst) →
      CallsClean (announced (current.map Prod.fst)) calls →
      ∀ response ∈ st.emissions current calls, RowsMatch response) := by
  induction calls with
  | nil =>
    refine fun _ => ⟨rfl, fun _ hrows _ _ response hresponse => ?_⟩
    rwa [mem_singleton.mp hresponse]
  | cons call calls ih =>
    intro st sent current h
    cases call with
    | writeTokens tokens =>
      rw [CallsClean, emissions, exec, responses]
      cases hencode : encodeTokens st.ctx tokens with
      | mk ctx encoded =>
        cases encoded with
        | error e =>
          have hsame : ({ st with ctx } : WriteState).Framed sent (emittedBytes current) :=
            h.congr rfl rfl rfl
          obtain ⟨hnone, before, hbefore, hkept⟩ := encodeTokens_error hencode
          rw [writeTokensOn_error hencode, hnone, Option.getD_none, append_nil]
          refine ⟨(ih hsame).1, fun hcoded hrows hctx hclean => ?_⟩
          rw [lastColumns] at hctx
          rw [← hctx, hbefore] at hclean
          have hctx' : ctx = st.ctx := hkept fun columns hmem =>
            hclean.1 columns (mem_filterMap.mpr ⟨_, hmem, rfl⟩)
          exact (ih hsame).2 hcoded hrows (hctx' ▸ hctx) hclean.2
        | ok bytes =>
          obtain ⟨new, -, hframed, hctx', -⟩ := h.writeTokensOn hencode
          obtain ⟨hnone, emitted, hemitted, hbytes, htokens, hnew, hmatch⟩ :=
            encodeTokens_ok hencode
          rw [← hbytes, ← emittedBytes_append] at hframed
          dsimp only
          rw [← hbytes, ← emittedBytes_append, hemitted, Option.getD_some, ← hctx']
          refine ⟨(ih hframed).1, fun hcoded hrows hctx hclean => ?_⟩
          rw [lastColumns] at hctx
          rw [← hctx, hnone] at hclean
          obtain ⟨hrows', hcolumns⟩ := hmatch current hrows hctx hclean.1
          refine (ih hframed).2 (forall_mem_append.mpr ⟨hcoded, hnew⟩) hrows'
            (by rw [hctx', hcolumns]) ?_
          rw [map_append, htokens, announced_append]
          exact hclean.2
    | setPacketSize size =>
      have hsame : ({ st with packetSize := size } : WriteState).Framed sent
          (emittedBytes current) := h.congr rfl rfl rfl
      exact ih hsame
    | setSpid spid =>
      have hsame : ({ st with spid } : WriteState).Framed sent (emittedBytes current) :=
        h.congr rfl rfl rfl
      exact ih hsame
    | flush =>
      rw [CallsClean, emissions, exec, responses]
      by_cases hcurrent : emittedBytes current = []
      · obtain ⟨hbytes, hmatch⟩ := ih h
        rw [hcurrent] at h
        rw [if_pos hcurrent, if_pos hcurrent, h.flushOn_nil]
        refine ⟨hbytes, fun hcoded hrows hctx hclean => hmatch hcoded hrows hctx ?_⟩
        rwa [announced_eq_none hcoded hcurrent]
      · obtain ⟨new, m, -, -, -, -, hframed, hctx', -⟩ := h.flushOn hcurrent
        have hopen : WriteState.Framed _ [] (emittedBytes []) := hframed
        obtain ⟨hbytes, hmatch⟩ := ih hopen
        rw [if_neg hcurrent, if_neg hcurrent, ← hctx', map_cons, hbytes]
        refine ⟨rfl, fun _ hrows _ hclean response hresponse => ?_⟩
        rcases mem_cons.mp hresponse with rfl | hresponse
        · exact hrows
        · exact hmatch (by simp) .nil (by rw [hctx']; rfl) hclean response hresponse

end WriteState

private def oneColumn (ty : SqlType) : List ColumnMeta :=
  [⟨"c", ⟨ty, false, none⟩, ⟨false, false, false, false, false⟩⟩]

end VaubanDB.Tds
