import VaubanDB.Types.Collation

/-!
`LIKE` and `PATINDEX` (`vauban-types/src/like.rs`).

A pattern is read into tokens, and one greedy pass with a single point to go back to, the last `%`
met, matches them.  The pass is counted in turns here: `none` is a pass cut short, which never
happens within the product of the two lengths.
-/

namespace VaubanDB.Collation

open List

/-- A character of a set, or a range of them. -/
inductive ClassItem where
  | char (literal : Char)
  | range (low high : Char)
  deriving DecidableEq, Repr

/-- One element of a pattern: `%`, `_`, a character, or a set in brackets. -/
inductive Token where
  | any
  | one
  | char (literal : Char)
  | class (negated : Bool) (items : List ClassItem)
  deriving DecidableEq, Repr

/-! ### Patterns -/

/-- The members of a set with whether they were escaped, and the pattern after its bracket. -/
def classContent (escape : Option Char) (closeAtEnd : Bool) :
    List Char → Option (List (Char × Bool) × List Char)
  | [] => if closeAtEnd then some ([], []) else none
  | c :: chars =>
    if some c = escape then
      match chars with
      | [] => none
      | d :: chars => (classContent escape closeAtEnd chars).map (.map ((d, true) :: ·) id)
    else if c = ']' then some ([], chars)
    else (classContent escape closeAtEnd chars).map (.map ((c, false) :: ·) id)

def classItems : List (Char × Bool) → List ClassItem
  | (low, _) :: ('-', false) :: (high, _) :: content => .range low high :: classItems content
  | (c, _) :: content => .char c :: classItems content
  | [] => []

def parseClass (escape : Option Char) (closeAtEnd : Bool) (chars : List Char) :
    Option (Token × List Char) :=
  let negated := chars.head? == some '^' && escape != some '^'
  (classContent escape closeAtEnd (if negated then chars.tail else chars)).map
    (.map (fun content => .class negated (classItems content)) id)

variable {escape : Option Char} {closeAtEnd : Bool} {chars rest : List Char} {tokens : List Token}

lemma length_classContent {content : List (Char × Bool)}
    (h : classContent escape closeAtEnd chars = some (content, rest)) :
    rest.length ≤ chars.length := by
  fun_induction classContent escape closeAtEnd chars generalizing content <;>
    simp_all [Option.map_eq_some_iff, Prod.ext_iff] <;> grind

lemma length_parseClass {token : Token}
    (h : parseClass escape closeAtEnd chars = some (token, rest)) :
    rest.length ≤ chars.length := by
  obtain ⟨⟨content, left⟩, hcontent, heq⟩ := Option.map_eq_some_iff.mp h
  obtain rfl : left = rest := congrArg Prod.snd heq
  refine (length_classContent hcontent).trans ?_
  split_ifs <;> simp

/-- `none` is a pattern that matches nothing. -/
def tokenize (escape : Option Char) (closeAtEnd : Bool) : List Char → Option (List Token)
  | [] => some []
  | c :: chars =>
    if some c = escape then
      match chars with
      | [] => none
      | literal :: chars => (tokenize escape closeAtEnd chars).map (.char literal :: ·)
    else if c = '[' then
      match _h : parseClass escape closeAtEnd chars with
      | none => none
      | some (token, rest) => (tokenize escape closeAtEnd rest).map (token :: ·)
    else
      (tokenize escape closeAtEnd chars).map
        ((if c = '%' then .any else if c = '_' then .one else .char c) :: ·)
termination_by chars => chars.length
decreasing_by all_goals grind [→ length_parseClass]

lemma length_tokenize (h : tokenize escape closeAtEnd chars = some tokens) :
    tokens.length ≤ chars.length := by
  fun_induction tokenize escape closeAtEnd chars generalizing tokens <;>
    simp_all [Option.map_eq_some_iff] <;> grind [→ length_parseClass]

/-! ### The pass -/

/-- Levels without padding, the first that differs decides. -/
def compareCharLevels (weights : Char → Level → List ℕ) (a b : Char) : List Level → Ordering
  | [] => .eq
  | level :: rest =>
    (compareSequences (weights a level) (weights b level) none).then
      (compareCharLevels weights a b rest)

def compareChar (c : Collation) (a b : Char) : Ordering :=
  if a = b then .eq
  else
    match c.rules with
    | .binary | .binary2 => compareSequences (utf16 a) (utf16 b) none
    | .table t =>
      match asciiPass c t [a] [b] .eq .eq with
      | .decided o => o
      | .whole accent caseOrder =>
        if !c.has flagIgnoreAccent && accent ≠ .eq then accent
        else if !c.has flagIgnoreCase then caseOrder
        else .eq
      | .stopped =>
        if a.toNat < 128 ∧ b.toNat < 128 then
          compareCharLevels (fun ch level =>
            if level = .last then asciiLast t [ch]
            else if t.asciiClass ch.toNat = .plain then [c.asciiWeight (t.row ch.toNat) level]
            else []) a b (c.levels t)
        else compareCharLevels (fun ch level => c.levelWeights t [ch] level) a b (c.levels t)

def matchesItem (c : Collation) (ch : Char) : ClassItem → Bool
  | .char literal => c.compareChar ch literal == .eq
  | .range low high => c.compareChar low ch != .gt && c.compareChar ch high != .gt

def matchesOne (c : Collation) : Token → Char → Bool
  | .any, _ | .one, _ => true
  | .char literal, ch => c.compareChar ch literal == .eq
  | .class negated items, ch => items.any (c.matchesItem ch) != negated

/-- The length of a text without its trailing blanks. -/
def contentLength (text : List Char) : ℕ := (trimEnd text).length

/-- Where the pass stands; `star` is the last `%` met and how far it has swallowed the text. -/
structure Match where
  start : ℕ
  textIndex : ℕ
  tokenIndex : ℕ
  star : Option (ℕ × ℕ)

section Pass

variable (c : Collation) (text : List Char) (tokens : List Token) (anchored : Bool)

/-- After a mismatch: the last `%`, or else the leading one, swallows one more character. -/
def resume (m : Match) : Match ⊕ Option ℕ :=
  match m.star with
  | some (starIndex, swallowed) =>
    if swallowed < text.length then
      .inl ⟨m.start, swallowed + 1, starIndex + 1, some (starIndex, swallowed + 1)⟩
    else .inr none
  | none =>
    if !anchored ∧ m.start < text.length then .inl ⟨m.start + 1, m.start + 1, 0, none⟩
    else .inr none

def matchTurn (m : Match) : Match ⊕ Option ℕ :=
  match tokens[m.tokenIndex]? with
  | some .any =>
    .inl { m with star := some (m.tokenIndex, m.textIndex), tokenIndex := m.tokenIndex + 1 }
  | some token =>
    if (text[m.textIndex]?).any (c.matchesOne token) then
      .inl { m with tokenIndex := m.tokenIndex + 1, textIndex := m.textIndex + 1 }
    else resume text anchored m
  | none =>
    if contentLength text ≤ m.textIndex then .inr (some m.start) else resume text anchored m

def matchLoop : ℕ → Match → Option (Option ℕ)
  | 0, _ => none
  | turns + 1, m => (matchTurn c text tokens anchored m).elim (matchLoop turns) some

def matchFrom (turns : ℕ) : Option (Option ℕ) :=
  matchLoop c text tokens anchored turns ⟨0, 0, 0, none⟩

end Pass

/-- The number of `%` a pattern begins with. -/
def lead (tokens : List Token) : ℕ := (tokens.takeWhile (· = .any)).length

def closesClassAtPatternEnd (c : Collation) : Bool :=
  c.sortId == 0 && c.flags &&& (flagBinary ||| flagBinary2) == 0

def matchStart (c : Collation) (turns : ℕ) (s pattern : String) (escape : Option Char) :
    Option (Option ℕ) :=
  match tokenize escape c.closesClassAtPatternEnd pattern.toList with
  | none => some none
  | some tokens =>
    let rest := tokens.drop (lead tokens)
    if rest = [] then some (if 0 < lead tokens ∨ contentLength s.toList = 0 then some 0 else none)
    else c.matchFrom s.toList rest (lead tokens = 0) turns

def like (c : Collation) (turns : ℕ) (s pattern : String) (escape : Option Char) : Option Bool :=
  (c.matchStart turns s pattern escape).map Option.isSome

/-- `PATINDEX`, 0 where the source answers `None`. -/
def patternPosition (c : Collation) (turns : ℕ) (s pattern : String) : Option ℕ :=
  (c.matchStart turns s pattern none).map fun start => (start.map (· + 1)).getD 0

/-! ### What a pattern means -/

/-- The piece of a text that a token matches. -/
def Piece (c : Collation) (token : Token) (piece : List Char) : Prop :=
  token = .any ∨ ∃ ch, piece = [ch] ∧ c.matchesOne token ch

/-- The text is cut into the pieces of the tokens, and blanks. -/
def Splits (c : Collation) (tokens : List Token) (text : List Char) : Prop :=
  ∃ pieces blanks, text = pieces.flatten ++ blanks ∧ Forall₂ c.Piece tokens pieces ∧
    ∀ ch ∈ blanks, ch = ' '

variable {c : Collation} {text : List Char} {token : Token} {i j k : ℕ}

lemma splits_nil : c.Splits [] text ↔ ∀ ch ∈ text, ch = ' ' := by
  constructor
  · rintro ⟨_, blanks, rfl, hnil, hblanks⟩
    cases hnil
    exact hblanks
  · exact fun h => ⟨[], text, rfl, .nil, h⟩

lemma splits_any : c.Splits (.any :: tokens) text ↔
    ∃ k ≤ text.length, c.Splits tokens (text.drop k) := by
  constructor
  · rintro ⟨_, blanks, rfl, hall, hblanks⟩
    obtain ⟨piece, pieces, -, hrest, rfl⟩ := forall₂_cons_left_iff.mp hall
    exact ⟨piece.length, by simp, pieces, blanks, by simp, hrest, hblanks⟩
  · rintro ⟨k, -, pieces, blanks, heq, hall, hblanks⟩
    refine ⟨text.take k :: pieces, blanks, ?_, .cons (.inl rfl) hall, hblanks⟩
    rw [flatten_cons, append_assoc, ← heq, take_append_drop]

lemma splits_one (h : token ≠ .any) : c.Splits (token :: tokens) text ↔
    ∃ ch rest, text = ch :: rest ∧ c.matchesOne token ch ∧ c.Splits tokens rest := by
  constructor
  · rintro ⟨_, blanks, rfl, hall, hblanks⟩
    obtain ⟨piece, pieces, hpiece, hrest, rfl⟩ := forall₂_cons_left_iff.mp hall
    obtain ⟨ch, rfl, hch⟩ := hpiece.resolve_left h
    exact ⟨ch, pieces.flatten ++ blanks, rfl, hch, pieces, blanks, rfl, hrest, hblanks⟩
  · rintro ⟨ch, _, rfl, hch, pieces, blanks, rfl, hall, hblanks⟩
    exact ⟨[ch] :: pieces, blanks, rfl, .cons (.inr ⟨ch, rfl, hch⟩) hall, hblanks⟩

lemma contentLength_le : contentLength text ≤ i ↔ ∀ ch ∈ text.drop i, ch = ' ' := by
  induction text using reverseRecOn with
  | nil => simp [contentLength, trimEnd]
  | append_singleton text ch ih =>
    by_cases hch : ch = ' '
    · have hsame : contentLength (text ++ [ch]) = contentLength text := by
        simp [contentLength, trimEnd, hch]
      rw [hsame, ih, drop_append, forall_mem_append, iff_self_and]
      exact fun _ x hx => (mem_singleton.mp (mem_of_mem_drop hx)).trans hch
    · have hall : contentLength (text ++ [ch]) = text.length + 1 := by
        simp [contentLength, trimEnd, hch]
      rw [hall]
      constructor
      · intro hle
        simp [drop_eq_nil_of_le (show (text ++ [ch]).length ≤ i by simpa using hle)]
      · intro hblanks
        by_contra hlt
        rw [drop_append_of_le_length (by omega)] at hblanks
        exact hch (hblanks ch (by simp))

def From (c : Collation) (text : List Char) (tokens : List Token) (k i : ℕ) : Prop :=
  c.Splits (tokens.drop k) (text.drop i)

lemma from_end (h : tokens[k]? = none) : c.From text tokens k i ↔ contentLength text ≤ i := by
  rw [From, drop_eq_nil_of_le (getElem?_eq_none_iff.mp h), splits_nil, contentLength_le]

lemma from_any (h : tokens[k]? = some .any) (hi : i ≤ text.length) :
    c.From text tokens k i ↔ ∃ j, i ≤ j ∧ j ≤ text.length ∧ c.From text tokens (k + 1) j := by
  obtain ⟨hk, heq⟩ := List.getElem?_eq_some_iff.mp h
  rw [From, drop_eq_getElem_cons hk, heq, splits_any]
  constructor
  · rintro ⟨j, hj, hsplits⟩
    rw [length_drop] at hj
    exact ⟨i + j, by omega, by omega, by rwa [drop_drop] at hsplits⟩
  · rintro ⟨j, hij, hj, hsplits⟩
    refine ⟨j - i, by rw [length_drop]; omega, ?_⟩
    rwa [drop_drop, Nat.add_sub_cancel' hij]

lemma from_one (h : tokens[k]? = some token) (hne : token ≠ .any) :
    c.From text tokens k i ↔
      (text[i]?).any (c.matchesOne token) ∧ c.From text tokens (k + 1) (i + 1) := by
  obtain ⟨hk, heq⟩ := List.getElem?_eq_some_iff.mp h
  rw [From, drop_eq_getElem_cons hk, heq, splits_one hne, From]
  rcases hi : text[i]? with _ | ch
  · simp [drop_eq_nil_of_le (getElem?_eq_none_iff.mp hi)]
  obtain ⟨hlt, rfl⟩ := List.getElem?_eq_some_iff.mp hi
  rw [drop_eq_getElem_cons hlt]
  constructor
  · rintro ⟨_, _, ⟨⟩, hboth⟩
    exact hboth
  · exact fun hboth => ⟨_, _, rfl, hboth⟩

/-- Tokens that match one character each move through the text together with the pattern. -/
lemma from_add (h : ∀ l < j, ∃ token, tokens[k + l]? = some token ∧ token ≠ .any)
    (hfrom : c.From text tokens k i) :
    c.From text tokens (k + j) (i + j) ∧ (i ≤ text.length → i + j ≤ text.length) := by
  induction j with
  | zero => exact ⟨hfrom, id⟩
  | succ j ih =>
    obtain ⟨hfrom, hle⟩ := ih fun l hl => h l (by omega)
    obtain ⟨token, htoken, hne⟩ := h j (by omega)
    obtain ⟨hch, hfrom⟩ := (from_one htoken hne).mp hfrom
    refine ⟨hfrom, fun _ => ?_⟩
    by_contra hlt
    rw [getElem?_eq_none (show text.length ≤ i + j by omega)] at hch
    cases hch

/-- Where the pass may start. -/
def Start (text : List Char) (anchored : Bool) (i : ℕ) : Prop :=
  i ≤ text.length ∧ (anchored → i = 0)

/-- The token and the character the current attempt began with. -/
def Match.base (m : Match) : ℕ × ℕ :=
  match m.star with
  | none => (0, m.start)
  | some (starIndex, swallowed) => (starIndex + 1, swallowed)

/-- Where the pass stands: nothing matches before `start`, the current attempt has moved through
tokens that match one character each, and it decides what its `%` is still to swallow. -/
structure Sound (c : Collation) (text : List Char) (tokens : List Token) (anchored : Bool)
    (m : Match) : Prop where
  start : Start text anchored m.start
  before : ∀ i < m.start, Start text anchored i → ¬ c.From text tokens 0 i
  tokenIndex_le : m.tokenIndex ≤ tokens.length
  textIndex_le : m.textIndex ≤ text.length
  moved : ∃ n, m.tokenIndex = m.base.1 + n ∧ m.textIndex = m.base.2 + n ∧
    ∀ l < n, ∃ token, tokens[m.base.1 + l]? = some token ∧ token ≠ .any
  attempt : c.From text tokens m.base.1 m.base.2 ↔ c.From text tokens m.tokenIndex m.textIndex
  star : ∀ s ∈ m.star, tokens[s.1]? = some .any ∧
    (∀ i, Start text anchored i → c.From text tokens 0 i → c.From text tokens s.1 s.2) ∧
    (c.From text tokens s.1 s.2 → c.From text tokens 0 m.start)

/-- The turns a pass has left. -/
def Match.left (text : List Char) (tokens : List Token) (m : Match) : ℕ :=
  (text.length - m.base.2) * (tokens.length + 1) + (tokens.length - m.tokenIndex)

/-- What the pass answers: the first start from which the tokens split the text. -/
def Answers (c : Collation) (text : List Char) (tokens : List Token) (anchored : Bool) :
    Option ℕ → Prop
  | some i => Start text anchored i ∧ c.From text tokens 0 i ∧
      ∀ j < i, Start text anchored j → ¬ c.From text tokens 0 j
  | none => ∀ i, Start text anchored i → ¬ c.From text tokens 0 i

section Turns

variable {anchored : Bool} {m : Match}

lemma left_lt {a b x y z : ℕ} (h : a < b) (hx : x ≤ z) : a * (z + 1) + x < b * (z + 1) + y := by
  have := Nat.mul_le_mul_right (z + 1) h
  linarith [Nat.succ_mul a (z + 1)]

/-- A `%` that gains nothing where it stands swallows one more character. -/
lemma from_any_succ (h : tokens[k]? = some .any) (hi : i < text.length)
    (hno : ¬ c.From text tokens (k + 1) i) :
    c.From text tokens k i ↔ c.From text tokens k (i + 1) := by
  rw [from_any h hi.le, from_any h hi]
  constructor
  · rintro ⟨j, hij, hj, hfrom⟩
    have hne : i ≠ j := fun heq => hno (heq ▸ hfrom)
    exact ⟨j, by omega, hj, hfrom⟩
  · rintro ⟨j, hij, hj, hfrom⟩
    exact ⟨j, by omega, hj, hfrom⟩

namespace Sound

variable (h : Sound c text tokens anchored m)
include h

lemma swallowed_le {s : ℕ × ℕ} (hstar : m.star = some s) : s.2 ≤ text.length := by
  obtain ⟨n, -, htext, -⟩ := h.moved
  have hle := h.textIndex_le
  rw [htext, Match.base, hstar] at hle
  exact (Nat.le_add_right _ _).trans hle

/-- A match of the current attempt is a match from `start`. -/
lemma back (hfrom : c.From text tokens m.tokenIndex m.textIndex) :
    c.From text tokens 0 m.start := by
  have hbase := h.attempt.mpr hfrom
  unfold Match.base at hbase
  rcases hstar : m.star with _ | s
  · rwa [hstar] at hbase
  rw [hstar] at hbase
  obtain ⟨hany, -, hback⟩ := h.star s hstar
  have hle := h.swallowed_le hstar
  exact hback ((from_any hany hle).mpr ⟨s.2, le_rfl, hle, hbase⟩)

/-- A match from anywhere passes through the current position, when a `%` is there. -/
lemma reach (hany : tokens[m.tokenIndex]? = some .any) (hi : Start text anchored i)
    (hfrom : c.From text tokens 0 i) : c.From text tokens m.tokenIndex m.textIndex := by
  obtain ⟨n, htoken, htext, hones⟩ := h.moved
  have hbegun : ∃ j, m.base.2 ≤ j ∧ j ≤ text.length ∧ c.From text tokens m.base.1 j := by
    unfold Match.base
    cases hstar : m.star with
    | none => exact ⟨i, not_lt.mp fun hlt => h.before i hlt hi hfrom, hi.1, hfrom⟩
    | some s =>
      obtain ⟨hstarred, hreach, -⟩ := h.star s hstar
      exact (from_any hstarred (h.swallowed_le hstar)).mp (hreach i hi hfrom)
  -- The attempt that succeeds has passed the same one-character tokens further on in the text, and
  -- the `%` here may swallow the difference.
  obtain ⟨j, hle, hj, hfrom⟩ := hbegun
  obtain ⟨hfrom, hlen⟩ := from_add hones hfrom
  rw [← htoken, from_any hany (hlen hj)] at hfrom
  obtain ⟨l, hl, hlen, hfrom⟩ := hfrom
  exact (from_any hany h.textIndex_le).mpr ⟨l, by omega, hlen, hfrom⟩

lemma resume (hno : ¬ c.From text tokens m.tokenIndex m.textIndex) :
    (resume text anchored m).elim
      (fun m' => Sound c text tokens anchored m' ∧ m'.left text tokens < m.left text tokens)
      (Answers c text tokens anchored) := by
  have hbase := mt h.attempt.mp hno
  unfold Collation.resume Match.left
  unfold Match.base at hbase ⊢
  cases hstar : m.star with
  | none =>
    -- No `%` was met: the start slides, unless the pattern is anchored.
    rw [hstar] at hbase
    dsimp only at hbase ⊢
    split_ifs with hslide
    · refine ⟨⟨⟨hslide.2, by simpa using hslide.1⟩, fun i hi hs => ?_, Nat.zero_le _, hslide.2,
        ⟨0, rfl, rfl, by omega⟩, .rfl, by simp⟩,
        left_lt (Nat.sub_lt_sub_left hslide.2 (Nat.lt_succ_self _)) (Nat.sub_le _ _)⟩
      rcases Nat.lt_succ_iff_lt_or_eq.mp hi with hi | rfl
      · exact h.before i hi hs
      · exact hbase
    · intro i hi hfrom
      rcases lt_trichotomy i m.start with hlt | rfl | hlt
      · exact h.before i hlt hi hfrom
      · exact hbase hfrom
      · refine hslide ⟨?_, hlt.trans_le hi.1⟩
        rw [Bool.not_eq_true', Bool.eq_false_iff]
        intro ha
        have := hi.2 ha
        omega
  | some s =>
    -- An earlier `%` cannot help: what it could still reach, the last one reaches too.
    rw [hstar] at hbase
    obtain ⟨hany, hreach, hback⟩ := h.star s hstar
    dsimp only at hbase ⊢
    split_ifs with hlt
    · have hsucc := from_any_succ hany hlt hbase
      refine ⟨⟨h.start, h.before, (List.getElem?_eq_some_iff.mp hany).1, hlt,
        ⟨0, rfl, rfl, by omega⟩, .rfl, ?_⟩, left_lt (Nat.sub_lt_sub_left hlt (Nat.lt_succ_self _))
          (Nat.sub_le _ _)⟩
      rintro _ ⟨⟩
      exact ⟨hany, fun i hi hfrom => hsucc.mp (hreach i hi hfrom), fun hf => hback (hsucc.mpr hf)⟩
    · intro i hi hfrom
      obtain ⟨j, hj, hlen, hfrom⟩ := (from_any hany (h.swallowed_le hstar)).mp (hreach i hi hfrom)
      exact hbase (by rwa [show s.2 = j by omega])

/-- One turn keeps the invariant and spends a turn, or answers. -/
lemma turn : (matchTurn c text tokens anchored m).elim
    (fun m' => Sound c text tokens anchored m' ∧ m'.left text tokens < m.left text tokens)
    (Answers c text tokens anchored) := by
  obtain ⟨n, htoken, htext, hones⟩ := h.moved
  cases hget : tokens[m.tokenIndex]? with
  | none =>
    rw [matchTurn, hget]
    dsimp only
    split_ifs with hcontent
    · exact ⟨h.start, h.back ((from_end hget).mpr hcontent), h.before⟩
    · exact h.resume (mt (from_end hget).mp hcontent)
  | some token =>
    have hlt := (List.getElem?_eq_some_iff.mp hget).1
    by_cases hany : token = .any
    · subst hany
      rw [matchTurn, hget]
      refine ⟨⟨h.start, h.before, hlt, h.textIndex_le, ⟨0, rfl, rfl, by omega⟩, .rfl, ?_⟩, ?_⟩
      · rintro _ ⟨⟩
        exact ⟨hget, fun i hi => h.reach hget hi, h.back⟩
      · refine Nat.add_lt_add_of_le_of_lt (Nat.mul_le_mul_right _ (Nat.sub_le_sub_left ?_ _)) ?_
        · exact htext ▸ Nat.le_add_right _ _
        · exact Nat.sub_lt_sub_left hlt (Nat.lt_succ_self _)
    · have hone : c.From text tokens m.tokenIndex m.textIndex ↔ _ := from_one hget hany
      have hturn : matchTurn c text tokens anchored m =
          if (text[m.textIndex]?).any (c.matchesOne token) then
            .inl { m with tokenIndex := m.tokenIndex + 1, textIndex := m.textIndex + 1 }
          else Collation.resume text anchored m := by
        cases token <;> simp_all [matchTurn]
      rw [hturn]
      split_ifs with hch
      · have hroom : m.textIndex < text.length := by
          by_contra hge
          rw [getElem?_eq_none (not_lt.mp hge)] at hch
          cases hch
        refine ⟨⟨h.start, h.before, hlt, hroom, ⟨n + 1, ?_, ?_, fun l hl => ?_⟩, ?_, h.star⟩,
          Nat.add_lt_add_left (Nat.sub_lt_sub_left hlt (Nat.lt_succ_self _)) _⟩
        · exact congrArg (· + 1) htoken
        · exact congrArg (· + 1) htext
        · rcases Nat.lt_succ_iff_lt_or_eq.mp hl with hl | rfl
          · exact hones l hl
          · exact ⟨token, htoken ▸ hget, hany⟩
        · exact h.attempt.trans (hone.trans (and_iff_right hch))
      · exact h.resume fun hfrom => hch (hone.mp hfrom).1

end Sound

lemma matchLoop_answers (turns : ℕ) (h : Sound c text tokens anchored m)
    (hturns : m.left text tokens < turns) :
    ∃ r, matchLoop c text tokens anchored turns m = some r ∧ Answers c text tokens anchored r := by
  induction turns generalizing m with
  | zero => omega
  | succ turns ih =>
    have hturn := h.turn
    rw [matchLoop]
    cases hm : matchTurn c text tokens anchored m with
    | inr r => exact ⟨r, rfl, by rwa [hm] at hturn⟩
    | inl m' =>
      rw [hm] at hturn
      exact ih hturn.1 (by have := hturn.2; omega)

lemma matchFrom_answers (c : Collation) (text : List Char) (tokens : List Token) (anchored : Bool)
    {turns : ℕ} (hturns : (text.length + 1) * (tokens.length + 1) ≤ turns) :
    ∃ r, matchFrom c text tokens anchored turns = some r ∧ Answers c text tokens anchored r := by
  refine matchLoop_answers turns ⟨⟨Nat.zero_le _, fun _ => rfl⟩, by simp, Nat.zero_le _,
    Nat.zero_le _, ⟨0, rfl, rfl, by omega⟩, .rfl, by simp⟩ (lt_of_lt_of_le ?_ hturns)
  simp only [Match.left, Match.base, Nat.sub_zero]
  linarith [Nat.succ_mul text.length (tokens.length + 1)]

end Turns

/-! ### `LIKE` and `PATINDEX` -/

/-- The leading `%` only move the start. -/
lemma splits_lead : c.Splits tokens text ↔ ∃ i, Start text (lead tokens = 0) i ∧
    c.Splits (tokens.drop (lead tokens)) (text.drop i) := by
  induction tokens generalizing text with
  | nil => simp [Start, lead]
  | cons token tokens ih =>
    by_cases hany : token = .any
    · have hlead : lead (token :: tokens) = lead tokens + 1 := by simp [lead, hany]
      rw [hlead, drop_succ_cons, hany, splits_any]
      constructor
      · rintro ⟨k, hk, hsplits⟩
        obtain ⟨i, hi, hsplits⟩ := ih.mp hsplits
        have hle := hi.1
        rw [length_drop] at hle
        exact ⟨k + i, ⟨by omega, by simp⟩, by rwa [drop_drop] at hsplits⟩
      · rintro ⟨i, hi, hsplits⟩
        exact ⟨i, hi.1, ih.mpr ⟨0, ⟨Nat.zero_le _, fun _ => rfl⟩, hsplits⟩⟩
    · simp [Start, lead, hany]

lemma matchStart_answers {s pattern : String} {turns : ℕ}
    (hturns : (s.length + 1) * (pattern.length + 1) ≤ turns)
    (ht : tokenize escape c.closesClassAtPatternEnd pattern.toList = some tokens) :
    ∃ r, c.matchStart turns s pattern escape = some r ∧ (r.isSome ↔ c.Splits tokens s.toList) ∧
      if tokens.drop (lead tokens) = [] ∧ 0 < lead tokens then r = some 0
      else Answers c s.toList (tokens.drop (lead tokens)) (lead tokens = 0) r := by
  have hsome : ∀ {r}, Answers c s.toList (tokens.drop (lead tokens)) (lead tokens = 0) r →
      (r.isSome ↔ c.Splits tokens s.toList) := by
    intro r hr
    rw [splits_lead]
    cases r with
    | none =>
      refine ⟨by simp, ?_⟩
      rintro ⟨i, hi, hsplits⟩
      exact (hr i hi hsplits).elim
    | some i => exact ⟨fun _ => ⟨i, hr.1, hr.2.1⟩, fun _ => rfl⟩
  rw [matchStart, ht]
  by_cases hrest : tokens.drop (lead tokens) = []
  · by_cases hlead : 0 < lead tokens
    · refine ⟨some 0, by simp [hrest, hlead], ?_, by simp [hrest, hlead]⟩
      rw [splits_lead, hrest]
      exact ⟨fun _ => ⟨s.toList.length, ⟨le_rfl, by simp [hlead.ne']⟩, by simp [splits_nil]⟩,
        fun _ => rfl⟩
    · have hr : Answers c s.toList (tokens.drop (lead tokens)) (lead tokens = 0)
          (if contentLength s.toList = 0 then some 0 else none) := by
        rw [hrest]
        split_ifs with hcontent
        · exact ⟨⟨Nat.zero_le _, fun _ => rfl⟩, (from_end rfl).mpr hcontent.le, by simp⟩
        · intro i hi hfrom
          rw [hi.2 (by simpa using hlead)] at hfrom
          exact hcontent (Nat.le_zero.mp ((from_end rfl).mp hfrom))
      exact ⟨_, by simp [hrest, hlead], hsome hr, by rwa [if_neg (by simp [hlead])]⟩
  · have hlength := length_tokenize ht
    rw [String.length_toList] at hlength
    obtain ⟨r, hpass, hr⟩ := matchFrom_answers c s.toList (tokens.drop (lead tokens))
      (lead tokens = 0) (le_trans (Nat.mul_le_mul (by rw [String.length_toList])
        (by rw [length_drop]; omega)) hturns)
    exact ⟨r, by simpa [hrest] using hpass, hsome hr, by rwa [if_neg (by simp [hrest])]⟩

/-- **A pattern matches by splitting**: within turns bounded by the product of the two lengths,
`LIKE` is true when the tokens split the text, and `PATINDEX` is the first start from which the
tokens after the leading `%` split the rest of it; a pattern of `%` only is found at 1. -/
theorem patterns_match_by_splitting (c : Collation) (s pattern : String) (escape : Option Char) :
    (∃ r, c.like ((s.length + 1) * (pattern.length + 1)) s pattern escape = some r ∧
      (r = true ↔ ∃ tokens, tokenize escape c.closesClassAtPatternEnd pattern.toList = some tokens ∧
        c.Splits tokens s.toList)) ∧
    ∃ start : Option ℕ, c.patternPosition ((s.length + 1) * (pattern.length + 1)) s pattern =
        some ((start.map (· + 1)).getD 0) ∧
      (tokenize none c.closesClassAtPatternEnd pattern.toList = none → start = none) ∧
      ∀ tokens, tokenize none c.closesClassAtPatternEnd pattern.toList = some tokens →
        if tokens.drop (lead tokens) = [] ∧ 0 < lead tokens then start = some 0
        else Answers c s.toList (tokens.drop (lead tokens)) (lead tokens = 0) start := by
  constructor
  · cases ht : tokenize escape c.closesClassAtPatternEnd pattern.toList with
    | none => exact ⟨false, by simp [like, matchStart, ht], by simp⟩
    | some tokens =>
      obtain ⟨r, hr, hsome, -⟩ := matchStart_answers (s := s) le_rfl ht
      exact ⟨r.isSome, by rw [like, hr]; rfl, by simpa using hsome⟩
  · cases ht : tokenize none c.closesClassAtPatternEnd pattern.toList with
    | none => exact ⟨none, by simp [patternPosition, matchStart, ht], fun _ => rfl, by simp⟩
    | some tokens =>
      obtain ⟨r, hr, -, hanswers⟩ := matchStart_answers (s := s) le_rfl ht
      refine ⟨r, by rw [patternPosition, hr]; rfl, by simp, ?_⟩
      rintro _ ⟨⟩
      exact hanswers

example : like .default 20 "abc " "A_C" none = some true := by decide +kernel

example : patternPosition .default 35 "abcdef" "%[c-e]f" = some 5 := by decide +kernel

/-- `%` is found at 1 in `abc`, where nothing that follows it splits the text. -/
theorem lone_percent_is_found_at_one : patternPosition .default 8 "abc" "%" = some 1 ∧
    tokenize none Collation.default.closesClassAtPatternEnd ['%'] = some [.any] ∧
    ¬ Collation.default.Splits [] ("abc".toList.drop 0) := by
  refine ⟨by decide +kernel, by decide +kernel, ?_⟩
  rw [splits_nil]
  simp

end VaubanDB.Collation
