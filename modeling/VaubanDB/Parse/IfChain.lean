import Mathlib
import VaubanDB.Library.Results

/-!
`IF` statements (`vauban-parser/src/parser/flow.rs`, `stmt.rs` and `mod.rs`).

A chain `IF … ELSE IF … ELSE …` is read in a loop, which counts the semicolons in front of an `ELSE`
before it skips them, and its links are folded into nested statements once it has ended.  `readIf`
is the recursive reading: what follows an `ELSE`, with any semicolons before it, is read as a
statement.  The rules of the conditions and of the other statements are parameters; whatever they
do, the loop answers as the recursive reading (`parseIf_eq`), in which an `ELSE` belongs to the
nearest `IF` without one (`chains_are_nested_ifs`).
-/

namespace VaubanDB.Parse

open EStateM

inductive TokenKind where
  | kwIf
  | kwElse
  | kwBegin
  | kwEnd
  | semicolon
  | eof
  | other (text : String)
  deriving DecidableEq

structure Token where
  kind : TokenKind
  line : ℕ

/-- The tokens from the cursor on, which end with `eof`; `rest` is for the other rules. -/
structure Parser (ρ : Type) where
  tokens : List Token
  depth : ℕ
  elseLinks : ℕ
  statementLine : ℕ
  rest : ρ

inductive ParseError where
  /-- 191. -/
  | nestedTooDeeply (line : ℕ)
  /-- 102 or 156, on the token at the cursor. -/
  | incorrectSyntax (token : Token)
  | other (number line : ℕ)
  | unreachable
  /-- The turns of a loop are used up. -/
  | endless

abbrev Rule (ρ α : Type) := EStateM ParseError (Parser ρ) α

def maxNestingDepth : ℕ := 220

def maxElseChain : ℕ := 253

variable {ρ α E O : Type}

namespace Parser

variable (p : Parser ρ)

def peek : Token := p.tokens.headD ⟨.eof, 0⟩

def atKeyword (k : TokenKind) : Bool := p.peek.kind = k

/-- The cursor stays on the last token. -/
def advance : Parser ρ :=
  { p with tokens := if 1 < p.tokens.length then p.tokens.tail else p.tokens }

/-- The token `n` places ahead; the last one is `eof`. -/
def peekAt (n : ℕ) : Token := p.tokens.getD n ⟨.eof, 0⟩

/-- The first place ahead without a semicolon. -/
def semicolons : ℕ := p.tokens.findIdx (·.kind ≠ .semicolon)

/-- Semicolons are skipped in front of an `ELSE` only. -/
def skipToElse : Parser ρ :=
  if 0 < p.semicolons ∧ (p.peekAt p.semicolons).kind = .kwElse then advance^[p.semicolons] p else p

def closeElses (count : ℕ) : Parser ρ := { p with elseLinks := p.elseLinks - count }

/-- A mark is the number of tokens that are left, a span the marks it starts and ends at. -/
def spanFrom (mark : ℕ) : ℕ × ℕ := (mark, p.tokens.length)

end Parser

def expectKeyword (k : TokenKind) : Rule ρ Unit := fun p =>
  if p.atKeyword k then .ok () p.advance else .error (.incorrectSyntax p.peek) p

/-- A rule, followed by `f` whether it succeeds or fails. -/
def finishing (f : Parser ρ → Parser ρ) (rule : Rule ρ α) : Rule ρ α := fun p =>
  match rule p with
  | .ok a p => .ok a (f p)
  | .error e p => .error e (f p)

def inStatement (rule : Rule ρ α) : Rule ρ α := fun p =>
  finishing ({ · with statementLine := p.statementLine }) rule
    { p with statementLine := p.peek.line }

def nested (rule : Rule ρ α) : Rule ρ α := fun p =>
  if maxNestingDepth ≤ p.depth then .error (.nestedTooDeeply p.peek.line) p
  else finishing (fun p => { p with depth := p.depth - 1 }) rule { p with depth := p.depth + 1 }

def openElse : Rule ρ Unit := fun p =>
  if 2 * maxElseChain + 1 < 2 * (p.elseLinks + 1) + p.depth then
    .error (.nestedTooDeeply p.peek.line) p
  else .ok () { p with elseLinks := p.elseLinks + 1 }

/-- A statement of another kind comes with the statements it holds. -/
inductive Statement (E O : Type) where
  | ifElse (condition : E) (thenBranch : Statement E O) (elseBranch : Option (Statement E O))
      (span : ℕ × ℕ)
  | other (o : O) (parts : List (Statement E O))

/-- One `IF` of a chain: where it starts, its condition and its branch. -/
structure Link (E O : Type) where
  start : ℕ
  condition : E
  thenBranch : Statement E O

def Link.node (l : Link E O) (p : Parser ρ) (elseBranch : Option (Statement E O)) :
    Statement E O :=
  .ifElse l.condition l.thenBranch elseBranch (p.spanFrom l.start)

section Chain

variable (condition : Rule ρ E) (statement : Rule ρ (Statement E O))

/-- An `IF`, its condition and its branch. -/
def readLink : Rule ρ (Link E O) := do
  let start := (← get).tokens.length
  expectKeyword .kwIf
  let condition ← condition
  let thenBranch ← statement
  return ⟨start, condition, thenBranch⟩

/-- A turn of the loop up to the `ELSE`. -/
def parseLink : Rule ρ (Link E O) := do
  let link ← readLink condition statement
  modify Parser.skipToElse
  return link

/-- The loop of `parse_if_chain`; with its answer, the number of `ELSE`s it has opened. -/
def chainLoop : ℕ → List (Link E O) → ℕ → Parser ρ →
    Result ParseError (Parser ρ) (List (Link E O) × Option (Statement E O)) × ℕ
  | 0, _, elses, p => (.error .endless p, elses)
  | turns + 1, links, elses, p =>
    match parseLink condition statement p with
    | .error e p => (.error e p, elses)
    | .ok link p =>
      if !p.atKeyword .kwElse then (.ok (links ++ [link], none) p, elses)
      else
        match openElse p with
        | .error e p => (.error e p, elses)
        | .ok _ p =>
          if !p.advance.atKeyword .kwIf then
            match statement p.advance with
            | .error e p => (.error e p, elses + 1)
            | .ok s p => (.ok (links ++ [link], some s) p, elses + 1)
          else chainLoop turns (links ++ [link]) (elses + 1) p.advance

/-- The links are folded from the innermost outwards, and the `ELSE`s given back. -/
def foldChain : Result ParseError (Parser ρ) (List (Link E O) × Option (Statement E O)) × ℕ →
    Result ParseError (Parser ρ) (Statement E O)
  | (.error e p, elses) => .error e (p.closeElses elses)
  | (.ok (links, last) p, elses) =>
    match links.foldr (fun l s => some (l.node p s)) last with
    | some s => .ok s (p.closeElses elses)
    | none => .error .unreachable p

def parseIf : Rule ρ (Statement E O) := fun p =>
  foldChain (chainLoop condition statement (maxElseChain + 1) [] 0 p)

/-- The tokens from an `ELSE` on that comes next or after semicolons. -/
def elseAhead : List Token → Option (List Token)
  | ⟨.semicolon, _⟩ :: tokens => elseAhead tokens
  | ⟨.kwElse, line⟩ :: tokens => some (⟨.kwElse, line⟩ :: tokens)
  | _ => none

/-- The recursive reading; an `ELSE` is given back once its branch is read. -/
def readIf : ℕ → Rule ρ (Statement E O)
  | 0, p => .error .endless p
  | turns + 1, p =>
    match readLink condition statement p with
    | .error e p => .error e p
    | .ok link p =>
      match elseAhead p.tokens with
      | none => .ok (link.node p none) p
      | some tokens =>
        match openElse { p with tokens } with
        | .error e p => .error e p
        | .ok _ p =>
          match finishing (·.closeElses 1)
            (fun p => if !p.atKeyword .kwIf then statement p else readIf turns p) p.advance with
          | .error e p => .error e p
          | .ok s p => .ok (link.node p (some s)) p

lemma closeElses_closeElses (p : Parser ρ) (m n : ℕ) :
    (p.closeElses m).closeElses n = p.closeElses (n + m) := by
  simp [Parser.closeElses, Nat.sub_sub, Nat.add_comm]

/-- The answer of a loop that has read `links` before, from the reading of what comes next. -/
inductive Folds (links : List (Link E O)) (elses : ℕ) :
    Result ParseError (Parser ρ) (Statement E O) → Result ParseError (Parser ρ) (Statement E O) →
      Prop
  | error (e : ParseError) (p : Parser ρ) :
    Folds links elses (.error e p) (.error e (p.closeElses elses))
  | ok {s s' : Statement E O} {p : Parser ρ}
      (h : links.foldr (fun l s => some (l.node p s)) (some s) = some s') :
    Folds links elses (.ok s p) (.ok s' (p.closeElses elses))

lemma Folds.of_last {link : Link E O} {links : List (Link E O)} (p : Parser ρ) (elses m : ℕ)
    (last : Option (Statement E O)) :
    Folds links elses (.ok (link.node p last) (p.closeElses m))
      (foldChain (.ok (links ++ [link], last) p, elses + m)) := by
  obtain ⟨s', hs⟩ : ∃ s', links.foldr (fun l s => some (l.node p s))
      (some (link.node p last)) = some s' := by
    cases links <;> simp
  simp only [foldChain, List.foldr_append, List.foldr_cons, List.foldr_nil, hs]
  rw [← closeElses_closeElses]
  exact .ok hs

lemma parseLink_apply (p : Parser ρ) : parseLink condition statement p =
    match readLink condition statement p with
    | .ok link p => .ok link p.skipToElse
    | .error e p => .error e p := by
  cases hlink : readLink condition statement p with
  | ok link p₁ => exact bind_of_ok hlink
  | error e p₁ => exact bind_of_error hlink

lemma advance_iterate (p : Parser ρ) {n : ℕ} (hn : n < p.tokens.length) :
    Parser.advance^[n] p = { p with tokens := p.tokens.drop n } := by
  induction n with
  | zero => rfl
  | succ n ih =>
    rw [Function.iterate_succ_apply', ih (by omega), Parser.advance, List.length_drop,
      if_pos (by omega), List.tail_drop]

/-- The semicolons the loop counts are those the recursive reading passes over. -/
lemma skipToElse_of_some {p : Parser ρ} {tokens : List Token}
    (h : elseAhead p.tokens = some tokens) :
    p.skipToElse = { p with tokens } ∧ Parser.atKeyword { p with tokens } .kwElse = true := by
  obtain ⟨hlt, helse, hdrop, hhead⟩ : p.semicolons < p.tokens.length ∧
      (p.peekAt p.semicolons).kind = .kwElse ∧ p.tokens.drop p.semicolons = tokens ∧
      (tokens.headD ⟨.eof, 0⟩).kind = .kwElse := by
    unfold Parser.semicolons Parser.peekAt
    generalize p.tokens = l at h
    fun_induction elseAhead l with
    | case1 line l ih => simpa [List.findIdx_cons] using ih h
    | case2 line l =>
      cases h
      simp [List.findIdx_cons]
    | case3 => cases h
  refine ⟨?_, decide_eq_true hhead⟩
  rw [Parser.skipToElse]
  split_ifs with hskip
  · rw [advance_iterate p hlt, hdrop]
  · have hzero : p.semicolons = 0 := by
      by_contra hne
      exact hskip ⟨Nat.pos_of_ne_zero hne, helse⟩
    rw [← hdrop, hzero, List.drop_zero]

lemma skipToElse_of_none {p : Parser ρ} (h : elseAhead p.tokens = none) :
    p.skipToElse = p ∧ p.atKeyword .kwElse = false := by
  obtain ⟨helse, hhead⟩ : (p.peekAt p.semicolons).kind ≠ .kwElse ∧ p.peek.kind ≠ .kwElse := by
    unfold Parser.semicolons Parser.peekAt Parser.peek
    generalize p.tokens = l at h
    fun_induction elseAhead l with
    | case1 line l ih => simpa [List.findIdx_cons] using (ih h).1
    | case2 => cases h
    | case3 l hsemi helse =>
      cases l with
      | nil => simp
      | cons t l =>
        obtain ⟨kind, line⟩ := t
        have hs : kind ≠ .semicolon := fun hk => hsemi line l (by rw [hk])
        have he : kind ≠ .kwElse := fun hk => helse line l (by rw [hk])
        simp [List.findIdx_cons, hs, he]
  exact ⟨if_neg fun hskip => helse hskip.2, decide_eq_false hhead⟩

lemma folds_chainLoop (turns : ℕ) (links : List (Link E O)) (elses : ℕ) (p : Parser ρ) :
    Folds links elses (readIf condition statement turns p)
      (foldChain (chainLoop condition statement turns links elses p)) := by
  induction turns generalizing links elses p with
  | zero => exact .error _ p
  | succ turns ih =>
    rw [readIf, chainLoop, parseLink_apply]
    cases readLink condition statement p with
    | error e p₁ => exact .error e p₁
    | ok link p₁ =>
      dsimp only
      cases hahead : elseAhead p₁.tokens with
      | none =>
        obtain ⟨hskip, helse⟩ := skipToElse_of_none hahead
        rw [hskip, helse]
        exact .of_last p₁ elses 0 none
      | some tokens =>
        obtain ⟨hskip, helse⟩ := skipToElse_of_some hahead
        rw [hskip, helse, Bool.not_true, if_neg Bool.false_ne_true]
        dsimp only
        cases openElse { p₁ with tokens } with
        | error e p₂ => exact .error e p₂
        | ok _ p₂ =>
          dsimp only [finishing]
          by_cases hif : p₂.advance.atKeyword .kwIf
          · have h := ih (links ++ [link]) (elses + 1) p₂.advance
            simp only [hif, Bool.not_true, Bool.false_eq_true, if_false]
            revert h
            generalize foldChain _ = out
            cases readIf condition statement turns p₂.advance with
            | error e p₃ =>
              rintro ⟨⟩
              rw [← closeElses_closeElses]
              exact .error e _
            | ok s p₃ =>
              rintro (_ | h)
              rw [List.foldr_append] at h
              rw [← closeElses_closeElses]
              exact .ok h
          · simp only [hif, Bool.not_false, if_true]
            cases statement p₂.advance with
            | error e p₃ =>
              show Folds _ _ _ (.error e (p₃.closeElses (elses + 1)))
              rw [← closeElses_closeElses]
              exact .error e _
            | ok s p₃ => exact .of_last p₃ elses 1 (some s)

lemma parseIf_eq : parseIf condition statement = readIf condition statement (maxElseChain + 1) := by
  funext p
  have h := folds_chainLoop condition statement (maxElseChain + 1) [] 0 p
  rw [parseIf]
  revert h
  generalize foldChain _ = out
  cases readIf condition statement (maxElseChain + 1) p with
  | error e p' =>
    rintro ⟨⟩
    rfl
  | ok s p' =>
    rintro (_ | ⟨⟨⟩⟩)
    rfl

/-! ### The turns suffice -/

/-- The rule gives back the depth and the `ELSE`s it takes, and its loops end. -/
def Settled (p : Parser ρ) : Result ParseError (Parser ρ) α → Prop
  | .ok _ p' => p'.elseLinks = p.elseLinks ∧ p'.depth = p.depth
  | .error e _ => e ≠ .endless

def Settles (depth : ℕ) (rule : Rule ρ α) : Prop := ∀ p, depth ≤ p.depth → Settled p (rule p)

variable {depth : ℕ} {p q : Parser ρ}

lemma Settled.congr {out : Result ParseError (Parser ρ) α} (ho : Settled q out)
    (h : q.elseLinks = p.elseLinks ∧ q.depth = p.depth) : Settled p out := by
  cases out with
  | ok a p' => exact ⟨ho.1.trans h.1, ho.2.trans h.2⟩
  | error e p' => exact ho

lemma Settled.finishing {f : Parser ρ → Parser ρ} {rule : Rule ρ α} (h : Settled q (rule q))
    (hf : ∀ p', p'.elseLinks = q.elseLinks ∧ p'.depth = q.depth →
      (f p').elseLinks = p.elseLinks ∧ (f p').depth = p.depth) :
    Settled p (finishing f rule q) := by
  revert h
  rw [Parse.finishing]
  cases rule q with
  | ok a p' => exact hf p'
  | error e p' => exact id

lemma Settles.bind {β : Type} {x : Rule ρ α} {f : α → Rule ρ β} (hx : Settles depth x)
    (hf : ∀ a, Settles depth (f a)) : Settles depth (x >>= f) := by
  intro p hp
  have h := hx p hp
  cases hxp : x p with
  | ok a p₁ =>
    rw [hxp] at h
    rw [bind_of_ok hxp]
    exact (hf a p₁ (h.2.symm ▸ hp)).congr h
  | error e p₁ =>
    rw [hxp] at h
    rwa [bind_of_error hxp]

lemma settles_pure (a : α) : Settles depth (pure a : Rule ρ α) := fun _ _ => ⟨rfl, rfl⟩

lemma settles_expectKeyword (k : TokenKind) : Settles depth (expectKeyword k : Rule ρ Unit) := by
  intro p _
  rw [expectKeyword]
  split
  · exact ⟨rfl, rfl⟩
  · rintro ⟨⟩

variable {condition statement} (hc : Settles depth condition) (hs : Settles depth statement)
include hc hs

lemma settles_readLink : Settles depth (readLink condition statement) := by
  intro p
  exact ((settles_expectKeyword _).bind fun _ => hc.bind fun c => hs.bind fun s =>
    settles_pure _) p

/-- The budget of `openElse` bounds the links of a chain. -/
lemma settled_readIf {turns : ℕ} (hturns : turns ≠ 0) (hp : maxElseChain < p.elseLinks + turns)
    (hd : depth ≤ p.depth) : Settled p (readIf condition statement turns p) := by
  induction turns generalizing p with
  | zero => exact absurd rfl hturns
  | succ turns ih =>
    have hl := settles_readLink hc hs p hd
    rw [readIf]
    revert hl
    cases readLink condition statement p with
    | error e p₁ => exact id
    | ok link p₁ =>
      rintro ⟨hlinks, hdepth⟩
      dsimp only
      split
      next => exact ⟨hlinks, hdepth⟩
      next tokens _ =>
        rw [openElse]
        dsimp only
        split_ifs with hbudget
        · rintro ⟨⟩
        · refine Settled.congr ?_ ⟨hlinks, hdepth⟩
          set p₂ : Parser ρ := { p₁ with tokens, elseLinks := p₁.elseLinks + 1 }
          have hbranch : Settled p₁ (finishing (·.closeElses 1) (fun p =>
              if !p.atKeyword .kwIf then statement p else readIf condition statement turns p)
              p₂.advance) := by
            refine Settled.finishing ?_ fun p' h => ⟨?_, h.2⟩
            · split
              next => exact hs _ (hd.trans_eq hdepth.symm)
              next =>
                refine ih (by omega) ?_ (hd.trans_eq hdepth.symm)
                show maxElseChain < p₁.elseLinks + 1 + turns
                omega
            · show p'.elseLinks - 1 = _
              rw [h.1]
              rfl
          dsimp only
          split <;>
          next hout =>
            rw [hout] at hbranch
            exact hbranch

lemma settles_parseIf : Settles depth (parseIf condition statement) := fun p hp => by
  rw [parseIf_eq]
  exact settled_readIf hc hs (by decide) (by omega) hp

end Chain

/-- `parse_statement`, over the rules of an `IF` and of the statements of another kind, which
read the statements they hold one level deeper. -/
def parseStatement (ifRule : Rule ρ (Statement E O) → Rule ρ (Statement E O))
    (otherRule : Rule ρ (Statement E O) → Rule ρ (O × List (Statement E O))) :
    ℕ → Rule ρ (Statement E O)
  | 0 => throw .endless
  | levels + 1 => inStatement (nested fun p =>
    if p.atKeyword .kwIf then ifRule (parseStatement ifRule otherRule levels) p
    else (do
      let (o, parts) ← otherRule (parseStatement ifRule otherRule levels)
      return Statement.other o parts) p)

lemma settles_statement {depth : ℕ} {rule : Rule ρ α}
    (h : ∀ p, p.depth ≤ maxNestingDepth → depth < p.depth → Settled p (rule p)) :
    Settles depth (inStatement (nested rule)) := by
  intro p hp
  refine Settled.finishing ?_ fun p' => id
  rw [nested]
  split_ifs with hmax
  · rintro ⟨⟩
  · refine Settled.finishing (h _ (not_le.mp hmax) (Nat.lt_succ_of_le hp)) fun p' h => ⟨h.1, ?_⟩
    show p'.depth - 1 = _
    rw [h.2]
    rfl

section Levels

variable (condition : Rule ρ E)
  (otherRule : Rule ρ (Statement E O) → Rule ρ (O × List (Statement E O)))

/-- The limit on the depth bounds the levels. -/
lemma settles_parseStatement (hc : Settles 0 condition)
    (ho : ∀ depth statement, Settles depth statement → Settles depth (otherRule statement))
    (levels : ℕ) : Settles (maxNestingDepth - levels)
      (parseStatement (parseIf condition) otherRule (levels + 1)) := by
  induction levels with
  | zero => exact settles_statement fun p hmax hp => absurd hp (not_lt.mpr hmax)
  | succ levels ih =>
    refine settles_statement fun p _ hp => ?_
    have hd : maxNestingDepth - levels ≤ p.depth := by omega
    split
    · exact settles_parseIf (fun p _ => hc p (Nat.zero_le _)) ih p hd
    · exact (ho _ _ ih).bind (fun a => settles_pure _) p hd

/-- **An `ELSE IF` chain is read as nested `IF`s.**  Whatever the rules of the conditions and of
the other statements are, and however deep the statements nest, the loop answers, fails and leaves
the parser as the recursive reading does.  The turns of the loop and the levels suffice when the
rules give back what they take. -/
theorem chains_are_nested_ifs :
    parseStatement (parseIf condition) otherRule =
      parseStatement (fun statement => readIf condition statement (maxElseChain + 1)) otherRule ∧
    (Settles 0 condition →
      (∀ depth statement, Settles depth statement → Settles depth (otherRule statement)) →
      ∀ p p', parseStatement (parseIf condition) otherRule (maxNestingDepth + 1) p ≠
        .error .endless p') := by
  constructor
  · congr 1
    funext statement
    exact parseIf_eq condition statement
  · intro hc ho p p' h
    have hsettled := settles_parseStatement condition otherRule hc ho maxNestingDepth p (by simp)
    rw [h] at hsettled
    exact hsettled rfl

end Levels

/-- A rule that reads one token. -/
def word : Rule Unit String := fun p =>
  match p.peek.kind with
  | .other text => .ok text p.advance
  | _ => .error (.incorrectSyntax p.peek) p

lemma settles_word (depth : ℕ) : Settles depth word := by
  intro p _
  rw [word]
  split
  · exact ⟨rfl, rfl⟩
  · rintro ⟨⟩

/-- A word, or a block that holds one statement. -/
def wordOrBlock (statement : Rule Unit (Statement String String)) :
    Rule Unit (String × List (Statement String String)) := do
  if (← get).atKeyword .kwBegin then
    expectKeyword .kwBegin
    let part ← statement
    expectKeyword .kwEnd
    return ("block", [part])
  else return (← word, [])

lemma settles_wordOrBlock {depth : ℕ} {statement : Rule Unit (Statement String String)}
    (hs : Settles depth statement) : Settles depth (wordOrBlock statement) := by
  intro p
  rw [wordOrBlock, get_bind_apply]
  split_ifs
  · exact ((settles_expectKeyword _).bind fun _ => hs.bind fun _ =>
      (settles_expectKeyword _).bind fun _ => settles_pure _) p
  · exact ((settles_word depth).bind fun _ => settles_pure _) p

/-- `IF a IF b x; ELSE BEGIN y END ELSE IF c z;; ELSE u`: the first `ELSE` belongs to the `IF` of
the branch. -/
def chainOfWords : Parser Unit where
  tokens := [⟨.kwIf, 1⟩, ⟨.other "a", 1⟩, ⟨.kwIf, 1⟩, ⟨.other "b", 1⟩, ⟨.other "x", 1⟩,
    ⟨.semicolon, 1⟩, ⟨.kwElse, 2⟩, ⟨.kwBegin, 2⟩, ⟨.other "y", 2⟩, ⟨.kwEnd, 2⟩,
    ⟨.kwElse, 3⟩, ⟨.kwIf, 3⟩, ⟨.other "c", 3⟩, ⟨.other "z", 3⟩, ⟨.semicolon, 3⟩, ⟨.semicolon, 3⟩,
    ⟨.kwElse, 4⟩, ⟨.other "u", 4⟩, ⟨.eof, 4⟩]
  depth := 0
  elseLinks := 0
  statementLine := 1
  rest := ()

theorem chain_of_words_is_read :
    parseStatement (parseIf word) wordOrBlock (maxNestingDepth + 1) chainOfWords =
      .ok (.ifElse "a"
        (.ifElse "b" (.other "x" []) (some (.other "block" [.other "y" []])) (17, 9))
        (some (.ifElse "c" (.other "z" []) (some (.other "u" [])) (8, 1))) (19, 1))
        { chainOfWords with tokens := [⟨.eof, 4⟩] } ∧
    ∀ p', parseStatement (parseIf word) wordOrBlock (maxNestingDepth + 1) chainOfWords ≠
      .error .endless p' := by
  obtain ⟨heq, hends⟩ := chains_are_nested_ifs word wordOrBlock
  refine ⟨?_, hends (settles_word 0) (fun _ _ => settles_wordOrBlock) chainOfWords⟩
  rw [heq]
  cbv

end VaubanDB.Parse
