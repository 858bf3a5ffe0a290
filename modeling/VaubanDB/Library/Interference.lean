import VaubanDB.Library.Machine
import VaubanDB.Library.Program

/-!
Programs that run among others.

A thread runs a `Program` on a state that others change as well, between two of its operations and
while one of them waits.  The program is verified against a specification over what the thread knows
of the state; `Refines` says that the operations meet it and that the others leave what the thread
knows as it is.  `runs_follow` is the rule for whole runs.
-/

/-- Operations on a state.  An operation is answered at once, or it gets a ticket and is looked at
again; `χ` settles what is left open. -/
structure Operations (σ Op : Type) (Ans : Op → Type) (χ : Type) where
  Ticket : Type
  start : (op : Op) → χ → σ → Option (σ × (Ans op ⊕ Ticket))
  again : (op : Op) → Ticket → χ → σ → Option (σ × (Ans op ⊕ Ticket))

namespace Operations

variable {σ τ Op χ ε α β : Type} {Ans : Op → Type}

/-! ### Threads -/

/-- Where a thread is: before its next operation, or waiting for an answer. -/
inductive Thread (O : Operations σ Op Ans χ) (α : Type) where
  | next (p : Program Op Ans α)
  | waiting (op : Op) (t : O.Ticket) (k : Ans op → Program Op Ans α)

/-- The thread once an operation has an answer or a ticket. -/
def Thread.after {O : Operations σ Op Ans χ} {op : Op} (k : Ans op → Program Op Ans α) :
    Ans op ⊕ O.Ticket → O.Thread α
  | .inl a => .next (k a)
  | .inr t => .waiting op t k

/-- What happens next: the thread goes on, or the others take a step. -/
inductive Action (χ ε : Type) where
  | run (c : χ)
  | other (e : ε)

/-- What an action makes of the state and the thread. -/
def exec (O : Operations σ Op Ans χ) (env : σ → ε → Option σ) :
    σ × O.Thread α → Action χ ε → Option (σ × O.Thread α)
  | (_, .next (.done _)), .run _ => none
  | (s, .next (.call op k)), .run c => (O.start op c s).map fun r => (r.1, .after k r.2)
  | (s, .waiting op t k), .run c => (O.again op t c s).map fun r => (r.1, .after k r.2)
  | (s, th), .other e => (env s e).map fun s' => (s', th)

lemma exec_other (O : Operations σ Op Ans χ) (env : σ → ε → Option σ) (s : σ) (th : O.Thread α)
    (e : ε) : O.exec env (s, th) (.other e) = (env s e).map fun s' => (s', th) := by
  cases th with
  | next p => cases p <;> rfl
  | waiting op t k => rfl

/-- The thread that runs a program among others. -/
def machine (O : Operations σ Op Ans χ) (env : σ → ε → Option σ) (s : σ) (p : Program Op Ans α) :
    Machine (σ × O.Thread α) (Action χ ε) :=
  ⟨(s, .next p), O.exec env⟩

/-- The others take only the steps that they may take. -/
def Among {O : Operations σ Op Ans χ} (ok : σ → ε → Prop) :
    σ × O.Thread α → Action χ ε → Prop
  | _, .run _ => True
  | (s, _), .other e => ok s e

/-- The thread goes on, and its operations are answered at once. -/
inductive Goes (O : Operations σ Op Ans χ) : σ → Program Op Ans α → σ → Program Op Ans α → Prop
  | refl (s : σ) (p : Program Op Ans α) : Goes O s p s p
  | step {s s₁ s' : σ} {op : Op} {k : Ans op → Program Op Ans α} {p' : Program Op Ans α}
      {a : Ans op}
      (c : χ) (h : O.start op c s = some (s₁, .inl a)) (rest : Goes O s₁ (k a) s' p') :
      Goes O s (.call op k) s' p'

variable {p : Program Op Ans α} {O : Operations σ Op Ans χ} {p' : Program Op Ans α}

lemma Goes.bind {s s' : σ}
    (h : O.Goes s p s' p') (f : α → Program Op Ans β) : O.Goes s (p >>= f) s' (p' >>= f) := by
  induction h with
  | refl s p => exact .refl s _
  | step c h _ ih => exact .step c h ih

lemma Goes.reachable {env : σ → ε → Option σ} {ok : σ → ε → Prop}
    {s₀ s s' : σ} {p₀ : Program Op Ans α} (h : O.Goes s p s' p')
    (hs : (O.machine env s₀ p₀).Reachable (Among ok) (s, .next p)) :
    (O.machine env s₀ p₀).Reachable (Among ok) (s', .next p') := by
  induction h with
  | refl s p => exact hs
  | step c hstart _ ih =>
    refine ih (hs.next (a := .run c) trivial ?_)
    change (O.start _ c _).map _ = _
    rw [hstart]
    rfl

/-! ### Verified programs -/

/-- What an operation leaves the thread with: an answer that the rest may rely on, or a ticket. -/
def Leaves {O : Operations σ Op Ans χ} (R : σ → τ → Prop) (W : (op : Op) → O.Ticket → σ → τ → Prop)
    {op : Op} (Q : Ans op → τ → Prop) (s : σ) (t : τ) : Ans op ⊕ O.Ticket → Prop
  | .inl a => ∃ t', R s t' ∧ Q a t'
  | .inr k => W op k s t

/-- The operations meet a specification: `R` relates a state to what is known between two
operations, `W` while one waits. -/
structure Refines (O : Operations σ Op Ans χ) (env : σ → ε → Option σ) (ok : σ → ε → Prop)
    (spec : Program.Spec Op Ans τ) (R : σ → τ → Prop) (W : (op : Op) → O.Ticket → σ → τ → Prop) :
    Prop where
  others : ∀ s t e s', R s t → ok s e → env s e = some s' → R s' t
  othersWait : ∀ op k s t e s', W op k s t → ok s e → env s e = some s' → W op k s' t
  start : ∀ op c s t s' r (Q : Ans op → τ → Prop), R s t → spec op t Q →
    O.start op c s = some (s', r) → Leaves R W Q s' t r
  again : ∀ op k c s t s' r (Q : Ans op → τ → Prop), W op k s t → spec op t Q →
    O.again op k c s = some (s', r) → Leaves R W Q s' t r

variable {O : Operations σ Op Ans χ} {env : σ → ε → Option σ} {ok : σ → ε → Prop}
  {spec : Program.Spec Op Ans τ} {R : σ → τ → Prop} {W : (op : Op) → O.Ticket → σ → τ → Prop}

/-- The rest of the program is verified from what the thread knows. -/
def Follows (spec : Program.Spec Op Ans τ) (R : σ → τ → Prop)
    (W : (op : Op) → O.Ticket → σ → τ → Prop) (Q : α → τ → Prop) : σ × O.Thread α → Prop
  | (s, .next p) => ∃ t, R s t ∧ p.wp spec Q t
  | (s, .waiting op k rest) => ∃ t, W op k s t ∧ spec op t fun a t' => (rest a).wp spec Q t'

variable {Q : α → τ → Prop} {s : σ × O.Thread α}

lemma Refines.follows_step (h : O.Refines env ok spec R W)
    {s' : σ × O.Thread α} {a : Action χ ε} (hs : Follows spec R W Q s) (hok : Among ok s a)
    (hexec : O.exec env s a = some s') : Follows spec R W Q s' := by
  obtain ⟨s, th⟩ := s
  cases a with
  | other e =>
    rw [exec_other] at hexec
    obtain ⟨s₁, he, rfl⟩ := Option.map_eq_some_iff.mp hexec
    cases th with
    | next p =>
      obtain ⟨t, hR, hp⟩ := hs
      exact ⟨t, h.others s t e s₁ hR hok he, hp⟩
    | waiting op k rest =>
      obtain ⟨t, hW, hrest⟩ := hs
      exact ⟨t, h.othersWait op k s t e s₁ hW hok he, hrest⟩
  | run c =>
    cases th with
    | next p =>
      cases p with
      | done a => cases hexec
      | call op rest =>
        obtain ⟨⟨s₁, r⟩, hstart, rfl⟩ := Option.map_eq_some_iff.mp hexec
        obtain ⟨t, hR, hp⟩ := hs
        have hnext := h.start op c s t s₁ r _ hR hp hstart
        cases r with
        | inl a => exact hnext
        | inr k => exact ⟨t, hnext, hp⟩
    | waiting op k rest =>
      obtain ⟨⟨s₁, r⟩, hagain, rfl⟩ := Option.map_eq_some_iff.mp hexec
      obtain ⟨t, hW, hrest⟩ := hs
      have hnext := h.again op k c s t s₁ r _ hW hrest hagain
      cases r with
      | inl a => exact hnext
      | inr k' => exact ⟨t, hnext, hrest⟩

/-- In every state that a run of a verified program reaches, what the thread knows is right, and the
rest of the program is as it was verified. -/
theorem Refines.runs_follow (h : O.Refines env ok spec R W) {s₀ : σ} {t₀ : τ}
    (hR : R s₀ t₀) (hp : p.wp spec Q t₀)
    (hs : (O.machine env s₀ p).Reachable (Among ok) s) : Follows spec R W Q s :=
  hs.invariant (P := Follows spec R W Q) ⟨t₀, hR, hp⟩
    fun _ _ _ hfollows hok hexec => h.follows_step hfollows hok hexec

lemma Refines.guard (h : O.Refines env ok spec R W) (I : τ → Prop) :
    O.Refines env ok (fun op t Q => I t ∧ spec op t Q) R W where
  others := h.others
  othersWait := h.othersWait
  start op c s t s' r Q hR hQ hs := h.start op c s t s' r Q hR hQ.2 hs
  again op k c s t s' r Q hW hQ hs := h.again op k c s t s' r Q hW hQ.2 hs

end Operations
