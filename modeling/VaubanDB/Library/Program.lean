import Mathlib.Tactic

/-!
Programs that ask for operations.

A `Program` is what a thread does between two answers: it ends, or it asks for an operation and goes
on with the answer.  A specification says, for each operation and state, what has to hold for it to
be made and what the rest may rely on; `wp` carries a postcondition back through a program.
-/

/-- A program over the operations `Op`. -/
inductive Program (Op : Type) (Ans : Op → Type) (α : Type) where
  | done (a : α)
  | call (op : Op) (k : Ans op → Program Op Ans α)

namespace Program

variable {Op : Type} {Ans : Op → Type} {α β ε ι σ : Type}

def bind : Program Op Ans α → (α → Program Op Ans β) → Program Op Ans β
  | .done a, f => f a
  | .call op k, f => .call op fun b => (k b).bind f

instance : Monad (Program Op Ans) where
  pure := .done
  bind := bind

def perform (op : Op) : Program Op Ans (Ans op) := .call op .done

/-- What an operation needs of a state, for the rest to be as a predicate on its answer and the
next state says. -/
abbrev Spec (Op : Type) (Ans : Op → Type) (σ : Type) :=
  (op : Op) → σ → (Ans op → σ → Prop) → Prop

def Spec.Mono (spec : Spec Op Ans σ) : Prop :=
  ∀ op s {Q Q' : Ans op → σ → Prop}, (∀ a s', Q a s' → Q' a s') → spec op s Q → spec op s Q'

/-- What a program needs of a state to end as `Q` says, each of its operations being made where its
specification allows it. -/
def wp (spec : Spec Op Ans σ) : Program Op Ans α → (α → σ → Prop) → σ → Prop
  | .done a, Q, s => Q a s
  | .call op k, Q, s => spec op s fun b s' => (k b).wp spec Q s'

variable {spec : Spec Op Ans σ} {s : σ}

@[simp] lemma wp_perform (op : Op) (Q : Ans op → σ → Prop) :
    (perform op : Program Op Ans _).wp spec Q s = spec op s Q := rfl

@[simp] lemma wp_bind (p : Program Op Ans α) (f : α → Program Op Ans β) (Q : β → σ → Prop) :
    (p >>= f).wp spec Q s = p.wp spec (fun a s' => (f a).wp spec Q s') s := by
  induction p generalizing s with
  | done a => rfl
  | call op k ih =>
    change (spec op s fun b s' => ((k b).bind f).wp spec Q s') = _
    congr 1
    funext b s'
    exact ih b

variable {p : Program Op Ans α}

lemma wp_mono (hspec : spec.Mono) {Q Q' : α → σ → Prop}
    (h : p.wp spec Q s) (hQ : ∀ a s', Q a s' → Q' a s') : p.wp spec Q' s := by
  induction p generalizing s with
  | done a => exact hQ a s h
  | call op k ih => exact hspec op s (fun b s' hb => ih b hb) h

/-- The program with its operations as operations of another kind. -/
def hoist {Op' : Type} {Ans' : Op' → Type} (f : Op → Op') (g : ∀ op, Ans' (f op) → Ans op) :
    Program Op Ans α → Program Op' Ans' α
  | .done a => .done a
  | .call op k => .call (f op) fun b => (k (g op b)).hoist f g

lemma wp_hoist {Op' : Type} {Ans' : Op' → Type} {spec' : Spec Op' Ans' σ} (f : Op → Op')
    (g : ∀ op, Ans' (f op) → Ans op) (p : Program Op Ans α) (Q : α → σ → Prop) :
    (p.hoist f g).wp spec' Q s =
      p.wp (fun op s Q => spec' (f op) s fun b s' => Q (g op b) s') Q s := by
  induction p generalizing s with
  | done a => rfl
  | call op k ih =>
    change (spec' (f op) s fun b s' => ((k (g op b)).hoist f g).wp spec' Q s') = _
    congr 1
    funext b s'
    exact ih (g op b)

/-- The program asks for operations of one kind only. -/
def Asks (P : Op → Prop) : Program Op Ans α → Prop
  | .done _ => True
  | .call op k => P op ∧ ∀ a, (k a).Asks P

variable {I : σ → Prop}

/-- What the operations of a kind keep, a program that asks for no others keeps. -/
lemma wp_of_asks {P : Op → Prop}
    (hop : ∀ op s (Q : Ans op → σ → Prop), P op → I s → (∀ a s', I s' → Q a s') → spec op s Q)
    (hp : p.Asks P) (hs : I s) : p.wp spec (fun _ s' => I s') s := by
  induction p generalizing s with
  | done a => exact hs
  | call op k ih => exact hop op s _ hp.1 hs fun a s' hs' => ih a (hp.2 a) hs'

/-! ### Programs that fail -/

@[simp] lemma wp_run_bind (p : ExceptT ε (Program Op Ans) α) (f : α → ExceptT ε (Program Op Ans) β)
    (Q : Except ε β → σ → Prop) :
    (p >>= f).run.wp spec Q s = p.run.wp spec (fun r s' => match r with
      | .ok a => (f a).run.wp spec Q s'
      | .error e => Q (.error e) s') s := by
  change (p.run >>= ExceptT.bindCont f).wp spec Q s = _
  rw [wp_bind]
  congr 1
  funext r s'
  cases r <;> rfl

@[simp] lemma wp_run_map (f : α → β) (p : ExceptT ε (Program Op Ans) α)
    (Q : Except ε β → σ → Prop) :
    (f <$> p).run.wp spec Q s = p.run.wp spec (fun r s' => Q (r.map f) s') s := by
  simp only [Functor.map, ExceptT.map]
  refine (wp_bind p.run _ Q).trans ?_
  congr 1
  funext r s'
  cases r <;> rfl

@[simp] lemma wp_run_lift (p : Program Op Ans α) (Q : Except ε α → σ → Prop) :
    (liftM p : ExceptT ε (Program Op Ans) α).run.wp spec Q s =
      p.wp spec (fun a s' => Q (.ok a) s') s := by
  change (p >>= fun a => .done (.ok a)).wp spec Q s = _
  rw [wp_bind]
  rfl

/-- The program with its failure as an answer. -/
def attempt (p : ExceptT ε (Program Op Ans) α) : ExceptT ε (Program Op Ans) (Except ε α) :=
  liftM p.run

@[simp] lemma wp_run_attempt (p : ExceptT ε (Program Op Ans) α)
    (Q : Except ε (Except ε α) → σ → Prop) :
    (attempt p).run.wp spec Q s = p.run.wp spec (fun r s' => Q (.ok r) s') s :=
  wp_run_lift p.run Q

lemma run_attempt_bind (p : ExceptT ε (Program Op Ans) α)
    (q : Except ε α → ExceptT ε (Program Op Ans) β) :
    (attempt p >>= q).run = p.run >>= fun r => (q r).run := by
  change ((p.run >>= fun r => .done (.ok r)) >>= ExceptT.bindCont q) = _
  generalize p.run = p
  induction p with
  | done r => rfl
  | call op k ih => exact congrArg (Program.call op) (funext ih)

lemma wp_run_forM (hspec : spec.Mono) {f : ι → ExceptT ε (Program Op Ans) Unit}
    {Q : Except ε Unit → σ → Prop} (hend : ∀ s, I s → Q (.ok ()) s) (l : List ι)
    (hround : ∀ i ∈ l, ∀ s, I s → (f i).run.wp spec (fun r s' => match r with
      | .ok _ => I s'
      | .error e => Q (.error e) s') s) (hs : I s) : (l.forM f).run.wp spec Q s := by
  induction l generalizing s with
  | nil => exact hend s hs
  | cons i l ih =>
    change (f i >>= fun _ => l.forM f).run.wp spec Q s
    rw [wp_run_bind]
    refine wp_mono hspec (hround i (by simp) s hs) fun r s' h => ?_
    cases r with
    | error e => exact h
    | ok _ => exact ih (fun j hj => hround j (by simp [hj])) h

end Program
