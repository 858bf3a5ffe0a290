import Mathlib.Tactic
import Mathlib.Logic.Relation

/-!
The depth-first search for a cycle.

A graph is a function that lists the successors of a node.  A node is left for good only when no
infinite walk starts there (`Acc`), so the path always follows the first successor from which an
infinite walk starts.  That successor, `heading`, does not depend on where the search started: the
cycle a search finds is the orbit of `heading` its start runs into (`search_spec`), and a search
from any node of that cycle finds the same cycle (`Orbit.perm_of_search`).
-/

namespace CycleSearch

variable {α : Type} [DecidableEq α] (succ : α → List α)

/-! ### The search -/

/-- The path, its end first, with the successors looked at, and the nodes that have been left. -/
structure Walk (α : Type) where
  frames : List (α × ℕ)
  closed : List α

/-- The path from the start to the node the search is at. -/
def Walk.path (w : Walk α) : List α := (w.frames.map Prod.fst).reverse

/-- One turn of the search: its answer, or the walk it goes on with. -/
def turn (w : Walk α) : Option (List α) ⊕ Walk α :=
  match w.frames with
  | [] => .inl none
  | (node, index) :: below =>
    match (succ node)[index]? with
    | none => .inr ⟨below, node :: w.closed⟩
    | some successor =>
      if successor ∈ w.path then .inl (some (w.path.dropWhile (· ≠ successor)))
      else if successor ∈ w.closed then .inr ⟨(node, index + 1) :: below, w.closed⟩
      else .inr ⟨(successor, 0) :: (node, index + 1) :: below, w.closed⟩

def loop : ℕ → Walk α → Option (List α)
  | 0, _ => none
  | fuel + 1, w =>
    match turn succ w with
    | .inl answer => answer
    | .inr w' => loop fuel w'

/-- The first cycle a depth-first walk from `start` meets. -/
def search (fuel : ℕ) (start : α) : Option (List α) := loop succ fuel ⟨[(start, 0)], []⟩

/-! ### How long the search takes -/

variable {below : List (α × ℕ)} {s : α} {w : Walk α} {node : α}

section Fuel

variable (V : Finset α)

/-- The turns that are left: a node not entered yet counts its successors and one, a node of the
path what is left of that. -/
def todo (w : Walk α) : ℕ :=
  (w.frames.map fun f => (succ f.1).length - f.2 + 1).sum +
    ∑ n ∈ V.filter (fun n => n ∉ w.path ∧ n ∉ w.closed), ((succ n).length + 1)

variable {V} {closed : List α}

lemma todo_advance {index : ℕ} (h : index < (succ node).length) :
    todo succ V ⟨(node, index + 1) :: below, closed⟩ <
      todo succ V ⟨(node, index) :: below, closed⟩ := by
  simp only [todo, Walk.path, List.map_cons, List.sum_cons]
  omega

lemma todo_enter (hs : s ∈ V) (hpath : s ∉ w.path) (hclosed : s ∉ w.closed) :
    todo succ V ⟨(s, 0) :: w.frames, w.closed⟩ = todo succ V w := by
  have hsplit : V.filter (fun n => n ∉ w.path ∧ n ∉ w.closed) =
      insert s (V.filter fun n => n ∉ s :: w.path ∧ n ∉ w.closed) := by
    ext n
    simp only [Finset.mem_filter, Finset.mem_insert, List.mem_cons, not_or]
    by_cases hn : n = s
    · subst hn
      simp [hs, hpath, hclosed]
    · simp [hn]
  have hmem : ∀ n, n ∈ (⟨(s, 0) :: w.frames, w.closed⟩ : Walk α).path ↔ n ∈ s :: w.path := by
    intro n
    simp [Walk.path, or_comm]
  simp only [todo, hmem]
  rw [hsplit, Finset.sum_insert (by simp)]
  simp only [List.map_cons, List.sum_cons]
  omega

lemma todo_leave {index : ℕ} :
    todo succ V ⟨below, node :: closed⟩ < todo succ V ⟨(node, index) :: below, closed⟩ := by
  have hsub : ∑ n ∈ V.filter (fun n => n ∉ (⟨below, node :: closed⟩ : Walk α).path ∧
        n ∉ node :: closed), ((succ n).length + 1) ≤
      ∑ n ∈ V.filter (fun n => n ∉ (⟨(node, index) :: below, closed⟩ : Walk α).path ∧
        n ∉ closed), ((succ n).length + 1) := by
    refine Finset.sum_le_sum_of_subset fun n hn => ?_
    simp only [Finset.mem_filter, Walk.path, List.mem_reverse, List.map_cons, List.mem_cons,
      not_or] at hn ⊢
    exact ⟨hn.1, ⟨hn.2.2.1, hn.2.1⟩, hn.2.2.2⟩
  simp only [todo, List.map_cons, List.sum_cons]
  omega

lemma todo_turn {w' : Walk α} (hV : ∀ n ∈ V, ∀ s ∈ succ n, s ∈ V) (hpath : ∀ n ∈ w.path, n ∈ V)
    (h : turn succ w = .inr w') : todo succ V w' < todo succ V w ∧ ∀ n ∈ w'.path, n ∈ V := by
  obtain ⟨frames, closed⟩ := w
  match frames with
  | [] => simp [turn] at h
  | (node, index) :: below =>
    have hnode : node ∈ V := hpath node (by simp [Walk.path])
    simp only [turn] at h
    split at h
    · obtain rfl := Sum.inr.inj h
      refine ⟨todo_leave succ, fun n hn => hpath n ?_⟩
      simpa [Walk.path] using .inl (by simpa [Walk.path] using hn)
    · rename_i s hs
      obtain ⟨hindex, rfl⟩ := List.getElem?_eq_some_iff.mp hs
      have hsV : (succ node)[index] ∈ V := hV node hnode _ (List.getElem_mem hindex)
      split at h
      · cases h
      · rename_i hon
        split at h
        · obtain rfl := Sum.inr.inj h
          exact ⟨todo_advance succ hindex, by simpa [Walk.path] using hpath⟩
        · rename_i hcl
          obtain rfl := Sum.inr.inj h
          have henter := todo_enter (w := ⟨(node, index + 1) :: below, closed⟩) succ hsV
            (by simpa [Walk.path] using hon) hcl
          refine ⟨?_, fun n hn => ?_⟩
          · exact henter.trans_lt (todo_advance succ hindex)
          · rcases (by simpa [Walk.path, or_assoc] using hn :
              (∃ b, (n, b) ∈ below) ∨ n = node ∨ n = (succ node)[index]) with hn | rfl | rfl
            · exact hpath n (by simpa [Walk.path] using .inl hn)
            · exact hnode
            · exact hsV

end Fuel

/-! ### Where the search heads for -/

def Next (a b : α) : Prop := a ∈ succ b

open Classical in
/-- The first successor from which an infinite walk starts. -/
noncomputable def heading (n : α) : Option α := (succ n).find? fun s => ¬ Acc (Next succ) s

variable {succ}

omit [DecidableEq α] in
lemma heading_eq_some {n : α} {i : ℕ} (hs : (succ n)[i]? = some s) (hacc : ¬ Acc (Next succ) s)
    (hbefore : ∀ k < i, ∀ x, (succ n)[k]? = some x → Acc (Next succ) x) :
    heading succ n = some s := by
  obtain ⟨hi, rfl⟩ := List.getElem?_eq_some_iff.mp hs
  rw [heading, List.find?_eq_some_iff_getElem]
  refine ⟨by simpa using hacc, i, hi, rfl, fun k hk => ?_⟩
  simpa using hbefore k hk _ (List.getElem?_eq_getElem (hk.trans hi))

/-- `s` was entered from the top of `below`: the successors before it start no infinite walk. -/
def Entered (succ : α → List α) (start : α) : α → List (α × ℕ) → Prop
  | s, [] => s = start
  | s, (n, i) :: below =>
    (∃ j, i = j + 1 ∧ (succ n)[j]? = some s ∧
      ∀ k < j, ∀ x, (succ n)[k]? = some x → Acc (Next succ) x) ∧ Entered succ start n below

/-- What every turn keeps. -/
structure Sound (succ : α → List α) (start : α) (w : Walk α) : Prop where
  nodup : w.path.Nodup
  closed : ∀ n ∈ w.closed, Acc (Next succ) n
  left : w.frames = [] → Acc (Next succ) start
  entered : ∀ n i below, w.frames = (n, i) :: below → Entered succ start n below ∧
    ∀ k < i, ∀ x, (succ n)[k]? = some x → Acc (Next succ) x

omit [DecidableEq α] in
lemma Sound.start (start : α) : Sound succ start ⟨[(start, 0)], []⟩ where
  nodup := by simp [Walk.path]
  closed := by simp
  left h := by simp at h
  entered n i below h := by
    simp only [List.cons.injEq, Prod.mk.injEq] at h
    obtain ⟨⟨rfl, rfl⟩, rfl⟩ := h
    exact ⟨rfl, by simp⟩

omit [DecidableEq α] in
lemma acc_of_successors {n : α} (h : ∀ (k : ℕ) (x : α), (succ n)[k]? = some x → Acc (Next succ) x) :
    Acc (Next succ) n := by
  refine ⟨n, fun s hs => ?_⟩
  obtain ⟨k, hk, rfl⟩ := List.getElem_of_mem hs
  exact h k _ (List.getElem?_eq_getElem hk)

variable {start : α}

lemma Sound.turn {w' : Walk α} (h : Sound succ start w)
    (hturn : CycleSearch.turn succ w = .inr w') : Sound succ start w' := by
  obtain ⟨frames, closed⟩ := w
  match frames with
  | [] => simp [turn] at hturn
  | (node, index) :: below =>
    obtain ⟨hentered, hbefore⟩ := h.entered node index below rfl
    have hnodup : (below.map Prod.fst).reverse.Nodup ∧ node ∉ below.map Prod.fst := by
      have := h.nodup
      simp only [Walk.path, List.map_cons, List.reverse_cons, List.nodup_append,
        List.nodup_reverse] at this
      refine ⟨List.nodup_reverse.mpr this.1, fun hmem => ?_⟩
      exact this.2.2 node (List.mem_reverse.mpr hmem) node (by simp) rfl
    simp only [turn] at hturn
    split at hturn
    · -- every successor has been looked at, so the node is left for good
      rename_i hnone
      obtain rfl := Sum.inr.inj hturn
      have hacc : Acc (Next succ) node := acc_of_successors fun k x hx => by
        refine hbefore k ?_ x hx
        have hlen := List.getElem?_eq_none_iff.mp hnone
        exact (List.getElem?_eq_some_iff.mp hx).1.trans_le hlen
      refine ⟨hnodup.1, ?_, ?_, ?_⟩
      · intro n hn
        rcases List.mem_cons.mp hn with rfl | hn
        · exact hacc
        · exact h.closed n hn
      · rintro rfl
        exact hentered ▸ hacc
      · rintro n i rest rfl
        obtain ⟨⟨j, rfl, hj, hbef⟩, hent⟩ := hentered
        refine ⟨hent, fun k hk x hx => ?_⟩
        rcases Nat.lt_succ_iff_lt_or_eq.mp hk with hk | rfl
        · exact hbef k hk x hx
        · rw [hj] at hx
          exact Option.some.inj hx ▸ hacc
    · rename_i s hs
      split at hturn
      · cases hturn
      · rename_i hon
        split at hturn
        · rename_i hcl
          obtain rfl := Sum.inr.inj hturn
          refine ⟨h.nodup, h.closed, by simp, ?_⟩
          intro n i rest heq
          simp only [List.cons.injEq, Prod.mk.injEq] at heq
          obtain ⟨⟨rfl, rfl⟩, rfl⟩ := heq
          refine ⟨hentered, fun k hk x hx => ?_⟩
          rcases Nat.lt_succ_iff_lt_or_eq.mp hk with hk | rfl
          · exact hbefore k hk x hx
          · rw [hs] at hx
            exact Option.some.inj hx ▸ h.closed s hcl
        · obtain rfl := Sum.inr.inj hturn
          refine ⟨?_, h.closed, by simp, ?_⟩
          · have hnew : s ∉ ((node, index + 1) :: below).map Prod.fst := by
              simpa [Walk.path, and_comm] using hon
            have hold : (((node, index + 1) :: below).map Prod.fst).Nodup :=
              List.nodup_reverse.mp h.nodup
            exact List.nodup_reverse.mpr (List.nodup_cons.mpr ⟨hnew, hold⟩)
          · intro n i rest heq
            simp only [List.cons.injEq, Prod.mk.injEq] at heq
            obtain ⟨⟨rfl, rfl⟩, rfl⟩ := heq
            exact ⟨⟨⟨index, rfl, hs, hbefore⟩, hentered⟩, by simp⟩

/-! ### The cycle that is found -/

/-- A cycle of a partial function: each node leads to the next one, the last one to the first. -/
structure Orbit (f : α → Option α) (cycle : List α) : Prop where
  nodup : cycle.Nodup
  ne_nil : cycle ≠ []
  step : ∀ i (h : i < cycle.length), f (cycle[i]) = cycle[(i + 1) % cycle.length]?

variable {f : α → Option α} {c : List α}

omit [DecidableEq α] in
lemma Orbit.mem (h : Orbit f c) {a b : α} (ha : a ∈ c) (hab : f a = some b) : b ∈ c := by
  obtain ⟨i, hi, rfl⟩ := List.getElem_of_mem ha
  rw [h.step i hi] at hab
  exact List.mem_of_getElem? hab

omit [DecidableEq α] in
lemma Orbit.subset {d : List α} (h : Orbit f c) {a : α} (ha : a ∈ c)
    (had : a ∈ d) (hd : ∀ x ∈ d, ∀ y, f x = some y → y ∈ d) : c ⊆ d := by
  obtain ⟨i, hi, rfl⟩ := List.getElem_of_mem ha
  have hlen : 0 < c.length := by omega
  have hturn : ∀ k, c.get ⟨(i + k) % c.length, Nat.mod_lt _ hlen⟩ ∈ d := by
    intro k
    induction k with
    | zero => simpa [Nat.mod_eq_of_lt hi] using had
    | succ k ih =>
      refine hd _ ih _ ?_
      rw [List.get_eq_getElem, h.step _ (Nat.mod_lt _ hlen), List.get_eq_getElem,
        ← List.getElem?_eq_getElem, Nat.mod_add_mod, Nat.add_assoc]
  intro x hx
  obtain ⟨j, hj, rfl⟩ := List.getElem_of_mem hx
  have hmod : (i + (c.length - i + j)) % c.length = j := by
    rw [show i + (c.length - i + j) = c.length + j by omega, Nat.add_mod_left, Nat.mod_eq_of_lt hj]
  simpa [hmod] using hturn (c.length - i + j)

omit [DecidableEq α] in
lemma Entered.reaches {x : α} (h : Entered succ start s below)
    (hx : x ∈ s :: below.map Prod.fst) : Relation.ReflTransGen (Next succ) s x := by
  induction below generalizing s with
  | nil =>
    obtain rfl : x = s := by simpa using hx
    exact .refl
  | cons f below ih =>
    obtain ⟨⟨j, -, hj, -⟩, hent⟩ := h
    rcases List.mem_cons.mp hx with rfl | hx
    · exact .refl
    · exact .head (List.mem_of_getElem? hj) (ih hent hx)

omit [DecidableEq α] in
lemma Entered.heads (h : Entered succ start s below) (hs : ¬ Acc (Next succ) s) :
    (s :: below.map Prod.fst).IsChain (fun a b => heading succ b = some a) ∧
      ∀ x ∈ s :: below.map Prod.fst,
        Relation.ReflTransGen (fun a b => heading succ a = some b) start x := by
  induction below generalizing s with
  | nil =>
    obtain rfl : s = start := h
    simp [Relation.ReflTransGen.refl]
  | cons f below ih =>
    obtain ⟨⟨j, -, hj, hbefore⟩, hent⟩ := h
    have hn : ¬ Acc (Next succ) f.1 := fun hacc => hs (hacc.inv (List.mem_of_getElem? hj))
    have hhead := heading_eq_some hj hs hbefore
    obtain ⟨hchain, hreach⟩ := ih hent hn
    refine ⟨List.isChain_cons_cons.mpr ⟨hhead, hchain⟩, fun x hx => ?_⟩
    rcases List.mem_cons.mp hx with rfl | hx
    · exact (hreach f.1 (by simp)).tail hhead
    · exact hreach x hx

/-- What an answer of the search says. -/
def Answers (succ : α → List α) (start : α) : Option (List α) → Prop
  | none => Acc (Next succ) start
  | some c => Orbit (heading succ) c ∧
      ∃ a ∈ c, Relation.ReflTransGen (fun a b => heading succ a = some b) start a

omit [DecidableEq α] in
lemma not_acc_of_cycle (h : Relation.TransGen (Next succ) s s) : ¬ Acc (Next succ) s := by
  intro hacc
  have htrans := hacc.transGen
  clear hacc
  induction htrans with
  | intro x _ ih => exact ih x h h

lemma orbit_of_path {path : List α} (hnodup : path.Nodup)
    (hchain : path.IsChain fun a b => f a = some b) (hlast : path.getLast? = some node)
    (hs : s ∈ path) (hnode : f node = some s) : Orbit f (path.dropWhile (· ≠ s)) := by
  obtain ⟨before, after, rfl, hbefore⟩ := List.eq_append_cons_of_mem hs
  have hdrop : (before ++ s :: after).dropWhile (· ≠ s) = s :: after := by
    rw [List.dropWhile_append_of_pos fun a ha => by simpa using ne_of_mem_of_not_mem ha hbefore]
    simp
  rw [hdrop]
  have hchain := (List.isChain_append.mp hchain).2.1
  have hlast : (s :: after).getLast? = some node := by simpa using hlast
  refine ⟨hnodup.of_append_right, by simp, fun i hi => ?_⟩
  rcases Nat.lt_or_ge (i + 1) (s :: after).length with hlt | hge
  · rw [Nat.mod_eq_of_lt hlt, List.getElem?_eq_getElem hlt]
    exact List.isChain_iff_getElem.mp hchain i hlt
  · have hi' : i = (s :: after).length - 1 := by omega
    have hend : (s :: after)[i] = node := by
      rw [List.getLast?_eq_getElem?, ← hi', List.getElem?_eq_getElem hi] at hlast
      exact Option.some.inj hlast
    rw [hend, hnode, show (i + 1) % (s :: after).length = 0 by
      rw [show i + 1 = (s :: after).length by omega, Nat.mod_self]]
    rfl

lemma mem_dropWhile_self {path : List α} (hs : s ∈ path) : s ∈ path.dropWhile (· ≠ s) := by
  induction path with
  | nil => simp at hs
  | cons a path ih =>
    rcases eq_or_ne a s with rfl | ha
    · simp
    · rw [List.dropWhile_cons_of_pos (by simpa using ha)]
      exact ih ((List.mem_cons.mp hs).resolve_left ha.symm)

variable {answer : Option (List α)}

lemma Sound.answers (h : Sound succ start w)
    (hturn : CycleSearch.turn succ w = .inl answer) : Answers succ start answer := by
  obtain ⟨frames, closed⟩ := w
  match frames with
  | [] =>
    obtain rfl : none = answer := by simpa [CycleSearch.turn] using hturn
    exact h.left rfl
  | (node, index) :: below =>
    obtain ⟨hentered, hbefore⟩ := h.entered node index below rfl
    simp only [CycleSearch.turn] at hturn
    split at hturn
    · cases hturn
    · rename_i s hs
      split at hturn
      · rename_i hon
        obtain rfl := Sum.inl.inj hturn
        have hmem : s ∈ node :: below.map Prod.fst := by simpa [Walk.path, or_comm] using hon
        have hcycle : ¬ Acc (Next succ) s :=
          not_acc_of_cycle (.head' (List.mem_of_getElem? hs) (hentered.reaches hmem))
        have hnode : ¬ Acc (Next succ) node :=
          fun hacc => hcycle (hacc.inv (List.mem_of_getElem? hs))
        obtain ⟨hchain, hreach⟩ := hentered.heads hnode
        refine ⟨orbit_of_path h.nodup ?_ ?_ hon (heading_eq_some hs hcycle hbefore), s, ?_,
          hreach s hmem⟩
        · exact List.isChain_reverse.mpr hchain
        · simp [Walk.path]
        · exact mem_dropWhile_self hon
      · split at hturn <;> cases hturn

/-- With enough fuel the search answers: a cycle of headings its start runs into, or that no
infinite walk starts at its start. -/
theorem search_spec {V : Finset α} {fuel : ℕ} (hV : ∀ n ∈ V, ∀ s ∈ succ n, s ∈ V)
    (hstart : start ∈ V) (hfuel : ∑ n ∈ V, ((succ n).length + 1) < fuel) :
    Answers succ start (search succ fuel start) := by
  suffices hloop : ∀ (fuel : ℕ) (w : Walk α), Sound succ start w → (∀ n ∈ w.path, n ∈ V) →
      todo succ V w < fuel → Answers succ start (loop succ fuel w) by
    refine hloop fuel _ (Sound.start start) (by simp [Walk.path, hstart]) ?_
    refine lt_of_eq_of_lt ?_ hfuel
    have henter := todo_enter (V := V) (w := ⟨[], []⟩) succ hstart (by simp [Walk.path]) (by simp)
    simpa [todo, Walk.path] using henter
  intro fuel
  induction fuel with
  | zero => intro w _ _ hlt; exact absurd hlt (Nat.not_lt_zero _)
  | succ fuel ih =>
    intro w hw hpath hlt
    rw [loop]
    split
    · rename_i answer hturn
      exact hw.answers hturn
    · rename_i w' hturn
      obtain ⟨hless, hpath'⟩ := todo_turn succ hV hpath hturn
      exact ih w' (hw.turn hturn) hpath' (by omega)

omit [DecidableEq α] in
lemma not_acc_of_heading {n : α} (h : heading succ n = some s) : ¬ Acc (Next succ) n := by
  intro hacc
  have hs : ¬ Acc (Next succ) s := by simpa using List.find?_some h
  exact hs (hacc.inv (List.mem_of_find?_eq_some h))

omit [DecidableEq α] in
lemma Orbit.not_acc (h : Orbit (heading succ) c) {a : α} (ha : a ∈ c) : ¬ Acc (Next succ) a := by
  obtain ⟨i, hi, rfl⟩ := List.getElem_of_mem ha
  have hlt : (i + 1) % c.length < c.length := Nat.mod_lt _ (by omega)
  exact not_acc_of_heading ((h.step i hi).trans (List.getElem?_eq_getElem hlt))

omit [DecidableEq α] in
/-- Searches from two nodes of one cycle find that cycle. -/
theorem Orbit.perm_of_search (h : Orbit (heading succ) c) {b : α} (hb : b ∈ c)
    (hanswer : Answers succ b answer) : ∃ d, answer = some d ∧ d.Perm c := by
  match answer, hanswer with
  | none, hacc => exact absurd hacc (h.not_acc hb)
  | some d, ⟨hd, a, had, hreach⟩ =>
    have hac : a ∈ c := by
      clear had
      induction hreach with
      | refl => exact hb
      | tail _ hstep ih => exact h.mem ih hstep
    have hdc := List.subperm_of_subset hd.nodup (hd.subset had hac fun x hx y => h.mem hx)
    have hcd := List.subperm_of_subset h.nodup (h.subset hac had fun x hx y => hd.mem hx)
    exact ⟨d, rfl, hdc.antisymm hcd⟩

end CycleSearch
