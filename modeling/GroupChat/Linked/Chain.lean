import Mathlib.Data.List.Nodup
import Mathlib.Data.List.Basic
import Mathlib.Tactic.ByContra

/-!
# Singly linked lists in a heap

A heap is the list of the nodes allocated so far, and the address of a node is its index.
`Chain h p as xs` says that following the links from `p` visits the nodes at `as`, which hold
`xs`, and ends at the null pointer without coming to a node twice. `Chain.extend` is the effect
of hanging a new node behind the last one, and `Chain.of_agree` the frame rule.
-/

namespace Linked

structure Node (α : Type*) where
  val : α
  next : Option Nat

abbrev Heap (α : Type*) := List (Node α)

inductive Chain {α : Type*} (h : Heap α) : Option Nat → List Nat → List α → Prop
  | nil : Chain h none [] []
  | cons {a : Nat} {n : Node α} {as : List Nat} {xs : List α} (node : h[a]? = some n)
      (fresh : a ∉ as) (rest : Chain h n.next as xs) : Chain h (some a) (a :: as) (n.val :: xs)

/-- Redirect the link of a node. -/
def setNext {α : Type*} (h : Heap α) (a : Nat) (next : Option Nat) : Heap α :=
  h.modify a fun n => { n with next := next }

variable {α : Type*} {h h' : Heap α} {p : Option Nat} {as : List Nat} {xs : List α}

theorem getElem?_setNext_ne {a b : Nat} (hne : b ≠ a) (next : Option Nat) :
    (setNext h a next)[b]? = h[b]? := by
  exact List.getElem?_modify_ne _ _ (Ne.symm hne)

theorem getElem?_setNext_self {a : Nat} {n : Node α} (hn : h[a]? = some n) (next : Option Nat) :
    (setNext h a next)[a]? = some { n with next := next } := by
  rw [setNext, List.getElem?_modify_eq, hn]
  rfl

theorem length_setNext (a : Nat) (next : Option Nat) : (setNext h a next).length = h.length := by
  rw [setNext, List.length_modify]

theorem setNext_eq_set {a : Nat} {n : Node α} (hn : h[a]? = some n) (next : Option Nat) :
    setNext h a next = h.set a { n with next := next } := by
  rw [setNext, List.modify_eq_set_getElem?, hn]
  rfl

namespace Chain

theorem nodup (chain : Chain h p as xs) : as.Nodup := by
  induction chain with
  | nil => exact List.nodup_nil
  | cons node fresh rest ih => exact List.nodup_cons.mpr ⟨fresh, ih⟩

theorem length_eq (chain : Chain h p as xs) : as.length = xs.length := by
  induction chain with
  | nil => rfl
  | cons node fresh rest ih => rw [List.length_cons, List.length_cons, ih]

theorem null_iff (chain : Chain h p as xs) : p = none ↔ xs = [] := by
  cases chain with
  | nil => exact iff_of_true rfl rfl
  | cons node fresh rest => exact iff_of_false (by simp) (by simp)

/-- The links determine the list. -/
theorem unique {bs : List Nat} {ys : List α} (chain : Chain h p as xs) (chain' : Chain h p bs ys) :
    as = bs ∧ xs = ys := by
  induction chain generalizing bs ys with
  | nil =>
      cases chain'
      exact ⟨rfl, rfl⟩
  | cons node fresh rest ih =>
      cases chain' with
      | cons node' fresh' rest' =>
          cases node.symm.trans node'
          obtain ⟨rfl, rfl⟩ := ih rest'
          exact ⟨rfl, rfl⟩

theorem of_nil (chain : Chain h p [] xs) : p = none ∧ xs = [] := by
  cases chain
  exact ⟨rfl, rfl⟩

theorem lt_length (chain : Chain h p as xs) {a : Nat} (ha : a ∈ as) : a < h.length := by
  induction chain with
  | nil => exact absurd ha List.not_mem_nil
  | cons node fresh rest ih =>
      rcases List.mem_cons.mp ha with rfl | ha
      · exact (List.getElem?_eq_some_iff.mp node).1
      · exact ih ha

/-- A heap with the same nodes at the addresses of the list holds the same list. -/
theorem of_agree (chain : Chain h p as xs) (hagree : ∀ a ∈ as, h'[a]? = h[a]?) :
    Chain h' p as xs := by
  induction chain with
  | nil => exact .nil
  | cons node fresh rest ih =>
      refine .cons ?_ fresh (ih fun a ha => hagree a (List.mem_cons_of_mem _ ha))
      rw [hagree _ List.mem_cons_self, node]

/-- A new node on the heap disturbs no list. -/
theorem push (chain : Chain h p as xs) (n : Node α) : Chain (h ++ [n]) p as xs := by
  apply chain.of_agree
  intro a ha
  exact List.getElem?_append_left (chain.lt_length ha)

/-- A node that is written disturbs no list that does not contain it. -/
theorem set_of_notMem (chain : Chain h p as xs) {a : Nat} (ha : a ∉ as) (n : Node α) :
    Chain (h.set a n) p as xs := by
  apply chain.of_agree
  intro b hb
  have hne : a ≠ b := by
    rintro rfl
    exact ha hb
  exact List.getElem?_set_ne hne

/-- The first node of a list with its rest. -/
theorem uncons {a : Nat} (chain : Chain h (some a) as xs) :
    ∃ n as' xs', h[a]? = some n ∧ as = a :: as' ∧ xs = n.val :: xs' ∧ a ∉ as' ∧
      Chain h n.next as' xs' := by
  cases chain with
  | @cons _ n as' xs' node fresh rest => exact ⟨n, as', xs', node, rfl, rfl, fresh, rest⟩

/-- A redirected link disturbs no list that does not contain its node. -/
theorem setNext_of_notMem (chain : Chain h p as xs) {a : Nat} (ha : a ∉ as)
    (next : Option Nat) : Chain (setNext h a next) p as xs := by
  apply chain.of_agree
  intro b hb
  have hne : b ≠ a := by
    rintro rfl
    exact ha hb
  exact getElem?_setNext_ne hne next

/-- The last node points to another chain. -/
theorem redirect {a : Nat} {q : Option Nat} {bs : List Nat} {ys : List α}
    (chain : Chain h p (as ++ [a]) xs) (hq : Chain h q bs ys)
    (hdisjoint : ∀ b ∈ bs, b ∉ as ++ [a]) :
    Chain (setNext h a q) p (as ++ a :: bs) (xs ++ ys) := by
  induction as generalizing p xs with
  | nil =>
      cases chain with
      | @cons _ n _ _ node fresh rest =>
          obtain ⟨-, rfl⟩ := rest.of_nil
          have ha : a ∉ bs := fun hmem => hdisjoint a hmem (List.mem_singleton_self a)
          exact .cons (n := ⟨n.val, q⟩) (getElem?_setNext_self node q) ha (hq.setNext_of_notMem ha q)
  | cons b as ih =>
      cases chain with
      | cons node fresh rest =>
          have hne : b ≠ a := fun hab => fresh (hab ▸ List.mem_append_right _ List.mem_cons_self)
          refine .cons ((getElem?_setNext_ne hne q).trans node) ?_ (ih rest ?_)
          · intro hmem
            rcases List.mem_append.mp hmem with hmem | hmem
            · exact fresh (List.mem_append_left _ hmem)
            · rcases List.mem_cons.mp hmem with rfl | hmem
              · exact hne rfl
              · exact hdisjoint b hmem List.mem_cons_self
          · exact fun b' hb' hmem => hdisjoint b' hb' (List.mem_cons_of_mem _ hmem)

/-- Hanging a new node behind the last one appends its value. -/
theorem extend {a : Nat} (chain : Chain h p (as ++ [a]) xs) (x : α) :
    Chain (setNext (h ++ [⟨x, none⟩]) a (some h.length)) p (as ++ [a, h.length]) (xs ++ [x]) := by
  have hnew : Chain (h ++ [⟨x, none⟩]) (some h.length) [h.length] [x] :=
    .cons (n := ⟨x, none⟩) (by simp) List.not_mem_nil .nil
  apply (chain.push ⟨x, none⟩).redirect hnew
  intro b hb hmem
  rw [List.mem_singleton.mp hb] at hmem
  exact Nat.lt_irrefl _ (chain.lt_length hmem)

end Chain

end Linked
