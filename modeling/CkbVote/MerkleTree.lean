import Mathlib.Data.List.Induction
import CkbVote.Octets

/-!
# Complete binary Merkle trees built from a queue

The queue algorithm for a complete binary Merkle tree merges the leaves in
pairs from the right, puts an odd leftover leaf in front, and then keeps
merging the two front elements into the back until one is left.  It only ever
combines elements with one binary operation, so it is written here over any
type with such an operation; `mergeQueue_map` says that it commutes with every
homomorphism.

`rootOf_heap` says what is computed, for any number of leaves: node `0` of the
array in which the leaves come last and every other node merges its children.

Run on symbolic trees it produces the tree that was hashed.  `root_binding`
compares two symbolic trees of any shapes, and `treeOf_inj` recovers the leaves
from the tree, so two runs with one root and no coincidence among the strings
they hash had the same leaves, however many there were.
-/

namespace Cbmt

open Octets

variable {α β : Type}

/-- Merges of the pairs of a reversed leaf list: `rchunks_exact(2)` gives the
last two leaves first, each pair in its original order. -/
def pairs (merge : α → α → α) : List α → List α
  | leaf2 :: leaf1 :: rest => merge leaf1 leaf2 :: pairs merge rest
  | _ => []

/-- The leaf `rchunks_exact(2)` leaves over, if any. -/
def remainder : List α → List α
  | _ :: _ :: rest => remainder rest
  | rest => rest

/-- The queue before the merging loop: the leftover leaf is pushed in front. -/
def initialQueue (merge : α → α → α) (leaves : List α) : List α :=
  remainder leaves.reverse ++ pairs merge leaves.reverse

/-- `while queue.len() > 1 { … }` followed by the final `pop_front`.  The fuel
bounds the number of iterations. -/
def mergeQueue (merge : α → α → α) : Nat → List α → Run α
  | _, [] => .error (.expect "called `Option::unwrap()` on a `None` value")
  | _, [root] => .ok root
  | 0, _ :: _ :: _ => .error .outOfFuel
  | fuel + 1, right :: left :: rest => mergeQueue merge fuel (rest ++ [merge left right])

/-- The root of a non-empty list of leaves. -/
def rootOf (merge : α → α → α) (leaves : List α) : Run α :=
  mergeQueue merge leaves.length (initialQueue merge leaves)

/-- The pairs that `pairs` merges. -/
def pairInputs : List α → List (α × α)
  | leaf2 :: leaf1 :: rest => (leaf1, leaf2) :: pairInputs rest
  | _ => []

/-- The pairs that the merging loop merges. -/
def queueInputs (merge : α → α → α) : Nat → List α → List (α × α)
  | fuel + 1, right :: left :: rest =>
      (left, right) :: queueInputs merge fuel (rest ++ [merge left right])
  | _, _ => []

/-- Every pair that `rootOf` merges, in order. -/
def mergedPairs (merge : α → α → α) (leaves : List α) : List (α × α) :=
  pairInputs leaves.reverse ++ queueInputs merge leaves.length (initialQueue merge leaves)

/-! ## Lengths and totality -/

theorem length_pairs (merge : α → α → α) (l : List α) : (pairs merge l).length = l.length / 2 := by
  induction l using List.twoStepInduction with
  | nil => simp [pairs]
  | singleton a => simp [pairs]
  | cons_cons leaf2 leaf1 rest ih _ => simp [pairs, ih]; omega

theorem length_remainder (l : List α) : (remainder l).length = l.length % 2 := by
  induction l using List.twoStepInduction with
  | nil => simp [remainder]
  | singleton a => simp [remainder]
  | cons_cons _ _ rest ih _ => simp [remainder, ih]; omega

theorem length_initialQueue (merge : α → α → α) (leaves : List α) :
    (initialQueue merge leaves).length = (leaves.length + 1) / 2 := by
  simp only [initialQueue, List.length_append, length_pairs, length_remainder, List.length_reverse]
  omega

/-- Each iteration shortens the queue by one, so a queue with an element always
yields a root. -/
theorem mergeQueue_isOk (merge : α → α → α) {fuel : Nat} {queue : List α} (hne : queue ≠ [])
    (hfuel : queue.length ≤ fuel + 1) : ∃ root, mergeQueue merge fuel queue = .ok root := by
  induction fuel generalizing queue with
  | zero =>
      rcases queue with _ | ⟨a, _ | ⟨b, rest⟩⟩
      · exact absurd rfl hne
      · exact ⟨a, rfl⟩
      · simp at hfuel
  | succ fuel ih =>
      rcases queue with _ | ⟨a, _ | ⟨b, rest⟩⟩
      · exact absurd rfl hne
      · exact ⟨a, rfl⟩
      · exact ih (by simp) (by simp at hfuel ⊢; omega)

/-- A non-empty list of leaves has a root. -/
theorem rootOf_isOk (merge : α → α → α) {leaves : List α} (hne : leaves ≠ []) :
    ∃ root, rootOf merge leaves = .ok root := by
  have hpos := List.length_pos_iff.mpr hne
  have hlen := length_initialQueue merge leaves
  apply mergeQueue_isOk
  · intro hnil
    simp only [hnil, List.length_nil] at hlen
    omega
  · omega

/-! ## Homomorphisms -/

section Map

variable {merge : α → α → α} {merge' : β → β → β} {f : α → β}

/-- A map that commutes with the merge maps the pairs. -/
theorem pairs_map (hf : ∀ a b, f (merge a b) = merge' (f a) (f b)) (l : List α) :
    pairs merge' (l.map f) = (pairs merge l).map f := by
  induction l using List.twoStepInduction with
  | nil => rfl
  | singleton a => rfl
  | cons_cons leaf2 leaf1 rest ih _ => simp [pairs, ih, hf]

theorem remainder_map (l : List α) : remainder (l.map f) = (remainder l).map f := by
  induction l using List.twoStepInduction with
  | nil => rfl
  | singleton a => rfl
  | cons_cons _ _ rest ih _ => simp [remainder, ih]

/-- A map that commutes with the merge maps the root. -/
theorem mergeQueue_map (hf : ∀ a b, f (merge a b) = merge' (f a) (f b)) {fuel : Nat}
    {queue : List α} {root : α} (h : mergeQueue merge fuel queue = .ok root) :
    mergeQueue merge' fuel (queue.map f) = .ok (f root) := by
  induction fuel generalizing queue with
  | zero =>
      rcases queue with _ | ⟨a, _ | ⟨b, rest⟩⟩
      · cases h
      · cases h; rfl
      · cases h
  | succ fuel ih =>
      rcases queue with _ | ⟨a, _ | ⟨b, rest⟩⟩
      · cases h
      · cases h; rfl
      · have hrest : mergeQueue merge' fuel ((rest ++ [merge b a]).map f) = .ok (f root) := ih h
        simpa [mergeQueue, hf] using hrest

/-- The root of mapped leaves is the mapped root. -/
theorem rootOf_map (f : α → β) (merge' : β → β → β)
    (hf : ∀ a b, f (merge a b) = merge' (f a) (f b))
    {leaves : List α} {root : α} (h : rootOf merge leaves = .ok root) :
    rootOf merge' (leaves.map f) = .ok (f root) := by
  have hqueue := mergeQueue_map hf h
  rwa [initialQueue, List.map_append, ← remainder_map, ← pairs_map hf, List.map_reverse,
    ← initialQueue, ← List.length_map f] at hqueue

/-- A map maps what the pairs are merged of. -/
theorem pairInputs_map (l : List α) :
    pairInputs (l.map f) = (pairInputs l).map fun p => (f p.1, f p.2) := by
  induction l using List.twoStepInduction with
  | nil => rfl
  | singleton a => rfl
  | cons_cons leaf2 leaf1 rest ih _ => simp [pairInputs, ih]

/-- A map that commutes with the merge maps what the queue merges. -/
theorem queueInputs_map (hf : ∀ a b, f (merge a b) = merge' (f a) (f b)) (fuel : Nat)
    (queue : List α) : queueInputs merge' fuel (queue.map f) =
      (queueInputs merge fuel queue).map fun p => (f p.1, f p.2) := by
  induction fuel generalizing queue with
  | zero => rfl
  | succ fuel ih =>
      rcases queue with _ | ⟨a, _ | ⟨b, rest⟩⟩
      · rfl
      · rfl
      · have hrest := ih (rest ++ [merge b a])
        simp only [List.map_append, List.map_cons, List.map_nil, hf] at hrest
        simp [queueInputs, hrest]

/-- The pairs merged over mapped leaves are the mapped pairs. -/
theorem mergedPairs_map (f : α → β) (merge' : β → β → β)
    (hf : ∀ a b, f (merge a b) = merge' (f a) (f b)) (leaves : List α) :
    mergedPairs merge' (leaves.map f) = (mergedPairs merge leaves).map fun p => (f p.1, f p.2) := by
  have hqueue : initialQueue merge' (leaves.map f) = (initialQueue merge leaves).map f := by
    rw [initialQueue, initialQueue, ← List.map_reverse, pairs_map hf, remainder_map,
      List.map_append]
  rw [mergedPairs, mergedPairs, List.map_append, hqueue, ← List.map_reverse, pairInputs_map,
    List.length_map, queueInputs_map hf]

end Map

/-! ## Symbolic trees -/

/-- What was merged to get a root. -/
inductive Tree (α : Type)
  | leaf (a : α)
  | fork (left right : Tree α)

namespace Tree

def leaves : Tree α → List α
  | leaf a => [a]
  | fork left right => left.leaves ++ right.leaves

def size : Tree α → Nat
  | leaf _ => 1
  | fork left right => left.size + right.size

/-- The two subtrees of every fork. -/
def forks : Tree α → List (Tree α × Tree α)
  | leaf _ => []
  | fork left right => (left, right) :: (left.forks ++ right.forks)

end Tree

/-- The tree merged from a list of leaves. -/
def treeOf (leaves : List α) : Run (Tree α) := rootOf Tree.fork (leaves.map Tree.leaf)

/-- The loop makes its tree from the trees of the queue by the merges it did. -/
theorem mergeQueue_tree {fuel : Nat} {queue : List (Tree α)} {t : Tree α}
    (h : mergeQueue Tree.fork fuel queue = .ok t) :
    (∀ x ∈ t.leaves, ∃ u ∈ queue, x ∈ u.leaves) ∧
      ∀ p ∈ t.forks, (∃ u ∈ queue, p ∈ u.forks) ∨ p ∈ queueInputs Tree.fork fuel queue := by
  induction fuel generalizing queue with
  | zero =>
      rcases queue with _ | ⟨a, _ | ⟨b, rest⟩⟩
      · cases h
      · cases h
        exact ⟨fun x hx => ⟨t, by simp, hx⟩, fun p hp => Or.inl ⟨t, by simp, hp⟩⟩
      · cases h
  | succ fuel ih =>
      rcases queue with _ | ⟨right, _ | ⟨left, rest⟩⟩
      · cases h
      · cases h
        exact ⟨fun x hx => ⟨t, by simp, hx⟩, fun p hp => Or.inl ⟨t, by simp, hp⟩⟩
      · obtain ⟨hleaves, hforks⟩ := ih h
        constructor
        · intro x hx
          obtain ⟨u, hu, hxu⟩ := hleaves x hx
          rcases List.mem_append.mp hu with hu | hu
          · exact ⟨u, by simp [hu], hxu⟩
          · obtain rfl := List.mem_singleton.mp hu
            rcases List.mem_append.mp hxu with hxu | hxu
            · exact ⟨left, by simp, hxu⟩
            · exact ⟨right, by simp, hxu⟩
        · intro p hp
          rcases hforks p hp with ⟨u, hu, hpu⟩ | hlater
          · rcases List.mem_append.mp hu with hu | hu
            · exact Or.inl ⟨u, by simp [hu], hpu⟩
            · obtain rfl := List.mem_singleton.mp hu
              simp only [Tree.forks, List.mem_cons, List.mem_append] at hpu
              rcases hpu with rfl | hpu | hpu
              · exact Or.inr (by simp [queueInputs])
              · exact Or.inl ⟨left, by simp, hpu⟩
              · exact Or.inl ⟨right, by simp, hpu⟩
          · exact Or.inr (by simp [queueInputs, hlater])

/-- A pair of leaves is a fork of two of them. -/
theorem mem_pairs_leaf {l : List α} {u : Tree α} (h : u ∈ pairs Tree.fork (l.map Tree.leaf)) :
    ∃ a ∈ l, ∃ b ∈ l, u = Tree.fork (Tree.leaf a) (Tree.leaf b) ∧
      (Tree.leaf a, Tree.leaf b) ∈ pairInputs (l.map Tree.leaf) := by
  induction l using List.twoStepInduction with
  | nil => simp [pairs] at h
  | singleton a => simp [pairs] at h
  | cons_cons leaf2 leaf1 rest ih _ =>
      simp only [List.map_cons, pairs, List.mem_cons] at h
      rcases h with rfl | h
      · exact ⟨leaf1, by simp, leaf2, by simp, rfl, by simp [pairInputs]⟩
      · obtain ⟨a, ha, b, hb, rfl, hmem⟩ := ih h
        exact ⟨a, by simp [ha], b, by simp [hb], rfl, by simp [pairInputs, hmem]⟩

/-- What is left over is an item. -/
theorem mem_of_mem_remainder {l : List α} {x : α} (h : x ∈ remainder l) : x ∈ l := by
  induction l using List.twoStepInduction with
  | nil => exact h
  | singleton a => exact h
  | cons_cons leaf2 leaf1 rest ih _ => simp [ih h]

/-- The leaves of the tree are leaves it was merged from, and its forks are
pairs that were merged. -/
theorem treeOf_spec {leaves : List α} {t : Tree α} (h : treeOf leaves = .ok t) :
    (∀ x ∈ t.leaves, x ∈ leaves) ∧
      ∀ p ∈ t.forks, p ∈ mergedPairs Tree.fork (leaves.map Tree.leaf) := by
  obtain ⟨hleaves, hforks⟩ := mergeQueue_tree h
  have hstart : ∀ u ∈ initialQueue Tree.fork (leaves.map Tree.leaf), (∀ x ∈ u.leaves, x ∈ leaves) ∧
      ∀ p ∈ u.forks, p ∈ pairInputs (leaves.map Tree.leaf).reverse := by
    intro u hu
    rw [initialQueue, ← List.map_reverse] at hu
    rw [← List.map_reverse]
    rcases List.mem_append.mp hu with hu | hu
    · obtain ⟨a, ha, rfl⟩ := List.mem_map.mp (mem_of_mem_remainder hu)
      exact ⟨by simpa [Tree.leaves] using ha, by simp [Tree.forks]⟩
    · obtain ⟨a, ha, b, hb, rfl, hmem⟩ := mem_pairs_leaf hu
      rw [List.mem_reverse] at ha hb
      refine ⟨by simp [Tree.leaves, ha, hb], fun p hp => ?_⟩
      obtain rfl : p = (Tree.leaf a, Tree.leaf b) := by simpa [Tree.forks] using hp
      exact hmem
  constructor
  · intro x hx
    obtain ⟨u, hu, hxu⟩ := hleaves x hx
    exact (hstart u hu).1 x hxu
  · intro p hp
    rcases hforks p hp with ⟨u, hu, hpu⟩ | hlater
    · exact List.mem_append_left _ ((hstart u hu).2 p hpu)
    · exact List.mem_append_right _ hlater

/-- Pairs and rest add up to the same. -/
theorem sum_pairs (l : List Nat) : (remainder l ++ pairs (· + ·) l).sum = l.sum := by
  induction l using List.twoStepInduction with
  | nil => rfl
  | singleton a => rfl
  | cons_cons leaf2 leaf1 rest ih _ =>
      simp only [List.sum_append] at ih
      simp [remainder, pairs]
      omega

/-- Merging by addition adds up the queue. -/
theorem mergeQueue_sum {fuel : Nat} {queue : List Nat} {root : Nat}
    (h : mergeQueue (· + ·) fuel queue = .ok root) : root = queue.sum := by
  induction fuel generalizing queue with
  | zero =>
      rcases queue with _ | ⟨a, _ | ⟨b, rest⟩⟩
      · cases h
      · cases h; simp
      · cases h
  | succ fuel ih =>
      rcases queue with _ | ⟨a, _ | ⟨b, rest⟩⟩
      · cases h
      · cases h; simp
      · have hrest : root = (rest ++ [b + a]).sum := ih h
        simp at hrest ⊢
        omega

/-- No leaf is lost or taken twice. -/
theorem size_treeOf {leaves : List α} {t : Tree α} (h : treeOf leaves = .ok t) :
    t.size = leaves.length := by
  have hmap := rootOf_map Tree.size (· + ·) (fun _ _ => rfl) h
  have hsum := mergeQueue_sum hmap
  rw [initialQueue, sum_pairs, List.sum_reverse, List.map_map] at hsum
  simpa [Function.comp_def, Tree.size] using hsum

section Injective

variable {merge : α → α → α} (hmerge : ∀ a b c d, merge a b = merge c d → a = c ∧ b = d)

include hmerge

/-- Equal pairs and rests of equally long lists come from one list, when merging
is injective. -/
theorem pairs_inj {l l' : List α} (hlen : l.length = l'.length)
    (hrem : remainder l = remainder l') (hpairs : pairs merge l = pairs merge l') : l = l' := by
  induction l using List.twoStepInduction generalizing l' with
  | nil => exact (List.length_eq_zero_iff.mp hlen.symm).symm
  | singleton a =>
      rcases l' with _ | ⟨c, _ | ⟨d, rest'⟩⟩
      · simp at hlen
      · exact hrem
      · simp at hlen
  | cons_cons leaf2 leaf1 rest ih _ =>
      rcases l' with _ | ⟨a, _ | ⟨b, rest'⟩⟩
      · simp at hlen
      · simp at hlen
      · simp only [pairs, List.cons.injEq] at hpairs
        obtain ⟨h1, h2⟩ := hmerge _ _ _ _ hpairs.1
        have hrest : rest = rest' := ih (by simpa using hlen) (by simpa [remainder] using hrem)
          hpairs.2
        rw [h1, h2, hrest]

/-- Two loops over queues of one length with the same result had the same
queue: the last merge determines the two elements it took. -/
theorem mergeQueue_inj {fuel : Nat} {queue queue' : List α} {root : α}
    (hlen : queue.length = queue'.length) (h : mergeQueue merge fuel queue = .ok root)
    (h' : mergeQueue merge fuel queue' = .ok root) : queue = queue' := by
  induction fuel generalizing queue queue' with
  | zero =>
      rcases queue with _ | ⟨a, _ | ⟨b, rest⟩⟩ <;> rcases queue' with _ | ⟨c, _ | ⟨d, rest'⟩⟩ <;>
        first
          | cases h; done
          | cases h'; done
          | cases h; cases h'; rfl
  | succ fuel ih =>
      rcases queue with _ | ⟨a, _ | ⟨b, rest⟩⟩
      · cases h
      · rcases queue' with _ | ⟨c, _ | ⟨d, rest'⟩⟩
        · simp at hlen
        · cases h; cases h'; rfl
        · simp at hlen
      · rcases queue' with _ | ⟨c, _ | ⟨d, rest'⟩⟩
        · simp at hlen
        · simp at hlen
        · have hqueue : rest ++ [merge b a] = rest' ++ [merge d c] :=
            ih (by simpa using hlen) h h'
          obtain ⟨hrest, hlast⟩ := List.append_inj' hqueue rfl
          obtain ⟨h1, h2⟩ := hmerge _ _ _ _ (List.singleton_inj.mp hlast)
          rw [h1, h2, hrest]

end Injective

/-- The tree determines the leaves it was merged from. -/
theorem treeOf_inj {l l' : List α} {t : Tree α} (h : treeOf l = .ok t) (h' : treeOf l' = .ok t) :
    l = l' := by
  have hlen : l.length = l'.length := (size_treeOf h).symm.trans (size_treeOf h')
  have hfork : ∀ a b c d : Tree α, Tree.fork a b = Tree.fork c d → a = c ∧ b = d :=
    fun _ _ _ _ heq => Tree.fork.inj heq
  unfold treeOf rootOf at h h'
  rw [show (l'.map Tree.leaf).length = (l.map Tree.leaf).length by simp [hlen]] at h'
  have hqueue := mergeQueue_inj hfork (by simp [length_initialQueue, hlen]) h h'
  have hremlen : (remainder (l.map Tree.leaf).reverse).length
      = (remainder (l'.map Tree.leaf).reverse).length := by
    simp [length_remainder, hlen]
  obtain ⟨hrem, hpairs⟩ := List.append_inj hqueue hremlen
  have hmap := List.reverse_injective (pairs_inj hfork (by simp [hlen]) hrem hpairs)
  exact (List.map_injective_iff.mpr fun _ _ heq => Tree.leaf.inj heq) hmap

/-! ## Roots under a hash -/

section Hash

variable {δ : Type} (hash : α → δ) (cat : δ → δ → α)

namespace Tree

/-- The digest of a tree: a leaf is hashed, a fork hashes its two digests. -/
def root : Tree α → δ
  | leaf a => hash a
  | fork left right => hash (cat left.root right.root)

/-- Every string hashed for the root. -/
def messages : Tree α → List α
  | leaf a => [a]
  | fork left right => cat (left.root hash cat) (right.root hash cat) ::
      (left.messages ++ right.messages)

/-- A message is a leaf or the joint roots of a fork. -/
theorem mem_messages {hash : α → δ} {cat : δ → δ → α} {t : Tree α} {m : α}
    (h : m ∈ t.messages hash cat) :
    m ∈ t.leaves ∨ ∃ p ∈ t.forks, m = cat (p.1.root hash cat) (p.2.root hash cat) := by
  induction t with
  | leaf a => exact Or.inl h
  | fork left right ihl ihr =>
      simp only [messages, List.mem_cons, List.mem_append] at h
      rcases h with rfl | h | h
      · exact Or.inr ⟨(left, right), by simp [forks], rfl⟩
      · rcases ihl h with hleaf | ⟨p, hp, rfl⟩
        · exact Or.inl (by simp [leaves, hleaf])
        · exact Or.inr ⟨p, by simp [forks, hp], rfl⟩
      · rcases ihr h with hleaf | ⟨p, hp, rfl⟩
        · exact Or.inl (by simp [leaves, hleaf])
        · exact Or.inr ⟨p, by simp [forks, hp], rfl⟩

/-- The digest of a tree is the digest of one of its strings. -/
theorem exists_message (hash : α → δ) (cat : δ → δ → α) (t : Tree α) :
    ∃ m ∈ t.messages hash cat, hash m = t.root hash cat := by
  cases t with
  | leaf a => exact ⟨a, by simp [messages], rfl⟩
  | fork left right => exact ⟨_, List.mem_cons_self, rfl⟩

end Tree

/-- **Binding.**  Two trees with one root are equal when the hash has no
coincidence among the strings hashed for them and no leaf of either is itself
the concatenation of two digests.  The trees need not have one shape. -/
theorem root_binding {cat : δ → δ → α} (hcat : ∀ a b c d, cat a b = cat c d → a = c ∧ b = d)
    {t u : Tree α}
    (hcol : ∀ x ∈ t.messages hash cat, ∀ y ∈ u.messages hash cat, hash x = hash y → x = y)
    (ht : ∀ x ∈ t.leaves, ∀ a b, x ≠ cat a b) (hu : ∀ x ∈ u.leaves, ∀ a b, x ≠ cat a b)
    (h : t.root hash cat = u.root hash cat) : t = u := by
  induction t generalizing u with
  | leaf x =>
      cases u with
      | leaf y =>
          rw [hcol x (by simp [Tree.messages]) y (by simp [Tree.messages]) h]
      | fork l r =>
          have heq := hcol x (by simp [Tree.messages]) _ (by simp [Tree.messages]) h
          exact absurd heq (ht x (by simp [Tree.leaves]) _ _)
  | fork l r ihl ihr =>
      cases u with
      | leaf y =>
          have heq := hcol _ (by simp [Tree.messages]) y (by simp [Tree.messages]) h
          exact absurd heq.symm (hu y (by simp [Tree.leaves]) _ _)
      | fork l' r' =>
          have heq := hcol _ (by simp [Tree.messages]) _ (by simp [Tree.messages]) h
          obtain ⟨hl, hr⟩ := hcat _ _ _ _ heq
          have hleft : l = l' := ihl
            (fun x hx y hy => hcol x (by simp [Tree.messages, hx]) y (by simp [Tree.messages, hy]))
            (fun x hx => ht x (by simp [Tree.leaves, hx]))
            (fun x hx => hu x (by simp [Tree.leaves, hx])) hl
          have hright : r = r' := ihr
            (fun x hx y hy => hcol x (by simp [Tree.messages, hx]) y (by simp [Tree.messages, hy]))
            (fun x hx => ht x (by simp [Tree.leaves, hx]))
            (fun x hx => hu x (by simp [Tree.leaves, hx])) hr
          rw [hleft, hright]

/-- Hashing the leaves and merging digests gives the digest of the tree. -/
theorem rootOf_hash {l : List α} {t : Tree α} (h : treeOf l = .ok t) :
    rootOf (fun a b => hash (cat a b)) (l.map hash) = .ok (t.root hash cat) := by
  have hmap := rootOf_map (Tree.root hash cat) (fun a b => hash (cat a b))
    (fun _ _ => rfl) h
  simpa [Function.comp_def, Tree.root] using hmap

/-- Every string hashed when the digests of the leaves are merged. -/
def strings (l : List α) : List α :=
  l ++ (mergedPairs (fun a b => hash (cat a b)) (l.map hash)).map fun p => cat p.1 p.2

/-- Every string of the symbolic tree is hashed by the run on digests. -/
theorem mem_strings_of_mem_messages {l : List α} {t : Tree α} (h : treeOf l = .ok t) {m : α}
    (hm : m ∈ t.messages hash cat) : m ∈ strings hash cat l := by
  obtain ⟨hleaves, hforks⟩ := treeOf_spec h
  have hmap : mergedPairs (fun a b => hash (cat a b)) ((l.map Tree.leaf).map (Tree.root hash cat)) =
      (mergedPairs Tree.fork (l.map Tree.leaf)).map fun p =>
        (p.1.root hash cat, p.2.root hash cat) :=
    mergedPairs_map (Tree.root hash cat) _ (fun _ _ => rfl) _
  simp only [List.map_map, Function.comp_def, Tree.root] at hmap
  rw [strings, hmap, List.map_map]
  rcases Tree.mem_messages hm with hleaf | ⟨p, hp, rfl⟩
  · exact List.mem_append_left _ (hleaves m hleaf)
  · exact List.mem_append_right _ (List.mem_map.mpr ⟨p, hforks p hp, rfl⟩)

/-- The root of a non-empty list is the digest of a hashed string. -/
theorem exists_string_of_rootOf {l : List α} {root : δ} (hne : l ≠ [])
    (h : rootOf (fun a b => hash (cat a b)) (l.map hash) = .ok root) :
    ∃ m ∈ strings hash cat l, hash m = root := by
  have hleaves : l.map Tree.leaf ≠ [] := by simpa using hne
  obtain ⟨t, ht⟩ := rootOf_isOk Tree.fork hleaves
  have hroot := rootOf_hash hash cat ht
  rw [h] at hroot
  obtain ⟨m, hm, heq⟩ := Tree.exists_message hash cat t
  exact ⟨m, mem_strings_of_mem_messages hash cat ht hm, heq.trans (Except.ok.inj hroot).symm⟩

/-- **Binding of leaves.**  Two leaf lists with one root are equal when the
hash has no coincidence among the strings hashed for both and no leaf is
itself the concatenation of two digests. -/
theorem leaves_binding {hash : α → δ} {cat : δ → δ → α}
    (hcat : ∀ a b c d, cat a b = cat c d → a = c ∧ b = d) {l l' : List α} {root : δ}
    (hne : l ≠ []) (hne' : l' ≠ [])
    (hcol : ∀ x ∈ strings hash cat l, ∀ y ∈ strings hash cat l', hash x = hash y → x = y)
    (hl : ∀ x ∈ l, ∀ a b, x ≠ cat a b) (hl' : ∀ x ∈ l', ∀ a b, x ≠ cat a b)
    (h : rootOf (fun a b => hash (cat a b)) (l.map hash) = .ok root)
    (h' : rootOf (fun a b => hash (cat a b)) (l'.map hash) = .ok root) : l = l' := by
  have hleaves : l.map Tree.leaf ≠ [] := by simpa using hne
  have hleaves' : l'.map Tree.leaf ≠ [] := by simpa using hne'
  obtain ⟨t, ht⟩ := rootOf_isOk Tree.fork hleaves
  obtain ⟨t', ht'⟩ := rootOf_isOk Tree.fork hleaves'
  have hroot := rootOf_hash hash cat ht
  have hroot' := rootOf_hash hash cat ht'
  rw [h] at hroot
  rw [h'] at hroot'
  have heq : t.root hash cat = t'.root hash cat :=
    (Except.ok.inj hroot).symm.trans (Except.ok.inj hroot')
  have htree : t = t' := by
    refine root_binding hash hcat ?_ ?_ ?_ heq
    · intro x hx y hy
      exact hcol x (mem_strings_of_mem_messages hash cat ht hx) y
        (mem_strings_of_mem_messages hash cat ht' hy)
    · exact fun x hx => hl x ((treeOf_spec ht).1 x hx)
    · exact fun x hx => hl' x ((treeOf_spec ht').1 x hx)
  subst htree
  exact treeOf_inj ht ht'

end Hash

/-! ## Heap order -/

section Heap

variable {merge : α → α → α}

/-- Node `i` is the merge of its two children. -/
def MergesChildren (merge : α → α → α) (nodes : List α) (i : Nat) : Prop :=
  ∃ left right, nodes[2 * i + 1]? = some left ∧ nodes[2 * i + 2]? = some right ∧
    nodes[i]? = some (merge left right)

/-- The array of a complete binary tree: the leaves are the last nodes, and
every node before them is the merge of its two children. -/
structure IsHeap (merge : α → α → α) (leaves nodes : List α) : Prop where
  length_eq : nodes.length = 2 * leaves.length - 1
  leaf : ∀ k, k < leaves.length → nodes[leaves.length - 1 + k]? = leaves[k]?
  inner : ∀ i, i < leaves.length - 1 → MergesChildren merge nodes i

/-- Puts nodes `count - 1`, …, `0` in front of the nodes from `count` on. -/
def fillHeap (merge : α → α → α) : Nat → List α → List α
  | 0, nodes => nodes
  | i + 1, nodes =>
      match nodes[i]?, nodes[i + 1]? with
      | some left, some right => fillHeap merge i (merge left right :: nodes)
      | _, _ => nodes

def heapArray (merge : α → α → α) (leaves : List α) : List α :=
  fillHeap merge (leaves.length - 1) leaves

/-- Filling puts nodes in front that merge their children, and leaves the others
in their order. -/
theorem fillHeap_spec {count : Nat} {acc : List α} (hlen : count < acc.length) :
    (fillHeap merge count acc).length = count + acc.length ∧
      (∀ k, (fillHeap merge count acc)[count + k]? = acc[k]?) ∧
      ∀ i, i < count → MergesChildren merge (fillHeap merge count acc) i := by
  induction count generalizing acc with
  | zero => exact ⟨by simp [fillHeap], fun k => by simp [fillHeap], fun i hi => by omega⟩
  | succ count ih =>
      obtain ⟨left, hleft⟩ : ∃ left, acc[count]? = some left :=
        ⟨_, List.getElem?_eq_getElem (by omega)⟩
      obtain ⟨right, hright⟩ : ∃ right, acc[count + 1]? = some right :=
        ⟨_, List.getElem?_eq_getElem hlen⟩
      have hfill :
          fillHeap merge (count + 1) acc = fillHeap merge count (merge left right :: acc) := by
        simp only [fillHeap, hleft, hright]
      have hlt : count < (merge left right :: acc).length := by simp; omega
      obtain ⟨hlength, hsuffix, hinner⟩ := ih hlt
      rw [hfill]
      have hshift : ∀ k, (fillHeap merge count (merge left right :: acc))[count + 1 + k]? =
          acc[k]? := by
        intro k
        rw [show count + 1 + k = count + (k + 1) by omega, hsuffix]
        simp
      refine ⟨by rw [hlength]; simp; omega, hshift, fun i hi => ?_⟩
      rcases Nat.lt_succ_iff_lt_or_eq.mp hi with hlt | rfl
      · exact hinner i hlt
      · refine ⟨left, right, ?_, ?_, ?_⟩
        · rw [show 2 * i + 1 = i + 1 + i by omega, hshift, hleft]
        · rw [show 2 * i + 2 = i + 1 + (i + 1) by omega, hshift, hright]
        · simpa using hsuffix 0

/-- The array exists, and can be computed from its end. -/
theorem isHeap_heapArray {leaves : List α} (hne : leaves ≠ []) :
    IsHeap merge leaves (heapArray merge leaves) := by
  have hpos := List.length_pos_iff.mpr hne
  have hlt : leaves.length - 1 < leaves.length := by omega
  obtain ⟨hlength, hsuffix, hinner⟩ := @fillHeap_spec _ merge _ _ hlt
  exact ⟨by rw [heapArray, hlength]; omega, fun k _ => hsuffix k, hinner⟩

/-- The nodes `top`, `top - 1`, … of an array, `count` of them. -/
def descending (nodes : List α) (top count : Nat) : List (Option α) :=
  (List.range count).map fun j => nodes[top - j]?

/-- A descending walk starts at the top. -/
theorem descending_succ (nodes : List α) (top count : Nat) :
    descending nodes top (count + 1) = nodes[top]? :: descending nodes (top - 1) count := by
  simp only [descending, List.range_succ_eq_map, List.map_cons, List.map_map, Nat.sub_zero,
    List.cons.injEq, true_and]
  refine List.map_congr_left fun j _ => ?_
  simp only [Function.comp_apply]
  congr 1
  omega

/-- A descending walk ends at its lowest node. -/
theorem descending_concat (nodes : List α) (top count : Nat) :
    descending nodes top (count + 1) = descending nodes top count ++ [nodes[top - count]?] := by
  simp [descending, List.range_succ]

/-- Merging the pairs of nodes below an even one gives the nodes below its
parent. -/
theorem pairs_descending {nodes l : List α} {parent : Nat}
    (hinner : ∀ i, i < parent → MergesChildren merge nodes i)
    (hl : l.map some = descending nodes (2 * parent) l.length) (hlen : l.length ≤ 2 * parent + 1) :
    (remainder l).map some = descending nodes (2 * parent - 2 * (l.length / 2)) (l.length % 2) ∧
      (pairs merge l).map some = descending nodes (parent - 1) (l.length / 2) := by
  induction l using List.twoStepInduction generalizing parent with
  | nil => simp [remainder, pairs, descending]
  | singleton a => exact ⟨by simpa [remainder] using hl, by simp [pairs, descending]⟩
  | cons_cons right left rest ih _ =>
      simp only [List.length_cons] at hlen
      obtain ⟨parent, rfl⟩ : ∃ p, parent = p + 1 := ⟨parent - 1, by omega⟩
      simp only [List.map_cons, List.length_cons, descending_succ, List.cons.injEq] at hl
      obtain ⟨hright, hleft, hrest⟩ := hl
      obtain ⟨left', right', hleft', hright', hnode⟩ := hinner parent (by omega)
      rw [show 2 * (parent + 1) = 2 * parent + 2 by omega, hright'] at hright
      rw [show 2 * (parent + 1) - 1 = 2 * parent + 1 by omega, hleft'] at hleft
      obtain rfl := Option.some.inj hright
      obtain rfl := Option.some.inj hleft
      rw [show 2 * (parent + 1) - 1 - 1 = 2 * parent by omega] at hrest
      obtain ⟨hremainder, hpairs⟩ := ih (fun i hi => hinner i (by omega)) hrest (by omega)
      have hhalf : (rest.length + 1 + 1) / 2 = rest.length / 2 + 1 := by omega
      constructor
      · rw [remainder, hremainder, List.length_cons, List.length_cons]
        congr 1 <;> omega
      · rw [pairs, List.map_cons, hpairs, List.length_cons, List.length_cons, hhalf,
          descending_succ, ← hnode]
        rfl

/-- **The queue invariant.**  The queue holds nodes `2i`, …, `i`, the front
being the one with the highest index; one turn merges the children of node
`i - 1` and leaves nodes `2(i - 1)`, …, `i - 1`. -/
theorem mergeQueue_descending {nodes : List α} {i fuel : Nat} {queue : List α}
    (hinner : ∀ k, k < i → MergesChildren merge nodes k)
    (hqueue : queue.map some = descending nodes (2 * i) (i + 1)) (hfuel : i ≤ fuel) :
    ∃ root, nodes[0]? = some root ∧ mergeQueue merge fuel queue = .ok root := by
  induction i generalizing fuel queue with
  | zero =>
      rcases queue with _ | ⟨root, _ | ⟨b, rest⟩⟩
      · cases hqueue
      · refine ⟨root, ?_, by cases fuel <;> rfl⟩
        simpa [descending] using hqueue.symm
      · simp [descending] at hqueue
  | succ i ih =>
      obtain ⟨fuel, rfl⟩ : ∃ f, fuel = f + 1 := ⟨fuel - 1, by omega⟩
      obtain ⟨left, right, hleft, hright, hnode⟩ := hinner i (by omega)
      rw [descending_succ, descending_succ, show 2 * (i + 1) = 2 * i + 2 by omega,
        show 2 * i + 2 - 1 = 2 * i + 1 by omega, show 2 * i + 1 - 1 = 2 * i by omega,
        hright, hleft] at hqueue
      rcases queue with _ | ⟨a, _ | ⟨b, rest⟩⟩
      · cases hqueue
      · simp at hqueue
      · simp only [List.map_cons, List.cons.injEq, Option.some.injEq] at hqueue
        obtain ⟨rfl, rfl, hrest⟩ := hqueue
        have hnext : (rest ++ [merge b a]).map some = descending nodes (2 * i) (i + 1) := by
          rw [descending_concat, show 2 * i - i = i by omega, hnode, ← hrest]
          simp
        have hturn : mergeQueue merge (fuel + 1) (a :: b :: rest) =
            mergeQueue merge fuel (rest ++ [merge b a]) := rfl
        rw [hturn]
        exact ih (fun k hk => hinner k (by omega)) hnext (by omega)

/-- Any list of leaves is merged to node `0` of its array. -/
theorem rootOf_heap {leaves nodes : List α} (hne : leaves ≠ []) (h : IsHeap merge leaves nodes) :
    ∃ root, nodes[0]? = some root ∧ rootOf merge leaves = .ok root := by
  have hpos := List.length_pos_iff.mpr hne
  have hleaves : leaves.reverse.map some =
      descending nodes (2 * (leaves.length - 1)) leaves.reverse.length := by
    refine List.ext_getElem (by simp [descending]) fun j hj _ => ?_
    have hlt : j < leaves.length := by simpa using hj
    simp only [descending, List.getElem_map, List.getElem_range, List.getElem_reverse]
    rw [show 2 * (leaves.length - 1) - j = leaves.length - 1 + (leaves.length - 1 - j) by omega,
      h.leaf _ (by omega), List.getElem?_eq_getElem]
  obtain ⟨hremainder, hpairs⟩ := pairs_descending h.inner hleaves (by simp; omega)
  rw [List.length_reverse] at hremainder hpairs
  have hqueue : (initialQueue merge leaves).map some =
      descending nodes (2 * ((leaves.length - 1) / 2)) ((leaves.length - 1) / 2 + 1) := by
    rw [initialQueue, List.map_append, hremainder, hpairs]
    -- An odd number of leaves puts one leaf in front of the merged pairs.
    rcases Nat.mod_two_eq_zero_or_one leaves.length with hmod | hmod
    · rw [hmod, show leaves.length / 2 = (leaves.length - 1) / 2 + 1 by omega,
        show leaves.length - 1 - 1 = 2 * ((leaves.length - 1) / 2) by omega]
      rfl
    · rw [hmod, descending_succ, descending_succ,
        show 2 * (leaves.length - 1) - 2 * (leaves.length / 2) =
          2 * ((leaves.length - 1) / 2) by omega,
        show leaves.length - 1 - 1 = 2 * ((leaves.length - 1) / 2) - 1 by omega,
        show leaves.length / 2 = (leaves.length - 1) / 2 by omega]
      rfl
  exact mergeQueue_descending (fun k hk => h.inner k (by omega)) hqueue (by omega)

end Heap

end Cbmt
