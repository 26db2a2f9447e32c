import Mathlib.Data.List.Basic

/-!
# Binary hash trees

Digests are hashed in pairs, level by level, a last one without a partner being carried up as it is,
until one digest is left.

* `HashTree` — a binary tree with digests at its leaves, and `root`, the digest it is hashed to.
* `HashTree.root_injective` — where the pair hash is injective and makes no leaf, the root
  determines the tree.
* `pairUp` — one level of hashing.
* `Covers` — a list of digests is what is left of the leaves after some levels; `pairUp` keeps it,
  and `Covers.unique` says that the digest left at the end determines the leaves, in their order
  and number.
-/

set_option autoImplicit false

namespace Graphene

variable {D : Type} {pair : D → D → D}

/-! ## Trees -/

/-- A binary tree with digests at its leaves. -/
inductive HashTree (D : Type) where
  /-- A digest that is not hashed here. -/
  | leaf (d : D)
  /-- Two trees under the hash of a pair. -/
  | node (left right : HashTree D)

namespace HashTree

/-- The digest of the whole tree. -/
def root (pair : D → D → D) : HashTree D → D
  | leaf d => d
  | node left right => pair (left.root pair) (right.root pair)

/-- The digests at the leaves, from the left. -/
def leaves : HashTree D → List D
  | leaf d => [d]
  | node left right => left.leaves ++ right.leaves

/-- **The root determines the tree**, where the hash of a pair determines the pair and no leaf is
the hash of a pair. -/
theorem root_injective {IsLeaf : D → Prop}
    (hpair : ∀ a b c d, pair a b = pair c d → a = c ∧ b = d) (hleaf : ∀ a b, ¬IsLeaf (pair a b)) :
    ∀ s t : HashTree D, (∀ d ∈ s.leaves, IsLeaf d) → (∀ d ∈ t.leaves, IsLeaf d) →
      s.root pair = t.root pair → s = t := by
  intro s
  induction s with
  | leaf d =>
    intro t hs ht hroot
    cases t with
    | leaf d' => exact congrArg leaf hroot
    | node l r =>
      -- a leaf beside the hash of a pair
      have hd : IsLeaf d := hs d (by simp [leaves])
      simp only [root] at hroot
      exact absurd (hroot ▸ hd) (hleaf _ _)
  | node l r ihl ihr =>
    intro t hs ht hroot
    cases t with
    | leaf d =>
      have hd : IsLeaf d := ht d (by simp [leaves])
      simp only [root] at hroot
      exact absurd (hroot ▸ hd) (hleaf _ _)
    | node l' r' =>
      obtain ⟨hl, hr⟩ := hpair _ _ _ _ hroot
      have hmem : ∀ {a b : HashTree D}, (∀ d ∈ (node a b).leaves, IsLeaf d) →
          (∀ d ∈ a.leaves, IsLeaf d) ∧ ∀ d ∈ b.leaves, IsLeaf d := fun h ↦
        ⟨fun d hd ↦ h d (List.mem_append_left _ hd), fun d hd ↦ h d (List.mem_append_right _ hd)⟩
      rw [ihl l' (hmem hs).1 (hmem ht).1 hl, ihr r' (hmem hs).2 (hmem ht).2 hr]

/-- One level of trees joined in pairs. -/
def joinPairs : List (HashTree D) → List (HashTree D)
  | a :: b :: rest => node a b :: joinPairs rest
  | ts => ts

theorem joinPairs_leaves (ts : List (HashTree D)) :
    (joinPairs ts).flatMap leaves = ts.flatMap leaves := by
  induction ts using joinPairs.induct with
  | case1 a b rest ih => simp [joinPairs, leaves, ih]
  | case2 ts h => rw [joinPairs]; exact h

end HashTree

/-! ## Levels of digests -/

/-- One level of hashing: neighbours in pairs, a last one without a partner as it is. -/
def pairUp (pair : D → D → D) : List D → List D
  | a :: b :: rest => pair a b :: pairUp pair rest
  | ds => ds

@[simp] theorem pairUp_nil : pairUp pair [] = [] := rfl

@[simp] theorem pairUp_singleton (a : D) : pairUp pair [a] = [a] := rfl

@[simp] theorem pairUp_cons (a b : D) (rest : List D) :
    pairUp pair (a :: b :: rest) = pair a b :: pairUp pair rest := rfl

theorem pairUp_roots (ts : List (HashTree D)) :
    pairUp pair (ts.map (·.root pair)) = (HashTree.joinPairs ts).map (·.root pair) := by
  induction ts using HashTree.joinPairs.induct with
  | case1 a b rest ih => simp [HashTree.joinPairs, HashTree.root, ih]
  | case2 ts h =>
    match ts, h with
    | [], _ => rfl
    | [a], _ => rfl
    | a :: b :: rest, h => exact absurd rfl (h a b rest)

/-- Hashing a list of even length and then the rest is hashing it all. -/
theorem pairUp_append {ds : List D} (heven : ds.length % 2 = 0) (rest : List D) :
    pairUp pair (ds ++ rest) = pairUp pair ds ++ pairUp pair rest := by
  induction ds using pairUp.induct with
  | case1 a b ds ih =>
    simp only [List.length_cons] at heven
    simp [ih (by omega)]
  | case2 ds h =>
    match ds, h with
    | [], _ => rfl
    | [a], _ => simp at heven
    | a :: b :: ds, h => exact absurd rfl (h a b ds)

theorem pairUp_length (ds : List D) : (pairUp pair ds).length = (ds.length + 1) / 2 := by
  induction ds using pairUp.induct with
  | case1 a b ds ih =>
    simp only [pairUp_cons, List.length_cons, ih]
    omega
  | case2 ds h =>
    match ds, h with
    | [], _ => simp
    | [a], _ => simp
    | a :: b :: ds, h => exact absurd rfl (h a b ds)

/-- The digests `ds` are the roots of trees whose leaves are `ls`, from the left. -/
def Covers (pair : D → D → D) (ls ds : List D) : Prop :=
  ∃ ts : List (HashTree D), ts.map (·.root pair) = ds ∧ ts.flatMap HashTree.leaves = ls

namespace Covers

variable {ls ls' ds : List D}

theorem refl (ls : List D) : Covers pair ls ls :=
  ⟨ls.map .leaf, by simp [Function.comp_def, HashTree.root],
    by simp [List.flatMap_map, HashTree.leaves]⟩

theorem pairUp (h : Covers pair ls ds) : Covers pair ls (pairUp pair ds) := by
  obtain ⟨ts, rfl, rfl⟩ := h
  exact ⟨HashTree.joinPairs ts, (pairUp_roots ts).symm, HashTree.joinPairs_leaves ts⟩

/-- **The digest that is left at the end determines the leaves**, in their order and number. -/
theorem unique {d : D} (IsLeaf : D → Prop)
    (hpair : ∀ a b c d, pair a b = pair c d → a = c ∧ b = d) (hleaf : ∀ a b, ¬IsLeaf (pair a b))
    (hls : ∀ x ∈ ls, IsLeaf x) (hls' : ∀ x ∈ ls', IsLeaf x)
    (h : Covers pair ls [d]) (h' : Covers pair ls' [d]) : ls = ls' := by
  obtain ⟨ts, hroots, rfl⟩ := h
  obtain ⟨ts', hroots', rfl⟩ := h'
  obtain ⟨t, rfl, ht⟩ := List.map_eq_singleton_iff.1 hroots
  obtain ⟨t', rfl, ht'⟩ := List.map_eq_singleton_iff.1 hroots'
  simp only [List.flatMap_cons, List.flatMap_nil, List.append_nil] at hls hls' ⊢
  rw [HashTree.root_injective hpair hleaf t t' hls hls' (ht.trans ht'.symm)]

end Covers

end Graphene
