import Graphene.Lib.HashTree
import Mathlib.Algebra.Group.Nat.Defs

/-!
# The Merkle root of a block's transactions

`signed_block::calculate_merkle_root` (`protocol/block.cpp`): the digests of the transactions are
hashed in pairs in their own vector, level by level, an odd last one being moved up unhashed, and
the one that is left is hashed into a checksum.

* `MerkleHash` — the hashes that it uses.
* `MerkleHash.calculateMerkleRoot` — the function, its three loops with fuel and its 32-bit counters
  as they are.
* `MerkleHash.hashPairs_eq`, `MerkleHash.hashLevels_covers` — what the loops leave in the vector.
* `MerkleHash.merkle_root_commits` — the root determines the digests of the transactions, in their
  order and number.
-/

set_option autoImplicit false

namespace Graphene

/-- The hashes that `calculate_merkle_root` uses. -/
structure MerkleHash (Tx Digest Checksum : Type) where
  /-- `processed_transaction::merkle_digest`. -/
  merkleDigest : Tx → Digest
  /-- `digest_type::hash` of a pair of digests. -/
  hashPair : Digest → Digest → Digest
  /-- `checksum_type::hash` of a digest. -/
  hash : Digest → Checksum
  /-- `digest_type()`. -/
  emptyDigest : Digest
  /-- `checksum_type()`. -/
  emptyChecksum : Checksum

namespace MerkleHash

variable {Tx Digest Checksum : Type} (H : MerkleHash Tx Digest Checksum)

/-! ## The function -/

/-- `for( uint32_t i = 0; i < transactions.size(); ++i ) ids[i] = transactions[i].merkle_digest();`
from `i` on. -/
def fillIds (transactions : List Tx) : ℕ → ℕ → List Digest → Option (List Digest)
  | 0, _, _ => none
  | fuel + 1, i, ids =>
    if h : i < transactions.length then
      fillIds transactions fuel ((i + 1) % 2 ^ 32) (ids.set i (H.merkleDigest transactions[i]))
    else some ids

/-- `for( uint32_t i = 0; i < i_max; i += 2 ) ids[k++] = digest_type::hash( ... );` from `i` on.  It
gives `k` and the vector; `none` is also a read behind the end of the vector. -/
def hashPairs (iMax : ℕ) : ℕ → ℕ → ℕ → List Digest → Option (ℕ × List Digest)
  | 0, _, _, _ => none
  | fuel + 1, i, k, ids =>
    if i < iMax then
      match ids[i]?, ids[i + 1]? with
      | some a, some b =>
        hashPairs iMax fuel ((i + 2) % 2 ^ 32) ((k + 1) % 2 ^ 32) (ids.set k (H.hashPair a b))
      | _, _ => none
    else some (k, ids)

/-- `if( current_number_of_hashes&1 ) ids[k++] = ids[i_max];`. -/
def carryLast (current iMax : ℕ) : ℕ × List Digest → Option (ℕ × List Digest)
  | (k, ids) =>
    if current % 2 = 1 then (ids[iMax]?).map fun d ↦ ((k + 1) % 2 ^ 32, ids.set k d)
    else some (k, ids)

/-- `while( current_number_of_hashes > 1 )`. -/
def hashLevels : ℕ → ℕ → List Digest → Option (List Digest)
  | 0, _, _ => none
  | fuel + 1, current, ids =>
    if 1 < current then do
      let iMax := (current - current % 2) % 2 ^ 32
      let (k, ids) ← carryLast current iMax (← H.hashPairs iMax fuel 0 0 ids)
      hashLevels fuel k ids
    else some ids

/-- `signed_block::calculate_merkle_root`. -/
def calculateMerkleRoot (fuel : ℕ) (transactions : List Tx) : Option Checksum :=
  if transactions.length = 0 then some H.emptyChecksum
  else do
    let ids ← H.fillIds transactions fuel 0 (List.replicate transactions.length H.emptyDigest)
    let ids ← H.hashLevels fuel transactions.length ids
    let d ← ids[0]?
    return H.hash d

/-- The function returns `root`. -/
def MerkleRootIs (transactions : List Tx) (root : Checksum) : Prop :=
  ∃ fuel, H.calculateMerkleRoot fuel transactions = some root

/-! ## What the loops leave -/

/-- With 2^32 transactions the counter of the first loop goes round for ever. -/
theorem fillIds_endless {transactions : List Tx} (h : 2 ^ 32 ≤ transactions.length) (fuel : ℕ) :
    ∀ {i : ℕ} (ids : List Digest), i < 2 ^ 32 → H.fillIds transactions fuel i ids = none := by
  induction fuel with
  | zero => intro i ids hi; rfl
  | succ fuel ih =>
    intro i ids hi
    rw [fillIds, dif_pos (by omega)]
    exact ih _ (Nat.mod_lt _ (by omega))

theorem fillIds_eq {transactions : List Tx} (h : transactions.length < 2 ^ 32) (fuel : ℕ) :
    ∀ {i : ℕ} {ids : List Digest}, ids.length = transactions.length → i ≤ transactions.length →
      H.fillIds transactions fuel i ids =
        if transactions.length - i < fuel then
          some (ids.take i ++ (transactions.drop i).map H.merkleDigest)
        else none := by
  induction fuel with
  | zero => intro i ids hlen hi; rfl
  | succ fuel ih =>
    intro i ids hlen hi
    rw [fillIds]
    by_cases hlt : i < transactions.length
    · have hmod : (i + 1) % 2 ^ 32 = i + 1 := Nat.mod_eq_of_lt (by omega)
      have hstep : transactions.length - (i + 1) < fuel ↔ transactions.length - i < fuel + 1 := by
        omega
      rw [dif_pos hlt, hmod, ih (by simpa using hlen) (by omega)]
      simp only [hstep]
      rw [List.take_succ_eq_append_getElem (by simp; omega), List.take_set_of_le (Nat.le_refl i),
        List.drop_eq_getElem_cons hlt]
      simp only [List.getElem_set_self, List.append_assoc, List.singleton_append, List.map_cons]
    · have hi' : i = transactions.length := by omega
      subst hi'
      simp [← hlen]

/-- **The pairs of one level**: the hashes stand in front of what the vector held, and what they do
not cover is left as it was. -/
theorem hashPairs_eq {iMax : ℕ} (heven : iMax % 2 = 0) (hmax : iMax < 2 ^ 32) (fuel : ℕ) :
    ∀ {i k : ℕ} {ids : List Digest}, i % 2 = 0 → i ≤ iMax → k ≤ i → iMax ≤ ids.length →
      H.hashPairs iMax fuel i k ids =
        if (iMax - i) / 2 < fuel then
          some (k + (iMax - i) / 2, ids.take k ++
            (pairUp H.hashPair ((ids.drop i).take (iMax - i)) ++ ids.drop (k + (iMax - i) / 2)))
        else none := by
  induction fuel with
  | zero => intro i k ids hi hle hk hlen; rfl
  | succ fuel ih =>
    intro i k ids hi hle hk hlen
    rw [hashPairs]
    by_cases hlt : i < iMax
    · have h0 : ids[i]? = some ids[i] := List.getElem?_eq_getElem (by omega)
      have h1 : ids[i + 1]? = some ids[i + 1] := List.getElem?_eq_getElem (by omega)
      have hi2 : (i + 2) % 2 ^ 32 = i + 2 := Nat.mod_eq_of_lt (by omega)
      have hk1 : (k + 1) % 2 ^ 32 = k + 1 := Nat.mod_eq_of_lt (by omega)
      have hhalf : (iMax - i) / 2 = (iMax - (i + 2)) / 2 + 1 := by omega
      have hpair : (ids.drop i).take (iMax - i) =
          ids[i] :: ids[i + 1] :: (ids.drop (i + 2)).take (iMax - (i + 2)) := by
        rw [List.drop_eq_getElem_cons (by omega), List.drop_eq_getElem_cons (by omega),
          show iMax - i = iMax - (i + 2) + 1 + 1 by omega, List.take_succ_cons,
          List.take_succ_cons]
      -- the write at `k` is behind the reads that are still to come
      have hset : (ids.set k (H.hashPair ids[i] ids[i + 1])).drop (i + 2) = ids.drop (i + 2) := by
        rw [List.drop_set_of_lt (by omega)]
      have hset' : (ids.set k (H.hashPair ids[i] ids[i + 1])).drop
          (k + 1 + (iMax - (i + 2)) / 2) = ids.drop (k + 1 + (iMax - (i + 2)) / 2) := by
        rw [List.drop_set_of_lt (by omega)]
      have htake : (ids.set k (H.hashPair ids[i] ids[i + 1])).take (k + 1) =
          ids.take k ++ [H.hashPair ids[i] ids[i + 1]] := by
        rw [List.take_succ_eq_append_getElem (by simp; omega), List.take_set_of_le (Nat.le_refl k)]
        simp
      have hstep : (iMax - (i + 2)) / 2 < fuel ↔ (iMax - i) / 2 < fuel + 1 := by omega
      rw [if_pos hlt, h0, h1]
      simp only [hi2, hk1]
      rw [ih (by omega) (by omega) (by omega) (by simpa using hlen), hset, hset', htake, hpair,
        hhalf]
      simp only [pairUp_cons, List.append_assoc, List.cons_append, List.nil_append,
        Nat.add_lt_add_iff_right, Nat.add_assoc, Nat.add_comm 1]
    · have hi' : i = iMax := by omega
      subst hi'
      simp

/-- One level of the vector: its first `(n + 1) / 2` entries are the hashes of its first `n`. -/
theorem level_eq {n : ℕ} {ids : List Digest} (fuel : ℕ) (hn : 1 < n) (hmax : n < 2 ^ 32)
    (hlen : n ≤ ids.length) :
    (H.hashPairs ((n - n % 2) % 2 ^ 32) fuel 0 0 ids).bind (carryLast n ((n - n % 2) % 2 ^ 32)) =
      if n / 2 < fuel then
        some ((n + 1) / 2, pairUp H.hashPair (ids.take n) ++ ids.drop ((n + 1) / 2))
      else none := by
  have hmod : (n - n % 2) % 2 ^ 32 = n - n % 2 := Nat.mod_eq_of_lt (by omega)
  rw [hmod, H.hashPairs_eq (by omega) (by omega) fuel rfl (Nat.zero_le _) (Nat.le_refl _)
    (by omega)]
  have hhalf : (n - n % 2) / 2 = n / 2 := by omega
  simp only [Nat.sub_zero, Nat.zero_add, List.take_zero, List.nil_append, List.drop_zero, hhalf]
  by_cases hfuel : n / 2 < fuel
  · rw [if_pos hfuel, if_pos hfuel, Option.bind_some, carryLast]
    have hpl : (pairUp H.hashPair (ids.take (n - n % 2))).length = n / 2 := by
      rw [pairUp_length, List.length_take]
      omega
    rcases Nat.mod_two_eq_zero_or_one n with hpar | hpar
    · have hup : (n + 1) / 2 = n / 2 := by omega
      simp [hpar, hup]
    · have hup : (n + 1) / 2 = n / 2 + 1 := by omega
      have hk : (n / 2 + 1) % 2 ^ 32 = n / 2 + 1 := Nat.mod_eq_of_lt (by omega)
      have hlast : (pairUp H.hashPair (ids.take (n - n % 2)) ++ ids.drop (n / 2))[n - n % 2]? =
          some ids[n - 1] := by
        rw [List.getElem?_append_right (by omega), hpl, List.getElem?_drop,
          show n / 2 + (n - n % 2 - n / 2) = n - 1 by omega]
        exact List.getElem?_eq_getElem (by omega)
      have htake : ids.take n = ids.take (n - n % 2) ++ [ids[n - 1]] := by
        have hsub : n - n % 2 = n - 1 := by omega
        rw [hsub, ← List.take_succ_eq_append_getElem (by omega), Nat.sub_add_cancel (by omega)]
      rw [if_pos hpar, hlast, Option.map_some, hk, htake, pairUp_append (by simp; omega), hup,
        List.set_append_right _ _ (by omega), hpl, Nat.sub_self,
        List.drop_eq_getElem_cons (by omega), List.set_cons_zero]
      simp
  · rw [if_neg hfuel, if_neg hfuel, Option.bind_none]

/-- The levels, on a vector whose first `n` entries cover `ls`, leave one entry that covers them. -/
theorem hashLevels_covers {ls : List Digest} (fuel : ℕ) :
    ∀ {n : ℕ} {ids : List Digest}, 0 < n → n < 2 ^ 32 → n ≤ ids.length →
      Covers H.hashPair ls (ids.take n) → ∀ {ids' : List Digest},
      H.hashLevels fuel n ids = some ids' → ∃ d, ids'[0]? = some d ∧ Covers H.hashPair ls [d] := by
  induction fuel with
  | zero => intro n ids _ _ _ _ ids' h; exact absurd h (by simp [hashLevels])
  | succ fuel ih =>
    intro n ids hpos hmax hlen hcov ids' h
    rw [hashLevels] at h
    by_cases hn : 1 < n
    · have hlevel := H.level_eq fuel hn hmax hlen
      rw [if_pos hn] at h
      simp only [Option.bind_eq_bind] at h
      rw [← Option.bind_assoc, hlevel] at h
      by_cases hfuel : n / 2 < fuel
      · have hpl : (pairUp H.hashPair (ids.take n)).length = (n + 1) / 2 := by
          rw [pairUp_length, List.length_take, Nat.min_eq_left hlen]
        rw [if_pos hfuel, Option.bind_some] at h
        refine ih (by omega) (by omega) ?_ ?_ h
        · rw [List.length_append, hpl]
          exact Nat.le_add_right _ _
        · rw [List.take_left' hpl]
          exact hcov.pairUp
      · rw [if_neg hfuel] at h
        exact absurd h (by simp)
    · obtain rfl : n = 1 := by omega
      rw [if_neg hn, Option.some_inj] at h
      subst h
      obtain ⟨d, rest, rfl⟩ := List.exists_cons_of_length_pos hlen
      exact ⟨d, rfl, hcov⟩

theorem hashLevels_isSome (fuel : ℕ) :
    ∀ {n : ℕ} {ids : List Digest}, n < fuel → n < 2 ^ 32 → n ≤ ids.length →
      (H.hashLevels fuel n ids).isSome := by
  induction fuel with
  | zero => intro n ids h _ _; exact absurd h (Nat.not_lt_zero n)
  | succ fuel ih =>
    intro n ids hfuel hmax hlen
    rw [hashLevels]
    by_cases hn : 1 < n
    · have hlevel := H.level_eq fuel hn hmax hlen
      rw [if_pos hn]
      simp only [Option.bind_eq_bind]
      rw [← Option.bind_assoc, hlevel, if_pos (by omega), Option.bind_some]
      refine ih (by omega) (by omega) ?_
      rw [List.length_append, pairUp_length, List.length_take, Nat.min_eq_left hlen]
      exact Nat.le_add_right _ _
    · rw [if_neg hn]
      rfl

/-! ## The root -/

theorem covers_digests (transactions : List Tx) :
    Covers H.hashPair (transactions.map H.merkleDigest)
      ((transactions.map H.merkleDigest).take transactions.length) := by
  rw [List.take_of_length_le (by simp)]
  exact Covers.refl _

theorem calculateMerkleRoot_nil (fuel : ℕ) :
    H.calculateMerkleRoot fuel [] = some H.emptyChecksum := rfl

theorem MerkleRootIs.nil {root : Checksum} (h : H.MerkleRootIs [] root) :
    root = H.emptyChecksum := by
  obtain ⟨fuel, h⟩ := h
  exact (Option.some_inj.1 h).symm

/-- What is returned for a list that is not empty is the final hash of a digest that covers the
digests of its transactions. -/
theorem MerkleRootIs.covers {transactions : List Tx} {root : Checksum}
    (h : H.MerkleRootIs transactions root) (hne : transactions ≠ []) :
    ∃ d, Covers H.hashPair (transactions.map H.merkleDigest) [d] ∧ H.hash d = root := by
  obtain ⟨fuel, h⟩ := h
  have hpos : 0 < transactions.length := List.length_pos_iff.2 hne
  rw [calculateMerkleRoot, if_neg (by omega)] at h
  rcases Nat.lt_or_ge transactions.length (2 ^ 32) with hlt | hge
  · rw [H.fillIds_eq hlt fuel (by simp) (Nat.zero_le _)] at h
    by_cases hfuel : transactions.length < fuel
    · simp only [Nat.sub_zero, if_pos hfuel, List.take_zero, List.nil_append, List.drop_zero,
        Option.bind_eq_bind, Option.bind_some] at h
      obtain ⟨ids', hids, h⟩ := Option.bind_eq_some_iff.1 h
      obtain ⟨d, hd, hcov⟩ := H.hashLevels_covers fuel hpos hlt (by simp)
        (H.covers_digests transactions) hids
      rw [hd] at h
      exact ⟨d, hcov, Option.some_inj.1 h⟩
    · rw [Nat.sub_zero, if_neg hfuel] at h
      exact absurd h (by simp)
  · rw [H.fillIds_endless hge fuel _ (by omega)] at h
    exact absurd h (by simp)

/-- The function returns on exactly the lists that its counters can count. -/
theorem merkleRootIs_iff (transactions : List Tx) :
    (∃ root, H.MerkleRootIs transactions root) ↔ transactions.length < 2 ^ 32 := by
  constructor
  · rintro ⟨root, fuel, h⟩
    by_contra hge
    rw [calculateMerkleRoot, if_neg (by omega), H.fillIds_endless (by omega) fuel _ (by omega)] at h
    exact absurd h (by simp)
  · intro hlt
    rcases Nat.eq_zero_or_pos transactions.length with hnil | hpos
    · obtain rfl := List.length_eq_zero_iff.1 hnil
      exact ⟨_, 0, H.calculateMerkleRoot_nil 0⟩
    · have hlen : transactions.length ≤ (transactions.map H.merkleDigest).length := by simp
      obtain ⟨ids, hids⟩ := Option.isSome_iff_exists.1
        (H.hashLevels_isSome _ (Nat.lt_succ_self _) hlt hlen)
      obtain ⟨d, hd, -⟩ := H.hashLevels_covers _ hpos hlt hlen
        (H.covers_digests transactions) hids
      refine ⟨H.hash d, transactions.length + 1, ?_⟩
      rw [calculateMerkleRoot, if_neg (by omega), H.fillIds_eq hlt _ (by simp) (Nat.zero_le _),
        if_pos (by omega)]
      simp only [List.take_zero, List.nil_append, List.drop_zero, Option.bind_eq_bind,
        Option.bind_some, hids, hd]
      rfl

/-- **The root commits to the list.**  Where the hash of a pair determines the pair and is no
transaction's digest, and the final hash determines what it is of and is never the checksum of a
block without transactions, two lists with the same root have the same digests, in the same order
and number: they are the same list, where a digest determines its transaction.  A root is returned
for every list that the 32-bit counters can count, and for no other. -/
theorem merkle_root_commits
    (hpair : ∀ a b c d, H.hashPair a b = H.hashPair c d → a = c ∧ b = d)
    (hdisjoint : ∀ tx a b, H.merkleDigest tx ≠ H.hashPair a b)
    (hhash : Function.Injective H.hash) (hempty : ∀ d, H.hash d ≠ H.emptyChecksum) :
    (∀ transactions : List Tx,
      (∃ root, H.MerkleRootIs transactions root) ↔ transactions.length < 2 ^ 32) ∧
    ∀ (transactions transactions' : List Tx) (root : Checksum),
      H.MerkleRootIs transactions root → H.MerkleRootIs transactions' root →
      transactions.map H.merkleDigest = transactions'.map H.merkleDigest ∧
        (Function.Injective H.merkleDigest → transactions = transactions') := by
  refine ⟨H.merkleRootIs_iff, fun transactions transactions' root h h' ↦ ?_⟩
  suffices hmap : transactions.map H.merkleDigest = transactions'.map H.merkleDigest from
    ⟨hmap, fun hinj ↦ hinj.list_map hmap⟩
  by_cases hne : transactions = []
  · by_cases hne' : transactions' = []
    · rw [hne, hne']
    · obtain ⟨d, -, hroot⟩ := MerkleRootIs.covers H h' hne'
      subst hne
      exact absurd (hroot.trans (MerkleRootIs.nil H h)) (hempty d)
  · by_cases hne' : transactions' = []
    · obtain ⟨d, -, hroot⟩ := MerkleRootIs.covers H h hne
      subst hne'
      exact absurd (hroot.trans (MerkleRootIs.nil H h')) (hempty d)
    · obtain ⟨d, hcov, hroot⟩ := MerkleRootIs.covers H h hne
      obtain ⟨d', hcov', hroot'⟩ := MerkleRootIs.covers H h' hne'
      obtain rfl : d = d' := hhash (hroot.trans hroot'.symm)
      have hleaf : ∀ a b, ¬∃ tx, H.merkleDigest tx = H.hashPair a b := fun a b ⟨tx, htx⟩ ↦
        hdisjoint tx a b htx
      exact hcov.unique (fun d ↦ ∃ tx, H.merkleDigest tx = d) hpair hleaf (by simp) (by simp) hcov'

/-- Digests that are the terms they are made of. -/
def freeMerkleHash : MerkleHash ℕ (HashTree ℕ) (Option (HashTree ℕ)) where
  merkleDigest := .leaf
  hashPair := .node
  hash := some
  emptyDigest := .leaf 0
  emptyChecksum := none

/-- The third of three transactions is carried up. -/
example : freeMerkleHash.calculateMerkleRoot 4 [1, 2, 3] =
    some (some (.node (.node (.leaf 1) (.leaf 2)) (.leaf 3))) := by rfl

theorem merkle_root_commits_free :
    (∀ transactions : List ℕ, (∃ root, freeMerkleHash.MerkleRootIs transactions root) ↔
      transactions.length < 2 ^ 32) ∧
    ∀ (transactions transactions' : List ℕ) (root : Option (HashTree ℕ)),
      freeMerkleHash.MerkleRootIs transactions root →
      freeMerkleHash.MerkleRootIs transactions' root →
      transactions.map freeMerkleHash.merkleDigest = transactions'.map freeMerkleHash.merkleDigest ∧
        (Function.Injective freeMerkleHash.merkleDigest → transactions = transactions') :=
  merkle_root_commits freeMerkleHash (fun _ _ _ _ h ↦ HashTree.node.inj h)
    (fun _ _ _ h ↦ nomatch h) (fun _ _ h ↦ Option.some.inj h) (fun _ h ↦ nomatch h)

end MerkleHash

end Graphene
