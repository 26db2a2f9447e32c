import Graphene.Auth.Authority
import Graphene.Voting.VoteCount
import Mathlib.Algebra.Group.Action.Defs
import Mathlib.Algebra.Order.BigOperators.Group.List
import Mathlib.Algebra.Order.Ring.Nat
import Mathlib.Data.Nat.Log

/-!
# The authority of those who were elected

The elected witnesses share the active authority of an account, and so do the elected committee
members, each with a weight for the votes it has (`vote_count.hpp`).  The votes are shifted to the
right until the most votes fit 16 bits, and more than half of the weight is required.

* `VoteCounter` — the votes counted so far, with `add` and `finish`.
* `VoteCounter.Counted` — what it holds after a number of candidates.
* `Authority.SatisfiedBy` — `check_authority`, with the approvals of accounts only.
* `vote_counter_majority` — the authority takes a majority, and all together are one.
* `elected_isMajority` — so does what the maintenance writes for those it has elected.
-/

set_option autoImplicit false

namespace Graphene.Voting

/-! ## The counter -/

/-- `account_auths[k] = w`, in a `flat_map`. -/
def setWeight (k : AccountId) (w : ℕ) : List (AccountId × ℕ) → List (AccountId × ℕ)
  | [] => [(k, w)]
  | e :: rest =>
    if k < e.1 then (k, w) :: e :: rest
    else if k = e.1 then (k, w) :: rest
    else e :: setWeight k w rest

/-- The keys of a `flat_map` are in order. -/
def KeysSorted (l : List (AccountId × ℕ)) : Prop := l.Pairwise fun a b ↦ a.1 < b.1

theorem mem_keys_setWeight {k i : AccountId} {w : ℕ} {l : List (AccountId × ℕ)} :
    i ∈ (setWeight k w l).map Prod.fst ↔ i = k ∨ i ∈ l.map Prod.fst := by
  induction l with
  | nil => simp [setWeight]
  | cons e rest ih =>
    rw [setWeight]
    split_ifs with hlt heq
    · rw [List.map_cons, List.mem_cons]
    · simp [heq]
    · rw [List.map_cons, List.mem_cons, ih, List.map_cons, List.mem_cons, or_left_comm]

theorem keysSorted_setWeight {k : AccountId} {w : ℕ} {l : List (AccountId × ℕ)}
    (h : KeysSorted l) : KeysSorted (setWeight k w l) := by
  induction l with
  | nil => exact List.pairwise_singleton _ _
  | cons e rest ih =>
    obtain ⟨he, hrest⟩ := List.pairwise_cons.1 h
    rw [setWeight]
    split_ifs with hlt heq
    · refine List.pairwise_cons.2 ⟨fun x hx ↦ ?_, h⟩
      rcases List.mem_cons.1 hx with rfl | hx
      · exact hlt
      · exact hlt.trans (he x hx)
    · exact List.pairwise_cons.2 ⟨fun x hx ↦ heq ▸ he x hx, hrest⟩
    · refine List.pairwise_cons.2 ⟨fun x hx ↦ ?_, ih hrest⟩
      rcases mem_keys_setWeight.1 (List.mem_map_of_mem (f := Prod.fst) hx) with hk | hk
      · rw [hk]
        exact lt_of_le_of_ne (not_lt.1 hlt) (Ne.symm heq)
      · obtain ⟨y, hy, hkey⟩ := List.mem_map.1 hk
        exact hkey ▸ he y hy

/-- `vote_counter`, for accounts. -/
structure VoteCounter where
  /-- `last_votes`. -/
  lastVotes : ℕ
  /-- `total_votes`. -/
  totalVotes : ℕ
  /-- `bitshift`, which is -1 before the first votes. -/
  bitshift : ℤ
  /-- `auth.account_auths`. -/
  accountAuths : List (AccountId × ℕ)
  /-- It is a `flat_map`. -/
  sorted : KeysSorted accountAuths

/-- `vote_counter()`. -/
def emptyCounter : VoteCounter := ⟨2 ^ 64 - 1, 0, -1, [], List.Pairwise.nil⟩

namespace VoteCounter

/-- `add`. -/
def add (vc : VoteCounter) (who : AccountId) (votes : ℕ) : VoteCounter :=
  if votes = 0 then vc
  else
    let bitshift := if vc.bitshift = -1 then max ((votes.log2 : ℤ) - 15) 0 else vc.bitshift
    let scaledVotes := max (votes >>> bitshift.toNat) 1
    { lastVotes := votes
      totalVotes := (vc.totalVotes + scaledVotes) % 2 ^ 64
      bitshift := bitshift
      -- `weight_type` has 16 bits.
      accountAuths := setWeight who (scaledVotes % 2 ^ 16) vc.accountAuths
      sorted := keysSorted_setWeight vc.sorted }

/-- The loop over those who were elected. -/
def addAll (vc : VoteCounter) (votes : List (AccountId × ℕ)) : VoteCounter :=
  votes.foldl (fun vc e ↦ vc.add e.1 e.2) vc

/-- `finish`: what is written into `out_auth`. -/
def finish {K : Type} (vc : VoteCounter) (outAuth : Authority K) : Authority K :=
  if vc.totalVotes = 0 then outAuth
  else
    { weightThreshold := ((vc.totalVotes % 2 ^ 32) >>> 1 + 1) % 2 ^ 32
      accountAuths := vc.accountAuths
      keyAuths := []
      addressAuths := []
      account_nodup := List.pairwise_map.2 (vc.sorted.imp fun h ↦ h.ne)
      key_nodup := List.nodup_nil
      address_nodup := nodup_noAddresses }

end VoteCounter

/-! ## What is counted -/

theorem perm_setWeight {k : AccountId} {w : ℕ} {l : List (AccountId × ℕ)}
    (hk : k ∉ l.map Prod.fst) : (setWeight k w l).Perm ((k, w) :: l) := by
  induction l with
  | nil => exact List.Perm.refl _
  | cons e rest ih =>
    obtain ⟨hne, hrest⟩ := not_or.1 (mt List.mem_cons.2 hk)
    rw [setWeight, if_neg hne]
    split_ifs
    · exact List.Perm.refl _
    · exact ((ih hrest).cons e).trans (List.Perm.swap _ _ _)

/-- The weight of a number of votes. -/
def scaled (shift votes : ℕ) : ℕ := max (votes >>> shift) 1

/-- How far the most votes are shifted. -/
def shiftFor (votes : ℕ) : ℕ := votes.log2 - 15

/-- Shifted as far as that, no more votes than the most have more than 16 bits. -/
theorem scaled_lt {most votes : ℕ} (hle : votes ≤ most) :
    scaled (shiftFor most) votes < 2 ^ 16 := by
  refine max_lt ?_ (by decide)
  rw [Nat.shiftRight_eq_div_pow, shiftFor]
  have hmost : most < 2 ^ (most.log2 + 1) := Nat.lt_log2_self
  refine Nat.div_lt_of_lt_mul (hle.trans_lt (hmost.trans_le ?_))
  rw [← pow_add]
  exact Nat.pow_le_pow_right (by decide) (by omega)

theorem one_le_scaled (shift votes : ℕ) : 1 ≤ scaled shift votes := le_max_right _ _

namespace VoteCounter

variable {vc : VoteCounter} {votes : List (AccountId × ℕ)} {shift : ℕ}

/-- What the counter holds after the votes for a number of candidates, the first of which has the
most. -/
structure Counted (shift : ℕ) (votes : List (AccountId × ℕ)) (vc : VoteCounter) : Prop where
  /-- The shift is fixed. -/
  bitshift : vc.bitshift = shift
  /-- Every candidate has its weight. -/
  auths : vc.accountAuths.Perm (votes.map fun e ↦ (e.1, scaled shift e.2))
  /-- The weights are added up, in 64 bits. -/
  total : vc.totalVotes = (votes.map fun e ↦ scaled shift e.2).sum % 2 ^ 64

/-- What `add` does, once the shift is known. -/
theorem add_spec (vc : VoteCounter) (who : AccountId) {n : ℕ} (hn : 0 < n)
    (hshift : (if vc.bitshift = -1 then max ((n.log2 : ℤ) - 15) 0 else vc.bitshift) = shift)
    (hlt : scaled shift n < 2 ^ 16) :
    (vc.add who n).bitshift = shift ∧
      (vc.add who n).accountAuths = setWeight who (scaled shift n) vc.accountAuths ∧
      (vc.add who n).totalVotes = (vc.totalVotes + scaled shift n) % 2 ^ 64 := by
  have hmod : max (n >>> shift) 1 % 2 ^ 16 = scaled shift n := Nat.mod_eq_of_lt hlt
  rw [add, if_neg hn.ne']
  dsimp only
  rw [hshift, Int.toNat_natCast, hmod]
  exact ⟨rfl, rfl, rfl⟩

/-- **The first votes** fix the shift. -/
theorem counted_first {who : AccountId} {most : ℕ} (hmost : 0 < most) :
    Counted (shiftFor most) [(who, most)] (emptyCounter.add who most) := by
  have hshift : max ((most.log2 : ℤ) - 15) 0 = (shiftFor most : ℤ) := by
    rw [shiftFor]
    omega
  obtain ⟨hbitshift, hauths, htotal⟩ := add_spec emptyCounter who hmost
    ((if_pos rfl).trans hshift) (scaled_lt le_rfl)
  refine ⟨hbitshift, ?_, ?_⟩
  · rw [hauths]
    exact List.Perm.refl _
  · rw [htotal, emptyCounter, zero_add]
    rfl

/-- **Each of the others** adds its weight. -/
theorem Counted.add (h : Counted shift votes vc) {who : AccountId} {n : ℕ} (hn : 0 < n)
    (hwho : who ∉ votes.map Prod.fst) (hlt : scaled shift n < 2 ^ 16) :
    Counted shift (votes ++ [(who, n)]) (vc.add who n) := by
  have hkey : who ∉ vc.accountAuths.map Prod.fst := by
    rw [(h.auths.map Prod.fst).mem_iff, List.map_map]
    exact hwho
  obtain ⟨hbitshift, hauths, htotal⟩ := add_spec vc who hn
    ((if_neg (by rw [h.bitshift]; omega)).trans h.bitshift) hlt
  refine ⟨hbitshift, ?_, ?_⟩
  · rw [hauths, List.map_append]
    exact (perm_setWeight hkey).trans ((h.auths.cons _).trans (List.perm_append_singleton _ _).symm)
  · rw [htotal, h.total, Nat.mod_add_mod, List.map_append, List.sum_append, List.map_singleton,
      List.sum_singleton]

/-- The loop, by induction on the candidates that are left. -/
theorem Counted.addAll {done : List (AccountId × ℕ)} (h : Counted shift done vc)
    (hnodup : ((done ++ votes).map Prod.fst).Nodup)
    (hvotes : ∀ e ∈ votes, 0 < e.2 ∧ scaled shift e.2 < 2 ^ 16) :
    Counted shift (done ++ votes) (vc.addAll votes) := by
  induction votes generalizing done vc with
  | nil =>
    rw [List.append_nil]
    exact h
  | cons e rest ih =>
    obtain ⟨⟨hpos, hlt⟩, hrest⟩ := List.forall_mem_cons.1 hvotes
    have hwho : e.1 ∉ done.map Prod.fst := by
      rw [List.map_append, List.map_cons] at hnodup
      exact fun hmem ↦ List.disjoint_of_nodup_append hnodup hmem List.mem_cons_self
    rw [List.append_cons] at hnodup ⊢
    exact ih (h.add hpos hwho hlt) hnodup hrest

/-- **What is counted** for candidates in the order of their votes. -/
theorem counted_addAll (hne : votes ≠ []) (hnodup : (votes.map Prod.fst).Nodup)
    (hsorted : votes.Pairwise fun a b ↦ b.2 ≤ a.2) (hpos : ∀ e ∈ votes, 0 < e.2) :
    ∃ shift, Counted shift votes (emptyCounter.addAll votes) ∧
      ∀ e ∈ votes, scaled shift e.2 < 2 ^ 16 := by
  obtain ⟨first, rest, rfl⟩ := List.exists_cons_of_ne_nil hne
  obtain ⟨hfirst, hrest⟩ := List.forall_mem_cons.1 hpos
  have hmost := (List.pairwise_cons.1 hsorted).1
  have hstart : Counted (shiftFor first.2) [first] (emptyCounter.add first.1 first.2) :=
    counted_first hfirst
  exact ⟨shiftFor first.2,
    hstart.addAll hnodup fun e he ↦ ⟨hrest e he, scaled_lt (hmost e he)⟩,
    List.forall_mem_cons.2 ⟨scaled_lt le_rfl, fun e he ↦ scaled_lt (hmost e he)⟩⟩

/-- The weights are small. -/
theorem Counted.weight (h : Counted shift votes vc)
    (hvotes : ∀ e ∈ votes, scaled shift e.2 < 2 ^ 16) :
    ∀ e ∈ vc.accountAuths, 1 ≤ e.2 ∧ e.2 ≤ 65535 := by
  intro e he
  obtain ⟨c, hc, rfl⟩ := List.mem_map.1 (h.auths.mem_iff.1 he)
  exact ⟨one_le_scaled _ _, Nat.le_of_lt_succ (hvotes c hc)⟩

/-- So is their sum, for as many as 65536 candidates. -/
theorem Counted.total_eq (h : Counted shift votes vc)
    (hvotes : ∀ e ∈ votes, scaled shift e.2 < 2 ^ 16) (hlength : votes.length ≤ 65536) :
    vc.totalVotes = (vc.accountAuths.map Prod.snd).sum ∧ vc.totalVotes < 2 ^ 32 := by
  have hsum : (vc.accountAuths.map Prod.snd).sum = (votes.map fun e ↦ scaled shift e.2).sum := by
    rw [(h.auths.map Prod.snd).sum_eq, List.map_map]
    rfl
  have hle : (votes.map fun e ↦ scaled shift e.2).sum ≤ votes.length * 65535 := by
    have hbound : ∀ n ∈ votes.map fun e ↦ scaled shift e.2, n ≤ 65535 := by
      intro n hn
      obtain ⟨e, he, rfl⟩ := List.mem_map.1 hn
      exact Nat.le_of_lt_succ (hvotes e he)
    have hsum := List.sum_le_card_nsmul _ _ hbound
    rwa [List.length_map, smul_eq_mul] at hsum
  have hlt : (votes.map fun e ↦ scaled shift e.2).sum < 2 ^ 32 := by omega
  rw [h.total, hsum, Nat.mod_eq_of_lt (hlt.trans (by decide))]
  exact ⟨rfl, hlt⟩

end VoteCounter

end Graphene.Voting

/-! ## What satisfies the authority -/

namespace Graphene.Authority

variable {K : Type} [DecidableEq K]

/-- `check_authority` says yes where the accounts `approved` have approved, nothing is signed and
no other account can be found satisfied. -/
def SatisfiedBy (auth : Authority K) (approved : Finset AccountId) : Prop :=
  (checkBody (some fun _ s ↦ (false, s)) (some auth) ⟨∅, ∅, approved, false, false⟩).1 = true

/-- What is left to decide after a loop of `check_authority`. -/
def decided (threshold : ℕ) : Outcome → Bool
  | .done result => result
  | .total weight => decide (weight ≥ threshold)

omit [DecidableEq K] in
/-- The loop over the accounts, by induction on them: where the sum fits 32 bits, it decides whether
the weight of those that have approved reaches the threshold. -/
theorem decided_checkAccounts (threshold : ℕ) (auths : List (AccountId × ℕ)) (total : ℕ)
    (s : SignState K) (hfits : total + (auths.map Prod.snd).sum < 2 ^ 32) :
    decided threshold (checkAccounts (some fun _ s ↦ (false, s)) threshold auths total s).1 =
      decide (threshold ≤ total + weightWhere Prod.snd (fun e ↦ e.1 ∈ s.approvedBy) auths) := by
  induction auths generalizing total with
  | nil => rfl
  | cons e rest ih =>
    obtain ⟨a, w⟩ := e
    rw [List.map_cons, List.sum_cons] at hfits
    rw [checkAccounts, weightWhere_cons]
    by_cases happroved : a ∈ s.approvedBy
    · have hadd : addWeight total w = total + w := Nat.mod_eq_of_lt (by omega)
      rw [if_neg (not_not.2 happroved), if_pos happroved, hadd]
      dsimp only
      split_ifs with hreached
      · exact (decide_eq_true (by omega)).symm
      · rw [ih (total + w) (by omega), Nat.add_assoc]
    · rw [if_pos happroved, if_neg happroved, Nat.zero_add]
      exact ih total (by omega)

/-- **An authority of accounts** is satisfied by those that have enough weight. -/
theorem satisfiedBy_iff {auth : Authority K} (hkeys : auth.keyAuths = [])
    (haddresses : auth.addressAuths = []) (hfits : (auth.accountAuths.map Prod.snd).sum < 2 ^ 32)
    (approved : Finset AccountId) :
    auth.SatisfiedBy approved ↔
      auth.weightThreshold ≤
        weightWhere Prod.snd (fun e ↦ e.1 ∈ approved) auth.accountAuths := by
  have hdecided := decided_checkAccounts auth.weightThreshold auth.accountAuths 0
    (⟨∅, ∅, approved, false, false⟩ : SignState K) (by omega)
  rw [zero_add] at hdecided
  rw [← decide_eq_true_iff (p := auth.weightThreshold ≤ _), ← hdecided, SatisfiedBy, checkBody,
    hkeys, haddresses]
  simp only [checkSigned]
  cases checkAccounts (some fun _ s ↦ (false, s)) auth.weightThreshold auth.accountAuths 0
    (⟨∅, ∅, approved, false, false⟩ : SignState K) with
  | mk outcome s => cases outcome <;> rfl

end Graphene.Authority

namespace Graphene.Voting

open VoteCounter

/-- The authority of the accounts that `votes` are for takes more than half of their weight. -/
structure IsMajority {K : Type} [DecidableEq K] (votes : List (AccountId × ℕ)) (total : ℕ)
    (auth : Authority K) : Prop where
  /-- The accounts are those that were added. -/
  members : (auth.accountAuths.map Prod.fst).Perm (votes.map Prod.fst)
  /-- The threshold is more than half. -/
  threshold : auth.weightThreshold = total / 2 + 1
  /-- It can be reached. -/
  threshold_le : auth.weightThreshold ≤ total
  /-- The weights add up. -/
  total_eq : (auth.accountAuths.map Prod.snd).sum = total
  /-- All of them together satisfy it. -/
  all : ∀ approved : Finset AccountId, (∀ e ∈ votes, e.1 ∈ approved) → auth.SatisfiedBy approved
  /-- Half of the weight does not. -/
  half : ∀ approved : Finset AccountId,
    2 * weightWhere Prod.snd (fun e ↦ e.1 ∈ approved) auth.accountAuths ≤ total →
      ¬auth.SatisfiedBy approved

/-- **What `finish` writes** is an authority that takes a majority. -/
theorem VoteCounter.Counted.isMajority {K : Type} [DecidableEq K] {vc : VoteCounter}
    {votes : List (AccountId × ℕ)} {shift : ℕ} (h : Counted shift votes vc)
    (hvotes : ∀ e ∈ votes, scaled shift e.2 < 2 ^ 16) (hlength : votes.length ≤ 65536)
    (hne : votes ≠ []) (outAuth : Authority K) :
    IsMajority votes vc.totalVotes (vc.finish outAuth) := by
  obtain ⟨htotal, hlt⟩ := h.total_eq hvotes hlength
  have hmembers : (vc.accountAuths.map Prod.fst).Perm (votes.map Prod.fst) := by
    refine (h.auths.map Prod.fst).trans ?_
    rw [List.map_map]
    exact List.Perm.refl _
  have hpositive : 0 < vc.totalVotes := by
    obtain ⟨e, he⟩ := List.exists_mem_of_ne_nil votes hne
    have hmem : (e.1, scaled shift e.2) ∈ vc.accountAuths :=
      h.auths.mem_iff.2 (List.mem_map_of_mem he)
    rw [htotal]
    exact (one_le_scaled _ _).trans
      (List.single_le_sum (fun _ _ ↦ Nat.zero_le _) _ (List.mem_map_of_mem (f := Prod.snd) hmem))
  have hthreshold : ((vc.totalVotes % 2 ^ 32) >>> 1 + 1) % 2 ^ 32 = vc.totalVotes / 2 + 1 := by
    rw [Nat.mod_eq_of_lt hlt, Nat.shiftRight_one]
    omega
  have hfinish : (vc.finish outAuth).weightThreshold = vc.totalVotes / 2 + 1 ∧
      (vc.finish outAuth).accountAuths = vc.accountAuths ∧
      (vc.finish outAuth).keyAuths = [] ∧ (vc.finish outAuth).addressAuths = [] := by
    rw [finish, if_neg hpositive.ne']
    exact ⟨hthreshold, rfl, rfl, rfl⟩
  obtain ⟨hfthreshold, hfauths, hfkeys, hfaddresses⟩ := hfinish
  have hfits : ((vc.finish outAuth).accountAuths.map Prod.snd).sum < 2 ^ 32 := by
    rw [hfauths, ← htotal]
    exact hlt
  have hsatisfied := Authority.satisfiedBy_iff hfkeys hfaddresses hfits
  refine ⟨hfauths ▸ hmembers, hfthreshold, by omega, by rw [hfauths, htotal],
    fun approved hall ↦ ?_, fun approved hhalf ↦ ?_⟩
  · have heq : weightWhere Prod.snd (fun e ↦ e.1 ∈ approved) vc.accountAuths = vc.totalVotes := by
      rw [htotal, weightWhere, List.filter_eq_self.2]
      intro e he
      obtain ⟨c, hc, hkey⟩ := List.mem_map.1
        (hmembers.mem_iff.1 (List.mem_map_of_mem (f := Prod.fst) he))
      exact decide_eq_true (hkey ▸ hall c hc)
    rw [hsatisfied, hfthreshold, hfauths, heq]
    omega
  · rw [hsatisfied, hfthreshold, not_le]
    omega

/-- **The counter builds a majority authority.**  For different accounts, in the order of their
votes: every weight fits 16 bits and is not zero, the sum of the weights of as many as 65536
accounts fits 32 bits, and what `finish` writes, if there is an account at all, is satisfied by all
of them and by none that have half of the weight. -/
theorem vote_counter_majority {K : Type} [DecidableEq K] (votes : List (AccountId × ℕ))
    (hdistinct : (votes.map Prod.fst).Nodup) (hsorted : votes.Pairwise fun a b ↦ b.2 ≤ a.2)
    (hpos : ∀ e ∈ votes, 0 < e.2 ∧ e.2 < 2 ^ 64) (outAuth : Authority K) :
    (∀ e ∈ (emptyCounter.addAll votes).accountAuths, 1 ≤ e.2 ∧ e.2 ≤ 65535) ∧
      (votes.length ≤ 65536 →
        (emptyCounter.addAll votes).totalVotes =
            ((emptyCounter.addAll votes).accountAuths.map Prod.snd).sum ∧
          (emptyCounter.addAll votes).totalVotes < 2 ^ 32 ∧
          (votes = [] → (emptyCounter.addAll votes).finish outAuth = outAuth) ∧
          (votes ≠ [] → IsMajority votes (emptyCounter.addAll votes).totalVotes
            ((emptyCounter.addAll votes).finish outAuth))) := by
  rcases eq_or_ne votes [] with rfl | hne
  · exact ⟨fun e he ↦ absurd he List.not_mem_nil, fun _ ↦ ⟨rfl, by decide, fun _ ↦ rfl,
      fun hne ↦ absurd rfl hne⟩⟩
  · obtain ⟨shift, hcounted, hvotes⟩ :=
      counted_addAll hne hdistinct hsorted fun e he ↦ (hpos e he).1
    refine ⟨hcounted.weight hvotes, fun hlength ↦ ?_⟩
    obtain ⟨htotal, hlt⟩ := hcounted.total_eq hvotes hlength
    exact ⟨htotal, hlt, fun hnil ↦ absurd hnil hne,
      fun _ ↦ hcounted.isMajority hvotes hlength hne outAuth⟩

/-- Three accounts, the first with as many votes as 64 bits hold. -/
def threeElected : List (AccountId × ℕ) := [(7, 2 ^ 64 - 1), (3, 2 ^ 50), (9, 1)]

/-- An authority of nobody. -/
def nobody : Authority Unit := ⟨0, [], [], [], List.nodup_nil, List.nodup_nil, List.nodup_nil⟩

theorem vote_counter_majority_three :
    (emptyCounter.addAll threeElected).accountAuths = [(3, 4), (7, 65535), (9, 1)] ∧
      IsMajority threeElected 65540 ((emptyCounter.addAll threeElected).finish nobody) :=
  ⟨by decide +kernel,
    ((vote_counter_majority threeElected (by decide) (by decide) (by decide) nobody).2
      (by decide)).2.2.2 (by decide)⟩

/-! ## The authorities that the maintenance writes -/

/-- The loop over the elected, with `_vote_tally_buffer[vote_id]` for each of them, and `finish`.
`account` is the account of a witness or a committee member. -/
def electedAuthority {K : Type} (d : Buffers) (account : Votable → AccountId)
    (elected : List Votable) (active : Authority K) : Except Fault (Authority K) := do
  let votes ← elected.mapM fun o ↦ do .ok (← votesFor d o, o)
  .ok ((emptyCounter.addAll (votes.map fun v ↦ (account v.2, v.1))).finish active)

/-- Who has no votes is passed over. -/
theorem addAll_filter (vc : VoteCounter) (votes : List (AccountId × ℕ)) :
    vc.addAll votes = vc.addAll (votes.filter fun e ↦ 0 < e.2) := by
  induction votes generalizing vc with
  | nil => rfl
  | cons e rest ih =>
    rcases Nat.eq_zero_or_pos e.2 with hzero | hpos
    · rw [List.filter_cons_of_neg (by simp [hzero]), ← ih]
      show (vc.add e.1 e.2).addAll rest = vc.addAll rest
      rw [add, if_pos hzero]
    · rw [List.filter_cons_of_pos (by simpa using hpos)]
      exact ih (vc.add e.1 e.2)

/-- Who is elected comes in the order of the votes. -/
theorem elected_sorted {s : VotingChain} {d : Buffers} (hd : Tallies s (ballots s) d)
    {chosen : List Votable}
    (h : updateActiveWitnesses s d = .ok chosen ∨ updateActiveCommitteeMembers s d = .ok chosen) :
    chosen.Pairwise (Precedes s) ∧ ∀ c ∈ chosen, c.voteId < s.nextAvailableVoteId := by
  have hwitnesses := updateActiveWitnesses_cases hd
  have hcommittee := updateActiveCommitteeMembers_cases hd
  rcases h with h | h
  · rcases hwitnesses with ⟨-, chosen', hchosen, htop⟩ | ⟨-, herror⟩
    · obtain rfl := Except.ok.inj (h.symm.trans hchosen)
      obtain ⟨rest, hperm, -⟩ := htop.before_rest
      exact ⟨htop.ordered, fun c hc ↦ s.voteId_lt c
        (List.mem_append_left _ (hperm.mem_iff.1 (List.mem_append_left rest hc)))⟩
    · cases h.symm.trans herror
  · rcases hcommittee with ⟨-, chosen', hchosen, htop⟩ | ⟨-, herror⟩
    · obtain rfl := Except.ok.inj (h.symm.trans hchosen)
      obtain ⟨rest, hperm, -⟩ := htop.before_rest
      exact ⟨htop.ordered, fun c hc ↦ s.voteId_lt c
        (List.mem_append_right _ (hperm.mem_iff.1 (List.mem_append_left rest hc)))⟩
    · cases h.symm.trans herror

/-- **The authority of the elected**, as the maintenance writes it, takes a majority of those that
somebody has voted for. -/
theorem elected_isMajority {K : Type} [DecidableEq K] {s : VotingChain} {d : Buffers}
    (htally : tally s = .ok d) {chosen : List Votable}
    (h : updateActiveWitnesses s d = .ok chosen ∨ updateActiveCommitteeMembers s d = .ok chosen)
    (account : Votable → AccountId) (hdistinct : (chosen.map account).Nodup)
    (hlength : chosen.length ≤ 65536) (hvoted : ∃ c ∈ chosen, 0 < supportOf s c)
    (active : Authority K) :
    ∃ auth total, electedAuthority d account chosen active = .ok auth ∧
      IsMajority ((chosen.map fun c ↦ (account c, supportOf s c)).filter fun e ↦ 0 < e.2) total
        auth := by
  have hd : Tallies s (ballots s) d := by
    rcases tally_eq s with ⟨-, d', hd', htallies⟩ | ⟨-, herror⟩
    · obtain rfl := Except.ok.inj (htally.symm.trans hd')
      exact htallies
    · cases htally.symm.trans herror
  obtain ⟨hordered, hlt⟩ := elected_sorted hd h
  have hsorted : (chosen.map fun c ↦ (account c, supportOf s c)).Pairwise fun a b ↦ b.2 ≤ a.2 := by
    refine List.pairwise_map.2 (hordered.imp fun {a b} hab ↦ ?_)
    rcases hab with hless | ⟨heq, -⟩
    · exact hless.le
    · exact heq.ge
  have hsublist := List.filter_sublist (p := fun e : AccountId × ℕ ↦ decide (0 < e.2))
    (l := chosen.map fun c ↦ (account c, supportOf s c))
  have hkeys : ((chosen.map fun c ↦ (account c, supportOf s c)).map Prod.fst).Nodup := by
    rw [List.map_map]
    exact hdistinct
  have hpos : ∀ e ∈ (chosen.map fun c ↦ (account c, supportOf s c)).filter fun e ↦ 0 < e.2,
      0 < e.2 := fun e he ↦ of_decide_eq_true (List.mem_filter.1 he).2
  have hne : (chosen.map fun c ↦ (account c, supportOf s c)).filter (fun e ↦ 0 < e.2) ≠ [] := by
    obtain ⟨c, hc, hsupport⟩ := hvoted
    exact List.ne_nil_of_mem
      (List.mem_filter.2 ⟨List.mem_map_of_mem hc, decide_eq_true hsupport⟩)
  have hshort := hsublist.length_le
  rw [List.length_map] at hshort
  obtain ⟨shift, hcounted, hvotes⟩ := counted_addAll hne (hkeys.sublist (hsublist.map _))
    (hsorted.sublist hsublist) hpos
  refine ⟨_, _, ?_, hcounted.isMajority hvotes (hshort.trans hlength) hne active⟩
  rw [electedAuthority, mapM_votesFor hd hlt]
  show Except.ok _ = _
  rw [List.map_map, addAll_filter]
  rfl

end Graphene.Voting
