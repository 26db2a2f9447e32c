import Graphene.Lib.WeightedMedian
import Mathlib.Algebra.Order.BigOperators.Group.List
import Mathlib.Algebra.GroupWithZero.Nat

/-!
# Who is elected at maintenance

At every maintenance the stake of the accounts is counted: for whom it votes, and how many witnesses
and committee members it wants (`db_maint.cpp`).  From that the active witnesses and the active
committee members are chosen anew.

* `VotingChain` — what the count reads of the chain.
* `performChainMaintenance` — the tally of `vote_tally_helper`, then `update_active_witnesses` and
  `update_active_committee_members`.
* `ballots` — what it is about: who votes with which stake, and for what.
* `tally_eq`, `weightWhere_ballots_le` — the three buffers hold the sums over the ballots, and these
  stay within the share supply.
* `CountsFollowVotes` — the numbers elected follow the median opinion, and the elected are those
  with the most votes.
* `counts_follow_votes_iff` — when they are.
-/

set_option autoImplicit false

namespace Graphene.Voting

/-! ## The chain -/

/-- `account_options`, as far as the tally reads them. -/
structure AccountOptions where
  /-- `voting_account`: the instance of the account that votes with this one's stake. -/
  votingAccount : ℕ
  /-- `num_witness`: how many witnesses are wanted. -/
  numWitness : ℕ
  /-- `num_committee`: how many committee members are wanted. -/
  numCommittee : ℕ
  /-- `votes`: the instances of the vote ids, by which their `flat_set` is ordered. -/
  votes : List ℕ
  /-- A `flat_set` holds nothing twice. -/
  votes_sorted : votes.Pairwise (· < ·)

/-- An account with what its stake consists of, as the pass over the accounts finds it. -/
structure Account where
  /-- The instance of its id. -/
  id : ℕ
  /-- `options`. -/
  options : AccountOptions
  /-- `is_member(head_block_time())`. -/
  isMember : Bool
  /-- `total_core_in_orders` of its statistics. -/
  totalCoreInOrders : ℕ
  /-- The balance of its `cashback_vb`, if it has one. -/
  cashback : Option ℕ
  /-- Its balance in the core asset. -/
  balance : ℕ

/-- A witness or a committee member. -/
structure Votable where
  /-- The instance of its id. -/
  id : ℕ
  /-- The instance of its `vote_id`. -/
  voteId : ℕ
deriving DecidableEq

/-- `GRAPHENE_PROXY_TO_SELF_ACCOUNT`. -/
def proxyToSelfAccount : ℕ := 5

/-- `GRAPHENE_MAX_SHARE_SUPPLY`. -/
def maxShareSupply : ℕ := 1000000000000000

/-- `voting_stake`. -/
def Account.votingStake (a : Account) : ℕ :=
  a.totalCoreInOrders + a.cashback.getD 0 + a.balance

/-- What the count reads of the chain. -/
structure VotingChain where
  /-- The accounts. -/
  accounts : List Account
  /-- `count_non_member_votes`. -/
  countNonMemberVotes : Bool
  /-- `maximum_witness_count`. -/
  maximumWitnessCount : ℕ
  /-- `maximum_committee_count`. -/
  maximumCommitteeCount : ℕ
  /-- `min_witness_count` of the immutable parameters. -/
  minWitnessCount : ℕ
  /-- `min_committee_member_count` of the immutable parameters. -/
  minCommitteeMemberCount : ℕ
  /-- `next_available_vote_id`. -/
  nextAvailableVoteId : ℕ
  /-- The witnesses. -/
  witnesses : List Votable
  /-- The committee members. -/
  committeeMembers : List Votable
  /-- The stake is part of the core asset's supply, so that its sums are far from 64 bits. -/
  stake_le_supply : (accounts.map Account.votingStake).sum ≤ maxShareSupply
  /-- `get_next_vote_id` gave out the vote ids. -/
  voteId_lt : ∀ c ∈ witnesses ++ committeeMembers, c.voteId < nextAvailableVoteId
  /-- Each only once. -/
  voteIds_nodup : ((witnesses ++ committeeMembers).map Votable.voteId).Nodup

/-- What ends a maintenance before its end. -/
inductive Fault where
  /-- `get` of an object that does not exist throws. -/
  | objectNotFound
  /-- An element outside of a vector is accessed. -/
  | outOfRange
deriving DecidableEq

/-! ## The tally -/

/-- The buffers that the tally fills. -/
structure Buffers where
  /-- `_vote_tally_buffer`. -/
  voteTally : List ℕ
  /-- `_witness_count_histogram_buffer`. -/
  witnessCountHistogram : List ℕ
  /-- `_committee_count_histogram_buffer`. -/
  committeeCountHistogram : List ℕ
  /-- `_total_voting_stake`. -/
  totalVotingStake : ℕ
deriving DecidableEq

namespace VotingChain

variable (s : VotingChain)

/-- `d.get(...)` of an account. -/
def get (id : ℕ) : Except Fault Account :=
  match s.accounts.find? (·.id = id) with
  | some a => .ok a
  | none => .error .objectNotFound

/-- The constructor of `vote_tally_helper`, which resizes buffers that are members of the database.
They are empty at first, and cleared by every tally that comes to its end; what one that threw has
counted would stay in them, and is left out. -/
def emptyBuffers : Buffers where
  voteTally := List.replicate s.nextAvailableVoteId 0
  witnessCountHistogram := List.replicate (s.maximumWitnessCount / 2 + 1) 0
  committeeCountHistogram := List.replicate (s.maximumCommitteeCount / 2 + 1) 0
  totalVotingStake := 0

/-- Whether the stake of an account counts. -/
def counts (a : Account) : Bool := s.countNonMemberVotes || a.isMember

/-- `opinion_account`. -/
def opinionAccount (stakeAccount : Account) : Except Fault Account :=
  if stakeAccount.options.votingAccount = proxyToSelfAccount then .ok stakeAccount
  else s.get stakeAccount.options.votingAccount

end VotingChain

/-- The stake goes to each vote; an illegal offset is ignored. -/
def addVotes (votingStake : ℕ) (votes : List ℕ) (voteTally : List ℕ) : List ℕ :=
  votes.foldl (fun tally offset ↦
    if offset < tally.length then tally.modify offset (· + votingStake) else tally) voteTally

/-- An opinion goes into its bucket of a histogram, unless it is above the maximum. -/
def addOpinion (votingStake num maximum : ℕ) (histogram : List ℕ) : List ℕ :=
  if num ≤ maximum then
    histogram.modify (min (num / 2) (histogram.length - 1)) (· + votingStake)
  else histogram

/-- `vote_tally_helper::operator()` once the account is known that specifies the opinions. -/
def addBallot (s : VotingChain) (votingStake : ℕ) (options : AccountOptions) (d : Buffers) :
    Buffers where
  voteTally := addVotes votingStake options.votes d.voteTally
  witnessCountHistogram :=
    addOpinion votingStake options.numWitness s.maximumWitnessCount d.witnessCountHistogram
  committeeCountHistogram :=
    addOpinion votingStake options.numCommittee s.maximumCommitteeCount d.committeeCountHistogram
  totalVotingStake := d.totalVotingStake + votingStake

/-- `vote_tally_helper::operator()`. -/
def voteTallyHelper (s : VotingChain) (d : Buffers) (stakeAccount : Account) :
    Except Fault Buffers :=
  if s.counts stakeAccount then do
    let opinionAccount ← s.opinionAccount stakeAccount
    .ok (addBallot s stakeAccount.votingStake opinionAccount.options d)
  else .ok d

/-- `perform_account_maintenance`, as far as the tally goes. -/
def tally (s : VotingChain) : Except Fault Buffers :=
  s.accounts.foldlM (voteTallyHelper s) s.emptyBuffers

/-! ## The choice -/

/-- `_vote_tally_buffer[vote_id]`. -/
def votesFor (d : Buffers) (o : Votable) : Except Fault ℕ :=
  match d.voteTally[o.voteId]? with
  | some votes => .ok votes
  | none => .error .outOfRange

/-- The comparison of `sort_votable_objects`, of objects with the votes for them: more votes come
first, then the lower vote id. -/
def ahead (a b : ℕ × Votable) : Bool :=
  if a.1 ≠ b.1 then a.1 > b.1 else a.2.voteId < b.2.voteId

/-- `sort_votable_objects`.  `refs.resize(count, refs.front())` cuts off what was not sorted, and
takes the front of the vector to do so. -/
def sortVotableObjects (d : Buffers) (allObjects : List Votable) (count : ℕ) :
    Except Fault (List Votable) := do
  let count := min count allObjects.length
  let refs ← allObjects.mapM fun o ↦ do .ok (← votesFor d o, o)
  let refs := refs.insertionSort fun a b ↦ !ahead b a
  match refs with
  | [] => .error .outOfRange
  | front :: _ =>
    .ok ((refs.take count ++ List.replicate (count - refs.length) front).map Prod.snd)

/-- The bucket at which the loop of `update_active_witnesses` ends, which is that of
`update_active_committee_members`: no bucket is looked at if the target is 0. -/
def countFor (stakeTarget : ℕ) (histogram : List ℕ) : ℕ :=
  if 0 < stakeTarget then countBuckets stakeTarget (histogram.drop 1) 0 0 else 0

/-- `histogram[0]`. -/
def firstBucket (histogram : List ℕ) : Except Fault ℕ :=
  match histogram with
  | h :: _ => .ok h
  | [] => .error .outOfRange

/-- `update_active_witnesses`, as far as the new active witnesses go. -/
def updateActiveWitnesses (s : VotingChain) (d : Buffers) : Except Fault (List Votable) := do
  let stakeTarget := (d.totalVotingStake - (← firstBucket d.witnessCountHistogram)) / 2
  let witnessCount := countFor stakeTarget d.witnessCountHistogram
  sortVotableObjects d s.witnesses (max (witnessCount * 2 + 1) s.minWitnessCount)

/-- `update_active_committee_members`, as far as the new committee goes. -/
def updateActiveCommitteeMembers (s : VotingChain) (d : Buffers) :
    Except Fault (List Votable) := do
  -- the abstaining stake is that of the other histogram
  let stakeTarget := (d.totalVotingStake - (← firstBucket d.witnessCountHistogram)) / 2
  let committeeMemberCount := countFor stakeTarget d.committeeCountHistogram
  sortVotableObjects d s.committeeMembers
    (max (committeeMemberCount * 2 + 1) s.minCommitteeMemberCount)

/-- Who is elected. -/
structure Elected where
  /-- `active_witnesses`. -/
  activeWitnesses : List Votable
  /-- `active_committee_members`. -/
  activeCommitteeMembers : List Votable
deriving DecidableEq

/-- `perform_chain_maintenance`, as far as the election goes. -/
def performChainMaintenance (s : VotingChain) : Except Fault Elected := do
  let d ← tally s
  let activeWitnesses ← updateActiveWitnesses s d
  let activeCommitteeMembers ← updateActiveCommitteeMembers s d
  .ok ⟨activeWitnesses, activeCommitteeMembers⟩

/-! ## What is voted for -/

/-- A stake with the options it votes with. -/
structure Ballot where
  /-- The stake. -/
  stake : ℕ
  /-- The options of the account itself or of the one that votes for it. -/
  options : AccountOptions

/-- The ballot of an account whose stake counts. -/
def ballotOf (s : VotingChain) (a : Account) : Option Ballot :=
  if s.counts a then
    match s.opinionAccount a with
    | .ok o => some ⟨a.votingStake, o.options⟩
    | .error _ => none
  else none

/-- The ballots of all accounts whose stake counts. -/
def ballots (s : VotingChain) : List Ballot := s.accounts.filterMap (ballotOf s)

/-- The bucket of an opinion: two numbers share one, and opinions above the maximum count as the
maximum. -/
def opinionBucket (maximum num : ℕ) : ℕ := min num maximum / 2

/-- The bucket of a ballot's opinion on the number of witnesses. -/
def witnessOpinion (s : VotingChain) (b : Ballot) : ℕ :=
  opinionBucket s.maximumWitnessCount b.options.numWitness

/-- The bucket of a ballot's opinion on the size of the committee. -/
def committeeOpinion (s : VotingChain) (b : Ballot) : ℕ :=
  opinionBucket s.maximumCommitteeCount b.options.numCommittee

/-- The stake that votes for a candidate. -/
def supportOf (s : VotingChain) (c : Votable) : ℕ :=
  weightWhere Ballot.stake (fun b ↦ c.voteId ∈ b.options.votes) (ballots s)

/-- More support, or as much and a lower vote id. -/
def Precedes (s : VotingChain) (c c' : Votable) : Prop :=
  supportOf s c' < supportOf s c ∨ supportOf s c = supportOf s c' ∧ c.voteId < c'.voteId

/-- How many are elected if the opinion is bucket `c`. -/
def seats (minimum candidates c : ℕ) : ℕ := min (max (2 * c + 1) minimum) candidates

/-- The chosen are the first of the candidates, as many as the median opinion asks for. -/
def ElectedBy (s : VotingChain) (opinion : Ballot → ℕ) (minimum : ℕ)
    (candidates chosen : List Votable) : Prop :=
  ∃ c, IsMedianBucket Ballot.stake opinion (ballots s) c ∧
    IsTopBy (Precedes s) (seats minimum candidates.length c) candidates chosen

/-- The maintenance elects the witnesses and the committee that the ballots ask for. -/
def CountsFollowVotes (s : VotingChain) : Prop :=
  ∃ e, performChainMaintenance s = .ok e ∧
    ElectedBy s (witnessOpinion s) s.minWitnessCount s.witnesses e.activeWitnesses ∧
    ElectedBy s (committeeOpinion s) s.minCommitteeMemberCount s.committeeMembers
      e.activeCommitteeMembers

/-! ## The tally adds up the ballots -/

/-- One element of a vector of sums grows. -/
theorem modify_map_range (n i w : ℕ) (f : ℕ → ℕ) :
    ((List.range n).map f).modify i (· + w) =
      (List.range n).map fun b ↦ f b + if b = i then w else 0 := by
  apply List.ext_getElem?
  intro j
  rw [List.getElem?_modify, List.getElem?_map, List.getElem?_map]
  rcases Nat.lt_or_ge j n with hj | hj
  · rw [List.getElem?_range hj]
    by_cases hij : i = j <;> simp [hij, eq_comm]
  · rw [List.getElem?_eq_none (by simpa using hj)]
    rfl

theorem addVotes_map_range {votes : List ℕ} (hvotes : votes.Nodup) (n w : ℕ) (f : ℕ → ℕ) :
    addVotes w votes ((List.range n).map f) =
      (List.range n).map fun id ↦ f id + if id ∈ votes then w else 0 := by
  induction votes generalizing f with
  | nil => simp [addVotes]
  | cons v votes ih =>
    obtain ⟨hv, hrest⟩ := List.nodup_cons.1 hvotes
    have hstep : (if v < ((List.range n).map f).length
        then ((List.range n).map f).modify v (· + w) else (List.range n).map f) =
        (List.range n).map fun id ↦ f id + if id = v then w else 0 := by
      split_ifs with hlt
      · exact modify_map_range n v w f
      · refine List.map_congr_left fun id hid ↦ ?_
        have := List.mem_range.1 hid
        rw [if_neg (by simp at hlt; omega), Nat.add_zero]
    unfold addVotes at ih ⊢
    rw [List.foldl_cons, hstep, ih hrest]
    refine List.map_congr_left fun id _ ↦ ?_
    by_cases hid : id = v
    · subst hid
      simp [hv]
    · simp [hid]

theorem addOpinion_map_range (w num maximum : ℕ) (f : ℕ → ℕ) :
    addOpinion w num maximum ((List.range (maximum / 2 + 1)).map f) =
      (List.range (maximum / 2 + 1)).map fun b ↦
        f b + if num ≤ maximum ∧ num / 2 = b then w else 0 := by
  unfold addOpinion
  split_ifs with hle
  · have hmin : min (num / 2) (((List.range (maximum / 2 + 1)).map f).length - 1) = num / 2 := by
      simp only [List.length_map, List.length_range, Nat.add_sub_cancel]
      omega
    rw [hmin, modify_map_range]
    refine List.map_congr_left fun b _ ↦ ?_
    simp [hle, eq_comm]
  · refine List.map_congr_left fun b _ ↦ ?_
    simp [hle]

/-- The buffers hold the sums over the ballots `bs`. -/
structure Tallies (s : VotingChain) (bs : List Ballot) (d : Buffers) : Prop where
  /-- The votes for each id. -/
  voteTally : d.voteTally = (List.range s.nextAvailableVoteId).map fun id ↦
    weightWhere Ballot.stake (fun b ↦ id ∈ b.options.votes) bs
  /-- The stake in each bucket of opinions on the number of witnesses. -/
  witnessCountHistogram : d.witnessCountHistogram =
    (List.range (s.maximumWitnessCount / 2 + 1)).map fun c ↦ weightWhere Ballot.stake
      (fun b ↦ b.options.numWitness ≤ s.maximumWitnessCount ∧ b.options.numWitness / 2 = c) bs
  /-- The stake in each bucket of opinions on the size of the committee. -/
  committeeCountHistogram : d.committeeCountHistogram =
    (List.range (s.maximumCommitteeCount / 2 + 1)).map fun c ↦ weightWhere Ballot.stake
      (fun b ↦ b.options.numCommittee ≤ s.maximumCommitteeCount ∧
        b.options.numCommittee / 2 = c) bs
  /-- All of the stake. -/
  totalVotingStake : d.totalVotingStake = weightWhere Ballot.stake (fun _ ↦ True) bs

theorem tallies_emptyBuffers (s : VotingChain) : Tallies s [] s.emptyBuffers := by
  constructor <;> simp [VotingChain.emptyBuffers, List.map_const']

theorem Tallies.addBallot {s : VotingChain} {bs : List Ballot} {d : Buffers} (h : Tallies s bs d)
    (b : Ballot) : Tallies s (bs ++ [b]) (addBallot s b.stake b.options d) where
  voteTally := by
    simp only [Voting.addBallot, h.voteTally, weightWhere_concat]
    exact addVotes_map_range (b.options.votes_sorted.imp Nat.ne_of_lt) _ _ _
  witnessCountHistogram := by
    simp only [Voting.addBallot, h.witnessCountHistogram, weightWhere_concat]
    exact addOpinion_map_range _ _ _ _
  committeeCountHistogram := by
    simp only [Voting.addBallot, h.committeeCountHistogram, weightWhere_concat]
    exact addOpinion_map_range _ _ _ _
  totalVotingStake := by
    simp only [Voting.addBallot, h.totalVotingStake, weightWhere_concat, if_true]

/-- Whose stake counts names an account that exists to vote with it. -/
def ProxiesExist (s : VotingChain) (accounts : List Account) : Prop :=
  ∀ a ∈ accounts, s.counts a = true → a.options.votingAccount = proxyToSelfAccount ∨
    ∃ b ∈ s.accounts, b.id = a.options.votingAccount

theorem opinionAccount_cases (s : VotingChain) (a : Account) :
    (∃ o, s.opinionAccount a = .ok o ∧ (a.options.votingAccount = proxyToSelfAccount ∨
      ∃ b ∈ s.accounts, b.id = a.options.votingAccount)) ∨
    s.opinionAccount a = .error .objectNotFound ∧
      ¬ (a.options.votingAccount = proxyToSelfAccount ∨
        ∃ b ∈ s.accounts, b.id = a.options.votingAccount) := by
  unfold VotingChain.opinionAccount VotingChain.get
  split_ifs with hself
  · exact .inl ⟨a, rfl, .inl hself⟩
  · cases hfind : s.accounts.find? (·.id = a.options.votingAccount) with
    | some b =>
      have hid := List.find?_some hfind
      exact .inl ⟨b, rfl, .inr ⟨b, List.mem_of_find?_eq_some hfind, by simpa using hid⟩⟩
    | none =>
      refine .inr ⟨rfl, ?_⟩
      rintro (h | ⟨b, hb, hid⟩)
      · exact hself h
      · simpa [hid] using List.find?_eq_none.1 hfind b hb

/-- One account of the pass. -/
theorem voteTallyHelper_cases (s : VotingChain) (d : Buffers) (a : Account) :
    (ProxiesExist s [a] ∧ ∃ d', voteTallyHelper s d a = .ok d' ∧
      ∀ bs, Tallies s bs d → Tallies s (bs ++ (ballotOf s a).toList) d') ∨
    ¬ ProxiesExist s [a] ∧ voteTallyHelper s d a = .error .objectNotFound := by
  unfold voteTallyHelper ballotOf ProxiesExist
  by_cases hcounts : s.counts a = true
  · rcases opinionAccount_cases s a with ⟨o, ho, hexists⟩ | ⟨ho, hnot⟩
    · refine .inl ⟨by simpa [hcounts] using hexists, _, by rw [if_pos hcounts, ho]; rfl, ?_⟩
      intro bs hd
      rw [if_pos hcounts, ho]
      exact hd.addBallot ⟨a.votingStake, o.options⟩
    · refine .inr ⟨by simpa [hcounts] using hnot, ?_⟩
      rw [if_pos hcounts, ho]
      rfl
  · refine .inl ⟨by simp [hcounts], d, by rw [if_neg hcounts], fun bs hd ↦ ?_⟩
    rwa [if_neg hcounts, Option.toList_none, List.append_nil]

theorem proxiesExist_cons {s : VotingChain} {a : Account} {accounts : List Account} :
    ProxiesExist s (a :: accounts) ↔ ProxiesExist s [a] ∧ ProxiesExist s accounts := by
  simp [ProxiesExist]

/-- The pass over the accounts, from any ballots on. -/
theorem foldlM_voteTallyHelper (s : VotingChain) (accounts : List Account) (d : Buffers) :
    (ProxiesExist s accounts ∧ ∃ d', accounts.foldlM (voteTallyHelper s) d = .ok d' ∧
      ∀ bs, Tallies s bs d → Tallies s (bs ++ accounts.filterMap (ballotOf s)) d') ∨
    ¬ ProxiesExist s accounts ∧
      accounts.foldlM (voteTallyHelper s) d = .error .objectNotFound := by
  induction accounts generalizing d with
  | nil =>
    refine .inl ⟨by simp [ProxiesExist], d, rfl, fun bs hd ↦ ?_⟩
    rwa [List.filterMap_nil, List.append_nil]
  | cons a accounts ih =>
    rw [List.foldlM_cons, proxiesExist_cons]
    rcases voteTallyHelper_cases s d a with ⟨ha, d', hd', htallies⟩ | ⟨ha, herror⟩
    · rw [hd']
      rcases ih d' with ⟨hrest, d'', hd'', htallies'⟩ | ⟨hrest, herror⟩
      · refine .inl ⟨⟨ha, hrest⟩, d'', hd'', fun bs hd ↦ ?_⟩
        have hall := htallies' _ (htallies bs hd)
        rw [List.append_assoc] at hall
        rw [List.filterMap_cons]
        cases hballot : ballotOf s a with
        | none => simpa [hballot] using hall
        | some b => simpa [hballot] using hall
      · exact .inr ⟨fun h ↦ hrest h.2, herror⟩
    · rw [herror]
      exact .inr ⟨fun h ↦ ha h.1, rfl⟩

/-- **The tally.**  The buffers hold the sums over all ballots; a stake whose account to vote with
it does not exist ends the maintenance. -/
theorem tally_eq (s : VotingChain) :
    (ProxiesExist s s.accounts ∧ ∃ d, tally s = .ok d ∧ Tallies s (ballots s) d) ∨
    ¬ ProxiesExist s s.accounts ∧ tally s = .error .objectNotFound := by
  rcases foldlM_voteTallyHelper s s.accounts s.emptyBuffers with ⟨h, d, hd, htallies⟩ | hmissing
  · exact .inl ⟨h, d, hd, htallies [] (tallies_emptyBuffers s)⟩
  · exact .inr hmissing

/-- The ballots have at most the stake of the accounts. -/
theorem stake_ballots_le (s : VotingChain) (accounts : List Account) :
    weightWhere Ballot.stake (fun _ ↦ True) (accounts.filterMap (ballotOf s)) ≤
      (accounts.map Account.votingStake).sum := by
  induction accounts with
  | nil => exact Nat.le_refl _
  | cons a accounts ih =>
    rw [List.map_cons, List.sum_cons, List.filterMap_cons]
    cases hballot : ballotOf s a with
    | none =>
      simp only
      omega
    | some b =>
      have hstake : b.stake = a.votingStake := by
        unfold ballotOf at hballot
        split_ifs at hballot
        split at hballot
        · simpa using (congrArg Ballot.stake (Option.some.inj hballot)).symm
        · exact absurd hballot (by simp)
      simp only
      rw [weightWhere_cons, if_pos trivial]
      omega

/-- Every sum over the ballots is within the share supply, so that the 64 bits of the buffers do not
overflow. -/
theorem weightWhere_ballots_le (s : VotingChain) (p : Ballot → Prop) [DecidablePred p] :
    weightWhere Ballot.stake p (ballots s) ≤ maxShareSupply :=
  calc weightWhere Ballot.stake p (ballots s)
      ≤ weightWhere Ballot.stake (fun _ ↦ True) (ballots s) := weightWhere_mono fun _ _ _ ↦ trivial
    _ ≤ (s.accounts.map Account.votingStake).sum := stake_ballots_le s s.accounts
    _ ≤ maxShareSupply := s.stake_le_supply

/-! ## The sorted candidates -/

/-- The order of `sort_votable_objects` is total. -/
theorem ahead_total (a b : ℕ × Votable) : !ahead b a ∨ !ahead a b := by
  unfold ahead
  grind

theorem ahead_trans {a b c : ℕ × Votable} (hab : !ahead b a) (hbc : !ahead c b) : !ahead c a := by
  unfold ahead at *
  grind

theorem mapM_votesFor {s : VotingChain} {d : Buffers} (h : Tallies s (ballots s) d)
    {candidates : List Votable} (hlt : ∀ c ∈ candidates, c.voteId < s.nextAvailableVoteId) :
    (candidates.mapM fun o ↦ do .ok (← votesFor d o, o) : Except Fault (List (ℕ × Votable))) =
      .ok (candidates.map fun o ↦ (supportOf s o, o)) := by
  induction candidates with
  | nil => rfl
  | cons o candidates ih =>
    have hvotes : votesFor d o = .ok (supportOf s o) := by
      unfold votesFor
      rw [h.voteTally, List.getElem?_map, List.getElem?_range (hlt o List.mem_cons_self)]
      rfl
    rw [List.mapM_cons, hvotes, ih fun c hc ↦ hlt c (List.mem_cons_of_mem _ hc)]
    rfl

/-- The candidates in the order of `sort_votable_objects`, with the votes for them. -/
def ranking (s : VotingChain) (candidates : List Votable) : List (ℕ × Votable) :=
  (candidates.map fun o ↦ (supportOf s o, o)).insertionSort fun a b ↦ !ahead b a

theorem ranking_perm (s : VotingChain) (candidates : List Votable) :
    ((ranking s candidates).map Prod.snd).Perm candidates := by
  have hperm := (List.perm_insertionSort (fun a b ↦ !ahead b a)
    (candidates.map fun o ↦ (supportOf s o, o))).map Prod.snd
  rwa [List.map_map, List.map_id''] at hperm
  exact fun _ ↦ rfl

/-- Of two candidates the one with more support is first, or the one with the lower vote id. -/
theorem ranking_pairwise (s : VotingChain) {candidates : List Votable}
    (hids : (candidates.map Votable.voteId).Nodup) :
    ((ranking s candidates).map Prod.snd).Pairwise (Precedes s) := by
  have : Std.Total fun a b : ℕ × Votable ↦ (!ahead b a) = true := ⟨ahead_total⟩
  have : IsTrans (ℕ × Votable) fun a b ↦ (!ahead b a) = true := ⟨fun _ _ _ ↦ ahead_trans⟩
  have hsorted : (ranking s candidates).Pairwise fun a b ↦ (!ahead b a) = true :=
    List.pairwise_insertionSort _ _
  have hdistinct : (ranking s candidates).Pairwise fun a b ↦ a.2.voteId ≠ b.2.voteId := by
    have hperm := ((ranking_perm s candidates).map Votable.voteId).nodup_iff.2 hids
    rw [List.map_map] at hperm
    exact List.pairwise_map.1 hperm
  have hvotes : ∀ x ∈ ranking s candidates, x.1 = supportOf s x.2 := by
    intro x hx
    obtain ⟨o, -, rfl⟩ := List.mem_map.1 ((List.mem_insertionSort _).1 hx)
    rfl
  rw [List.pairwise_map]
  refine (hsorted.and hdistinct).imp_of_mem fun {a b} ha hb hab ↦ ?_
  obtain ⟨hle, hne⟩ := hab
  unfold Precedes
  rw [← hvotes a ha, ← hvotes b hb]
  unfold ahead at hle
  grind

/-- `sort_votable_objects` returns the first candidates if there is one; without candidates there is
no front to take. -/
theorem sortVotableObjects_cases {s : VotingChain} {d : Buffers} (h : Tallies s (ballots s) d)
    {candidates : List Votable} (hlt : ∀ c ∈ candidates, c.voteId < s.nextAvailableVoteId)
    (hids : (candidates.map Votable.voteId).Nodup) (count : ℕ) :
    (candidates ≠ [] ∧ ∃ chosen, sortVotableObjects d candidates count = .ok chosen ∧
      IsTopBy (Precedes s) (min count candidates.length) candidates chosen) ∨
    candidates = [] ∧ sortVotableObjects d candidates count = .error .outOfRange := by
  have hperm := ranking_perm s candidates
  have hlength : (ranking s candidates).length = candidates.length := by
    rw [← hperm.length_eq, List.length_map]
  have heq : sortVotableObjects d candidates count = match ranking s candidates with
      | [] => .error .outOfRange
      | front :: _ => .ok (((ranking s candidates).take (min count candidates.length) ++
          List.replicate (min count candidates.length - (ranking s candidates).length)
            front).map Prod.snd) := by
    unfold sortVotableObjects
    rw [mapM_votesFor h hlt]
    rfl
  cases hrank : ranking s candidates with
  | nil =>
    rw [hrank, List.length_nil] at hlength
    exact .inr ⟨List.length_eq_zero_iff.1 hlength.symm, by rw [heq, hrank]⟩
  | cons front rest =>
    have htop := isTopBy_take (Nat.min_le_right count candidates.length) hperm
      (ranking_pairwise s hids)
    refine .inl ⟨?_, _, ?_, htop⟩
    · rintro rfl
      simp [hrank] at hlength
    · have hno : min count candidates.length - (ranking s candidates).length = 0 := by omega
      simp only [heq, hno, List.replicate_zero, List.append_nil, List.map_take]
      rw [hrank]

/-! ## The median -/

section Histogram

variable (num : Ballot → ℕ) (maximum : ℕ) (l : List Ballot)

/-- The histogram of the opinions `num`. -/
def histogramOf : List ℕ :=
  (List.range (maximum / 2 + 1)).map fun c ↦
    weightWhere Ballot.stake (fun b ↦ num b ≤ maximum ∧ num b / 2 = c) l

/-- The stake that is not in the first bucket of the histogram. -/
def besidesFirst : ℕ :=
  weightWhere Ballot.stake (fun b ↦ ¬ (num b ≤ maximum ∧ num b / 2 = 0)) l

theorem opinionBucket_le (n : ℕ) : opinionBucket maximum n ≤ maximum / 2 := by
  unfold opinionBucket
  omega

/-- The stake in the first buckets; opinions above the maximum are not among them. -/
theorem sum_take_histogramOf {b : ℕ} (hb : b < maximum / 2) :
    (((histogramOf num maximum l).drop 1).take b).sum =
      covered Ballot.stake (fun x ↦ opinionBucket maximum (num x)) l b := by
  induction b with
  | zero => rw [List.take_zero, List.sum_nil, covered_zero]
  | succ b ih =>
    have hlength : b < ((histogramOf num maximum l).drop 1).length := by
      simp only [histogramOf, List.length_drop, List.length_map, List.length_range]
      omega
    rw [List.sum_take_succ _ _ hlength, ih (by omega), covered_succ]
    simp only [histogramOf, List.getElem_drop, List.getElem_map, List.getElem_range]
    congr 1
    refine weightWhere_congr fun x _ ↦ ?_
    unfold opinionBucket
    omega

/-- What is in no bucket or in a later one is what has a say. -/
theorem besidesFirst_eq_voiced (h : 0 < maximum / 2) : besidesFirst num maximum l =
    voiced Ballot.stake (fun x ↦ opinionBucket maximum (num x)) l := by
  refine weightWhere_congr fun x _ ↦ ?_
  simp only [opinionBucket]
  omega

/-- The total without the first bucket. -/
theorem sub_firstBucket : weightWhere Ballot.stake (fun _ ↦ True) l -
    weightWhere Ballot.stake (fun b ↦ num b ≤ maximum ∧ num b / 2 = 0) l =
      besidesFirst num maximum l := by
  have hall : weightWhere Ballot.stake (fun _ ↦ True) l = weightWhere Ballot.stake (fun b ↦
      (num b ≤ maximum ∧ num b / 2 = 0) ∨ ¬ (num b ≤ maximum ∧ num b / 2 = 0)) l :=
    weightWhere_congr fun x _ ↦ by tauto
  rw [hall, weightWhere_or fun x _ hx hno ↦ hno hx, Nat.add_sub_cancel_left]
  rfl

/-- The loop stops at the first bucket up to which more than half of `stake` lies, and at once if
half of it is nothing. -/
theorem countFor_firstStop (stake : ℕ) :
    FirstStop (fun b ↦ stake ≤ 1 ∨
      stake < 2 * covered Ballot.stake (fun x ↦ opinionBucket maximum (num x)) l b)
      (maximum / 2) (countFor (stake / 2) (histogramOf num maximum l)) := by
  unfold countFor
  split_ifs with hpos
  · obtain ⟨k, hk, hstop⟩ :=
      countBuckets_spec (stake / 2) ((histogramOf num maximum l).drop 1) 0 0
    have hlength : ((histogramOf num maximum l).drop 1).length = maximum / 2 := by
      simp [histogramOf]
    rw [hlength] at hstop
    rw [hk, Nat.zero_add]
    refine hstop.congr fun b hb ↦ ?_
    rw [Nat.zero_add, sum_take_histogramOf num maximum l hb]
    omega
  · exact ⟨Nat.zero_le _, fun b hb ↦ absurd hb (Nat.not_lt_zero b), fun _ ↦ .inl (by omega)⟩

end Histogram

theorem seats_mono (minimum candidates : ℕ) : Monotone (seats minimum candidates) := by
  intro b c hbc
  unfold seats
  omega

/-- Who is elected by a count that ends where half of `stake` is passed: as many as the median asks
for if and only if the count stops where the median does, wherever one bucket more gives another
seat. -/
theorem electedBy_iff {s : VotingChain} (num : Ballot → ℕ) (maximum stake : ℕ) {minimum : ℕ}
    {candidates chosen : List Votable}
    (htop : IsTopBy (Precedes s) (seats minimum candidates.length
      (countFor (stake / 2) (histogramOf num maximum (ballots s)))) candidates chosen) :
    ElectedBy s (fun b ↦ opinionBucket maximum (num b)) minimum candidates chosen ↔
      ∀ b < maximum / 2,
        seats minimum candidates.length b < seats minimum candidates.length (b + 1) →
        ((voiced Ballot.stake (fun x ↦ opinionBucket maximum (num x)) (ballots s) = 0 ∨
          voiced Ballot.stake (fun x ↦ opinionBucket maximum (num x)) (ballots s) <
            2 * covered Ballot.stake (fun x ↦ opinionBucket maximum (num x)) (ballots s) b) ↔
          (stake ≤ 1 ∨ stake <
            2 * covered Ballot.stake (fun x ↦ opinionBucket maximum (num x)) (ballots s) b)) := by
  have hcode := countFor_firstStop num maximum (ballots s) stake
  have hlast : ∀ x ∈ ballots s, opinionBucket maximum (num x) ≤ maximum / 2 :=
    fun x _ ↦ opinionBucket_le maximum _
  have hup : ∀ n b d, b ≤ d → n <
      2 * covered Ballot.stake (fun x ↦ opinionBucket maximum (num x)) (ballots s) b → n <
      2 * covered Ballot.stake (fun x ↦ opinionBucket maximum (num x)) (ballots s) d := by
    intro n b d hbd hlt
    have hmono : covered Ballot.stake (fun x ↦ opinionBucket maximum (num x)) (ballots s) b ≤
        covered Ballot.stake (fun x ↦ opinionBucket maximum (num x)) (ballots s) d :=
      covered_mono hbd
    omega
  constructor
  · rintro ⟨c, hmedian, hchosen⟩
    have heq := hchosen.length_eq.symm.trans htop.length_eq
    exact ((hmedian.firstStop hlast).map_eq_map_iff hcode
      (fun b d hbd ↦ Or.imp_right (hup _ b d hbd)) (fun b d hbd ↦ Or.imp_right (hup _ b d hbd))
      (seats_mono minimum candidates.length)).1 heq
  · intro hagree
    obtain ⟨c, hc⟩ := exists_firstStop (fun b ↦
      voiced Ballot.stake (fun x ↦ opinionBucket maximum (num x)) (ballots s) = 0 ∨
      voiced Ballot.stake (fun x ↦ opinionBucket maximum (num x)) (ballots s) <
        2 * covered Ballot.stake (fun x ↦ opinionBucket maximum (num x)) (ballots s) b)
      (maximum / 2)
    refine ⟨c, hc.isMedianBucket hlast, ?_⟩
    rwa [(hc.map_eq_map_iff hcode
      (fun b d hbd ↦ Or.imp_right (hup _ b d hbd)) (fun b d hbd ↦ Or.imp_right (hup _ b d hbd))
      (seats_mono minimum candidates.length)).2 hagree]

/-! ## When the elected are those that the ballots ask for -/

/-- The count of `update_active_witnesses` and that of `update_active_committee_members`, with the
`stake` of which half has to be passed. -/
theorem elect_cases {s : VotingChain} {d : Buffers} (h : Tallies s (ballots s) d)
    (num : Ballot → ℕ) (maximum stake minimum : ℕ) {candidates : List Votable}
    (hlt : ∀ c ∈ candidates, c.voteId < s.nextAvailableVoteId)
    (hids : (candidates.map Votable.voteId).Nodup) :
    let result := sortVotableObjects d candidates
      (max (countFor (stake / 2) (histogramOf num maximum (ballots s)) * 2 + 1) minimum)
    (candidates ≠ [] ∧ ∃ chosen, result = .ok chosen ∧
      IsTopBy (Precedes s) (seats minimum candidates.length
        (countFor (stake / 2) (histogramOf num maximum (ballots s)))) candidates chosen) ∨
    candidates = [] ∧ result = .error .outOfRange := by
  unfold seats
  rw [Nat.mul_comm 2]
  exact sortVotableObjects_cases h hlt hids _

/-- The stake of which `update_active_committee_members` takes half is that without the abstainers
of the witness count. -/
def stakeOfWitnessCount (s : VotingChain) : ℕ :=
  besidesFirst (fun b ↦ b.options.numWitness) s.maximumWitnessCount (ballots s)

theorem firstBucket_tally {s : VotingChain} {d : Buffers} (h : Tallies s (ballots s) d) :
    ∃ first, firstBucket d.witnessCountHistogram = .ok first ∧
      d.totalVotingStake - first = stakeOfWitnessCount s := by
  refine ⟨weightWhere Ballot.stake (fun b ↦ b.options.numWitness ≤ s.maximumWitnessCount ∧
    b.options.numWitness / 2 = 0) (ballots s), ?_, ?_⟩
  · rw [h.witnessCountHistogram, List.range_succ_eq_map]
    rfl
  · rw [h.totalVotingStake]
    exact sub_firstBucket _ _ _

theorem updateActiveWitnesses_cases {s : VotingChain} {d : Buffers}
    (h : Tallies s (ballots s) d) :
    (s.witnesses ≠ [] ∧ ∃ chosen, updateActiveWitnesses s d = .ok chosen ∧
      IsTopBy (Precedes s) (seats s.minWitnessCount s.witnesses.length
        (countFor (stakeOfWitnessCount s / 2) (histogramOf (fun b ↦ b.options.numWitness)
          s.maximumWitnessCount (ballots s)))) s.witnesses chosen) ∨
    s.witnesses = [] ∧ updateActiveWitnesses s d = .error .outOfRange := by
  obtain ⟨first, hfirst, hstake⟩ := firstBucket_tally h
  have hids := s.voteIds_nodup
  rw [List.map_append] at hids
  have heq : updateActiveWitnesses s d = sortVotableObjects d s.witnesses
      (max (countFor (stakeOfWitnessCount s / 2) (histogramOf (fun b ↦ b.options.numWitness)
        s.maximumWitnessCount (ballots s)) * 2 + 1) s.minWitnessCount) := by
    unfold updateActiveWitnesses
    rw [hfirst, ← hstake]
    simp only [bind, Except.bind]
    rw [h.witnessCountHistogram]
    rfl
  rw [heq]
  exact elect_cases h _ _ _ _ (fun c hc ↦ s.voteId_lt c (List.mem_append_left _ hc))
    hids.of_append_left

theorem updateActiveCommitteeMembers_cases {s : VotingChain} {d : Buffers}
    (h : Tallies s (ballots s) d) :
    (s.committeeMembers ≠ [] ∧ ∃ chosen, updateActiveCommitteeMembers s d = .ok chosen ∧
      IsTopBy (Precedes s) (seats s.minCommitteeMemberCount s.committeeMembers.length
        (countFor (stakeOfWitnessCount s / 2) (histogramOf (fun b ↦ b.options.numCommittee)
          s.maximumCommitteeCount (ballots s)))) s.committeeMembers chosen) ∨
    s.committeeMembers = [] ∧ updateActiveCommitteeMembers s d = .error .outOfRange := by
  obtain ⟨first, hfirst, hstake⟩ := firstBucket_tally h
  have hids := s.voteIds_nodup
  rw [List.map_append] at hids
  have heq : updateActiveCommitteeMembers s d = sortVotableObjects d s.committeeMembers
      (max (countFor (stakeOfWitnessCount s / 2) (histogramOf (fun b ↦ b.options.numCommittee)
        s.maximumCommitteeCount (ballots s)) * 2 + 1) s.minCommitteeMemberCount) := by
    unfold updateActiveCommitteeMembers
    rw [hfirst, ← hstake]
    simp only [bind, Except.bind]
    rw [h.committeeCountHistogram]
    rfl
  rw [heq]
  exact elect_cases h _ _ _ _ (fun c hc ↦ s.voteId_lt c (List.mem_append_right _ hc))
    hids.of_append_right

/-- When the elected are those that the ballots ask for. -/
structure BallotsCountable (s : VotingChain) : Prop where
  /-- The accounts that vote with another one's stake exist. -/
  proxies_exist : ProxiesExist s s.accounts
  /-- There is a witness. -/
  witnesses_ne : s.witnesses ≠ []
  /-- There is a committee member. -/
  committeeMembers_ne : s.committeeMembers ≠ []
  /-- If a single unit of stake has a say on the number of witnesses, its bucket does not ask for
  more seats than bucket 0. -/
  witness_unit : voiced Ballot.stake (witnessOpinion s) (ballots s) = 1 →
    ∀ b < s.maximumWitnessCount / 2,
      seats s.minWitnessCount s.witnesses.length b <
        seats s.minWitnessCount s.witnesses.length (b + 1) →
      0 < covered Ballot.stake (witnessOpinion s) (ballots s) b
  /-- Wherever one bucket more gives another seat, half of the stake that has a say on the size of
  the committee is passed if and only if half of that is which has a say on the number of
  witnesses. -/
  committee_stake : ∀ b < s.maximumCommitteeCount / 2,
    seats s.minCommitteeMemberCount s.committeeMembers.length b <
      seats s.minCommitteeMemberCount s.committeeMembers.length (b + 1) →
    ((voiced Ballot.stake (committeeOpinion s) (ballots s) = 0 ∨
      voiced Ballot.stake (committeeOpinion s) (ballots s) <
        2 * covered Ballot.stake (committeeOpinion s) (ballots s) b) ↔
      (stakeOfWitnessCount s ≤ 1 ∨
        stakeOfWitnessCount s < 2 * covered Ballot.stake (committeeOpinion s) (ballots s) b))

/-- The witnesses are counted against their own abstainers; only the stake of a single unit is
lost by halving. -/
theorem electedBy_witnesses_iff {s : VotingChain} {chosen : List Votable}
    (htop : IsTopBy (Precedes s) (seats s.minWitnessCount s.witnesses.length
      (countFor (stakeOfWitnessCount s / 2) (histogramOf (fun b ↦ b.options.numWitness)
        s.maximumWitnessCount (ballots s)))) s.witnesses chosen) :
    ElectedBy s (witnessOpinion s) s.minWitnessCount s.witnesses chosen ↔
      (voiced Ballot.stake (witnessOpinion s) (ballots s) = 1 →
        ∀ b < s.maximumWitnessCount / 2,
          seats s.minWitnessCount s.witnesses.length b <
            seats s.minWitnessCount s.witnesses.length (b + 1) →
          0 < covered Ballot.stake (witnessOpinion s) (ballots s) b) := by
  refine (electedBy_iff _ _ _ htop).trans ?_
  change (∀ b < _, _ → ((voiced Ballot.stake (witnessOpinion s) (ballots s) = 0 ∨
    voiced Ballot.stake (witnessOpinion s) (ballots s) <
      2 * covered Ballot.stake (witnessOpinion s) (ballots s) b) ↔ (stakeOfWitnessCount s ≤ 1 ∨
    stakeOfWitnessCount s < 2 * covered Ballot.stake (witnessOpinion s) (ballots s) b))) ↔ _
  constructor
  · intro h hone b hb hseats
    have hsame := besidesFirst_eq_voiced (fun b ↦ b.options.numWitness) s.maximumWitnessCount
      (ballots s) (by omega)
    have hiff := h b hb hseats
    change stakeOfWitnessCount s = voiced Ballot.stake (witnessOpinion s) (ballots s) at hsame
    rw [hsame] at hiff
    omega
  · intro h b hb hseats
    have hsame := besidesFirst_eq_voiced (fun b ↦ b.options.numWitness) s.maximumWitnessCount
      (ballots s) (by omega)
    change stakeOfWitnessCount s = voiced Ballot.stake (witnessOpinion s) (ballots s) at hsame
    rw [hsame]
    by_cases hone : voiced Ballot.stake (witnessOpinion s) (ballots s) = 1
    · have := h hone b hb hseats
      omega
    · omega

/-- **Who governs the chain.**  The maintenance elects those that the ballots ask for exactly if
every stake can be counted, there are candidates for both, and where it matters half of the stake
that has a say on one number is passed when half of that is which has a say on the other. -/
theorem counts_follow_votes_iff (s : VotingChain) : CountsFollowVotes s ↔ BallotsCountable s := by
  unfold CountsFollowVotes performChainMaintenance
  rcases tally_eq s with ⟨hproxies, d, hd, htallies⟩ | ⟨hproxies, herror⟩
  · rw [hd]
    rcases updateActiveWitnesses_cases htallies with ⟨hw, ws, hws, htopw⟩ | ⟨hw, hws⟩
    · rcases updateActiveCommitteeMembers_cases htallies with ⟨hc, cs, hcs, htopc⟩ | ⟨hc, hcs⟩
      · have hrun : (do
            let d ← (.ok d : Except Fault Buffers)
            let activeWitnesses ← updateActiveWitnesses s d
            let activeCommitteeMembers ← updateActiveCommitteeMembers s d
            .ok ⟨activeWitnesses, activeCommitteeMembers⟩) = Except.ok (Elected.mk ws cs) := by
          simp only [bind, Except.bind, hws, hcs]
        rw [hrun]
        have hwitnesses := electedBy_witnesses_iff htopw
        have hcommittee := electedBy_iff _ _ _ htopc
        constructor
        · rintro ⟨e, he, hew, hec⟩
          obtain rfl : ⟨ws, cs⟩ = e := Except.ok.inj he
          exact ⟨hproxies, hw, hc, hwitnesses.1 hew, hcommittee.1 hec⟩
        · intro h
          exact ⟨_, rfl, hwitnesses.2 h.witness_unit, hcommittee.2 h.committee_stake⟩
      · constructor
        · rintro ⟨e, he, -⟩
          simp only [bind, Except.bind, hws, hcs] at he
          exact absurd he (by simp)
        · intro h
          exact absurd hc h.committeeMembers_ne
    · constructor
      · rintro ⟨e, he, -⟩
        simp only [bind, Except.bind, hws] at he
        exact absurd he (by simp)
      · intro h
        exact absurd hw h.witnesses_ne
  · constructor
    · rintro ⟨e, he, -⟩
      rw [herror] at he
      exact absurd he (by simp [bind, Except.bind])
    · intro h
      exact absurd h.proxies_exist hproxies

/-! ## A committee that is counted against the abstainers of the witness count -/

/-- An account that votes for itself with a balance. -/
def voterAccount (id balance numWitness numCommittee : ℕ) (votes : List ℕ)
    (h : votes.Pairwise (· < ·)) : Account where
  id := id
  options := ⟨proxyToSelfAccount, numWitness, numCommittee, votes, h⟩
  isMember := true
  totalCoreInOrders := 0
  cashback := none
  balance := balance

/-- One account has 10 units of stake, wants a committee of five and abstains from the witnesses;
another has 6, and wants three of both. -/
def fiveOrThree : VotingChain where
  accounts := [voterAccount 6 10 0 5 [0, 1, 2, 3, 4] (by decide),
    voterAccount 7 6 3 3 [0, 1, 2, 5, 6, 7] (by decide)]
  countNonMemberVotes := true
  maximumWitnessCount := 5
  maximumCommitteeCount := 5
  minWitnessCount := 1
  minCommitteeMemberCount := 1
  nextAvailableVoteId := 8
  witnesses := [⟨0, 5⟩, ⟨1, 6⟩, ⟨2, 7⟩]
  committeeMembers := [⟨0, 0⟩, ⟨1, 1⟩, ⟨2, 2⟩, ⟨3, 3⟩, ⟨4, 4⟩]
  stake_le_supply := by decide
  voteId_lt := by decide
  voteIds_nodup := by decide

/-- Ten of the sixteen units want a committee of five, and it gets three members: half of the six
units that do not abstain from the witnesses is passed already. -/
theorem committee_of_three_elected :
    performChainMaintenance fiveOrThree = .ok ⟨[⟨0, 5⟩, ⟨1, 6⟩, ⟨2, 7⟩],
      [⟨0, 0⟩, ⟨1, 1⟩, ⟨2, 2⟩]⟩ ∧
    ¬ CountsFollowVotes fiveOrThree := by
  have hrun : performChainMaintenance fiveOrThree = .ok ⟨[⟨0, 5⟩, ⟨1, 6⟩, ⟨2, 7⟩],
      [⟨0, 0⟩, ⟨1, 1⟩, ⟨2, 2⟩]⟩ := rfl
  refine ⟨hrun, ?_⟩
  rintro ⟨e, he, -, c, hmedian, hchosen⟩
  rw [hrun] at he
  obtain rfl := Except.ok.inj he
  have hseats : 3 = seats 1 5 c := hchosen.length_eq
  obtain rfl : c = 1 := by
    unfold seats at hseats
    omega
  have hvoiced : voiced Ballot.stake (committeeOpinion fiveOrThree) (ballots fiveOrThree) = 16 :=
    rfl
  have hcovered :
      covered Ballot.stake (committeeOpinion fiveOrThree) (ballots fiveOrThree) 1 = 6 := rfl
  have := hmedian.covers
  omega

end Graphene.Voting
