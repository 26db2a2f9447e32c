import Graphene.Chain.PendingInvariant
import Graphene.Lib.Codec

/-!
# The size of a produced block

`_generate_block` (`db_block.cpp`) keeps an estimate of the size of the block it puts together.  It
compares the estimate with `maximum_block_size` before a pending transaction is applied again, with
the size that the transaction had when it was pending, and afterwards adds the size that it has now.
It reserves a header and four bytes.

* `packedBlockSize` — what a block packs to.
* `Database.Production.packed` — what `generate_block` reads, with these sizes.
* `Database.Production.ResultsFit` — each transaction that is taken still fits after it was applied
  again.
* `resultsFit_iff` — this is so just if the block fits.
* `generated_block_fits_iff` — what it means for `generate_block`.
* `generated_block_fits_of_no_growth` — it is so if no transaction has become larger, and the number
  of the witness and that of the transactions are packed into six bytes.
-/

set_option autoImplicit false

namespace Graphene

open Throwing

variable {C : ChainTypes} {P : Protocol C} {g : ChainState C} {depth : ℕ}

/-! ## Packed sizes -/

/-- `pack_size` of an `unsigned_int`. -/
def varintSize (n : ℕ) : ℕ := (Codec.packNat n).length

theorem varintSize_of_lt {n : ℕ} (h : n < 128) : varintSize n = 1 := by
  rw [varintSize, Codec.packNat_of_lt h]
  rfl

theorem varintSize_of_le {n : ℕ} (h : 128 ≤ n) : varintSize n = varintSize (n / 128) + 1 := by
  rw [varintSize, Codec.packNat_of_le h]
  rfl

theorem varintSize_pos (n : ℕ) : 1 ≤ varintSize n :=
  List.length_pos_iff.2 (Codec.packNat_ne_nil n)

theorem varintSize_mono {m n : ℕ} (h : m ≤ n) : varintSize m ≤ varintSize n := by
  induction n using Nat.strongRecOn generalizing m with
  | ind n ih =>
    rcases Nat.lt_or_ge m 128 with hm | hm
    · rw [varintSize_of_lt hm]
      exact varintSize_pos n
    · rw [varintSize_of_le hm, varintSize_of_le (hm.trans h)]
      exact Nat.succ_le_succ (ih (n / 128) (by omega) (Nat.div_le_div_right h))

theorem varintSize_uint32 (n : UInt32) : varintSize n.toNat ≤ 5 := by
  have hlt : n.toNat < 2 ^ 32 := n.toNat_lt
  refine (varintSize_mono (show n.toNat ≤ 2 ^ 32 - 1 by omega)).trans (Nat.le_of_eq ?_)
  rw [varintSize_of_le (by omega), varintSize_of_le (by omega), varintSize_of_le (by omega),
    varintSize_of_le (by omega), varintSize_of_lt (by omega)]

/-- `pack_size` of a signed block header without extensions: `previous`, `timestamp`, `witness`,
`transaction_merkle_root`, `extensions` and `witness_signature`. -/
def signedBlockHeaderSize (witness : UInt32) : ℕ :=
  20 + 4 + varintSize witness.toNat + 20 + varintSize 0 + 65

/-- `max_block_header_size`. -/
def maxBlockHeaderSize : ℕ := signedBlockHeaderSize 0 + 4

theorem maxBlockHeaderSize_eq : maxBlockHeaderSize = 115 := by
  rw [maxBlockHeaderSize, signedBlockHeaderSize, UInt32.toNat_zero, varintSize_of_lt (by omega)]

/-- `pack_size` of a signed block whose transactions pack to `sizes`. -/
def packedBlockSize (witness : UInt32) (sizes : List ℕ) : ℕ :=
  signedBlockHeaderSize witness + (varintSize sizes.length + sizes.sum)

/-- `GRAPHENE_MIN_BLOCK_SIZE_LIMIT`, below which no `maximum_block_size` is valid. -/
def minBlockSizeLimit : ℕ := 1024 * 5

/-- The sizes of transactions that are applied one after the other. -/
def Protocol.processedSizes (P : Protocol C) (processedSize : ChainState C → C.Tx → ℕ) :
    ChainState C → List C.Tx → List ℕ
  | _, [] => []
  | ix, tx :: txs =>
    processedSize ix tx ::
      ((P.applyTransaction ix tx).elim [] fun ix' ↦ P.processedSizes processedSize ix' txs)

/-- What `generate_block` is called with and reads, when blocks are packed as they are. -/
structure PackedProduction (C : ChainTypes) where
  /-- The slot is the witness's, and the key is its signing key. -/
  scheduled : ChainState C → Bool
  /-- The header with the timestamp, the witness and the signature. -/
  sign : BlockId C → C.Digest → C.Content
  /-- `witness_id`. -/
  witness : UInt32
  /-- `pack_size` of a pending transaction, with the results it had. -/
  packSize : C.Tx → ℕ
  /-- `pack_size` of a transaction with the results it has when it is applied to a state. -/
  processedSize : ChainState C → C.Tx → ℕ
  /-- `maximum_block_size`, which no transaction changes. -/
  maximumBlockSize : ℕ
  /-- `skip_block_size_check`. -/
  skipBlockSizeCheck : Bool

namespace PackedProduction

variable (prod : PackedProduction C)

/-- The same for a node whose head state is `ix`. -/
def production (P : Protocol C) (ix : ChainState C) : Database.Production C where
  scheduled := prod.scheduled
  sign := prod.sign
  packSize := prod.packSize
  processedSize := prod.processedSize
  headerSize := maxBlockHeaderSize
  maximumBlockSize _ := prod.maximumBlockSize
  blockSize b :=
    packedBlockSize prod.witness (P.processedSizes prod.processedSize ix b.transactions)
  skipBlockSizeCheck := prod.skipBlockSizeCheck

/-- Each transaction that is taken still fits when it has been applied again: `total` is the
estimate before it, and `count` the number of transactions before it. -/
def ResultsFit (P : Protocol C) : ℕ → ℕ → ChainState C → List C.Tx → Prop
  | _, _, _, [] => True
  | count, total, ix, tx :: txs =>
    if total + prod.packSize tx ≥ prod.maximumBlockSize then ResultsFit P count total ix txs
    else
      match P.applyTransaction ix tx with
      | some ix' =>
        total + prod.processedSize ix tx +
            (varintSize prod.witness.toNat + varintSize (count + 1)) ≤ prod.maximumBlockSize + 5 ∧
          ResultsFit P (count + 1) (total + prod.processedSize ix tx) ix' txs
      | none => ResultsFit P count total ix txs

/-- The transactions that are taken from `txs`, as they are applied from `ix` on. -/
def taken (P : Protocol C) : ℕ → ChainState C → List C.Tx → List C.Tx
  | _, _, [] => []
  | total, ix, tx :: txs =>
    if total + prod.packSize tx ≥ prod.maximumBlockSize then taken P total ix txs
    else
      match P.applyTransaction ix tx with
      | some ix' => tx :: taken P (total + prod.processedSize ix tx) ix' txs
      | none => taken P total ix txs

theorem select_production (ix₀ : ChainState C) (txs : List C.Tx) :
    ∀ (total : ℕ) (ix : ChainState C),
      (prod.production P ix₀).select P prod.maximumBlockSize total ix txs =
        prod.taken P total ix txs := by
  induction txs with
  | nil => intro total ix; rfl
  | cons tx txs ih =>
    intro total ix
    rw [Database.Production.select, taken]
    simp only [ih]
    rfl

variable {prod}

/-- **The results fit just if the block does**, given that it does without these transactions. -/
theorem resultsFit_iff {txs : List C.Tx} : ∀ {count total : ℕ} {ix : ChainState C},
    total + (varintSize prod.witness.toNat + varintSize count) ≤ prod.maximumBlockSize + 5 →
    (prod.ResultsFit P count total ix txs ↔
      total + (P.processedSizes prod.processedSize ix (prod.taken P total ix txs)).sum +
        (varintSize prod.witness.toNat +
          varintSize (count + (prod.taken P total ix txs).length)) ≤
          prod.maximumBlockSize + 5) := by
  induction txs with
  | nil =>
    intro count total ix h
    simpa [ResultsFit, taken, Protocol.processedSizes] using h
  | cons tx txs ih =>
    intro count total ix h
    rw [ResultsFit, taken]
    by_cases hsize : total + prod.packSize tx ≥ prod.maximumBlockSize
    · rw [if_pos hsize, if_pos hsize]
      exact ih h
    · rw [if_neg hsize, if_neg hsize]
      cases happly : P.applyTransaction ix tx with
      | none => exact ih h
      | some ix' =>
        simp only [Protocol.processedSizes, happly, Option.elim_some, List.sum_cons,
          List.length_cons]
        have hcount :
            count + ((prod.taken P (total + prod.processedSize ix tx) ix' txs).length + 1) =
              count + 1 + (prod.taken P (total + prod.processedSize ix tx) ix' txs).length := by
          omega
        rw [hcount, ← Nat.add_assoc total]
        constructor
        · rintro ⟨hfits, hrest⟩
          exact (ih hfits).1 hrest
        · intro hsum
          -- the block only grows from here on
          have hmono : varintSize (count + 1) ≤ varintSize
              (count + 1 + (prod.taken P (total + prod.processedSize ix tx) ix' txs).length) :=
            varintSize_mono (Nat.le_add_right _ _)
          have hfits : total + prod.processedSize ix tx +
              (varintSize prod.witness.toNat + varintSize (count + 1)) ≤
              prod.maximumBlockSize + 5 := by omega
          exact ⟨hfits, (ih hfits).2 hsum⟩

theorem length_processedSizes_taken {txs : List C.Tx} : ∀ (total : ℕ) (ix : ChainState C),
    (P.processedSizes prod.processedSize ix (prod.taken P total ix txs)).length =
      (prod.taken P total ix txs).length := by
  induction txs with
  | nil => intro total ix; rfl
  | cons tx txs ih =>
    intro total ix
    rw [taken]
    split_ifs with hsize
    · exact ih total ix
    · cases happly : P.applyTransaction ix tx with
      | none => exact ih total ix
      | some ix' =>
        simp only [Protocol.processedSizes, happly, Option.elim_some, List.length_cons]
        rw [ih]

/-- The block that is put together fits just if the results do. -/
theorem blockSize_le_iff (prod : PackedProduction C)
    (hmin : minBlockSizeLimit ≤ prod.maximumBlockSize) (ix : ChainState C)
    (txs : List C.Tx) :
    (prod.production P ix).blockSize ((prod.production P ix).block P prod.maximumBlockSize ix txs) ≤
        prod.maximumBlockSize ↔
      prod.ResultsFit P 0 maxBlockHeaderSize ix txs := by
  have hzero : varintSize 0 = 1 := varintSize_of_lt (by omega)
  have hwitness := varintSize_uint32 prod.witness
  have hheader := maxBlockHeaderSize_eq
  rw [minBlockSizeLimit] at hmin
  rw [resultsFit_iff (by omega)]
  have htaken : ((prod.production P ix).block P prod.maximumBlockSize ix txs).transactions =
      prod.taken P maxBlockHeaderSize ix txs := prod.select_production ix txs _ _
  change packedBlockSize prod.witness (P.processedSizes prod.processedSize ix _) ≤ _ ↔ _
  rw [htaken, packedBlockSize, signedBlockHeaderSize, length_processedSizes_taken, hzero,
    Nat.zero_add, hheader]
  omega

/-- **Where no transaction has become larger**, the results fit, as long as the number of the
witness and the number of transactions are packed into six bytes. -/
theorem resultsFit_of_no_growth {txs : List C.Tx} (hgrow : ∀ tx ∈ txs, ∀ ix,
      prod.processedSize ix tx ≤ prod.packSize tx) : ∀ {count total : ℕ} {ix : ChainState C},
    varintSize prod.witness.toNat + varintSize (count + txs.length) ≤ 6 →
    prod.ResultsFit P count total ix txs := by
  induction txs with
  | nil => intro count total ix _; trivial
  | cons tx txs ih =>
    intro count total ix hsix
    have hrest : ∀ t ∈ txs, ∀ ix, prod.processedSize ix t ≤ prod.packSize t := fun t ht ↦
      hgrow t (List.mem_cons_of_mem _ ht)
    have hle : varintSize (count + txs.length) ≤ varintSize (count + (tx :: txs).length) :=
      varintSize_mono (Nat.add_le_add_left (Nat.le_succ _) _)
    rw [ResultsFit]
    split_ifs with hsize
    · exact ih hrest (by omega)
    · cases happly : P.applyTransaction ix tx with
      | none => exact ih hrest (by omega)
      | some ix' =>
        have hcount : varintSize (count + 1) ≤ varintSize (count + (tx :: txs).length) :=
          varintSize_mono (by rw [List.length_cons]; omega)
        have hlen : count + 1 + txs.length = count + (tx :: txs).length := by
          rw [List.length_cons]
          omega
        have hsmall := hgrow tx List.mem_cons_self ix
        exact ⟨by omega, ih hrest (by rw [hlen]; exact hsix)⟩

end PackedProduction

/-! ## What is pending afterwards -/

/-- The transactions that are pending after `txs` were pushed again: those that are not known and
still apply. -/
def Protocol.stillPending (P : Protocol C) : ChainState C → List C.Tx → List C.Tx
  | _, [] => []
  | ix, tx :: txs =>
    if P.isKnownTransaction ix tx then P.stillPending ix txs
    else
      match P.applyTransaction ix tx with
      | some ix' => tx :: P.stillPending ix' txs
      | none => P.stillPending ix txs

namespace Database.OnChain

variable {chain : List (SignedBlock C)} {d : Database C}

/-- Pushing one transaction again, with observers that do not throw. -/
theorem repushTransaction_pendingTx {obs : Observers C} (hquiet : obs.Quiet) {tx : C.Tx}
    (h : d.OnChain P g depth chain) (hP : P.TxNests depth tx) (txs : List C.Tx) :
    ∃ d', Database.repushTransaction P obs tx d = .ok () d' ∧ d'.OnChain P g depth chain ∧
      d'.poppedTx = d.poppedTx ∧
      d'.pendingTx ++ P.stillPending d'.state txs =
        d.pendingTx ++ P.stillPending d.state (tx :: txs) := by
  rw [Database.repushTransaction, bind_ok (get_apply d), Protocol.stillPending]
  split_ifs with hknown
  · exact ⟨d, rfl, h, rfl, rfl⟩
  · obtain ⟨d', hexit, hkeeps, -, hpopped, hout⟩ := h._pushTransaction_spec hP obs
    refine ⟨d', ?_, hkeeps.onChain, hpopped, ?_⟩
    · cases hrun : Database._pushTransaction P obs tx d with
      | ok a d₁ =>
        rw [hrun, exit_ok] at hexit
        rw [tryCatch_ok hrun, hexit]
      | error e d₁ =>
        rw [hrun, exit_error] at hexit
        rw [tryCatch_error hrun, hexit]
        rfl
    · rcases hout with ⟨happly, hpending⟩ | ⟨hnone, hstate, hpending⟩ | ⟨⟨d₂, hthrows⟩, -⟩
      · rw [happly, hpending, List.append_assoc]
        rfl
      · rw [hnone, hstate, hpending]
      · rw [hquiet d₂] at hthrows
        cases hthrows

/-- Pushing transactions again, with observers that do not throw. -/
theorem repushTransactions_pendingTx {obs : Observers C} (hquiet : obs.Quiet) {txs : List C.Tx}
    (h : d.OnChain P g depth chain) (hP : ∀ tx ∈ txs, P.TxNests depth tx) (rest : List C.Tx) :
    ∃ d', txs.forM (Database.repushTransaction P obs) d = .ok () d' ∧
      d'.OnChain P g depth chain ∧ d'.poppedTx = d.poppedTx ∧
      d'.pendingTx ++ P.stillPending d'.state rest =
        d.pendingTx ++ P.stillPending d.state (txs ++ rest) := by
  induction txs generalizing d with
  | nil => exact ⟨d, rfl, h, rfl, rfl⟩
  | cons tx txs ih =>
    obtain ⟨d₁, hrun₁, hon₁, hpopped₁, hpending₁⟩ :=
      h.repushTransaction_pendingTx hquiet (hP tx List.mem_cons_self) (txs ++ rest)
    obtain ⟨d₂, hrun₂, hon₂, hpopped₂, hpending₂⟩ :=
      ih hon₁ fun t ht ↦ hP t (List.mem_cons_of_mem _ ht)
    exact ⟨d₂, (bind_ok hrun₁).trans hrun₂, hon₂, hpopped₂.trans hpopped₁,
      hpending₂.trans hpending₁⟩

/-- **The destructor of `pending_transactions_restorer`** pushes everything again, in order. -/
theorem restorePending_pendingTx {obs : Observers C} (hquiet : obs.Quiet)
    (h : d.OnChain P g depth chain) (hP : P.Nests depth) (hnil : d.pendingTx = [])
    (pending : List C.Tx) :
    (exit (Database.restorePending P obs pending d)).pendingTx =
      P.stillPending d.state (d.poppedTx ++ pending) := by
  obtain ⟨d₁, hrun₁, hon₁, -, hpending₁⟩ :=
    h.repushTransactions_pendingTx hquiet (fun tx (_ : tx ∈ d.poppedTx) ↦ hP.tx tx) pending
  have hforget : ({ d₁ with poppedTx := [] } : Database C).OnChain P g depth chain :=
    ⟨hon₁.wf, hon₁.session, hon₁.room, hon₁.state_eq, hon₁.copies, hon₁.dgp_eq⟩
  obtain ⟨d₂, hrun₂, -, -, hpending₂⟩ :=
    hforget.repushTransactions_pendingTx hquiet (fun tx (_ : tx ∈ pending) ↦ hP.tx tx) []
  rw [Database.restorePending, bind_ok (get_apply d), bind_ok hrun₁, bind_ok (modify_apply _ d₁),
    hrun₂, exit_ok]
  rw [List.append_nil, Protocol.stillPending, List.append_nil] at hpending₂
  rw [hnil, List.nil_append] at hpending₁
  exact hpending₂.trans hpending₁

end Database.OnChain

/-- **A produced block fits just if the results of its transactions do.**  The block packs to at
most `maximum_block_size` bytes, and so the size assertion holds and the block is pushed with
everything that was pending still listed, if and only if every transaction that is taken, in the
size it has once it was applied again, still fits.  Afterwards everything that was pending is
pushed again, what was left out for its size included; and if the assertion fails, it is pending as
before. -/
theorem generated_block_fits_iff (hg : Base g) (hP : P.Nests depth) (hlag : P.Lags g depth)
    {d₀ d : Database C} (h₀ : d₀.Opened P g depth) (hrun : Reachable P d₀ d) (obs : Observers C)
    (prod : PackedProduction C) (hmin : minBlockSizeLimit ≤ prod.maximumBlockSize)
    (hscheduled : prod.scheduled d.state = true) :
    let packed := prod.production P d.headState
    let b := packed.block P prod.maximumBlockSize d.headState d.pendingTx
    (packed.blockSize b ≤ prod.maximumBlockSize ∧
        (∃ d', d'.headState = d.headState ∧ d'.pendingTx = d.pendingTx ∧
          exit (Database.generateBlock P obs packed d) = exit (Database.pushBlock P obs b d')) ↔
      prod.ResultsFit P 0 maxBlockHeaderSize d.headState d.pendingTx) ∧
    (prod.skipBlockSizeCheck = false → prod.maximumBlockSize < packed.blockSize b →
      (exit (Database.generateBlock P obs packed d)).pendingTx = d.pendingTx) ∧
    (obs.Quiet → packed.blockSize b ≤ prod.maximumBlockSize →
      ∃ d₁, d₁.headState = d.headState ∧ d₁.pendingTx = [] ∧
        (exit (Database.generateBlock P obs packed d)).pendingTx =
          P.stillPending (exit (Database._pushBlock P b d₁)).state
            ((exit (Database._pushBlock P b d₁)).poppedTx ++ d.pendingTx)) := by
  obtain ⟨chain, h⟩ := hrun.atRest hg hP hlag h₀
  intro packed b
  have hfits : packed.blockSize b ≤ prod.maximumBlockSize ↔
      prod.ResultsFit P 0 maxBlockHeaderSize d.headState d.pendingTx :=
    prod.blockSize_le_iff hmin d.headState d.pendingTx
  obtain ⟨d', hkeeps, hidle, hpending, hpopped, hcases⟩ :=
    h.toOnChain.generateBlock_scheduled (fun tx _ ↦ hP.tx tx) obs packed hscheduled
  refine ⟨⟨fun hb ↦ hfits.1 hb.1, fun hresults ↦ ⟨hfits.2 hresults, d', hkeeps.headState_eq,
    hpending, ?_⟩⟩, fun hskip hlarge ↦ ?_, fun hquiet hle ↦ ?_⟩
  · rcases hcases with ⟨-, hlarge, -⟩ | ⟨-, hexit⟩
    · exact absurd (hfits.2 hresults) (not_le.2 hlarge)
    · exact hexit
  · rcases hcases with ⟨-, -, hrun⟩ | ⟨hskip' | hle, -⟩
    · rw [hrun, exit_error, hpending]
    · rw [show packed.skipBlockSizeCheck = false from hskip] at hskip'
      cases hskip'
    · exact absurd hlarge (not_lt.2 hle)
  · rcases hcases with ⟨-, hlarge, -⟩ | ⟨-, hexit⟩
    · exact absurd hle (not_le.2 hlarge)
    · obtain ⟨d₁, d₂, d₃, chain₂, -, -, hkeeps₁, -, hpending₁, -, rfl, hrest₂, -, hpending₂,
        hrestore, -, -, -, heq⟩ := (h.keeps hkeeps).pushBlock_eq hg hP hlag obs b
      have hpushed : exit (Database.pushBlock P obs b d') = d₃ := by
        rw [heq]
        split <;> rfl
      refine ⟨d₁, hkeeps₁.headState_eq.trans hkeeps.headState_eq, hpending₁, ?_⟩
      rw [hexit]
      change (exit (Database.pushBlock P obs b d')).pendingTx = _
      rw [hpushed, ← hpending, ← hrest₂.toOnChain.restorePending_pendingTx hquiet hP hpending₂,
        hrestore, exit_ok]

/-- **Where no transaction has become larger**, the block fits, as long as the number of the witness
and the number of transactions are packed into six bytes. -/
theorem generated_block_fits_of_no_growth {prod : PackedProduction C}
    (hmin : minBlockSizeLimit ≤ prod.maximumBlockSize) (ix : ChainState C) {pending : List C.Tx}
    (hgrow : ∀ tx ∈ pending, ∀ ix, prod.processedSize ix tx ≤ prod.packSize tx)
    (hsix : varintSize prod.witness.toNat + varintSize pending.length ≤ 6) :
    (prod.production P ix).blockSize
      ((prod.production P ix).block P prod.maximumBlockSize ix pending) ≤ prod.maximumBlockSize :=
  (prod.blockSize_le_iff hmin ix pending).2
    (PackedProduction.resultsFit_of_no_growth hgrow (by rwa [Nat.zero_add]))

namespace Testnet

/-- A production at the smallest limit: transactions of 5000 bytes, which are `size` bytes once they
were applied again. -/
def packedProduction (size : ℕ) : PackedProduction types where
  scheduled _ := true
  sign _ _ := 0
  witness := 0
  packSize _ := 5000
  processedSize _ _ := size
  maximumBlockSize := minBlockSizeLimit
  skipBlockSizeCheck := false

/-- A node with a pending transaction. -/
def pendingNode : Database types := (Call.pushTransaction quiet .pay).exec protocol node

theorem pendingNode_reachable : Reachable protocol node pendingNode :=
  .call .refl (.pushTransaction quiet .pay) trivial

theorem pendingNode_pendingTx : pendingNode.pendingTx = [.pay] := by decide +kernel

theorem pendingNode_applies :
    (protocol.applyTransaction pendingNode.headState .pay).isSome = true := by decide +kernel

theorem packedProduction_min (size : ℕ) :
    minBlockSizeLimit ≤ (packedProduction size).maximumBlockSize := le_of_eq rfl

theorem not_resultsFit_grown {prod : PackedProduction types} {ix : ChainState types}
    (hpack : prod.packSize .pay = 5000) (hprocessed : prod.processedSize ix .pay = 5010)
    (hmax : prod.maximumBlockSize = minBlockSizeLimit)
    (happlies : (protocol.applyTransaction ix .pay).isSome = true) :
    ¬prod.ResultsFit protocol 0 maxBlockHeaderSize ix [.pay] := by
  obtain ⟨ix', happly⟩ := Option.isSome_iff_exists.1 happlies
  have hwitness := varintSize_pos prod.witness.toNat
  have hcount := varintSize_pos (0 + 1)
  rw [PackedProduction.ResultsFit, happly, hpack, hprocessed, hmax, maxBlockHeaderSize_eq,
    minBlockSizeLimit, if_neg (by omega)]
  rintro ⟨hle, -⟩
  omega

/-- The transaction has grown by ten bytes, and the block is too large. -/
theorem grown_transaction_oversizes_block :
    Reachable protocol node pendingNode ∧
      minBlockSizeLimit ≤ (packedProduction 5010).maximumBlockSize ∧
      (packedProduction 5010).scheduled pendingNode.state = true ∧
      ¬((packedProduction 5010).production protocol pendingNode.headState).blockSize
        (((packedProduction 5010).production protocol pendingNode.headState).block protocol
          (packedProduction 5010).maximumBlockSize pendingNode.headState pendingNode.pendingTx) ≤
        (packedProduction 5010).maximumBlockSize := by
  refine ⟨pendingNode_reachable, packedProduction_min 5010, rfl, ?_⟩
  rw [(packedProduction 5010).blockSize_le_iff (packedProduction_min 5010), pendingNode_pendingTx]
  exact not_resultsFit_grown rfl rfl rfl pendingNode_applies

theorem generated_block_fits_pay :
    ((packedProduction 5000).production protocol pendingNode.headState).blockSize
        (((packedProduction 5000).production protocol pendingNode.headState).block protocol
          (packedProduction 5000).maximumBlockSize pendingNode.headState pendingNode.pendingTx) ≤
        (packedProduction 5000).maximumBlockSize := by
  have hfits : ∀ prod : PackedProduction types, minBlockSizeLimit ≤ prod.maximumBlockSize →
      prod.scheduled pendingNode.state = true → prod.witness = 0 →
      (∀ ix tx, prod.processedSize ix tx ≤ prod.packSize tx) →
      (prod.production protocol pendingNode.headState).blockSize
        ((prod.production protocol pendingNode.headState).block protocol prod.maximumBlockSize
          pendingNode.headState pendingNode.pendingTx) ≤ prod.maximumBlockSize := by
    intro prod hmin hscheduled hwitness hgrow
    obtain ⟨⟨-, hfits⟩, -⟩ := generated_block_fits_iff base nests lags node_opened
      pendingNode_reachable quiet prod hmin hscheduled
    refine (hfits (PackedProduction.resultsFit_of_no_growth (fun tx _ ix ↦ hgrow ix tx) ?_)).1
    rw [pendingNode_pendingTx, hwitness, UInt32.toNat_zero, varintSize_of_lt (by omega),
      varintSize_of_lt (by decide)]
    decide
  exact hfits _ (packedProduction_min 5000) rfl rfl fun _ _ ↦ Nat.le_refl 5000

end Testnet

end Graphene
