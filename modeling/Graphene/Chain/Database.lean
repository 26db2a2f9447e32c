import Graphene.Chain.BlockDatabase
import Graphene.Chain.ForkDatabase
import Graphene.Lib.Throwing

/-!
# The node

`database` is three machines side by side — the objects with their undo states, the fork database
and the block log — and the transactions that are pending on top of the head block.  This is
`db_block.cpp`, call by call, in a monad in which an exception keeps what was done before it: what
is taken back is taken back by a session's destructor, by a handler, or not at all.

* `Database.popBlock`, `_pushBlock` — blocks, with the switch to a longer fork in `switchFork`.
* `_pushTransaction`, `clearPending`, `withoutPendingTransactions` — pending transactions.
* `pushBlock`, `pushTransaction`, `generateBlock` — the public calls.

A destructor that throws ends the process, and a `none` of `Session.destroy` stands for that; it is
passed on as an exception here, and the invariants show that it does not happen.
-/

set_option autoImplicit false

namespace Graphene

open Throwing

/-- `database`. -/
structure Database (C : ChainTypes) where
  /-- The `object_database` it derives from. -/
  objects : ObjectDatabase (ChainObject C)
  /-- `_fork_db`. -/
  forkDb : ForkDatabase C := {}
  /-- `_block_id_to_block`. -/
  blockIdToBlock : BlockDatabase C := {}
  /-- `_pending_tx`; the operation results of a processed transaction are ignored when it is
  pushed again, and left out. -/
  pendingTx : List C.Tx := []
  /-- `_pending_tx_session`. -/
  pendingTxSession : Option Session := none
  /-- `_popped_tx`. -/
  poppedTx : List C.Tx := []

/-- Programs on a database: they return or throw, and either way leave a database. -/
abbrev DatabaseM (C : ChainTypes) := EStateM Unit (Database C)

/-- The callbacks of the plugins: whether they throw on the database they find. -/
structure Observers (C : ChainTypes) where
  /-- `changed_objects`. -/
  changedObjects : Database C → Bool
  /-- `on_pending_transaction`. -/
  pendingTransaction : Database C → C.Tx → Bool

variable {C : ChainTypes}

namespace Database

/-- The state of the chain, with whatever is pending. -/
def state (d : Database C) : ChainState C := d.objects.indexes

/-- `fetch_block_by_id`. -/
def fetchBlockById (P : Protocol C) (d : Database C) (id : BlockId C) : Option (SignedBlock C) :=
  match d.forkDb.fetchBlock P id with
  | some item => some item.data
  | none => d.blockIdToBlock.fetchOptional P id

/-- `fetch_block_by_number`. -/
def fetchBlockByNumber (P : Protocol C) (d : Database C) (num : ℕ) : Option (SignedBlock C) :=
  match d.forkDb.fetchBlockByNumber num with
  | [item] => some item.data
  | _ => d.blockIdToBlock.fetchByNumber P num

/-- `get_block_id_for_num`. -/
def getBlockIdForNum (d : Database C) (num : ℕ) : Option (BlockId C) :=
  d.blockIdToBlock.fetchBlockId num

/-! ## The three machines -/

/-- A call of the object database. -/
def onObjects (f : ObjectDatabase (ChainObject C) → Option (ObjectDatabase (ChainObject C))) :
    DatabaseM C Unit := fun d ↦
  match f d.objects with
  | some objects => .ok () { d with objects }
  | none => .error () d

/-- A call of the fork database. -/
def onForkDb (f : ForkDatabase C → Option (ForkDatabase C)) : DatabaseM C Unit := fun d ↦
  match f d.forkDb with
  | some forkDb => .ok () { d with forkDb }
  | none => .error () d

/-- A call of the block log. -/
def onLog (f : BlockDatabase C → Option (BlockDatabase C)) : DatabaseM C Unit := fun d ↦
  match f d.blockIdToBlock with
  | some blockIdToBlock => .ok () { d with blockIdToBlock }
  | none => .error () d

/-- Run the script an evaluator comes to on the current state. -/
def run (f : ChainState C → Script (ChainObject C)) : DatabaseM C Unit := fun d ↦
  match (f d.state).exec d.objects with
  | (true, objects) => .ok () { d with objects }
  | (false, objects) => .error () { d with objects }

/-! ## Undo sessions -/

/-- `_undo_db.start_undo_session()`. -/
def startUndoSession : DatabaseM C Session := fun d ↦
  let (objects, s) := d.objects.startUndoSession
  .ok s { d with objects }

/-- Run `body` in an undo session and end it with `finish`; if either throws, the destructor of the
session undoes it. -/
def inSession {α : Type}
    (finish : Session → ObjectDatabase (ChainObject C) →
      Option (ObjectDatabase (ChainObject C) × Session)) (body : DatabaseM C α) :
    DatabaseM C α := do
  let s ← startUndoSession
  tryCatch
    (do
      let a ← body
      onObjects fun db ↦ (finish s db).map Prod.fst
      return a)
    fun e ↦ do
      onObjects s.destroy
      throw e

/-- `_pending_tx_session.reset()`. -/
def resetPendingTxSession : DatabaseM C Unit := do
  let d ← get
  match d.pendingTxSession with
  | none => return ()
  | some s =>
    onObjects s.destroy
    modify fun d ↦ { d with pendingTxSession := none }

/-! ## Applying blocks -/

variable (P : Protocol C)

/-- `_apply_transaction`. -/
def applyTransaction (tx : C.Tx) : DatabaseM C Unit := run fun ix ↦ (P.evaluateTransaction ix tx).1

/-- Both `set_max_size`. -/
def setMaxSize (d : Database C) (s : ℕ) : Database C :=
  { d with
    objects := { d.objects with undoDb := { d.objects.undoDb with maxSize := s } }
    forkDb := d.forkDb.setMaxSize s }

/-- The end of `update_global_dynamic_data`. -/
def updateMaxSizes : DatabaseM C Unit :=
  modify fun d ↦ d.setMaxSize (d.state.headBlockNum - d.state.lastIrreversible + 1)

/-- `_apply_block` up to the point where `update_global_dynamic_data` has set the head block. -/
def applyUntilHead (b : SignedBlock C) : DatabaseM C Unit := do
  let d ← get
  if P.Checks d.state b then
    b.transactions.forM (applyTransaction P)
    run fun ix ↦ (P.countMissed ix b).1
    run fun ix ↦ P.updateHead ix b
  else throw ()

/-- The rest of `_apply_block`. -/
def applyFromHead (b : SignedBlock C) : DatabaseM C Unit := do
  let d ← get
  if d.state.headBlockNum - d.state.lastIrreversible < maxUndoHistory then
    updateMaxSizes
    run fun ix ↦ (P.updateSigningWitness ix b).1
    run P.updateLastIrreversible
    run fun ix ↦ (P.finishBlock ix b).1
  else throw ()

/-- `_apply_block`. -/
def applyBlock (b : SignedBlock C) : DatabaseM C Unit := do
  applyUntilHead P b
  applyFromHead P b

/-- Apply a block in a session of its own and append it to the log under `id`. -/
def applyAndStore (id : BlockId C) (b : SignedBlock C) : DatabaseM C Unit :=
  inSession Session.commit do
    applyBlock P b
    onLog fun log ↦ some (log.store P id b)

/-- `pop_block`. -/
def popBlock : DatabaseM C Unit := do
  resetPendingTxSession
  let d ← get
  let headId := d.state.headBlockId
  match d.fetchBlockById P headId with
  | none => throw ()
  | some headBlock =>
    onForkDb ForkDatabase.popBlock
    onLog (·.remove headId)
    onObjects ObjectDatabase.popCommit
    modify fun d ↦ { d with poppedTx := headBlock.transactions ++ d.poppedTx }

/-- `while( head_block_id() != id ) pop_block()`; the fuel is one more than the length of the undo
stack, and every `pop_block` that returns shortens it. -/
def popUntil (id : BlockId C) : ℕ → DatabaseM C Unit
  | 0 => throw ()
  | n + 1 => do
    let d ← get
    if d.state.headBlockId ≠ id then
      popBlock P
      popUntil id n
    else return ()

/-- Pop blocks until the head block is `id`. -/
def popTo (id : BlockId C) : DatabaseM C Unit := do
  let d ← get
  popUntil P id (d.objects.undoDb.stack.length + 1)

/-! ## Pushing blocks -/

/-- The handler of `_push_block` for a block of the new fork that does not apply: `bad` are that
block and the rest of its branch, `front` is the head block and `old` the branch it is on, oldest
first, from above the block `base`. -/
def restoreFork (newBlock : SignedBlock C) (bad : List (ForkItem C)) (front : ForkItem C)
    (base : BlockId C) (old : List (ForkItem C)) : DatabaseM C Unit := do
  bad.forM fun x ↦ onForkDb fun f ↦ some (f.remove P (P.itemId x))
  onForkDb fun f ↦ some (f.setHead front)
  popTo P base
  old.forM fun x ↦ applyAndStore P (P.blockId newBlock) x.data
  throw ()

/-- The loop of `_push_block` over the blocks of the new fork, oldest first. -/
def applyFork (newBlock : SignedBlock C) (front : ForkItem C) (base : BlockId C)
    (old : List (ForkItem C)) : List (ForkItem C) → DatabaseM C Unit
  | [] => return ()
  | x :: xs => do
    tryCatch (applyAndStore P (P.itemId x) x.data)
      fun _ ↦ restoreFork P newBlock (x :: xs) front base old
    applyFork newBlock front base old xs

/-- The switch from the head block to the longer fork that ends in `newHead`.  The two vectors keep
the items of both branches alive until it is over. -/
def switchFork (newBlock : SignedBlock C) (newHead : ForkItem C) : DatabaseM C Unit := do
  let d ← get
  match d.forkDb.fetchBranchFrom P (P.itemId newHead) d.state.headBlockId with
  | none => throw ()
  | some (first, second) =>
    match second.head?, second.getLast? with
    | some front, some back =>
      modify fun d ↦ { d with forkDb := { d.forkDb with held := first ++ second } }
      ensure
        (do
          popTo P back.previousId
          applyFork P newBlock front back.previousId second.reverse first.reverse)
        (modify fun d ↦ { d with forkDb := { d.forkDb with held := [] } })
    | _, _ => throw ()

/-- `_push_block`, with fork checking enabled. -/
def _pushBlock (newBlock : SignedBlock C) : DatabaseM C Bool := do
  onForkDb (·.pushBlock P newBlock)
  let d ← get
  match d.forkDb.head with
  | none => throw ()
  | some newHead =>
    if newHead.previousId ≠ d.state.headBlockId then
      if newHead.num > d.state.headBlockNum then
        switchFork P newBlock newHead
        return true
      else return false
    else
      tryCatch (applyAndStore P (P.blockId newBlock) newBlock) fun _ ↦ do
        onForkDb fun f ↦ some (f.remove P (P.blockId newBlock))
        throw ()
      return false

/-! ## Pending transactions -/

/-- `clear_pending`. -/
def clearPending : DatabaseM C Unit := do
  modify fun d ↦ { d with pendingTx := [] }
  resetPendingTxSession

variable (obs : Observers C)

/-- A callback that throws or returns. -/
def notify (throws : Database C → Bool) : DatabaseM C Unit := do
  let d ← get
  if throws d then throw () else return ()

/-- The start of `_push_transaction`: the pending session is opened if it is not. -/
def startPendingTxSession : DatabaseM C Unit := do
  let d ← get
  match d.pendingTxSession with
  | some _ => return ()
  | none =>
    let s ← startUndoSession
    modify fun d ↦ { d with pendingTxSession := some s }

/-- `_push_transaction`. -/
def _pushTransaction (tx : C.Tx) : DatabaseM C Unit := do
  startPendingTxSession
  inSession Session.merge do
    applyTransaction P tx
    modify fun d ↦ { d with pendingTx := d.pendingTx ++ [tx] }
    notify obs.changedObjects
  notify (obs.pendingTransaction · tx)

/-- `push_transaction`. -/
def pushTransaction (tx : C.Tx) : DatabaseM C Unit := _pushTransaction P obs tx

/-- The body of the loops in the destructor of `pending_transactions_restorer`. -/
def repushTransaction (tx : C.Tx) : DatabaseM C Unit := do
  let d ← get
  if P.isKnownTransaction d.state tx then return ()
  else tryCatch (_pushTransaction P obs tx) fun _ ↦ return ()

/-- The destructor of `pending_transactions_restorer`. -/
def restorePending (pending : List C.Tx) : DatabaseM C Unit := do
  let d ← get
  d.poppedTx.forM (repushTransaction P obs)
  modify fun d ↦ { d with poppedTx := [] }
  pending.forM (repushTransaction P obs)

/-- `without_pending_transactions`. -/
def withoutPendingTransactions {α : Type} (body : DatabaseM C α) : DatabaseM C α := do
  let d ← get
  clearPending
  ensure body (restorePending P obs d.pendingTx)

/-- `push_block`. -/
def pushBlock (newBlock : SignedBlock C) : DatabaseM C Bool :=
  withoutPendingTransactions P obs (_pushBlock P newBlock)

/-! ## Producing blocks -/

/-- What `generate_block` is called with, and what it reads besides. -/
structure Production (C : ChainTypes) where
  /-- The slot is the witness's, and the key is its signing key. -/
  scheduled : ChainState C → Bool
  /-- The header with the timestamp, the witness and the signature. -/
  sign : BlockId C → C.Digest → C.Content
  /-- `pack_size` of a pending transaction. -/
  packSize : C.Tx → ℕ
  /-- `pack_size` of a transaction once processed on a state. -/
  processedSize : ChainState C → C.Tx → ℕ
  /-- `max_block_header_size`. -/
  headerSize : ℕ
  /-- `maximum_block_size`. -/
  maximumBlockSize : ChainState C → ℕ
  /-- `pack_size` of a block. -/
  blockSize : SignedBlock C → ℕ
  /-- `skip_block_size_check`. -/
  skipBlockSizeCheck : Bool

variable (prod : Production C)

/-- The body of the loop of `_generate_block`: whether a pending transaction still applies. -/
def tryTransaction (tx : C.Tx) : DatabaseM C Bool :=
  tryCatch
    (do
      inSession Session.merge (applyTransaction P tx)
      return true)
    fun _ ↦ return false

/-- The loop of `_generate_block` over the pending transactions: those that fit and still apply. -/
def selectTransactions (maximum : ℕ) : ℕ → List C.Tx → DatabaseM C (List C.Tx)
  | _, [] => return []
  | total, tx :: txs => do
    if total + prod.packSize tx ≥ maximum then selectTransactions maximum total txs
    else
      let d ← get
      if ← tryTransaction P tx then
        return tx :: (← selectTransactions maximum (total + prod.processedSize d.state tx) txs)
      else selectTransactions maximum total txs

/-- `generate_block`. -/
def generateBlock : DatabaseM C (SignedBlock C) := do
  let d ← get
  if prod.scheduled d.state then
    resetPendingTxSession
    let s ← startUndoSession
    modify fun d ↦ { d with pendingTxSession := some s }
    let txs ← selectTransactions P prod (prod.maximumBlockSize d.state) prod.headerSize d.pendingTx
    resetPendingTxSession
    let d ← get
    let previous := d.state.headBlockId
    let root := P.calculateMerkleRoot txs
    let b : SignedBlock C := ⟨⟨previous, root, prod.sign previous root⟩, txs⟩
    if prod.skipBlockSizeCheck || prod.blockSize b ≤ prod.maximumBlockSize d.state then
      let _ ← pushBlock P obs b
      return b
    else throw ()
  else throw ()

end Database

end Graphene
