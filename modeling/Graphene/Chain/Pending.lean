import Graphene.Chain.Sessions

/-!
# What pending transactions do to a node

A transaction is evaluated in a session of its own inside the pending session; both can drop old
copies from the undo stack, and neither touches the blocks.

The pending state is nothing but the top of the undo stack, so all that could go wrong lies in the
sessions: one that is not undone when evaluation throws, or one that drops the copies that a later
`pop_block` needs.  Each exit of `_push_transaction` is followed to its end for that reason, and the
two ends of `without_pending_transactions` are put together from them.

* `Keeps` — the head state, the fork database, the log and the chain are the same, and the copies
  of the newest blocks are still there.
* `_pushTransaction_spec` — what pushing a transaction leaves, at each of its exits.
* `Database.PendingOk` — the pending state is the head state with the pending transactions applied.
* `clearPending_spec`, `restorePending_spec` — the two ends of `without_pending_transactions`.
-/

set_option autoImplicit false

namespace Graphene

open Throwing

variable {C : ChainTypes} {P : Protocol C} {g : ChainState C} {depth : ℕ}

/-- From `d` to `d'` only pending transactions have come and gone, at most `lost` copies being
pushed out by them. -/
structure Keeps (P : Protocol C) (g : ChainState C) (depth : ℕ) (chain : List (SignedBlock C))
    (d d' : Database C) : Prop where
  /-- The node is still at the end of the chain. -/
  onChain : d'.OnChain P g depth chain
  /-- The head state is the same. -/
  headState_eq : d'.headState = d.headState
  /-- The fork database is the same. -/
  forkDb_eq : d'.forkDb = d.forkDb
  /-- The log is the same. -/
  log_eq : d'.blockIdToBlock = d.blockIdToBlock
  /-- The bound on the undo stack is the same. -/
  maxSize_eq : d'.maxSize = d.maxSize
  /-- The newest copies are still there. -/
  copies : Kept d.headState (d.maxSize - (depth + 1)) d.copies d'.copies

namespace Keeps

variable {chain : List (SignedBlock C)} {d d' d'' : Database C}

theorem refl (h : d.OnChain P g depth chain) : Keeps P g depth chain d d where
  onChain := h
  headState_eq := rfl
  forkDb_eq := rfl
  log_eq := rfl
  maxSize_eq := rfl
  copies := Kept.refl _ _ _

theorem trans (h : Keeps P g depth chain d d') (h' : Keeps P g depth chain d' d'') :
    Keeps P g depth chain d d'' where
  onChain := h'.onChain
  headState_eq := h'.headState_eq.trans h.headState_eq
  forkDb_eq := h'.forkDb_eq.trans h.forkDb_eq
  log_eq := h'.log_eq.trans h.log_eq
  maxSize_eq := h'.maxSize_eq.trans h.maxSize_eq
  copies := by
    have hcopies := h'.copies
    rw [h.headState_eq, h.maxSize_eq] at hcopies
    exact (h.copies.trans hcopies).mono (le_min le_rfl le_rfl)

end Keeps

/-! ## A session inside the pending one -/

/-- What a temporary session is started on, and what is under it. -/
theorem Database.OnChain.nest {chain : List (SignedBlock C)} {d : Database C}
    (h : d.OnChain P g depth chain) (hsome : d.pendingTxSession = some {}) :
    ∃ d₁, Database.startUndoSession d = .ok {} d₁ ∧ d₁.objects.WF ∧ d₁.state = d.state ∧
      d₁.maxSize = d.maxSize ∧ d₁.objects.undoDb.activeSessions = 2 ∧
      d₁.objects.history = d.state :: d.headState :: d.copies.take (d.maxSize - 1) ∧
      d₁ = { d with objects := d₁.objects } := by
  rcases h.session with ⟨hidle, -⟩ | ⟨-, hactive, hne⟩
  · rw [hsome] at hidle
    cases hidle
  · obtain ⟨objects, hstart, hwf, hix, hhist, hactive', hmax⟩ := h.wf.startUndoSession false
    obtain ⟨ix, rest, hh⟩ : ∃ ix rest, d.objects.history = ix :: rest :=
      List.exists_cons_of_ne_nil hne
    have hroom := h.room
    rw [Database.maxSize] at hroom
    obtain ⟨m, hm⟩ : ∃ m, d.objects.undoDb.maxSize = m + 1 :=
      ⟨d.objects.undoDb.maxSize - 1, by omega⟩
    refine ⟨{ d with objects }, ?_, hwf, hix, hmax, ?_, ?_, rfl⟩
    · rw [Database.startUndoSession, hstart]
    · rw [hactive', hactive]
    · have hhead : d.headState = ix := by simp [Database.headState, hsome, hh]
      have hcopies : d.copies = rest := by simp [Database.copies, hsome, hh]
      change objects.history = _
      rw [hhist, hh, hhead, hcopies, Database.maxSize, hm, List.take_succ_cons, Nat.add_sub_cancel]
      rfl

/-- Taking the temporary session off again, with the objects `objects` and `k` copies left. -/
theorem Database.OnChain.unnest {chain : List (SignedBlock C)} {d d' : Database C}
    (h : d.OnChain P g depth chain) (hsome : d'.pendingTxSession = some {})
    (hwf : d'.objects.WF) (hactive : d'.objects.undoDb.activeSessions = 1)
    (hmax : d'.maxSize = d.maxSize) (hfork : d'.forkDb = d.forkDb)
    (hlog : d'.blockIdToBlock = d.blockIdToBlock)
    (hdgp : ∀ dgp, d.state.dgp? = some dgp → d'.state.dgp? = some dgp) {k : ℕ}
    (hk : d.maxSize ≤ k + depth + 1)
    (hhist : d'.objects.history = d.headState :: d.copies.take k) : Keeps P g depth chain d d' := by
  have hhead : d'.headState = d.headState := by simp [Database.headState, hsome, hhist]
  have hcopies : d'.copies = d.copies.take k := by simp [Database.copies, hsome, hhist]
  refine ⟨⟨hwf, Or.inr ⟨hsome, hactive, ?_⟩, hmax ▸ h.room, ?_, ?_, ?_⟩, hhead, hfork, hlog, hmax,
    k, Nat.sub_le_of_le_add (hk.trans_eq (Nat.add_assoc k depth 1)), Or.inl hcopies⟩
  · rw [hhist]
    exact List.cons_ne_nil _ _
  · rw [hhead]
    exact h.state_eq
  · rw [hcopies]
    exact h.copies.take k
  · rw [hhead]
    exact fun dgp hd ↦ hdgp dgp (h.dgp_eq dgp hd)

/-- **A transaction evaluated in its own session** inside the pending one, when what follows its
evaluation in the session, `after`, touches the list of pending transactions alone. -/
theorem inTransaction_spec {chain : List (SignedBlock C)} {d : Database C}
    (h : d.OnChain P g depth chain) (hsome : d.pendingTxSession = some {}) {tx : C.Tx}
    (hP : P.TxNests depth tx) {after : DatabaseM C Unit} {pendingTx : List C.Tx}
    (throws : Database C → Bool)
    (hafter : ∀ d₂ : Database C, d₂.pendingTx = d.pendingTx → after d₂ =
      if throws { d₂ with pendingTx } then .error () { d₂ with pendingTx }
      else .ok () { d₂ with pendingTx }) :
    ∃ d', Keeps P g depth chain d d' ∧ d'.pendingTxSession = some {} ∧ d'.poppedTx = d.poppedTx ∧
      (P.applyTransaction d.state tx = none ∧ d'.state = d.state ∧ d'.pendingTx = d.pendingTx ∧
          Database.inSession Session.merge (do Database.applyTransaction P tx; after) d =
            .error () d' ∨
        P.applyTransaction d.state tx = some d'.state ∧ d'.pendingTx = pendingTx ∧
          Database.inSession Session.merge (do Database.applyTransaction P tx; after) d =
            .ok () d' ∨
        (∃ d₂, throws d₂ = true) ∧ d'.state = d.state ∧ d'.pendingTx = pendingTx ∧
          Database.inSession Session.merge (do Database.applyTransaction P tx; after) d =
            .error () d') := by
  obtain ⟨d₁, hstart, hwf₁, hstate₁, hmax₁, hactive₁, hhist₁, heq₁⟩ := h.nest hsome
  have hroom := h.room
  obtain ⟨d₂, h₂⟩ := run_does hwf₁ (by rw [hhist₁]; exact List.cons_ne_nil _ _)
    (Nat.le_of_succ_le (hmax₁ ▸ hroom)) (f := fun ix ↦ (P.evaluateTransaction ix tx).1)
    (hP d₁.state)
  have hwithin := h₂.1
  obtain ⟨k, hk, hle⟩ := hwithin.history
  rw [hmax₁] at hle
  obtain ⟨j, rfl⟩ : ∃ j, k = j + 2 := ⟨k - 2, by omega⟩
  have hhist₂ : d₂.objects.history =
      d.state :: d.headState :: d.copies.take (min j (d.maxSize - 1)) := by
    rw [hk, hhist₁, List.take_succ_cons, List.take_succ_cons, List.take_take]
  have hactive₂ : d₂.objects.undoDb.activeSessions = 2 := hwithin.active.trans hactive₁
  have hmax₂ : d₂.maxSize = d.maxSize := hwithin.maxSize_eq.trans hmax₁
  have heq₂ : d₂ = { d with objects := d₂.objects } := by rw [hwithin.eq, heq₁]
  have hkeep : d.maxSize ≤ min j (d.maxSize - 1) + depth + 1 := by omega
  -- taking the session off, whatever has become of the list of pending transactions
  have htakeOff : ∀ (objects : ObjectDatabase (ChainObject C)) (txs : List C.Tx), objects.WF →
      objects.undoDb.activeSessions = 1 → objects.undoDb.maxSize = d₂.maxSize →
      objects.history = d.headState :: d.copies.take (min j (d.maxSize - 1)) →
      (∀ dgp, d.state.dgp? = some dgp → objects.indexes.dgp? = some dgp) →
      Keeps P g depth chain d { d₂ with objects, pendingTx := txs } := by
    intro objects txs hwf hactive hmax hhist hdgp
    have hmax' : ({ d₂ with objects, pendingTx := txs } : Database C).maxSize = d.maxSize :=
      hmax.trans hmax₂
    refine h.unnest ?_ hwf hactive hmax' ?_ ?_ hdgp hkeep hhist
    · rw [heq₂]
      exact hsome
    · rw [heq₂]
    · rw [heq₂]
  obtain ⟨undone, hundo, hwfu, hixu, hhistu, hactiveu, hmaxu⟩ :=
    hwithin.wf.undo (by rw [hactive₂]; exact two_ne_zero) hhist₂
  obtain ⟨merged, hmerge, hwfm, hixm, hhistm, hactivem, hmaxm⟩ :=
    hwithin.wf.merge (by rw [hactive₂]; exact two_ne_zero) hhist₂
  have hpop₂ : d₂.poppedTx = d.poppedTx := by rw [heq₂]
  have hpend₂ : d₂.pendingTx = d.pendingTx := by rw [heq₂]
  have hsome₂ : d₂.pendingTxSession = some {} := by rw [heq₂]; exact hsome
  cases hr : P.applyTransaction d.state tx with
  | none =>
    have hr₁ : (P.evaluateTransaction d₁.state tx).1.eval d₁.state = none := hstate₁ ▸ hr
    obtain ⟨-, herr⟩ := h₂.of_none hr₁
    refine ⟨{ d₂ with objects := undone }, ?_, hsome₂, hpop₂,
      Or.inl ⟨rfl, hixu, hpend₂, inSession_error hstart (bind_error herr)
        ((destroy_eq_undo _).trans hundo)⟩⟩
    exact htakeOff undone d₂.pendingTx hwfu (by omega) hmaxu (by simpa using hhistu)
      fun dgp hdgp ↦ by rwa [hixu]
  | some ix =>
    have hr₁ : (P.evaluateTransaction d₁.state tx).1.eval d₁.state = some ix := hstate₁ ▸ hr
    obtain ⟨-, hok, hix⟩ := h₂.of_some hr₁
    have hbody : (do Database.applyTransaction P tx; after) d₁ = after d₂ := bind_ok hok
    rw [hafter d₂ hpend₂] at hbody
    cases hthrows : throws { d₂ with pendingTx } with
    | true =>
      rw [if_pos hthrows] at hbody
      refine ⟨{ d₂ with objects := undone, pendingTx }, htakeOff undone pendingTx hwfu (by omega)
        hmaxu (by simpa using hhistu) fun dgp hdgp ↦ by rwa [hixu], hsome₂, hpop₂,
        Or.inr (Or.inr ⟨⟨_, hthrows⟩, hixu, rfl,
        inSession_error hstart hbody ((destroy_eq_undo _).trans hundo)⟩)⟩
    | false =>
      rw [if_neg (by rw [hthrows]; exact Bool.false_ne_true)] at hbody
      have hmerge' : Session.merge {} d₂.objects = some (merged, { applyUndo := false }) := by
        rw [Session.merge, if_pos rfl, hmerge]
        rfl
      refine ⟨{ d₂ with objects := merged, pendingTx }, htakeOff merged pendingTx hwfm (by omega)
        hmaxm hhistm fun dgp hdgp ↦ ?_, hsome₂, hpop₂,
        Or.inr (Or.inl ⟨?_, rfl, inSession_ok hstart hbody hmerge'⟩)⟩
      · rw [hixm]
        change d₂.state.dgp? = some dgp
        rw [hix]
        exact (P.evaluateTransaction d.state tx).dgp?_eq hdgp hr
      · rw [← hix]
        exact congrArg some hixm.symm

namespace Database.OnChain

variable {chain : List (SignedBlock C)} {d : Database C}

/-- Opening the pending session. -/
theorem startPending (h : d.OnChain P g depth chain) (hidle : d.pendingTxSession = none) :
    ∃ objects, Database.startUndoSession d = .ok {} { d with objects } ∧
      objects.indexes = d.state ∧
      Keeps P g depth chain d { d with objects, pendingTxSession := some {} } := by
  obtain ⟨objects, hstart, hwf, hix, hhist, hactive, hmax⟩ := h.wf.startUndoSession false
  have hcopies : objects.history.tail = d.copies.take d.maxSize := by
    rw [hhist, ← history_eq_copies hidle]
    rfl
  have hhead : objects.history.headD objects.indexes = d.headState := by
    rw [hhist, ← state_eq_headState hidle]
    rfl
  refine ⟨objects, by rw [Database.startUndoSession, hstart], hix, ⟨hwf, Or.inr ⟨rfl, ?_, ?_⟩,
    h.room.trans_eq hmax.symm, ?_, ?_, ?_⟩, hhead, rfl, rfl, hmax, d.maxSize, by omega,
    Or.inl hcopies⟩
  · rw [hactive, h.active_eq_zero hidle]
  · rw [hhist]
    exact List.cons_ne_nil _ _
  · exact h.state_eq.trans (congrArg some hhead.symm)
  · change Recorded P g chain objects.history.tail
    rw [hcopies]
    exact h.copies.take _
  · change ∀ dgp, (objects.history.headD objects.indexes).dgp? = some dgp →
      objects.indexes.dgp? = some dgp
    rw [hhead, hix]
    exact h.dgp_eq

/-- The pending session is open after the start of `_push_transaction`. -/
theorem startPendingTxSession_spec (h : d.OnChain P g depth chain) :
    ∃ d', Database.startPendingTxSession d = .ok () d' ∧ Keeps P g depth chain d d' ∧
      d'.pendingTxSession = some {} ∧ d'.state = d.state ∧ d'.poppedTx = d.poppedTx ∧
      d'.pendingTx = d.pendingTx := by
  rcases h.session with ⟨hidle, -⟩ | ⟨hsome, -⟩
  · obtain ⟨objects, hstart, hix, hkeeps⟩ := h.startPending hidle
    refine ⟨_, ?_, hkeeps, rfl, hix, rfl, rfl⟩
    rw [Database.startPendingTxSession, bind_ok (get_apply d)]
    simp only [hidle]
    exact (bind_ok hstart).trans rfl
  · refine ⟨d, ?_, Keeps.refl h, hsome, rfl, rfl, rfl⟩
    rw [Database.startPendingTxSession, bind_ok (get_apply d)]
    simp only [hsome]
    rfl

/-- **What `_push_transaction` leaves**, however it ends: the transaction is applied and pending, or
neither, or an observer has thrown between the two. -/
theorem _pushTransaction_spec (h : d.OnChain P g depth chain) {tx : C.Tx}
    (hP : P.TxNests depth tx) (obs : Observers C) :
    ∃ d', exit (Database._pushTransaction P obs tx d) = d' ∧ Keeps P g depth chain d d' ∧
      d'.pendingTxSession = some {} ∧ d'.poppedTx = d.poppedTx ∧
      (P.applyTransaction d.state tx = some d'.state ∧ d'.pendingTx = d.pendingTx ++ [tx] ∨
        P.applyTransaction d.state tx = none ∧ d'.state = d.state ∧
          d'.pendingTx = d.pendingTx ∨
        (∃ d₂, obs.changedObjects d₂ = true) ∧ d'.state = d.state ∧
          d'.pendingTx = d.pendingTx ++ [tx]) := by
  obtain ⟨d₁, hstart, hkeeps₁, hsome, hstate₁, hpopped₁, hpending₁⟩ := h.startPendingTxSession_spec
  have hafter : ∀ d₂ : Database C, d₂.pendingTx = d₁.pendingTx →
      (do
        modify fun d ↦ { d with pendingTx := d.pendingTx ++ [tx] }
        Database.notify obs.changedObjects : DatabaseM C Unit) d₂ =
      if obs.changedObjects { d₂ with pendingTx := d₁.pendingTx ++ [tx] }
      then .error () { d₂ with pendingTx := d₁.pendingTx ++ [tx] }
      else .ok () { d₂ with pendingTx := d₁.pendingTx ++ [tx] } := by
    intro d₂ hd₂
    rw [← hd₂, bind_ok (modify_apply _ d₂), Database.notify, bind_ok (get_apply _)]
    split_ifs <;> rfl
  obtain ⟨d', hkeeps, hsome', hpopped, hout⟩ :=
    inTransaction_spec hkeeps₁.onChain hsome hP _ hafter
  have hcall : Database._pushTransaction P obs tx d = (do
      Database.inSession Session.merge (do
        Database.applyTransaction P tx
        modify fun d : Database C ↦ { d with pendingTx := d.pendingTx ++ [tx] }
        Database.notify obs.changedObjects)
      Database.notify (obs.pendingTransaction · tx)) d₁ := bind_ok hstart
  rw [hstate₁, hpending₁] at hout
  refine ⟨d', ?_, hkeeps₁.trans hkeeps, hsome', hpopped.trans hpopped₁, ?_⟩
  · rw [hcall]
    rcases hout with ⟨-, -, -, hrun⟩ | ⟨-, -, hrun⟩ | ⟨-, -, -, hrun⟩
    · rw [bind_error hrun]
      rfl
    · rw [bind_ok hrun, Database.notify, bind_ok (get_apply d')]
      split_ifs <;> rfl
    · rw [bind_error hrun]
      rfl
  · rcases hout with
      ⟨hnone, hstate, hpending, -⟩ | ⟨happly, hpending, -⟩ | ⟨hthrows, hstate, hpending, -⟩
    · exact Or.inr (Or.inl ⟨hnone, hstate, hpending⟩)
    · exact Or.inl ⟨happly, hpending⟩
    · exact Or.inr (Or.inr ⟨hthrows, hstate, hpending⟩)

end Database.OnChain

/-! ## The pending state -/

/-- The state is the head state with the pending transactions applied to it in order, and a session
takes them back. -/
structure Database.PendingOk (P : Protocol C) (d : Database C) : Prop where
  /-- The state. -/
  state_eq : d.pendingTx.foldlM P.applyTransaction d.headState = some d.state
  /-- The session. -/
  session : d.pendingTx ≠ [] → d.pendingTxSession = some {}

/-- The observers of `changed_objects` do not throw.  Each call has observers of its own, and sees
what they do on the databases that it comes to only; so this asks no more than that none throws in
the call. -/
def Observers.Quiet (obs : Observers C) : Prop := ∀ d, obs.changedObjects d = false

/-- From `d` to `d'` only pending transactions have come and gone, and the pending state is in
order if it was and the observers do not throw. -/
structure Repushes (P : Protocol C) (g : ChainState C) (depth : ℕ) (obs : Observers C)
    (chain : List (SignedBlock C)) (d d' : Database C) : Prop
    extends Keeps P g depth chain d d' where
  /-- The pending state. -/
  pendingOk : obs.Quiet → d.PendingOk P → d'.PendingOk P
  /-- The transactions of popped blocks are left alone. -/
  poppedTx_eq : d'.poppedTx = d.poppedTx

namespace Repushes

variable {obs : Observers C} {chain : List (SignedBlock C)} {d d' d'' : Database C}

theorem refl (h : d.OnChain P g depth chain) : Repushes P g depth obs chain d d :=
  ⟨Keeps.refl h, fun _ hd ↦ hd, rfl⟩

theorem trans (h : Repushes P g depth obs chain d d') (h' : Repushes P g depth obs chain d' d'') :
    Repushes P g depth obs chain d d'' :=
  ⟨h.toKeeps.trans h'.toKeeps, fun hq hd ↦ h'.pendingOk hq (h.pendingOk hq hd),
    h'.poppedTx_eq.trans h.poppedTx_eq⟩

end Repushes

namespace Database.OnChain

variable {chain : List (SignedBlock C)} {d : Database C}

/-- **A transaction keeps the pending state in order**, as long as no observer throws. -/
theorem _pushTransaction_repushes (h : d.OnChain P g depth chain) {tx : C.Tx}
    (hP : P.TxNests depth tx) (obs : Observers C) :
    Repushes P g depth obs chain d (exit (Database._pushTransaction P obs tx d)) := by
  obtain ⟨d', hexit, hkeeps, hsome, hpopped, hout⟩ := h._pushTransaction_spec hP obs
  rw [hexit]
  refine ⟨hkeeps, fun hquiet hd ↦ ⟨?_, fun _ ↦ hsome⟩, hpopped⟩
  rw [hkeeps.headState_eq]
  rcases hout with ⟨happly, hpending⟩ | ⟨-, hstate, hpending⟩ | ⟨⟨d₂, hthrows⟩, -⟩
  · rw [hpending, List.foldlM_append, hd.state_eq]
    change (P.applyTransaction d.state tx).bind some = some d'.state
    rw [happly]
    rfl
  · rw [hpending, hstate]
    exact hd.state_eq
  · rw [hquiet d₂] at hthrows
    cases hthrows

theorem repushTransaction_spec (h : d.OnChain P g depth chain) {tx : C.Tx}
    (hP : P.TxNests depth tx) (obs : Observers C) :
    ∃ d', Database.repushTransaction P obs tx d = .ok () d' ∧
      Repushes P g depth obs chain d d' := by
  rw [Database.repushTransaction, bind_ok (get_apply d)]
  split_ifs
  · exact ⟨d, rfl, Repushes.refl h⟩
  · have hpush := h._pushTransaction_repushes hP obs
    cases hrun : Database._pushTransaction P obs tx d with
    | ok a d' =>
      rw [hrun] at hpush
      exact ⟨d', tryCatch_ok hrun, hpush⟩
    | error e d' =>
      rw [hrun] at hpush
      exact ⟨d', (tryCatch_error hrun).trans rfl, hpush⟩

theorem repushTransactions_spec {txs : List C.Tx} (h : d.OnChain P g depth chain)
    (hP : ∀ tx ∈ txs, P.TxNests depth tx) (obs : Observers C) :
    ∃ d', txs.forM (Database.repushTransaction P obs) d = .ok () d' ∧
      Repushes P g depth obs chain d d' := by
  induction txs generalizing d with
  | nil => exact ⟨d, rfl, Repushes.refl h⟩
  | cons tx txs ih =>
    obtain ⟨d₁, hrun₁, h₁⟩ := h.repushTransaction_spec (hP tx List.mem_cons_self) obs
    obtain ⟨d₂, hrun₂, h₂⟩ := ih h₁.onChain fun tx htx ↦ hP tx (List.mem_cons_of_mem _ htx)
    exact ⟨d₂, (bind_ok hrun₁).trans hrun₂, h₁.trans h₂⟩

/-- **The destructor of `pending_transactions_restorer`** touches nothing but what is pending. -/
theorem restorePending_spec (h : d.OnChain P g depth chain) (obs : Observers C)
    {pending : List C.Tx} (hpopped : ∀ tx ∈ d.poppedTx, P.TxNests depth tx)
    (hpending : ∀ tx ∈ pending, P.TxNests depth tx) :
    ∃ d', Database.restorePending P obs pending d = .ok () d' ∧ Keeps P g depth chain d d' ∧
      d'.poppedTx = [] ∧ (obs.Quiet → d.PendingOk P → d'.PendingOk P) := by
  obtain ⟨d₁, hrun₁, h₁⟩ := h.repushTransactions_spec hpopped obs
  have hforget :
      Repushes P g depth obs chain { d₁ with poppedTx := [] } { d₁ with poppedTx := [] } :=
    Repushes.refl ⟨h₁.onChain.wf, h₁.onChain.session, h₁.onChain.room, h₁.onChain.state_eq,
      h₁.onChain.copies, h₁.onChain.dgp_eq⟩
  obtain ⟨d₂, hrun₂, h₂⟩ := hforget.onChain.repushTransactions_spec hpending obs
  have h₁₂ : Keeps P g depth chain d₁ { d₁ with poppedTx := [] } :=
    ⟨hforget.onChain, rfl, rfl, rfl, rfl, (Keeps.refl h₁.onChain).copies⟩
  refine ⟨d₂, ?_, (h₁.toKeeps.trans h₁₂).trans h₂.toKeeps, h₂.poppedTx_eq, fun hq hd ↦ ?_⟩
  · rw [Database.restorePending, bind_ok (get_apply d), bind_ok hrun₁,
      bind_ok (modify_apply _ d₁)]
    exact hrun₂
  · have hd₁ := h₁.pendingOk hq hd
    exact h₂.pendingOk hq ⟨hd₁.state_eq, hd₁.session⟩

/-- `clear_pending` leaves the head state. -/
theorem clearPending_spec (h : d.OnChain P g depth chain) :
    ∃ d', Database.clearPending d = .ok () d' ∧ d'.OnChain P g depth chain ∧
      d'.pendingTxSession = none ∧ d'.state = d.headState ∧ d'.maxSize = d.maxSize ∧
      Kept d.headState d.copies.length d.copies d'.objects.history ∧
      d' = { d with objects := d'.objects, pendingTxSession := none, pendingTx := [] } := by
  have h₁ : ({ d with pendingTx := [] } : Database C).OnChain P g depth chain :=
    ⟨h.wf, h.session, h.room, h.state_eq, h.copies, h.dgp_eq⟩
  obtain ⟨d', hrun, hspec⟩ := h₁.resetPendingTxSession_spec
  exact ⟨d', (bind_ok (modify_apply _ d)).trans hrun, hspec⟩

/-- So does the end of the pending session. -/
theorem resetPendingTxSession_keeps (h : d.OnChain P g depth chain) :
    ∃ d', Database.resetPendingTxSession d = .ok () d' ∧ Keeps P g depth chain d d' ∧
      d'.pendingTxSession = none ∧ d'.pendingTx = d.pendingTx ∧ d'.poppedTx = d.poppedTx := by
  obtain ⟨d', hrun, hon, hidle, hstate, hmax, hkept, heq⟩ := h.resetPendingTxSession_spec
  rw [history_eq_copies hidle] at hkept
  rw [state_eq_headState hidle] at hstate
  refine ⟨d', hrun, ⟨hon, hstate, by rw [heq], by rw [heq], hmax, hkept.of_length _⟩, hidle,
    by rw [heq], by rw [heq]⟩

end Database.OnChain

/-! ## Producing a block -/

/-- The transactions that go into a block, on the states alone: those that fit and apply. -/
def Database.Production.select (prod : Database.Production C) (P : Protocol C) (maximum : ℕ) :
    ℕ → ChainState C → List C.Tx → List C.Tx
  | _, _, [] => []
  | total, ix, tx :: txs =>
    if total + prod.packSize tx ≥ maximum then prod.select P maximum total ix txs
    else
      match P.applyTransaction ix tx with
      | some ix' => tx :: prod.select P maximum (total + prod.processedSize ix tx) ix' txs
      | none => prod.select P maximum total ix txs

/-- The block `generate_block` puts together on the head state `ix`. -/
def Database.Production.block (prod : Database.Production C) (P : Protocol C) (maximum : ℕ)
    (ix : ChainState C) (pending : List C.Tx) : SignedBlock C :=
  let txs := prod.select P maximum prod.headerSize ix pending
  let root := P.calculateMerkleRoot txs
  ⟨⟨ix.headBlockId, root, prod.sign ix.headBlockId root⟩, txs⟩

namespace Database.OnChain

variable {chain : List (SignedBlock C)} {d : Database C}

theorem selectTransactions_spec {txs : List C.Tx} (h : d.OnChain P g depth chain)
    (hsome : d.pendingTxSession = some {}) (hP : ∀ tx ∈ txs, P.TxNests depth tx)
    (prod : Database.Production C) (maximum total : ℕ) :
    ∃ d', Database.selectTransactions P prod maximum total txs d =
        .ok (prod.select P maximum total d.state txs) d' ∧ Keeps P g depth chain d d' ∧
      d'.pendingTxSession = some {} ∧ d'.pendingTx = d.pendingTx ∧ d'.poppedTx = d.poppedTx := by
  induction txs generalizing d total with
  | nil => exact ⟨d, rfl, Keeps.refl h, hsome, rfl, rfl⟩
  | cons tx txs ih =>
    rw [Database.selectTransactions, Database.Production.select]
    have hrest : ∀ tx ∈ txs, P.TxNests depth tx := fun t ht ↦ hP t (List.mem_cons_of_mem _ ht)
    split_ifs with hsize
    · exact ih h hsome hrest total
    · rw [bind_ok (get_apply d)]
      have hafter : ∀ d₂ : Database C, d₂.pendingTx = d.pendingTx →
          (return () : DatabaseM C Unit) d₂ =
            if false = true then .error () { d₂ with pendingTx := d.pendingTx }
            else .ok () { d₂ with pendingTx := d.pendingTx } := by
        intro d₂ hd₂
        rw [if_neg Bool.false_ne_true, ← hd₂]
        rfl
      obtain ⟨d₁, hkeeps, hsome₁, hpopped, hout⟩ :=
        inTransaction_spec h hsome (hP tx List.mem_cons_self) (fun _ ↦ false) hafter
      rw [bind_pure_unit] at hout
      rcases hout with ⟨hnone, hstate, hpending, hrun⟩ | ⟨happly, hpending, hrun⟩ |
        ⟨⟨_, hthrows⟩, -⟩
      · obtain ⟨d₂, hrun₂, hkeeps₂, hsome₂, hpending₂, hpopped₂⟩ :=
          ih hkeeps.onChain hsome₁ hrest total
        refine ⟨d₂, ?_, hkeeps.trans hkeeps₂, hsome₂, hpending₂.trans hpending,
          hpopped₂.trans hpopped⟩
        have hcatch : Database.tryTransaction P tx d = .ok false d₁ :=
          tryCatch_error (bind_error hrun)
        rw [bind_ok hcatch, hnone, ← hstate]
        exact hrun₂
      · obtain ⟨d₂, hrun₂, hkeeps₂, hsome₂, hpending₂, hpopped₂⟩ :=
          ih hkeeps.onChain hsome₁ hrest (total + prod.processedSize d.state tx)
        refine ⟨d₂, ?_, hkeeps.trans hkeeps₂, hsome₂, hpending₂.trans hpending,
          hpopped₂.trans hpopped⟩
        have hcatch : Database.tryTransaction P tx d = .ok true d₁ :=
          tryCatch_ok (bind_ok hrun)
        rw [bind_ok hcatch, happly]
        exact (bind_ok hrun₂).trans rfl
      · cases hthrows

/-- What `generate_block` comes to in its witness's slot: it puts together a block that is too large
and refuses to push it, or it pushes it. -/
theorem generateBlock_scheduled (h : d.OnChain P g depth chain)
    (hP : ∀ tx ∈ d.pendingTx, P.TxNests depth tx) (obs : Observers C)
    (prod : Database.Production C) (hscheduled : prod.scheduled d.state = true) :
    ∃ d', Keeps P g depth chain d d' ∧ d'.pendingTxSession = none ∧
      d'.pendingTx = d.pendingTx ∧ d'.poppedTx = d.poppedTx ∧
      (prod.skipBlockSizeCheck = false ∧
          prod.maximumBlockSize d.headState < prod.blockSize
            (prod.block P (prod.maximumBlockSize d.state) d.headState d.pendingTx) ∧
          Database.generateBlock P obs prod d = .error () d' ∨
        (prod.skipBlockSizeCheck = true ∨ prod.blockSize
            (prod.block P (prod.maximumBlockSize d.state) d.headState d.pendingTx) ≤
            prod.maximumBlockSize d.headState) ∧
          exit (Database.generateBlock P obs prod d) = exit (Database.pushBlock P obs
            (prod.block P (prod.maximumBlockSize d.state) d.headState d.pendingTx) d')) := by
  rw [Database.generateBlock, bind_ok (get_apply d), if_pos hscheduled]
  obtain ⟨d₁, hrun₁, hkeeps₁, hidle₁, hpending₁, hpopped₁⟩ := h.resetPendingTxSession_keeps
  obtain ⟨objects, hstart, hix, hkeeps₂⟩ := hkeeps₁.onChain.startPending hidle₁
  set d₂ : Database C := { d₁ with objects, pendingTxSession := some {} } with hd₂
  obtain ⟨d₃, hrun₃, hkeeps₃, hsome₃, hpending₃, hpopped₃⟩ :=
    hkeeps₂.onChain.selectTransactions_spec rfl hP prod (prod.maximumBlockSize d.state)
      prod.headerSize
  obtain ⟨d₄, hrun₄, hkeeps₄, hidle₄, hpending₄, hpopped₄⟩ :=
    hkeeps₃.onChain.resetPendingTxSession_keeps
  have hkeeps := ((hkeeps₁.trans hkeeps₂).trans hkeeps₃).trans hkeeps₄
  have hstate₂ : d₂.state = d.headState :=
    hix.trans ((state_eq_headState hidle₁).trans hkeeps₁.headState_eq)
  have hstate₄ : d₄.state = d.headState :=
    (state_eq_headState hidle₄).trans hkeeps.headState_eq
  refine ⟨d₄, hkeeps, hidle₄, hpending₄.trans (hpending₃.trans hpending₁),
    hpopped₄.trans (hpopped₃.trans hpopped₁), ?_⟩
  rw [bind_ok hrun₁, bind_ok hstart, bind_ok (modify_apply _ _), bind_ok hrun₃, bind_ok hrun₄,
    bind_ok (get_apply d₄), hstate₄, hstate₂]
  change _ ∧ _ ∧ (if _ then _ else _ : DatabaseM C (SignedBlock C)) d₄ = _ ∨
    _ ∧ exit ((if _ then _ else _ : DatabaseM C (SignedBlock C)) d₄) = _
  split_ifs with hfits
  · right
    rw [Bool.or_eq_true, decide_eq_true_eq] at hfits
    refine ⟨hfits, ?_⟩
    cases hpush : Database.pushBlock P obs
        (prod.block P (prod.maximumBlockSize d.state) d.headState d.pendingTx) d₄ with
    | ok a d₅ => exact congrArg exit (bind_ok hpush)
    | error e d₅ => exact congrArg exit (bind_error hpush)
  · left
    rw [Bool.or_eq_true, not_or, Bool.not_eq_true, decide_eq_true_eq, not_le] at hfits
    exact ⟨hfits.1, hfits.2, rfl⟩

/-- **What `generate_block` comes to**: it refuses at once, it puts together a block that is too
large and refuses to push it, or it pushes it. -/
theorem generateBlock_spec (h : d.OnChain P g depth chain)
    (hP : ∀ tx ∈ d.pendingTx, P.TxNests depth tx) (obs : Observers C)
    (prod : Database.Production C) :
    Database.generateBlock P obs prod d = .error () d ∨
      prod.scheduled d.state = true ∧
      ∃ d', Keeps P g depth chain d d' ∧ d'.pendingTxSession = none ∧
        d'.pendingTx = d.pendingTx ∧ d'.poppedTx = d.poppedTx ∧
        (prod.skipBlockSizeCheck = false ∧
            prod.maximumBlockSize d.headState < prod.blockSize
              (prod.block P (prod.maximumBlockSize d.state) d.headState d.pendingTx) ∧
            Database.generateBlock P obs prod d = .error () d' ∨
          exit (Database.generateBlock P obs prod d) = exit (Database.pushBlock P obs
            (prod.block P (prod.maximumBlockSize d.state) d.headState d.pendingTx) d')) := by
  by_cases hscheduled : prod.scheduled d.state = true
  · obtain ⟨d', hkeeps, hidle, hpending, hpopped, hcases⟩ :=
      h.generateBlock_scheduled hP obs prod hscheduled
    exact Or.inr ⟨hscheduled, d', hkeeps, hidle, hpending, hpopped, hcases.imp_right And.right⟩
  · rw [Database.generateBlock, bind_ok (get_apply d), if_neg hscheduled]
    exact Or.inl rfl

end Database.OnChain

end Graphene
