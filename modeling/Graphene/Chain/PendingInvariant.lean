import Graphene.Chain.Testnet

/-!
# The pending state

`clear_pending` asserts that there is a pending session whenever there are pending transactions,
and taking that session back is how a node returns to the head block's state.

* `pending_invariant` — along every run of `push_transaction`, `push_block` and `generate_block`,
  whose observers do not throw and in which no block is produced that is too large, the state is
  the head block's with the pending transactions applied.
* `oversize_block_loses_session`, `observer_desynchronises_pending` — what happens otherwise:
  `_generate_block` has reset the session by the time it measures the block, and
  `_push_transaction` has listed the transaction by the time the observers of `changed_objects` are
  called.
-/

set_option autoImplicit false

namespace Graphene

open Throwing

variable {C : ChainTypes} {P : Protocol C} {g : ChainState C} {depth : ℕ}

/-- `generate_block` does not put together a block it then finds too large, while transactions are
pending. -/
def Database.Production.Fits (P : Protocol C) (prod : Database.Production C) (d : Database C) :
    Prop :=
  prod.scheduled d.state = true → d.pendingTx ≠ [] → prod.skipBlockSizeCheck = true ∨
    prod.blockSize (prod.block P (prod.maximumBlockSize d.state) d.headState d.pendingTx) ≤
      prod.maximumBlockSize d.headState

/-- The calls that keep the pending state in order. -/
def Call.KeepsPending (P : Protocol C) (d : Database C) : Call C → Prop
  | .pushBlock obs _ => obs.Quiet
  | .pushTransaction obs _ => obs.Quiet
  | .generateBlock obs prod => obs.Quiet ∧ prod.Fits P d
  | .popBlock => False

/-- What one call does to the pending state. -/
theorem Database.AtRest.pendingOk_call {chain : List (SignedBlock C)} {d : Database C}
    (h : d.AtRest P g depth chain) (hpending : d.PendingOk P) (hg : Base g) (hP : P.Nests depth)
    (hlag : P.Lags g depth) {c : Call C} (hc : c.KeepsPending P d) : (c.exec P d).PendingOk P := by
  cases c with
  | pushBlock obs b =>
    obtain ⟨-, -, hquiet⟩ := h.pushBlock hg hP hlag obs b
    exact hquiet hc
  | pushTransaction obs tx =>
    exact (h.toOnChain._pushTransaction_repushes (hP.tx tx) obs).pendingOk hc hpending
  | generateBlock obs prod =>
    obtain ⟨hquiet, hfits⟩ := hc
    rcases h.toOnChain.generateBlock_spec (fun tx _ ↦ hP.tx tx) obs prod with
      hrun | ⟨hscheduled, d₁, hkeeps, hidle, htxs, -, ⟨hcheck, hlarge, hrun⟩ | hrun⟩
    · rw [Call.exec, hrun]
      exact hpending
    · -- the session is gone, so nothing may have been pending
      have hnil : d₁.pendingTx = [] := by
        by_contra hne
        rcases hfits hscheduled (htxs ▸ hne) with hskip | hle
        · rw [hskip] at hcheck
          cases hcheck
        · exact absurd hlarge (not_lt.2 hle)
      rw [Call.exec, hrun]
      refine ⟨?_, fun hne ↦ absurd hnil hne⟩
      rw [exit_error, hnil, OnChain.state_eq_headState hidle]
      rfl
    · obtain ⟨-, -, hpushed⟩ := (h.keeps hkeeps).pushBlock hg hP hlag obs
        (prod.block P (prod.maximumBlockSize d.state) d.headState d.pendingTx)
      rw [Call.exec, hrun]
      exact hpushed hquiet
  | popBlock => exact hc.elim

/-- **The pending state is the head block's with the pending transactions applied**, along every run
of `push_transaction`, `push_block` and `generate_block` that returns or throws as it may, as long
as the observers of `changed_objects` do not throw and no block is too large.  A session is open
whenever transactions are pending, and `clear_pending` gives the head block's state. -/
theorem pending_invariant (hg : Base g) (hP : P.Nests depth) (hlag : P.Lags g depth)
    {d₀ d : Database C} (h₀ : d₀.Opened P g depth)
    (hrun : Run P (fun d c ↦ c.KeepsPending P d) d₀ d) :
    ∃ chain head, P.stateAt g chain = some head ∧
      d.pendingTx.foldlM P.applyTransaction head = some d.state ∧
      (d.pendingTx ≠ [] → d.pendingTxSession = some {} ∧ d.objects.undoDb.activeSessions = 1) ∧
      ∃ d', Database.clearPending d = .ok () d' ∧ d'.state = head ∧ d'.pendingTx = [] ∧
        d'.pendingTxSession = none := by
  obtain ⟨⟨chain, hrest⟩, hpending⟩ : (∃ chain, d.AtRest P g depth chain) ∧ d.PendingOk P := by
    refine hrun.invariant (I := fun d ↦ (∃ chain, d.AtRest P g depth chain) ∧ d.PendingOk P)
      ⟨⟨[], h₀.atRest⟩, h₀.pendingOk⟩ ?_
    rintro d c ⟨⟨chain, hrest⟩, hpending⟩ hc
    exact ⟨hrest.call hg hP hlag c, hrest.pendingOk_call hpending hg hP hlag hc⟩
  obtain ⟨d', hclear, -, hidle, hstate, -, -, heq⟩ := hrest.toOnChain.clearPending_spec
  refine ⟨chain, d.headState, hrest.state_eq, hpending.state_eq, fun hne ↦ ?_, d', hclear, hstate,
    by rw [heq], hidle⟩
  rcases hrest.session with ⟨hnone, -⟩ | ⟨hsome, hactive, -⟩
  · rw [hpending.session hne] at hnone
    cases hnone
  · exact ⟨hsome, hactive⟩

namespace Testnet

/-- A producer whose blocks may have three bytes; processing a transaction makes it larger. -/
def production : Database.Production types where
  scheduled _ := true
  sign _ _ := 0
  packSize _ := 1
  processedSize _ _ := 3
  headerSize := 1
  maximumBlockSize _ := 3
  blockSize b := 1 + 3 * b.transactions.length
  skipBlockSizeCheck := false

/-- A run with a transaction, a block, a block that does not apply, and a block that is produced. -/
theorem pending_invariant_run : ∃ chain head, protocol.stateAt genesis chain = some head ∧
    let d := [Call.pushTransaction quiet .pay, .pushBlock quiet (block (BlockId.zero types) 0 []),
      .pushBlock quiet (block (BlockId.zero types) 1 [.fail]),
      .generateBlock quiet { production with maximumBlockSize := fun _ ↦ 10 }].foldl
        (fun d c ↦ c.exec protocol d) node
    d.pendingTx.foldlM protocol.applyTransaction head = some d.state := by
  have hquiet : quiet.Quiet := fun _ ↦ rfl
  have hrun₀ : Run protocol (fun d c ↦ c.KeepsPending protocol d) node node := .refl
  have hrun := ((hrun₀.call (.pushTransaction quiet .pay) hquiet).call
    (.pushBlock quiet (block (BlockId.zero types) 0 [])) hquiet).call
    (.pushBlock quiet (block (BlockId.zero types) 1 [.fail])) hquiet
  obtain ⟨chain, head, hhead, hstate, -⟩ := pending_invariant base nests lags node_opened
    (hrun.call (.generateBlock quiet { production with maximumBlockSize := fun _ ↦ 10 })
      ⟨hquiet, fun _ _ ↦ Or.inr (by decide +kernel)⟩)
  refine ⟨chain, head, hhead, ?_⟩
  simp only [List.foldl_cons, List.foldl_nil]
  exact hstate

/-- Producing a block that is too large loses the pending session, but not the transactions. -/
theorem oversize_block_loses_session :
    ¬ ([Call.pushTransaction quiet .pay, .generateBlock quiet production].foldl
      (fun d c ↦ c.exec protocol d) node).PendingOk protocol := by
  intro h
  have hsession := h.session (by decide +kernel)
  revert hsession
  decide +kernel

/-- An observer that throws leaves a transaction pending that was taken back. -/
theorem observer_desynchronises_pending :
    ¬ ((Call.pushTransaction { quiet with changedObjects := fun _ ↦ true } .pay).exec protocol
      node).PendingOk protocol := by
  intro h
  have hobj := congrArg (Option.map fun ix ↦ (ix.objects ⟨payments, 0⟩).isSome) h.state_eq
  revert hobj
  decide +kernel

end Testnet

end Graphene
