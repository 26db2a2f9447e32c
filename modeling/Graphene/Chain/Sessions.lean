import Graphene.Chain.Database
import Graphene.Chain.History

/-!
# The node between two calls

What a call does to the objects goes through undo sessions, and what it leaves is described here by
the chain of blocks that was applied and the copies the undo stack holds under it.

The undo stack drops its oldest copies by itself when it is full, in the middle of whatever is going
on.  Therefore two points of a session are never compared for equality of the stacks, but only from
the top down to a depth; a bound on what is dropped below is enough for every `pop_block` that the
node may still have to do.

* `Database.headState`, `Database.copies` — the state at the head block and the copies below it,
  under whatever is pending.
* `Database.OnChain` — the invariant of the objects of a node: its head state is the state at the
  end of a chain, and the copies are those of the chain's blocks.
* `Within` — one point of an undo session and a later one: all that can have happened below is that
  the oldest copies were dropped.
* `applyBlock_spec`, `applyAndStore_spec`, `popBlock_spec`, `resetPendingTxSession_spec` — what the
  steps `_push_block` is made of do on such a node.
-/

set_option autoImplicit false

namespace Graphene

open Throwing

variable {C : ChainTypes}

namespace Database

/-- The state at the head block: the current one, less what is pending. -/
def headState (d : Database C) : ChainState C :=
  match d.pendingTxSession with
  | none => d.state
  | some _ => d.objects.history.headD d.state

/-- The copies of states up to the one below the head block. -/
def copies (d : Database C) : List (ChainState C) :=
  match d.pendingTxSession with
  | none => d.objects.history
  | some _ => d.objects.history.tail

/-- `_undo_db.max_size()`. -/
def maxSize (d : Database C) : ℕ := d.objects.undoDb.maxSize

/-- The node is at the end of `chain`, and its undo sessions have room for `depth` more. -/
structure OnChain (P : Protocol C) (g : ChainState C) (depth : ℕ) (chain : List (SignedBlock C))
    (d : Database C) : Prop where
  /-- The undo database is a record of how the objects came about. -/
  wf : d.objects.WF
  /-- The pending session is the only one that can be open. -/
  session : d.pendingTxSession = none ∧ d.objects.undoDb.activeSessions = 0 ∨
    d.pendingTxSession = some {} ∧ d.objects.undoDb.activeSessions = 1 ∧ d.objects.history ≠ []
  /-- Nested sessions do not push out the pending one. -/
  room : depth + 1 ≤ d.maxSize
  /-- The head state is the one the chain leads to. -/
  state_eq : P.stateAt g chain = some d.headState
  /-- The copies are those of the chain's blocks. -/
  copies : Recorded P g chain d.copies
  /-- What is pending has not touched the dynamic global properties. -/
  dgp_eq : ∀ dgp, d.headState.dgp? = some dgp → d.state.dgp? = some dgp

end Database

/-- `d'` is a later point of the undo session that is open in `d`, with no sessions nested in it
deeper than `depth` in between. -/
structure Within (depth : ℕ) (d d' : Database C) : Prop where
  /-- The undo database is in order. -/
  wf : d'.objects.WF
  /-- The same sessions are open. -/
  active : d'.objects.undoDb.activeSessions = d.objects.undoDb.activeSessions
  /-- The bound on the undo stack is the same. -/
  maxSize_eq : d'.maxSize = d.maxSize
  /-- The newest copies are still there. -/
  history : ∃ k, d'.objects.history = d.objects.history.take k ∧ d.maxSize + 1 ≤ k + depth
  /-- Nothing else has changed. -/
  eq : d' = { d with objects := d'.objects }

namespace Within

variable {depth : ℕ} {d d' d'' : Database C}

theorem refl (hwf : d.objects.WF) : Within depth d d where
  wf := hwf
  active := rfl
  maxSize_eq := rfl
  history := ⟨d.objects.history.length + d.maxSize + 1, by rw [List.take_of_length_le (by omega)],
    by omega⟩
  eq := rfl

theorem trans (h : Within depth d d') (h' : Within depth d' d'') : Within depth d d'' where
  wf := h'.wf
  active := h'.active.trans h.active
  maxSize_eq := h'.maxSize_eq.trans h.maxSize_eq
  history := by
    obtain ⟨k, hk, hle⟩ := h.history
    obtain ⟨k', hk', hle'⟩ := h'.history
    have hmax := h.maxSize_eq
    exact ⟨min k' k, by rw [hk', hk, List.take_take], by omega⟩
  eq := by rw [h'.eq, h.eq]

/-- The session's own copy is still there. -/
theorem history_ne_nil (h : Within depth d d') (hd : depth ≤ d.maxSize)
    (hne : d.objects.history ≠ []) : d'.objects.history ≠ [] := by
  obtain ⟨k, hk, hle⟩ := h.history
  rw [hk, ne_eq, List.take_eq_nil_iff, not_or]
  exact ⟨by omega, hne⟩

end Within

/-! ## Running scripts -/

variable {P : Protocol C} {depth : ℕ}

/-- The program changes the state as `result` says, and throws where `result` is `none`. -/
def Does (depth : ℕ) (m : DatabaseM C Unit) (d d' : Database C)
    (result : Option (ChainState C)) : Prop :=
  Within depth d d' ∧
    match result with
    | some ix => m d = .ok () d' ∧ d'.state = ix
    | none => m d = .error () d'

theorem Does.of_some {m : DatabaseM C Unit} {d d' : Database C} {result : Option (ChainState C)}
    {ix : ChainState C} (h : Does depth m d d' result) (hr : result = some ix) :
    Within depth d d' ∧ m d = .ok () d' ∧ d'.state = ix := by
  subst hr
  exact h

theorem Does.of_none {m : DatabaseM C Unit} {d d' : Database C} {result : Option (ChainState C)}
    (h : Does depth m d d' result) (hr : result = none) :
    Within depth d d' ∧ m d = .error () d' := by
  subst hr
  exact h

theorem Does.bind {m m' : DatabaseM C Unit} {d : Database C} {result : Option (ChainState C)}
    {next : ChainState C → Option (ChainState C)} {d₁ : Database C}
    (h : Does depth m d d₁ result)
    (hnext : ∀ ix, result = some ix → ∃ d₂, Does depth m' d₁ d₂ (next ix)) :
    ∃ d₂, Does depth (do m; m') d d₂ (result.bind next) := by
  cases result with
  | none => exact ⟨d₁, h.1, bind_error h.2⟩
  | some ix =>
    obtain ⟨d₂, hwithin, hout⟩ := hnext ix rfl
    refine ⟨d₂, h.1.trans hwithin, ?_⟩
    rw [Option.bind_some]
    cases hr : next ix with
    | none =>
      rw [hr] at hout
      exact (bind_ok h.2.1).trans hout
    | some ix' =>
      rw [hr] at hout
      exact ⟨(bind_ok h.2.1).trans hout.1, hout.2⟩

theorem run_does {d : Database C} (hwf : d.objects.WF) (hne : d.objects.history ≠ [])
    (hle : depth ≤ d.maxSize) {f : ChainState C → Script (ChainObject C)}
    (hdepth : (f d.state).depth ≤ depth) :
    ∃ d', Does depth (Database.run f) d d' ((f d.state).eval d.state) := by
  obtain ⟨hwf', heval, ⟨k, hk, hkle⟩, hactive, hmax⟩ :=
    (f d.state).exec_spec hwf hne (hdepth.trans hle)
  rcases hr : (f d.state).exec d.objects with ⟨ok, objects⟩
  rw [hr] at hwf' heval hk hactive hmax
  have heval : (f d.state).eval d.state = if ok then some objects.indexes else none := heval
  refine ⟨{ d with objects }, ⟨hwf', hactive, hmax, ⟨k, hk, ?_⟩, rfl⟩, ?_⟩
  · rw [Database.maxSize]
    omega
  · rw [heval]
    cases ok with
    | true => exact ⟨by rw [Database.run, hr], rfl⟩
    | false =>
      show Database.run f d = _
      rw [Database.run, hr]

theorem applyTransactions_does {txs : List C.Tx} (hP : ∀ tx ∈ txs, P.TxNests depth tx)
    {d : Database C} (hwf : d.objects.WF) (hne : d.objects.history ≠ []) (hle : depth ≤ d.maxSize) :
    ∃ d', Does depth (txs.forM (Database.applyTransaction P)) d d'
      (txs.foldlM P.applyTransaction d.state) := by
  induction txs generalizing d with
  | nil => exact ⟨d, Within.refl hwf, rfl, rfl⟩
  | cons tx txs ih =>
    obtain ⟨d₁, h₁⟩ := run_does hwf hne hle (f := fun ix ↦ (P.evaluateTransaction ix tx).1)
      (hP tx List.mem_cons_self d.state)
    rw [List.foldlM_cons]
    refine Does.bind h₁ fun ix hix ↦ ?_
    obtain ⟨hwithin, -, rfl⟩ := h₁.of_some hix
    exact ih (fun tx htx ↦ hP tx (List.mem_cons_of_mem _ htx)) hwithin.wf
      (hwithin.history_ne_nil hle hne) (hwithin.maxSize_eq ▸ hle)

/-! ## Applying blocks -/

/-- The bound `update_global_dynamic_data` sets when `b` is applied to `ix`. -/
def nextMaxSize (ix : ChainState C) (b : SignedBlock C) : ℕ := b.blockNum - ix.lastIrreversible + 1

theorem applyUntilHead_does {b : SignedBlock C} (hP : P.BlockNests depth b) {d : Database C}
    (hwf : d.objects.WF) (hne : d.objects.history ≠ []) (hle : depth ≤ d.maxSize) :
    ∃ d', Does depth (Database.applyUntilHead P b) d d' (P.applyUntilHead d.state b) := by
  rw [Protocol.applyUntilHead]
  split_ifs with hchecks
  · obtain ⟨d₁, h₁⟩ := applyTransactions_does hP.transactions hwf hne hle
    have hcalls : ∃ d', Does depth
        (do
          b.transactions.forM (Database.applyTransaction P)
          Database.run fun ix ↦ (P.countMissed ix b).1
          Database.run fun ix ↦ P.updateHead ix b) d d'
        ((b.transactions.foldlM P.applyTransaction d.state).bind fun ix ↦
          ((P.countMissed ix b).1.eval ix).bind fun ix ↦ (P.updateHead ix b).eval ix) := by
      refine Does.bind h₁ fun ix hix ↦ ?_
      obtain ⟨hwithin₁, -, rfl⟩ := h₁.of_some hix
      have hne₁ := hwithin₁.history_ne_nil hle hne
      have hle₁ : depth ≤ d₁.maxSize := hwithin₁.maxSize_eq ▸ hle
      obtain ⟨d₂, h₂⟩ := run_does hwithin₁.wf hne₁ hle₁ (f := fun ix ↦ (P.countMissed ix b).1)
        (hP.countMissed d₁.state)
      refine Does.bind h₂ fun ix hix ↦ ?_
      obtain ⟨hwithin₂, -, rfl⟩ := h₂.of_some hix
      exact run_does hwithin₂.wf (hwithin₂.history_ne_nil hle₁ hne₁) (hwithin₂.maxSize_eq ▸ hle₁)
        (by rw [Script.depth_updateHead]; exact Nat.zero_le _)
    obtain ⟨d', hdoes⟩ := hcalls
    refine ⟨d', hdoes.1, ?_⟩
    have hcall : Database.applyUntilHead P b d = (do
        b.transactions.forM (Database.applyTransaction P)
        Database.run fun ix ↦ (P.countMissed ix b).1
        Database.run fun ix ↦ P.updateHead ix b) d := by
      rw [Database.applyUntilHead, bind_ok (get_apply d), if_pos hchecks]
    rw [hcall]
    exact hdoes.2
  · refine ⟨d, Within.refl hwf, ?_⟩
    change Database.applyUntilHead P b d = .error () d
    rw [Database.applyUntilHead, bind_ok (get_apply d), if_neg hchecks]
    rfl

/-- What has become of the node when `b` has been applied to it, or has thrown. -/
structure Applies (depth : ℕ) (b : SignedBlock C) (d d' : Database C) : Prop where
  /-- The undo database is in order. -/
  wf : d'.objects.WF
  /-- The same sessions are open. -/
  active : d'.objects.undoDb.activeSessions = d.objects.undoDb.activeSessions
  /-- The newest copies are still there. -/
  history : ∃ k, d'.objects.history = d.objects.history.take k ∧
    min d.maxSize d'.maxSize + 1 ≤ k + depth
  /-- The bounds of the undo stack and the fork database, if the block got so far. -/
  sizes : d'.maxSize = d.maxSize ∧ d'.forkDb = d.forkDb ∨
    d'.maxSize = nextMaxSize d.state b ∧ d'.forkDb = d.forkDb.setMaxSize (nextMaxSize d.state b)
  /-- There is still room for the pending session. -/
  room : depth + 1 ≤ d'.maxSize
  /-- Nothing else has changed. -/
  eq : d' = { d with objects := d'.objects, forkDb := d'.forkDb }

theorem Within.applies {d d' : Database C} {b : SignedBlock C} (h : Within depth d d')
    (hroom : depth + 1 ≤ d.maxSize) : Applies depth b d d' where
  wf := h.wf
  active := h.active
  history := by
    rw [h.maxSize_eq, min_self]
    exact h.history
  sizes := Or.inl ⟨h.maxSize_eq, by rw [h.eq]⟩
  room := h.maxSize_eq ▸ hroom
  eq := by
    have heq := h.eq
    have hfork : d'.forkDb = d.forkDb := by rw [heq]
    rw [hfork]
    exact heq

theorem applyFromHead_does {b : SignedBlock C} (hP : P.BlockNests depth b) {d : Database C}
    (hwf : d.objects.WF) (hne : d.objects.history ≠ []) (hle : depth ≤ d.maxSize) :
    ∃ d', Does depth
      (do
        Database.run fun ix ↦ (P.updateSigningWitness ix b).1
        Database.run P.updateLastIrreversible
        Database.run fun ix ↦ (P.finishBlock ix b).1) d d'
      (((P.updateSigningWitness d.state b).1.eval d.state).bind fun ix ↦
        ((P.updateLastIrreversible ix).eval ix).bind fun ix ↦ (P.finishBlock ix b).1.eval ix) := by
  obtain ⟨d₁, h₁⟩ := run_does hwf hne hle (f := fun ix ↦ (P.updateSigningWitness ix b).1)
    (hP.updateSigningWitness d.state)
  refine Does.bind h₁ fun ix hix ↦ ?_
  obtain ⟨hwithin₁, -, rfl⟩ := h₁.of_some hix
  have hne₁ := hwithin₁.history_ne_nil hle hne
  have hle₁ : depth ≤ d₁.maxSize := hwithin₁.maxSize_eq ▸ hle
  obtain ⟨d₂, h₂⟩ := run_does hwithin₁.wf hne₁ hle₁ (f := P.updateLastIrreversible)
    (by rw [Script.depth_updateLastIrreversible]; exact Nat.zero_le _)
  refine Does.bind h₂ fun ix hix ↦ ?_
  obtain ⟨hwithin₂, -, rfl⟩ := h₂.of_some hix
  exact run_does hwithin₂.wf (hwithin₂.history_ne_nil hle₁ hne₁) (hwithin₂.maxSize_eq ▸ hle₁)
    (hP.finishBlock d₂.state)

theorem wf_setMaxSize {d : Database C} (h : d.objects.WF) (s : ℕ) : (d.setMaxSize s).objects.WF :=
  ⟨h.enabled, h.fresh, h.coherent⟩

/-- The two halves of a block, with the change of the bounds between them. -/
theorem Within.applies_trans {d d₁ d' : Database C} {b : SignedBlock C} (h : Within depth d d₁)
    (h' : Within depth (d₁.setMaxSize (nextMaxSize d.state b)) d')
    (hroom : depth + 1 ≤ nextMaxSize d.state b) : Applies depth b d d' where
  wf := h'.wf
  active := h'.active.trans h.active
  history := by
    obtain ⟨k, hk, hle⟩ := h.history
    obtain ⟨k', hk', hle'⟩ := h'.history
    have hmax : d'.maxSize = nextMaxSize d.state b := h'.maxSize_eq
    refine ⟨min k' k, ?_, ?_⟩
    · rw [hk', ← List.take_take, ← hk]
      rfl
    · change nextMaxSize d.state b + 1 ≤ k' + depth at hle'
      rw [hmax]
      omega
  sizes := by
    refine Or.inr ⟨h'.maxSize_eq, ?_⟩
    have hfork : d₁.forkDb = d.forkDb := by rw [h.eq]
    rw [h'.eq, ← hfork]
    rfl
  room := by
    rw [h'.maxSize_eq]
    exact hroom
  eq := by
    have hlog : d₁.blockIdToBlock = d.blockIdToBlock := by rw [h.eq]
    have hpending : d₁.pendingTx = d.pendingTx := by rw [h.eq]
    have hsession : d₁.pendingTxSession = d.pendingTxSession := by rw [h.eq]
    have hpopped : d₁.poppedTx = d.poppedTx := by rw [h.eq]
    rw [h'.eq, Database.setMaxSize, hlog, hpending, hsession, hpopped]

/-- **Applying a block to a node does what it means for the state.** -/
theorem applyBlock_spec {b : SignedBlock C} (hP : P.BlockNests depth b) {d : Database C}
    (hwf : d.objects.WF) (hne : d.objects.history ≠ []) (hbase : Base d.state)
    (hroom : depth + 1 ≤ d.maxSize)
    (hlag : ∀ ix, P.applyUntilHead d.state b = some ix →
      d.state.lastIrreversible + depth ≤ b.blockNum) :
    ∃ d', Applies depth b d d' ∧
      match P.applyBlock d.state b with
      | some ix => Database.applyBlock P b d = .ok () d' ∧ d'.state = ix ∧
          d'.maxSize = nextMaxSize d.state b ∧
          d'.forkDb = d.forkDb.setMaxSize (nextMaxSize d.state b)
      | none => Database.applyBlock P b d = .error () d' := by
  obtain ⟨dgp, hdgp⟩ := hbase.dgp
  have hle : depth ≤ d.maxSize := by omega
  obtain ⟨d₁, h₁⟩ := applyUntilHead_does hP hwf hne hle
  rw [Protocol.applyBlock]
  cases huntil : P.applyUntilHead d.state b with
  | none =>
    obtain ⟨hwithin, herr⟩ := h₁.of_none huntil
    exact ⟨d₁, hwithin.applies hroom, bind_error herr⟩
  | some ix₁ =>
    obtain ⟨hwithin, hok, rfl⟩ := h₁.of_some huntil
    have hcall : Database.applyBlock P b d = Database.applyFromHead P b d₁ := bind_ok hok
    rw [hcall, Option.bind_some]
    obtain ⟨-, hdgp₁⟩ := Protocol.applyUntilHead_spec hdgp huntil
    have hs : d₁.state.headBlockNum - d₁.state.lastIrreversible + 1 = nextMaxSize d.state b := by
      simp [nextMaxSize, Indexes.headBlockNum, Indexes.lastIrreversible, hdgp, hdgp₁]
    have hlag := hlag _ huntil
    by_cases hlt : d₁.state.headBlockNum - d₁.state.lastIrreversible < maxUndoHistory
    · have hroom₂ : depth + 1 ≤ nextMaxSize d.state b := by
        rw [nextMaxSize]
        omega
      obtain ⟨d', h'⟩ := applyFromHead_does hP
        (wf_setMaxSize hwithin.wf (nextMaxSize d.state b)) (hwithin.history_ne_nil hle hne)
        (Nat.le_of_succ_le hroom₂)
      have hcall₂ : Database.applyFromHead P b d₁ = (do
          Database.run fun ix ↦ (P.updateSigningWitness ix b).1
          Database.run P.updateLastIrreversible
          Database.run fun ix ↦ (P.finishBlock ix b).1)
          (d₁.setMaxSize (nextMaxSize d.state b)) := by
        rw [Database.applyFromHead, bind_ok (get_apply d₁), if_pos hlt, ← hs]
        rfl
      have hres : P.applyFromHead d₁.state b =
          ((P.updateSigningWitness d₁.state b).1.eval d₁.state).bind fun ix ↦
            ((P.updateLastIrreversible ix).eval ix).bind fun ix ↦
              (P.finishBlock ix b).1.eval ix := by
        rw [Protocol.applyFromHead, if_pos hlt]
        rfl
      have hdoes := (congrArg (Does depth _ _ d') hres).mpr h'
      refine ⟨d', hwithin.applies_trans hdoes.1 hroom₂, ?_⟩
      rw [hcall₂]
      cases hr : P.applyFromHead d₁.state b with
      | none => exact (hdoes.of_none hr).2
      | some ix =>
        obtain ⟨hwithin', hok', hix⟩ := hdoes.of_some hr
        have hfork : d₁.forkDb = d.forkDb := by rw [hwithin.eq]
        refine ⟨hok', hix, hwithin'.maxSize_eq, ?_⟩
        rw [hwithin'.eq, ← hfork]
        rfl
    · refine ⟨d₁, hwithin.applies hroom, ?_⟩
      rw [Protocol.applyFromHead, if_neg hlt, Database.applyFromHead, bind_ok (get_apply d₁),
        if_neg hlt]
      rfl

/-! ## Sessions -/

theorem inSession_ok {α : Type} {finish : Session → ObjectDatabase (ChainObject C) →
      Option (ObjectDatabase (ChainObject C) × Session)} {body : DatabaseM C α}
    {d d₁ d₂ : Database C} {s s' : Session} {a : α} {objects : ObjectDatabase (ChainObject C)}
    (hstart : Database.startUndoSession d = .ok s d₁) (hbody : body d₁ = .ok a d₂)
    (hfinish : finish s d₂.objects = some (objects, s')) :
    Database.inSession finish body d = .ok a { d₂ with objects } := by
  rw [Database.inSession, bind_ok hstart]
  refine tryCatch_ok ?_
  rw [bind_ok hbody]
  refine (bind_ok (m := Database.onObjects _) (a := ()) ?_).trans rfl
  rw [Database.onObjects, hfinish]
  rfl

theorem inSession_error {α : Type} {finish : Session → ObjectDatabase (ChainObject C) →
      Option (ObjectDatabase (ChainObject C) × Session)} {body : DatabaseM C α}
    {d d₁ d₂ : Database C} {s : Session} {objects : ObjectDatabase (ChainObject C)}
    (hstart : Database.startUndoSession d = .ok s d₁) (hbody : body d₁ = .error () d₂)
    (hdestroy : s.destroy d₂.objects = some objects) :
    Database.inSession finish body d = .error () { d₂ with objects } := by
  rw [Database.inSession, bind_ok hstart]
  have hbody' : (do
      let a ← body
      Database.onObjects fun db ↦ (finish s db).map Prod.fst
      return a : DatabaseM C α) d₁ = .error () d₂ := bind_error hbody
  refine (tryCatch_error hbody').trans ?_
  refine (bind_ok (m := Database.onObjects _) (a := ()) ?_).trans rfl
  rw [Database.onObjects, hdestroy]

theorem destroy_eq_undo (db : ObjectDatabase (ChainObject C)) :
    ({} : Session).destroy db = db.undo := by
  rw [Session.destroy]
  exact Option.map_id'

namespace Database.OnChain

variable {g : ChainState C} {chain : List (SignedBlock C)} {d : Database C}

theorem state_eq_headState (hidle : d.pendingTxSession = none) : d.state = d.headState := by
  rw [Database.headState, hidle]

theorem dgp_eq_of_idle (hidle : d.pendingTxSession = none) (dgp : DynamicGlobalProperties C)
    (hdgp : d.headState.dgp? = some dgp) : d.state.dgp? = some dgp := by
  rwa [state_eq_headState hidle]

theorem history_eq_copies (hidle : d.pendingTxSession = none) :
    d.objects.history = d.copies := by
  rw [Database.copies, hidle]

theorem active_eq_zero (h : d.OnChain P g depth chain) (hidle : d.pendingTxSession = none) :
    d.objects.undoDb.activeSessions = 0 := by
  rcases h.session with ⟨-, hactive⟩ | ⟨hsome, -⟩
  · exact hactive
  · rw [hidle] at hsome
    cases hsome

theorem stateAt_eq (h : d.OnChain P g depth chain) (hidle : d.pendingTxSession = none) :
    P.stateAt g chain = some d.state := by
  rw [state_eq_headState hidle]
  exact h.state_eq

/-- The properties of the head block can be read whatever is pending. -/
theorem dgp?_eq (h : d.OnChain P g depth chain) (hg : Base g) :
    d.state.dgp? = d.headState.dgp? := by
  obtain ⟨⟨⟨dgp, hdgp⟩, -, -⟩, -⟩ := Protocol.stateAt_spec hg h.state_eq
  rw [hdgp]
  exact h.dgp_eq dgp hdgp

theorem recorded (h : d.OnChain P g depth chain) (hidle : d.pendingTxSession = none) :
    Recorded P g chain d.objects.history := by
  rw [history_eq_copies hidle]
  exact h.copies

/-- What a block finds in its session, and what it leaves there. -/
theorem applyBlock_spec (h : d.OnChain P g depth chain) (hidle : d.pendingTxSession = none)
    (hg : Base g) (hlag : P.Lags g depth) {b : SignedBlock C} (hP : P.BlockNests depth b) :
    ∃ d₁ d₂, Database.startUndoSession d = .ok {} d₁ ∧ d₁.state = d.state ∧
      d₁.maxSize = d.maxSize ∧ Applies depth b d₁ d₂ ∧
      d₂ = { d with objects := d₂.objects, forkDb := d₂.forkDb } ∧
      d₂.objects.undoDb.activeSessions = 1 ∧
      (∃ k, d₂.objects.history = d.state :: d.objects.history.take k ∧
        min d.maxSize d₂.maxSize ≤ k + depth) ∧
      (d₂.maxSize = d.maxSize ∧ d₂.forkDb = d.forkDb ∨
        d₂.maxSize = nextMaxSize d.state b ∧
          d₂.forkDb = d.forkDb.setMaxSize (nextMaxSize d.state b)) ∧
      match P.applyBlock d.state b with
      | some ix => Database.applyBlock P b d₁ = .ok () d₂ ∧ d₂.state = ix ∧
          d₂.maxSize = nextMaxSize d.state b ∧
          d₂.forkDb = d.forkDb.setMaxSize (nextMaxSize d.state b)
      | none => Database.applyBlock P b d₁ = .error () d₂ := by
  have hstate := h.stateAt_eq hidle
  obtain ⟨hbase, -⟩ := Protocol.stateAt_spec hg hstate
  obtain ⟨objects, hstart, hwf₁, hix₁, hhist₁, hactive₁, hmax₁⟩ := h.wf.startUndoSession false
  set d₁ : Database C := { d with objects } with hd₁
  have hstart₁ : Database.startUndoSession d = .ok {} d₁ := by
    rw [Database.startUndoSession, hstart]
  have hstate₁ : d₁.state = d.state := hix₁
  have hmaxd₁ : d₁.maxSize = d.maxSize := hmax₁
  obtain ⟨d₂, happlies, hout⟩ := Graphene.applyBlock_spec hP (d := d₁) hwf₁
    (by rw [hhist₁]; exact List.cons_ne_nil _ _) (hstate₁ ▸ hbase) (hmaxd₁ ▸ h.room)
    (fun ix hix ↦ hstate₁ ▸ hlag chain d.state b ix hstate (hstate₁ ▸ hix))
  refine ⟨d₁, d₂, hstart₁, hstate₁, hmaxd₁, happlies, ?_, ?_, ?_, ?_, ?_⟩
  · exact happlies.eq
  · rw [happlies.active, hactive₁, h.active_eq_zero hidle]
  · obtain ⟨k, hk, hle⟩ := happlies.history
    rw [hmaxd₁] at hle
    have hroom := happlies.room
    have hroom' := h.room
    obtain ⟨j, rfl⟩ : ∃ j, k = j + 1 := ⟨k - 1, by omega⟩
    refine ⟨min j d.maxSize, ?_, by omega⟩
    rw [hk, hhist₁, List.take_succ_cons, List.take_take]
    rfl
  · have hsizes := happlies.sizes
    rw [hstate₁, hmaxd₁] at hsizes
    exact hsizes
  · rw [hstate₁] at hout
    exact hout

/-- **A block that applies** becomes the top of the chain. -/
theorem applyAndStore_ok (h : d.OnChain P g depth chain) (hidle : d.pendingTxSession = none)
    (hg : Base g) (hlag : P.Lags g depth) {b : SignedBlock C} (hP : P.BlockNests depth b)
    {ix : ChainState C} (happly : P.applyBlock d.state b = some ix) (id : BlockId C) :
    ∃ d', Database.applyAndStore P id b d = .ok () d' ∧ d'.OnChain P g depth (b :: chain) ∧
      d'.state = ix ∧ d'.maxSize = nextMaxSize d.state b ∧
      (∃ hist, d'.objects.history = d.state :: hist ∧
        Kept d.state (min d.maxSize d'.maxSize - depth) d.objects.history hist) ∧
      d' = { d with
        objects := d'.objects
        forkDb := d.forkDb.setMaxSize (nextMaxSize d.state b)
        blockIdToBlock := d.blockIdToBlock.store P id b } := by
  obtain ⟨d₁, d₂, hstart, -, -, happlies, heq, hactive, ⟨k, hk, hle⟩, -, hout⟩ :=
    h.applyBlock_spec hidle hg hlag hP
  rw [happly] at hout
  obtain ⟨hok, rfl, hmax, hfork⟩ := hout
  set objects : ObjectDatabase (ChainObject C) := { d₂.objects with
    undoDb := { d₂.objects.undoDb with activeSessions := 0 } } with hobjects
  have hcommit : Session.commit {} d₂.objects = some (objects, { applyUndo := false }) := by
    rw [Session.commit, ObjectDatabase.commit, if_neg (by rw [hactive]; exact one_ne_zero), hactive]
    rfl
  have hbody : (do
      Database.applyBlock P b
      Database.onLog fun log ↦ some (log.store P id b)) d₁ =
      .ok () { d₂ with blockIdToBlock := d₂.blockIdToBlock.store P id b } := bind_ok hok
  have hlog : d₂.blockIdToBlock = d.blockIdToBlock := by rw [heq]
  have hsession : d₂.pendingTxSession = none := by rw [heq]; exact hidle
  refine ⟨_, inSession_ok hstart hbody hcommit, ?_, rfl, hmax,
    ⟨_, hk, k, Nat.sub_le_of_le_add hle, Or.inl rfl⟩, ?_⟩
  · have hwf : objects.WF := ⟨happlies.wf.enabled, happlies.wf.fresh, happlies.wf.coherent⟩
    refine ⟨hwf, Or.inl ⟨hsession, rfl⟩, happlies.room, ?_, ?_, dgp_eq_of_idle hsession⟩
    · have hstate : P.stateAt g (b :: chain) = some d₂.state := by
        rw [Protocol.stateAt, h.stateAt_eq hidle, Option.bind_some, happly]
      rw [hstate, Database.headState]
      simp only [hsession]
      rfl
    · have hhist : objects.history = d.state :: d.objects.history.take k := hk
      simp only [Database.copies, hsession, hhist]
      exact Recorded.block (h.stateAt_eq hidle) ((h.recorded hidle).take k)
  · rw [heq]
    simp only [hfork]

/-- **A block that does not apply** leaves the state as it was; it may have set the bounds of the
undo stack and the fork database, and its session has dropped the copies beyond the bound. -/
theorem applyAndStore_error (h : d.OnChain P g depth chain) (hidle : d.pendingTxSession = none)
    (hg : Base g) (hlag : P.Lags g depth) {b : SignedBlock C} (hP : P.BlockNests depth b)
    (happly : P.applyBlock d.state b = none) (id : BlockId C) :
    ∃ d', Database.applyAndStore P id b d = .error () d' ∧ d'.OnChain P g depth chain ∧
      d'.state = d.state ∧
      Kept d.state (min d.maxSize d'.maxSize - depth) d.objects.history d'.objects.history ∧
      (d'.maxSize = d.maxSize ∧ d'.forkDb = d.forkDb ∨
        d'.maxSize = nextMaxSize d.state b ∧
          d'.forkDb = d.forkDb.setMaxSize (nextMaxSize d.state b)) ∧
      d' = { d with objects := d'.objects, forkDb := d'.forkDb } := by
  obtain ⟨d₁, d₂, hstart, -, -, happlies, heq, hactive, ⟨k, hk, hle⟩, hsizes, hout⟩ :=
    h.applyBlock_spec hidle hg hlag hP
  rw [happly] at hout
  obtain ⟨objects, hundo, hwf, hix, hhist, hactive', hmax⟩ :=
    happlies.wf.undo (by rw [hactive]; exact one_ne_zero) hk
  have hbody : (do
      Database.applyBlock P b
      Database.onLog fun log ↦ some (log.store P id b)) d₁ = .error () d₂ := bind_error hout
  have hsession : d₂.pendingTxSession = none := by rw [heq]; exact hidle
  have hmaxd : ({ d₂ with objects } : Database C).maxSize = d₂.maxSize := hmax
  have hkept : Kept d.state (min d.maxSize d₂.maxSize - depth) d.objects.history
      objects.history := by
    refine ⟨k, Nat.sub_le_of_le_add hle, ?_⟩
    rw [hhist]
    split_ifs with hempty
    · exact Or.inr ⟨List.isEmpty_iff.1 hempty, rfl⟩
    · exact Or.inl rfl
  refine ⟨_, inSession_error hstart hbody ((destroy_eq_undo _).trans hundo), ?_, hix,
    hmaxd ▸ hkept, hmaxd ▸ hsizes, ?_⟩
  · refine ⟨hwf, Or.inl ⟨hsession, ?_⟩, hmaxd ▸ happlies.room, ?_, ?_, dgp_eq_of_idle hsession⟩
    · rw [hactive', hactive]
    · simp only [Database.headState, hsession]
      rw [h.stateAt_eq hidle]
      exact congrArg some hix.symm
    · simp only [Database.copies, hsession]
      exact hkept.recorded (h.recorded hidle) (h.stateAt_eq hidle)
  · rw [heq]

/-! ## Taking back -/

/-- What is left of a pending session is nothing, but the stack is not left empty. -/
theorem resetPendingTxSession_spec (h : d.OnChain P g depth chain) :
    ∃ d', Database.resetPendingTxSession d = .ok () d' ∧ d'.OnChain P g depth chain ∧
      d'.pendingTxSession = none ∧ d'.state = d.headState ∧ d'.maxSize = d.maxSize ∧
      Kept d.headState d.copies.length d.copies d'.objects.history ∧
      d' = { d with objects := d'.objects, pendingTxSession := none } := by
  rcases h.session with ⟨hidle, hactive⟩ | ⟨hsome, hactive, hne⟩
  · refine ⟨d, ?_, h, hidle, state_eq_headState hidle, rfl,
      history_eq_copies hidle ▸ Kept.refl _ _ _, ?_⟩
    · rw [Database.resetPendingTxSession, bind_ok (get_apply d)]
      simp only [hidle]
      rfl
    · obtain ⟨_, _, _, _, _, _⟩ := d
      simp only at hidle
      rw [hidle]
  · obtain ⟨ix, rest, hh⟩ : ∃ ix rest, d.objects.history = ix :: rest :=
      List.exists_cons_of_ne_nil hne
    obtain ⟨objects, hundo, hwf, hix, hhist, hactive', hmax⟩ :=
      h.wf.undo (by rw [hactive]; exact one_ne_zero) hh
    have hhead : d.headState = ix := by simp [Database.headState, hsome, hh]
    have hcopies : d.copies = rest := by simp [Database.copies, hsome, hh]
    have hreset : Database.resetPendingTxSession d =
        .ok () { d with objects, pendingTxSession := none } := by
      rw [Database.resetPendingTxSession, bind_ok (get_apply d)]
      simp only [hsome]
      have hdestroy : Database.onObjects (Session.destroy {}) d = .ok () { d with objects } := by
        rw [Database.onObjects, destroy_eq_undo, hundo]
      exact (bind_ok hdestroy).trans rfl
    have hkept : Kept d.headState d.copies.length d.copies objects.history := by
      refine ⟨d.copies.length, le_rfl, ?_⟩
      rw [List.take_length, hhist, hcopies, hhead]
      cases rest with
      | nil => exact Or.inr ⟨rfl, rfl⟩
      | cons _ _ => exact Or.inl rfl
    refine ⟨_, hreset, ⟨hwf, Or.inl ⟨rfl, ?_⟩, ?_, ?_, ?_, fun _ h ↦ h⟩, rfl,
      hix.trans hhead.symm, hmax, hkept, rfl⟩
    · rw [hactive', hactive]
    · exact h.room.trans_eq hmax.symm
    · rw [h.state_eq, hhead]
      exact congrArg some hix.symm
    · exact hkept.recorded h.copies h.state_eq

theorem resetPendingTxSession_idle (hidle : d.pendingTxSession = none) :
    Database.resetPendingTxSession d = .ok () d := by
  rw [Database.resetPendingTxSession, bind_ok (get_apply d)]
  simp only [hidle]
  rfl

/-- `pop_block` on a node with nothing pending, step by step. -/
theorem popBlock_eq (hidle : d.pendingTxSession = none) :
    Database.popBlock P d =
      match d.fetchBlockById P d.state.headBlockId, d.forkDb.popBlock with
      | some headBlock, some forkDb =>
        match d.blockIdToBlock.remove d.state.headBlockId with
        | some blockIdToBlock =>
          match d.objects.popCommit with
          | some objects => .ok () { d with
              objects, forkDb, blockIdToBlock, poppedTx := headBlock.transactions ++ d.poppedTx }
          | none => .error () { d with forkDb, blockIdToBlock }
        | none => .error () { d with forkDb }
      | _, _ => .error () d := by
  rw [Database.popBlock, bind_ok (resetPendingTxSession_idle hidle), bind_ok (get_apply d)]
  cases hfetch : d.fetchBlockById P d.state.headBlockId with
  | none => rfl
  | some headBlock =>
    cases hfork : d.forkDb.popBlock with
    | none =>
      refine bind_error ?_
      rw [Database.onForkDb, hfork]
    | some forkDb =>
      have h₁ : Database.onForkDb ForkDatabase.popBlock d = .ok () { d with forkDb } := by
        rw [Database.onForkDb, hfork]
      refine (bind_ok h₁).trans ?_
      cases hlog : d.blockIdToBlock.remove d.state.headBlockId with
      | none =>
        refine bind_error ?_
        simp only [Database.onLog, hlog]
      | some blockIdToBlock =>
        have h₂ : Database.onLog (·.remove d.state.headBlockId) { d with forkDb } =
            .ok () { d with forkDb, blockIdToBlock } := by
          simp only [Database.onLog, hlog]
        refine (bind_ok h₂).trans ?_
        cases hpop : d.objects.popCommit with
        | none =>
          refine bind_error ?_
          simp only [Database.onObjects, hpop]
        | some objects =>
          have h₃ : Database.onObjects ObjectDatabase.popCommit { d with forkDb, blockIdToBlock } =
              .ok () { d with objects, forkDb, blockIdToBlock } := by
            simp only [Database.onObjects, hpop]
          exact bind_ok h₃

/-- What popping the newest copy does to the objects. -/
theorem popCommit_spec (h : d.OnChain P g depth chain) (hidle : d.pendingTxSession = none)
    (hg : Base g) {s : ChainState C} {rest : List (ChainState C)}
    (hh : d.objects.history = s :: rest) :
    ∃ objects, d.objects.popCommit = some objects ∧ objects.indexes = s ∧
      objects.history = rest ∧ objects.undoDb.maxSize = d.maxSize ∧
      ((s = d.state ∧ rest = [] ∧ ({ d with objects } : Database C).OnChain P g depth chain) ∨
        ∃ b bs, chain = b :: bs ∧ ({ d with objects } : Database C).OnChain P g depth bs ∧
          s.headBlockNum + 1 = d.state.headBlockNum) := by
  obtain ⟨objects, hpop, hwf, hix, hhist, hactive, hmax⟩ :=
    h.wf.popCommit (h.active_eq_zero hidle) hh
  have hrecorded := h.recorded hidle
  rw [hh] at hrecorded
  have hon : ∀ chain', P.stateAt g chain' = some s → Recorded P g chain' rest →
      ({ d with objects } : Database C).OnChain P g depth chain' := by
    intro chain' hs hr
    refine ⟨hwf, Or.inl ⟨hidle, hactive⟩, h.room.trans_eq hmax.symm, ?_, ?_, dgp_eq_of_idle hidle⟩
    · simp only [Database.headState, hidle]
      rw [hs]
      exact congrArg some hix.symm
    · simp only [Database.copies, hidle, hhist]
      exact hr
  refine ⟨objects, hpop, hix, hhist, hmax, ?_⟩
  rcases hrecorded.cons_inv hg (h.stateAt_eq hidle) with ⟨rfl, rfl⟩ | ⟨b, bs, rfl, hs, hr, hnum⟩
  · exact Or.inl ⟨rfl, rfl, hon chain (h.stateAt_eq hidle) (Recorded.nil _)⟩
  · exact Or.inr ⟨b, bs, rfl, hon bs hs hr, hnum⟩

/-- What a `pop_commit` that returns has done. -/
theorem popCommit_inv (h : d.OnChain P g depth chain) (hidle : d.pendingTxSession = none)
    (hg : Base g) {objects : ObjectDatabase (ChainObject C)}
    (hpop : d.objects.popCommit = some objects) :
    ∃ s rest, d.objects.history = s :: rest ∧ objects.indexes = s ∧ objects.history = rest ∧
      objects.undoDb.maxSize = d.maxSize ∧
      ((s = d.state ∧ rest = [] ∧ ({ d with objects } : Database C).OnChain P g depth chain) ∨
        ∃ b bs, chain = b :: bs ∧ ({ d with objects } : Database C).OnChain P g depth bs ∧
          s.headBlockNum + 1 = d.state.headBlockNum) := by
  cases hh : d.objects.history with
  | nil =>
    have hstack : d.objects.undoDb.stack = [] :=
      List.length_eq_zero_iff.1 (by rw [← d.objects.length_history, hh]; rfl)
    rw [ObjectDatabase.popCommit, hstack] at hpop
    split_ifs at hpop
  | cons s rest =>
    obtain ⟨objects', hpop', hspec⟩ := h.popCommit_spec hidle hg hh
    obtain rfl := Option.some_inj.1 (hpop.symm.trans hpop')
    exact ⟨s, rest, rfl, hspec⟩

end Database.OnChain

end Graphene
