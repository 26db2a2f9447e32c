import Graphene.Chain.Block

/-!
# The last irreversible block

Every block is confirmed by the witness that signs it.  After each block
`update_last_irreversible_block` takes the active witness that so many others are ahead of, and
moves the last irreversible block up to the one that this witness last confirmed.

* `length_sub_le_countP` — how many are not below what `nth_element` puts at an offset.
* `WitnessState`, `WitnessState.applyBlock` — what a block does to the confirmations, the active
  witnesses and the last irreversible block.
* `last_irreversible_witnessed` — the last irreversible block only moves up, to a block that as many
  of the active witnesses have confirmed as the threshold asks for, and not past the head block.

Block numbers do not wrap: every block is at least a second after the one before it, and the time is
kept in as many bits.
-/

set_option autoImplicit false

namespace Graphene

/-! ## `nth_element` -/

/-- From its place on, a sorted list has nothing below the element there. -/
theorem length_sub_le_countP_of_sorted {l : List ℕ} (hsorted : l.Pairwise (· ≤ ·)) {k : ℕ}
    (hk : k < l.length) : l.length - k ≤ l.countP fun x ↦ l.getD k 0 ≤ x := by
  have hdrop : ∀ x ∈ l.drop k, l.getD k 0 ≤ x := by
    intro x hx
    rw [List.getD_eq_getElem?_getD, List.getElem?_eq_getElem hk, Option.getD_some]
    rw [List.drop_eq_getElem_cons hk, List.mem_cons] at hx
    rcases hx with rfl | hx
    · exact le_rfl
    · have hcons := hsorted.sublist (List.drop_sublist k l)
      rw [List.drop_eq_getElem_cons hk] at hcons
      exact List.rel_of_pairwise_cons hcons hx
  calc l.length - k = (l.drop k).length := List.length_drop.symm
    _ = (l.drop k).countP fun x ↦ l.getD k 0 ≤ x := by
      rw [eq_comm, List.countP_eq_length]
      simpa using hdrop
    _ ≤ l.countP fun x ↦ l.getD k 0 ≤ x := (List.drop_sublist k l).countP_le

/-- At least `n - k` of `n` elements are not below what `nth_element` puts at the offset `k`. -/
theorem length_sub_le_countP (l : List ℕ) {k : ℕ} (hk : k < l.length) :
    l.length - k ≤ l.countP fun x ↦ (l.insertionSort (· ≤ ·)).getD k 0 ≤ x := by
  have hperm := List.perm_insertionSort (· ≤ ·) l
  have hsorted := length_sub_le_countP_of_sorted (List.pairwise_insertionSort (· ≤ ·) l)
    (hperm.length_eq.symm ▸ hk)
  rwa [hperm.length_eq, hperm.countP_eq] at hsorted

/-- What `nth_element` puts at an offset is one of the elements. -/
theorem getD_insertionSort_mem {l : List ℕ} {k : ℕ} (hk : k < l.length) :
    (l.insertionSort (· ≤ ·)).getD k 0 ∈ l := by
  have hperm := List.perm_insertionSort (· ≤ ·) l
  have hk' : k < (l.insertionSort (· ≤ ·)).length := hperm.length_eq.symm ▸ hk
  rw [List.getD_eq_getElem?_getD, List.getElem?_eq_getElem hk', Option.getD_some]
  exact hperm.mem_iff.1 (List.getElem_mem hk')

/-- Looking up every element of a list. -/
theorem mapM_eq_some {A : Type} {f : A → Option ℕ} {l : List A} {r : List ℕ}
    (h : l.mapM f = some r) : r.length = l.length ∧ (∀ x ∈ r, ∃ a ∈ l, f a = some x) ∧
      ∀ p : ℕ → Bool, r.countP p = l.countP fun a ↦ (f a).any p := by
  induction l generalizing r with
  | nil =>
    cases h
    simp
  | cons a l ih =>
    rw [List.mapM_cons] at h
    obtain ⟨x, hx, h⟩ := Option.bind_eq_some_iff.1 h
    obtain ⟨r, hr, h⟩ := Option.bind_eq_some_iff.1 h
    cases h
    obtain ⟨hlength, hmem, hcount⟩ := ih hr
    refine ⟨by simp [hlength], ?_, fun p ↦ ?_⟩
    · intro y hy
      rcases List.mem_cons.1 hy with rfl | hy
      · exact ⟨a, List.mem_cons_self, hx⟩
      · obtain ⟨b, hb, hf⟩ := hmem y hy
        exact ⟨b, List.mem_cons_of_mem _ hb, hf⟩
    · rw [List.countP_cons, List.countP_cons, hcount, hx]
      rfl

/-! ## Confirmations -/

/-- The instance of a `witness_id_type`. -/
abbrev WitnessId := ℕ

/-- The objects that `update_last_irreversible_block` goes by. -/
structure WitnessState where
  /-- `head_block_number`. -/
  headBlockNumber : ℕ
  /-- `last_irreversible_block_num`. -/
  lastIrreversibleBlockNum : ℕ
  /-- `last_confirmed_block_num` of each witness. -/
  lastConfirmedBlockNum : List ℕ
  /-- `active_witnesses`. -/
  activeWitnesses : List WitnessId
  /-- It is a set. -/
  active_nodup : activeWitnesses.Nodup

/-- What there is in a block about the witnesses. -/
structure WitnessBlock where
  /-- `witness`, who signs the block. -/
  witness : WitnessId
  /-- How many witnesses its transactions create. -/
  created : ℕ
  /-- The witnesses that maintenance makes the active ones, if it is due. -/
  elected : Option (List WitnessId)
  /-- `skip_undo_history_check` is not set. -/
  checksHistory : Bool

namespace WitnessState

/-- The `last_confirmed_block_num` of each active witness, if they all exist. -/
def confirmations (s : WitnessState) : Option (List ℕ) :=
  s.activeWitnesses.mapM (s.lastConfirmedBlockNum[·]?)

/-- `update_global_dynamic_data`. -/
def updateGlobalDynamicData (s : WitnessState) (b : WitnessBlock) : Option WitnessState :=
  let s := { s with headBlockNumber := s.headBlockNumber + 1 }
  if b.checksHistory && ¬ s.headBlockNumber - s.lastIrreversibleBlockNum < maxUndoHistory then none
  else some s

/-- `update_signing_witness`. -/
def updateSigningWitness (s : WitnessState) (b : WitnessBlock) : Option WitnessState :=
  if b.witness < s.lastConfirmedBlockNum.length then
    some { s with
      lastConfirmedBlockNum := s.lastConfirmedBlockNum.set b.witness s.headBlockNumber }
  else none

/-- `update_last_irreversible_block`; with no active witness it reads past the end. -/
def updateLastIrreversibleBlock (s : WitnessState) : Option WitnessState := do
  let confirmations ← s.confirmations
  if confirmations.isEmpty then none
  else
    let num := newLastIrreversible confirmations
    if num > s.lastIrreversibleBlockNum then some { s with lastIrreversibleBlockNum := num }
    else some s

/-- `perform_chain_maintenance`, as far as it elects witnesses. -/
def performChainMaintenance (s : WitnessState) (b : WitnessBlock) : Option WitnessState :=
  match b.elected with
  | none => some s
  | some elected =>
    if h : elected.Nodup then some { s with activeWitnesses := elected, active_nodup := h }
    else none

/-- The transactions of a block: a new witness has confirmed nothing. -/
def applyTransactions (s : WitnessState) (b : WitnessBlock) : WitnessState :=
  { s with lastConfirmedBlockNum := s.lastConfirmedBlockNum ++ List.replicate b.created 0 }

/-- `_apply_block`. -/
def applyBlock (s : WitnessState) (b : WitnessBlock) : Option WitnessState := do
  let s ← (s.applyTransactions b).updateGlobalDynamicData b
  let s ← s.updateSigningWitness b
  let s ← s.updateLastIrreversibleBlock
  s.performChainMaintenance b

/-- The state after a chain of blocks. -/
def applyBlocks (s : WitnessState) (bs : List WitnessBlock) : Option WitnessState :=
  bs.foldlM applyBlock s

/-! ## The invariant -/

/-- Nothing above the head block has been confirmed or is irreversible. -/
structure Sound (s : WitnessState) : Prop where
  /-- The last irreversible block is not above the head block. -/
  irreversible_le : s.lastIrreversibleBlockNum ≤ s.headBlockNumber
  /-- No witness has confirmed a block above it. -/
  confirmed_le : ∀ n ∈ s.lastConfirmedBlockNum, n ≤ s.headBlockNumber

/-- How many of `n` active witnesses have to have confirmed a block that becomes irreversible. -/
def quorum (n : ℕ) : ℕ := n - (hundredPercent - irreversibleThreshold) * n / hundredPercent

/-- How many of the active witnesses `active` have confirmed the block `num`. -/
def confirming (s : WitnessState) (active : List WitnessId) (num : ℕ) : ℕ :=
  active.countP fun w ↦ s.lastConfirmedBlockNum[w]?.any (num ≤ ·)

/-- What `update_last_irreversible_block` does: it leaves the last irreversible block, or moves it
up to one that a quorum has confirmed. -/
theorem updateLastIrreversibleBlock_spec {s s' : WitnessState}
    (h : s.updateLastIrreversibleBlock = some s') :
    s' = s ∨ ∃ num, s' = { s with lastIrreversibleBlockNum := num } ∧
      s.lastIrreversibleBlockNum < num ∧ num ∈ s.lastConfirmedBlockNum ∧
      quorum s.activeWitnesses.length ≤ s.confirming s.activeWitnesses num := by
  obtain ⟨confirmations, hconf, h⟩ := Option.bind_eq_some_iff.1 h
  obtain ⟨hlength, hmem, hcount⟩ := mapM_eq_some hconf
  split at h
  · cases h
  · next hne =>
    dsimp only at h
    split at h
    · next hlt =>
      have hpos : 0 < confirmations.length := by
        rw [List.length_pos_iff, ← List.isEmpty_eq_false_iff]
        simpa using hne
      have hk : (hundredPercent - irreversibleThreshold) * confirmations.length / hundredPercent <
          confirmations.length := by
        rw [hundredPercent, irreversibleThreshold, hundredPercent]
        omega
      cases h
      refine .inr ⟨_, rfl, hlt, ?_, ?_⟩
      · obtain ⟨w, -, hw⟩ := hmem _ (getD_insertionSort_mem hk)
        exact List.mem_of_getElem? hw
      · rw [quorum, ← hlength, confirming, ← hcount]
        exact length_sub_le_countP confirmations hk
    · cases h
      exact .inl rfl

/-! ## One block -/

/-- What a block does to the last irreversible block: it leaves it, or moves it up to one that a
quorum of the witnesses that were active has confirmed. -/
structure Advances (s s' : WitnessState) : Prop where
  /-- It does not move down. -/
  irreversible_le : s.lastIrreversibleBlockNum ≤ s'.lastIrreversibleBlockNum
  /-- Where it moves up, a quorum of the active witnesses has confirmed. -/
  confirmed : s.lastIrreversibleBlockNum < s'.lastIrreversibleBlockNum →
    quorum s.activeWitnesses.length ≤
      s'.confirming s.activeWitnesses s'.lastIrreversibleBlockNum

theorem Sound.applyTransactions {s : WitnessState} (h : s.Sound) (b : WitnessBlock) :
    (s.applyTransactions b).Sound where
  irreversible_le := h.irreversible_le
  confirmed_le n hn := by
    rcases List.mem_append.1 hn with hn | hn
    · exact h.confirmed_le n hn
    · rw [List.eq_of_mem_replicate hn]
      exact Nat.zero_le _

theorem updateGlobalDynamicData_spec {s s' : WitnessState} {b : WitnessBlock}
    (h : s.updateGlobalDynamicData b = some s') :
    s' = { s with headBlockNumber := s.headBlockNumber + 1 } := by
  rw [updateGlobalDynamicData] at h
  split at h
  · cases h
  · exact (Option.some_inj.1 h).symm

theorem updateSigningWitness_spec {s s' : WitnessState} {b : WitnessBlock}
    (h : s.updateSigningWitness b = some s') :
    s' = { s with
      lastConfirmedBlockNum := s.lastConfirmedBlockNum.set b.witness s.headBlockNumber } := by
  rw [updateSigningWitness] at h
  split at h
  · exact (Option.some_inj.1 h).symm
  · cases h

theorem performChainMaintenance_spec {s s' : WitnessState} {b : WitnessBlock}
    (h : s.performChainMaintenance b = some s') :
    s'.headBlockNumber = s.headBlockNumber ∧
      s'.lastIrreversibleBlockNum = s.lastIrreversibleBlockNum ∧
      s'.lastConfirmedBlockNum = s.lastConfirmedBlockNum := by
  rw [performChainMaintenance] at h
  split at h
  · cases h
    exact ⟨rfl, rfl, rfl⟩
  · split at h
    · cases h
      exact ⟨rfl, rfl, rfl⟩
    · cases h

/-- **One block** keeps the invariant and moves the last irreversible block as it should. -/
theorem Sound.applyBlock {s s' : WitnessState} {b : WitnessBlock} (hs : s.Sound)
    (h : s.applyBlock b = some s') : s'.Sound ∧ Advances s s' := by
  rw [WitnessState.applyBlock] at h
  obtain ⟨s₁, h₁, h⟩ := Option.bind_eq_some_iff.1 h
  obtain ⟨s₂, h₂, h⟩ := Option.bind_eq_some_iff.1 h
  obtain ⟨s₃, h₃, h₄⟩ := Option.bind_eq_some_iff.1 h
  have htrx := hs.applyTransactions b
  obtain rfl := updateGlobalDynamicData_spec h₁
  obtain rfl := updateSigningWitness_spec h₂
  obtain ⟨hhead, hlib, hconf⟩ := performChainMaintenance_spec h₄
  -- the witness that signs the block confirms the head block
  have hsigned : ∀ n ∈ (s.applyTransactions b).lastConfirmedBlockNum.set b.witness
      (s.headBlockNumber + 1), n ≤ s.headBlockNumber + 1 := by
    intro n hn
    rcases List.mem_or_eq_of_mem_set hn with hn | rfl
    · exact (htrx.confirmed_le n hn).trans (Nat.le_succ _)
    · exact le_rfl
  rcases updateLastIrreversibleBlock_spec h₃ with rfl | ⟨num, rfl, hlt, hmem, hquorum⟩
  · refine ⟨⟨?_, ?_⟩, ⟨hlib.ge, fun hlt ↦ absurd hlib.symm hlt.ne⟩⟩
    · rw [hlib, hhead]
      exact hs.irreversible_le.trans (Nat.le_succ _)
    · rw [hconf, hhead]
      exact hsigned
  · refine ⟨⟨?_, ?_⟩, ⟨?_, fun _ ↦ ?_⟩⟩
    · rw [hlib, hhead]
      exact hsigned num hmem
    · rw [hconf, hhead]
      exact hsigned
    · rw [hlib]
      exact hlt.le
    · rw [confirming, hconf, hlib]
      exact hquorum

/-! ## Runs -/

/-- The state that genesis leaves: no block yet, and nothing confirmed. -/
structure Genesis (s : WitnessState) : Prop where
  /-- There is no block. -/
  headBlockNumber_eq : s.headBlockNumber = 0
  /-- None is irreversible. -/
  lastIrreversibleBlockNum_eq : s.lastIrreversibleBlockNum = 0
  /-- None is confirmed. -/
  confirmed_eq : ∀ n ∈ s.lastConfirmedBlockNum, n = 0

theorem Genesis.sound {s : WitnessState} (h : s.Genesis) : s.Sound where
  irreversible_le := by
    rw [h.lastIrreversibleBlockNum_eq]
    exact Nat.zero_le _
  confirmed_le n hn := by
    rw [h.confirmed_eq n hn]
    exact Nat.zero_le _

/-- A chain of blocks keeps the invariant and never moves the last irreversible block down. -/
theorem Sound.applyBlocks {s s' : WitnessState} {bs : List WitnessBlock} (hs : s.Sound)
    (h : s.applyBlocks bs = some s') :
    s'.Sound ∧ s.lastIrreversibleBlockNum ≤ s'.lastIrreversibleBlockNum := by
  induction bs generalizing s with
  | nil =>
    obtain rfl := Option.some_inj.1 h
    exact ⟨hs, le_rfl⟩
  | cons b bs ih =>
    rw [WitnessState.applyBlocks, List.foldlM_cons] at h
    obtain ⟨s₁, h₁, h⟩ := Option.bind_eq_some_iff.1 h
    obtain ⟨hs₁, hadvances⟩ := hs.applyBlock h₁
    obtain ⟨hs', hle⟩ := ih hs₁ h
    exact ⟨hs', hadvances.irreversible_le.trans hle⟩

/-- **The last irreversible block is monotone and witnessed.**  Along every chain of blocks from
genesis it never moves down and is never above the head block, and a block that moves it up finds it
confirmed by at least `n - ⌊(100% - threshold) n / 100%⌋` of the `n` active witnesses. -/
theorem last_irreversible_witnessed {g s : WitnessState} {bs : List WitnessBlock}
    (hg : g.Genesis) (hs : g.applyBlocks bs = some s) :
    s.lastIrreversibleBlockNum ≤ s.headBlockNumber ∧
      (∀ b s', s.applyBlock b = some s' → Advances s s') ∧
      ∀ bs' s', s.applyBlocks bs' = some s' →
        s.lastIrreversibleBlockNum ≤ s'.lastIrreversibleBlockNum ∧
        s'.lastIrreversibleBlockNum ≤ s'.headBlockNumber := by
  obtain ⟨hsound, -⟩ := hg.sound.applyBlocks hs
  refine ⟨hsound.irreversible_le, fun b s' h ↦ (hsound.applyBlock h).2, fun bs' s' h ↦ ?_⟩
  obtain ⟨hsound', hle⟩ := hsound.applyBlocks h
  exact ⟨hle, hsound'.irreversible_le⟩

/-- Three witnesses, all of them active. -/
def threeWitnesses : WitnessState where
  headBlockNumber := 0
  lastIrreversibleBlockNum := 0
  lastConfirmedBlockNum := [0, 0, 0]
  activeWitnesses := [0, 1, 2]
  active_nodup := by decide

/-- A block of a witness, and the witnesses elected after it. -/
def signedBy (w : WitnessId) (elected : Option (List WitnessId)) : WitnessBlock :=
  ⟨w, 0, elected, true⟩

theorem last_irreversible_witnessed_three :
    ∃ s, threeWitnesses.applyBlocks [signedBy 0 none, signedBy 1 none, signedBy 2 (some [1, 2])] =
        some s ∧ s.lastIrreversibleBlockNum = 2 ∧
      s.lastIrreversibleBlockNum ≤ s.headBlockNumber ∧
      (∀ b s', s.applyBlock b = some s' → Advances s s') ∧
      ∀ bs' s', s.applyBlocks bs' = some s' →
        s.lastIrreversibleBlockNum ≤ s'.lastIrreversibleBlockNum ∧
        s'.lastIrreversibleBlockNum ≤ s'.headBlockNumber := by
  have hrun : (threeWitnesses.applyBlocks [signedBy 0 none, signedBy 1 none,
      signedBy 2 (some [1, 2])]).map lastIrreversibleBlockNum = some 2 := by
    decide
  obtain ⟨s, hs, hlib⟩ := Option.map_eq_some_iff.1 hrun
  have hgenesis : threeWitnesses.Genesis := ⟨rfl, rfl, by decide⟩
  exact ⟨s, hs, hlib, last_irreversible_witnessed hgenesis hs⟩

end WitnessState

end Graphene
