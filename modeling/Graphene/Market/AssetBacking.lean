import Graphene.Market.AssetUpdates

/-!
# What blockchain-controlled assets are backed by

A market-issued asset of the committee is to be backed by core, or by an asset that is backed by
core.  This is checked when the committee becomes the issuer, and when the backing is changed; but
there it is the backing that the asset has so far that is checked, and nobody asks what the asset
itself is the backing of.

* `AssetChain.BackedByCore` — every asset of the committee is backed as it is to be.
* `AssetChain.backingOf` — what an asset is backed by; `AssetChain.backingOf_step`.
* `KeepsBacking` — another backing does no harm.
* `backed_by_core_iff` — the assets stay backed exactly along the runs in which none does.
-/

set_option autoImplicit false

namespace Graphene

open Transitions

/-! ## The assets of the committee -/

namespace AssetChain

variable (s : AssetChain)

/-- What an asset is backed by, if there is the asset, and if it is market-issued. -/
def backingOf (id : AssetId) : Option (Option AssetId) :=
  (s.assets id).map fun a ↦ a.bitasset.map fun b ↦ b.options.shortBackingAsset

/-- Every market-issued asset of the committee passes the check. -/
def BackedByCore : Prop :=
  ∀ id a b, s.assets id = some a → a.issuer = committeeAccount → a.bitasset = some b →
    s.checkBacking b = some ()

variable {s}

theorem backingOf_of_assets {id : AssetId} {a : IssuedAsset} (ha : s.assets id = some a) :
    s.backingOf id = some (a.bitasset.map fun b ↦ b.options.shortBackingAsset) := by
  rw [backingOf, ha, Option.map_some]

/-- The check is about the backing, and about what that is backed by. -/
theorem checkBacking_eq_some {b : Bitasset} : s.checkBacking b = some () ↔
    s.backingOf b.options.shortBackingAsset = some none ∧
        b.options.shortBackingAsset = coreAsset ∨
      s.backingOf b.options.shortBackingAsset = some (some coreAsset) ∧
        (s.backingOf coreAsset).isSome := by
  cases hbacking : s.assets b.options.shortBackingAsset with
  | none => simp [checkBacking, backingOf, hbacking]
  | some backing =>
    rw [backingOf_of_assets hbacking]
    cases hb : backing.bitasset with
    | none => simp [checkBacking, hbacking, hb]
    | some b' =>
      simp only [checkBacking, hbacking, hb, Option.bind_eq_bind, Option.bind_some,
        Option.bind_eq_some_iff, Option.guard_eq_some', Option.map_some, Option.some.injEq,
        reduceCtorEq, false_and, false_or]
      constructor
      · rintro ⟨core, hcore, heq⟩
        rw [heq] at hcore
        exact ⟨heq, by rw [backingOf_of_assets hcore, Option.isSome_some]⟩
      · rintro ⟨heq, hsome⟩
        rw [backingOf, Option.isSome_map] at hsome
        obtain ⟨core, hcore⟩ := Option.isSome_iff_exists.1 hsome
        exact ⟨core, heq ▸ hcore, heq⟩

/-- Where the backings are the same, so is the check. -/
theorem checkBacking_congr {s' : AssetChain} {b b' : Bitasset}
    (hb : b'.options.shortBackingAsset = b.options.shortBackingAsset)
    (hbacking : s'.backingOf b.options.shortBackingAsset =
      s.backingOf b.options.shortBackingAsset)
    (hcore : (s'.backingOf coreAsset).isSome = (s.backingOf coreAsset).isSome) :
    s'.checkBacking b' = some () ↔ s.checkBacking b = some () := by
  rw [checkBacking_eq_some, checkBacking_eq_some, hb, hbacking, hcore]

end AssetChain

/-! ## What is changed -/

section steps

variable {N : NthElement PublishedFeed} {s s' : AssetChain} {a a' : IssuedAsset} {id : AssetId}
  {e : AssetEvent}

/-- The backing that an asset is given. -/
def newBacking (id : AssetId) : AssetEvent → Option AssetId
  | .operation (.updateBitasset op) =>
    if op.assetToUpdate = id then some op.newOptions.shortBackingAsset else none
  | _ => none

theorem Bitasset.options_updateMedianFeeds (b : Bitasset) (now : ℕ) :
    (b.updateMedianFeeds N now).options = b.options := by
  rw [updateMedianFeeds]
  split <;> rfl

/-- An asset has the backing that it is given, or the one that it had. -/
theorem IssuedAsset.Becomes.backing (h : a.Becomes N s id e a') :
    a'.bitasset.map (fun b ↦ b.options.shortBackingAsset) =
      (newBacking id e).or (a.bitasset.map fun b ↦ b.options.shortBackingAsset) := by
  cases h with
  | @rewritten op _ hvalid hid hrewrite =>
    cases op with
    | update op =>
      obtain ⟨_, -, rfl⟩ := Option.map_eq_some_iff.1 hrewrite
      rfl
    | updateBitasset op =>
      obtain ⟨b, -, rfl⟩ := Option.map_eq_some_iff.1 hrewrite
      obtain rfl : op.assetToUpdate = id := hid
      simp only [newBacking, if_true, Option.some_or, AssetUpdateBitasset.doApply, Option.map_some]
      split
      · rw [Bitasset.options_updateMedianFeeds]
      · rfl
    | updateFeedProducers op =>
      obtain ⟨b, hevaluate, rfl⟩ := Option.map_eq_some_iff.1 hrewrite
      obtain ⟨-, -, -, hb, -⟩ := AssetUpdateFeedProducers.doEvaluate_eq_some.1 hevaluate
      simp [newBacking, hb, AssetUpdateFeedProducers.doApply, Bitasset.options_updateMedianFeeds]
    | publishFeed op =>
      obtain ⟨b, hevaluate, rfl⟩ := Option.map_eq_some_iff.1 hrewrite
      obtain ⟨-, hb, -⟩ := AssetPublishFeed.doEvaluate_eq_some.1 hevaluate
      simp [newBacking, hb, AssetPublishFeed.doApply, Bitasset.options_updateMedianFeeds]
  | @kept op hid =>
    cases op with
    | updateBitasset op =>
      have hid : op.assetToUpdate ≠ id := hid
      simp [newBacking, hid]
    | update | updateFeedProducers | publishFeed => rfl
  | updateGlobalDynamicData => rfl
  | updateExpiredFeeds =>
    rw [IssuedAsset.updateExpiredFeeds]
    split
    · rfl
    next b hb =>
      simp only [hb, newBacking, Option.none_or, Option.map_some]
      split
      · rw [Bitasset.options_updateMedianFeeds]
      · rfl
  | other =>
    simp only [newBacking, Option.none_or, Option.map_map]
    rfl

/-- An asset that becomes one of the committee has been checked. -/
theorem IssuedAsset.Becomes.checked (h : a.Becomes N s id e a')
    (hissuer : a'.issuer = committeeAccount) :
    a.issuer = committeeAccount ∨
      (∃ op, e = .operation (.update op)) ∧
        ∀ b, a.bitasset = some b → s.checkBacking b = some () := by
  cases h with
  | @rewritten op _ hvalid hid hrewrite =>
    cases op with
    | update op =>
      obtain ⟨_, hevaluate, rfl⟩ := Option.map_eq_some_iff.1 hrewrite
      obtain ⟨-, -, hnew, -⟩ := AssetUpdate.doEvaluate_eq_some.1 hevaluate
      cases hissuer' : op.newIssuer with
      | none =>
        rw [AssetUpdate.doApply, hissuer', Option.getD_none] at hissuer
        exact .inl hissuer
      | some newIssuer =>
        rw [AssetUpdate.doApply, hissuer', Option.getD_some] at hissuer
        replace hissuer : newIssuer = committeeAccount := hissuer
        refine .inr ⟨⟨op, rfl⟩, fun b hb ↦ ?_⟩
        simp only [AssetUpdate.checkNewIssuer, hissuer', hb, Option.bind_eq_bind,
          Option.bind_eq_some_iff, if_pos hissuer] at hnew
        obtain ⟨-, -, hcheck⟩ := hnew
        exact hcheck
    | updateBitasset op =>
      obtain ⟨_, -, rfl⟩ := Option.map_eq_some_iff.1 hrewrite
      exact .inl hissuer
    | updateFeedProducers op =>
      obtain ⟨_, -, rfl⟩ := Option.map_eq_some_iff.1 hrewrite
      exact .inl hissuer
    | publishFeed op =>
      obtain ⟨_, -, rfl⟩ := Option.map_eq_some_iff.1 hrewrite
      exact .inl hissuer
  | kept => exact .inl hissuer
  | updateGlobalDynamicData => exact .inl hissuer
  | updateExpiredFeeds =>
    rw [IssuedAsset.updateExpiredFeeds] at hissuer
    split at hissuer <;> exact .inl hissuer
  | other => exact .inl hissuer

/-- **What every asset is backed by afterwards.** -/
theorem AssetChain.backingOf_step (h : s.step N e = some s') (ha : s.assets id = some a) :
    s'.backingOf id = some ((newBacking id e).or
      (a.bitasset.map fun b ↦ b.options.shortBackingAsset)) := by
  obtain ⟨a', ha'⟩ := AssetChain.exists_assets h ha
  obtain ⟨a₁, ha₁, hbecomes⟩ := AssetChain.exists_becomes h ha'
  obtain rfl := Option.some.inj (ha.symm.trans ha₁)
  rw [AssetChain.backingOf_of_assets ha', hbecomes.backing]

/-- An asset that is given no backing is backed by what it was. -/
theorem AssetChain.backingOf_eq (h : s.step N e = some s') (hnew : newBacking id e = none) :
    s'.backingOf id = s.backingOf id := by
  cases ha : s.assets id with
  | some a =>
    rw [AssetChain.backingOf_step h ha, hnew, Option.none_or, AssetChain.backingOf_of_assets ha]
  | none =>
    cases ha' : s'.assets id with
    | none => rw [backingOf, backingOf, ha, ha']
    | some a' =>
      obtain ⟨a, hsome, -⟩ := AssetChain.exists_becomes h ha'
      rw [ha] at hsome
      cases hsome

/-- An asset is given another backing only if it is market-issued. -/
theorem AssetChain.bitasset_of_newBacking {x : AssetId} (h : s.step N e = some s')
    (hnew : newBacking id e = some x) :
    ∃ op a b, e = .operation (.updateBitasset op) ∧ op.assetToUpdate = id ∧
      op.newOptions.shortBackingAsset = x ∧ s.assets id = some a ∧ a.bitasset = some b := by
  rw [newBacking.eq_def] at hnew
  split at hnew
  next op =>
    split at hnew
    next hid =>
      subst hid
      obtain rfl := Option.some.inj hnew
      obtain ⟨-, a, a', ha, hrewrite, -⟩ := AssetOperation.apply_eq_some.1 h
      obtain ⟨b, hevaluate, -⟩ := Option.map_eq_some_iff.1 hrewrite
      obtain ⟨-, hb, -⟩ := AssetUpdateBitasset.doEvaluate_eq_some.1 hevaluate
      exact ⟨op, a, b, rfl, rfl, rfl, ha, hb⟩
    · cases hnew
  · cases hnew

end steps

/-! ## Which backings do no harm -/

/-- Another backing for an asset does no harm: if the asset is one of the committee, the new one is
not the asset itself and would pass the check; and the asset does not back one of the committee. -/
def KeepsBacking (s : AssetChain) : AssetEvent → Prop
  | .operation (.updateBitasset op) => ∀ a b, s.assets op.assetToUpdate = some a →
      a.bitasset = some b → op.newOptions.shortBackingAsset ≠ b.options.shortBackingAsset →
      (a.issuer = committeeAccount → op.newOptions.shortBackingAsset ≠ op.assetToUpdate ∧
        s.checkBacking { b with options := op.newOptions } = some ()) ∧
      ∀ id a' b', id ≠ op.assetToUpdate → s.assets id = some a' → a'.issuer = committeeAccount →
        a'.bitasset = some b' → b'.options.shortBackingAsset ≠ op.assetToUpdate
  | _ => True

section invariant

variable {N : NthElement PublishedFeed} {s s' : AssetChain} {e : AssetEvent}

/-- The core asset is there, and is not market-issued. -/
def CoreIssued (s : AssetChain) : Prop := s.backingOf coreAsset = some none

theorem CoreIssued.newBacking (hcore : CoreIssued s) (h : s.step N e = some s') :
    newBacking coreAsset e = none := by
  by_contra hne
  obtain ⟨x, hx⟩ := Option.ne_none_iff_exists'.1 hne
  obtain ⟨op, a, b, -, -, -, ha, hb⟩ := AssetChain.bitasset_of_newBacking h hx
  rw [CoreIssued, AssetChain.backingOf_of_assets ha, hb] at hcore
  cases hcore

theorem CoreIssued.step (hcore : CoreIssued s) (h : s.step N e = some s') : CoreIssued s' := by
  rw [CoreIssued, AssetChain.backingOf_eq h (hcore.newBacking h)]
  exact hcore

/-- What the backing of an asset is before. -/
theorem IssuedAsset.Becomes.exists_bitasset {id : AssetId} {a a' : IssuedAsset} {b' : Bitasset}
    (h : a.Becomes N s id e a') (hb' : a'.bitasset = some b')
    (hnew : Graphene.newBacking id e = none) :
    ∃ b, a.bitasset = some b ∧ b'.options.shortBackingAsset = b.options.shortBackingAsset := by
  have hbacking := h.backing
  rw [hb', hnew, Option.none_or, Option.map_some, eq_comm, Option.map_eq_some_iff] at hbacking
  obtain ⟨b, hb, heq⟩ := hbacking
  exact ⟨b, hb, heq.symm⟩

/-- An asset that is given the backing it has is backed by it still. -/
theorem AssetChain.backingOf_eq_of_same {id : AssetId} (h : s.step N e = some s')
    (hsame : ∀ x a b, newBacking id e = some x → s.assets id = some a → a.bitasset = some b →
      x = b.options.shortBackingAsset) : s'.backingOf id = s.backingOf id := by
  cases hnew : newBacking id e with
  | none => exact backingOf_eq h hnew
  | some x =>
    obtain ⟨op, a, b, -, -, -, ha, hb⟩ := bitasset_of_newBacking h hnew
    rw [backingOf_step h ha, backingOf_of_assets ha, hnew, Option.some_or, hb, Option.map_some,
      hsame x a b hnew ha hb]

/-- **Backings that do no harm keep the assets backed.** -/
theorem AssetChain.BackedByCore.step (hs : s.BackedByCore) (hcore : CoreIssued s)
    (h : s.step N e = some s') (hkeeps : KeepsBacking s e) : s'.BackedByCore := by
  intro id a' b' ha' hissuer hb'
  obtain ⟨a, ha, hbecomes⟩ := exists_becomes h ha'
  have hchecked : ∀ b, a.bitasset = some b → s.checkBacking b = some () := by
    intro b hb
    rcases hbecomes.checked hissuer with hcommittee | ⟨-, hcheck⟩
    · exact hs id a b ha hcommittee hb
    · exact hcheck b hb
  have hcoreSome : (s'.backingOf coreAsset).isSome = (s.backingOf coreAsset).isSome := by
    rw [backingOf_eq h (hcore.newBacking h)]
  cases hnew : newBacking id e with
  | none =>
    obtain ⟨b, hb, heq⟩ := hbecomes.exists_bitasset hb' hnew
    -- the asset has kept its backing, so that it is what that is backed by that could have changed
    refine (checkBacking_congr heq (backingOf_eq_of_same h fun x c d hy hc hd ↦ ?_) hcoreSome).2
      (hchecked b hb)
    by_contra hne
    obtain ⟨op, c', d', rfl, hop, rfl, -, -⟩ := bitasset_of_newBacking h hy
    have hid : id ≠ op.assetToUpdate := by
      rintro rfl
      simp [newBacking] at hnew
    have hcommittee : a.issuer = committeeAccount := by
      rcases hbecomes.checked hissuer with hcommittee | ⟨⟨_, heq⟩, -⟩
      · exact hcommittee
      · cases heq
    exact (hkeeps c d (hop ▸ hc) hd hne).2 id a b hid ha hcommittee hb hop.symm
  | some x =>
    obtain ⟨op, a₁, b, rfl, rfl, rfl, ha₁, hb⟩ := bitasset_of_newBacking h hnew
    obtain rfl := Option.some.inj (ha.symm.trans ha₁)
    have hbacking : b'.options.shortBackingAsset = op.newOptions.shortBackingAsset := by
      have hmap := hbecomes.backing
      rw [hb', hnew, Option.some_or, Option.map_some] at hmap
      exact Option.some.inj hmap
    by_cases heq : op.newOptions.shortBackingAsset = b.options.shortBackingAsset
    · refine (checkBacking_congr (hbacking.trans heq) (backingOf_eq_of_same h ?_) hcoreSome).2
        (hchecked b hb)
      intro x c d hx hc hd
      obtain ⟨op', c', d', hop, hid, rfl, -, -⟩ := bitasset_of_newBacking h hx
      cases hop
      rw [← hid, ha] at hc
      obtain rfl := Option.some.inj hc
      rw [heq, Option.some.inj (hb.symm.trans hd)]
    · have hcommittee : a.issuer = committeeAccount := by
        rcases hbecomes.checked hissuer with hcommittee | ⟨⟨_, heq⟩, -⟩
        · exact hcommittee
        · cases heq
      obtain ⟨hself, hcheck⟩ := (hkeeps a b ha hb heq).1 hcommittee
      have hother := backingOf_eq h (if_neg (Ne.symm hself) : newBacking
        op.newOptions.shortBackingAsset (.operation (.updateBitasset op)) = none)
      exact (checkBacking_congr (b := { b with options := op.newOptions }) hbacking hother
        hcoreSome).2 hcheck

/-- **Any other spoils it.** -/
theorem AssetChain.BackedByCore.keepsBacking (hs : s.BackedByCore) (hcore : CoreIssued s)
    (h : s.step N e = some s') (hs' : s'.BackedByCore) : KeepsBacking s e := by
  have hcoreSome : (s'.backingOf coreAsset).isSome = (s.backingOf coreAsset).isSome := by
    rw [backingOf_eq h (hcore.newBacking h)]
  cases e with
  | updateGlobalDynamicData | updateExpiredFeeds | other => trivial
  | operation op =>
    cases op with
    | update | updateFeedProducers | publishFeed => trivial
    | updateBitasset op =>
      intro a b ha hb hne
      obtain ⟨-, a₁, a', ha₁, hrewrite, hset⟩ := AssetOperation.apply_eq_some.1 h
      obtain rfl := Option.some.inj (ha.symm.trans ha₁)
      obtain ⟨b₁, hevaluate, rfl⟩ := Option.map_eq_some_iff.1 hrewrite
      obtain ⟨-, hb₁, -⟩ := AssetUpdateBitasset.doEvaluate_eq_some.1 hevaluate
      obtain rfl := Option.some.inj (hb.symm.trans hb₁)
      have hasset : s'.backingOf op.assetToUpdate =
          some (some op.newOptions.shortBackingAsset) := by
        rw [backingOf_step h ha, newBacking, if_pos rfl, Option.some_or]
      have hold : s.backingOf op.assetToUpdate = some (some b.options.shortBackingAsset) := by
        rw [backingOf_of_assets ha, hb, Option.map_some]
      have hnotCore : op.assetToUpdate ≠ coreAsset := by
        intro heq
        rw [heq, hcore] at hold
        cases hold
      refine ⟨fun hcommittee ↦ ?_, fun id a' b' hid ha' hissuer hb' hback ↦ ?_⟩
      · have ha' : s'.assets op.assetToUpdate = some (op.doApply N s a b) := by
          rw [hset, assets_setAsset]
          exact if_pos rfl
        have hcheck := hs' _ _ _ ha' hcommittee rfl
        have hoptions : (if op.newOptions.minimumFeeds ≠ b.options.minimumFeeds then
            { b with options := op.newOptions }.updateMedianFeeds N s.headBlockTime
            else { b with options := op.newOptions }).options = op.newOptions := by
          split
          · rw [Bitasset.options_updateMedianFeeds]
          · rfl
        have hself : op.newOptions.shortBackingAsset ≠ op.assetToUpdate := by
          intro heq
          rw [checkBacking_eq_some, hoptions, heq, hasset, heq] at hcheck
          rcases hcheck with ⟨hnone, -⟩ | ⟨hsome, -⟩
          · cases hnone
          · exact hnotCore (Option.some.inj (Option.some.inj hsome))
        have hother := backingOf_eq h (if_neg (Ne.symm hself) : newBacking
          op.newOptions.shortBackingAsset (.operation (.updateBitasset op)) = none)
        exact ⟨hself, (checkBacking_congr (b := { b with options := op.newOptions })
          (by rw [hoptions]) hother hcoreSome).1 hcheck⟩
      · have hkept : s'.assets id = some a' := by
          rw [hset, assets_setAsset]
          exact (if_neg hid).trans ha'
        have hbefore := checkBacking_eq_some.1 (hs id a' b' ha' hissuer hb')
        have hafter := checkBacking_eq_some.1 (hs' id a' b' hkept hissuer hb')
        rw [hback] at hbefore hafter
        rw [hold] at hbefore
        rw [hasset] at hafter
        -- what backs an asset of the committee is backed by core before and after
        simp only [Option.some.injEq, reduceCtorEq, false_and, false_or] at hbefore hafter
        exact hne (hafter.1.trans hbefore.1.symm)

end invariant

/-- **The assets of the committee stay backed by core**, or by what is backed by core, exactly along
the runs in which every new backing does no harm. -/
theorem backed_by_core_iff (N : NthElement PublishedFeed) {s t : AssetChain}
    {es : List AssetEvent} (hs : s.BackedByCore) (hcore : CoreIssued s)
    (h : applied (AssetChain.step N) s es = some t) :
    (∀ fs, fs <+: es → ∀ s' ∈ applied (AssetChain.step N) s fs, s'.BackedByCore) ↔
      Throughout (AssetChain.step N) KeepsBacking s es := by
  refine forall_prefix_iff_throughout (G := fun s ↦ s.BackedByCore ∧ CoreIssued s) ?_ ?_ ?_
    ⟨hs, hcore⟩ h
  · exact fun s e s' hs hstep hkeeps ↦ ⟨hs.1.step hs.2 hstep hkeeps, hs.2.step hstep⟩
  · exact fun s e s' hs hstep hnot hs' ↦ hnot (hs.1.keepsBacking hs.2 hstep hs')
  · exact fun s hs ↦ hs.1

/-- An asset of the committee that is backed by core, and one of which nobody has any. -/
def committeeChain : AssetChain where
  headBlockTime := 100
  maximumAssetWhitelistAuthorities := 10
  maximumAssetFeedPublishers := 10
  accounts := {0, 7}
  witnessAuths := ∅
  committeeAuths := ∅
  assets id :=
    if id = coreAsset then some ⟨0, settleableOptions 0 0, 1000, none⟩
    else if id = 1 then some
      { issuer := committeeAccount
        options := settleableOptions 0 0
        currentSupply := 0
        bitasset := some
          { options := ⟨86400, 1, 0, 0, 0, coreAsset⟩
            feeds := []
            currentFeed := .null
            currentFeedPublicationTime := 0
            settlementPrice := .null } }
    else if id = 2 then some ⟨7, settleableOptions 0 0, 0, none⟩
    else none

theorem backedByCore_committeeChain : committeeChain.BackedByCore := by
  intro id a b ha _ hb
  simp only [committeeChain] at ha
  split_ifs at ha with h0 h1 h2
  · obtain rfl := Option.some.inj ha
    cases hb
  · obtain rfl := Option.some.inj ha
    obtain rfl := Option.some.inj hb
    rfl
  · obtain rfl := Option.some.inj ha
    cases hb

/-- The asset of the committee is to be backed by the other one. -/
def backByOther : AssetUpdateBitasset where
  issuer := committeeAccount
  assetToUpdate := 1
  newOptions := ⟨86400, 1, 0, 0, 0, 2⟩

/-- This is applied, as the backing that is checked is core. -/
theorem backed_by_core_other : ∃ t,
    applied (AssetChain.step .bySorting) committeeChain [.operation (.updateBitasset backByOther)] =
      some t ∧
    ¬ ∀ fs, fs <+: [.operation (.updateBitasset backByOther)] →
      ∀ s' ∈ applied (AssetChain.step .bySorting) committeeChain fs, s'.BackedByCore := by
  refine ⟨_, rfl, fun hall ↦ ?_⟩
  have hkeeps := (backed_by_core_iff .bySorting backedByCore_committeeChain rfl rfl).1 hall
  have hcheck := ((hkeeps.1 _ _ rfl rfl (by decide)).1 rfl).2
  exact absurd hcheck (by decide)

end Graphene
