import Graphene.Auth.Soundness

/-!
# More keys and approvals

Being satisfied is monotone in the keys and approvals at hand.  `check_authority` need not find
what is satisfied: with more keys it returns earlier and remembers fewer accounts, and an account it
has not remembered may be out of reach at `max_recursion` later on.  That, and an address nobody
holds the key of, is all that can be missed.

* `SignState.Stopped` — the search has come to the end of its depth, or to such an address.
* `SignState.Covers` — the invariant of the search: it remembers at least what is approved.
* `more_approvals_not_missing` — the main result.
-/

set_option autoImplicit false

namespace Graphene

variable {K : Type} [DecidableEq K] {acc : Accounts K} {req : RequiredAuthorities K}
  {app app' : Approvals K}

/-! ## Satisfied authorities -/

/-- Everything at hand in `app` is at hand in `app'`. -/
structure Approvals.Within (app app' : Approvals K) : Prop where
  /-- Keys. -/
  keys : app.keys ⊆ app'.keys
  /-- Active approvals. -/
  active : app.active ⊆ app'.active
  /-- Owner approvals. -/
  owner : app.owner ⊆ app'.owner

theorem Authority.weight_mono {keys keys' : Finset K} (hkeys : keys ⊆ keys')
    {accounts accounts' : Finset AccountId} (haccounts : accounts ⊆ accounts')
    (auth : Authority K) : auth.weight keys accounts ≤ auth.weight keys' accounts' := by
  unfold Authority.weight
  refine Nat.add_le_add (Nat.add_le_add ?_ ?_) ?_
  · exact weightOf_mono (fun _ h ↦ hkeys h) _
  · exact weightOf_mono (fun _ h ↦ hkeys h) _
  · exact weightOf_mono (fun _ h ↦ haccounts h) _

theorem Approves.mono (h : app.Within app') {a : AccountId}
    (ha : Approves acc.getActive app a) : Approves acc.getActive app' a := by
  induction ha with
  | approved ha =>
    exact .approved (ha.imp_right (Or.imp (fun ha ↦ h.active ha) fun ha ↦ h.owner ha))
  | active accounts hauth _ hweight ih =>
    exact .active accounts hauth ih
      (hweight.trans (Authority.weight_mono h.keys subset_rfl _))

theorem Authority.Satisfied.mono (h : app.Within app') {auth : Authority K}
    (hsat : auth.Satisfied acc.getActive app) : auth.Satisfied acc.getActive app' := by
  obtain ⟨accounts, happ, hweight⟩ := hsat
  exact ⟨accounts, fun a ha ↦ (happ a ha).mono h,
    hweight.trans (Authority.weight_mono h.keys subset_rfl _)⟩

/-! ## The invariant of the search -/

/-- A search has been given up, or has come to an address nobody holds the key of. -/
def SignState.Stopped (s : SignState K) : Prop := s.cutOff = true ∨ s.pastEnd = true

/-- What holds of the `sign_state` between any two steps of the search. -/
structure SignState.Covers (app : Approvals K) (s : SignState K) : Prop where
  /-- The keys are those at hand. -/
  provided_eq : s.provided = app.keys
  /-- What is approved is remembered. -/
  approved : app.signState.approvedBy ⊆ s.approvedBy

/-- The check keeps the invariant, and answers `false` only if it has been stopped or `P` does not
hold. -/
def CompleteFor (app : Approvals K) (P : Prop) (check : SignState K → Bool × SignState K) : Prop :=
  ∀ s, s.Covers app → (check s).2.Covers app ∧ (s.Stopped → (check s).2.Stopped) ∧
    ((check s).1 = false → (check s).2.Stopped ∨ ¬ P)

/-- The sum of all weights. -/
def totalOf {X : Type} (auths : List (X × ℕ)) : ℕ := (auths.map Prod.snd).sum

@[simp]
theorem totalOf_cons {X : Type} (x : X) (w : ℕ) (rest : List (X × ℕ)) :
    totalOf ((x, w) :: rest) = w + totalOf rest := rfl

/-- All weights of an authority together are a `uint32_t`. -/
def Authority.NoOverflow (auth : Authority K) : Prop :=
  totalOf auth.keyAuths + totalOf auth.addressAuths + totalOf auth.accountAuths < 2 ^ 32

/-- No authority overflows. -/
structure NoOverflow (acc : Accounts K) (req : RequiredAuthorities K) : Prop where
  /-- Active authorities. -/
  active : ∀ a, ∀ auth ∈ acc.getActive a, auth.NoOverflow
  /-- Owner authorities. -/
  owner : ∀ a, ∀ auth ∈ acc.getOwner a, auth.NoOverflow
  /-- The other authorities that are required. -/
  other : ∀ auth ∈ req.other, auth.NoOverflow

theorem addWeight_eq {total weight : ℕ} (h : total + weight < 2 ^ 32) :
    addWeight total weight = total + weight :=
  Nat.mod_eq_of_lt h

/-- A loop has been stopped, or returns `true`, or has counted at least `low`; in any case it has
counted at most `high`. -/
def Outcome.Counts (stopped : Prop) (low high : ℕ) : Outcome → Prop
  | done result => stopped ∨ result = true
  | total weight => (stopped ∨ low ≤ weight) ∧ weight ≤ high

theorem Outcome.Counts.mono {stopped : Prop} {low low' high high' : ℕ} {o : Outcome}
    (h : o.Counts stopped low high) (hlow : stopped ∨ low' ≤ low) (hhigh : high ≤ high') :
    o.Counts stopped low' high' := by
  cases o with
  | done result => exact h
  | total weight =>
    refine ⟨?_, h.2.trans hhigh⟩
    rcases hlow with hstopped | hlow
    · exact .inl hstopped
    · exact h.1.imp_right hlow.trans

theorem signedBy_complete (k : K) : CompleteFor app (k ∈ app.keys) (signedBy k) := by
  intro s hs
  rw [signedBy]
  split
  case isTrue => exact ⟨⟨hs.provided_eq, hs.approved⟩, id, fun h ↦ absurd h.symm Bool.false_ne_true⟩
  case isFalse hmem => exact ⟨hs, id, fun _ ↦ .inr fun hk ↦ hmem (hs.provided_eq ▸ hk)⟩

theorem signedByAddress_complete (a : Address K) :
    CompleteFor app (a.key ∈ app.keys) (signedByAddress a) := by
  intro s hs
  rw [signedByAddress]
  split
  case isTrue => exact ⟨⟨hs.provided_eq, hs.approved⟩, id, fun h ↦ absurd h.symm Bool.false_ne_true⟩
  case isFalse => exact ⟨⟨hs.provided_eq, hs.approved⟩, fun _ ↦ .inr rfl, fun _ ↦ .inl (.inr rfl)⟩

omit [DecidableEq K] in
/-- Unless it is stopped, the loop counts every key at hand. -/
theorem checkSigned_complete {X : Type} {p : X → Prop} [DecidablePred p]
    {signedBy : X → SignState K → Bool × SignState K}
    (h : ∀ x, CompleteFor app (p x) (signedBy x)) (threshold : ℕ) (auths : List (X × ℕ)) :
    ∀ (total : ℕ) {s : SignState K}, s.Covers app → total + totalOf auths < 2 ^ 32 →
      (checkSigned signedBy threshold auths total s).2.Covers app ∧
      (s.Stopped → (checkSigned signedBy threshold auths total s).2.Stopped) ∧
      (checkSigned signedBy threshold auths total s).1.Counts
        (checkSigned signedBy threshold auths total s).2.Stopped
        (total + weightOf p auths) (total + totalOf auths) := by
  induction auths with
  | nil => exact fun total s hs _ ↦ ⟨hs, id, .inr le_rfl, le_rfl⟩
  | cons x rest ih =>
    intro total s hs htotal
    obtain ⟨x, w⟩ := x
    rw [totalOf_cons] at htotal
    obtain ⟨hs', hstop, hfalse⟩ := h x s hs
    rw [checkSigned, weightOf_cons, totalOf_cons]
    rcases hc : signedBy x s with ⟨_ | _, s'⟩ <;> rw [hc] at hs' hstop hfalse
    · obtain ⟨hs'', hstop', hcounts⟩ := ih total hs' (by omega)
      refine ⟨hs'', hstop' ∘ hstop, hcounts.mono ?_ (by omega)⟩
      exact (hfalse rfl).imp hstop' fun hx ↦ by rw [if_neg hx, Nat.zero_add]
    · dsimp only
      split
      case isTrue => exact ⟨hs', hstop, .inr rfl⟩
      case isFalse =>
        have hadd := @addWeight_eq total w (by omega)
        obtain ⟨hs'', hstop', hcounts⟩ := ih (addWeight total w) hs' (by omega)
        have hle : (if p x then w else 0) ≤ w := by split <;> omega
        exact ⟨hs'', hstop' ∘ hstop, hcounts.mono (.inr (by omega)) (by omega)⟩

/-- Unless it is stopped, the loop counts every approved account. -/
theorem checkAccounts_complete {descend : Option (AccountId → SignState K → Bool × SignState K)}
    (h : ∀ check ∈ descend, ∀ a,
      CompleteFor app (∃ au ∈ acc.getActive a, au.Satisfied acc.getActive app) (check a))
    (threshold : ℕ) (auths : List (AccountId × ℕ)) {accounts : Finset AccountId}
    (haccounts : ∀ a ∈ accounts, Approves acc.getActive app a) :
    ∀ (total : ℕ) {s : SignState K}, s.Covers app → total + totalOf auths < 2 ^ 32 →
      (checkAccounts descend threshold auths total s).2.Covers app ∧
      (s.Stopped → (checkAccounts descend threshold auths total s).2.Stopped) ∧
      (checkAccounts descend threshold auths total s).1.Counts
        (checkAccounts descend threshold auths total s).2.Stopped
        (total + weightOf (· ∈ accounts) auths) (total + totalOf auths) := by
  induction auths with
  | nil => exact fun total s hs _ ↦ ⟨hs, id, .inr le_rfl, le_rfl⟩
  | cons x rest ih =>
    intro total s hs htotal
    obtain ⟨a, w⟩ := x
    rw [totalOf_cons] at htotal
    rw [weightOf_cons, totalOf_cons]
    have hle : (if a ∈ accounts then w else 0) ≤ w := by split <;> omega
    have counted : ∀ s' : SignState K, s'.Covers app → (s.Stopped → s'.Stopped) →
        ∀ r, r = (if addWeight total w ≥ threshold then (.done true, s')
          else checkAccounts descend threshold rest (addWeight total w) s') →
        r.2.Covers app ∧ (s.Stopped → r.2.Stopped) ∧ r.1.Counts r.2.Stopped
          (total + ((if a ∈ accounts then w else 0) + weightOf (· ∈ accounts) rest))
          (total + (w + totalOf rest)) := by
      rintro s' hs' hstop r rfl
      split
      case isTrue => exact ⟨hs', hstop, .inr rfl⟩
      case isFalse =>
        have hadd := @addWeight_eq total w (by omega)
        obtain ⟨hs'', hstop', hcounts⟩ := ih (addWeight total w) hs' (by omega)
        exact ⟨hs'', hstop' ∘ hstop, hcounts.mono (.inr (by omega)) (by omega)⟩
    unfold checkAccounts
    split
    case isFalse => exact counted s hs id _ rfl
    case isTrue hmem =>
      cases hdesc : descend with
      | none => exact ⟨⟨hs.provided_eq, hs.approved⟩, fun _ ↦ .inl rfl, .inl (.inl rfl)⟩
      | some check =>
        subst hdesc
        obtain ⟨hs', hstop, hfalse⟩ := h check rfl a s hs
        dsimp only
        rcases hc : check a s with ⟨_ | _, s'⟩ <;> rw [hc] at hs' hstop hfalse
        · obtain ⟨hs'', hstop', hcounts⟩ := ih total hs' (by omega)
          refine ⟨hs'', hstop' ∘ hstop, hcounts.mono ?_ (by omega)⟩
          refine (hfalse rfl).imp hstop' fun hactive ↦ ?_
          have ha : a ∉ accounts := by
            intro ha
            rcases approves_iff.1 (haccounts a ha) with happ | hsat
            · refine hmem (hs.approved ?_)
              simpa [Approvals.signState, or_assoc] using happ
            · exact hactive hsat
          rw [if_neg ha, Nat.zero_add]
        · have hs'' : SignState.Covers app { s' with approvedBy := insert a s'.approvedBy } :=
            ⟨hs'.provided_eq, hs'.approved.trans (Finset.subset_insert _ _)⟩
          exact counted _ hs'' hstop _ rfl

theorem checkBody_complete {descend : Option (AccountId → SignState K → Bool × SignState K)}
    {auth : Option (Authority K)} (hauth : ∀ au ∈ auth, au.NoOverflow)
    (h : ∀ check ∈ descend, ∀ a,
      CompleteFor app (∃ au ∈ acc.getActive a, au.Satisfied acc.getActive app) (check a)) :
    CompleteFor app (∃ au ∈ auth, au.Satisfied acc.getActive app) (checkBody descend auth) := by
  intro s hs
  cases auth with
  | none => exact ⟨hs, id, fun _ ↦ .inr (by simp)⟩
  | some au =>
    have hau : _ < _ := hauth au rfl
    obtain ⟨hs₁, hstop₁, h₁⟩ := checkSigned_complete (p := (· ∈ app.keys)) signedBy_complete
      au.weightThreshold au.keyAuths 0 hs (by omega)
    rw [checkBody]
    rcases hc₁ : checkSigned signedBy au.weightThreshold au.keyAuths 0 s with ⟨⟨r⟩ | ⟨w₁⟩, s₁⟩ <;>
      rw [hc₁] at hs₁ hstop₁ h₁
    · exact ⟨hs₁, hstop₁, fun hr ↦ .inl (Or.resolve_right h₁ (ne_true_of_eq_false hr))⟩
    obtain ⟨hlow₁, hhigh₁⟩ : (_ ∨ _ ≤ w₁) ∧ w₁ ≤ _ := h₁
    obtain ⟨hs₂, hstop₂, h₂⟩ := checkSigned_complete signedByAddress_complete au.weightThreshold
      au.addressAuths w₁ hs₁ (by omega)
    dsimp only
    rcases hc₂ : checkSigned signedByAddress au.weightThreshold au.addressAuths w₁ s₁ with
      ⟨⟨r⟩ | ⟨w₂⟩, s₂⟩ <;> rw [hc₂] at hs₂ hstop₂ h₂
    · exact ⟨hs₂, hstop₂ ∘ hstop₁, fun hr ↦ .inl (Or.resolve_right h₂ (ne_true_of_eq_false hr))⟩
    obtain ⟨hlow₂, hhigh₂⟩ : (_ ∨ _ ≤ w₂) ∧ w₂ ≤ _ := h₂
    dsimp only
    -- what the last loop counts, for any accounts that are approved
    have h₃ : ∀ accounts : Finset AccountId, (∀ a ∈ accounts, Approves acc.getActive app a) → _ :=
      fun _ haccounts ↦ checkAccounts_complete h au.weightThreshold au.accountAuths haccounts w₂
        hs₂ (by omega)
    obtain ⟨hs₃, hstop₃, hcounts₃⟩ := h₃ ∅ (by simp)
    rcases hc₃ : checkAccounts descend au.weightThreshold au.accountAuths w₂ s₂ with
      ⟨⟨r⟩ | ⟨w₃⟩, s₃⟩ <;> rw [hc₃] at h₃ hs₃ hstop₃ hcounts₃
    · exact ⟨hs₃, hstop₃ ∘ hstop₂ ∘ hstop₁,
        fun hr ↦ .inl (Or.resolve_right hcounts₃ (ne_true_of_eq_false hr))⟩
    refine ⟨hs₃, hstop₃ ∘ hstop₂ ∘ hstop₁, fun hr ↦ or_iff_not_imp_left.2 fun hstopped ↦ ?_⟩
    rintro ⟨au', hmem, accounts, happ, hweight⟩
    obtain rfl := Option.mem_some_iff.1 hmem
    obtain ⟨-, -, hlow₃, -⟩ := h₃ accounts happ
    have hle₁ := hlow₁.resolve_left (mt (hstop₃ ∘ hstop₂) hstopped)
    have hle₂ := hlow₂.resolve_left (mt hstop₃ hstopped)
    have hle₃ := hlow₃.resolve_left hstopped
    have hlt := of_decide_eq_false hr
    unfold Authority.weight at hweight
    omega

theorem checkAuthority_complete (hactive : ∀ a, ∀ au ∈ acc.getActive a, au.NoOverflow)
    (levels : ℕ) (auth : Option (Authority K)) (hauth : ∀ au ∈ auth, au.NoOverflow) :
    CompleteFor app (∃ au ∈ auth, au.Satisfied acc.getActive app)
      (checkAuthority acc.getActive levels auth) := by
  induction levels generalizing auth with
  | zero => exact checkBody_complete hauth fun check hc ↦ absurd hc (by simp)
  | succ levels ih =>
    refine checkBody_complete hauth ?_
    rintro check hc a
    obtain rfl := Option.mem_some_iff.1 hc
    exact ih _ (hactive a)

/-! ## The whole check -/

theorem Accounts.checkActive_complete (h : NoOverflow acc req) (a : AccountId) :
    CompleteFor app (Approves acc.getActive app a ∨
      ∃ au ∈ acc.getOwner a, au.Satisfied acc.getActive app) (acc.checkActive a) := by
  have haccount : CompleteFor app (Approves acc.getActive app a) (acc.checkAccount a) := by
    intro s hs
    rw [Accounts.checkAccount]
    split
    case isTrue => exact ⟨hs, id, fun hr ↦ absurd hr.symm Bool.false_ne_true⟩
    case isFalse hmem =>
      obtain ⟨hs', hstop, hfalse⟩ :=
        checkAuthority_complete h.active acc.maxRecursion _ (h.active a) s hs
      refine ⟨hs', hstop, fun hr ↦ (hfalse hr).imp_right fun hnot happ ↦ ?_⟩
      rcases approves_iff.1 happ with happ | hsat
      · refine hmem (hs.approved ?_)
        simpa [Approvals.signState, or_assoc] using happ
      · exact hnot hsat
  intro s hs
  obtain ⟨hs', hstop, hfalse⟩ := haccount s hs
  rw [Accounts.checkActive]
  rcases hc : acc.checkAccount a s with ⟨_ | _, s'⟩ <;> rw [hc] at hs' hstop hfalse
  · obtain ⟨hs'', hstop', hfalse'⟩ :=
      checkAuthority_complete h.active acc.maxRecursion _ (h.owner a) s' hs'
    refine ⟨hs'', hstop' ∘ hstop, fun hr ↦ ?_⟩
    rcases hfalse rfl with hstopped | hnot
    · exact .inl (hstop' hstopped)
    · exact (hfalse' hr).imp_right (not_or_intro hnot)
  · exact ⟨hs', hstop, fun hr ↦ absurd hr.symm Bool.false_ne_true⟩

theorem Accounts.checkOwner_complete (h : NoOverflow acc req) (a : AccountId) :
    CompleteFor app (a ∈ app.owner ∨ ∃ au ∈ acc.getOwner a, au.Satisfied acc.getActive app)
      (acc.checkOwner app.owner a) := by
  intro s hs
  rw [Accounts.checkOwner]
  split
  case isTrue => exact ⟨hs, id, fun hr ↦ absurd hr.symm Bool.false_ne_true⟩
  case isFalse hmem =>
    obtain ⟨hs', hstop, hfalse⟩ :=
      checkAuthority_complete h.active acc.maxRecursion _ (h.owner a) s hs
    exact ⟨hs', hstop, fun hr ↦ (hfalse hr).imp_right (not_or_intro hmem)⟩

omit [DecidableEq K] in
theorem checkAll_complete {X : Type} {check : X → SignState K → Bool × SignState K}
    {P : X → Prop} (xs : List X) (h : ∀ x ∈ xs, CompleteFor app (P x) (check x)) :
    CompleteFor app (∀ x ∈ xs, P x) (checkAll check xs) := by
  induction xs with
  | nil => exact fun s hs ↦ ⟨hs, id, fun hr ↦ absurd hr.symm Bool.false_ne_true⟩
  | cons x rest ih =>
    intro s hs
    obtain ⟨hx, hrest⟩ := List.forall_mem_cons.1 h
    obtain ⟨hs', hstop, hfalse⟩ := hx s hs
    rw [checkAll, List.forall_mem_cons]
    rcases hc : check x s with ⟨_ | _, s'⟩ <;> rw [hc] at hs' hstop hfalse
    · exact ⟨hs', hstop, fun hr ↦ (hfalse hr).imp_right fun hnot hall ↦ hnot hall.1⟩
    · obtain ⟨hs'', hstop', hfalse'⟩ := ih hrest s' hs'
      exact ⟨hs'', hstop' ∘ hstop, fun hr ↦ (hfalse' hr).imp_right fun hnot hall ↦ hnot hall.2⟩

omit [DecidableEq K] in
theorem Approvals.signState_covers : app.signState.Covers app := ⟨rfl, subset_rfl⟩

/-- The check that has failed when an exception is thrown. -/
theorem verifyAuthority_some {allowCommittee : Bool} {e : VerifyError} {s : SignState K}
    (h : verifyAuthority acc req allowCommittee app = (some e, s)) :
    match e with
    | .invalidCommitteeApproval => allowCommittee = false ∧ committeeAccount ∈ req.active
    | .txMissingOtherAuth =>
      checkAll (fun auth ↦ acc.check (some auth)) req.other app.signState = (false, s)
    | .txMissingActiveAuth =>
      ∃ s₁, checkAll (fun auth ↦ acc.check (some auth)) req.other app.signState = (true, s₁) ∧
        checkAll acc.checkActive (req.active.sort (· ≤ ·)) s₁ = (false, s)
    | .txMissingOwnerAuth =>
      ∃ s₁ s₂, checkAll (fun auth ↦ acc.check (some auth)) req.other app.signState = (true, s₁) ∧
        checkAll acc.checkActive (req.active.sort (· ≤ ·)) s₁ = (true, s₂) ∧
        checkAll (acc.checkOwner app.owner) (req.owner.sort (· ≤ ·)) s₂ = (false, s)
    | .txIrrelevantSig => ¬ s.provided ⊆ s.used := by
  rw [verifyAuthority] at h
  split at h
  case isTrue hcommittee => cases h; simpa using hcommittee
  case isFalse =>
    split at h <;> rename_i s₁ h₁
    · cases h; exact h₁
    split at h <;> rename_i s₂ h₂
    · cases h; exact ⟨s₁, h₁, h₂⟩
    split at h <;> rename_i s₃ h₃
    · cases h; exact ⟨s₁, s₂, h₁, h₂, h₃⟩
    · obtain ⟨hused, rfl⟩ := Prod.mk.inj h
      split at hused <;> rename_i hsub <;> cases hused
      exact hsub

theorem RequiredAuthorities.Satisfied.mono (h : app.Within app')
    (hsat : req.Satisfied acc app) : req.Satisfied acc app' where
  other auth hauth := (hsat.other auth hauth).mono h
  active a ha := (hsat.active a ha).imp (Approves.mono h)
    fun ⟨auth, hauth, hs⟩ ↦ ⟨auth, hauth, hs.mono h⟩
  owner a ha := (hsat.owner a ha).imp (fun hmem ↦ h.owner hmem)
    fun ⟨auth, hauth, hs⟩ ↦ ⟨auth, hauth, hs.mono h⟩

/-- An authority is missing only if it is not satisfied, or the search has been stopped. -/
theorem verifyAuthority_complete (hno : NoOverflow acc req) {allowCommittee : Bool}
    {e : VerifyError} {s : SignState K} (he : e.Missing)
    (h : verifyAuthority acc req allowCommittee app = (some e, s)) :
    s.Stopped ∨ ¬ req.Satisfied acc app := by
  have hother : CompleteFor app (∀ auth ∈ req.other, auth.Satisfied acc.getActive app)
      (checkAll (fun auth ↦ acc.check (some auth)) req.other) := by
    refine checkAll_complete _ fun auth hauth s hs ↦ ?_
    have hauth' : ∀ au ∈ some auth, au.NoOverflow :=
      fun au hau ↦ Option.mem_some_iff.1 hau ▸ hno.other auth hauth
    obtain ⟨hs', hstop, hfalse⟩ := checkAuthority_complete hno.active acc.maxRecursion _ hauth' s hs
    exact ⟨hs', hstop, fun hr ↦ (hfalse hr).imp_right fun hnot hsat ↦ hnot ⟨auth, rfl, hsat⟩⟩
  obtain ⟨hs₁, -, hfalse₁⟩ := hother _ Approvals.signState_covers
  have hactive : ∀ s₁ : SignState K, s₁.Covers app → _ :=
    checkAll_complete (req.active.sort (· ≤ ·)) fun a _ ↦ Accounts.checkActive_complete hno a
  have howner : ∀ s₂ : SignState K, s₂.Covers app → _ :=
    checkAll_complete (req.owner.sort (· ≤ ·)) fun a _ ↦ Accounts.checkOwner_complete hno a
  have hcases := verifyAuthority_some h
  cases e with
  | invalidCommitteeApproval => exact absurd he id
  | txMissingOtherAuth =>
    rw [show _ = (false, s) from hcases] at hfalse₁
    exact (hfalse₁ rfl).imp_right fun hnot hsat ↦ hnot hsat.other
  | txMissingActiveAuth =>
    obtain ⟨s₁, h₁, h₂⟩ := hcases
    rw [h₁] at hs₁
    obtain ⟨-, -, hfalse₂⟩ := hactive s₁ hs₁
    rw [h₂] at hfalse₂
    exact (hfalse₂ rfl).imp_right fun hnot hsat ↦
      hnot fun a ha ↦ hsat.active a ((Finset.mem_sort _).1 ha)
  | txMissingOwnerAuth =>
    obtain ⟨s₁, s₂, h₁, h₂, h₃⟩ := hcases
    rw [h₁] at hs₁
    obtain ⟨hs₂, -, -⟩ := hactive s₁ hs₁
    rw [h₂] at hs₂
    obtain ⟨-, -, hfalse₃⟩ := howner s₂ hs₂
    rw [h₃] at hfalse₃
    exact (hfalse₃ rfl).imp_right fun hnot hsat ↦
      hnot fun a ha ↦ hsat.owner a ((Finset.mem_sort _).1 ha)
  | txIrrelevantSig => exact absurd he id

/-- **More keys and approvals do not make an authority missing**, unless the search is stopped. -/
theorem more_approvals_not_missing (hno : NoOverflow acc req) (hle : app.Within app')
    {allowCommittee : Bool} {e : VerifyError} {s s' : SignState K}
    (h : verifyAuthority acc req allowCommittee app = (none, s))
    (h' : verifyAuthority acc req allowCommittee app' = (some e, s')) (he : e.Missing) :
    s'.Stopped :=
  (verifyAuthority_complete hno he h').resolve_right
    (not_not_intro ((verifyAuthority_accepted h).1.mono hle))

/-- **More keys do not make an authority missing**, unless the search is stopped. -/
theorem more_keys_not_missing (hno : NoOverflow acc req) {keys : Finset K}
    (hkeys : app.keys ⊆ keys) {allowCommittee : Bool} {e : VerifyError} {s s' : SignState K}
    (h : verifyAuthority acc req allowCommittee app = (none, s))
    (h' : verifyAuthority acc req allowCommittee { app with keys := keys } = (some e, s'))
    (he : e.Missing) : s'.cutOff = true ∨ s'.pastEnd = true := by
  have hle : app.Within { app with keys := keys } := ⟨hkeys, subset_rfl, subset_rfl⟩
  exact more_approvals_not_missing hno hle h h' he

/-- Account 6 has weight in the authorities of 5 and of 8, and 8 in the owner authority of 7. -/
def stairs : Accounts ℕ where
  getActive
    | 5 => some ⟨1, [(6, 1)], [(2, 1)], [], List.nodup_singleton _, by decide, nodup_noAddresses⟩
    | 6 => some ⟨1, [], [(1, 1)], [], List.nodup_nil, by decide, nodup_noAddresses⟩
    | 8 => some ⟨1, [(6, 1)], [], [], List.nodup_singleton _, List.nodup_nil, nodup_noAddresses⟩
    | _ => none
  getOwner
    | 7 => some ⟨1, [(8, 1)], [], [], by decide, List.nodup_nil, nodup_noAddresses⟩
    | _ => none
  maxRecursion := 1

/-- With the key of 6 alone, 6 is remembered when 5 has been checked, and 7 gets by with it.  With
a key of 5 as well, 6 is not looked at for 5, and is out of reach for 7. -/
theorem second_key_makes_missing :
    (verifyAuthority stairs ⟨{5}, {7}, []⟩ false ⟨{1}, ∅, ∅⟩).1 = none ∧
    (verifyAuthority stairs ⟨{5}, {7}, []⟩ false ⟨{1, 2}, ∅, ∅⟩).1 = some .txMissingOwnerAuth := by
  decide +kernel

theorem stairs_noOverflow : NoOverflow stairs ⟨{5}, {7}, []⟩ where
  active a auth hauth := by
    unfold stairs at hauth
    dsimp only at hauth
    unfold Authority.NoOverflow
    split at hauth <;> cases hauth <;> decide
  owner a auth hauth := by
    unfold stairs at hauth
    dsimp only at hauth
    unfold Authority.NoOverflow
    split at hauth <;> cases hauth
    decide
  other auth hauth := by cases hauth

/-- The check of 7 is given up. -/
theorem stairs_stopped :
    (verifyAuthority stairs ⟨{5}, {7}, []⟩ false ⟨{1, 2}, ∅, ∅⟩).2.cutOff = true ∨
    (verifyAuthority stairs ⟨{5}, {7}, []⟩ false ⟨{1, 2}, ∅, ∅⟩).2.pastEnd = true := by
  have h : verifyAuthority stairs ⟨{5}, {7}, []⟩ false ⟨{1}, ∅, ∅⟩ =
      (none, (verifyAuthority stairs ⟨{5}, {7}, []⟩ false ⟨{1}, ∅, ∅⟩).2) :=
    Prod.ext (by decide +kernel) rfl
  have h' : verifyAuthority stairs ⟨{5}, {7}, []⟩ false ⟨{1, 2}, ∅, ∅⟩ =
      (some .txMissingOwnerAuth,
        (verifyAuthority stairs ⟨{5}, {7}, []⟩ false ⟨{1, 2}, ∅, ∅⟩).2) :=
    Prod.ext (by decide +kernel) rfl
  exact more_keys_not_missing stairs_noOverflow (by decide : ({1} : Finset ℕ) ⊆ {1, 2}) h h' trivial

end Graphene
