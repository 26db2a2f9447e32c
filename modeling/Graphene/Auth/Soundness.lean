import Graphene.Auth.Authority

/-!
# What `verify_authority` accepts is authorised

An authority is satisfied when enough weight is behind it: of keys at hand, and of accounts that are
approved or whose own active authority is satisfied in turn, by a finite derivation.  The search of
`check_authority` goes round circles of accounts up to its depth, adds weights with wraparound, and
remembers accounts from one authority to the next.

* `Approves`, `Authority.Satisfied` — the derivations.
* `Reached` — the authorities that a search from the required ones can come to.
* `SignState.Sound` — the invariant of the search: it remembers approved accounts only, and marks
  keys of reached authorities only.
* `verifyAuthority_sound` — the main result.
-/

set_option autoImplicit false

namespace Graphene

/-! ## Weights -/

section Weights

variable {X : Type} {p q : X → Prop} [DecidablePred p] [DecidablePred q]

/-- The weight of the entries that `p` holds of. -/
def weightOf (p : X → Prop) [DecidablePred p] (auths : List (X × ℕ)) : ℕ :=
  ((auths.filter fun x ↦ p x.1).map Prod.snd).sum

@[simp]
theorem weightOf_nil : weightOf p [] = 0 := rfl

@[simp]
theorem weightOf_cons (x : X) (w : ℕ) (rest : List (X × ℕ)) :
    weightOf p ((x, w) :: rest) = (if p x then w else 0) + weightOf p rest := by
  by_cases hx : p x <;> simp [weightOf, hx]

theorem weightOf_mono (h : ∀ x, p x → q x) (auths : List (X × ℕ)) :
    weightOf p auths ≤ weightOf q auths := by
  induction auths with
  | nil => exact le_rfl
  | cons x rest ih =>
    rw [weightOf_cons, weightOf_cons]
    by_cases hx : p x.1
    · rw [if_pos hx, if_pos (h x.1 hx)]
      exact Nat.add_le_add_left ih _
    · rw [if_neg hx, Nat.zero_add]
      exact ih.trans (Nat.le_add_left _ _)

end Weights

theorem addWeight_le (total weight : ℕ) : addWeight total weight ≤ total + weight :=
  Nat.mod_le _ _

variable {K : Type} [DecidableEq K]

/-- The weight of `keys` and `accounts` towards an authority. -/
def Authority.weight (auth : Authority K) (keys : Finset K) (accounts : Finset AccountId) : ℕ :=
  weightOf (· ∈ keys) auth.keyAuths + weightOf (fun a ↦ a.key ∈ keys) auth.addressAuths +
    weightOf (· ∈ accounts) auth.accountAuths

/-! ## Satisfied authorities -/

/-- `a` is approved, or its active authority is satisfied. -/
inductive Approves (getActive : AccountId → Option (Authority K)) (app : Approvals K) :
    AccountId → Prop where
  /-- `a` is the temp account or among the approvals. -/
  | approved {a : AccountId} (h : a = tempAccount ∨ a ∈ app.active ∨ a ∈ app.owner) :
    Approves getActive app a
  /-- The active authority of `a` is satisfied by the keys and by `accounts`. -/
  | active {a : AccountId} {auth : Authority K} (accounts : Finset AccountId)
    (hauth : getActive a = some auth) (h : ∀ b ∈ accounts, Approves getActive app b)
    (hweight : auth.weightThreshold ≤ auth.weight app.keys accounts) : Approves getActive app a

/-- There is enough weight behind the authority. -/
def Authority.Satisfied (getActive : AccountId → Option (Authority K)) (app : Approvals K)
    (auth : Authority K) : Prop :=
  ∃ accounts : Finset AccountId, (∀ a ∈ accounts, Approves getActive app a) ∧
    auth.weightThreshold ≤ auth.weight app.keys accounts

/-- The key has weight in the authority, itself or by an address. -/
def Authority.Mentions (auth : Authority K) (k : K) : Prop :=
  k ∈ auth.keyAuths.map Prod.fst ∨ ∃ a ∈ auth.addressAuths.map Prod.fst, a.key = k

/-- The required authorities are satisfied, as far as they have to be. -/
structure RequiredAuthorities.Satisfied (acc : Accounts K) (req : RequiredAuthorities K)
    (app : Approvals K) : Prop where
  /-- The other authorities. -/
  other : ∀ auth ∈ req.other, auth.Satisfied acc.getActive app
  /-- The accounts whose active authority is required. -/
  active : ∀ a ∈ req.active, Approves acc.getActive app a ∨
    ∃ auth ∈ acc.getOwner a, auth.Satisfied acc.getActive app
  /-- The accounts whose owner authority is required. -/
  owner : ∀ a ∈ req.owner, a ∈ app.owner ∨
    ∃ auth ∈ acc.getOwner a, auth.Satisfied acc.getActive app

/-- The authorities that a search from the required ones can come to. -/
inductive Reached (acc : Accounts K) (req : RequiredAuthorities K) : Authority K → Prop where
  /-- A required other authority. -/
  | other {auth : Authority K} (h : auth ∈ req.other) : Reached acc req auth
  /-- The active authority of an account whose active authority is required. -/
  | active {a : AccountId} {auth : Authority K} (h : a ∈ req.active)
    (hauth : acc.getActive a = some auth) : Reached acc req auth
  /-- The owner authority of an account whose active authority is required. -/
  | activeOwner {a : AccountId} {auth : Authority K} (h : a ∈ req.active)
    (hauth : acc.getOwner a = some auth) : Reached acc req auth
  /-- The owner authority of an account whose owner authority is required. -/
  | owner {a : AccountId} {auth : Authority K} (h : a ∈ req.owner)
    (hauth : acc.getOwner a = some auth) : Reached acc req auth
  /-- The active authority of an account with weight in a reached authority. -/
  | member {a : AccountId} {auth auth' : Authority K} (h : Reached acc req auth)
    (hmem : a ∈ auth.accountAuths.map Prod.fst) (hauth : acc.getActive a = some auth') :
    Reached acc req auth'

variable {acc : Accounts K} {req : RequiredAuthorities K} {app : Approvals K}

/-- An account is approved exactly if it is among the approvals or its active authority is
satisfied. -/
theorem approves_iff {a : AccountId} :
    Approves acc.getActive app a ↔ (a = tempAccount ∨ a ∈ app.active ∨ a ∈ app.owner) ∨
      ∃ auth, acc.getActive a = some auth ∧ auth.Satisfied acc.getActive app := by
  constructor
  · rintro (h | ⟨accounts, hauth, h, hweight⟩)
    · exact .inl h
    · exact .inr ⟨_, hauth, accounts, h, hweight⟩
  · rintro (h | ⟨auth, hauth, accounts, h, hweight⟩)
    · exact .approved h
    · exact .active accounts hauth h hweight

/-! ## The invariant of the search -/

/-- What holds of the `sign_state` between any two steps of the search. -/
structure SignState.Sound (acc : Accounts K) (req : RequiredAuthorities K) (app : Approvals K)
    (s : SignState K) : Prop where
  /-- The keys are those at hand. -/
  provided_eq : s.provided = app.keys
  /-- The remembered accounts are approved. -/
  approves : ∀ a ∈ s.approvedBy, Approves acc.getActive app a
  /-- A key is marked because a reached authority mentions it. -/
  mentioned : ∀ k ∈ s.used, ∃ auth, Reached acc req auth ∧ auth.Mentions k

/-- The check keeps the invariant, and answers `true` only if `P` holds. -/
def SoundFor (acc : Accounts K) (req : RequiredAuthorities K) (app : Approvals K) (P : Prop)
    (check : SignState K → Bool × SignState K) : Prop :=
  ∀ s, s.Sound acc req app →
    (check s).2.Sound acc req app ∧ ((check s).1 = true → P)

/-- The loop has not counted more weight than `bound`. -/
def Outcome.Within (threshold bound : ℕ) : Outcome → Prop
  | done result => result = true → threshold ≤ bound
  | total weight => weight ≤ bound

theorem Outcome.Within.mono {threshold bound bound' : ℕ} {o : Outcome}
    (h : o.Within threshold bound) (hle : bound ≤ bound') : o.Within threshold bound' := by
  cases o with
  | done result => exact fun hr ↦ (h hr).trans hle
  | total weight => exact le_trans h hle

theorem SignState.Sound.use {s : SignState K} (h : s.Sound acc req app) {auth : Authority K}
    {k : K} (hauth : Reached acc req auth) (hk : auth.Mentions k) :
    SignState.Sound acc req app { s with used := insert k s.used } where
  provided_eq := h.provided_eq
  approves := h.approves
  mentioned k' hk' := by
    rcases Finset.mem_insert.1 hk' with rfl | hk'
    · exact ⟨auth, hauth, hk⟩
    · exact h.mentioned k' hk'

theorem SignState.Sound.approve {s : SignState K} (h : s.Sound acc req app) {a : AccountId}
    (ha : Approves acc.getActive app a) :
    SignState.Sound acc req app { s with approvedBy := insert a s.approvedBy } where
  provided_eq := h.provided_eq
  approves b hb := by
    rcases Finset.mem_insert.1 hb with rfl | hb
    · exact ha
    · exact h.approves b hb
  mentioned := h.mentioned

theorem signedBy_sound {auth : Authority K} (hauth : Reached acc req auth) {k : K}
    (hk : k ∈ auth.keyAuths.map Prod.fst) :
    SoundFor acc req app (k ∈ app.keys) (signedBy k) := by
  intro s hs
  rw [signedBy]
  split
  case isTrue hmem => exact ⟨hs.use hauth (.inl hk), fun _ ↦ hs.provided_eq ▸ hmem⟩
  case isFalse => exact ⟨hs, fun h ↦ absurd h Bool.false_ne_true⟩

theorem signedByAddress_sound {auth : Authority K} (hauth : Reached acc req auth) {a : Address K}
    (ha : a ∈ auth.addressAuths.map Prod.fst) :
    SoundFor acc req app (a.key ∈ app.keys) (signedByAddress a) := by
  intro s hs
  rw [signedByAddress]
  split
  case isTrue hmem => exact ⟨hs.use hauth (.inr ⟨a, ha, rfl⟩), fun _ ↦ hs.provided_eq ▸ hmem⟩
  case isFalse =>
    exact ⟨⟨hs.provided_eq, hs.approves, hs.mentioned⟩, fun h ↦ absurd h Bool.false_ne_true⟩

theorem checkSigned_sound {X : Type} {p : X → Prop} [DecidablePred p]
    {signedBy : X → SignState K → Bool × SignState K} {auths : List (X × ℕ)}
    (h : ∀ x ∈ auths.map Prod.fst, SoundFor acc req app (p x) (signedBy x)) (threshold : ℕ) :
    ∀ (total : ℕ) {s : SignState K}, s.Sound acc req app →
      (checkSigned signedBy threshold auths total s).2.Sound acc req app ∧
      (checkSigned signedBy threshold auths total s).1.Within threshold
        (total + weightOf p auths) := by
  induction auths with
  | nil => exact fun total s hs ↦ ⟨hs, Nat.le_add_right _ _⟩
  | cons x rest ih =>
    intro total s hs
    obtain ⟨x, w⟩ := x
    obtain ⟨hx, hrest⟩ := List.forall_mem_cons.1 h
    have hstep := hx s hs
    rw [checkSigned, weightOf_cons]
    rcases hc : signedBy x s with ⟨_ | _, s'⟩ <;> rw [hc] at hstep
    · obtain ⟨hs', hw⟩ := ih hrest total hstep.1
      exact ⟨hs', hw.mono (by omega)⟩
    · have hle := addWeight_le total w
      rw [if_pos (hstep.2 rfl)]
      dsimp only
      split
      case isTrue hdone => exact ⟨hstep.1, fun _ ↦ by omega⟩
      case isFalse =>
        obtain ⟨hs', hw⟩ := ih hrest (addWeight total w) hstep.1
        exact ⟨hs', hw.mono (by omega)⟩

/-- The loop counts approved accounts only. -/
theorem checkAccounts_sound {descend : Option (AccountId → SignState K → Bool × SignState K)}
    {auths : List (AccountId × ℕ)}
    (h : ∀ check ∈ descend, ∀ a ∈ auths.map Prod.fst,
      SoundFor acc req app (Approves acc.getActive app a) (check a)) (threshold : ℕ) :
    ∀ (total : ℕ) {s : SignState K}, s.Sound acc req app →
      (checkAccounts descend threshold auths total s).2.Sound acc req app ∧
      ∃ accounts : Finset AccountId, (∀ a ∈ accounts, Approves acc.getActive app a) ∧
        (checkAccounts descend threshold auths total s).1.Within threshold
          (total + weightOf (· ∈ accounts) auths) := by
  induction auths with
  | nil => exact fun total s hs ↦ ⟨hs, ∅, by simp, Nat.le_add_right _ _⟩
  | cons x rest ih =>
    intro total s hs
    obtain ⟨a, w⟩ := x
    have hrest : ∀ check ∈ descend, ∀ b ∈ rest.map Prod.fst,
        SoundFor acc req app (Approves acc.getActive app b) (check b) :=
      fun check hc b hb ↦ h check hc b (List.mem_cons_of_mem _ hb)
    -- the rest of the loop, with the account counted and with the account passed over
    have counted : ∀ s' : SignState K, s'.Sound acc req app → Approves acc.getActive app a →
        ∀ r, r = (if addWeight total w ≥ threshold then (.done true, s')
          else checkAccounts descend threshold rest (addWeight total w) s') →
        r.2.Sound acc req app ∧
        ∃ accounts : Finset AccountId, (∀ b ∈ accounts, Approves acc.getActive app b) ∧
          r.1.Within threshold (total + weightOf (· ∈ accounts) ((a, w) :: rest)) := by
      rintro s' hs' ha r rfl
      have hle := addWeight_le total w
      split
      case isTrue hdone =>
        refine ⟨hs', {a}, by simpa using ha, fun _ ↦ ?_⟩
        rw [weightOf_cons, if_pos (Finset.mem_singleton_self a)]
        omega
      case isFalse =>
        obtain ⟨hs'', accounts, happ, hw⟩ := ih hrest (addWeight total w) hs'
        refine ⟨hs'', insert a accounts, ?_, hw.mono ?_⟩
        · rintro b hb
          rcases Finset.mem_insert.1 hb with rfl | hb
          · exact ha
          · exact happ b hb
        · have hmono : weightOf (· ∈ accounts) rest ≤ weightOf (· ∈ insert a accounts) rest :=
            weightOf_mono (fun b ↦ Finset.mem_insert_of_mem) rest
          rw [weightOf_cons, if_pos (Finset.mem_insert_self a accounts)]
          omega
    have passed : ∀ s' : SignState K, s'.Sound acc req app →
        (checkAccounts descend threshold rest total s').2.Sound acc req app ∧
        ∃ accounts : Finset AccountId, (∀ b ∈ accounts, Approves acc.getActive app b) ∧
          (checkAccounts descend threshold rest total s').1.Within threshold
            (total + weightOf (· ∈ accounts) ((a, w) :: rest)) := by
      intro s' hs'
      obtain ⟨hs'', accounts, happ, hw⟩ := ih hrest total hs'
      exact ⟨hs'', accounts, happ, hw.mono (by rw [weightOf_cons]; omega)⟩
    unfold checkAccounts
    split
    case isTrue =>
      cases hdesc : descend with
      | none =>
        exact ⟨⟨hs.provided_eq, hs.approves, hs.mentioned⟩, ∅, by simp,
          fun h ↦ absurd h Bool.false_ne_true⟩
      | some check =>
        subst hdesc
        obtain ⟨hs', htrue⟩ := h check rfl a List.mem_cons_self s hs
        dsimp only
        rcases hc : check a s with ⟨_ | _, s'⟩ <;> rw [hc] at hs' htrue
        · exact passed s' hs'
        · exact counted _ (hs'.approve (htrue rfl)) (htrue rfl) _ rfl
    case isFalse hmem =>
      exact counted s hs (hs.approves a (not_not.1 hmem)) _ rfl

theorem checkBody_sound {descend : Option (AccountId → SignState K → Bool × SignState K)}
    {auth : Option (Authority K)} (hauth : ∀ au ∈ auth, Reached acc req au)
    (h : ∀ check ∈ descend, ∀ au ∈ auth, ∀ a ∈ au.accountAuths.map Prod.fst,
      SoundFor acc req app (Approves acc.getActive app a) (check a)) :
    SoundFor acc req app (∃ au ∈ auth, au.Satisfied acc.getActive app)
      (checkBody descend auth) := by
  intro s hs
  cases auth with
  | none => exact ⟨hs, fun h ↦ absurd h Bool.false_ne_true⟩
  | some au =>
    have hau := hauth au rfl
    obtain ⟨hs₁, hw₁⟩ := checkSigned_sound (p := (· ∈ app.keys))
      (fun k hk ↦ signedBy_sound hau hk) au.weightThreshold 0 hs
    rw [checkBody]
    rcases hc₁ : checkSigned signedBy au.weightThreshold au.keyAuths 0 s with ⟨⟨r⟩ | ⟨w₁⟩, s₁⟩ <;>
      rw [hc₁] at hs₁ hw₁
    · refine ⟨hs₁, fun hr ↦ ⟨au, rfl, ∅, by simp, ?_⟩⟩
      have := hw₁ hr
      unfold Authority.weight
      omega
    obtain ⟨hs₂, hw₂⟩ := checkSigned_sound (p := fun a : Address K ↦ a.key ∈ app.keys)
      (fun a ha ↦ signedByAddress_sound hau ha) au.weightThreshold w₁ hs₁
    dsimp only
    rcases hc₂ : checkSigned signedByAddress au.weightThreshold au.addressAuths w₁ s₁ with
      ⟨⟨r⟩ | ⟨w₂⟩, s₂⟩ <;> rw [hc₂] at hs₂ hw₂
    · refine ⟨hs₂, fun hr ↦ ⟨au, rfl, ∅, by simp, ?_⟩⟩
      have h₁ : w₁ ≤ _ := hw₁
      have := hw₂ hr
      unfold Authority.weight
      omega
    obtain ⟨hs₃, accounts, happ, hw₃⟩ := checkAccounts_sound (fun check hc a ha ↦
      h check hc au rfl a ha) au.weightThreshold w₂ hs₂
    have h₁ : w₁ ≤ _ := hw₁
    have h₂ : w₂ ≤ _ := hw₂
    dsimp only
    rcases hc₃ : checkAccounts descend au.weightThreshold au.accountAuths w₂ s₂ with
      ⟨⟨r⟩ | ⟨w₃⟩, s₃⟩ <;> rw [hc₃] at hs₃ hw₃
    · refine ⟨hs₃, fun hr ↦ ⟨au, rfl, accounts, happ, ?_⟩⟩
      have := hw₃ hr
      unfold Authority.weight
      omega
    · refine ⟨hs₃, fun hr ↦ ⟨au, rfl, accounts, happ, ?_⟩⟩
      have h₃ : w₃ ≤ _ := hw₃
      have := of_decide_eq_true hr
      unfold Authority.weight
      omega

/-- `check_authority` is sound at any depth. -/
theorem checkAuthority_sound (levels : ℕ) (auth : Option (Authority K))
    (hauth : ∀ au ∈ auth, Reached acc req au) :
    SoundFor acc req app (∃ au ∈ auth, au.Satisfied acc.getActive app)
      (checkAuthority acc.getActive levels auth) := by
  induction levels generalizing auth with
  | zero => exact checkBody_sound hauth fun check hc ↦ absurd hc (by simp)
  | succ levels ih =>
    refine checkBody_sound hauth ?_
    rintro check hc au hau a ha s hs
    obtain rfl := Option.mem_some_iff.1 hc
    obtain ⟨hs', htrue⟩ := ih (acc.getActive a) (fun au' hau' ↦ (hauth au hau).member ha hau') s hs
    exact ⟨hs', fun hr ↦ approves_iff.2 (.inr (htrue hr))⟩

/-! ## The whole check -/

theorem Accounts.checkActive_sound {a : AccountId} (ha : a ∈ req.active) :
    SoundFor acc req app (Approves acc.getActive app a ∨
      ∃ au ∈ acc.getOwner a, au.Satisfied acc.getActive app) (acc.checkActive a) := by
  intro s hs
  have haccount : SoundFor acc req app (Approves acc.getActive app a) (acc.checkAccount a) := by
    intro s hs
    rw [Accounts.checkAccount]
    split
    case isTrue hmem => exact ⟨hs, fun _ ↦ hs.approves a hmem⟩
    case isFalse =>
      obtain ⟨hs', htrue⟩ := checkAuthority_sound acc.maxRecursion _
        (fun au hau ↦ Reached.active ha hau) s hs
      exact ⟨hs', fun hr ↦ approves_iff.2 (.inr (htrue hr))⟩
  obtain ⟨hs', htrue⟩ := haccount s hs
  rw [Accounts.checkActive]
  rcases hc : acc.checkAccount a s with ⟨_ | _, s'⟩ <;> rw [hc] at hs' htrue
  · obtain ⟨hs'', htrue'⟩ := checkAuthority_sound acc.maxRecursion _
      (fun au hau ↦ Reached.activeOwner ha hau) s' hs'
    exact ⟨hs'', fun hr ↦ .inr (htrue' hr)⟩
  · exact ⟨hs', fun _ ↦ .inl (htrue rfl)⟩

theorem Accounts.checkOwner_sound {a : AccountId} (ha : a ∈ req.owner) :
    SoundFor acc req app (a ∈ app.owner ∨ ∃ au ∈ acc.getOwner a, au.Satisfied acc.getActive app)
      (acc.checkOwner app.owner a) := by
  intro s hs
  rw [Accounts.checkOwner]
  split
  case isTrue hmem => exact ⟨hs, fun _ ↦ .inl hmem⟩
  case isFalse =>
    obtain ⟨hs', htrue⟩ := checkAuthority_sound acc.maxRecursion _
      (fun au hau ↦ Reached.owner ha hau) s hs
    exact ⟨hs', fun hr ↦ .inr (htrue hr)⟩

theorem checkAll_sound {X : Type} {check : X → SignState K → Bool × SignState K}
    {P : X → Prop} (xs : List X) (h : ∀ x ∈ xs, SoundFor acc req app (P x) (check x)) :
    SoundFor acc req app (∀ x ∈ xs, P x) (checkAll check xs) := by
  induction xs with
  | nil => exact fun s hs ↦ ⟨hs, fun _ ↦ by simp⟩
  | cons x rest ih =>
    intro s hs
    obtain ⟨hx, hrest⟩ := List.forall_mem_cons.1 h
    obtain ⟨hs', htrue⟩ := hx s hs
    rw [checkAll]
    rcases hc : check x s with ⟨_ | _, s'⟩ <;> rw [hc] at hs' htrue
    · exact ⟨hs', fun hr ↦ absurd hr Bool.false_ne_true⟩
    · obtain ⟨hs'', htrue'⟩ := ih hrest s' hs'
      exact ⟨hs'', fun hr ↦ List.forall_mem_cons.2 ⟨htrue rfl, htrue' hr⟩⟩

theorem Approvals.signState_sound : app.signState.Sound acc req app where
  provided_eq := rfl
  approves a ha := by
    refine .approved ?_
    simpa [Approvals.signState, or_assoc] using ha
  mentioned k hk := absurd hk (Finset.notMem_empty k)

/-- The checks that have been passed when nothing is thrown. -/
theorem verifyAuthority_none {allowCommittee : Bool} {s : SignState K}
    (h : verifyAuthority acc req allowCommittee app = (none, s)) :
    (committeeAccount ∈ req.active → allowCommittee = true) ∧
    ∃ s₁ s₂, checkAll (fun auth ↦ acc.check (some auth)) req.other app.signState = (true, s₁) ∧
      checkAll acc.checkActive (req.active.sort (· ≤ ·)) s₁ = (true, s₂) ∧
      checkAll (acc.checkOwner app.owner) (req.owner.sort (· ≤ ·)) s₂ = (true, s) ∧
      s.provided ⊆ s.used := by
  rw [verifyAuthority] at h
  split at h
  case isTrue => cases h
  case isFalse hcommittee =>
    split at h <;> rename_i s₁ h₁ <;> try cases h
    split at h <;> rename_i s₂ h₂ <;> try cases h
    split at h <;> rename_i s₃ h₃ <;> try cases h
    obtain ⟨hused, rfl⟩ := Prod.mk.inj h
    refine ⟨?_, s₁, s₂, h₁, h₂, h₃, ?_⟩
    · intro hmem
      cases allowCommittee with
      | true => rfl
      | false => exact absurd (by simpa using hmem) hcommittee
    · by_contra hnot
      rw [if_neg hnot] at hused
      cases hused

theorem verifyAuthority_accepted {allowCommittee : Bool} {s : SignState K}
    (h : verifyAuthority acc req allowCommittee app = (none, s)) :
    req.Satisfied acc app ∧ ∀ k ∈ app.keys, ∃ auth, Reached acc req auth ∧ auth.Mentions k := by
  obtain ⟨-, s₁, s₂, h₁, h₂, h₃, hused⟩ := verifyAuthority_none h
  have hother : SoundFor acc req app (∀ auth ∈ req.other, auth.Satisfied acc.getActive app)
      (checkAll (fun auth ↦ acc.check (some auth)) req.other) := by
    refine checkAll_sound _ fun auth hauth s hs ↦ ?_
    obtain ⟨hs', htrue⟩ := checkAuthority_sound acc.maxRecursion (some auth)
      (fun au hau ↦ Option.mem_some_iff.1 hau ▸ Reached.other hauth) s hs
    refine ⟨hs', fun hr ↦ ?_⟩
    obtain ⟨au, hau, hsat⟩ := htrue hr
    exact Option.mem_some_iff.1 hau ▸ hsat
  obtain ⟨hs₁, hother⟩ := hother _ Approvals.signState_sound
  rw [h₁] at hs₁ hother
  obtain ⟨hs₂, hactive⟩ := checkAll_sound (req.active.sort (· ≤ ·))
    (fun a ha ↦ Accounts.checkActive_sound ((Finset.mem_sort _).1 ha)) _ hs₁
  rw [h₂] at hs₂ hactive
  obtain ⟨hs₃, howner⟩ := checkAll_sound (req.owner.sort (· ≤ ·))
    (fun a ha ↦ Accounts.checkOwner_sound ((Finset.mem_sort _).1 ha)) _ hs₂
  rw [h₃] at hs₃ howner
  exact ⟨⟨hother rfl, fun a ha ↦ hactive rfl a ((Finset.mem_sort _).2 ha),
    fun a ha ↦ howner rfl a ((Finset.mem_sort _).2 ha)⟩,
    fun k hk ↦ hs₃.mentioned k (hused (hs₃.provided_eq ▸ hk))⟩

/-- **What `verify_authority` accepts is authorised.** -/
theorem verifyAuthority_sound {allowCommittee : Bool} {s : SignState K}
    (h : verifyAuthority acc req allowCommittee app = (none, s)) :
    (∀ auth ∈ req.other, auth.Satisfied acc.getActive app) ∧
    (∀ a ∈ req.active, (a = tempAccount ∨ a ∈ app.active ∨ a ∈ app.owner) ∨
      (∃ auth ∈ acc.getActive a, auth.Satisfied acc.getActive app) ∨
      ∃ auth ∈ acc.getOwner a, auth.Satisfied acc.getActive app) ∧
    (∀ a ∈ req.owner, a ∈ app.owner ∨ ∃ auth ∈ acc.getOwner a, auth.Satisfied acc.getActive app) ∧
    (∀ k ∈ app.keys, ∃ auth, Reached acc req auth ∧ auth.Mentions k) ∧
    (committeeAccount ∈ req.active → allowCommittee = true) := by
  obtain ⟨hsat, hkeys⟩ := verifyAuthority_accepted h
  refine ⟨hsat.other, fun a ha ↦ ?_, hsat.owner, hkeys, (verifyAuthority_none h).1⟩
  rcases hsat.active a ha with happ | howner
  · exact (approves_iff.1 happ).imp_right .inl
  · exact .inr (.inr howner)

/-- Accounts 5 and 6 have weight in each other's active authority, and a key has in that of 6. -/
def circle : Accounts ℕ where
  getActive
    | 5 => some ⟨1, [(6, 1)], [], [], by decide, List.nodup_nil, nodup_noAddresses⟩
    | 6 => some ⟨2, [(5, 1)], [(1, 2)], [], by decide, by decide, nodup_noAddresses⟩
    | _ => none
  getOwner _ := none
  maxRecursion := 2

/-- Account 5 signs with the key of account 6. -/
theorem circle_sound :
    ((5 : AccountId) = tempAccount ∨ (5 : AccountId) ∈ (∅ : Finset AccountId) ∨
      (5 : AccountId) ∈ (∅ : Finset AccountId)) ∨
    (∃ auth ∈ circle.getActive 5, auth.Satisfied circle.getActive ⟨{1}, ∅, ∅⟩) ∨
    ∃ auth ∈ circle.getOwner 5, auth.Satisfied circle.getActive ⟨{1}, ∅, ∅⟩ := by
  have h : verifyAuthority circle ⟨{5}, ∅, []⟩ false ⟨{1}, ∅, ∅⟩ =
      (none, (verifyAuthority circle ⟨{5}, ∅, []⟩ false ⟨{1}, ∅, ∅⟩).2) :=
    Prod.ext (by decide +kernel) rfl
  exact (verifyAuthority_sound h).2.1 5 (Finset.mem_singleton_self 5)

end Graphene
