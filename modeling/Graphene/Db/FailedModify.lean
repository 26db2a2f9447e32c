import Graphene.Db.IndexKinds
import Graphene.Db.UndoSessions

/-!
# Modifications that fail inside a session

`primary_index::modify` saves the object for undo and then has the index modify it.  Where the
modifier throws, an index on a vector is left with whatever the object has become, and undo puts the
old value over it.  A `multi_index_container` drops the object, and it does the same if the object
now has a key of another; undo then looks for an object that is not there, and throws.

* `ObjectDatabase.tryModify` — `modify` with a modifier that may fail.
* `failed_modify_recoverable` — undoing the session succeeds exactly if the index is not a
  `generic_index`.
-/

set_option autoImplicit false

namespace Graphene

variable {V : Type}

/-- What a modification that fails does to its object. -/
inductive IndexKind where
  /-- `generic_index`, which drops it. -/
  | generic
  /-- `simple_index` and `flat_index`, which keep what it has become. -/
  | vector
deriving DecidableEq

section modify

variable (kind : IndexId → IndexKind) (sharesKey : IndexId → V → V → Bool)

/-- Another object of the index has one of the keys of `obj` in a unique secondary index. -/
def Indexes.collides (ix : Indexes V) (id : ObjectId) (obj : V) : Bool :=
  (List.range (ix.nextId id.index)).any fun i ↦
    i ≠ id.inst && (ix.objects ⟨id.index, i⟩).any fun other ↦ sharesKey id.index other obj

/-- What an object is after its index has failed to modify it or has modified it. -/
def Indexes.tryModify (ix : Indexes V) (id : ObjectId) (was : V) (modifier : V → Exit V) :
    Exit (Option V) :=
  let item := modifier was
  match kind id.index with
  | .generic =>
    if item.threw || ix.collides sharesKey id item.value then ⟨none, true⟩
    else ⟨some item.value, false⟩
  | .vector => ⟨some item.value, item.threw⟩

/-- `primary_index::modify`, on the object `get_object` finds, with a modifier that may throw. -/
def ObjectDatabase.tryModify (db : ObjectDatabase V) (id : ObjectId) (modifier : V → Exit V) :
    Option (Exit (ObjectDatabase V)) := do
  let was ← db.indexes.objects id
  let undoDb := db.undoDb.recordIn (UndoState.onModify id was)
  let obj := db.indexes.tryModify kind sharesKey id was modifier
  return ⟨{ indexes := { db.indexes with
                         objects := Function.update db.indexes.objects id obj.value }
            undoDb := undoDb }, obj.threw⟩

/-- The modification of an object fails: the modifier throws, or gives it a key of another object
in a unique secondary index. -/
def ModifyFails (ix : Indexes V) (id : ObjectId) (was : V) (modifier : V → Exit V) : Prop :=
  (modifier was).threw = true ∨
    kind id.index = .generic ∧ ix.collides sharesKey id (modifier was).value = true

end modify

/-! ## Undoing what is not there -/

section stuck

variable {S A : Type} {f : S → A → Option S} {P : S → Prop}

theorem foldlM_inv (hP : ∀ s a s', P s → f s a = some s' → P s') {l : List A} {s s' : S}
    (hs : P s) (h : l.foldlM f s = some s') : P s' := by
  induction l generalizing s with
  | nil =>
    obtain rfl := Option.some_inj.1 h
    exact hs
  | cons a l ih =>
    rw [List.foldlM_cons] at h
    obtain ⟨s₁, h₁, hrest⟩ := Option.bind_eq_some_iff.1 h
    exact ih (hP s a s₁ hs h₁) hrest

/-- A loop gets stuck if it has a step that is stuck whenever `P` holds. -/
theorem foldlM_stuck (hP : ∀ s a s', P s → f s a = some s' → P s') {l : List A} {a : A}
    (ha : a ∈ l) (hstuck : ∀ s, P s → f s a = none) {s : S} (hs : P s) :
    l.foldlM f s = none := by
  induction l generalizing s with
  | nil => cases ha
  | cons b l ih =>
    rw [List.foldlM_cons]
    cases hb : f s b with
    | none => rfl
    | some s₁ =>
      rcases List.mem_cons.1 ha with rfl | hmem
      · rw [hstuck s hs] at hb
        cases hb
      · exact ih hmem (hP s b s₁ hs hb)

end stuck

/-- The object is not there. -/
def Indexes.Lacks (ix : Indexes V) (id : ObjectId) : Prop := ix.objects id = none

theorem Indexes.Lacks.modify {ix ix' : Indexes V} {id k : ObjectId} {obj : V} (h : ix.Lacks id)
    (hix : ix.modify k obj = some ix') : ix'.Lacks id := by
  rw [Indexes.modify] at hix
  split at hix
  · next hlive =>
    obtain rfl := Option.some_inj.1 hix
    have hne : id ≠ k := by
      rintro rfl
      rw [h] at hlive
      cases hlive
    exact (Function.update_of_ne hne _ _).trans h
  · cases hix

theorem Indexes.Lacks.remove {ix ix' : Indexes V} {id k : ObjectId} (h : ix.Lacks id)
    (hix : ix.remove k = some ix') : ix'.Lacks id := by
  rw [Indexes.remove] at hix
  split at hix
  · obtain rfl := Option.some_inj.1 hix
    by_cases heq : id = k
    · subst heq
      exact Function.update_self ..
    · exact (Function.update_of_ne heq _ _).trans h
  · cases hix

/-- The four loops throw at an object that is to be put back or removed and is not there. -/
theorem UndoState.rewind_of_lacks {state : UndoState V} {ix : Indexes V} {id : ObjectId}
    (h : ix.Lacks id) (hrec : id ∈ state.oldValues ∨ id ∈ state.newIds) :
    state.rewind ix = none := by
  have hmodify : ∀ (ix : Indexes V) (item : Sigma fun _ : ObjectId ↦ V) (ix' : Indexes V),
      ix.Lacks id → ix.modify item.1 item.2 = some ix' → ix'.Lacks id :=
    fun ix item ix' hix hstep ↦ hix.modify hstep
  have hremove : ∀ (ix : Indexes V) (item : Sigma fun _ : ObjectId ↦ Unit) (ix' : Indexes V),
      ix.Lacks id → ix.remove item.1 = some ix' → ix'.Lacks id :=
    fun ix item ix' hix hstep ↦ hix.remove hstep
  rw [rewind]
  rcases hrec with hold | hnew
  · obtain ⟨item, hitem, rfl⟩ := List.mem_map.1 (AList.mem_keys.1 hold)
    rw [foldlM_stuck hmodify hitem (fun ix hix ↦ if_neg (by simp [show ix.objects item.1 = none
      from hix])) h]
    rfl
  · obtain ⟨item, hitem, rfl⟩ := List.mem_map.1 (AList.mem_keys.1 hnew)
    cases hfirst : state.oldValues.entries.foldlM (fun ix item ↦ ix.modify item.1 item.2) ix with
    | none => rfl
    | some ix₁ =>
      have hix₁ := foldlM_inv hmodify h hfirst
      simp only [Option.bind_eq_bind, Option.bind_some]
      rw [foldlM_stuck hremove hitem (fun ix hix ↦ if_neg (by simp [show ix.objects item.1 = none
        from hix])) hix₁]
      rfl

/-- What `on_modify` has recorded is among what undo puts back or removes. -/
theorem UndoState.mem_onModify (state : UndoState V) (id : ObjectId) (obj : V) :
    id ∈ (state.onModify id obj).oldValues ∨ id ∈ (state.onModify id obj).newIds := by
  rw [onModify]
  split
  · exact .inr ‹_›
  · split
    · exact .inl ‹_›
    · exact .inl (AList.mem_insert _ |>.2 (.inl rfl))

theorem UndoDatabase.stack_recordIn {u : UndoDatabase V} (h : u.disabled = false)
    (f : UndoState V → UndoState V) : ∃ state rest, (u.recordIn f).stack = f state :: rest := by
  rw [recordIn, h, if_neg Bool.false_ne_true]
  cases u.stack with
  | nil => exact ⟨{}, [], rfl⟩
  | cons state rest => exact ⟨state, rest, rfl⟩

/-! ## Recovering -/

variable {kind : IndexId → IndexKind} {sharesKey : IndexId → V → V → Bool}

/-- Where a `generic_index` has failed to modify an object, undo throws. -/
theorem ObjectDatabase.undo_of_tryModify_generic {db db' : ObjectDatabase V} {id : ObjectId}
    {was : V} {modifier : V → Exit V} (hid : db.indexes.objects id = some was)
    (hkind : kind id.index = .generic) (henabled : db.undoDb.disabled = false)
    (h : db.tryModify kind sharesKey id modifier = some ⟨db', true⟩) : db'.undo = none := by
  rw [tryModify, hid] at h
  have hdropped : db'.indexes.Lacks id ∧
      db'.undoDb = db.undoDb.recordIn (UndoState.onModify id was) := by
    simp only [Indexes.tryModify, hkind, Option.bind_eq_bind, Option.bind_some] at h
    split at h
    · cases h
      exact ⟨Function.update_self .., rfl⟩
    · cases h
  obtain ⟨state, rest, hstack⟩ :=
    UndoDatabase.stack_recordIn henabled (UndoState.onModify id was)
  rw [← hdropped.2] at hstack
  have hrewind := UndoState.rewind_of_lacks hdropped.1 (UndoState.mem_onModify state id was)
  rw [undo, hstack]
  dsimp only
  rw [hrewind]
  split
  · rfl
  · split <;> rfl

/-- A modification that fails does throw. -/
theorem ObjectDatabase.tryModify_of_fails {db : ObjectDatabase V} {id : ObjectId} {was : V}
    {modifier : V → Exit V} (hid : db.indexes.objects id = some was)
    (hfails : ModifyFails kind sharesKey db.indexes id was modifier) :
    ∃ db', db.tryModify kind sharesKey id modifier = some ⟨db', true⟩ := by
  rw [tryModify, hid]
  simp only [Indexes.tryModify, Option.bind_eq_bind, Option.bind_some]
  cases hkind : kind id.index with
  | generic =>
    have hcond : (modifier was).threw = true ∨
        db.indexes.collides sharesKey id (modifier was).value = true :=
      hfails.imp_right And.right
    dsimp only
    rw [if_pos (Bool.or_eq_true_iff.2 hcond)]
    exact ⟨_, rfl⟩
  | vector =>
    rcases hfails with hthrew | ⟨hgeneric, -⟩
    · dsimp only
      rw [hthrew]
      exact ⟨_, rfl⟩
    · rw [hkind] at hgeneric
      cases hgeneric

/-- Where an index on a vector has failed to modify an object, it is as if it had modified it. -/
theorem ObjectDatabase.modify_of_tryModify_vector {db db' : ObjectDatabase V} {id : ObjectId}
    {was : V} {modifier : V → Exit V} (hid : db.indexes.objects id = some was)
    (hkind : kind id.index = .vector)
    (h : db.tryModify kind sharesKey id modifier = some ⟨db', true⟩) :
    db.modify id (modifier was).value = some db' := by
  rw [tryModify, hid] at h
  simp only [Indexes.tryModify, hkind, Option.bind_eq_bind, Option.bind_some] at h
  obtain ⟨rfl, -⟩ := Exit.mk.injEq .. ▸ Option.some_inj.1 h
  simp [modify, hid, Indexes.modify]

namespace UndoRun

/-- The run after its database has failed to modify an object. -/
def failed (r : UndoRun V) (db : ObjectDatabase V) : UndoRun V :=
  { r with db, owners := recorded r.owners }

variable (kind sharesKey) in
/-- **A modification that fails is recovered from exactly if the index is not a
`generic_index`.**  In every run, inside the session `h` whose undo state is on top of the stack:
the exception comes out, and undoing `h` leaves the objects and the `next_id`s that it was started
on if the index keeps its objects in a vector, and fails if it keeps them in a container. -/
theorem failed_modify_recoverable {ix : Indexes V} (hix : ix.Fresh) {maxSize : ℕ}
    {calls : List (UndoCall V)} {r : UndoRun V} (hr : (init ix maxSize).run calls = some r)
    {h : ℕ} (htop : r.Top h) (hlive : r.Live h) (hactive : r.db.undoDb.activeSessions ≠ 0)
    {id : ObjectId} {was : V} (hid : r.db.indexes.objects id = some was)
    {modifier : V → Exit V} (hfails : ModifyFails kind sharesKey r.db.indexes id was modifier) :
    ∃ db', r.db.tryModify kind sharesKey id modifier = some ⟨db', true⟩ ∧
      ((∃ r', (r.failed db').step (.undo h) = some r' ∧
        r.startedAt[h]? = some r'.db.indexes) ↔ kind id.index ≠ .generic) := by
  obtain ⟨db', hdb'⟩ := ObjectDatabase.tryModify_of_fails hid hfails
  refine ⟨db', hdb', ?_⟩
  obtain ⟨s, hs, happly⟩ := hlive
  have hinv := inv_run (inv_init hix maxSize) hr
  cases hkind : kind id.index with
  | generic =>
    refine iff_of_false ?_ (by simp)
    rintro ⟨r', hstep, -⟩
    have hundo := ObjectDatabase.undo_of_tryModify_generic hid hkind hinv.wf.enabled hdb'
    simp [step, failed, hs, Session.undo, happly, hundo] at hstep
  | vector =>
    refine iff_of_true ?_ (by simp)
    have hmodify := ObjectDatabase.modify_of_tryModify_vector hid hkind hdb'
    have hstep : r.step (.modify id (modifier was).value) = some (r.failed db') := by
      simp [step, hmodify, failed]
    have hrun : (init ix maxSize).run (calls ++ [.modify id (modifier was).value]) =
        some (r.failed db') := by
      rw [run, List.foldlM_append]
      change ((init ix maxSize).run calls).bind _ = _
      rw [hr]
      simpa using hstep
    have htop' : (r.failed db').Top h := by
      obtain ⟨owners, howners⟩ := List.head?_eq_some_iff.1 htop
      rw [Top, failed, howners]
      rfl
    have hactive' : (r.failed db').db.undoDb.activeSessions ≠ 0 := by
      obtain ⟨was, -, hmodify⟩ := Option.bind_eq_some_iff.1 hmodify
      obtain ⟨ix', -, hmodify⟩ := Option.bind_eq_some_iff.1 hmodify
      obtain rfl := Option.some_inj.1 hmodify
      rwa [failed, UndoDatabase.activeSessions_recordIn]
    have hinv' := inv_run (inv_init hix maxSize) hrun
    obtain ⟨copy, _, -, hcopy⟩ := history_of_top hinv' htop'
    obtain ⟨r', hr', hindexes⟩ := undo_of_top hinv' htop' ⟨s, hs, happly⟩ hactive' hcopy
    exact ⟨r', hr', hindexes ▸ hcopy⟩

/-- An object, and a session. -/
def objectAndSession : List (UndoCall ℕ) := [.create ⟨1, 2⟩ 7, .startUndoSession]

/-- The object that `objectAndSession` creates. -/
def theObject : ObjectId := ⟨⟨1, 2⟩, 0⟩

/-- A modifier that changes the object and throws. -/
def throwMidway : ℕ → Exit ℕ := fun _ ↦ ⟨9, true⟩

/-- What there is before the object is modified. -/
theorem run_objectAndSession : ∃ r, (init (emptyIndexes ℕ) 256).run objectAndSession = some r ∧
    r.Top 0 ∧ r.Live 0 ∧ r.db.undoDb.activeSessions ≠ 0 ∧
    r.db.indexes.objects theObject = some 7 := by
  have hrun : ((init (emptyIndexes ℕ) 256).run objectAndSession).map (fun r ↦
      (r.owners, r.sessions, r.db.undoDb.activeSessions, r.db.indexes.objects theObject)) =
      some ([some 0, none], [{}], 1, some 7) := by
    decide
  obtain ⟨r, hr, hall⟩ := Option.map_eq_some_iff.1 hrun
  simp only [Prod.mk.injEq] at hall
  obtain ⟨howners, hsessions, hactive, hobj⟩ := hall
  refine ⟨r, hr, ?_, ⟨{}, ?_, rfl⟩, ?_, hobj⟩
  · rw [Top, howners]
    rfl
  · rw [hsessions]
    rfl
  · rw [hactive]
    decide

theorem failed_modify_recoverable_vector :
    ∃ (r : UndoRun ℕ) (db' : ObjectDatabase ℕ),
      r.db.tryModify (fun _ ↦ .vector) (fun _ _ _ ↦ false) theObject throwMidway =
        some ⟨db', true⟩ ∧
      ((∃ r', (r.failed db').step (.undo 0) = some r' ∧
        r.startedAt[0]? = some r'.db.indexes) ↔ IndexKind.vector ≠ .generic) := by
  obtain ⟨r, hr, htop, hlive, hactive, hobj⟩ := run_objectAndSession
  exact ⟨r, failed_modify_recoverable (fun _ ↦ .vector) (fun _ _ _ ↦ false)
    fresh_emptyIndexes hr htop hlive hactive hobj (.inl rfl)⟩

/-- **A modifier that throws on an object of a `generic_index` cannot be undone**: the session's
undo throws too. -/
theorem failed_modify_unrecoverable :
    ∃ (r : UndoRun ℕ) (db' : ObjectDatabase ℕ),
      (init (emptyIndexes ℕ) 256).run objectAndSession = some r ∧ r.Top 0 ∧ r.Live 0 ∧
      r.db.tryModify (fun _ ↦ .generic) (fun _ _ _ ↦ false) theObject throwMidway =
        some ⟨db', true⟩ ∧
      (r.failed db').step (.undo 0) = none := by
  have hrun : (((init (emptyIndexes ℕ) 256).run objectAndSession).bind fun r ↦
      (r.db.tryModify (fun _ ↦ .generic) (fun _ _ _ ↦ false) theObject throwMidway).map fun x ↦
        (x.threw, ((r.failed x.value).step (.undo 0)).isNone)) = some (true, true) := by
    decide
  obtain ⟨r, hr, htop, hlive, -, -⟩ := run_objectAndSession
  rw [hr, Option.bind_some] at hrun
  obtain ⟨⟨db', threw⟩, htry, hall⟩ := Option.map_eq_some_iff.1 hrun
  simp only [Prod.mk.injEq, Option.isNone_iff_eq_none] at hall
  obtain ⟨rfl, hundo⟩ := hall
  exact ⟨r, db', hr, htop, hlive, htry, hundo⟩

end UndoRun

end Graphene
