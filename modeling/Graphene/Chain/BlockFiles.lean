import Graphene.Chain.BlockDatabase
import Graphene.Lib.Codec
import Graphene.Lib.RecordFile
import Mathlib.Data.Nat.SuccPred
import Mathlib.Order.SuccPred.Archimedean

/-!
# The files of the block log

`BlockDatabase` has the blocks themselves in its entries.  Here are the two files it stands for:
`index`, whose records say where in `blocks` the bytes of a block begin and how many they are, and
`blocks`, to which the bytes of every stored block are appended.

* `BlockFiles.store`, `remove`, `contains`, `fetchBlockId`, `fetchOptional`, `fetchByNumber`,
  `last`, `lastId` — the operations of `block_database.cpp` on the files.
* `BlockFiles.Represents` — the files are those of a log; storing and removing keep it so.
* `BlockFiles.Represents.contains_eq` and the lemmas after it — the answers are those of the log.

A `block_size` has 32 bits and the bytes of a block may be more; the answers are those of the log
where they are not.  `fetch_block_id` needs no such thing, for it does not look at the size.
-/

set_option autoImplicit false

namespace Graphene

variable {C : ChainTypes}

/-- How `fc::raw` packs blocks. -/
structure BlockCodec (C : ChainTypes) extends Codec (SignedBlock C) where
  /-- A block has bytes. -/
  pack_ne_nil : ∀ b, pack b ≠ []
  /-- Reading past the end throws. -/
  unpack_take : ∀ b n, n < (pack b).length → unpack ((pack b).take n) = none
  /-- `signed_block()`. -/
  emptyBlock : SignedBlock C

/-- `fc::raw::unpack<signed_block>`, which unpacks no data as `signed_block()`. -/
def BlockCodec.unpackData (K : BlockCodec C) (data : List UInt8) : Option (SignedBlock C) :=
  if data = [] then some K.emptyBlock else (K.unpack data).map Prod.fst

/-- `index_entry`, as it is in the file. -/
structure IndexRecord (C : ChainTypes) where
  /-- `block_pos`. -/
  blockPos : ℕ
  /-- `block_size`. -/
  blockSize : UInt32
  /-- `block_id`. -/
  blockId : BlockId C

/-- `block_size == 0`. -/
def IndexRecord.isEmpty (e : IndexRecord C) : Bool := e.blockSize = 0

/-- What is read where nothing was written. -/
def IndexRecord.zero (C : ChainTypes) : IndexRecord C := ⟨0, 0, BlockId.zero C⟩

/-- The files of a `block_database`. -/
structure BlockFiles (C : ChainTypes) where
  /-- `_block_num_to_pos`. -/
  index : List (IndexRecord C) := []
  /-- `_blocks`. -/
  blocks : List UInt8 := []

/-- What a `block_database` throws. -/
inductive BlockFilesError (C : ChainTypes) where
  /-- "Block ${id} not contained in block database". -/
  | idNotContained (id : BlockId C)
  /-- "Block number ${block_num} not contained in block database". -/
  | numNotContained (num : ℕ)
  /-- "Empty block_id in block_database (maybe corrupt on disk?)". -/
  | emptyBlockId

namespace BlockFiles

/-- The record of the block number `num`. -/
def record (f : BlockFiles C) (num : ℕ) : IndexRecord C := f.index.getD num (IndexRecord.zero C)

/-- `store`. -/
def store (P : Protocol C) (K : BlockCodec C) (f : BlockFiles C) (id : BlockId C)
    (b : SignedBlock C) : BlockFiles C :=
  let id := if id = BlockId.zero C then P.blockId b else id
  let vec := K.pack b
  { index := writeRecord (IndexRecord.zero C) f.index id.num
      ⟨f.blocks.length, UInt32.ofNat vec.length, id⟩
    blocks := f.blocks ++ vec }

/-- `remove`. -/
def remove (f : BlockFiles C) (id : BlockId C) : Except (BlockFilesError C) (BlockFiles C) :=
  if f.index.length ≤ id.num then .error (.idNotContained id)
  else
    let e := f.record id.num
    if e.blockId = id then
      .ok { f with
        index := writeRecord (IndexRecord.zero C) f.index id.num { e with blockSize := 0 } }
    else .ok f

/-- `contains`. -/
def contains (f : BlockFiles C) (id : BlockId C) : Bool :=
  if id = BlockId.zero C then false
  else if f.index.length ≤ id.num then false
  else
    let e := f.record id.num
    e.blockId = id && 0 < e.blockSize

/-- `fetch_block_id`: the size of the record is not looked at. -/
def fetchBlockId (f : BlockFiles C) (num : ℕ) : Except (BlockFilesError C) (BlockId C) :=
  if f.index.length ≤ num then .error (.numNotContained num)
  else
    let e := f.record num
    if e.blockId = BlockId.zero C then .error .emptyBlockId else .ok e.blockId

/-- The `block_size` bytes at `block_pos`; reading past the end throws. -/
def readData (f : BlockFiles C) (e : IndexRecord C) : Option (List UInt8) :=
  if e.blockSize = 0 then some []
  else if e.blockPos + e.blockSize.toNat ≤ f.blocks.length then
    some ((f.blocks.drop e.blockPos).take e.blockSize.toNat)
  else none

/-- The block of a record; it must have the id that the record has. -/
def readBlock (P : Protocol C) (K : BlockCodec C) (f : BlockFiles C) (e : IndexRecord C) :
    Option (SignedBlock C) := do
  let data ← f.readData e
  let result ← K.unpackData data
  if P.blockId result = e.blockId then some result else none

/-- `fetch_optional`. -/
def fetchOptional (P : Protocol C) (K : BlockCodec C) (f : BlockFiles C) (id : BlockId C) :
    Option (SignedBlock C) :=
  if f.index.length ≤ id.num then none
  else
    let e := f.record id.num
    if e.blockId = id then f.readBlock P K e else none

/-- `fetch_by_number`. -/
def fetchByNumber (P : Protocol C) (K : BlockCodec C) (f : BlockFiles C) (num : ℕ) :
    Option (SignedBlock C) :=
  if f.index.length ≤ num then none else f.readBlock P K (f.record num)

/-- The record `last` and `last_id` find: they go back from the last one over those whose size is
zero. -/
def lastRecord (f : BlockFiles C) : Option (IndexRecord C) :=
  if f.index.length < 1 then none
  else
    let e := searchBack IndexRecord.isEmpty (IndexRecord.zero C) f.index
      (f.record (f.index.length - 1)) f.index.length
    if e.isEmpty then none else some e

/-- `last`, which does not compare ids. -/
def last (K : BlockCodec C) (f : BlockFiles C) : Option (SignedBlock C) := do
  let e ← f.lastRecord
  let data ← f.readData e
  K.unpackData data

/-- `last_id`. -/
def lastId (f : BlockFiles C) : Option (BlockId C) := f.lastRecord.map IndexRecord.blockId

/-! ## What the files stand for -/

variable {P : Protocol C} {K : BlockCodec C} {f : BlockFiles C} {log : BlockDatabase C}

/-- The files are those of the log. -/
structure Represents (K : BlockCodec C) (f : BlockFiles C) (log : BlockDatabase C) : Prop where
  /-- The index is as long. -/
  length : f.index.length = log.size
  /-- The records have the ids of the entries. -/
  blockId : ∀ n, (f.record n).blockId = (log.entries n).blockId
  /-- Where no block is, the size is zero. -/
  removed : ∀ n, (log.entries n).block = none → (f.record n).blockSize = 0
  /-- Where a block is, the size is the number of its bytes, as far as it has room. -/
  size : ∀ n b, (log.entries n).block = some b →
    (f.record n).blockSize = UInt32.ofNat (K.pack b).length
  /-- And the bytes are where the record says. -/
  bytes : ∀ n b, (log.entries n).block = some b →
    K.pack b <+: f.blocks.drop (f.record n).blockPos

/-- New files are those of a new log. -/
theorem represents_new : Represents K {} ({} : BlockDatabase C) where
  length := rfl
  blockId _ := rfl
  removed _ _ := rfl
  size _ _ h := nomatch h
  bytes _ _ h := nomatch h

theorem record_write (n m : ℕ) (e : IndexRecord C) (blocks : List UInt8) :
    record ⟨writeRecord (IndexRecord.zero C) f.index n e, blocks⟩ m =
      if m = n then e else f.record m :=
  getD_writeRecord n m e

/-- **Storing** a block writes the files of the log it is stored in. -/
theorem Represents.store (h : Represents K f log) (id : BlockId C) (b : SignedBlock C) :
    Represents K (f.store P K id b) (log.store P id b) := by
  have hbytes : ∀ n b', (log.entries n).block = some b' →
      K.pack b' <+: (f.blocks ++ K.pack b).drop (f.record n).blockPos := fun n b' hb' ↦ by
    rw [List.drop_append]
    exact (h.bytes n b' hb').trans (List.prefix_append _ _)
  simp only [BlockFiles.store, BlockDatabase.store]
  generalize (if id = BlockId.zero C then P.blockId b else id) = id
  constructor
  · show (writeRecord _ _ _ _).length = _
    rw [length_writeRecord, h.length]
  all_goals
    intro n
    simp only [record_write, Function.update_apply]
    split_ifs
  · rfl
  · exact h.blockId n
  · exact fun hb ↦ nomatch hb
  · exact h.removed n
  · rintro b' ⟨⟩
    rfl
  · exact h.size n
  · rintro b' ⟨⟩
    simp
  · exact hbytes n

/-- **Removing** a block writes the files of the log it is removed from, or throws as it does. -/
theorem Represents.remove (h : Represents K f log) (id : BlockId C) :
    match f.remove id, log.remove id with
    | .ok f', some log' => Represents K f' log'
    | .error _, none => True
    | _, _ => False := by
  rw [BlockFiles.remove, BlockDatabase.remove, h.length]
  by_cases hlen : log.size ≤ id.num
  · simp only [hlen, if_true]
  simp only [hlen, if_false, h.blockId]
  by_cases hid : (log.entries id.num).blockId = id
  · simp only [hid, if_true]
    constructor
    · show (writeRecord _ _ _ _).length = _
      rw [length_writeRecord, h.length]
      show max log.size (id.num + 1) = log.size
      omega
    all_goals
      intro n
      simp only [record_write, Function.update_apply]
      split_ifs with hn
    · rfl
    · exact h.blockId n
    · exact fun _ ↦ rfl
    · exact h.removed n
    · exact fun b hb ↦ nomatch hb
    · exact h.size n
    · exact fun b hb ↦ nomatch hb
    · exact h.bytes n
  · simp only [hid, if_false]
    exact h

/-! ## The answers -/

/-- The bytes of every block of the log can be counted in 32 bits. -/
def Fits (K : BlockCodec C) (log : BlockDatabase C) : Prop :=
  ∀ n b, (log.entries n).block = some b → (K.pack b).length < 2 ^ 32

/-- No id of a removed block is that of `signed_block()`. -/
def NoEmptyBlock (P : Protocol C) (K : BlockCodec C) (log : BlockDatabase C) : Prop :=
  ∀ n, (log.entries n).block = none → P.blockId K.emptyBlock ≠ (log.entries n).blockId

theorem unpackData_pack (b : SignedBlock C) : K.unpackData (K.pack b) = some b := by
  rw [BlockCodec.unpackData, if_neg (K.pack_ne_nil b), ← List.append_nil (K.pack b), K.unpack_pack]
  rfl

namespace Represents

theorem toNat_blockSize (h : Represents K f log) (hfits : Fits K log) {n : ℕ} {b : SignedBlock C}
    (hb : (log.entries n).block = some b) : (f.record n).blockSize.toNat = (K.pack b).length := by
  rw [h.size n b hb]
  exact UInt32.toNat_ofNat_of_lt' (hfits n b hb)

/-- The size is zero where no block is, and only there. -/
theorem blockSize_eq_zero_iff (h : Represents K f log) (hfits : Fits K log) (n : ℕ) :
    (f.record n).blockSize = 0 ↔ (log.entries n).block = none := by
  refine ⟨fun hzero ↦ ?_, h.removed n⟩
  rw [Option.eq_none_iff_forall_ne_some]
  intro b hb
  have hlen := h.toNat_blockSize hfits hb
  rw [hzero] at hlen
  exact K.pack_ne_nil b (List.length_eq_zero_iff.1 hlen.symm)

/-- The bytes of a block are read. -/
theorem readData_eq (h : Represents K f log) (hfits : Fits K log) {n : ℕ} {b : SignedBlock C}
    (hb : (log.entries n).block = some b) : f.readData (f.record n) = some (K.pack b) := by
  have hlen := h.toNat_blockSize hfits hb
  have hpos : 0 < (K.pack b).length := List.length_pos_iff.2 (K.pack_ne_nil b)
  have hle := (h.bytes n b hb).length_le
  rw [List.length_drop] at hle
  have hne : (f.record n).blockSize ≠ 0 := fun hzero ↦ by
    rw [(h.blockSize_eq_zero_iff hfits n).1 hzero] at hb
    cases hb
  rw [readData, if_neg hne, hlen, if_pos (by omega), ← List.prefix_iff_eq_take.1 (h.bytes n b hb)]

/-- **Reading a block** from the files gives what the entry has. -/
theorem readBlock_eq (h : Represents K f log) (hfits : Fits K log) (hempty : NoEmptyBlock P K log)
    (n : ℕ) : f.readBlock P K (f.record n) = BlockDatabase.read P (log.entries n) := by
  rw [readBlock, BlockDatabase.read, h.blockId]
  cases hb : (log.entries n).block with
  | none =>
    rw [readData, if_pos (h.removed n hb)]
    show (if P.blockId K.emptyBlock = _ then _ else _) = _
    rw [if_neg (hempty n hb)]
    rfl
  | some b =>
    rw [h.readData_eq hfits hb]
    show ((K.unpackData (K.pack b)).bind _) = _
    rw [unpackData_pack]
    simp [Option.filter]

theorem contains_eq (h : Represents K f log) (hfits : Fits K log) (id : BlockId C) :
    f.contains id = log.contains id := by
  rw [contains, BlockDatabase.contains, h.length]
  split_ifs
  · rfl
  · rfl
  · have hzero := h.blockSize_eq_zero_iff hfits id.num
    simp only [h.blockId]
    congr 1
    rw [Bool.eq_iff_iff, decide_eq_true_iff, Option.isSome_iff_ne_none]
    exact UInt32.pos_iff_ne_zero.trans (not_congr hzero)

/-- The id of a number is fetched from the entry, whatever the sizes. -/
theorem fetchBlockId_eq (h : Represents K f log) (n : ℕ) :
    (f.fetchBlockId n).toOption = log.fetchBlockId n := by
  rw [fetchBlockId, BlockDatabase.fetchBlockId, h.length]
  simp only [h.blockId]
  split_ifs <;> rfl

theorem fetchOptional_eq (h : Represents K f log) (hfits : Fits K log)
    (hempty : NoEmptyBlock P K log) (id : BlockId C) :
    f.fetchOptional P K id = log.fetchOptional P id := by
  rw [fetchOptional, BlockDatabase.fetchOptional, h.length]
  simp only [h.blockId, h.readBlock_eq hfits hempty]

theorem fetchByNumber_eq (h : Represents K f log) (hfits : Fits K log)
    (hempty : NoEmptyBlock P K log) (n : ℕ) :
    f.fetchByNumber P K n = log.fetchByNumber P n := by
  rw [fetchByNumber, BlockDatabase.fetchByNumber, h.length, h.readBlock_eq hfits hempty]

/-- Past the end of the index no block is. -/
theorem lt_of_block (h : Represents K f log) (hfits : Fits K log) {n : ℕ} {b : SignedBlock C}
    (hb : (log.entries n).block = some b) : n < f.index.length := by
  by_contra hle
  have hrecord : f.record n = IndexRecord.zero C := List.getD_eq_default _ _ (Nat.not_lt.1 hle)
  have hnone := (h.blockSize_eq_zero_iff hfits n).1 (by rw [hrecord]; rfl)
  rw [hnone] at hb
  cases hb

/-- **The search** of `last` and `last_id` finds the record of the last block. -/
theorem lastRecord_of_isGreatest (h : Represents K f log) (hfits : Fits K log) {n : ℕ}
    (hn : IsGreatest {m | (log.entries m).block.isSome} n) :
    f.lastRecord = some (f.record n) ∧ log.lastEntry log.size = some (log.entries n) := by
  obtain ⟨b, hb⟩ := Option.isSome_iff_exists.1 hn.1
  have hlt := h.lt_of_block hfits hb
  have hlive : ∀ m, (f.record m).isEmpty = false ↔ (log.entries m).block.isSome := fun m ↦ by
    rw [IndexRecord.isEmpty, decide_eq_false_iff_not, h.blockSize_eq_zero_iff hfits m,
      ← ne_eq, Option.isSome_iff_ne_none]
  constructor
  · have hsearch : searchBack IndexRecord.isEmpty (IndexRecord.zero C) f.index
        (f.record (f.index.length - 1)) f.index.length = f.record n := by
      refine searchBack_last rfl ⟨(hlive n).2 hn.1, fun m hm ↦ hn.2 ((hlive m).1 hm)⟩
    rw [lastRecord, if_neg (by omega)]
    simp only [hsearch, (hlive n).2 hn.1]
    rfl
  · refine BlockDatabase.lastEntry_eq (h.length ▸ hlt) hn.1 fun m hm _ ↦ ?_
    by_contra hsome
    exact absurd (hn.2 (Option.isSome_iff_ne_none.2 hsome)) (Nat.not_le.2 hm)

theorem lastRecord_of_forall_none (h : Represents K f log)
    (hnone : ∀ n, (log.entries n).block = none) :
    f.lastRecord = none ∧ log.lastEntry log.size = none := by
  have hdead : ∀ m, (f.record m).isEmpty = true := fun m ↦
    decide_eq_true (h.removed m (hnone m))
  refine ⟨?_, BlockDatabase.lastEntry_eq_none fun m _ ↦ hnone m⟩
  have hsearch : (searchBack IndexRecord.isEmpty (IndexRecord.zero C) f.index
      (f.record (f.index.length - 1)) f.index.length).isEmpty = true :=
    searchBack_dead (hdead _) fun m _ ↦ hdead m
  rw [lastRecord]
  split_ifs
  · rfl
  · simp only [hsearch, if_true]

/-- Either there is a last block or none at all. -/
theorem exists_isGreatest (h : Represents K f log) (hfits : Fits K log) :
    (∃ n, IsGreatest {m | (log.entries m).block.isSome} n) ∨
      ∀ n, (log.entries n).block = none := by
  rcases Set.eq_empty_or_nonempty {m | (log.entries m).block.isSome} with hempty | hne
  · refine .inr fun n ↦ Option.not_isSome_iff_eq_none.1 fun hn ↦ ?_
    exact Set.eq_empty_iff_forall_notMem.1 hempty n hn
  · refine .inl (BddAbove.exists_isGreatest_of_nonempty ⟨f.index.length, fun m hm ↦ ?_⟩ hne)
    obtain ⟨b, hb⟩ := Option.isSome_iff_exists.1 hm
    exact (h.lt_of_block hfits hb).le

theorem last_eq (h : Represents K f log) (hfits : Fits K log) : f.last K = log.last := by
  rcases h.exists_isGreatest hfits with ⟨n, hn⟩ | hnone
  · obtain ⟨hrecord, hentry⟩ := h.lastRecord_of_isGreatest hfits hn
    obtain ⟨b, hb⟩ := Option.isSome_iff_exists.1 hn.1
    rw [last, hrecord, BlockDatabase.last, hentry, Option.bind_some, hb]
    show (f.readData (f.record n)).bind K.unpackData = some b
    rw [h.readData_eq hfits hb]
    exact unpackData_pack b
  · obtain ⟨hrecord, hentry⟩ := h.lastRecord_of_forall_none hnone
    rw [last, hrecord, BlockDatabase.last, hentry]
    rfl

theorem lastId_eq (h : Represents K f log) (hfits : Fits K log) : f.lastId = log.lastId := by
  rcases h.exists_isGreatest hfits with ⟨n, hn⟩ | hnone
  · obtain ⟨hrecord, hentry⟩ := h.lastRecord_of_isGreatest hfits hn
    rw [lastId, hrecord, BlockDatabase.lastId, hentry]
    exact congrArg some (h.blockId n)
  · obtain ⟨hrecord, hentry⟩ := h.lastRecord_of_forall_none hnone
    rw [lastId, hrecord, BlockDatabase.lastId, hentry]
    rfl

end Represents

end BlockFiles

end Graphene
