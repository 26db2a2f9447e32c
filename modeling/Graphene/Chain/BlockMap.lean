import Graphene.Chain.BlockFiles
import Graphene.Chain.Testnet
import Mathlib.Data.Finmap
import Mathlib.Data.Finset.Max
import Mathlib.Logic.Equiv.List
import Mathlib.Tactic.DeriveEncodable

/-!
# The block log as a map

What the block log is for: a finite map from block numbers to blocks and their ids, which storing a
block updates and removing one erases from.

* `BlockMap`, `BlockOp.onMap` — the map and what the operations do to it.
* `Answers` — the files answer every query as the map does.
* `answers_iff` — when they do, after any sequence of operations.

`remove` sets the size in the index to zero and leaves the id, and `fetch_block_id` does not look at
the size: the id of a block that was removed is still found, until another block is stored at its
height.
-/

set_option autoImplicit false

namespace Graphene

variable {C : ChainTypes}

/-- A call that changes a block database. -/
inductive BlockOp (C : ChainTypes) where
  /-- `store(b.id(), b)`. -/
  | store (b : SignedBlock C)
  /-- `remove(id)`. -/
  | remove (id : BlockId C)

/-- A map from block numbers to ids and blocks. -/
abbrev BlockMap (C : ChainTypes) := Finmap fun _ : ℕ ↦ BlockId C × SignedBlock C

namespace BlockMap

variable (m : BlockMap C)

/-- What the map has at its greatest height. -/
def greatest : Option (BlockId C × SignedBlock C) :=
  if h : m.keys.Nonempty then m.lookup (m.keys.max' h) else none

variable {m}

theorem greatest_of_isGreatest {n : ℕ} (h : IsGreatest {k | k ∈ m} n) :
    m.greatest = m.lookup n := by
  have hne : m.keys.Nonempty := ⟨n, Finmap.mem_keys.2 h.1⟩
  rw [greatest, dif_pos hne]
  congr 1
  exact le_antisymm (h.2 (Finmap.mem_keys.1 (m.keys.max'_mem hne)))
    (m.keys.le_max' n (Finmap.mem_keys.2 h.1))

theorem greatest_of_forall_notMem (h : ∀ n, n ∉ m) : m.greatest = none := by
  rw [greatest, dif_neg]
  rintro ⟨n, hn⟩
  exact h n (Finmap.mem_keys.1 hn)

end BlockMap

/-! ## The operations -/

section

variable (P : Protocol C) (K : BlockCodec C)

/-- The operation, on the map. -/
def BlockOp.onMap (m : BlockMap C) : BlockOp C → BlockMap C
  | .store b => m.insert b.blockNum (P.blockId b, b)
  | .remove id => if (m.lookup id.num).any (·.1 = id) then m.erase id.num else m

/-- The operation, on the log; one that throws changes nothing. -/
def BlockOp.onLog (log : BlockDatabase C) : BlockOp C → BlockDatabase C
  | .store b => log.store P (P.blockId b) b
  | .remove id => (log.remove id).getD log

/-- The operation, on the files; one that throws changes nothing. -/
def BlockOp.onFiles (f : BlockFiles C) : BlockOp C → BlockFiles C
  | .store b => f.store P K (P.blockId b) b
  | .remove id => (f.remove id).toOption.getD f

/-- The map after some operations. -/
def mapAfter (ops : List (BlockOp C)) : BlockMap C := ops.foldl (BlockOp.onMap P) ∅

/-- The log after some operations. -/
def logAfter (ops : List (BlockOp C)) : BlockDatabase C := ops.foldl (BlockOp.onLog P) {}

/-- The files after some operations. -/
def filesAfter (ops : List (BlockOp C)) : BlockFiles C := ops.foldl (BlockOp.onFiles P K) {}

end

variable {P : Protocol C} {K : BlockCodec C}

theorem blockId_ne_zero (b : SignedBlock C) : P.blockId b ≠ BlockId.zero C := fun h ↦
  Nat.succ_ne_zero _ (congrArg BlockId.num h)

/-! ## The files and the log -/

open BlockFiles

theorem BlockFiles.Represents.onFiles {f : BlockFiles C} {log : BlockDatabase C}
    (h : Represents K f log) (op : BlockOp C) :
    Represents K (op.onFiles P K f) (op.onLog P log) := by
  cases op with
  | store b => exact h.store (P.blockId b) b
  | remove id =>
    have hremove := h.remove id
    show Represents K ((f.remove id).toOption.getD f) ((log.remove id).getD log)
    revert hremove
    rcases f.remove id with err | f' <;> rcases log.remove id with _ | log'
    · exact fun _ ↦ h
    · exact False.elim
    · exact False.elim
    · exact fun hremove ↦ hremove

/-- **The files** are those of the log, after any sequence of operations. -/
theorem represents_filesAfter (ops : List (BlockOp C)) :
    BlockFiles.Represents K (filesAfter P K ops) (logAfter P ops) := by
  induction ops using List.reverseRecOn with
  | nil => exact represents_new
  | append_singleton ops op ih =>
    rw [filesAfter, logAfter, List.foldl_concat, List.foldl_concat]
    exact ih.onFiles op

/-! ## The log and the map -/

/-- The log is that of a map. -/
structure LogOf (P : Protocol C) (ops : List (BlockOp C)) (m : BlockMap C) (log : BlockDatabase C) :
    Prop where
  /-- The entries have the blocks of the map. -/
  block : ∀ n, (log.entries n).block = (m.lookup n).map Prod.snd
  /-- The ids of the map are those of its blocks, and of the entries. -/
  lookup : ∀ n e, m.lookup n = some e →
    e.1 = P.blockId e.2 ∧ e.2.blockNum = n ∧ (log.entries n).blockId = e.1 ∧ n < log.size
  /-- Where a block was stored, there is an entry, and it has the id of a block. -/
  stored : ∀ b, .store b ∈ ops →
    b.blockNum < log.size ∧ ∃ b', (log.entries b.blockNum).blockId = P.blockId b'
  /-- Where none was, the entry has no id. -/
  never : ∀ n, (∀ b, .store b ∈ ops → b.blockNum ≠ n) →
    (log.entries n).blockId = BlockId.zero C

theorem logOf_new : LogOf P [] ∅ {} where
  block _ := rfl
  lookup _ _ h := nomatch h
  stored _ h := absurd h List.not_mem_nil
  never _ _ := rfl

theorem LogOf.store {ops : List (BlockOp C)} {m : BlockMap C} {log : BlockDatabase C}
    (h : LogOf P ops m log) (b : SignedBlock C) :
    LogOf P (ops ++ [.store b]) ((BlockOp.store b).onMap P m) ((BlockOp.store b).onLog P log) := by
  have hentries : ∀ n, (((BlockOp.store b).onLog P log).entries n) =
      if n = b.blockNum then ⟨some b, P.blockId b⟩ else log.entries n := fun n ↦ by
    simp only [BlockOp.onLog, BlockDatabase.store, if_neg (blockId_ne_zero b)]
    exact Function.update_apply _ _ _ _
  have hlookup : ∀ n, ((BlockOp.store b).onMap P m).lookup n =
      if n = b.blockNum then some (P.blockId b, b) else m.lookup n := fun n ↦ by
    split_ifs with hn
    · rw [hn]
      exact Finmap.lookup_insert m
    · exact Finmap.lookup_insert_of_ne m hn
  have hsize : ((BlockOp.store b).onLog P log).size = max log.size (b.blockNum + 1) := by
    simp only [BlockOp.onLog, BlockDatabase.store, if_neg (blockId_ne_zero b)]
    rfl
  constructor
  · intro n
    rw [hentries, hlookup]
    split_ifs
    · rfl
    · exact h.block n
  · intro n e he
    rw [hlookup] at he
    rw [hentries, hsize]
    split_ifs at he with hn
    · obtain rfl := Option.some_inj.1 he
      rw [if_pos hn]
      exact ⟨rfl, hn.symm, rfl, by omega⟩
    · rw [if_neg hn]
      obtain ⟨hid, hnum, hentry, hlt⟩ := h.lookup n e he
      exact ⟨hid, hnum, hentry, by omega⟩
  · intro b' hb'
    rw [hentries, hsize]
    split_ifs with hnum
    · exact ⟨by omega, b, rfl⟩
    · rcases List.mem_append.1 hb' with hold | hnew
      · obtain ⟨hlt, hid⟩ := h.stored b' hold
        exact ⟨by omega, hid⟩
      · obtain rfl := BlockOp.store.inj (List.mem_singleton.1 hnew)
        exact absurd rfl hnum
  · intro n hn
    rw [hentries, if_neg (Ne.symm (hn b (List.mem_append_right _ (List.mem_singleton_self _))))]
    exact h.never n fun b' hb' ↦ hn b' (List.mem_append_left _ hb')

theorem size_onLog_remove (log : BlockDatabase C) (id : BlockId C) :
    ((BlockOp.remove id).onLog P log).size = log.size := by
  simp only [BlockOp.onLog, BlockDatabase.remove]
  split_ifs <;> rfl

theorem blockId_onLog_remove (log : BlockDatabase C) (id : BlockId C) (n : ℕ) :
    (((BlockOp.remove id).onLog P log).entries n).blockId = (log.entries n).blockId := by
  simp only [BlockOp.onLog, BlockDatabase.remove]
  split_ifs with hlen hid
  · rfl
  · simp only [Option.getD_some, Function.update_apply]
    split_ifs with hn
    · rw [hn, hid]
    · rfl
  · rfl

/-- Removing takes the block out of the entry that has the id. -/
theorem block_onLog_remove (log : BlockDatabase C) (id : BlockId C)
    (hlen : ∀ n, log.size ≤ n → (log.entries n).block = none) (n : ℕ) :
    (((BlockOp.remove id).onLog P log).entries n).block =
      if n = id.num ∧ (log.entries n).blockId = id then none else (log.entries n).block := by
  simp only [BlockOp.onLog, BlockDatabase.remove]
  split_ifs with hsize hboth hid hboth hboth
  · exact hlen n (hboth.1 ▸ hsize)
  · rfl
  · simp [hboth.1]
  · have hn : n ≠ id.num := fun hn ↦ hboth ⟨hn, hn ▸ hid⟩
    simp [hn]
  · exact absurd (hboth.1 ▸ hboth.2) hid
  · rfl

theorem LogOf.lookup_onMap_remove {ops : List (BlockOp C)} {m : BlockMap C}
    {log : BlockDatabase C} (h : LogOf P ops m log) (id : BlockId C) (n : ℕ) :
    ((BlockOp.remove id).onMap P m).lookup n =
      if n = id.num ∧ (log.entries n).blockId = id then none else m.lookup n := by
  have hany : (m.lookup id.num).any (·.1 = id) = true →
      (log.entries id.num).blockId = id := fun hany ↦ by
    cases he : m.lookup id.num with
    | none => simp [he] at hany
    | some e =>
      rw [he, Option.any_some, decide_eq_true_iff] at hany
      rw [(h.lookup _ e he).2.2.1, hany]
  have hnone : ¬(m.lookup id.num).any (·.1 = id) = true →
      (log.entries id.num).blockId = id → m.lookup id.num = none := fun hany hid ↦ by
    rw [Option.eq_none_iff_forall_ne_some]
    intro e he
    refine hany ?_
    rw [he, Option.any_some, decide_eq_true_iff, ← (h.lookup _ e he).2.2.1]
    exact hid
  simp only [BlockOp.onMap]
  split_ifs with hany' hboth hboth
  · rw [hboth.1]
    exact Finmap.lookup_erase _ _
  · exact Finmap.lookup_erase_ne fun hn ↦ hboth ⟨hn, hn ▸ hany hany'⟩
  · rw [hboth.1]
    exact hnone hany' (hboth.1 ▸ hboth.2)
  · rfl

theorem LogOf.remove {ops : List (BlockOp C)} {m : BlockMap C} {log : BlockDatabase C}
    (h : LogOf P ops m log) (id : BlockId C) :
    LogOf P (ops ++ [.remove id]) ((BlockOp.remove id).onMap P m)
      ((BlockOp.remove id).onLog P log) := by
  have hmem : ∀ b, BlockOp.store b ∈ ops ++ [.remove id] → .store b ∈ ops := fun b hb ↦ by
    simpa using hb
  constructor
  · intro n
    rw [block_onLog_remove, h.lookup_onMap_remove]
    · split_ifs
      · rfl
      · exact h.block n
    · intro n hn
      rw [h.block n, Option.map_eq_none_iff, Option.eq_none_iff_forall_ne_some]
      intro e he
      exact absurd (h.lookup n e he).2.2.2 (Nat.not_lt.2 hn)
  · intro n e he
    rw [h.lookup_onMap_remove] at he
    split_ifs at he
    rw [blockId_onLog_remove, size_onLog_remove]
    exact h.lookup n e he
  · intro b hb
    rw [blockId_onLog_remove, size_onLog_remove]
    exact h.stored b (hmem b hb)
  · intro n hn
    rw [blockId_onLog_remove]
    exact h.never n fun b hb ↦ hn b (List.mem_append_left _ hb)

/-- **The log** is that of the map, after any sequence of operations. -/
theorem logOf_logAfter (ops : List (BlockOp C)) :
    LogOf P ops (mapAfter P ops) (logAfter P ops) := by
  induction ops using List.reverseRecOn with
  | nil => exact logOf_new
  | append_singleton ops op ih =>
    rw [mapAfter, logAfter, List.foldl_concat, List.foldl_concat]
    cases op with
    | store b => exact ih.store b
    | remove id => exact ih.remove id

/-! ## What the log answers -/

/-- Every height at which a block was stored has one. -/
def AllLive (P : Protocol C) (ops : List (BlockOp C)) : Prop :=
  ∀ b, BlockOp.store b ∈ ops → b.blockNum ∈ mapAfter P ops

/-- The bytes of every block of the map can be counted in 32 bits. -/
def BlockMap.Fits (K : BlockCodec C) (m : BlockMap C) : Prop :=
  ∀ n e, m.lookup n = some e → (K.pack e.2).length < 2 ^ 32

namespace LogOf

variable {ops : List (BlockOp C)} {m : BlockMap C} {log : BlockDatabase C}

theorem fits (h : LogOf P ops m log) (hfits : m.Fits K) : Fits K log := by
  intro n b hb
  rw [h.block n] at hb
  obtain ⟨e, he, rfl⟩ := Option.map_eq_some_iff.1 hb
  exact hfits n e he

theorem block_eq_none_iff (h : LogOf P ops m log) (n : ℕ) :
    (log.entries n).block = none ↔ n ∉ m := by
  rw [h.block n, Option.map_eq_none_iff, Finmap.lookup_eq_none]

theorem blockId_of_notMem (h : LogOf P ops m log) (hlive : ∀ b, .store b ∈ ops → b.blockNum ∈ m)
    {n : ℕ} (hn : n ∉ m) : (log.entries n).blockId = BlockId.zero C :=
  h.never n fun b hb hnum ↦ hn (hnum ▸ hlive b hb)

theorem noEmptyBlock (h : LogOf P ops m log) (hlive : ∀ b, .store b ∈ ops → b.blockNum ∈ m) :
    NoEmptyBlock P K log := by
  intro n hn
  rw [h.blockId_of_notMem hlive ((h.block_eq_none_iff n).1 hn)]
  exact blockId_ne_zero _

theorem contains_iff (h : LogOf P ops m log) (id : BlockId C) :
    log.contains id = true ↔ ∃ b, m.lookup id.num = some (id, b) := by
  rw [BlockDatabase.contains]
  cases he : m.lookup id.num with
  | none =>
    rw [(h.block_eq_none_iff id.num).2 (Finmap.lookup_eq_none.1 he)]
    split_ifs <;> simp
  | some e =>
    obtain ⟨hid, -, hentry, hlt⟩ := h.lookup _ e he
    have hblock : (log.entries id.num).block = some e.2 := by rw [h.block, he, Option.map_some]
    rw [hblock, hentry, if_neg (Nat.not_le.2 hlt)]
    split_ifs with hzero
    · refine iff_of_false not_false ?_
      rintro ⟨b, hb⟩
      obtain rfl := Option.some_inj.1 hb
      exact blockId_ne_zero b (hid.symm.trans hzero)
    · simp only [Option.isSome_some, Bool.and_true, decide_eq_true_iff, Option.some.injEq]
      refine ⟨fun hfst ↦ ⟨e.2, Prod.ext hfst rfl⟩, ?_⟩
      rintro ⟨b, rfl⟩
      rfl

/-- Where every height has its block, the id fetched is that of the map. -/
theorem fetchBlockId_eq (h : LogOf P ops m log) (hlive : ∀ b, .store b ∈ ops → b.blockNum ∈ m)
    (n : ℕ) : log.fetchBlockId n = (m.lookup n).map Prod.fst := by
  rw [BlockDatabase.fetchBlockId]
  cases he : m.lookup n with
  | none =>
    rw [h.blockId_of_notMem hlive (Finmap.lookup_eq_none.1 he), if_pos rfl]
    exact ite_self _
  | some e =>
    obtain ⟨hid, -, hentry, hlt⟩ := h.lookup n e he
    rw [if_neg (Nat.not_le.2 hlt), hentry, hid, if_neg (blockId_ne_zero _), Option.map_some, hid]

theorem read_eq (h : LogOf P ops m log) (n : ℕ) :
    BlockDatabase.read P (log.entries n) = (m.lookup n).map Prod.snd := by
  rw [BlockDatabase.read, h.block n]
  cases he : m.lookup n with
  | none => rfl
  | some e =>
    obtain ⟨hid, -, hentry, -⟩ := h.lookup n e he
    simp [Option.filter, hentry, hid]

theorem read_of_le (h : LogOf P ops m log) {n : ℕ} (hn : log.size ≤ n) : m.lookup n = none := by
  rw [Option.eq_none_iff_forall_ne_some]
  intro e he
  exact absurd (h.lookup n e he).2.2.2 (Nat.not_lt.2 hn)

theorem fetchByNumber_eq (h : LogOf P ops m log) (n : ℕ) :
    log.fetchByNumber P n = (m.lookup n).map Prod.snd := by
  rw [BlockDatabase.fetchByNumber, h.read_eq]
  split_ifs with hn
  · rw [h.read_of_le hn, Option.map_none]
  · rfl

theorem fetchOptional_eq (h : LogOf P ops m log) (id : BlockId C) :
    log.fetchOptional P id = ((m.lookup id.num).filter (·.1 = id)).map Prod.snd := by
  rw [BlockDatabase.fetchOptional, h.read_eq]
  cases he : m.lookup id.num with
  | none => simp
  | some e =>
    obtain ⟨-, -, hentry, hlt⟩ := h.lookup _ e he
    rw [if_neg (Nat.not_le.2 hlt), hentry]
    by_cases hid : e.1 = id
    · simp [Option.filter, hid]
    · simp [Option.filter, hid]

theorem isSome_block_iff (h : LogOf P ops m log) (n : ℕ) :
    (log.entries n).block.isSome ↔ n ∈ m := by
  rw [Option.isSome_iff_ne_none, ne_eq, h.block_eq_none_iff, not_not]

/-- The last entry that has a block is that of the greatest height of the map. -/
theorem last_eq (h : LogOf P ops m log) :
    log.last = m.greatest.map Prod.snd ∧ log.lastId = m.greatest.map Prod.fst := by
  rw [BlockDatabase.last, BlockDatabase.lastId]
  rcases Finset.eq_empty_or_nonempty m.keys with hempty | hne
  · have hnot : ∀ n, n ∉ m := fun n hn ↦ by
      rw [← Finmap.mem_keys, hempty] at hn
      cases hn
    rw [BlockMap.greatest_of_forall_notMem hnot,
      BlockDatabase.lastEntry_eq_none fun n _ ↦ (h.block_eq_none_iff n).2 (hnot n)]
    exact ⟨rfl, rfl⟩
  · have hgreatest : IsGreatest {k | k ∈ m} (m.keys.max' hne) :=
      ⟨Finmap.mem_keys.1 (m.keys.max'_mem hne), fun k hk ↦ m.keys.le_max' k (Finmap.mem_keys.2 hk)⟩
    obtain ⟨e, he⟩ := Finmap.mem_iff.1 hgreatest.1
    obtain ⟨-, -, hentry, hlt⟩ := h.lookup _ e he
    rw [BlockMap.greatest_of_isGreatest hgreatest, he,
      BlockDatabase.lastEntry_eq hlt ((h.isSome_block_iff _).2 hgreatest.1) fun j hj _ ↦
        (h.block_eq_none_iff j).2 fun hmem ↦ absurd (hgreatest.2 hmem) (Nat.not_le.2 hj)]
    rw [Option.bind_some, h.block, he]
    exact ⟨rfl, congrArg some hentry⟩

end LogOf

/-! ## What the files answer -/

/-- The files answer every query as the map does. -/
structure Answers (P : Protocol C) (K : BlockCodec C) (f : BlockFiles C) (m : BlockMap C) :
    Prop where
  /-- `contains`. -/
  contains : ∀ id, f.contains id = true ↔ ∃ b, m.lookup id.num = some (id, b)
  /-- `fetch_block_id`, which throws where the map has nothing. -/
  fetchBlockId : ∀ n, (f.fetchBlockId n).toOption = (m.lookup n).map Prod.fst
  /-- `fetch_optional`. -/
  fetchOptional : ∀ id,
    f.fetchOptional P K id = ((m.lookup id.num).filter (·.1 = id)).map Prod.snd
  /-- `fetch_by_number`. -/
  fetchByNumber : ∀ n, f.fetchByNumber P K n = (m.lookup n).map Prod.snd
  /-- `last`. -/
  last : f.last K = m.greatest.map Prod.snd
  /-- `last_id`. -/
  lastId : f.lastId = m.greatest.map Prod.fst

variable {f : BlockFiles C} {log : BlockDatabase C}

/-- A block that is found has its bytes counted in 32 bits: less of them are not unpacked. -/
theorem BlockFiles.Represents.fits_of_found (h : Represents K f log) {n : ℕ} {b : SignedBlock C}
    (hb : (log.entries n).block = some b) (hsize : (f.record n).blockSize ≠ 0)
    (hread : (f.readBlock P K (f.record n)).isSome) : (K.pack b).length < 2 ^ 32 := by
  by_contra hlen
  have hnat : (f.record n).blockSize.toNat < (K.pack b).length :=
    ((f.record n).blockSize.toNat_lt).trans_le (Nat.not_lt.1 hlen)
  have hpos : 0 < (f.record n).blockSize.toNat :=
    Nat.pos_of_ne_zero fun hzero ↦ hsize (UInt32.toNat_inj.1 hzero)
  have hdata : (f.blocks.drop (f.record n).blockPos).take (f.record n).blockSize.toNat =
      (K.pack b).take (f.record n).blockSize.toNat := by
    obtain ⟨rest, hrest⟩ := h.bytes n b hb
    rw [← hrest, List.take_append_of_le_length hnat.le]
  have hne : (K.pack b).take (f.record n).blockSize.toNat ≠ [] := by
    rw [ne_eq, List.take_eq_nil_iff]
    rintro (hzero | hnil)
    · omega
    · exact K.pack_ne_nil b hnil
  rw [readBlock, readData, if_neg hsize, hdata] at hread
  split_ifs at hread
  · rw [Option.bind_eq_bind, Option.bind_some, BlockCodec.unpackData, if_neg hne,
      K.unpack_take b _ hnat] at hread
    cases hread
  · cases hread

/-- **The block log is a map** from block numbers to blocks and their ids: after any sequence of
operations the files answer as the map does if and only if no height is left without the block that
was stored there, and the size of every block has room in 32 bits. -/
theorem answers_iff (P : Protocol C) (K : BlockCodec C) (ops : List (BlockOp C)) :
    Answers P K (filesAfter P K ops) (mapAfter P ops) ↔
      AllLive P ops ∧ (mapAfter P ops).Fits K := by
  have hfiles := represents_filesAfter (P := P) (K := K) ops
  have hlog := logOf_logAfter (P := P) ops
  constructor
  · refine fun hanswers ↦ ⟨fun b hb ↦ ?_, fun n e he ↦ ?_⟩
    · by_contra hn
      obtain ⟨hlt, b', hid⟩ := hlog.stored b hb
      have hfetch := hfiles.fetchBlockId_eq b.blockNum
      rw [hanswers.fetchBlockId, Finmap.lookup_eq_none.2 hn, BlockDatabase.fetchBlockId,
        if_neg (Nat.not_le.2 hlt), hid, if_neg (blockId_ne_zero b')] at hfetch
      cases hfetch
    · obtain ⟨hid, hnum, hentry, hlt⟩ := hlog.lookup n e he
      have hblock : ((logAfter P ops).entries n).block = some e.2 := by
        rw [hlog.block, he, Option.map_some]
      have hcontains := (hanswers.contains e.1).2 ⟨e.2, by
        rw [hid, show (P.blockId e.2).num = n from hnum, he, ← hid]⟩
      have hfound := hanswers.fetchByNumber n
      rw [he, Option.map_some, fetchByNumber, if_neg (Nat.not_le.2 (hfiles.length ▸ hlt))] at hfound
      refine hfiles.fits_of_found hblock ?_ (Option.isSome_iff_exists.2 ⟨_, hfound⟩)
      rw [contains] at hcontains
      split_ifs at hcontains
      have hsize := of_decide_eq_true (Bool.and_eq_true_iff.1 hcontains).2
      rw [hid, show (P.blockId e.2).num = n from hnum] at hsize
      exact UInt32.pos_iff_ne_zero.1 hsize
  · rintro ⟨hlive, hmap⟩
    have hfits := hlog.fits hmap
    have hempty : NoEmptyBlock P K (logAfter P ops) := hlog.noEmptyBlock hlive
    exact {
      contains := fun id ↦ (hfiles.contains_eq hfits id) ▸ hlog.contains_iff id
      fetchBlockId := fun n ↦ (hfiles.fetchBlockId_eq n).trans (hlog.fetchBlockId_eq hlive n)
      fetchOptional := fun id ↦
        (hfiles.fetchOptional_eq hfits hempty id).trans (hlog.fetchOptional_eq id)
      fetchByNumber := fun n ↦
        (hfiles.fetchByNumber_eq hfits hempty n).trans (hlog.fetchByNumber_eq n)
      last := (hfiles.last_eq hfits).trans hlog.last_eq.1
      lastId := (hfiles.lastId_eq hfits).trans hlog.last_eq.2 }

namespace Testnet

deriving instance Encodable for Tx, Digest

/-- The parts of a block, in order. -/
def blockParts (b : SignedBlock types) : (ℕ × Digest) × Digest × ℕ × List Tx :=
  ((b.previous.num, b.previous.digest), b.header.transactionMerkleRoot, b.header.content,
    b.transactions)

instance : Encodable (SignedBlock types) :=
  Encodable.ofLeftInverse blockParts (fun p ↦ ⟨⟨⟨p.1.1, p.1.2⟩, p.2.1, p.2.2.1⟩, p.2.2.2⟩)
    fun _ ↦ rfl

/-- The packing of the blocks of the small chain. -/
def blockCodec : BlockCodec types where
  toCodec := .ofEncodable _
  pack_ne_nil _ := Codec.packNat_ne_nil _
  unpack_take _ _ := Codec.canonical_ofEncodable.unpack_take
  emptyBlock := ⟨⟨BlockId.zero types, .zero, 0⟩, []⟩

/-- The id of a block is found after it was removed. -/
theorem removed_block_id_found :
    ¬Answers protocol blockCodec
      (filesAfter protocol blockCodec [.store a1, .remove (protocol.blockId a1)])
      (mapAfter protocol [.store a1, .remove (protocol.blockId a1)]) := by
  intro h
  have hfetch := h.fetchBlockId 1
  have hfiles : ((filesAfter protocol blockCodec
      [.store a1, .remove (protocol.blockId a1)]).fetchBlockId 1).toOption =
        some (protocol.blockId a1) := rfl
  have hmap : (mapAfter protocol [.store a1, .remove (protocol.blockId a1)]).lookup 1 = none := rfl
  rw [hfiles, hmap] at hfetch
  cases hfetch

end Testnet

end Graphene
