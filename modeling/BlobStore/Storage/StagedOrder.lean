import BlobStore.Core.Timestamps
import BlobStore.Storage.Concurrent.Writers

/-!
# The order of staged blocks

Blocks of a blob that are staged but not committed are listed in the order of the texts of the times
at which they were staged. Calls that stage blocks one after another leave one row for the last
block of each id. The rows are listed as they were staged unless the time of one of them is the time
of a later one, rounded down.
-/

namespace BlobStore

open Codec FileTree Resumption Proc

/-- The row a call records for the bytes of a block. -/
def stagedRow (B : FsBackend) (amb : Ambient) (b : StagedBlockKey) (bytes : Bytes) :
    StagedBlockRecord where
  blockSize   := bytes.length
  md5         := Shelf.digest B bytes
  storagePath := (B.stagedBlockPath b.blob.account b.blob.container b.blob.blob b.blockId).2
  stagedAt    := amb.nowIso

/-- A call of `put_block`, with the time at which it records the block. -/
structure PutBlock where
  amb : Ambient
  time : Instant
  key : StagedBlockKey
  body : ByteStream

namespace PutBlock

variable (B : FsBackend) (k : BlobKey)

/-- The surroundings of the call, in which the clock shows its time. -/
def ambient (p : PutBlock) : Ambient := { p.amb with nowIso := nowIso p.time }

def call (p : PutBlock) : Store String :=
  B.putBlock p.ambient p.key.blob.account p.key.blob.container p.key.blob.blob p.key.blockId p.body

/-- The bytes of the block, if the body comes without an error. -/
def bytes (p : PutBlock) : Bytes := p.body.collect.toOption.getD []

def row (p : PutBlock) : StagedBlockRecord := stagedRow B p.ambient p.key p.bytes

/-- The block in a listing. -/
def entry (p : PutBlock) : CommittedBlock := ⟨p.key.blockId, p.bytes.length⟩

/-- Calls one after another: those that succeed, and the state they lead to. -/
def serve : List PutBlock → World → List PutBlock × World
  | [], w      => ([], w)
  | p :: ps, w =>
    let res := (p.call B).run w
    let rest := serve ps res.2
    (if res.1.isOk then p :: rest.1 else rest.1, rest.2)

/-- Of the calls that staged blocks, the last one for each block of a blob. -/
def last : List PutBlock → List PutBlock
  | []      => []
  | p :: ps => if p.key.blob = k ∧ ∀ q ∈ ps, q.key ≠ p.key then p :: last ps else last ps

end PutBlock

/-! ### One call -/

namespace FsIo

variable {md5 : Bytes → Bytes} {amb : Ambient} {w w' : World}

/-- All bytes of a body that is read to its end are counted and hashed. -/
lemma collect_of_writeChunks {tmp : Path} {body : ByteStream} {total : ℕ} {hashed : Bytes}
    {res : ℕ × Bytes} (h : run Action.exec (writeChunks tmp body total hashed) w = (.ok res, w')) :
    ∃ bytes, body.collect = .ok bytes ∧ res = (total + bytes.length, hashed ++ bytes) := by
  induction body generalizing w total hashed with
  | nil =>
    cases h
    exact ⟨[], rfl, by simp⟩
  | cons x body ih =>
    cases x with
    | error e => cases h
    | ok chunk =>
      obtain ⟨bytes, hbytes, rfl⟩ := ih h
      refine ⟨chunk ++ bytes, ?_, by simp [Nat.add_assoc]⟩
      simp only [ByteStream.collect, hbytes]

/-- A stream that is written is told by its length and its digest. -/
lemma collect_of_writeStreamAtomic {tmpDir finalPath : String} {body : ByteStream}
    {res : ℕ × String}
    (h : run Action.exec (writeStreamAtomic md5 amb tmpDir finalPath body) w = (.ok res, w')) :
    ∃ bytes, body.collect = .ok bytes ∧ res = (bytes.length, hexEncode (md5 bytes)) := by
  -- the directories and the temporary file come first
  obtain ⟨_, w₁, -, h⟩ := run_bind_ok_inv _ h
  obtain ⟨_, w₂, -, h⟩ := run_bind_ok_inv _ h
  obtain ⟨created, w₃, -, h⟩ := run_bind_ok_inv _ h
  obtain ⟨_, w₄, -, h⟩ := run_bind_ok_inv _ h
  obtain ⟨read, w₅, hchunks, h⟩ := run_bind_ok_inv _ h
  obtain ⟨bytes, hbytes, rfl⟩ := collect_of_writeChunks hchunks
  obtain ⟨_, w₆, -, h⟩ := run_bind_ok_inv _ h
  cases h
  exact ⟨bytes, hbytes, by simp⟩

end FsIo

/-- A call that succeeds inserts its row, and no other changes the database. -/
lemma run_putBlock_cases (B : FsBackend) (amb : Ambient) (a c b id : String) (body : ByteStream)
    (w : World) :
    (((B.putBlock amb a c b id body).run w).1.isOk = false ∧
      ((B.putBlock amb a c b id body).run w).2.db = w.db) ∨
    ∃ bytes, body.collect = .ok bytes ∧ ((B.putBlock amb a c b id body).run w).1.isOk = true ∧
      ((B.putBlock amb a c b id body).run w).2.db = { w.db with
        stagedBlocks := w.db.stagedBlocks.insert ⟨⟨a, c, b⟩, id⟩
          (stagedRow B amb ⟨⟨a, c, b⟩, id⟩ bytes) } := by
  have hcontainer := run_requireContainer a c w
  unfold FsBackend.putBlock Store.run
  cases hc : Shelf.container ⟨a, c⟩ w.db with
  | error e =>
    rw [hc] at hcontainer
    rw [run_bind_error _ hcontainer]
    exact .inl ⟨rfl, rfl⟩
  | ok row =>
    rw [hc] at hcontainer
    rw [run_bind_ok _ hcontainer]
    have hfiles : Issues Action.IsFs (FsIo.writeStreamAtomic B.md5 amb (B.tmpDir a)
        (B.stagedBlockPath a c b id).1 body) :=
      (FsIo.issues_writeStreamAtomic _ _ _ _ _).mono fun _ he => he.isFs
    have hdb := run_db_of_fs hfiles w
    have hmap := run_mapErr Action.exec ioError (FsIo.writeStreamAtomic B.md5 amb (B.tmpDir a)
      (B.stagedBlockPath a c b id).1 body) w
    rcases hrun : run Action.exec (FsIo.writeStreamAtomic B.md5 amb (B.tmpDir a)
      (B.stagedBlockPath a c b id).1 body) w with ⟨e | res, w₁⟩
    · rw [hrun] at hmap hdb
      refine .inl ?_
      rw [run_bind_error _ hmap]
      exact ⟨rfl, hdb⟩
    · rw [hrun] at hmap hdb
      obtain ⟨bytes, hbytes, rfl⟩ := FsIo.collect_of_writeStreamAtomic hrun
      rw [run_bind_ok _ hmap, run_perform_bind]
      cases hfault : amb.dbFault with
      | some message => exact .inl ⟨rfl, hdb⟩
      | none => exact .inr ⟨bytes, hbytes, rfl, by rw [← hdb]; rfl⟩

namespace PutBlock

variable {B : FsBackend} {k : BlobKey} {ps : List PutBlock} {w : World}

lemma call_cases (B : FsBackend) (p : PutBlock) (w : World) :
    (((p.call B).run w).1.isOk = false ∧ ((p.call B).run w).2.db = w.db) ∨
    (((p.call B).run w).1.isOk = true ∧ ((p.call B).run w).2.db =
      { w.db with stagedBlocks := w.db.stagedBlocks.insert p.key (p.row B) }) := by
  rcases run_putBlock_cases B p.ambient p.key.blob.account p.key.blob.container p.key.blob.blob
    p.key.blockId p.body w with hfailed | ⟨bytes, hbytes, hok, hdb⟩
  · exact .inl hfailed
  · have hbody : bytes = p.bytes := by
      rw [PutBlock.bytes, hbytes]
      rfl
    subst hbody
    exact .inr ⟨hok, hdb⟩

/-! ### The last call for each block -/

lemma last_sublist (k : BlobKey) (ps : List PutBlock) : (last k ps).Sublist ps := by
  induction ps with
  | nil => exact List.Sublist.slnil
  | cons p ps ih =>
    rw [last]
    split_ifs with hp
    · exact ih.cons_cons p
    · exact ih.cons p

lemma mem_last_cons {p q : PutBlock} : q ∈ last k (p :: ps) ↔
    (q = p ∧ p.key.blob = k ∧ ∀ x ∈ ps, x.key ≠ p.key) ∨ q ∈ last k ps := by
  rw [last]
  split_ifs with hp
  · rw [List.mem_cons, and_iff_left hp]
  · simp only [hp, and_false, false_or]

lemma blob_of_mem_last {p : PutBlock} (h : p ∈ last k ps) : p.key.blob = k := by
  induction ps with
  | nil => cases h
  | cons q ps ih =>
    rcases mem_last_cons.mp h with ⟨rfl, hk, -⟩ | h
    · exact hk
    · exact ih h

/-- One call is left for each block. -/
lemma pairwise_key_last (k : BlobKey) (ps : List PutBlock) :
    (last k ps).Pairwise fun p q => p.key ≠ q.key := by
  induction ps with
  | nil => exact List.Pairwise.nil
  | cons p ps ih =>
    rw [last]
    split_ifs with hp
    · refine List.pairwise_cons.mpr ⟨fun q hq => ?_, ih⟩
      exact (hp.2 q ((last_sublist k ps).subset hq)).symm
    · exact ih

lemma serve_sublist (B : FsBackend) (ps : List PutBlock) (w : World) :
    (serve B ps w).1.Sublist ps := by
  induction ps generalizing w with
  | nil => exact List.Sublist.slnil
  | cons p ps ih =>
    simp only [serve]
    split_ifs
    · exact (ih _).cons_cons p
    · exact (ih _).cons p

/-! ### The rows -/

/-- A row is from before the calls, and none of them has replaced it, or it is from the last call
for its block. -/
lemma lookup_serve {b : StagedBlockKey} (hb : b.blob = k) (r : StagedBlockRecord) :
    (serve B ps w).2.db.stagedBlocks.lookup b = some r ↔
      (w.db.stagedBlocks.lookup b = some r ∧ ∀ q ∈ (serve B ps w).1, q.key ≠ b) ∨
      ∃ p ∈ last k (serve B ps w).1, p.key = b ∧ p.row B = r := by
  induction ps generalizing w with
  | nil => simp [serve, last]
  | cons p ps ih =>
    simp only [serve]
    rw [ih]
    rcases call_cases B p w with ⟨hfailed, hdb⟩ | ⟨hok, hdb⟩
    · rw [hfailed, hdb]
      rfl
    · rw [hok, hdb, if_pos rfl, Table.lookup_insert_eq]
      generalize (serve B ps ((p.call B).run w).2).1 = done
      simp only [mem_last_cons, List.mem_cons, forall_eq_or_imp]
      by_cases hkey : b = p.key
      · subst hkey
        simp only [if_true, Option.some.injEq, ne_eq, not_true_eq_false, false_and, and_false,
          false_or, or_and_right, exists_or, and_assoc, exists_eq_left, hb, true_and]
        rw [and_comm (a := p.row B = r)]
      · have hkey' : p.key ≠ b := fun h => hkey h.symm
        simp only [if_neg hkey, hkey', ne_eq, not_false_eq_true, true_and, or_and_right,
          exists_or, and_assoc, exists_eq_left, false_and, and_false, false_or]

/-- The rows of a blob, if there were none before. -/
lemma perm_last (B : FsBackend) (ps : List PutBlock)
    (hstart : w.db.stagedBlocks.selectWhere (fun b => b.blob = k) = []) :
    ((serve B ps w).2.db.stagedBlocks.selectWhere fun b => b.blob = k).Perm
      ((last k (serve B ps w).1).map fun p => (p.key, p.row B)) := by
  have hnodup : ((last k (serve B ps w).1).map fun p => (p.key, p.row B)).Nodup := by
    refine List.pairwise_map.mpr ((pairwise_key_last k _).imp ?_)
    intro p q hne heq
    exact hne (congrArg Prod.fst heq)
  rw [List.perm_ext_iff_of_nodup (Table.nodup_keys_selectWhere _ _).of_map hnodup]
  rintro ⟨b, r⟩
  rw [Table.mem_selectWhere, List.mem_map]
  constructor
  · rintro ⟨hb, hlookup⟩
    rcases (lookup_serve (of_decide_eq_true hb) r).mp hlookup with ⟨hold, -⟩ | ⟨p, hp, rfl, rfl⟩
    · have hmem := Table.mem_selectWhere (p := fun b => b.blob = k).mpr ⟨hb, hold⟩
      rw [hstart] at hmem
      cases hmem
    · exact ⟨p, hp, rfl⟩
  · rintro ⟨p, hp, heq⟩
    cases heq
    have hblob := blob_of_mem_last hp
    exact ⟨decide_eq_true hblob, (lookup_serve hblob _).mpr (.inr ⟨p, hp, rfl, rfl⟩)⟩

/-! ### The listing -/

/-- Blocks are listed as they were staged if their texts are in that order. -/
lemma getUncommittedBlocks_serve (hincreasing : ps.Pairwise fun p q => p.time.nanos < q.time.nanos)
    (hstart : w.db.stagedBlocks.selectWhere (fun b => b.blob = k) = []) :
    (serve B ps w).2.db.getUncommittedBlocks k = (last k (serve B ps w).1).map entry ↔
      (last k (serve B ps w).1).Pairwise fun p q => nowIso p.time ≤ nowIso q.time := by
  have hperm := perm_last B ps hstart
  have hsub : (last k (serve B ps w).1).Sublist ps :=
    (last_sublist k _).trans (serve_sublist B ps w)
  have hblob : ∀ p ∈ last k (serve B ps w).1, p.key.blob = k := fun p hp => blob_of_mem_last hp
  have hkeys : ((last k (serve B ps w).1).map PutBlock.key).Nodup :=
    List.pairwise_map.mpr (pairwise_key_last k _)
  have htimes : ((last k (serve B ps w).1).map fun p => p.time.nanos).Nodup :=
    List.pairwise_map.mpr ((hincreasing.sublist hsub).imp fun h => h.ne)
  generalize last k (serve B ps w).1 = done at *
  set rows := done.map fun p => (p.key, p.row B) with hrows
  have hsame : ∀ x ∈ rows, ∀ y ∈ rows, (⟨x.1.blockId, x.2.blockSize⟩ : CommittedBlock) =
      ⟨y.1.blockId, y.2.blockSize⟩ → x = y := by
    rw [hrows, List.forall_mem_map]
    intro p hp
    rw [List.forall_mem_map]
    intro q hq heq
    have hid : p.key.blockId = q.key.blockId := (CommittedBlock.mk.inj heq).1
    have hkey : p.key = q.key := by
      calc p.key = ⟨p.key.blob, p.key.blockId⟩ := rfl
        _ = ⟨q.key.blob, q.key.blockId⟩ := by rw [hblob p hp, hblob q hq, hid]
    rw [List.inj_on_of_nodup_map hkeys hp hq hkey]
  have hstaged : ∀ x ∈ rows, ∀ y ∈ rows, x.2.stagedAt = y.2.stagedAt → x = y := by
    rw [hrows, List.forall_mem_map]
    intro p hp
    rw [List.forall_mem_map]
    intro q hq heq
    rw [List.inj_on_of_nodup_map htimes hp hq (nanos_eq_of_nowIso heq)]
  have hiff := Table.map_insertionSort_eq_iff (g := fun x : StagedBlockKey × StagedBlockRecord =>
    x.2.stagedAt) hperm hsame hstaged
  rw [hrows, List.pairwise_map, List.map_map] at hiff
  exact hiff

/-- Of two calls, neither at the time of the other rounded down, the earlier one is listed first. -/
lemma getUncommittedBlocks_serve_iff
    (hincreasing : ps.Pairwise fun p q => p.time.nanos < q.time.nanos)
    (hstart : w.db.stagedBlocks.selectWhere (fun b => b.blob = k) = []) :
    (serve B ps w).2.db.getUncommittedBlocks k = (last k (serve B ps w).1).map entry ↔
      (last k (serve B ps w).1).Pairwise fun p q => ¬ RoundedDown p.time q.time := by
  have htimes := hincreasing.sublist ((last_sublist k _).trans (serve_sublist B ps w))
  rw [getUncommittedBlocks_serve hincreasing hstart]
  constructor
  · intro h
    exact (htimes.and h).imp fun ⟨hlt, hle⟩ => (nowIso_le_of_nanos_lt_iff hlt).mp hle
  · intro h
    exact (htimes.and h).imp fun ⟨hlt, hround⟩ => (nowIso_le_of_nanos_lt_iff hlt).mpr hround

end PutBlock

/-- The text of an earlier time comes first unless it is the later time, rounded down; and after
calls at increasing times the blocks of a blob are listed as they were last staged, unless the time
of one of them is that of a later one, rounded down. -/
theorem staged_in_order_iff (t u : Instant) (B : FsBackend) (w : World) (ps : List PutBlock)
    (k : BlobKey) :
    (t.nanos < u.nanos → (nowIso t < nowIso u ↔ ¬ RoundedDown t u)) ∧
    (ps.Pairwise (fun p q => p.time.nanos < q.time.nanos) →
      w.db.stagedBlocks.selectWhere (fun b => b.blob = k) = [] →
      ((PutBlock.serve B ps w).2.db.getUncommittedBlocks k =
          (PutBlock.last k (PutBlock.serve B ps w).1).map PutBlock.entry ↔
        (PutBlock.last k (PutBlock.serve B ps w).1).Pairwise
          fun p q => ¬ RoundedDown p.time q.time)) :=
  ⟨fun h => nowIso_lt_of_nanos_lt_iff h,
    fun hincreasing hstart => PutBlock.getUncommittedBlocks_serve_iff hincreasing hstart⟩

/-- Ten in the morning, so many nanoseconds after the full second. -/
def sampleTime (nanosecond : Fin (10 ^ 9)) : Instant where
  year := 2025
  month := 1
  day := 31
  hour := 10
  minute := 0
  second := 0
  nanosecond := nanosecond
  year_le := by decide
  month_le := by decide
  day_pos := by decide
  day_le := by decide
  hour_lt := by decide
  minute_lt := by decide
  second_lt := by decide
  nanosecond_lt := nanosecond.isLt

/-- One block, and another one half a second after the full second. -/
def sampleStagings (nanosecond : Fin (10 ^ 9)) : List PutBlock :=
  [⟨sampleAmb 1, sampleTime nanosecond, ⟨⟨"acc", "c", "b"⟩, "AAAA"⟩, [.ok [1]]⟩,
    ⟨sampleAmb 2, sampleTime 500000000, ⟨⟨"acc", "c", "b"⟩, "BBBB"⟩, [.ok [1, 2]]⟩]

lemma nanos_sampleTime_lt {n m : Fin (10 ^ 9)} (h : n < m) :
    (sampleTime n).nanos < (sampleTime m).nanos := by
  have hseconds : (sampleTime n).seconds = (sampleTime m).seconds :=
    Instant.seconds_eq_of_fields rfl
  rw [Instant.nanos, Instant.nanos, hseconds]
  exact Nat.add_lt_add_left h _

/-- A tenth of a second is not half a second, rounded down. -/
theorem staged_in_order_sample :
    (PutBlock.serve sample (sampleStagings 100000000) sampleContainer).2.db.getUncommittedBlocks
      ⟨"acc", "c", "b"⟩ =
    (PutBlock.last ⟨"acc", "c", "b"⟩
      (PutBlock.serve sample (sampleStagings 100000000) sampleContainer).1).map PutBlock.entry := by
  have hlt : (sampleTime 100000000).nanos < (sampleTime 500000000).nanos :=
    nanos_sampleTime_lt (by decide)
  have hround : ¬ RoundedDown (sampleTime 100000000) (sampleTime 500000000) :=
    (nowIso_lt_of_nanos_lt_iff hlt).mp (by decide +kernel)
  have hincreasing : (sampleStagings 100000000).Pairwise
      fun p q => p.time.nanos < q.time.nanos := by
    rw [sampleStagings, List.pairwise_pair]
    exact hlt
  have happart : (sampleStagings 100000000).Pairwise fun p q => ¬ RoundedDown p.time q.time := by
    rw [sampleStagings, List.pairwise_pair]
    exact hround
  refine ((staged_in_order_iff (sampleTime 100000000) (sampleTime 500000000) _ _ _ _).2 hincreasing
    (by decide +kernel)).mpr ?_
  exact happart.sublist ((PutBlock.last_sublist _ _).trans (PutBlock.serve_sublist _ _ _))

/-- A block of the full second: the listing starts with the other one, which was staged last. -/
theorem staged_out_of_order :
    (sampleTime 0).nanos < (sampleTime 500000000).nanos ∧
    ¬ nowIso (sampleTime 0) < nowIso (sampleTime 500000000) ∧
    (PutBlock.serve sample (sampleStagings 0) sampleContainer).1.map PutBlock.entry =
      [⟨"AAAA", 1⟩, ⟨"BBBB", 2⟩] ∧
    (PutBlock.serve sample (sampleStagings 0) sampleContainer).2.db.getUncommittedBlocks
      ⟨"acc", "c", "b"⟩ = [⟨"BBBB", 2⟩, ⟨"AAAA", 1⟩] := by
  refine ⟨nanos_sampleTime_lt (by decide), ?_, ?_, ?_⟩
  all_goals decide +kernel

end BlobStore
