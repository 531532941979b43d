import BlobStore.Storage.World

/-!
# Starting the server

`main` enters the configured accounts in the database, or a development account with a random key
if there are none, and then serves. The database outlives the process: a history is a list of
sessions on one database, each with its own configuration.

What a session does after its start is any sequence of atomic actions, so nothing is assumed about
the requests it serves or how they interleave.
-/

namespace BlobStore

open Codec FileTree

/-- One entry of `[[accounts]]`. -/
structure AccountConfig where
  name : String
  key1 : String
  key2 : Option String
  deriving DecidableEq

/-- A run of the server: its configured accounts, the random bytes it draws, what it does. -/
structure Session where
  accounts : List AccountConfig
  keyBytes : Vector UInt8 32
  actions : List Action

namespace Session

/-- The accounts the start ensures, in order. -/
def entries (s : Session) : List AccountConfig :=
  if s.accounts.isEmpty then [⟨"devstoreaccount1", base64Encode s.keyBytes.toList, none⟩]
  else s.accounts

/-- The part of `main` before it serves. -/
def start (s : Session) (db : MetadataDb) : MetadataDb :=
  s.entries.foldl (fun db acc => db.ensureAccount acc.name ⟨acc.key1, acc.key2⟩) db

/-- A whole session, up to its end. -/
def run (w : World) (s : Session) : World :=
  s.actions.foldl (fun w e => (e.exec w).2) { w with db := s.start w.db }

/-- The keys the configuration of a session gives an account: those of its last entry. -/
def keys (s : Session) (account : String) : Option (String × Option String) :=
  (s.entries.reverse.find? fun acc => acc.name = account).map fun acc => (acc.key1, acc.key2)

end Session

variable {w : World} {db : MetadataDb} {a : String}

/-! ### What changes the accounts -/

lemma accounts_guarded {α : Type} {stmt : MetadataDb → Except SqlError α × MetadataDb}
    (h : (stmt db).2.accounts = db.accounts) (fault : Option String) :
    (MetadataDb.guarded fault stmt db).2.accounts = db.accounts := by
  cases fault with
  | none => exact h
  | some message => rfl

lemma accounts_upsertBlob (k : BlobKey) (u : BlobUpsert) :
    (MetadataDb.upsertBlob k u db).2.accounts = db.accounts := by
  unfold MetadataDb.upsertBlob
  split_ifs <;> rfl

/-- No action of a running server touches the accounts. -/
lemma accounts_exec (e : Action) (w : World) : (e.exec w).2.db.accounts = w.db.accounts := by
  cases e with
  | insertContainer fault c r =>
    apply accounts_guarded
    unfold MetadataDb.insertContainer
    split_ifs <;> rfl
  | upsertBlob fault k u => exact accounts_guarded (accounts_upsertBlob k u) fault
  | commitBlockList fault k resolved u =>
    apply accounts_guarded
    have hup : (MetadataDb.upsertBlob k u w.db).2.accounts = w.db.accounts :=
      accounts_upsertBlob k u
    unfold MetadataDb.commitBlockList
    rcases hres : MetadataDb.upsertBlob k u w.db with ⟨e | _, db'⟩
    · rfl
    · rw [hres] at hup
      exact hup
  | removeFile fails p => cases fails <;> rfl
  | deleteContainer fault c => exact accounts_guarded rfl fault
  | setContainerMetadata fault c m e l => exact accounts_guarded rfl fault
  | setContainerAcl fault c pa e l => exact accounts_guarded rfl fault
  | setBlobProperties fault k patch e l => exact accounts_guarded rfl fault
  | setBlobMetadata fault k m e l => exact accounts_guarded rfl fault
  | deleteBlobRow fault k => exact accounts_guarded rfl fault
  | stageBlock fault b r => exact accounts_guarded rfl fault
  | _ => rfl

lemma accounts_run (s : Session) (w : World) :
    (s.run w).db.accounts = (s.start w.db).accounts := by
  have hactions : ∀ (actions : List Action) (w : World),
      (actions.foldl (fun w e => (e.exec w).2) w).db.accounts = w.db.accounts := by
    intro actions
    induction actions with
    | nil => simp
    | cons e actions ih =>
      intro w
      simp [ih, accounts_exec]
  exact hactions s.actions _

lemma accountKeys_run (s : Session) (w : World) (a : String) :
    (s.run w).db.accountKeys a = (s.start w.db).accountKeys a := by
  simp [MetadataDb.accountKeys, accounts_run]

/-! ### One start -/

lemma accountKeys_ensureAccount (acc : AccountConfig) (db : MetadataDb) (a : String) :
    (db.ensureAccount acc.name ⟨acc.key1, acc.key2⟩).accountKeys a =
      if acc.name = a then some (acc.key1, acc.key2) else db.accountKeys a := by
  simp only [MetadataDb.accountKeys, MetadataDb.ensureAccount, Table.lookup_insert_eq]
  by_cases h : acc.name = a
  · simp [h]
  · simp [h, Ne.symm h]

/-- A start gives the accounts of the configuration their keys and leaves the others. -/
lemma accountKeys_start (s : Session) (db : MetadataDb) (a : String) :
    (s.start db).accountKeys a = (s.keys a).or (db.accountKeys a) := by
  unfold Session.start Session.keys
  induction s.entries generalizing db with
  | nil => simp
  | cons acc entries ih =>
    simp only [List.foldl_cons, ih, accountKeys_ensureAccount, List.reverse_cons,
      List.find?_append, List.find?_singleton]
    by_cases h : acc.name = a
    · cases entries.reverse.find? fun acc => acc.name = a <;> simp [h]
    · cases entries.reverse.find? fun acc => acc.name = a <;> simp [h]

lemma keys_eq_none_iff (s : Session) (a : String) :
    s.keys a = none ↔ ∀ acc ∈ s.entries, acc.name ≠ a := by
  simp [Session.keys]

/-! ### Histories -/

/-- An account that is left is one that some configuration has named. -/
lemma accountKeys_history (past : List Session) (w : World) (a : String) :
    (past.foldl Session.run w).db.accountKeys a = none ↔
      (∀ s ∈ past, s.keys a = none) ∧ w.db.accountKeys a = none := by
  induction past generalizing w with
  | nil => simp
  | cons s past ih =>
    simp only [List.foldl_cons, ih, accountKeys_run, accountKeys_start, List.forall_mem_cons]
    cases s.keys a <;> simp

/-- After a start the accounts are those of its configuration, with its keys, exactly if it names
every account that a configuration before it named. -/
theorem accountKeys_eq_keys_iff (fs : FsTree UInt8) (past : List Session) (last : Session) :
    (∀ a, (last.start (past.foldl Session.run ⟨.empty ∅, fs⟩).db).accountKeys a = last.keys a) ↔
      ∀ s ∈ past, ∀ acc ∈ s.entries, ∃ acc' ∈ last.entries, acc'.name = acc.name := by
  have hempty : ∀ a, MetadataDb.accountKeys a (.empty ∅) = none := by
    intro a
    simp [MetadataDb.accountKeys, MetadataDb.empty]
  simp only [accountKeys_start]
  constructor
  · intro hkeys s hs acc hacc
    by_contra hnone
    push Not at hnone
    have hlast : last.keys acc.name = none := (keys_eq_none_iff last acc.name).mpr hnone
    have hleft := hkeys acc.name
    rw [hlast, Option.none_or, accountKeys_history] at hleft
    exact (keys_eq_none_iff s acc.name).mp (hleft.1 s hs) acc hacc rfl
  · intro hnamed a
    cases hlast : last.keys a with
    | some keys => simp
    | none =>
      rw [Option.none_or, accountKeys_history]
      refine ⟨fun s hs => (keys_eq_none_iff s a).mpr fun acc hacc ha => ?_, hempty a⟩
      obtain ⟨acc', hacc', hname⟩ := hnamed s hs acc hacc
      exact (keys_eq_none_iff last a).mp hlast acc' hacc' (hname.trans ha)

/-- A first session without configured accounts, and one with an account. -/
def sampleSessions : Session × Session :=
  (⟨[], Vector.replicate 32 7, []⟩, ⟨[⟨"acc", "a2V5", none⟩], Vector.replicate 32 8, []⟩)

/-- The throwaway key of the first session still opens the development account in the second. -/
theorem accountKeys_devstoreaccount1 :
    ¬ ∀ a, (sampleSessions.2.start
        ([sampleSessions.1].foldl Session.run ⟨.empty ∅, ⟨fun _ => none⟩⟩).db).accountKeys a =
      sampleSessions.2.keys a := by
  intro h
  have hkeys := h "devstoreaccount1"
  revert hkeys
  decide +kernel

end BlobStore
