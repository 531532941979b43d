import BlobStore.Storage.Concurrent.Provenance

/-!
# What the trace says is so

Calls are interleaved in any way. At every point the row of a slot is the one of its owner, and the
file of the slot has the bytes of its holder (`Traced`, `run_traced`).

Nothing makes the owner and the holder the same.
-/

namespace BlobStore

open Codec FileTree UnixPath Resumption Proc

section Sources

variable {ι : Type}

/-- Something is as it was at the start, or not there, or what a write made of it. -/
def Source.Explains {α : Type} (s : Source ι) (now start : Option α) (made : ι → α → Prop) :
    Prop :=
  match s with
  | .start   => now = start
  | .gone    => now = none
  | .write i => ∃ a, now = some a ∧ made i a

lemma Source.after_ne_start {s : Source ι} (h : s ≠ .start) (i : ι) (e : Effect) :
    s.after i e ≠ .start := by
  cases e
  · exact h
  · nofun
  · nofun

lemma Source.Explains.frame {α : Type} {s : Source ι} {now now' start : Option α}
    {made made' : ι → α → Prop} {e : Effect} (h : s.Explains now start made)
    (hframe : Frame e now now') (i : ι) (hmade : e = .none → ∀ j a, made j a → made' j a) :
    (s.after i e).Explains now' start made' := by
  rcases hframe with ⟨rfl, rfl⟩ | ⟨rfl, rfl⟩
  · cases s with
    | start => exact h
    | gone => exact h
    | write j =>
      obtain ⟨a, ha, hj⟩ := h
      exact ⟨a, ha, hmade rfl j a hj⟩
  · rfl

lemma Source.Explains.imp {α : Type} {s : Source ι} {now start : Option α}
    {made made' : ι → α → Prop} (h : s.Explains now start made)
    (hmade : ∀ i a, made i a → made' i a) : s.Explains now start made' := by
  cases s with
  | start => exact h
  | gone => exact h
  | write i =>
    obtain ⟨a, ha, hi⟩ := h
    exact ⟨a, ha, hmade i a hi⟩

lemma base_snoc (tr : Trace ι Action Action.Response) (k : BlobKey) (row : Option BlobRow)
    (e : ι × Event Action Action.Response) :
    base (tr ++ [e]) k row = if rowEffect (.blob k) e.2 = .drop then none else base tr k row := by
  unfold base
  by_cases h : rowEffect (.blob k) e.2 = .drop
  · rw [if_pos h, if_pos ⟨e, by simp, h⟩]
  · rw [if_neg h]
    refine if_congr ?_ rfl rfl
    simp [or_and_right, exists_or, h]

end Sources

variable {ι : Type} [DecidableEq ι]

/-! ### The invariant -/

/-- The bytes that request `i` writes, as far as it has read them. -/
def version (req : ι → Request) (tr : Trace ι Action Action.Response) (i : ι) : Option Bytes :=
  (req i).call.bytes (opened (Trace.history i tr))

/-- The temporary file and the bytes are those of the phase. -/
structure Phase.Fits (B : FsBackend) (req : ι → Request) (w : World)
    (tr : Trace ι Action Action.Response) (i : ι) (φ : Phase) : Prop where
  tmp : ∀ o c, φ = filling o c → w.fs.file? ((req i).tmp B) = some c
  opened : (req i).call.slot.isSome → ∀ o, φ.opened? = some o → opened (Trace.history i tr) = o
  content : (req i).call.slot.isSome → ∀ c, φ.content? = some c → version req tr i = some c

/-- Request `i` writes to the slot, and no other request has anything to do with it. -/
structure Alone (req : ι → Request) (i : ι) (x : Slot) : Prop where
  slot : (req i).call.slot = some x
  others : ∀ j, j ≠ i → (req j).call.slot ≠ some x ∧ ¬ (req j).call.disturbs x

/-- The files, rows and phases are what the trace says. -/
structure Traced (B : FsBackend) (req : ι → Request) (w₀ w : World)
    (tr : Trace ι Action Action.Response) (φ : ι → Phase) : Prop where
  located : Located B w.db
  tidy : Tidy B.root w₀.fs → Tidy B.root w.fs
  fits : ∀ i, (φ i).Fits B req w tr i
  file : ∀ x, (holder B x tr).Explains (w.fs.file? (B.slotFile x)) (w₀.fs.file? (B.slotFile x))
    fun i bytes => (φ i).published ∧ (req i).call.slot = some x ∧ version req tr i = some bytes
  blob : ∀ k, (owner (.blob k) tr).Explains (w.db.blobs.lookup k) (w₀.db.blobs.lookup k)
    fun i row => (φ i).published ∧ ∃ bytes u, version req tr i = some bytes ∧
      (req i).blobRow B bytes = some (k, u) ∧
      row = MetadataDb.upsertedRow k u (base tr k (w₀.db.blobs.lookup k))
  block : ∀ b, (owner (.block b) tr).Explains (w.db.stagedBlocks.lookup b)
    (w₀.db.stagedBlocks.lookup b)
    fun i row => (φ i).published ∧ ∃ bytes, version req tr i = some bytes ∧
      (req i).blockRow B bytes = some (b, row)
  based : ∀ k, owner (.blob k) tr = .gone → base tr k (w₀.db.blobs.lookup k) = none
  fresh : ∀ k, owner (.blob k) tr = .start →
    base tr k (w₀.db.blobs.lookup k) = w₀.db.blobs.lookup k
  noted : ∀ i c, φ i = .recorded c → ∀ x, (req i).call.slot = some x → owner x tr ≠ .start
  placed : ∀ i, (φ i).published → ∀ x, (req i).call.slot = some x → holder B x tr ≠ .start
  deletes : ∀ e ∈ tr, ∀ k, rowEffect (.blob k) e.2 = .drop → (req e.1).call.deletes = true
  wrote : ∀ i x, owner x tr = .write i → ∃ c, φ i = .recorded c
  inPlace : ∀ i x, Alone req i x → ∀ c, φ i = .renamed c → holder B x tr = .write i
  settled : ∀ i x, Alone req i x → ∀ c, φ i = .recorded c →
    owner x tr = .write i ∧ holder B x tr = .write i
  untouched : ∀ x, (∀ i, (req i).call.slot ≠ some x ∧ ¬ (req i).call.disturbs x) →
    owner x tr = .start ∧ holder B x tr = .start

/-! ### One event -/

lemma version_snoc_ne {req : ι → Request} {tr : Trace ι Action Action.Response} {i j : ι}
    (hij : j ≠ i) (ev : Event Action Action.Response) :
    version req (tr ++ [(i, ev)]) j = version req tr j := by
  rw [version, version, Trace.history_snoc_ne hij.symm]

lemma version_snoc_self {req : ι → Request} {tr : Trace ι Action Action.Response} {i : ι}
    {ev : Event Action Action.Response} (hev : openedBytes ev = []) :
    version req (tr ++ [(i, ev)]) i = version req tr i := by
  rw [version, version, Trace.history_snoc_self, opened_snoc, hev, List.append_nil]

/-- What an upsert leaves does not depend on earlier upserts. -/
lemma upsertedRow_upsertedRow (k : BlobKey) (u u' : BlobUpsert) (row : Option BlobRow) :
    MetadataDb.upsertedRow k u (some (MetadataDb.upsertedRow k u' row)) =
      MetadataDb.upsertedRow k u row := by
  cases row <;> rfl

variable {B : FsBackend} {req : ι → Request} {w₀ w : World}
  {tr : Trace ι Action Action.Response} {φ : ι → Phase} {i : ι} {φ' : Phase} {e : Action}

/-- A write that has put its file in place stays with its bytes. -/
lemma Traced.published (tr : Trace ι Action Action.Response)
    (hstep : Step B (req i) (φ i) ⟨e, (e.exec w).1⟩ φ') {j : ι}
    (hj : (φ j).published = true) (hslot : (req j).call.slot.isSome) :
    (Function.update φ i φ' j).published = true ∧
      version req (tr ++ [(i, ⟨e, (e.exec w).1⟩)]) j = version req tr j := by
  by_cases hji : j = i
  · subst hji
    obtain ⟨hφ', hev⟩ := hstep.published hj
    rw [Function.update_self]
    exact ⟨hφ', version_snoc_self (hev hslot)⟩
  · rw [Function.update_of_ne hji]
    exact ⟨hj, version_snoc_ne hji _⟩

/-- What a write has put in place are its bytes. -/
lemma Traced.content_step (h : Traced B req w₀ w tr φ)
    (hstep : Step B (req i) (φ i) ⟨e, (e.exec w).1⟩ φ') (hslot : (req i).call.slot.isSome)
    {c : Bytes} (hc : φ'.content? = some c) :
    version req (tr ++ [(i, ⟨e, (e.exec w).1⟩)]) i = some c := by
  rcases hstep.content hc with hφ | ⟨o, hφ, hco, hev⟩
  · have hpub : (φ i).published = true := by rw [Phase.published, hφ]; rfl
    rw [version_snoc_self ((hstep.published hpub).2 hslot)]
    exact (h.fits i).content hslot c hφ
  · rw [version_snoc_self hev, version, (h.fits i).opened hslot o (by rw [hφ]; rfl), hco]

lemma Traced.fits_step (h : Traced B req w₀ w tr φ)
    (htmp : ∀ i j, i ≠ j → (req i).tmp B ≠ (req j).tmp B)
    (hstep : Step B (req i) (φ i) ⟨e, (e.exec w).1⟩ φ') (j : ι) :
    (Function.update φ i φ' j).Fits B req (e.exec w).2 (tr ++ [(i, ⟨e, (e.exec w).1⟩)]) j := by
  by_cases hji : j = i
  · subst hji
    have hfits := h.fits j
    rw [Function.update_self]
    refine ⟨fun o c => hstep.tmp_self hfits.tmp, fun hslot o' ho' => ?_,
      fun hslot c hc => h.content_step hstep hslot hc⟩
    obtain ⟨o, ho, rfl⟩ := hstep.opened hslot ho'
    rw [Trace.history_snoc_self, opened_snoc, hfits.opened hslot o ho]
  · have hfits := h.fits j
    rw [Function.update_of_ne hji]
    refine ⟨fun o c hφ => ?_, fun hslot o ho => ?_, fun hslot c hc => ?_⟩
    · rw [hstep.tmp_ne (htmp j i hji)]
      exact hfits.tmp o c hφ
    · rw [Trace.history_snoc_ne (Ne.symm hji)]
      exact hfits.opened hslot o ho
    · rw [version_snoc_ne hji]
      exact hfits.content hslot c hc

lemma Traced.file_step (h : Traced B req w₀ w tr φ)
    (hstep : Step B (req i) (φ i) ⟨e, (e.exec w).1⟩ φ') (x : Slot) :
    (holder B x (tr ++ [(i, ⟨e, (e.exec w).1⟩)])).Explains
      ((e.exec w).2.fs.file? (B.slotFile x)) (w₀.fs.file? (B.slotFile x))
      fun j bytes => (Function.update φ i φ' j).published ∧ (req j).call.slot = some x ∧
        version req (tr ++ [(i, ⟨e, (e.exec w).1⟩)]) j = some bytes := by
  rw [holder_snoc]
  rcases hstep.file (h.fits i).tmp x with hframe | ⟨heffect, hx, o, c, hφ, hc, hφ', hfile⟩
  · refine (h.file x).frame hframe i fun _ j bytes => ?_
    rintro ⟨hpub, hslot, hbytes⟩
    obtain ⟨hpub', hversion⟩ := Traced.published tr hstep hpub (by rw [hslot]; rfl)
    exact ⟨hpub', hslot, hversion.trans hbytes⟩
  · rw [heffect]
    refine ⟨c, hfile, ?_, hx, ?_⟩
    · rw [Function.update_self, hφ']
      rfl
    · exact h.content_step hstep (by rw [hx]; rfl) (by rw [hφ']; rfl)

lemma Traced.blob_step (h : Traced B req w₀ w tr φ)
    (hstep : Step B (req i) (φ i) ⟨e, (e.exec w).1⟩ φ') (k : BlobKey) :
    (owner (.blob k) (tr ++ [(i, ⟨e, (e.exec w).1⟩)])).Explains
      ((e.exec w).2.db.blobs.lookup k) (w₀.db.blobs.lookup k)
      fun j row => (Function.update φ i φ' j).published ∧
        ∃ bytes u, version req (tr ++ [(i, ⟨e, (e.exec w).1⟩)]) j = some bytes ∧
          (req j).blobRow B bytes = some (k, u) ∧ row = MetadataDb.upsertedRow k u
            (base (tr ++ [(i, ⟨e, (e.exec w).1⟩)]) k (w₀.db.blobs.lookup k)) := by
  rw [owner_snoc]
  rcases hstep.blob k with hframe | ⟨heffect, c, u, hφ, hφ', hu, hrow⟩
  · refine (h.blob k).frame hframe i fun heffect j row => ?_
    rintro ⟨hpub, bytes, u, hbytes, hu, hrow⟩
    obtain ⟨hpub', hversion⟩ :=
      Traced.published tr hstep hpub (by rw [slot_of_blobRow hu]; rfl)
    refine ⟨hpub', bytes, u, hversion.trans hbytes, hu, ?_⟩
    rw [base_snoc, heffect]
    exact hrow
  · have hslot : (req i).call.slot.isSome := by rw [slot_of_blobRow hu]; rfl
    have hbase : base (tr ++ [(i, ⟨e, (e.exec w).1⟩)]) k (w₀.db.blobs.lookup k) =
        base tr k (w₀.db.blobs.lookup k) := by
      rw [base_snoc, heffect]
      rfl
    rw [heffect]
    refine ⟨_, hrow, ?_, c, u, h.content_step hstep hslot (by rw [hφ']; rfl), hu, ?_⟩
    · rw [Function.update_self, hφ']
      rfl
    · rw [hbase]
      have hold := h.blob k
      cases howner : owner (.blob k) tr with
      | start =>
        rw [howner] at hold
        rw [h.fresh k howner, hold]
      | gone =>
        rw [howner] at hold
        rw [h.based k howner, hold]
      | write j =>
        rw [howner] at hold
        obtain ⟨old, hlookup, -, bytes, u', -, -, rfl⟩ := hold
        rw [hlookup, upsertedRow_upsertedRow]

lemma Traced.block_step (h : Traced B req w₀ w tr φ)
    (hstep : Step B (req i) (φ i) ⟨e, (e.exec w).1⟩ φ') (b : StagedBlockKey) :
    (owner (.block b) (tr ++ [(i, ⟨e, (e.exec w).1⟩)])).Explains
      ((e.exec w).2.db.stagedBlocks.lookup b) (w₀.db.stagedBlocks.lookup b)
      fun j row => (Function.update φ i φ' j).published ∧
        ∃ bytes, version req (tr ++ [(i, ⟨e, (e.exec w).1⟩)]) j = some bytes ∧
          (req j).blockRow B bytes = some (b, row) := by
  rw [owner_snoc]
  rcases hstep.block b with hframe | ⟨heffect, c, s, hφ, hφ', hs, hrow⟩
  · refine (h.block b).frame hframe i fun _ j row => ?_
    rintro ⟨hpub, bytes, hbytes, hrow⟩
    obtain ⟨hpub', hversion⟩ :=
      Traced.published tr hstep hpub (by rw [slot_of_blockRow hrow]; rfl)
    exact ⟨hpub', bytes, hversion.trans hbytes, hrow⟩
  · have hslot : (req i).call.slot.isSome := by rw [slot_of_blockRow hs]; rfl
    rw [heffect]
    refine ⟨s, hrow, ?_, c, h.content_step hstep hslot (by rw [hφ']; rfl), hs⟩
    rw [Function.update_self, hφ']
    rfl

omit [DecidableEq ι] in
lemma owner_snoc_idle {t : Trace ι Action Action.Response} {x : Slot}
    {ev : Event Action Action.Response} (h : Idle B x ev) :
    owner x (t ++ [(i, ev)]) = owner x t ∧ holder B x (t ++ [(i, ev)]) = holder B x t := by
  rw [owner_snoc, holder_snoc, h.1, h.2]
  exact ⟨rfl, rfl⟩

lemma Traced.wrote_step (h : Traced B req w₀ w tr φ)
    (hstep : Step B (req i) (φ i) ⟨e, (e.exec w).1⟩ φ') {j : ι} {x : Slot}
    (howner : owner x (tr ++ [(i, ⟨e, (e.exec w).1⟩)]) = .write j) :
    ∃ c, Function.update φ i φ' j = .recorded c := by
  rw [owner_snoc] at howner
  cases heffect : rowEffect x ⟨e, (e.exec w).1⟩ with
  | none =>
    rw [heffect] at howner
    obtain ⟨c, hc⟩ := h.wrote j x howner
    by_cases hji : j = i
    · subst hji
      exact ⟨c, by rw [Function.update_self, hstep.recorded hc]⟩
    · exact ⟨c, by rw [Function.update_of_ne hji, hc]⟩
  | put =>
    rw [heffect] at howner
    cases howner
    obtain ⟨c, hc⟩ := hstep.put heffect
    exact ⟨c, by rw [Function.update_self, hc]⟩
  | drop =>
    rw [heffect] at howner
    cases howner

/-- One step of the only request that has to do with a slot. -/
lemma Traced.alone_step (h : Traced B req w₀ w tr φ)
    (hstep : Step B (req i) (φ i) ⟨e, (e.exec w).1⟩ φ') {j : ι} {x : Slot} (hx : Alone req j x) :
    (∀ c, Function.update φ i φ' j = .renamed c →
      holder B x (tr ++ [(i, ⟨e, (e.exec w).1⟩)]) = .write j) ∧
    ∀ c, Function.update φ i φ' j = .recorded c →
      owner x (tr ++ [(i, ⟨e, (e.exec w).1⟩)]) = .write j ∧
        holder B x (tr ++ [(i, ⟨e, (e.exec w).1⟩)]) = .write j := by
  by_cases hji : j = i
  · subst hji
    rw [Function.update_self, owner_snoc, holder_snoc]
    refine ⟨fun c hφ' => ?_, fun c hφ' => ?_⟩
    · rcases hstep.renamed hφ' hx.slot with ⟨hφ, heffect⟩ | heffect
      · rw [heffect]
        exact h.inPlace j x hx c hφ
      · rw [heffect]
        rfl
    · rcases hstep.noted hφ' with hφ | ⟨hφ, heffect⟩
      · obtain ⟨hrow, hfile⟩ := hstep.idle (Call.not_disturbs_of_slot hx.slot) fun _ => ⟨c, hφ⟩
        rw [hrow, hfile]
        exact h.settled j x hx c hφ
      · rw [(heffect x hx.slot).1, (heffect x hx.slot).2]
        exact ⟨rfl, h.inPlace j x hx c hφ⟩
  · -- somebody else's step
    obtain ⟨hslot, hdist⟩ := hx.others i (Ne.symm hji)
    obtain ⟨howner, hholder⟩ := owner_snoc_idle (i := i) (t := tr)
      (hstep.idle hdist fun hs => absurd hs hslot)
    rw [Function.update_of_ne hji, howner, hholder]
    exact ⟨h.inPlace j x hx, h.settled j x hx⟩

/-- One event keeps the invariant. -/
theorem Traced.step (h : Traced B req w₀ w tr φ)
    (htmp : ∀ i j, i ≠ j → (req i).tmp B ≠ (req j).tmp B) (hlocates : e.Locates B)
    (hstep : Step B (req i) (φ i) ⟨e, (e.exec w).1⟩ φ') :
    Traced B req w₀ (e.exec w).2 (tr ++ [(i, ⟨e, (e.exec w).1⟩)]) (Function.update φ i φ') where
  located := h.located.exec hlocates
  tidy ht := hstep.tidy (h.tidy ht)
  fits := h.fits_step htmp hstep
  file := h.file_step hstep
  blob := h.blob_step hstep
  block := h.block_step hstep
  based k := by
    rw [owner_snoc, base_snoc]
    cases heffect : rowEffect (.blob k) ⟨e, (e.exec w).1⟩ with
    | none => simpa [Source.after] using h.based k
    | put => simp [Source.after]
    | drop => simp
  fresh k := by
    rw [owner_snoc, base_snoc]
    cases heffect : rowEffect (.blob k) ⟨e, (e.exec w).1⟩ with
    | none => simpa [Source.after] using h.fresh k
    | put => simp [Source.after]
    | drop => simp [Source.after]
  noted j c hφ x hx := by
    rw [owner_snoc]
    by_cases hji : j = i
    · subst hji
      rw [Function.update_self] at hφ
      rcases hstep.noted hφ with hφ | ⟨-, heffect⟩
      · exact Source.after_ne_start (h.noted j c hφ x hx) _ _
      · rw [(heffect x hx).1]
        nofun
    · rw [Function.update_of_ne hji] at hφ
      exact Source.after_ne_start (h.noted j c hφ x hx) _ _
  placed j hφ x hx := by
    rw [holder_snoc]
    by_cases hji : j = i
    · subst hji
      rw [Function.update_self] at hφ
      rcases hstep.placed hφ with hφ | heffect
      · exact Source.after_ne_start (h.placed j hφ x hx) _ _
      · rw [heffect x hx]
        nofun
    · rw [Function.update_of_ne hji] at hφ
      exact Source.after_ne_start (h.placed j hφ x hx) _ _
  deletes x hx k hdrop := by
    rcases List.mem_append.mp hx with hx | hx
    · exact h.deletes x hx k hdrop
    · rw [List.mem_singleton.mp hx] at hdrop ⊢
      exact hstep.deletes hdrop
  wrote j x howner := h.wrote_step hstep howner
  inPlace j x hx := (h.alone_step hstep hx).1
  settled j x hx := (h.alone_step hstep hx).2
  untouched x hx := by
    obtain ⟨howner, hholder⟩ := owner_snoc_idle (i := i) (t := tr)
      (hstep.idle (hx i).2 fun hs => absurd hs (hx i).1)
    rw [howner, hholder]
    exact h.untouched x hx

/-- The owner of a slot writes to it. -/
lemma Traced.slot_of_owner (h : Traced B req w₀ w tr φ) {x : Slot} (howner : owner x tr = .write i) :
    (req i).call.slot = some x := by
  cases x with
  | blob k =>
    have hrow := h.blob k
    rw [howner] at hrow
    obtain ⟨_, -, -, _, _, -, hu, -⟩ := hrow
    exact slot_of_blobRow hu
  | block b =>
    have hrow := h.block b
    rw [howner] at hrow
    obtain ⟨_, -, -, _, -, hs⟩ := hrow
    exact slot_of_blockRow hs

/-- So does its holder. -/
lemma Traced.slot_of_holder (h : Traced B req w₀ w tr φ) {x : Slot}
    (hholder : holder B x tr = .write i) : (req i).call.slot = some x := by
  have hfile := h.file x
  rw [hholder] at hfile
  obtain ⟨_, -, -, hslot, -⟩ := hfile
  exact hslot

/-! ### Runs -/

/-- Requests that may run side by side: their names are ordinary, none is a patch, and their
temporary files differ. -/
structure Compatible (req : ι → Request) : Prop where
  ordinary : ∀ i, (req i).call.Ordinary
  noPatch : ∀ i, (req i).call.patches = false
  tmp : ∀ i j, i ≠ j → uuidLike (req i).amb.nanos (req i).amb.tid ≠
    uuidLike (req j).amb.nanos (req j).amb.tid

omit [DecidableEq ι] in
lemma Compatible.tmp_ne (h : Compatible req) {i j : ι} (hij : i ≠ j) :
    (req i).tmp B ≠ (req j).tmp B := by
  intro heq
  have hname := List.append_cancel_left heq
  simp only [List.cons.injEq, true_and, and_true] at hname
  exact h.tmp i j hij (FsBackend.ext_injective hname.2)

/-- The run of a schedule of requests. -/
def FsBackend.race (B : FsBackend) (req : ι → Request) (w : World) (schedule : List ι) :
    Conf ι Action Action.Response AzureError Reply World :=
  Conf.run Action.exec (fun i => B.call (req i).amb (req i).call) w schedule

/-- The states that calls can lead to: one after another or interleaved, complete or cut off. -/
inductive Arisen (B : FsBackend) : World → Prop where
  | fresh {w : World} (h : Fresh B w) : Arisen B w
  | call {w : World} (h : Arisen B w) (amb : Ambient) (call : Call) :
      Arisen B ((B.call amb call).run w).2
  | race {w : World} (h : Arisen B w) {ι : Type} [DecidableEq ι] (req : ι → Request)
      (schedule : List ι) : Arisen B (B.race req w schedule).state

omit [DecidableEq ι] in
lemma Reachable.arisen (h : Reachable B w) : Arisen B w := by
  obtain ⟨w₀, reqs, hfresh, -, rfl⟩ := h
  have hw₀ : Arisen B w₀ := .fresh hfresh
  clear hfresh
  induction reqs generalizing w₀ with
  | nil => exact hw₀
  | cons req reqs ih => exact ih _ (.call hw₀ req.amb req.call)

omit [DecidableEq ι] in
lemma Arisen.located (h : Arisen B w) : Located B w.db := by
  induction h with
  | fresh h => exact h.sound.located
  | call h amb call ih => exact ih.call amb call
  | race h req schedule ih =>
    exact Conf.run_issues Action.exec (I := fun w : World => Located B w.db)
      (fun i => issues_locates _ _) (fun _ _ he hw => hw.exec he) ih schedule

/-- The invariant now and after every event so far; a write that had put its file in place keeps its
bytes. -/
structure Steady (B : FsBackend) (req : ι → Request) (w₀ w : World)
    (tr : Trace ι Action Action.Response) (φ : ι → Phase) : Prop where
  traced : Traced B req w₀ w tr φ
  state : w = after Action.exec w₀ tr
  past : ∀ tr', tr' <+: tr → ∃ φ', Traced B req w₀ (after Action.exec w₀ tr') tr' φ' ∧
    ∀ j, (φ' j).published → (req j).call.slot.isSome →
      (φ j).published ∧ version req tr j = version req tr' j

lemma Steady.step (h : Steady B req w₀ w tr φ)
    (htmp : ∀ i j, i ≠ j → (req i).tmp B ≠ (req j).tmp B) (hlocates : e.Locates B)
    (hstep : Step B (req i) (φ i) ⟨e, (e.exec w).1⟩ φ') :
    Steady B req w₀ (e.exec w).2 (tr ++ [(i, ⟨e, (e.exec w).1⟩)]) (Function.update φ i φ') := by
  have htraced := h.traced.step htmp hlocates hstep
  have hstate : (e.exec w).2 = after Action.exec w₀ (tr ++ [(i, ⟨e, (e.exec w).1⟩)]) := by
    rw [after_append, ← h.state]
    rfl
  refine ⟨htraced, hstate, fun tr' htr' => ?_⟩
  rcases List.prefix_concat_iff.mp htr' with htr' | htr'
  · subst htr'
    exact ⟨_, hstate ▸ htraced, fun j hj _ => ⟨hj, rfl⟩⟩
  · obtain ⟨φ₁, htraced₁, hkept⟩ := h.past tr' htr'
    refine ⟨φ₁, htraced₁, fun j hj hslot => ?_⟩
    obtain ⟨hpub, hversion⟩ := hkept j hj hslot
    obtain ⟨hpub', hversion'⟩ := Traced.published tr hstep hpub hslot
    exact ⟨hpub', hversion'.trans hversion⟩

/-- Every state of every run is what its trace says. -/
theorem race_steady (hreq : Compatible req) (hw : Located B w₀.db) (schedule : List ι) :
    ∃ φ, Steady B req w₀ (B.race req w₀ schedule).state (B.race req w₀ schedule).trace φ ∧
      ∀ i r, (B.race req w₀ schedule).Returned i r → Outcome (req i) (φ i) r := by
  have hinit : Traced B req w₀ w₀ [] fun _ => .start :=
    { located := hw
      tidy := id
      fits := fun i => ⟨nofun, fun _ o ho => by cases ho; rfl, fun _ c hc => nomatch hc⟩
      file := fun x => rfl
      blob := fun k => rfl
      block := fun b => rfl
      based := fun k => nofun
      fresh := fun k _ => by simp [base]
      noted := fun i c => nofun
      placed := fun i => nofun
      deletes := fun e he => nomatch he
      wrote := fun i x => nofun
      inPlace := fun i x _ c => nofun
      settled := fun i x _ c => nofun
      untouched := fun x _ => ⟨rfl, rfl⟩ }
  have hpool := fun i => (follows_call (B := B) (hreq.ordinary i) (hreq.noPatch i)).and_issues
    (issues_locates _ _)
  obtain ⟨φ, hI, hfollows⟩ := Conf.run_upheld Action.exec (s := w₀) (I := Steady B req w₀)
    (fun w tr φ e h => h.traced.located.plausible e)
    (fun w tr φ i e φ' h hstep => h.step (fun i j hij => hreq.tmp_ne hij) hstep.1 hstep.2)
    ⟨hinit, rfl, fun tr' htr' => ⟨_, List.prefix_nil.mp htr' ▸ hinit, fun j hj _ => ⟨hj, by
      rw [List.prefix_nil.mp htr']⟩⟩⟩
    hpool schedule
  exact ⟨φ, hI, fun i r hr => (hfollows i).outcome hr⟩

end BlobStore
