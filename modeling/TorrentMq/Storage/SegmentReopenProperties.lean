import TorrentMq.Storage.SegmentReadProperties

/-! What a segment that is closed and opened again keeps of its batches. -/

set_option autoImplicit false

namespace TorrentMq.Storage

open Bytes List Segment

theorem readNat_singleton (byte : UInt8) (rest : Bytes) : readNat 1 ([byte] ++ rest) = (byte.toNat, rest) := by
  rw [readNat_append (length_singleton), decode, decode, Nat.mul_zero, Nat.add_zero]

theorem readHeader_written {header : SegmentHeader} (fits : FitsInt 8 header.baseOffset) (rest : Bytes) :
    readHeader (header.writeHeader ++ rest) =
      if !header.isValid then .error .invalidHeader
      else if header.computeHeaderCrc ≠ header.headerCrc then
        .error (.headerCrcMismatch header.headerCrc header.computeHeaderCrc)
      else .ok header := by
  have length := length_writeHeader header
  have raw : pread (header.writeHeader ++ rest) 0 kSegmentHeaderSize = header.writeHeader := by
    have front := pread_left header.writeHeader rest
    rwa [length] at front
  have word (value : UInt32) (rest : Bytes) : readNat 4 (encode 4 value.toNat ++ rest) = (value.toNat, rest) :=
    readNat_encode_append (UInt32.toNat_lt value) rest
  have half (value : UInt16) (rest : Bytes) : readNat 2 (encode 2 value.toNat ++ rest) = (value.toNat, rest) :=
    readNat_encode_append (UInt16.toNat_lt value) rest
  have double (value : UInt64) (rest : Bytes) : readNat 8 (encode 8 value.toNat ++ rest) = (value.toNat, rest) :=
    readNat_encode_append (UInt64.toNat_lt value) rest
  unfold readHeader
  rw [raw, if_neg (by rw [length, kSegmentHeaderSize]; omega), SegmentHeader.writeHeader, SegmentHeader.covered]
  simp only [word, half, double, readNat_append length_replicate, readInt_encodeInt_append fits,
    readInt_encodeInt_append (fitsInt_int64 _), readNat_singleton, UInt32.ofNat_toNat, UInt16.ofNat_toNat,
    UInt64.ofNat_toNat, Int64.ofInt_toInt, UInt8.ofNat_toNat]

theorem readHeader_writeHeader {header : SegmentHeader} (valid : header.isValid = true)
    (crc : header.headerCrc = header.computeHeaderCrc) (fits : FitsInt 8 header.baseOffset) (rest : Bytes) :
    readHeader (header.writeHeader ++ rest) = .ok header := by
  rw [readHeader_written fits rest, valid, if_neg (by decide), if_neg (not_not.mpr crc.symm)]

namespace Segment

theorem decodeInt_blen {placed : Placed} (small : placed.blen ≤ kMaxBatchBytes) :
    decodeInt 4 (encodeInt 4 (placed.blen : Int)) = placed.blen := by
  rw [kMaxBatchBytes] at small
  exact decodeInt_encodeInt (fitsInt_of_length (by omega))

theorem blen_positive (placed : Placed) : 0 < placed.blen := by
  rw [Placed.blen]
  omega

theorem scanBatches_blocks {before : Bytes} {placed : List Placed} {zeros fileSize fuel : Nat}
    (inside : before.length + (blocks placed).length ≤ fileSize)
    (small : ∀ one ∈ placed, one.blen ≤ kMaxBatchBytes) (enough : placed.length ≤ fuel) :
    (scanBatches (before ++ (blocks placed ++ List.replicate zeros 0)) fileSize fuel before.length).map Prod.snd =
      placed.map Placed.block := by
  induction placed generalizing before fuel with
  | nil =>
    rw [blocks_nil, nil_append, scanBatches_zeros]
    rfl
  | cons one placed ih =>
    obtain ⟨fuel, rfl⟩ : ∃ rounds, fuel = rounds + 1 := ⟨fuel - 1, by rw [length_cons] at enough; omega⟩
    have length := one.length_block
    have positive := blen_positive one
    have fits := small one mem_cons_self
    rw [blocks_cons, length_append] at inside
    rw [blocks_cons, append_assoc, scanBatches, if_neg (by omega), Placed.pread_blen, decodeInt_blen fits]
    dsimp only
    rw [if_neg (by omega), Int.toNat_natCast, if_neg (by omega), Placed.pread_block, map_cons, ← length,
      ← length_append, ← append_assoc, map_cons]
    rw [ih (by rw [length_append]; omega) (fun other member => small other (mem_cons_of_mem one member))
      (by rw [length_cons] at enough; omega)]

def lastBaseEnd (curOffset : Int) (placed : List Placed) : Int :=
  placed.foldl (fun _ one => one.1 + 1) curOffset

theorem scanNextOffset_blocks {before : Bytes} {placed : List Placed} {zeros size fuel : Nat}
    (inside : before.length + (blocks placed).length ≤ size) (small : ∀ one ∈ placed, one.blen ≤ kMaxBatchBytes)
    (fits : ∀ one ∈ placed, FitsInt 8 one.1) (enough : placed.length ≤ fuel) (curOffset : Int) :
    scanNextOffset (before ++ (blocks placed ++ List.replicate zeros 0)) size fuel before.length curOffset =
      lastBaseEnd curOffset placed := by
  induction placed generalizing before fuel curOffset with
  | nil =>
    cases fuel with
    | zero => rfl
    | succ fuel =>
      obtain ⟨rest, field⟩ := pread_zeros zeros 8 4
      rw [blocks_nil, nil_append, scanNextOffset, pread_append_right, field, decodeInt_zeros]
      split
      · rfl
      · exact if_pos (.inl le_rfl)
  | cons one placed ih =>
    obtain ⟨fuel, rfl⟩ : ∃ rounds, fuel = rounds + 1 := ⟨fuel - 1, by rw [length_cons] at enough; omega⟩
    have length := one.length_block
    have positive := blen_positive one
    have short := small one mem_cons_self
    have offset : decodeInt 8 (encodeInt 8 one.1) = one.1 := decodeInt_encodeInt (fits one mem_cons_self)
    rw [blocks_cons, length_append] at inside
    rw [blocks_cons, append_assoc, scanNextOffset, if_neg (by omega), Placed.pread_offset, Placed.pread_blen,
      decodeInt_blen short, offset]
    dsimp only
    rw [if_neg (by omega), Int.toNat_natCast, show 8 + 4 + one.blen = one.block.length by omega,
      ← length_append, ← append_assoc, lastBaseEnd, foldl_cons]
    exact ih (by rw [length_append]; omega) (fun other member => small other (mem_cons_of_mem one member))
      (fun other member => fits other (mem_cons_of_mem one member))
      (by rw [length_cons] at enough; omega) _

theorem prepareIndex_header {sized : Segment} (size : sized.fileSize = kSegmentHeaderSize)
    (index : sized.indexFile = none) : sized.prepareIndex = { sized with sparseIndex := [], indexDirty := false } := by
  have loaded : sized.loadIndex = { sized with sparseIndex := [], indexDirty := false } := by
    unfold loadIndex rebuildIndex
    rw [index, if_pos size.le]
  have behind : ¬kSegmentHeaderSize < sized.fileSize := by omega
  unfold prepareIndex
  rw [loaded]
  exact if_neg (by rw [decide_eq_false behind, Bool.and_false]; decide)

theorem openPrepared_header {prepared : Segment} (size : prepared.data.length = kSegmentHeaderSize)
    (index : prepared.indexFile = none) :
    Laid prepared.data prepared.header [] prepared.openPrepared ∧ prepared.openPrepared.indexFile = none ∧
      prepared.openPrepared.indexDirty = false ∧ prepared.openPrepared.data = prepared.data := by
  have prepare : prepareIndex { prepared with fileSize := prepared.data.length } =
      { prepared with fileSize := prepared.data.length, sparseIndex := [], indexDirty := false } :=
    prepareIndex_header size index
  have restore : restoreNextOffset
      { prepared with fileSize := prepared.data.length, sparseIndex := [], indexDirty := false } =
      { prepared with
        fileSize := prepared.data.length
        sparseIndex := []
        indexDirty := false
        nextOffset := prepared.header.baseOffset } := if_pos size.le
  have state := state_openPrepared prepared
  unfold openPrepared at state ⊢
  rw [prepare, restore] at state ⊢
  refine ⟨⟨⟨0, (append_nil _).symm, List.Sublist.slnil, rfl⟩, rfl, state, rfl, (Int.add_zero _).symm,
    .inl rfl, fun _ member => (not_mem_nil member).elim⟩, index, rfl, rfl⟩

theorem prepareIndex_loaded {sized : Segment} {entry : SparseIndexEntry} {entries : List SparseIndexEntry}
    (index : sized.indexFile = some (entry :: entries)) :
    sized.prepareIndex = { sized with sparseIndex := entry :: entries, indexDirty := false } := by
  unfold prepareIndex loadIndex
  rw [index]
  rfl

theorem openPrepared_loaded {prepared : Segment} {index : List SparseIndexEntry} {last : SparseIndexEntry}
    (large : kSegmentHeaderSize < prepared.data.length) (stored : prepared.indexFile = some index)
    (final : index.getLast? = some last) :
    prepared.openPrepared.data = prepared.data ∧ prepared.openPrepared.header = prepared.header ∧
      prepared.openPrepared.sparseIndex = index ∧ prepared.openPrepared.fileSize = prepared.data.length ∧
      prepared.openPrepared.nextOffset =
        scanNextOffset prepared.data prepared.data.length prepared.data.length last.filePosition last.offset := by
  cases index with
  | nil => cases final
  | cons entry entries =>
    have prepare : prepareIndex { prepared with fileSize := prepared.data.length } =
        { prepared with
          fileSize := prepared.data.length
          sparseIndex := entry :: entries
          indexDirty := false } := prepareIndex_loaded stored
    have restore : restoreNextOffset
        { prepared with
          fileSize := prepared.data.length
          sparseIndex := entry :: entries
          indexDirty := false } =
        { prepared with
          fileSize := prepared.data.length
          sparseIndex := entry :: entries
          indexDirty := false
          nextOffset := scanNextOffset prepared.data prepared.data.length prepared.data.length
            last.filePosition last.offset } := by
      unfold restoreNextOffset
      dsimp only
      rw [if_neg (by omega), final]
      rfl
    unfold openPrepared
    rw [prepare, restore]
    exact ⟨rfl, rfl, rfl, rfl, rfl⟩

/-- What opening takes a configuration for: it agrees with the one that the file was created with,
wherever it says anything. -/
structure Compatible (config again : SegmentConfig) : Prop where
  segmentId : again.segmentId = 0 ∨ again.segmentId = config.segmentId
  baseOffset : again.baseOffset = kInvalidOffset ∨ again.baseOffset = 0 ∨ again.baseOffset = config.baseOffset

/-- A header that a segment with this configuration has written. -/
structure HeaderOf (config : SegmentConfig) (header : SegmentHeader) : Prop where
  valid : header.isValid = true
  crc : header.headerCrc = header.computeHeaderCrc
  baseOffset : header.baseOffset = config.baseOffset
  segmentId : header.segmentId = config.segmentId

theorem open_existing {config again : SegmentConfig} {header : SegmentHeader} (written : HeaderOf config header)
    (fits : config.baseOffset < 2 ^ 63) (compatible : Compatible config again) (rest : Bytes)
    (index : Option (List SparseIndexEntry)) (created opened : Int64) :
    ∃ prepared : Segment, prepared.data = header.writeHeader ++ rest ∧ prepared.header = header ∧ prepared.indexFile = index ∧
      (new again created (some (header.writeHeader ++ rest)) index).open opened =
        .ok prepared.openPrepared := by
  have lower : 0 ≤ header.baseOffset := by
    have valid := written.valid
    simp only [SegmentHeader.isValid, Bool.and_eq_true, decide_eq_true_eq] at valid
    exact valid.2
  have base := written.baseOffset
  have read := readHeader_writeHeader written.valid written.crc (by unfold FitsInt; omega) rest
  have id : ¬(again.segmentId ≠ 0 ∧ header.segmentId ≠ again.segmentId) := by
    rintro ⟨nonzero, differs⟩
    cases compatible.segmentId with
    | inl zero => exact nonzero zero
    | inr same => exact differs (written.segmentId.trans same.symm)
  have offset : ¬(again.baseOffset ≠ kInvalidOffset ∧ again.baseOffset ≠ 0 ∧
      header.baseOffset ≠ again.baseOffset) := by
    rintro ⟨given, nonzero, differs⟩
    rcases compatible.baseOffset with invalid | zero | same
    · exact given invalid
    · exact nonzero zero
    · exact differs (written.baseOffset.trans same.symm)
  have prepare : ∃ prepared : Segment,
      (new again created (some (header.writeHeader ++ rest)) index).prepareFile opened = .ok prepared ∧
      prepared.data = header.writeHeader ++ rest ∧ prepared.header = header ∧ prepared.indexFile = index := by
    unfold prepareFile new
    dsimp only
    rw [read]
    dsimp only [bind, Except.bind]
    rw [if_neg id, if_neg offset]
    exact ⟨_, rfl, rfl, rfl, rfl⟩
  obtain ⟨prepared, success, data, same, loaded⟩ := prepare
  refine ⟨prepared, data, same, loaded, ?_⟩
  change (do
      let prepared ← (new again created (some (header.writeHeader ++ rest)) index).prepareFile opened
      if !prepared.header.isValid then throw SegmentError.invalidHeader
      else return prepared.openPrepared) = _
  rw [success]
  change (if (!prepared.header.isValid) = true then _ else _) = _
  rw [same, written.valid, if_neg (by decide)]
  rfl

theorem fresh_plain {config : SegmentConfig} {created opened : Int64} {segment : Segment}
    (fresh : (new config created none none).open opened = .ok segment) (plain : config.preallocate = false) :
    HeaderOf config segment.header ∧ Laid segment.header.writeHeader segment.header [] segment ∧
      segment.indexFile = none ∧ segment.indexDirty = false ∧ segment.data = segment.header.writeHeader := by
  obtain ⟨prepared, prepare, crc, base, id, index, data⟩ : ∃ prepared : Segment,
      (new config created none none).prepareFile opened = .ok prepared ∧
      prepared.header.headerCrc = prepared.header.computeHeaderCrc ∧
      prepared.header.baseOffset = config.baseOffset ∧ prepared.header.segmentId = config.segmentId ∧
      prepared.indexFile = none ∧
      prepared.data = if config.preallocate then
        ftruncate prepared.header.writeHeader (new config created none none).config.maxSegmentBytes.toNat
        else prepared.header.writeHeader :=
    ⟨_, rfl, rfl, rfl, rfl, rfl, rfl⟩
  rw [plain, if_neg (by decide)] at data
  obtain ⟨laid, noIndex, clean, contents⟩ := openPrepared_header
    (by rw [data, length_writeHeader, kSegmentHeaderSize]) index
  obtain ⟨valid, same⟩ := openPrepared_of_fresh prepare fresh
  rw [same, data] at laid
  rw [same] at noIndex clean
  rw [same, data] at contents
  have kept := laid.sameHeader
  rw [← kept] at laid valid crc base id contents
  exact ⟨⟨valid, crc, base, id⟩, laid, noIndex, clean, contents⟩

end Segment

namespace Segment

variable {segment : Segment}

theorem close_files (opened : segment.state = .active ∨ segment.state = .sealed) : segment.close.file = segment.file ∧
      segment.close.indexFile =
        if segment.sparseIndex.isEmpty && !segment.indexDirty then segment.indexFile else some segment.sparseIndex := by
  have closed : segment.close =
      { segment.flushIndex with state := .closed, fileSize := 0, nextOffset := kInvalidOffset } := by
    unfold close
    cases opened with
    | inl active => rw [active]
    | inr only => rw [only]
  rw [closed, flushIndex]
  split
  · exact ⟨rfl, rfl⟩
  · exact ⟨rfl, rfl⟩

theorem file_of_data (some : segment.data ≠ []) : segment.file = Option.some segment.data := by
  unfold data at some ⊢
  cases file : segment.file with
  | none =>
    rw [file] at some
    exact absurd rfl some
  | some contents => rfl

theorem Written.indexed {front : Bytes} {zeros : Nat} {placed : List Placed}
    (written : Written front zeros placed segment) (some : placed ≠ []) :
    ∃ entry entries, segment.sparseIndex = entry :: entries := by
  have first := written.first
  cases index : segment.sparseIndex with
  | cons entry entries => exact ⟨entry, entries, rfl⟩
  | nil =>
    rw [index] at first
    cases placed with
    | nil => exact absurd rfl some
    | cons one placed => cases first

theorem recordTotal_concat (batches : List RecordBatch) (batch : RecordBatch) :
    recordTotal (batches ++ [batch]) = recordTotal batches + batch.records.length := by
  rw [recordTotal_append, recordTotal, recordTotal, map_singleton, sum_singleton]

theorem assignOffsets_concat (base : Int) (batches : List RecordBatch) (batch : RecordBatch) :
    assignOffsets base (batches ++ [batch]) = assignOffsets base batches ++ [(base + recordTotal batches, batch)] :=
  assignOffsets_append base batches [batch]

theorem roundUp_of_dvd {size : Nat} (aligned : kFileExtendStep ∣ size) : roundUp size = size := by
  unfold kFileExtendStep at aligned
  unfold roundUp kFileExtendStep
  omega

theorem lastBaseEnd_append (curOffset : Int) (placed : List Placed) (last : Placed) :
    lastBaseEnd curOffset (placed ++ [last]) = last.1 + 1 := by
  rw [lastBaseEnd, foldl_append, foldl_cons, foldl_nil]

theorem Written.scanNextOffset {front : Bytes} {zeros : Nat} {init : List Placed} {final : Placed}
    (written : Written front zeros (init ++ [final]) segment) {last : SparseIndexEntry}
    (member : last ∈ segment.sparseIndex) (small : ∀ one ∈ init ++ [final], one.blen ≤ kMaxBatchBytes)
    (fits : ∀ one ∈ init ++ [final], FitsInt 8 one.1) :
    scanNextOffset segment.data segment.data.length segment.data.length last.filePosition last.offset =
      final.1 + 1 := by
  obtain ⟨before, batch, after, split, position⟩ := written.mem member
  have data : segment.data =
      (front ++ blocks before) ++ (blocks ((last.offset, batch) :: after) ++ List.replicate zeros 0) := by
    rw [written.data, split, blocks_append, append_assoc, append_assoc]
  have length : (front ++ blocks before).length + (blocks ((last.offset, batch) :: after)).length ≤
      segment.data.length := by
    rw [data]
    simp only [length_append]
    omega
  have rounds := length_le_blocks ((last.offset, batch) :: after)
  rw [split] at small fits
  have scan := @scanNextOffset_blocks (front ++ blocks before) ((last.offset, batch) :: after) zeros
    segment.data.length segment.data.length length
    (fun one late => small one (mem_append_right before late))
    (fun one late => fits one (mem_append_right before late)) (by omega) last.offset
  rw [← data, length_append, ← position] at scan
  rw [scan]
  obtain ⟨middle, tail⟩ : ∃ middle, (last.offset, batch) :: after = middle ++ [final] := by
    have ends := congrArg getLast? split
    rw [getLast?_concat, getLast?_append_of_ne_nil _ (cons_ne_nil _ _)] at ends
    exact getLast?_eq_some_iff.mp ends.symm
  rw [tail, lastBaseEnd_append]

end Segment

namespace WrittenSegment

/-- The batches of a call have records and stay within the length that scans take, and their
offsets fit into 64 bits. -/
def Fits (state : WrittenSegment) (write : SegmentWrite) : Prop :=
  (∀ batch ∈ write.batches, batch.records ≠ [] ∧ 4 + 1 + 4 + batch.serializeBody.length ≤ kMaxBatchBytes) ∧
    state.segment.nextOffset + recordTotal write.batches < 2 ^ 63

instance (state : WrittenSegment) (write : SegmentWrite) : Decidable (state.Fits write) :=
  inferInstanceAs (Decidable (_ ∧ _))

/-- A forward scan from the end of the header meets exactly the batches that were taken. -/
def MetByScan (state : WrittenSegment) : Prop :=
  state.segment.forwardScan.map Prod.snd = state.placed.map Placed.block

abbrev Scannable (batch : RecordBatch) : Prop := 4 + 1 + 4 + batch.serializeBody.length ≤ kMaxBatchBytes

variable {header : SegmentHeader}

variable {batches : List RecordBatch} {writes : List SegmentWrite}

theorem run_holds {front : Bytes}
    {initial : WrittenSegment} (holds : Holds Scannable front header batches initial)
    (fits : Runs.Meets step Fits initial writes) :
    ∃ more, Holds Scannable front header (batches ++ more) (Runs.run step initial writes) ∧
      (more = [] → Runs.run step initial writes = initial) := by
  have start : Holds Scannable front header (batches ++ []) initial := by rwa [append_nil]
  refine fits.preserves (fun state => ∃ more, Holds Scannable front header (batches ++ more) state ∧
    (more = [] → state = initial)) ?_ ⟨[], start, fun _ => rfl⟩
  rintro state write ⟨new, bound⟩ ⟨more, holds, same⟩
  obtain ⟨further, after, unchanged⟩ := holds.step new bound
  refine ⟨more ++ further, by rwa [← append_assoc], ?_⟩
  intro none
  obtain ⟨first, second⟩ := append_eq_nil_iff.mp none
  rw [unchanged second, same first]

variable {state : WrittenSegment}

theorem Holds.metByScan
    (holds : Holds Scannable header.writeHeader header batches state) : state.MetByScan := by
  obtain ⟨zeros, written⟩ := holds.laid.written
  have size := holds.laid.fileSize
  have rounds := length_le_blocks (assignOffsets header.baseOffset batches)
  have scan := @scanBatches_blocks header.writeHeader (assignOffsets header.baseOffset batches)
    zeros state.segment.fileSize state.segment.fileSize size.ge
    (fun one member => holds.all one.2 (assignOffsets_bounds member).2.2) (by omega)
  rw [length_writeHeader] at scan
  rw [MetByScan, forwardScan, written.data, holds.placed, kSegmentHeaderSize, scan]

def reopen (state : WrittenSegment) (again : SegmentConfig) (created opened : Int64) :
    Except SegmentError Segment :=
  (new again created state.segment.close.file state.segment.close.indexFile).open opened

theorem reopen_empty {config again : SegmentConfig} {segment : Segment}
    (written : Segment.HeaderOf config segment.header) (fits : config.baseOffset < 2 ^ 63)
    (compatible : Segment.Compatible config again)
    (laid : Segment.Laid segment.header.writeHeader segment.header [] segment) (noIndex : segment.indexFile = none)
    (clean : segment.indexDirty = false) (plain : segment.data = segment.header.writeHeader) (created opened : Int64) :
    ∃ reopened, reopen ⟨segment, []⟩ again created opened = .ok reopened ∧ reopened.nextOffset = segment.nextOffset ∧
      Holds Scannable segment.header.writeHeader segment.header [] ⟨reopened, []⟩ := by
  obtain ⟨zeros, stored⟩ := laid.written
  have length := length_writeHeader segment.header
  have index : segment.sparseIndex = [] := map_eq_nil_iff.mp (sublist_nil.mp stored.index)
  have file := file_of_data
    (ne_nil_of_length_pos (by rw [plain, length]; decide : 0 < segment.data.length))
  obtain ⟨closedFile, closedIndex⟩ := close_files laid.state
  rw [index, clean, noIndex, if_pos (by decide)] at closedIndex
  obtain ⟨prepared, data, same, loaded, success⟩ :=
    open_existing written fits compatible [] none created opened
  rw [append_nil] at data success
  obtain ⟨again, -, -, -⟩ := openPrepared_header (by rw [data, length, kSegmentHeaderSize]) loaded
  rw [data, same] at again
  refine ⟨prepared.openPrepared, ?_, ?_, again, rfl, fun _ member => (not_mem_nil member).elim, .inl rfl⟩
  · rw [WrittenSegment.reopen, closedFile, file, closedIndex, plain, success]
  · rw [again.nextOffset, laid.nextOffset]

theorem Holds.reopen {config again : SegmentConfig} {init : List RecordBatch} {final : RecordBatch}
    (holds : Holds Scannable header.writeHeader header (init ++ [final]) state)
    (written : Segment.HeaderOf config header) (fits : config.baseOffset < 2 ^ 63)
    (compatible : Segment.Compatible config again) (created opened : Int64) :
    ∃ reopened, state.reopen again created opened = .ok reopened ∧
      reopened.nextOffset = header.baseOffset + recordTotal init + 1 ∧
      MetByScan ⟨reopened, state.placed⟩ ∧
      (final.records.length = 1 → kFileExtendStep ∣ state.segment.fileSize →
        Holds Scannable header.writeHeader header (init ++ [final]) ⟨reopened, state.placed⟩) := by
  obtain ⟨zeros, stored⟩ := holds.laid.written
  have lower : 0 ≤ header.baseOffset := by
    have valid := written.valid
    simp only [SegmentHeader.isValid, Bool.and_eq_true, decide_eq_true_eq] at valid
    exact valid.2
  have length := length_writeHeader header
  have placed := assignOffsets_concat header.baseOffset init final
  obtain ⟨entry, entries, index⟩ := stored.indexed (by rw [placed]; exact append_ne_nil_of_right_ne_nil _ (by simp))
  obtain ⟨last, ends⟩ : ∃ last, state.segment.sparseIndex.getLast? = some last := by
    rw [index]
    exact ⟨_, getLast?_eq_some_getLast (cons_ne_nil _ _)⟩
  have total := congrArg List.length stored.data
  rw [length_append, length] at total
  have file := file_of_data (ne_nil_of_length_pos (by omega : 0 < state.segment.data.length))
  obtain ⟨closedFile, closedIndex⟩ := close_files holds.laid.state
  rw [index, isEmpty_cons, Bool.false_and, if_neg (by decide), ← index] at closedIndex
  obtain ⟨prepared, data, same, loaded, success⟩ := open_existing written fits compatible
    (blocks (assignOffsets header.baseOffset (init ++ [final])) ++ List.replicate zeros 0)
    (some state.segment.sparseIndex) created opened
  rw [← stored.data] at data success
  have rounds := length_le_blocks (assignOffsets header.baseOffset (init ++ [final]))
  have nonempty : 0 < (assignOffsets header.baseOffset (init ++ [final])).length := by
    rw [placed, length_append, length_singleton]
    omega
  have large : kSegmentHeaderSize < prepared.data.length := by
    rw [data, kSegmentHeaderSize]
    rw [length_append] at total
    omega
  obtain ⟨kept, sameHeader, sameIndex, size, next⟩ := openPrepared_loaded large loaded ends
  rw [data] at kept size next
  have small : ∀ one : Placed,
      one ∈ assignOffsets header.baseOffset (init ++ [final]) → one.blen ≤ kMaxBatchBytes :=
    fun one member => holds.all one.2 (assignOffsets_bounds member).2.2
  have bounded : ∀ one : Placed,
      one ∈ assignOffsets header.baseOffset (init ++ [final]) → FitsInt 8 one.1 := by
    intro one member
    have above := (assignOffsets_bounds member).1
    have below := holds.laid.below_nextOffset member
    cases holds.bound with
    | inl none => exact absurd none (append_ne_nil_of_right_ne_nil _ (cons_ne_nil _ _))
    | inr upper =>
      unfold FitsInt
      omega
  have offset : prepared.openPrepared.nextOffset = header.baseOffset + recordTotal init + 1 := by
    have scanned := stored
    rw [placed] at scanned small bounded
    rw [next, scanned.scanNextOffset (mem_of_getLast? ends) small bounded]
  have again := stored.congr kept sameIndex
  refine ⟨prepared.openPrepared, ?_, offset, ?_, ?_⟩
  · rw [WrittenSegment.reopen, closedFile, file, closedIndex, success]
  · have scan := @scanBatches_blocks header.writeHeader
      (assignOffsets header.baseOffset (init ++ [final])) zeros state.segment.data.length
      state.segment.data.length (by rw [stored.data]; simp only [length_append]; omega) small
      (by rw [length_append] at total; omega)
    rw [length, ← stored.data] at scan
    rw [MetByScan, forwardScan, kept, size, holds.placed, kSegmentHeaderSize, scan]
  · intro one aligned
    have unmoved : prepared.openPrepared.nextOffset = state.segment.nextOffset := by
      rw [offset, holds.laid.nextOffset, recordTotal_concat, one]
      omega
    have full : state.segment.data.length = state.segment.fileSize := by
      cases holds.laid.padding with
      | inl exact => exact exact
      | inr padded => rw [padded, roundUp_of_dvd aligned]
    refine ⟨⟨⟨zeros, again⟩, sameHeader.trans same, state_openPrepared prepared, ?_, ?_, ?_,
      holds.laid.nonempty⟩, holds.placed, holds.all, ?_⟩
    · rw [size, full, holds.laid.fileSize]
    · rw [unmoved, holds.laid.nextOffset]
    · left
      rw [kept, size]
    · rw [unmoved]
      exact holds.bound

theorem run_of_none
    (none : ∀ write ∈ writes, write.batches = []) : Runs.run step state writes = state := by
  induction writes with
  | nil => rfl
  | cons write writes ih =>
    have first := none write mem_cons_self
    have same : state.step write = state := by
      cases write with
      | append batch => cases first
      | appendBatch batches =>
        change batches = [] at first
        rw [first]
        exact congrArg (WrittenSegment.mk state.segment) (append_nil _)
    rw [Runs.run_cons, same]
    exact ih fun other member => none other (mem_cons_of_mem write member)

/-- A segment that is closed and opened again keeps its next offset where its last batch has one
record. A scan then meets the batches of before and of after, unless a batch is put behind padding. -/
theorem metByScan_of_reopen {config again : SegmentConfig} {created opened : Int64} {segment : Segment}
    (fresh : (new config created none none).open opened = .ok segment) (plain : config.preallocate = false)
    (bound : config.baseOffset < 2 ^ 63) (compatible : Segment.Compatible config again) {old : List SegmentWrite}
    (fits : Runs.Meets step Fits ⟨segment, []⟩ old)
    (single : ∀ last ∈ (Runs.run step ⟨segment, []⟩ old).placed.getLast?, last.2.records.length = 1)
    (recreated reopenedAt : Int64) :
    let before := Runs.run step ⟨segment, []⟩ old
    ∃ reopened, before.reopen again recreated reopenedAt = .ok reopened ∧
      reopened.nextOffset = before.segment.nextOffset ∧
      ∀ new, Runs.Meets step Fits ⟨reopened, before.placed⟩ new →
        (before.placed = [] ∨ kFileExtendStep ∣ before.segment.fileSize ∨ ∀ write ∈ new, write.batches = []) →
        (Runs.run step ⟨reopened, before.placed⟩ new).MetByScan := by
  obtain ⟨written, laid, noIndex, clean, contents⟩ := fresh_plain fresh plain
  have initial : Holds Scannable segment.header.writeHeader segment.header [] ⟨segment, []⟩ :=
    ⟨laid, rfl, fun _ member => (not_mem_nil member).elim, .inl rfl⟩
  obtain ⟨batches, holds, unchanged⟩ := run_holds initial fits
  rw [nil_append] at holds
  dsimp only
  rcases eq_nil_or_concat batches with none | ⟨init, final, rfl⟩
  · rw [unchanged none]
    obtain ⟨reopened, success, offset, again⟩ :=
      reopen_empty written bound compatible laid noIndex clean contents recreated reopenedAt
    refine ⟨reopened, success, offset, ?_⟩
    intro new more _
    obtain ⟨further, after, -⟩ := run_holds again more
    exact after.metByScan
  · rw [concat_eq_append] at holds
    have placed := holds.placed
    rw [assignOffsets_concat] at placed
    have one : final.records.length = 1 := single _ (by rw [placed, getLast?_concat]; exact rfl)
    obtain ⟨reopened, success, offset, met, again⟩ := holds.reopen written bound compatible recreated reopenedAt
    refine ⟨reopened, success, ?_, ?_⟩
    · rw [offset, holds.laid.nextOffset, recordTotal_concat, one]
      omega
    · intro new more condition
      rcases condition with none | aligned | idle
      · rw [placed] at none
        exact absurd none (append_ne_nil_of_right_ne_nil _ (cons_ne_nil _ _))
      · obtain ⟨further, after, -⟩ := run_holds (again one aligned) more
        exact after.metByScan
      · rw [run_of_none idle]
        exact met

theorem metByScan_ordinaryBatch : ∃ segment reopened : Segment, (new {} 0 none none).open 0 = .ok segment ∧
    let before := Runs.run step ⟨segment, []⟩ [.append ordinaryBatch]
    before.placed = [(0, ordinaryBatch)] ∧ before.reopen {} 0 0 = .ok reopened ∧
      reopened.nextOffset = before.segment.nextOffset ∧ MetByScan ⟨reopened, before.placed⟩ := by
  obtain ⟨segment, fresh⟩ := open_fresh (show 0 ≤ ({} : SegmentConfig).baseOffset from le_rfl) 0 0
  obtain ⟨-, base, front, laid⟩ := laid_fresh fresh
  have zero : segment.nextOffset = 0 := by
    rw [laid.nextOffset, base]
    rfl
  obtain ⟨next, -, placed⟩ := run_append_fresh fresh (show ordinaryBatch.records ≠ [] by decide)
  have fits : Fits ⟨segment, []⟩ (.append ordinaryBatch) := by
    refine ⟨by decide +kernel, ?_⟩
    rw [zero]
    decide
  have compatible : Segment.Compatible {} {} := ⟨.inl rfl, .inr (.inl rfl)⟩
  have meets : Runs.Meets step Fits ⟨segment, []⟩ [.append ordinaryBatch] := ⟨fits, trivial⟩
  obtain ⟨reopened, success, offset, met⟩ := metByScan_of_reopen fresh rfl (by decide) compatible meets
    (by rw [placed]; rintro last ⟨⟩; rfl) 0 0
  refine ⟨segment, reopened, fresh, by rw [placed, zero], success, offset, ?_⟩
  exact met [] trivial (.inr (.inr fun write member => (not_mem_nil member).elim))

def pairBatch : RecordBatch := { records := [{ key := [97] }, { key := [98] }] }

theorem not_reopen_pairBatch : ¬∀ (config : SegmentConfig) (created opened : Int64) (segment : Segment),
    (new config created none none).open opened = .ok segment → ∀ old : List SegmentWrite,
    (∀ write ∈ old, ∀ batch ∈ write.batches, batch.records ≠ []) →
    ∀ reopened, (Runs.run step ⟨segment, []⟩ old).reopen config created opened = .ok reopened →
      reopened.nextOffset = (Runs.run step ⟨segment, []⟩ old).segment.nextOffset ∧
      ∀ new : List SegmentWrite, (∀ write ∈ new, ∀ batch ∈ write.batches, batch.records ≠ []) →
        (Runs.run step ⟨reopened, (Runs.run step ⟨segment, []⟩ old).placed⟩ new).MetByScan := by
  intro claim
  obtain ⟨segment, fresh⟩ := open_fresh (show 0 ≤ ({} : SegmentConfig).baseOffset from le_rfl) 0 0
  obtain ⟨written, laid, -, -, -⟩ := fresh_plain fresh rfl
  obtain ⟨next, appended, placed⟩ := run_append_fresh fresh (show pairBatch.records ≠ [] by decide)
  obtain ⟨after, -⟩ := laid.append (by decide) appended
  have holds : Holds Scannable segment.header.writeHeader segment.header ([] ++ [pairBatch])
      (Runs.run step ⟨segment, []⟩ [.append pairBatch]) := by
    rw [placed]
    refine ⟨after, ?_, by decide +kernel, .inr ?_⟩
    · dsimp only
      rw [laid.nextOffset, assignOffsets_concat, assignOffsets, nil_append]
    · dsimp only
      rw [after.nextOffset, written.baseOffset]
      decide
  have compatible : Segment.Compatible {} {} := ⟨.inl rfl, .inr (.inl rfl)⟩
  obtain ⟨reopened, success, offset, -, -⟩ := holds.reopen written (by decide) compatible 0 0
  obtain ⟨kept, -⟩ := claim {} 0 0 segment fresh [.append pairBatch] (by decide) reopened success
  rw [offset, holds.laid.nextOffset, recordTotal_concat] at kept
  have two : pairBatch.records.length = 2 := rfl
  omega

end WrittenSegment

end TorrentMq.Storage
