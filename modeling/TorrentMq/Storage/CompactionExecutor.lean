import TorrentMq.Bytes.Decimal
import TorrentMq.Storage.Compactor

/-!
# Compaction executor

How compacted batches replace a segment file, as system calls on the directory
of the segments, and what the recovery makes of the files that a crash leaves.
Files go by their names in that directory, where temporary files are too.
-/

set_option autoImplicit false

namespace TorrentMq.Storage

open Bytes

structure StoredFile where
  content : Bytes
  mtime : Int
  byCompaction : Bool := false
deriving DecidableEq

abbrev Directory := Bytes → Option StoredFile

def Directory.set (directory : Directory) (name : Bytes) (file : Option StoredFile) : Directory :=
  fun other => if other = name then file else directory other

namespace CompactionExecutor

def compactMarker : Bytes := [46, 99, 111, 109, 112, 97, 99, 116, 46]

def findFirst (pattern : Bytes) : Bytes → Option Nat
  | [] => if pattern = [] then some 0 else none
  | byte :: rest => if pattern.isPrefixOf (byte :: rest) then some 0 else (findFirst pattern rest).map (· + 1)

def segmentFileName (segmentId : Nat) (baseOffset : Int) : Bytes :=
  decimal segmentId ++ 95 :: (decimalInt baseOffset ++ [46, 108, 111, 103])

def tempFileName (target suffix : Bytes) : Bytes := 46 :: (target ++ (compactMarker ++ suffix))

def targetOf (name : Bytes) : Option Bytes := (findFirst compactMarker name).map name.take

def compactedHeader (baseOffset : Int) (nowMs : Int64) : Bytes :=
  encode 4 0x47535154 ++ (encode 2 1 ++ (encode 2 64 ++ (encode 4 0 ++ (List.replicate 4 0 ++
  (encodeInt 8 baseOffset ++ (encode 8 0 ++ (encodeInt 8 nowMs.toInt ++ ([0] ++ ([1] ++
  List.replicate 22 0)))))))))

def writeLengthed (bytes : Bytes) : List Bytes :=
  let len := Int32.ofNat bytes.length
  encodeInt 4 len.toInt :: if 0 < len then [bytes.take len.toInt.toNat] else []

def writeRecord (rec : Record) : List Bytes :=
  writeLengthed rec.key ++ (writeLengthed rec.value ++ (encodeInt 8 rec.timestamp.toInt ::
    encodeInt 8 rec.offset :: encodeInt 4 (Int32.ofNat rec.headers.length).toInt ::
    rec.headers.flatMap fun header => writeLengthed header.key ++ writeLengthed header.value))

def writeBlocks (batches : List RecordBatch) (nowMs : Int64) : List Bytes :=
  compactedHeader ((batches.head?.map RecordBatch.baseOffset).getD kInvalidOffset) nowMs ::
    (batches.flatMap RecordBatch.records).flatMap writeRecord

inductive SystemCall where
  | create
  | write (block : Bytes)
  | sync
  | rename
  | syncDirectory
deriving DecidableEq

def systemCalls (batches : List RecordBatch) (nowMs : Int64) : List SystemCall :=
  if batches = [] then []
  else .create :: ((writeBlocks batches nowMs).map .write ++ [.sync, .rename, .syncDirectory])

def perform (target temp : Bytes) (time : Int) (directory : Directory) : SystemCall → Directory
  | .create => directory.set temp (some { content := [], mtime := time, byCompaction := true })
  | .write block =>
    directory.set temp ((directory temp).map fun file => { file with content := file.content ++ block, mtime := time })
  | .sync => directory
  | .rename => (directory.set target (directory temp)).set temp none
  | .syncDirectory => directory

/-- Performs calls until one fails, and then removes the temporary file; that of the directory's own
entry is not checked. -/
def performAll (target temp : Bytes) (clock : Nat → Int) (fails : Nat → Bool) :
    Nat → List SystemCall → Directory → Bool × Directory
  | _, [], directory => (true, directory)
  | i, call :: rest, directory =>
    if fails i ∧ call ≠ .syncDirectory then (false, if call = .create then directory else directory.set temp none)
    else performAll target temp clock fails (i + 1) rest (perform target temp (clock i) directory call)

def writeAndSwap (batches : List RecordBatch) (target suffix : Bytes) (nowMs : Int64) (clock : Nat → Int)
    (fails : Nat → Bool) (directory : Directory) : Bool × Directory :=
  performAll target (tempFileName target suffix) clock fails 0 (systemCalls batches nowMs) directory

def crash (target temp : Bytes) (clock : Nat → Int) (calls : List SystemCall) (done written : Nat)
    (directory : Directory) : Directory :=
  let reached := (performAll target temp clock (fun _ => false) 0 (calls.take done) directory).2
  match calls[done]? with
  | some (.write block) =>
    if block.take written = [] then reached else perform target temp (clock done) reached (.write (block.take written))
  | _ => reached

def dotNames : List Bytes := [[], [46], [46, 46]]

/-- Takes up one entry: moves a temporary file to the name it stands for, or removes it. A target that
gives way is renamed to a backup first, which is then deleted; a directory does not give way. Whether a
temporary file is newer than a directory is left open. -/
def recoverEntry (newer : Bytes → Bool) (state : Nat × Directory) (name : Bytes) : Nat × Directory :=
  match targetOf name with
  | none => state
  | some target =>
    match state.2 name with
    | none => state
    | some temp =>
      if target ∈ dotNames then if newer name then state else (state.1 + 1, state.2.set name none)
      else
        match state.2 target with
        | none => (state.1 + 1, (state.2.set target (some temp)).set name none)
        | some file =>
          if file.mtime < temp.mtime then (state.1 + 1, (state.2.set target (some temp)).set name none)
          else (state.1 + 1, state.2.set name none)

structure Listing (directory : Directory) where
  names : List Bytes
  once : names.Nodup
  complete : ∀ name, (directory name).isSome → name ∈ names

def detectPartialFiles (newer : Bytes → Bool) (directory : Directory) (listing : Listing directory) :
    Nat × Directory :=
  listing.names.foldl (recoverEntry newer) (0, directory)

end CompactionExecutor

end TorrentMq.Storage
