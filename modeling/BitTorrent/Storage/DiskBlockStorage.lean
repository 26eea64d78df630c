import BitTorrent.Core.V2Verification
import BitTorrent.Storage.BlockStorage

/-! # Files on disk as one block storage

`storage/disk_block_storage.rs`.  A disk maps a path to the bytes of the file there; a
path without a file cannot be opened.
-/

namespace BitTorrent

open FlatStore Chunks List Function

abbrev Disk := String → Option Bytes

/-- A contiguous part of one file. -/
structure TargetFileRange where
  filePath : String
  seekOffset : Nat
  ioLength : Nat

namespace DiskBlockStorage

def totalCapacity (files : Files) : Nat :=
  (files.map fun file => file.length).sum

/-- `currentOffset` is relative to the first of `files`, `remaining` what is still to place. -/
def resolveFileRanges : Files → Nat → Nat → List TargetFileRange
  | [], _, _ => []
  | file :: files, currentOffset, remaining =>
    if file.length ≤ currentOffset then
      resolveFileRanges files (currentOffset - file.length) remaining
    else
      let writeSize := min remaining (file.length - currentOffset)
      { filePath := file.name, seekOffset := currentOffset, ioLength := writeSize } ::
        if remaining - writeSize = 0 then [] else resolveFileRanges files 0 (remaining - writeSize)

/-- Seek and `write_all` on an open file.  A file grows when written past its end. -/
def writeFile (bytes : Bytes) (seekOffset : Nat) (data : Bytes) : Bytes :=
  splice (bytes ++ replicate (seekOffset - bytes.length) 0) seekOffset data

def writeRanges : Disk → List TargetFileRange → Bytes → Disk × Result Unit
  | disk, [], _ => (disk, .ok ())
  | disk, range :: ranges, data =>
    match disk range.filePath with
    | none => (disk, .error (.io "entity not found"))
    | some bytes =>
      let written := writeFile bytes range.seekOffset (data.take range.ioLength)
      writeRanges (update disk range.filePath (some written)) ranges
        (data.drop range.ioLength)

def readRanges (disk : Disk) : List TargetFileRange → Result Bytes
  | [] => .ok []
  | range :: ranges =>
    match disk range.filePath with
    | none => .error (.io "entity not found")
    | some bytes =>
      if bytes.length < range.seekOffset + range.ioLength then
        .error (.io "failed to fill whole buffer")
      else do
        let rest ← readRanges disk ranges
        return slice bytes range.seekOffset range.ioLength ++ rest

def writeBlock (files : Files) (disk : Disk) (offset : Nat) (data : Bytes) : Disk × Result Unit :=
  if data.isEmpty then (disk, .ok ())
  else if u64Size ≤ offset + data.length then
    (disk, .error (.io "write offset + length overflowed u64"))
  else if totalCapacity files < offset + data.length then
    (disk, .error (.io "write offset + length exceeds storage capacity"))
  else
    let ranges := resolveFileRanges files offset data.length
    if (ranges.map fun range => range.ioLength).sum < data.length then
      (disk, .error (.io "Not enough space in torrent files to write the block"))
    else writeRanges disk ranges data

def readBlock (files : Files) (disk : Disk) (offset : Nat) (buffer : Bytes) :
    Result (Nat × Bytes) :=
  if buffer.isEmpty then .ok (0, buffer)
  else if u64Size ≤ offset + buffer.length then
    .error (.io "read offset + length overflowed u64")
  else if totalCapacity files < offset + buffer.length then
    .error (.io "read offset + length exceeds storage capacity")
  else
    let ranges := resolveFileRanges files offset buffer.length
    if (ranges.map fun range => range.ioLength).sum < buffer.length then
      .error (.io "Not enough data in torrent files to read the block")
    else do
      let bytes ← readRanges disk ranges
      return (buffer.length, bytes)

def storage (files : Files) : BlockStorage Disk where
  readBlock disk offset buffer := (disk, readBlock files disk offset buffer)
  writeBlock := writeBlock files
  flush disk := (disk, .ok ())
  discardRange disk _ _ := disk

/-- Each file starts where the one before it ends. -/
def ContiguousFrom : Nat → Files → Prop
  | _, [] => True
  | offset, file :: files => file.offset = offset ∧ ContiguousFrom (offset + file.length) files

/-- A file list that describes one run of bytes: offsets follow each other, paths are
distinct, and every offset is a `u64`. -/
structure Layout (files : Files) : Prop where
  contiguous : ContiguousFrom 0 files
  distinct : (files.map fun file => file.name).Nodup
  representable : totalCapacity files < u64Size

/-- Every file is there with its declared length. -/
def Holds (files : Files) (disk : Disk) : Prop :=
  ∀ file ∈ files, ∃ bytes, disk file.name = some bytes ∧ bytes.length = file.length

def fileBytes (disk : Disk) (file : FileDetails UInt8) : Bytes :=
  (disk file.name).getD []

def flatten (files : Files) (disk : Disk) : Bytes :=
  (files.map (fileBytes disk)).flatten

variable {files : Files} {disk : Disk} {file : FileDetails UInt8}

theorem Holds.tail (holds : Holds (file :: files) disk) : Holds files disk :=
  fun other member => holds other (mem_cons_of_mem _ member)

theorem flatten_congr {other : Disk} (same : ∀ file ∈ files, other file.name = disk file.name) :
    flatten files other = flatten files disk := by
  unfold flatten
  congr 1
  refine map_congr_left ?_
  intro file member
  rw [fileBytes, fileBytes, same file member]

/-- What one write to the files does: the files keep their lengths, the concatenation
changes on the range, and no other path is touched. -/
structure WritesRange (files : Files) (disk after : Disk) (offset : Nat) (data : Bytes) : Prop where
  holds : Holds files after
  flat : flatten files after = splice (flatten files disk) offset data
  others : ∀ path, path ∉ (files.map fun file => file.name) → after path = disk path

theorem update_other {path : String} (bytes : Option Bytes) (absent : path ∉ (files.map fun file => file.name)) :
    ∀ file ∈ files, update disk path bytes file.name = disk file.name := by
  intro file member
  refine update_of_ne ?_ _ _
  intro same
  exact absent (mem_map.mpr ⟨file, member, same⟩)

theorem Holds.congr {other : Disk} (holds : Holds files disk)
    (same : ∀ file ∈ files, other file.name = disk file.name) : Holds files other := by
  intro file member
  rw [same file member]
  exact holds file member

theorem flatten_cons (file : FileDetails UInt8) (files : Files) (disk : Disk) :
    flatten (file :: files) disk = fileBytes disk file ++ flatten files disk := rfl

/-- A disk that agrees with `disk` outside `files` and holds the first file too. -/
private theorem WritesRange.cons {after : Disk} {offset : Nat} {data : Bytes} {written : Bytes}
    (first : after file.name = some written) (length : written.length = file.length) (rest : Holds files after)
    (flat : written ++ flatten files after = splice (flatten (file :: files) disk) offset data)
    (others : ∀ path, path ∉ ((file :: files).map fun file => file.name) → after path = disk path) :
    WritesRange (file :: files) disk after offset data where
  holds := by
    intro other member
    cases member with
    | head => exact ⟨written, first, length⟩
    | tail _ member => exact rest other member
  flat := by
    rw [flatten_cons, fileBytes, first, Option.getD_some, flat]
  others := others

theorem writeRanges_resolve {offset : Nat} {data : Bytes}
    (distinct : (files.map fun file => file.name).Nodup) (holds : Holds files disk)
    (positive : 0 < data.length) (inside : offset + data.length ≤ totalCapacity files) :
    ∃ after, writeRanges disk (resolveFileRanges files offset data.length) data = (after, .ok ()) ∧
      WritesRange files disk after offset data := by
  induction files generalizing disk offset data with
  | nil =>
    simp only [totalCapacity, map_nil, sum_nil] at inside
    omega
  | cons file files ih =>
    simp only [map_cons, nodup_cons] at distinct
    obtain ⟨absent, distinct⟩ := distinct
    obtain ⟨bytes, found, length⟩ := holds file mem_cons_self
    have bytesEq : fileBytes disk file = bytes := by rw [fileBytes, found, Option.getD_some]
    have capacity : totalCapacity (file :: files) = file.length + totalCapacity files := rfl
    unfold resolveFileRanges
    by_cases beyond : file.length ≤ offset
    · rw [if_pos beyond]
      obtain ⟨after, done, effect⟩ := @ih disk (offset - file.length) data distinct
        holds.tail positive (by omega)
      have untouched : after file.name = some bytes := (effect.others _ absent).trans found
      refine ⟨after, done, WritesRange.cons untouched length effect.holds ?_ ?_⟩
      · rw [effect.flat, flatten_cons, bytesEq, splice_append_right (by omega), length]
      · intro path other
        exact effect.others path (not_or.mp (mem_cons.not.mp other)).2
    · rw [if_neg beyond]
      dsimp only
      have room : (data.take (min data.length (file.length - offset))).length =
          min data.length (file.length - offset) := by
        rw [length_take]
        omega
      set written := splice bytes offset (data.take (min data.length (file.length - offset)))
        with writtenDef
      have writtenLength : written.length = file.length := by
        rw [writtenDef, splice_length (by omega), length]
      have step : writeFile bytes offset (data.take (min data.length (file.length - offset))) = written := by
        rw [writeFile, Nat.sub_eq_zero_of_le (by omega), replicate_zero, append_nil]
      have restHolds := holds.tail.congr (update_other (some written) absent)
      have restFlat := flatten_congr (@update_other files disk _ (some written) absent)
      by_cases last : data.length - min data.length (file.length - offset) = 0
      · rw [if_pos last]
        simp only [writeRanges, found, step]
        refine ⟨_, rfl, WritesRange.cons (update_self ..) writtenLength restHolds ?_ ?_⟩
        · rw [restFlat, flatten_cons, bytesEq, splice_append_left _ (by omega), writtenDef,
            take_of_length_le (by omega)]
        · intro path other
          exact update_of_ne (not_or.mp (mem_cons.not.mp other)).1 _ _
      · rw [if_neg last]
        simp only [writeRanges, found, step]
        have exhausted : min data.length (file.length - offset) = file.length - offset := by omega
        rw [exhausted] at writtenDef last ⊢
        obtain ⟨after, done, effect⟩ := @ih _ 0 (data.drop (file.length - offset)) distinct
          restHolds (by rw [length_drop]; omega) (by rw [length_drop]; omega)
        rw [length_drop] at done
        have first : after file.name = some written := (effect.others _ absent).trans (update_self ..)
        refine ⟨after, done, WritesRange.cons first writtenLength effect.holds ?_ ?_⟩
        · rw [effect.flat, restFlat, flatten_cons, bytesEq,
            splice_append_across (by omega) (by omega), writtenDef, length]
        · intro path other
          simp only [map_cons, mem_cons, not_or] at other
          exact (effect.others path other.2).trans (update_of_ne other.1 _ _)

theorem readRanges_resolve {offset length : Nat} (holds : Holds files disk) (positive : 0 < length)
    (inside : offset + length ≤ totalCapacity files) :
    readRanges disk (resolveFileRanges files offset length) =
      .ok (slice (flatten files disk) offset length) := by
  induction files generalizing offset length with
  | nil =>
    simp only [totalCapacity, map_nil, sum_nil] at inside
    omega
  | cons file files ih =>
    obtain ⟨bytes, found, bytesLength⟩ := holds file mem_cons_self
    have bytesEq : fileBytes disk file = bytes := by rw [fileBytes, found, Option.getD_some]
    have capacity : totalCapacity (file :: files) = file.length + totalCapacity files := rfl
    rw [flatten_cons, bytesEq, slice_append]
    unfold resolveFileRanges
    by_cases beyond : file.length ≤ offset
    · have none : slice bytes offset length = [] := eq_nil_of_length_eq_zero (by rw [slice_length]; omega)
      rw [if_pos beyond, ih holds.tail positive (by omega), none, nil_append, bytesLength,
        Nat.sub_eq_zero_of_le beyond, Nat.sub_zero]
    · rw [if_neg beyond]
      simp only [readRanges, found]
      rw [if_neg (by omega)]
      have part : slice bytes offset (min length (file.length - offset)) = slice bytes offset length := by
        rw [slice, slice, ← bytesLength, ← length_drop, ← take_eq_take_min]
      by_cases last : length - min length (file.length - offset) = 0
      · have none : length - (bytes.length - offset) = 0 := by omega
        rw [if_pos last, none, part]
        simp [readRanges, slice, bind, Except.bind, pure, Except.pure]
      · have rest : length - min length (file.length - offset) = length - (bytes.length - offset) := by
          omega
        rw [if_neg last, ih holds.tail (by omega) (by omega), part, rest, show offset - bytes.length = 0 by omega]
        rfl

/-- The segments are consecutive non-empty parts of `[start, start + length)`, each inside
the file it names, and they end with the range. -/
def Tiles (files : Files) : List TargetFileRange → Nat → Nat → Prop
  | [], _, length => length = 0
  | range :: ranges, start, length =>
    (0 < range.ioLength ∧ range.ioLength ≤ length ∧
      ∃ file ∈ files, file.name = range.filePath ∧ file.offset + range.seekOffset = start ∧
        range.seekOffset + range.ioLength ≤ file.length) ∧
    Tiles files ranges (start + range.ioLength) (length - range.ioLength)

theorem Tiles.sum {ranges : List TargetFileRange} {start length : Nat} (tiles : Tiles files ranges start length) :
    (ranges.map fun range => range.ioLength).sum = length := by
  induction ranges generalizing start length with
  | nil => exact tiles.symm
  | cons range ranges ih =>
    obtain ⟨⟨_, fits, _⟩, rest⟩ := tiles
    rw [map_cons, sum_cons, ih rest]
    omega

theorem resolveFileRanges_tiles {all : Files} {base offset length : Nat}
    (contiguous : ContiguousFrom base files) (part : ∀ file ∈ files, file ∈ all)
    (positive : 0 < length) (inside : offset + length ≤ totalCapacity files) :
    Tiles all (resolveFileRanges files offset length) (base + offset) length := by
  induction files generalizing base offset length with
  | nil =>
    simp only [totalCapacity, map_nil, sum_nil] at inside
    omega
  | cons file files ih =>
    obtain ⟨fileOffset, contiguous⟩ := contiguous
    have capacity : totalCapacity (file :: files) = file.length + totalCapacity files := rfl
    have restPart : ∀ other ∈ files, other ∈ all := fun other member =>
      part other (mem_cons_of_mem _ member)
    unfold resolveFileRanges
    by_cases beyond : file.length ≤ offset
    · have rest := @ih _ (offset - file.length) length contiguous restPart positive (by omega)
      rw [show base + file.length + (offset - file.length) = base + offset by omega] at rest
      rwa [if_pos beyond]
    · rw [if_neg beyond]
      refine ⟨⟨by simp only; omega, by simp only; omega, file, part file mem_cons_self, rfl,
        by simp only; omega, by simp only; omega⟩, ?_⟩
      by_cases last : length - min length (file.length - offset) = 0
      · rw [if_pos last]
        exact last
      · have rest := @ih _ 0 (length - min length (file.length - offset)) contiguous restPart
          (by omega) (by omega)
        rw [show base + file.length + 0 = base + offset + min length (file.length - offset) by omega]
          at rest
        rwa [if_neg last]

/-- Reads, writes and segments of any range inside the files are those of one flat array. -/
theorem refines_flat (layout : Layout files) (holds : Holds files disk) (offset : Nat) :
    (∀ data, offset + data.length ≤ totalCapacity files →
      ∃ after, writeBlock files disk offset data = (after, .ok ()) ∧
        WritesRange files disk after offset data) ∧
    (∀ buffer, offset + buffer.length ≤ totalCapacity files →
      readBlock files disk offset buffer =
        .ok (buffer.length, slice (flatten files disk) offset buffer.length)) ∧
    (∀ length, 0 < length → offset + length ≤ totalCapacity files →
      Tiles files (resolveFileRanges files offset length) offset length) := by
  have bounded := layout.representable
  have segments : ∀ length, 0 < length → offset + length ≤ totalCapacity files →
      Tiles files (resolveFileRanges files offset length) offset length := by
    intro length positive inside
    have tiles := resolveFileRanges_tiles layout.contiguous (fun _ member => member) positive inside
    rwa [Nat.zero_add] at tiles
  refine ⟨?_, ?_, segments⟩
  · intro data inside
    unfold writeBlock
    cases data with
    | nil =>
      refine ⟨disk, rfl, holds, ?_, fun _ _ => rfl⟩
      simp [splice]
    | cons byte rest =>
      have positive : 0 < (byte :: rest).length := Nat.succ_pos _
      have total := (segments _ positive inside).sum
      obtain ⟨after, done, effect⟩ := writeRanges_resolve layout.distinct holds positive inside
      rw [isEmpty_cons, if_neg Bool.false_ne_true, if_neg (by omega), if_neg (by omega)]
      simp only [total, Nat.lt_irrefl, if_false]
      exact ⟨after, done, effect⟩
  · intro buffer inside
    unfold readBlock
    cases buffer with
    | nil => simp [slice]
    | cons byte rest =>
      have positive : 0 < (byte :: rest).length := Nat.succ_pos _
      have total := (segments _ positive inside).sum
      have read := readRanges_resolve holds positive inside
      rw [isEmpty_cons, if_neg Bool.false_ne_true, if_neg (by omega), if_neg (by omega)]
      simp only [total, Nat.lt_irrefl, if_false, read]
      rfl

/-- A layout with an empty file between two others. -/
def threeFiles : Files :=
  [{ name := "a", length := 2, offset := 0, piecesRoot := none },
    { name := "b", length := 0, offset := 2, piecesRoot := none },
    { name := "c", length := 3, offset := 2, piecesRoot := none }]

def threeFilesDisk : Disk
  | "a" => some [0, 0]
  | "b" => some []
  | "c" => some [0, 0, 0]
  | _ => none

theorem refines_flat_across_empty_file :
    ∃ after, writeBlock threeFiles threeFilesDisk 1 [7, 8, 9] = (after, .ok ()) ∧
      flatten threeFiles after = [0, 7, 8, 9, 0] := by
  have layout : Layout threeFiles :=
    ⟨⟨rfl, rfl, rfl, trivial⟩, by decide, by decide⟩
  have holds : Holds threeFiles threeFilesDisk := by
    intro file member
    simp only [threeFiles, mem_cons, not_mem_nil, or_false] at member
    rcases member with rfl | rfl | rfl
    · exact ⟨[0, 0], rfl, rfl⟩
    · exact ⟨[], rfl, rfl⟩
    · exact ⟨[0, 0, 0], rfl, rfl⟩
  obtain ⟨after, done, effect⟩ := (refines_flat layout holds 1).1 [7, 8, 9] (by decide)
  exact ⟨after, done, effect.flat⟩

end DiskBlockStorage

end BitTorrent
