import BitTorrent.Core.FileListFidelity

/-! # The fields of a parsed torrent

Where each field of a torrent comes from, and when the parser finds all it needs.
-/

namespace BitTorrent

open Bencode BNode

namespace MetaInfoFile

variable {digests : Digests} {file next : MetaInfoFile} {bytes : Bytes}

section Fields

variable {name : Text}

section

variable (known : name ∈ rootNames)
include known

theorem infoLoop_get {input left : Bytes}
    (done : readUntilEnd false parseInfoEntry file input = .ok (next, left)) (raw : Bytes) :
    (next.addInfoHash digests raw).get name = file.get name := by
  have other : ¬FileKey name := fun fileKey => fileKey.not_mem (by decide) (by decide) known
  have unread : ∀ field ∈ infoFields, name ≠ fromUtf8Lossy field := by
    intro field isField same
    exact lossy_not_mem isField (by decide) (same ▸ known)
  have apart : ∀ hash ∈ hashNames, hash ∉ rootNames := by decide
  rw [get_addInfoHash_other raw fun isHash => apart name isHash known]
  exact untilEnd_keeps (fun state : MetaInfoFile => state.get name = file.get name)
    (fun _ _ _ _ _ same ran => (parseInfoEntry_get other unread ran).trans same) rfl done

theorem rootEffect_get {entry : Bytes × BNode} (other : entry.1 ≠ utf8 name)
    (found : rootEffect digests file entry = some next) : next.get name = file.get name := by
  cases (rootEffect_step found).1 with
  | field own bytes _ key _ set =>
    rw [set, get_insert_of_ne]
    intro same
    exact other (by rw [same, key])
  | other _ _ same => exact same name
  | info input raw left read _ loop set =>
    rw [set]
    exact infoLoop_get known loop raw

theorem rootEffect_kept {value : BNode}
    (found : rootEffect digests file (utf8 name, value) = some next) : next.get name = keptValue (utf8 name) value := by
  cases (rootEffect_step found).1 with
  | field own bytes _ key kept set =>
    have same : own = name := utf8_injective key
    rw [set, same, get_insert_self, kept]
  | other _ unkept _ => exact absurd rfl (unkept name known)
  | info _ _ _ _ isInfo _ _ =>
    have apart : ∀ name ∈ rootNames, utf8 name ≠ ascii "info" := by decide
    exact absurd isInfo (apart name known)

theorem get_of_run {entries : Entries} (distinct : (entries.map Prod.fst).Nodup)
    (run : entries.foldlM (keyed (rootEffect digests)) (.fromBytes bytes) = some file) :
    file.get name = ((dictionary entries).dictGet (utf8 name)).bind (keptValue (utf8 name)) := by
  have result := MetaInfoFile.foldlM_entry (fun file : MetaInfoFile => file.get name) (utf8 name)
    (fun value _ => keptValue (utf8 name) value)
    (fun state value next step => rootEffect_kept known (Option.ite_none_right_eq_some.mp step).2)
    (fun state entry next other step => rootEffect_get known other (Option.ite_none_right_eq_some.mp step).2) distinct run
  rw [result]
  cases (dictionary entries).dictGet (utf8 name) with
  | none => rfl
  | some value => rfl

end

end Fields

section Info

variable {before after info : Entries} {depth : Nat}

section

variable (proper : Proper depth (.dictionary info)) (readable : ∀ entry ∈ info, ReadableEntry entry)
include proper readable

theorem run_info (once : ∀ entry ∈ before ++ after, entry.1 ≠ ascii "info")
    (run : (before ++ (ascii "info", .dictionary info) :: after).foldlM (keyed (rootEffect digests)) (.fromBytes bytes) =
      some file) :
    ∃ start, (∀ name, name ∉ rootNames → start.get name = none) ∧ ∀ name, name ∉ rootNames →
      file.get name = ((info.foldl applyEntry start).addInfoHash digests (spell (.dictionary info))).get name := by
  obtain ⟨start, read, left, blank, loop, same⟩ := run_reads once run
  rw [info_ok proper readable] at loop
  cases loop
  exact ⟨start, blank, same⟩

end

theorem infoField_of_applied {start : MetaInfoFile} {raw : Bytes} (distinct : (info.map Prod.fst).Nodup)
    (blank : ∀ name, name ∉ rootNames → start.get name = none)
    (applied : ∀ name, name ∉ rootNames → file.get name = ((info.foldl applyEntry start).addInfoHash digests raw).get name)
    {name : String} (plain : (ascii name ∈ infoFields ∧ text name ∈ namedKeys) ∧
      name.toList.all (fun letter => letter.toNat ≤ 127) = true ∧ text name ∉ rootNames ∧ text name ∉ hashNames) :
    file.get (text name) = ((dictionary info).dictGet (ascii name)).bind scalarBytes := by
  obtain ⟨⟨known, named⟩, small, notRoot, notHash⟩ := plain
  rw [applied _ notRoot, get_addInfoHash_other raw notHash]
  exact get_foldl_field distinct known named small (blank _ notRoot)

end Info

section Success

variable {depth : Nat}

/-- An entry of the root that is read to its end. -/
structure ReadableRoot (entry : Bytes × BNode) : Prop where
  fields : entry.1 ∈ rootFields → entry.2.isScalar = true
  tiers : entry.1 = ascii "announce-list" → (tiers entry.2).isSome = true
  seeds : entry.1 = ascii "url-list" → (webSeeds entry.2).isSome = true
  info : entry.1 = ascii "info" → ∃ info, entry.2 = .dictionary info ∧ ∀ field ∈ info, ReadableEntry field

theorem readableRoot_field {key : Bytes} {value : BNode} (known : key ∈ rootFields) (scalar : value.isScalar = true) :
    ReadableRoot (key, value) := by
  have apart : ascii "announce-list" ∉ rootFields ∧ ascii "url-list" ∉ rootFields ∧ ascii "info" ∉ rootFields := by decide
  refine ⟨fun _ => scalar, fun same => ?_, fun same => ?_, fun same => ?_⟩
  · exact absurd (same ▸ known) apart.1
  · exact absurd (same ▸ known) apart.2.1
  · exact absurd (same ▸ known) apart.2.2

theorem readableRoot_info {info : Entries} (each : ∀ field ∈ info, ReadableEntry field) :
    ReadableRoot (ascii "info", .dictionary info) := by
  have unknown : ascii "info" ∉ rootFields := by decide
  have notTiers : ascii "info" ≠ ascii "announce-list" := by decide
  have notUrls : ascii "info" ≠ ascii "url-list" := by decide
  exact ⟨fun known => absurd known unknown, fun same => absurd same notTiers, fun same => absurd same notUrls,
    fun _ => ⟨info, rfl, each⟩⟩

theorem rootEffect_exists {entry : Bytes × BNode} (proper : Proper depth entry.2) (readable : ReadableRoot entry) :
    ∃ next, rootEffect digests file entry = some next := by
  obtain ⟨key, value⟩ := entry
  have good := fits_of_proper proper
  by_cases isInfo : key = ascii "info"
  · cases isInfo
    obtain ⟨info, shape, each⟩ := readable.info rfl
    cases shape
    rw [rootEffect_info_branch]
    dsimp only
    rw [if_pos good, info_ok proper each]
    exact ⟨_, rfl⟩
  rw [rootEffect, if_pos good, if_pos good, if_neg isInfo, if_pos good]
  by_cases isField : key ∈ rootFields
  · rw [if_pos isField]
    rcases isScalar_cases (readable.fields isField) with ⟨digits, shape⟩ | ⟨bytes, shape⟩
    · cases shape
      exact ⟨_, rfl⟩
    · cases shape
      exact ⟨_, rfl⟩
  rw [if_neg isField]
  by_cases announced : key = ascii "announce-list"
  · obtain ⟨urls, found⟩ := Option.isSome_iff_exists.mp (readable.tiers announced)
    rw [if_pos announced, found]
    exact ⟨_, rfl⟩
  rw [if_neg announced]
  by_cases seeds : key = ascii "url-list"
  · obtain ⟨urls, found⟩ := Option.isSome_iff_exists.mp (readable.seeds seeds)
    rw [if_pos seeds, found]
    exact ⟨_, rfl⟩
  rw [if_neg seeds]
  by_cases layers : key = ascii "piece layers"
  · rw [if_pos layers]
    exact ⟨_, rfl⟩
  · rw [if_neg layers]
    exact ⟨_, rfl⟩

theorem run_exists {entries : Entries} (proper : Proper depth (.dictionary entries))
    (readable : ∀ entry ∈ entries, ReadableRoot entry) :
    ∃ next, entries.foldlM (keyed (rootEffect digests)) file = some next := by
  replace proper := proper.entries
  induction entries generalizing file with
  | nil => exact ⟨file, rfl⟩
  | cons entry entries ih =>
    obtain ⟨short, value⟩ := proper entry List.mem_cons_self
    obtain ⟨middle, first⟩ := @rootEffect_exists digests file depth entry value (readable entry List.mem_cons_self)
    obtain ⟨next, rest⟩ := @ih middle (fun other member => readable other (List.mem_cons_of_mem _ member))
      (fun other member => proper other (List.mem_cons_of_mem _ member))
    refine ⟨next, ?_⟩
    rw [List.foldlM_cons, keyed, if_pos short, first]
    exact rest

theorem require_eq_ok {key field : String} : file.require key field = .ok () ↔ (file.get (text key)).isSome = true := by
  rw [require]
  split
  case isTrue found => exact ⟨fun _ => found, fun _ => rfl⟩
  case isFalse absent => exact ⟨fun impossible => (nomatch impossible), fun found => absurd found absent⟩

theorem checkFields_eq_ok (announce : (file.get (text "announce")).isSome = true)
    (name : (file.get (text "name")).isSome = true) (pieceLength : (file.get (text "piece length")).isSome = true)
    (pieces : file.isV2 = true ∨ (file.get (text "pieces")).isSome = true)
    (hash : (file.get (text "info hash")).isSome = true) : file.checkFields = .ok () := by
  rw [checkFields, require_eq_ok.mpr announce, require_eq_ok.mpr name, require_eq_ok.mpr pieceLength,
    require_eq_ok.mpr hash]
  cases version : file.isV2 with
  | true => rfl
  | false =>
    rw [version] at pieces
    rw [require_eq_ok.mpr (pieces.resolve_left Bool.false_ne_true)]
    rfl

theorem infoHash_isSome (raw : Bytes) : ((file.addInfoHash digests raw).get (text "info hash")).isSome = true := by
  rw [addInfoHash]
  split
  case isTrue => rw [get_insert_self]; rfl
  case isFalse =>
    split
    case isTrue => rw [get_insert_self]; rfl
    case isFalse => rw [get_insert_self]; rfl

end Success

end MetaInfoFile

end BitTorrent
