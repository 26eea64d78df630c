import BitTorrent.Core.FileRecords
import BitTorrent.Utils.TokenRuns

/-! # Parsing a torrent that is well formed

The parser on a root dictionary whose values it reads whole, as a fold over the entries.
-/

namespace BitTorrent

open Bencode BNode List

namespace BNode

def isScalar : BNode → Bool
  | .number _ | .string _ => true
  | _ => false

def isString : BNode → Bool
  | .string _ => true
  | _ => false

theorem eq_string_of_isString {node : BNode} (string : node.isString = true) : ∃ bytes, node = .string bytes := by
  cases node with
  | dictionary entries => cases string
  | list items => cases string
  | number digits => cases string
  | string bytes => exact ⟨bytes, rfl⟩

/-- The bytes of a string or of a number. -/
def scalarBytes : BNode → Option Bytes
  | .number digits => some digits
  | .string bytes => some bytes
  | _ => none

def stringBytes : BNode → Option Bytes
  | .string bytes => some bytes
  | _ => none

def listItems : BNode → List BNode
  | .list items => items
  | _ => []

def dictEntries : BNode → Entries
  | .dictionary entries => entries
  | _ => []

theorem isScalar_cases {node : BNode} (scalar : node.isScalar = true) :
    (∃ digits, node = .number digits) ∨ ∃ bytes, node = .string bytes := by
  cases node with
  | dictionary entries => cases scalar
  | list items => cases scalar
  | number digits => exact .inl ⟨digits, rfl⟩
  | string bytes => exact .inr ⟨bytes, rfl⟩

end BNode

/-- Whether the branch for a root key goes to the end of the value.  That of `url-list` passes over
the items that are no strings token by token, and so does that of `piece layers` with its values. -/
def readsWhole (entry : Bytes × BNode) : Bool :=
  match entry.2 with
  | .list items =>
    if entry.1 = ascii "url-list" then items.all BNode.isScalar else decide (entry.1 ≠ ascii "piece layers")
  | .dictionary layers => decide (entry.1 ≠ ascii "piece layers") || layers.all fun layer => layer.2.isString
  | _ => true

theorem foldlM_append_mapM {ι β : Type} (listOf : ι → Option (List β)) (items : List ι) (found : List β) :
    items.foldlM (fun found item => (listOf item).map (found ++ ·)) found =
      (items.mapM listOf).map fun lists => found ++ lists.flatten := by
  induction items generalizing found with
  | nil => simp
  | cons item items ih =>
    rw [foldlM_cons, mapM_cons]
    cases listOf item with
    | none => rfl
    | some first =>
      simp only [Option.map_some, Option.bind_eq_bind, Option.bind_some, ih]
      cases items.mapM listOf with
      | none => rfl
      | some others => simp

namespace MetaInfoFile

variable {digests : Digests} {file : MetaInfoFile} {value : BNode} {rest : Bytes} {next : MetaInfoFile}

section Entries

theorem parseField_run {message : String} {key : Bytes} (delimited : Delimited value) :
    (parseField message file key (spell value ++ rest)).toOption =
      if value.fits then value.scalarBytes.map fun bytes => (file.insert (fromUtf8Lossy key) bytes, rest) else none := by
  rw [parseField, toOption_bind, expectToken_run delimited]
  cases value with
  | dictionary entries => cases (dictionary entries).fits <;> rfl
  | list items => cases (list items).fits <;> rfl
  | number digits =>
    rw [headFits, fits]
    cases numberFits digits with
    | false => rfl
    | true => rfl
  | string bytes =>
    rw [headFits, fits]
    cases decide (bytes.length ≤ maxStringLen) with
    | false => rfl
    | true => rfl

theorem expectStart_run {start : BencodeToken} {message : String} (delimited : Delimited value)
    (container : start = .dictStart ∨ start = .listStart) :
    (expectStart start message (spell value ++ rest)).toOption =
      if value.token = start then some (value.body ++ rest) else none := by
  rw [expectStart, toOption_bind, expectToken_run delimited]
  by_cases same : value.token = start
  · have flat : value.headFits = true := by
      cases value with
      | dictionary entries => rfl
      | list items => rfl
      | _ => rcases container with rfl | rfl <;> cases same
    rw [if_pos same, if_pos flat, Option.bind_some]
    dsimp only
    rw [if_pos same]
    rfl
  · rw [if_neg same]
    split
    case isTrue =>
      rw [Option.bind_some]
      dsimp only
      rw [if_neg same]
      rfl
    case isFalse => rfl

theorem skipEntry_run (delimited : Delimited value) :
    (skipEntry file (spell value ++ rest)).toOption = if value.fits then some (file, rest) else none := by
  rw [skipEntry, toOption_bind, expectToken_run delimited]
  cases head : value.headFits with
  | false =>
    have unfit : value.fits = false := by
      cases good : value.fits with
      | false => rfl
      | true => rw [headFits_of_fits good] at head; cases head
    rw [unfit]
    rfl
  | true =>
    rw [if_pos rfl, Option.bind_some, toOption_bind, skipValue_run delimited head]
    cases value.fits with
    | false => rfl
    | true => rfl

def tierUrl (item : BNode) : Option (List Text) :=
  if item.headFits then item.stringBytes.map fun url => [fromUtf8Lossy url] else none

def tier : BNode → Option (List Text)
  | .list urls => (urls.mapM tierUrl).map flatten
  | _ => none

def tiers : BNode → Option (List Text)
  | .list items => (items.mapM tier).map flatten
  | _ => none

variable {items : List BNode}

theorem lists_run {parse : List Text → BencodeToken → Bytes → Result (List Text × Bytes)}
    {read : BNode → Option (List Text)} (delimited : ∀ item ∈ items, Delimited item)
    (unread : ∀ item, item.headFits = false → read item = none)
    (each : ∀ item ∈ items, item.headFits = true → ∀ found rest, (parse found item.token (item.body ++ rest)).toOption =
      (read item).map fun list => (found ++ list, rest)) (found : List Text) :
    (readUntilEnd true parse found (items.flatMap spell ++ 101 :: rest)).toOption =
      (items.mapM read).map fun lists => (found ++ lists.flatten, rest) := by
  have same : (fun (found : List Text) (item : BNode) => if item.headFits then (read item).map (found ++ ·) else none) =
      fun found item => (read item).map (found ++ ·) := by
    funext found item
    cases head : item.headFits with
    | false => simp [unread item head]
    | true => rfl
  rw [readUntilEnd_values_run (fun found item => (read item).map (found ++ ·)) delimited, same, foldlM_append_mapM,
    Option.map_map]
  · rfl
  · intro item member head found rest
    rw [each item member head, Option.map_map]
    rfl

theorem tierUrls_run {urls : List BNode} (delimited : ∀ url ∈ urls, Delimited url) (found : List Text) :
    (readUntilEnd true parseTierUrl found (urls.flatMap spell ++ 101 :: rest)).toOption =
      (urls.mapM tierUrl).map fun lists => (found ++ lists.flatten, rest) := by
  apply lists_run delimited
  · intro url head
    simp [tierUrl, head]
  · intro url member head found rest
    rw [tierUrl, if_pos head]
    cases url with
    | dictionary entries => rfl
    | list items => rfl
    | number digits => rfl
    | string bytes => rfl

theorem tiers_run (delimited : ∀ item ∈ items, Delimited item) (found : List Text) :
    (readUntilEnd true parseTier found (items.flatMap spell ++ 101 :: rest)).toOption =
      (items.mapM tier).map fun lists => (found ++ lists.flatten, rest) := by
  apply lists_run delimited
  · intro item head
    cases item with
    | dictionary entries => rfl
    | list items => cases head
    | number digits => rfl
    | string bytes => rfl
  · intro item member _ found rest
    cases delimited item member with
    | dictionary each => rfl
    | number plain => rfl
    | string bytes => rfl
    | @list urls each =>
      rw [token, parseTier, if_pos rfl, body, append_assoc, singleton_append, tierUrls_run each, tier,
        Option.map_map]
      rfl

/-- An item of a `url-list`; numbers are passed over. -/
def webSeed (item : BNode) : Option (List Text) :=
  if item.headFits then some (item.stringBytes.map fromUtf8Lossy).toList else none

def webSeeds : BNode → Option Bytes
  | .string url => if (string url).headFits then some url else none
  | .list items => (items.mapM webSeed).map fun lists => joinUrls lists.flatten
  | _ => none

theorem webSeeds_run (delimited : ∀ item ∈ items, Delimited item)
    (scalar : ∀ item ∈ items, item.isScalar = true) (found : List Text) :
    (readUntilEnd true parseWebSeed found (items.flatMap spell ++ 101 :: rest)).toOption =
      (items.mapM webSeed).map fun lists => (found ++ lists.flatten, rest) := by
  apply lists_run delimited
  · intro item head
    simp [webSeed, head]
  · intro item member head found rest
    rw [webSeed, if_pos head]
    cases item with
    | dictionary entries => cases scalar _ member
    | list items => cases scalar _ member
    | number digits =>
      simp only [stringBytes, Option.map_none, Option.toList_none, append_nil, Option.map_some]
      rfl
    | string bytes => rfl

def addLayer (file : MetaInfoFile) (layer : Bytes × BNode) : MetaInfoFile :=
  file.addPieceLayer layer.1 (layer.2.stringBytes.getD [])

theorem pieceLayers_run {layers : Entries} {rounds : Nat} (strings : ∀ layer ∈ layers, layer.2.isString = true)
    (enough : layers.length < rounds) :
    (parsePieceLayers rounds file (layers.flatMap spellPair ++ 101 :: rest)).toOption =
      if layers.all pairFits then some (layers.foldl addLayer file, rest) else none := by
  induction layers generalizing file rounds with
  | nil =>
    cases rounds with
    | zero => cases enough
    | succ rounds => rfl
  | cons layer layers ih =>
    obtain ⟨key, value⟩ := layer
    obtain ⟨bytes, rfl⟩ := eq_string_of_isString (strings _ mem_cons_self)
    cases rounds with
    | zero => cases enough
    | succ rounds =>
      obtain ⟨read, found, outcome⟩ := @nextToken_run (.string key)
        (spell (.string bytes) ++ (layers.flatMap spellPair ++ 101 :: rest)) (.string key)
      rw [spell] at found
      rw [headFits] at outcome
      rw [flatMap_cons, spellPair, append_assoc, append_assoc, parsePieceLayers, found, all_cons,
        pairFits]
      generalize decide (key.length ≤ maxStringLen) = short at outcome ⊢
      cases read with
      | error reason =>
        cases short with
        | true => cases outcome
        | false => rfl
      | ok read =>
        cases short with
        | false => cases outcome
        | true =>
          cases outcome
          have value := @expectToken_run (.string bytes) (layers.flatMap spellPair ++ 101 :: rest) (.string bytes)
          change (expectToken (spell (.string bytes) ++ (layers.flatMap spellPair ++ 101 :: rest)) >>= _).toOption = _
          rw [toOption_bind, value, headFits, fits, Bool.true_and]
          generalize decide (bytes.length ≤ maxStringLen) = good
          cases good with
          | false => rfl
          | true =>
            exact ih (fun other member => strings other (mem_cons_of_mem _ member))
              (Nat.lt_of_succ_lt_succ enough)

/-- The effect of an entry of the root whose value is read whole. -/
def rootEffect (digests : Digests) (file : MetaInfoFile) (entry : Bytes × BNode) : Option MetaInfoFile :=
  if entry.1 ∈ rootFields then
    if entry.2.fits then entry.2.scalarBytes.map (file.insert (fromUtf8Lossy entry.1)) else none
  else if entry.1 = ascii "announce-list" then
    (tiers entry.2).map fun urls => file.insert (text "announce-list") (joinUrls urls)
  else if entry.1 = ascii "url-list" then (webSeeds entry.2).map (file.insert (text "url-list"))
  else if entry.1 = ascii "piece layers" then
    if entry.2.fits then some (entry.2.dictEntries.foldl addLayer file) else none
  else if entry.1 = ascii "info" then
    match entry.2 with
    | .dictionary info =>
      if entry.2.fits then
        (readUntilEnd false parseInfoEntry file (info.flatMap spellPair ++ [101])).toOption.map fun read =>
          read.1.addInfoHash digests (spell entry.2)
      else none
    | _ => none
  else if entry.2.fits then some file else none

theorem rootEffect_urls : rootEffect digests file (ascii "url-list", value) =
    (webSeeds value).map (file.insert (text "url-list")) := by
  have unknown : ascii "url-list" ∉ rootFields := by decide
  have notTiers : ascii "url-list" ≠ ascii "announce-list" := by decide
  rw [rootEffect, if_neg unknown, if_neg notTiers, if_pos rfl]

theorem rootEffect_layers : rootEffect digests file (ascii "piece layers", value) =
    if value.fits then some (value.dictEntries.foldl addLayer file) else none := by
  have unknown : ascii "piece layers" ∉ rootFields := by decide
  have notTiers : ascii "piece layers" ≠ ascii "announce-list" := by decide
  have notUrls : ascii "piece layers" ≠ ascii "url-list" := by decide
  rw [rootEffect, if_neg unknown, if_neg notTiers, if_neg notUrls, if_pos rfl]

theorem rootEffect_info_branch : rootEffect digests file (ascii "info", value) =
    match value with
    | .dictionary info =>
      if value.fits then
        (readUntilEnd false parseInfoEntry file (info.flatMap spellPair ++ [101])).toOption.map fun read =>
          read.1.addInfoHash digests (spell value)
      else none
    | _ => none := by
  have unknown : ascii "info" ∉ rootFields := by decide
  have notTiers : ascii "info" ≠ ascii "announce-list" := by decide
  have notUrls : ascii "info" ≠ ascii "url-list" := by decide
  have notLayers : ascii "info" ≠ ascii "piece layers" := by decide
  rw [rootEffect, if_neg unknown, if_neg notTiers, if_neg notUrls, if_neg notLayers, if_pos rfl]

section

variable (delimited : Delimited value)
include delimited

theorem announceList_run :
    (parseRootEntry digests file (.string (ascii "announce-list")) (spell value ++ rest)).toOption =
      (rootEffect digests file (ascii "announce-list", value)).map fun next => (next, rest) := by
  have unknown : ascii "announce-list" ∉ rootFields := by decide
  rw [parseRootEntry_tiers, rootEffect, if_neg unknown, if_pos rfl, toOption_bind, expectStart_run delimited (.inr rfl)]
  cases delimited with
  | dictionary each => rfl
  | number plain => rfl
  | string bytes => rfl
  | @list items each =>
    change (readUntilEnd true parseTier [] ((list items).body ++ rest) >>= _).toOption = _
    rw [toOption_bind, body, append_assoc, singleton_append, tiers_run each, tiers, Option.map_map,
      Option.map_map]
    cases items.mapM tier with
    | none => rfl
    | some lists => rfl

theorem urlList_run (whole : readsWhole (ascii "url-list", value) = true) :
    (parseRootEntry digests file (.string (ascii "url-list")) (spell value ++ rest)).toOption =
      (rootEffect digests file (ascii "url-list", value)).map fun next => (next, rest) := by
  rw [parseRootEntry_urls, rootEffect_urls, toOption_bind, expectToken_run delimited]
  cases delimited with
  | dictionary each => rfl
  | @number digits plain =>
    rw [headFits]
    cases numberFits digits with
    | false => rfl
    | true => rfl
  | string bytes =>
    rw [webSeeds, headFits]
    cases decide (bytes.length ≤ maxStringLen) with
    | false => rfl
    | true => rfl
  | @list items each =>
    simp only [readsWhole, if_true, all_eq_true] at whole
    change (readUntilEnd true parseWebSeed [] ((list items).body ++ rest) >>= _).toOption = _
    rw [toOption_bind, body, append_assoc, singleton_append, webSeeds_run each whole, webSeeds,
      Option.map_map, Option.map_map]
    cases items.mapM webSeed with
    | none => rfl
    | some lists => rfl

theorem layers_run (whole : readsWhole (ascii "piece layers", value) = true) :
    (parseRootEntry digests file (.string (ascii "piece layers")) (spell value ++ rest)).toOption =
      (rootEffect digests file (ascii "piece layers", value)).map fun next => (next, rest) := by
  rw [parseRootEntry_layers, rootEffect_layers, toOption_bind, expectToken_run delimited]
  cases delimited with
  | list each => cases whole
  | @number digits plain =>
    rw [headFits, fits]
    cases numberFits digits with
    | false => rfl
    | true => rfl
  | string bytes =>
    rw [headFits, fits]
    cases decide (bytes.length ≤ maxStringLen) with
    | false => rfl
    | true => rfl
  | @dictionary layers each =>
    rw [readsWhole, Bool.or_eq_true, all_eq_true] at whole
    have strings := whole.resolve_left fun other => of_decide_eq_true other rfl
    change (parsePieceLayers ((dictionary layers).body ++ rest).length.succ file _).toOption = _
    have enough : layers.length < ((dictionary layers).body ++ rest).length.succ := by
      have size := length_le_flatMap fun entry (_ : entry ∈ layers) => spellPair_ne_nil entry
      rw [body, append_assoc, length_append]
      omega
    generalize ((dictionary layers).body ++ rest).length.succ = rounds at enough ⊢
    rw [body, append_assoc, singleton_append, pieceLayers_run strings enough, fits_dictionary]
    cases layers.all pairFits with
    | false => rfl
    | true => rfl

theorem info_run :
    (parseRootEntry digests file (.string (ascii "info")) (spell value ++ rest)).toOption =
      (rootEffect digests file (ascii "info", value)).map fun next => (next, rest) := by
  rw [parseRootEntry_info, rootEffect_info_branch, parseInfo, toOption_bind, expectToken_run delimited]
  cases good : value.fits with
  | false =>
    cases head : value.headFits with
    | false =>
      cases value <;> rfl
    | true =>
      rw [if_pos rfl, Option.bind_some, toOption_bind, skipValue_run delimited head, good]
      cases value <;> rfl
  | true =>
    have head := headFits_of_fits good
    rw [if_pos head, Option.bind_some, toOption_bind, skipValue_run delimited head, if_pos good, Option.bind_some]
    rw [length_append, Nat.add_sub_cancel, take_left, toOption_bind, ← append_nil (spell value),
      expectStart_run delimited (.inl rfl)]
    cases value with
    | list items => rfl
    | number digits => rfl
    | string bytes => rfl
    | dictionary info =>
      have opens : (dictionary info).token = .dictStart := rfl
      rw [if_pos opens, Option.bind_some, toOption_bind, append_nil, append_nil, body]
      dsimp only
      cases readUntilEnd false parseInfoEntry file (info.flatMap spellPair ++ [101]) with
      | error reason => rfl
      | ok read => rfl

end

theorem parseRootEntry_run {entry : Bytes × BNode} (delimited : Delimited entry.2) (whole : readsWhole entry = true) :
    (parseRootEntry digests file (.string entry.1) (spell entry.2 ++ rest)).toOption =
      (rootEffect digests file entry).map fun next => (next, rest) := by
  obtain ⟨key, value⟩ := entry
  by_cases tiers : key = ascii "announce-list"
  · cases tiers
    exact announceList_run delimited
  by_cases urls : key = ascii "url-list"
  · cases urls
    exact urlList_run delimited whole
  by_cases layers : key = ascii "piece layers"
  · cases layers
    exact layers_run delimited whole
  by_cases info : key = ascii "info"
  · cases info
    exact info_run delimited
  rw [parseRootEntry, rootEffect, if_neg tiers, if_neg tiers, if_neg urls, if_neg urls, if_neg layers, if_neg layers,
    if_neg info, if_neg info]
  split
  case isTrue =>
    rw [parseField_run delimited]
    cases value.fits with
    | false => rfl
    | true =>
      rw [if_pos rfl, if_pos rfl, Option.map_map]
      rfl
  case isFalse =>
    rw [skipEntry_run delimited]
    cases value.fits with
    | false => rfl
    | true => rfl

end Entries

section Limits

theorem fits_of_mapM {β : Type} {convert : BNode → Option β} {found : List β} (all : items.mapM convert = some found)
    (each : ∀ item ∈ items, ∀ value, convert item = some value → item.fits = true) : (list items).fits = true := by
  rw [fits_list]
  induction items generalizing found with
  | nil => rfl
  | cons item items ih =>
    rw [mapM_cons, Option.bind_eq_bind, Option.bind_eq_some_iff] at all
    obtain ⟨value, first, all⟩ := all
    rw [Option.bind_eq_bind, Option.bind_eq_some_iff] at all
    obtain ⟨others, rest, _⟩ := all
    rw [all_cons, each item mem_cons_self value first, ih rest fun other member => each other (mem_cons_of_mem _ member)]
    rfl

theorem fits_of_tierUrl {item : BNode} {urls : List Text} (found : tierUrl item = some urls) : item.fits = true := by
  obtain ⟨head, found⟩ := Option.ite_none_right_eq_some.mp found
  cases item with
  | string bytes => exact head
  | dictionary entries => cases found
  | list items => cases found
  | number digits => cases found

theorem fits_of_tiers {urls : List Text} (found : tiers value = some urls) : value.fits = true := by
  cases value with
  | string bytes => cases found
  | dictionary entries => cases found
  | number digits => cases found
  | list items =>
    obtain ⟨lists, all, _⟩ := Option.map_eq_some_iff.mp found
    refine fits_of_mapM all fun item _ urls one => ?_
    cases item with
    | string bytes => cases one
    | dictionary entries => cases one
    | number digits => cases one
    | list inner =>
      obtain ⟨parts, each, _⟩ := Option.map_eq_some_iff.mp one
      exact fits_of_mapM each fun url _ _ => fits_of_tierUrl

theorem fits_of_webSeeds {urls : Bytes} (whole : readsWhole (ascii "url-list", value) = true)
    (found : webSeeds value = some urls) : value.fits = true := by
  cases value with
  | dictionary entries => cases found
  | number digits => cases found
  | string bytes => exact (Option.ite_none_right_eq_some.mp found).1
  | list items =>
    simp only [readsWhole, if_true, all_eq_true] at whole
    obtain ⟨lists, all, _⟩ := Option.map_eq_some_iff.mp found
    refine fits_of_mapM all fun item member _ one => ?_
    have scalar := whole item member
    have head := (Option.ite_none_right_eq_some.mp one).1
    cases item with
    | dictionary entries => cases scalar
    | list items => cases scalar
    | number digits => exact head
    | string bytes => exact head

end Limits

variable {entries : Entries}

theorem parse_run (delimited : ∀ entry ∈ entries, Delimited entry.2)
    (whole : ∀ entry ∈ entries, readsWhole entry = true) :
    (parse digests (.fromBytes (spell (.dictionary entries) ++ rest))).toOption =
      (entries.foldlM (keyed (rootEffect digests)) (.fromBytes (spell (.dictionary entries) ++ rest))).bind fun file =>
        file.checkFields.toOption.map fun _ => { file with parsed := true } := by
  have start : nextToken (fromBytes (spell (.dictionary entries) ++ rest)).metaInfoData =
      some (.ok (.dictStart, entries.flatMap spellPair ++ 101 :: rest)) := by
    rw [fromBytes, spell_dictionary, append_assoc, cons_append]
    rfl
  rw [parse, start]
  dsimp only
  rw [if_pos rfl, toOption_bind, readUntilEnd_entries_run (rootEffect digests) fun entry member _ _ =>
    parseRootEntry_run (delimited entry member) (whole entry member)]
  cases entries.foldlM (keyed (rootEffect digests)) _ with
  | none => rfl
  | some file =>
    rw [Option.map_some, Option.bind_some, Option.bind_some, toOption_bind]
    cases file.checkFields with
    | error reason => rfl
    | ok checked => rfl

theorem foldlM_each {σ ι : Type} {step : σ → ι → Option σ} {items : List ι} {state last : σ}
    (run : items.foldlM step state = some last) : ∀ item ∈ items, ∃ before after, step before item = some after := by
  induction items generalizing state with
  | nil => exact fun _ member => absurd member not_mem_nil
  | cons item items ih =>
    rw [foldlM_cons, Option.bind_eq_bind, Option.bind_eq_some_iff] at run
    obtain ⟨next, first, rest⟩ := run
    exact forall_mem_cons.mpr ⟨⟨state, next, first⟩, ih rest⟩

theorem readsWhole_of_ne {key : Bytes} (value : BNode) (seeds : key ≠ ascii "url-list") (layers : key ≠ ascii "piece layers") :
    readsWhole (key, value) = true := by
  cases value <;> simp [readsWhole, seeds, layers]

section

variable (delimited : ∀ entry ∈ entries, Delimited entry.2)
include delimited

section

variable (whole : ∀ entry ∈ entries, readsWhole entry = true)
  (parsed : parse digests (.fromBytes (spell (.dictionary entries) ++ rest)) = .ok file)
include whole parsed

theorem run_of_parse :
    ∃ last, entries.foldlM (keyed (rootEffect digests)) (.fromBytes (spell (.dictionary entries) ++ rest)) = some last ∧
      file = { last with parsed := true } := by
  rw [← toOption_eq_some, parse_run delimited whole, Option.bind_eq_some_iff] at parsed
  obtain ⟨last, run, checked⟩ := parsed
  obtain ⟨_, _, rfl⟩ := Option.map_eq_some_iff.mp checked
  exact ⟨last, run, rfl⟩

theorem info_of_parse (member : (ascii "info", value) ∈ entries) : ∃ info, value = .dictionary info := by
  obtain ⟨last, run, _⟩ := run_of_parse delimited whole parsed
  obtain ⟨before, after, step⟩ := foldlM_each run _ member
  have step := (Option.ite_none_right_eq_some.mp step).2
  cases value with
  | dictionary info => exact ⟨info, rfl⟩
  | list items => cases step
  | number digits => cases step
  | string bytes => cases step

end

end

end MetaInfoFile

end BitTorrent
