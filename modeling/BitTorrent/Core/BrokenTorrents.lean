import BitTorrent.Core.RootReading

/-! # Broken torrents that are accepted

The loop over the root dictionary also ends at the end of the input, and a value that is passed over
only has to close its brackets.  Which accepted torrents are not a complete dictionary.
-/

namespace BitTorrent

open Bencode BNode Parsing List

section Words

/-- A value of bencode, of any nesting. -/
def WellFormed (node : BNode) : Prop := ∃ depth, Proper depth node

def WellFormedEntry (entry : Bytes × BNode) : Prop := entry.1.length ≤ maxStringLen ∧ WellFormed entry.2

def StartsValue (input : Bytes) : Prop := ∃ node rest, WellFormed node ∧ input = spell node ++ rest

/-- The bytes start with one complete dictionary. -/
def Complete (bytes : Bytes) : Prop :=
  ∃ entries rest, WellFormed (.dictionary entries) ∧ bytes = spell (.dictionary entries) ++ rest

/-- The bytes open a dictionary and go on with whole entries of it. -/
def Leads (bytes : Bytes) (entries : Entries) (rest : Bytes) : Prop :=
  (∀ entry ∈ entries, WellFormedEntry entry) ∧ bytes = 100 :: (entries.flatMap spellPair ++ rest)

variable {node other : BNode} {entries others : Entries} {bytes rest left : Bytes}

theorem wellFormed_dictionary : WellFormed (.dictionary entries) ↔ ∀ entry ∈ entries, WellFormedEntry entry := by
  constructor
  · intro wellFormed entry member
    obtain ⟨depth, proper⟩ := wellFormed
    exact (proper.entries entry member).imp_right fun value => ⟨depth, value⟩
  · intro each
    obtain ⟨depth, below⟩ := exists_proper fun entry member => (each entry member).2
    exact ⟨depth + 1, fun entry member => ⟨(each entry member).1, below entry member⟩⟩

theorem complete_iff : Complete bytes ↔ ∃ entries rest, Leads bytes entries (101 :: rest) := by
  constructor
  · rintro ⟨entries, rest, wellFormed, rfl⟩
    refine ⟨entries, rest, wellFormed_dictionary.mp wellFormed, ?_⟩
    rw [spell_dictionary, append_assoc]
    rfl
  · rintro ⟨entries, rest, each, rfl⟩
    refine ⟨entries, rest, wellFormed_dictionary.mpr each, ?_⟩
    rw [spell_dictionary, append_assoc]
    rfl

theorem WellFormed.unique (first : WellFormed node) (second : WellFormed other)
    (same : spell node ++ rest = spell other ++ left) : node = other ∧ rest = left := by
  obtain ⟨depth, proper⟩ := first
  obtain ⟨depth', proper'⟩ := second
  have one := (renders_word _ _ node).mpr ⟨Proper.le proper (Nat.le_max_left depth depth'), rfl⟩
  have two := (renders_word _ _ other).mpr ⟨Proper.le proper' (Nat.le_max_right depth depth'), rfl⟩
  obtain ⟨value, _, after⟩ := (reads_decodeBNode _).unique one two same
  exact ⟨value, after⟩

theorem encodeString_unique {key name : Bytes} (short : key.length ≤ maxStringLen) (short' : name.length ≤ maxStringLen)
    (same : encodeString key ++ rest = encodeString name ++ left) : key = name ∧ rest = left := by
  obtain ⟨value, _, after⟩ := reads_decodeString.unique ⟨short, rfl⟩ ⟨short', rfl⟩ same
  exact ⟨value, after⟩

theorem encodeString_ne_stop (key : Bytes) : encodeString key ++ rest ≠ 101 :: left := by
  obtain ⟨first, more, shape⟩ := exists_cons_of_ne_nil (decimal_ne_nil key.length)
  have digit := decimal_head_isDigit shape
  intro same
  rw [encodeString, shape] at same
  exact ne_of_isDigit digit (by decide) (cons.inj same).1

/-- A complete dictionary goes on behind entries that were read with the entries that are left. -/
theorem entries_split (each : ∀ entry ∈ entries, WellFormedEntry entry) (others_ : ∀ entry ∈ others, WellFormedEntry entry)
    (same : entries.flatMap spellPair ++ 101 :: rest = others.flatMap spellPair ++ left) :
    ∃ later, entries = others ++ later ∧ left = later.flatMap spellPair ++ 101 :: rest := by
  induction others generalizing entries with
  | nil => exact ⟨entries, rfl, same.symm⟩
  | cons first others ih =>
    rw [flatMap_cons, spellPair, append_assoc, append_assoc] at same
    cases entries with
    | nil => exact absurd same.symm (encodeString_ne_stop first.1)
    | cons entry entries =>
      rw [flatMap_cons, spellPair, append_assoc, append_assoc] at same
      obtain ⟨⟨short, value⟩, each⟩ := forall_mem_cons.mp each
      obtain ⟨⟨short', value'⟩, others_⟩ := forall_mem_cons.mp others_
      obtain ⟨keys, same⟩ := encodeString_unique short short' same
      obtain ⟨values, same⟩ := value.unique value' same
      obtain ⟨later, rfl, behind⟩ := ih each others_ same
      exact ⟨later, by rw [cons_append, Prod.ext keys values], behind⟩

theorem Leads.split (complete : Leads bytes entries (101 :: rest)) (leads : Leads bytes others left) :
    ∃ later, entries = others ++ later ∧ left = later.flatMap spellPair ++ 101 :: rest := by
  obtain ⟨each, rfl⟩ := complete
  obtain ⟨each', same⟩ := leads
  exact entries_split each each' (cons.inj same).2

end Words

namespace MetaInfoFile

/-- The keys of the root that have a branch of their own. -/
def branchKeys : List Bytes :=
  rootFields ++ [ascii "announce-list", ascii "url-list", ascii "piece layers", ascii "info"]

/-- How a value that is not complete is passed: the end of the dictionary is taken for it, it is
skipped by its brackets, or the loop over it stops early. -/
inductive Loose (key value : Bytes) : Prop
  | absent (passed : key = ascii "piece layers" ∨ key ∉ branchKeys) (ends : value.head? = some 101)
  | skipped (passed : key = ascii "info" ∨ key ∉ branchKeys) (opens : value.head? = some 100 ∨ value.head? = some 108)
      (closes : (skipValue .dictStart value.tail).isOk = true)
  | layers (isLayers : key = ascii "piece layers") (opens : value.head? = some 100 ∨ value.head? = some 108)
  | seeds (isSeeds : key = ascii "url-list") (opens : value.head? = some 108)

/-- What stands behind the last entry that is whole: the end of the input, or a value that is not complete. -/
inductive Flaw : Bytes → Prop
  | ends : Flaw []
  | value {key value : Bytes} (short : key.length ≤ maxStringLen) (broken : ¬StartsValue value) (loose : Loose key value) :
      Flaw (encodeString key ++ value)

/-- A value that is complete was not read to its end, and later neither an entry nor the end follows. -/
structure Derailed (entries : Entries) (rest : Bytes) : Prop where
  inside : ∃ entry ∈ entries, readsWhole entry = false
  noEnd : rest.head? ≠ some 101
  noEntry : ∀ entry more, WellFormedEntry entry → rest ≠ spellPair entry ++ more

def Stuck (bytes : Bytes) : Prop := ∃ entries rest, Leads bytes entries rest ∧ (Flaw rest ∨ Derailed entries rest)

section Unfinished

variable {bytes : Bytes} {entries later : Entries} {rest input : Bytes}

theorem Flaw.not_entries (flaw : Flaw input)
    (each : ∀ entry ∈ later, WellFormedEntry entry) : input ≠ later.flatMap spellPair ++ 101 :: rest := by
  intro same
  cases flaw with
  | ends => exact absurd same.symm (append_ne_nil_of_right_ne_nil _ (cons_ne_nil _ _))
  | @value key value short broken _ =>
    cases later with
    | nil => exact encodeString_ne_stop key same
    | cons entry later =>
      rw [flatMap_cons, spellPair, append_assoc, append_assoc] at same
      obtain ⟨short', wellFormed⟩ := each entry mem_cons_self
      obtain ⟨_, rfl⟩ := encodeString_unique short short' same
      exact broken ⟨entry.2, _, wellFormed, rfl⟩

theorem Derailed.not_entries (derailed : Derailed entries input)
    (each : ∀ entry ∈ later, WellFormedEntry entry) : input ≠ later.flatMap spellPair ++ 101 :: rest := by
  intro same
  cases later with
  | nil =>
    rw [same] at derailed
    exact derailed.noEnd rfl
  | cons entry later =>
    rw [flatMap_cons, append_assoc] at same
    exact derailed.noEntry entry _ (each entry mem_cons_self) same

theorem Stuck.not_complete (stuck : Stuck bytes) : ¬Complete bytes := by
  intro complete
  obtain ⟨entries, rest, complete⟩ := complete_iff.mp complete
  obtain ⟨others, left, leads, broken⟩ := stuck
  obtain ⟨later, rfl, behind⟩ := complete.split leads
  have each : ∀ entry ∈ later, WellFormedEntry entry :=
    fun entry member => complete.1 entry (mem_append_right _ member)
  rcases broken with flaw | derailed
  · exact flaw.not_entries each behind
  · exact derailed.not_entries each behind

/-- Behind a value that was left early the entries go on up to the end of the dictionary or not. -/
theorem complete_or_stuck_of_leads (leads : Leads bytes entries rest)
    (inside : ∃ entry ∈ entries, readsWhole entry = false) : Complete bytes ∨ Stuck bytes := by
  induction size : rest.length using Nat.strong_induction_on generalizing entries rest with
  | h length ih =>
    by_cases ends : rest.head? = some 101
    · obtain ⟨tail, rfl⟩ := head?_eq_some_iff.mp ends
      exact .inl (complete_iff.mpr ⟨entries, tail, leads⟩)
    by_cases next : ∃ entry more, WellFormedEntry entry ∧ rest = spellPair entry ++ more
    · obtain ⟨entry, more, wellFormed, rfl⟩ := next
      obtain ⟨each, shape⟩ := leads
      have onward : Leads bytes (entries ++ [entry]) more := by
        refine ⟨forall_mem_append.mpr ⟨each, forall_mem_singleton.mpr wellFormed⟩, ?_⟩
        rw [shape, flatMap_append, flatMap_singleton, append_assoc]
      have shorter : more.length < length := by
        have key : 0 < (encodeString entry.1).length := length_pos_iff.mpr (by simp [encodeString])
        rw [length_append, spellPair, length_append] at size
        omega
      obtain ⟨first, member, partly⟩ := inside
      exact ih more.length shorter onward ⟨first, mem_append_left _ member, partly⟩ rfl
    · exact .inr ⟨entries, rest, leads, .inr ⟨inside, ends, fun entry more wellFormed same =>
        next ⟨entry, more, wellFormed, same⟩⟩⟩

end Unfinished

section Reading

variable {digests : Digests} {file file' : MetaInfoFile} {key input rest : Bytes}

theorem startsValue_of_scalar {token : BencodeToken} {value after : Bytes} {message : String}
    (read : expectToken input = .ok (token, after)) (scalar : stringOrInteger message token = .ok value) :
    StartsValue input := by
  obtain ⟨word, member, rfl⟩ := tokenWord_of_expectToken read
  cases token with
  | dictStart => cases scalar
  | listStart => cases scalar
  | stop => cases scalar
  | string bytes =>
    obtain ⟨short, rfl⟩ := member
    exact ⟨.string bytes, after, ⟨1, short⟩, rfl⟩
  | integer digits =>
    obtain ⟨_, ⟨value, range, text, rfl⟩, rfl⟩ := member
    exact ⟨.number digits, after, ⟨1, value, range, text⟩, rfl⟩

variable {token : BencodeToken} {after : Bytes} {result : List Text × Bytes} {urls : List Text}

theorem bracket_of_broken (broken : ¬StartsValue input) (read : expectToken input = .ok (token, after)) :
    token = .dictStart ∧ input = 100 :: after ∨ token = .listStart ∧ input = 108 :: after ∨
      token = .stop ∧ input = 101 :: after := by
  cases token with
  | dictStart => exact .inl ⟨rfl, eq_of_nextToken_dictStart (expectToken_eq_ok.mp read)⟩
  | listStart => exact .inr (.inl ⟨rfl, eq_of_nextToken_listStart (expectToken_eq_ok.mp read)⟩)
  | stop => exact .inr (.inr ⟨rfl, eq_of_nextToken_stop (expectToken_eq_ok.mp read)⟩)
  | string bytes => exact absurd (@startsValue_of_scalar _ _ bytes after "" read rfl) broken
  | integer digits => exact absurd (@startsValue_of_scalar _ _ digits after "" read rfl) broken

theorem items_of_reaches {σ : Type} {body : σ → BencodeToken → Bytes → Result (σ × Bytes)} {depth : Nat}
    {first : σ × Bytes} {state : σ}
    (reads : ∀ state token word after result, TokenWord word token → body state token after = .ok result →
      ∃ node, Proper depth node ∧ word ++ after = spell node ++ result.2)
    (reaches : Relation.ReflTransGen (LoopStep body) first (state, rest)) :
    ∃ items : List BNode, (∀ item ∈ items, Proper depth item) ∧ first.2 = items.flatMap spell ++ rest := by
  induction reaches using Relation.ReflTransGen.head_induction_on with
  | refl => exact ⟨[], forall_mem_nil _, rfl⟩
  | head step _ ih =>
    obtain ⟨items, each, behind⟩ := ih
    cases step with
    | round found _ ran =>
      obtain ⟨word, member, rfl⟩ := tokenWord_of_expectToken (expectToken_eq_ok.mpr found)
      obtain ⟨node, proper, shape⟩ := reads _ _ word _ _ member ran
      refine ⟨node :: items, forall_mem_cons.mpr ⟨proper, each⟩, ?_⟩
      rw [shape, behind, flatMap_cons, append_assoc]

theorem tierUrl_reads {word : Bytes}
    (member : TokenWord word token) (ran : parseTierUrl urls token after = .ok result) :
    ∃ node, Proper 1 node ∧ word ++ after = spell node ++ result.2 := by
  cases token with
  | string url =>
    cases ran
    obtain ⟨short, rfl⟩ := member
    exact ⟨.string url, short, rfl⟩
  | _ => cases ran

theorem tier_reads {word : Bytes} (member : TokenWord word token) (ran : parseTier urls token after = .ok result) :
    ∃ node, Proper 2 node ∧ word ++ after = spell node ++ result.2 := by
  rw [parseTier] at ran
  split at ran
  case isTrue isList =>
    subst isList
    obtain ⟨items, each, rfl⟩ := items_of_reaches (fun _ _ _ _ _ => tierUrl_reads) (reaches_of_untilEnd ran)
    refine ⟨.list items, each, ?_⟩
    rw [show word = [108] from member, spell_list, append_assoc]
    rfl
  case isFalse => cases ran

theorem startsValue_of_tiers (done : parseRootEntry digests file (.string (ascii "announce-list")) input = .ok (file', rest)) :
    StartsValue input := by
  rw [parseRootEntry_tiers] at done
  obtain ⟨after, opened, done⟩ := bind_eq_ok.mp done
  obtain ⟨⟨urls, left⟩, loop, _⟩ := bind_eq_ok.mp done
  obtain rfl := eq_of_nextToken_listStart (expectStart_eq_ok opened)
  obtain ⟨items, each, rfl⟩ := items_of_reaches (fun _ _ _ _ _ => tier_reads) (reaches_of_untilEnd loop)
  refine ⟨.list items, left, ⟨3, each⟩, ?_⟩
  rw [spell_list, append_assoc]
  rfl

section

variable (broken : ¬StartsValue input)
include broken

theorem skipped_cases (read : expectToken input = .ok (token, after)) (skipped : skipValue token after = .ok rest) :
    token = .stop ∧ input.head? = some 101 ∨
      (input.head? = some 100 ∨ input.head? = some 108) ∧ (skipValue .dictStart input.tail).isOk = true := by
  rcases bracket_of_broken broken read with ⟨rfl, rfl⟩ | ⟨rfl, rfl⟩ | ⟨rfl, rfl⟩
  · exact .inr ⟨.inl rfl, by rw [tail_cons, skipped]; rfl⟩
  · have same : skipValue .dictStart after = .ok rest := skipped
    exact .inr ⟨.inr rfl, by rw [tail_cons, same]; rfl⟩
  · exact .inl ⟨rfl, rfl⟩

theorem loose_of_info (done : parseInfo digests file input = .ok (file', rest)) : Loose (ascii "info") input := by
  obtain ⟨⟨token, after⟩, read, done⟩ := bind_eq_ok.mp done
  obtain ⟨left, skipped, done⟩ := bind_eq_ok.mp done
  obtain ⟨fields, opened, _⟩ := bind_eq_ok.mp done
  rcases skipped_cases broken read skipped with ⟨rfl, ends⟩ | ⟨opens, closes⟩
  · -- the raw value would be the end token alone
    obtain ⟨tail, rfl⟩ := head?_eq_some_iff.mp ends
    cases read
    cases skipped
    have raw : (101 :: after).take ((101 :: after).length - after.length) = [101] := by
      rw [length_cons, Nat.add_sub_cancel_left]
      rfl
    rw [raw] at opened
    cases opened
  · exact .skipped (.inl rfl) opens closes

theorem loose_of_urls (done : parseRootEntry digests file (.string (ascii "url-list")) input = .ok (file', rest)) :
    Loose (ascii "url-list") input := by
  rw [parseRootEntry_urls] at done
  obtain ⟨⟨token, after⟩, read, done⟩ := bind_eq_ok.mp done
  rcases bracket_of_broken broken read with ⟨rfl, rfl⟩ | ⟨rfl, rfl⟩ | ⟨rfl, rfl⟩
  · cases done
  · exact .seeds rfl rfl
  · cases done

theorem loose_of_layers
    (done : parseRootEntry digests file (.string (ascii "piece layers")) input = .ok (file', rest)) :
    Loose (ascii "piece layers") input := by
  rw [parseRootEntry_layers] at done
  obtain ⟨⟨token, after⟩, read, _⟩ := bind_eq_ok.mp done
  rcases bracket_of_broken broken read with ⟨rfl, rfl⟩ | ⟨rfl, rfl⟩ | ⟨rfl, rfl⟩
  · exact .layers rfl (.inl rfl)
  · exact .layers rfl (.inr rfl)
  · exact .absent (.inl rfl) rfl

theorem loose_of_parse
    (done : parseRootEntry digests file (.string key) input = .ok (file', rest)) : Loose key input := by
  by_cases tiers : key = ascii "announce-list"
  · subst tiers
    exact absurd (startsValue_of_tiers done) broken
  by_cases urls : key = ascii "url-list"
  · subst urls
    exact loose_of_urls broken done
  by_cases layers : key = ascii "piece layers"
  · subst layers
    exact loose_of_layers broken done
  rw [parseRootEntry, if_neg tiers, if_neg urls, if_neg layers] at done
  split at done
  case isTrue =>
    obtain ⟨⟨token, after⟩, read, done⟩ := bind_eq_ok.mp done
    obtain ⟨value, scalar, _⟩ := bind_eq_ok.mp done
    exact absurd (startsValue_of_scalar read scalar) broken
  case isFalse unknown =>
    split at done
    case isTrue isInfo =>
      subst isInfo
      exact loose_of_info broken done
    case isFalse other =>
      have none : key ∉ branchKeys := by
        simp only [branchKeys, mem_append, mem_cons, not_mem_nil, or_false, not_or]
        exact ⟨unknown, tiers, urls, layers, other⟩
      obtain ⟨⟨token, after⟩, read, done⟩ := bind_eq_ok.mp done
      obtain ⟨left, skipped, _⟩ := bind_eq_ok.mp done
      rcases skipped_cases broken read skipped with ⟨_, ends⟩ | ⟨opens, closes⟩
      · exact .absent (.inr none) ends
      · exact .skipped (.inr none) opens closes

end

theorem rest_of_whole {node : BNode} (wellFormed : WellFormed node) (whole : readsWhole (key, node) = true)
    (done : parseRootEntry digests file (.string key) (spell node ++ after) = .ok (file', rest)) : rest = after := by
  obtain ⟨depth, proper⟩ := wellFormed
  have run := @parseRootEntry_run digests file after (key, node) (delimited_of_proper proper) whole
  rw [done, toOption_ok, eq_comm, Option.map_eq_some_iff] at run
  obtain ⟨_, _, same⟩ := run
  exact (Prod.mk.inj same).2.symm

/-- How the loop over the root ends, in terms of the entries of the input. -/
theorem root_cases {rounds : Nat} {result : MetaInfoFile × Bytes}
    (done : untilEnd false (parseRootEntry digests) rounds file input = .ok result) :
    ∃ (entries : Entries) (left : Bytes), (∀ entry ∈ entries, WellFormedEntry entry) ∧
      input = entries.flatMap spellPair ++ left ∧
      (left.head? = some 101 ∨ Flaw left ∨ ∃ entry ∈ entries, readsWhole entry = false) := by
  induction rounds generalizing file input with
  | zero => cases done
  | succ rounds ih =>
    rw [untilEnd] at done
    split at done
    case h_1 absent =>
      have none : input = [] := by
        by_contra nonempty
        exact nextToken_ne_none nonempty absent
      exact ⟨[], [], forall_mem_nil _, none, .inr (.inl .ends)⟩
    case h_2 => cases done
    case h_3 after found =>
      obtain rfl := eq_of_nextToken_stop found
      exact ⟨[], _, forall_mem_nil _, rfl, .inl rfl⟩
    case h_4 token value _ found =>
      obtain ⟨⟨next, after⟩, ran, onward⟩ := bind_eq_ok.mp done
      obtain ⟨word, member, rfl⟩ := tokenWord_of_expectToken (expectToken_eq_ok.mpr found)
      cases token with
      | string key =>
        obtain ⟨short, isKey⟩ := member
        rw [show word = encodeString key from isKey]
        by_cases starts : StartsValue value
        · obtain ⟨node, more, wellFormed, rfl⟩ := starts
          have here : WellFormedEntry (key, node) := ⟨short, wellFormed⟩
          have shape : ∀ tail, encodeString key ++ (spell node ++ tail) = spellPair (key, node) ++ tail :=
            fun tail => (append_assoc _ _ tail).symm
          cases whole : readsWhole (key, node) with
          | false =>
            refine ⟨[(key, node)], more, forall_mem_singleton.mpr here, ?_,
              .inr (.inr ⟨_, mem_singleton_self _, whole⟩)⟩
            rw [shape, flatMap_singleton]
          | true =>
            obtain rfl := rest_of_whole wellFormed whole ran
            obtain ⟨entries, left, each, rfl, ending⟩ := ih onward
            refine ⟨(key, node) :: entries, left, forall_mem_cons.mpr ⟨here, each⟩, ?_, ?_⟩
            · rw [shape, flatMap_cons, append_assoc]
            · refine ending.imp_right (Or.imp_right ?_)
              rintro ⟨entry, member, partly⟩
              exact ⟨entry, mem_cons_of_mem _ member, partly⟩
        · exact ⟨[], _, forall_mem_nil _, rfl, .inr (.inl (.value short starts (loose_of_parse starts ran)))⟩
      | _ => cases ran

theorem complete_or_stuck {bytes : Bytes} (accepted : parse digests (.fromBytes bytes) = .ok file) :
    Complete bytes ∨ Stuck bytes := by
  obtain ⟨after, _, _, found, loop, -⟩ := parse_exists accepted
  obtain ⟨entries, left, each, rfl, ending⟩ := root_cases loop
  have leads : Leads bytes entries left := ⟨each, eq_of_nextToken_dictStart found⟩
  rcases ending with ends | flaw | inside
  · obtain ⟨rest, rfl⟩ := head?_eq_some_iff.mp ends
    exact .inl (complete_iff.mpr ⟨entries, rest, leads⟩)
  · exact .inr ⟨entries, left, leads, .inl flaw⟩
  · exact complete_or_stuck_of_leads leads inside

/-- An accepted torrent is one complete dictionary, unless it stops behind an entry or at a value
that is not complete, or goes on with anything behind a value that the parser left early. -/
theorem accepted_complete_iff {bytes : Bytes} (accepted : parse digests (.fromBytes bytes) = .ok file) :
    Complete bytes ↔ ¬Stuck bytes := by
  constructor
  · intro complete stuck
    exact stuck.not_complete complete
  · intro whole
    exact (complete_or_stuck accepted).resolve_right whole

theorem plainTorrent_complete : ∃ file, parse lengthDigests (.fromBytes plainTorrent) = .ok file ∧
    (Complete plainTorrent ↔ ¬Stuck plainTorrent) := by
  obtain ⟨file, parsed⟩ := exists_of_isOk plainTorrent_parsed
  exact ⟨file, parsed, accepted_complete_iff parsed⟩

/-- The same torrent without the end of its dictionary. -/
theorem cutTorrent_accepted : (parse lengthDigests (.fromBytes plainTorrent.dropLast)).isOk = true ∧
    ¬Complete plainTorrent.dropLast := by
  obtain ⟨proper, _⟩ := decode_eq_spell plainTorrent_decoded
  refine ⟨by decide +kernel, Stuck.not_complete ⟨plainRoot, [], ⟨?_, by decide +kernel⟩, .inl .ends⟩⟩
  exact wellFormed_dictionary.mp ⟨_, proper⟩

end Reading

end MetaInfoFile

end BitTorrent
