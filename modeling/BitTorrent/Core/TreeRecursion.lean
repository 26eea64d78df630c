import BitTorrent.Core.RootFields

/-! # The recursion over a file tree

`parse_file_tree_tokenized` calls itself for each directory that it enters.  How deep these calls are
nested while a torrent is parsed.
-/

namespace BitTorrent

open Bencode BNode Relation List

variable {depth : Nat}

section Rounds

variable {σ : Type}

variable {body : σ → BencodeToken → Bytes → Result (σ × Bytes)} {rounds : Nat} {state : σ}
  {input after : Bytes} {token : BencodeToken} {result : σ × Bytes}

theorem length_of_nextToken (read : nextToken input = some (.ok (token, after))) : after.length < input.length := by
  obtain ⟨word, member, rfl⟩ := tokenWord_of_expectToken (expectToken_eq_ok.mpr read)
  have nonempty : word ≠ [] := by
    rintro rfl
    cases token with
    | dictStart => cases member
    | listStart => cases member
    | stop => cases member
    | integer digits =>
      obtain ⟨_, _, empty⟩ := member
      cases empty
    | string bytes =>
      obtain ⟨first, rest, empty, _⟩ := stringWord_head member
      cases empty
  have positive := length_pos_of_ne_nil nonempty
  rw [length_append]
  omega

theorem length_of_skipNested {left : Bytes} (done : skipNested rounds depth input = .ok left) :
    left.length ≤ input.length := by
  induction rounds generalizing depth input with
  | zero => cases done
  | succ rounds ih =>
    obtain ⟨⟨token, after⟩, read, onward⟩ := bind_eq_ok.mp done
    have shorter := length_of_nextToken (expectToken_eq_ok.mp read)
    dsimp only at onward
    split at onward
    case isTrue =>
      cases onward
      exact shorter.le
    case isFalse => exact (ih onward).trans shorter.le

theorem length_of_skipValue {left : Bytes} (done : skipValue token input = .ok left) : left.length ≤ input.length := by
  cases token with
  | dictStart => exact length_of_skipNested done
  | listStart => exact length_of_skipNested done
  | _ =>
    cases done
    exact Nat.le_refl _

section Shrinking

variable (shrinks : ∀ state token input result, body state token input = .ok result → result.2.length ≤ input.length)
include shrinks

theorem length_of_reaches {first last : σ × Bytes} (reaches : ReflTransGen (LoopStep body) first last) :
    last.2.length ≤ first.2.length := by
  induction reaches with
  | refl => exact Nat.le_refl _
  | tail _ step ih =>
    cases step with
    | round read _ ran => exact ((shrinks _ _ _ _ ran).trans (length_of_nextToken read).le).trans ih

theorem untilEnd_of_reaches {first : σ × Bytes}
    (reaches : ReflTransGen (LoopStep body) first (result.1, 101 :: result.2)) (enough : first.2.length < rounds) :
    untilEnd true body rounds first.1 first.2 = .ok result := by
  induction reaches using ReflTransGen.head_induction_on generalizing rounds with
  | refl =>
    cases rounds with
    | zero => cases enough
    | succ rounds => rfl
  | head step _ ih =>
    cases rounds with
    | zero => cases enough
    | succ rounds =>
      cases step with
      | @round state input after token _ read more ran =>
        have shorter := (shrinks _ _ _ _ ran).trans_lt (length_of_nextToken read)
        have onward := @ih rounds (by dsimp only at enough; omega)
        rw [untilEnd, read]
        cases token with
        | stop => exact absurd rfl more
        | _ => exact bind_eq_ok.mpr ⟨_, ran, onward⟩

end Shrinking

end Rounds

namespace MetaInfoFile

variable {result : List TreeFile × Bytes} {token : BencodeToken} {properties : Nat × Bytes}

section Entries

variable {path : List Text} {files : List TreeFile} {input : Bytes}

theorem expectStart_dict {message : String} {after : Bytes} :
    expectStart .dictStart message input = .ok after ↔ input = 100 :: after := by
  constructor
  · intro opened
    exact eq_of_nextToken_dictStart (expectStart_eq_ok opened)
  · rintro rfl
    rfl

theorem parseTreeEntry_eq_ok
    {parseDirectory : List Text → List TreeFile → Bytes → Result (List TreeFile × Bytes)} :
    parseTreeEntry parseDirectory path files token input = .ok result ↔
      ∃ key inner, token = .string key ∧ input = 100 :: inner ∧
        (key = [] ∧ (∃ properties, readUntilEnd true parseTreeProperty (0, []) inner = .ok (properties, result.2) ∧
            result.1 = files ++ [(joinSlash path, properties)]) ∨
          key ≠ [] ∧ ∃ name, fromUtf8 key = some name ∧ parseDirectory (path ++ [name]) files inner = .ok result) := by
  constructor
  · intro ran
    cases token with
    | string key =>
      obtain ⟨inner, opened, ran⟩ := bind_eq_ok.mp ran
      refine ⟨key, inner, rfl, expectStart_dict.mp opened, ?_⟩
      split at ran
      case isTrue empty =>
        obtain ⟨⟨properties, left⟩, loop, ran⟩ := bind_eq_ok.mp ran
        cases ran
        exact .inl ⟨empty, properties, loop, rfl⟩
      case isFalse named =>
        split at ran
        case h_1 name valid => exact .inr ⟨named, name, valid, ran⟩
        case h_2 => cases ran
    | _ => cases ran
  · rintro ⟨key, inner, rfl, rfl, ⟨rfl, properties, loop, same⟩ | ⟨named, name, valid, ran⟩⟩
    · refine bind_eq_ok.mpr ⟨inner, expectStart_dict.mpr rfl, ?_⟩
      exact bind_eq_ok.mpr ⟨_, loop, congrArg Except.ok (Prod.ext same.symm rfl)⟩
    · refine bind_eq_ok.mpr ⟨inner, expectStart_dict.mpr rfl, ?_⟩
      rw [if_neg named, valid]
      exact ran

theorem parseTreeProperty_length {result : (Nat × Bytes) × Bytes}
    (ran : parseTreeProperty properties token input = .ok result) : result.2.length ≤ input.length := by
  cases token with
  | string key =>
    obtain ⟨⟨value, after⟩, read, ran⟩ := bind_eq_ok.mp ran
    have shorter := (length_of_nextToken (expectToken_eq_ok.mp read)).le
    dsimp only at ran
    split at ran
    case isTrue =>
      cases value <;> cases ran <;> exact shorter
    case isFalse =>
      split at ran
      case isTrue =>
        cases value <;> cases ran <;> exact shorter
      case isFalse =>
        obtain ⟨left, skipped, ran⟩ := bind_eq_ok.mp ran
        cases ran
        exact (length_of_skipValue skipped).trans shorter
  | _ => cases ran

end Entries

/-- Whole entries of a directory between two places. -/
inductive Passed : Bytes → Bytes → Prop
  | here (input : Bytes) : Passed input input
  | file {input properties rest last : Bytes} {result : Nat × Bytes}
      (read : nextToken input = some (.ok (.string [], 100 :: properties)))
      (loop : readUntilEnd true parseTreeProperty (0, []) properties = .ok (result, rest)) (later : Passed rest last) :
      Passed input last
  | directory {input key inner rest last : Bytes} {name : Text}
      (read : nextToken input = some (.ok (.string key, 100 :: inner))) (named : key ≠ [])
      (valid : fromUtf8 key = some name) (inside : Passed inner (101 :: rest)) (later : Passed rest last) :
      Passed input last

/-- Directories that are open at once: each is entered behind whole entries of the one around it. -/
def Descends : Nat → Bytes → Prop
  | 0, _ => True
  | depth + 1, input => ∃ before key inner name, Passed input before ∧
      nextToken before = some (.ok (.string key, 100 :: inner)) ∧ key ≠ [] ∧ fromUtf8 key = some name ∧ Descends depth inner

/-- The arguments of a call of `parse_file_tree_tokenized`. -/
structure TreeCall where
  level : Nat
  path : List Text
  files : List TreeFile
  input : Bytes

/-- A call that is made in some round of another one. -/
inductive TreeCall.Calls : TreeCall → TreeCall → Prop
  | directory {level : Nat} {path : List Text} {files files' : List TreeFile} {input before key value inner : Bytes}
      {name : Text}
      (reaches : ReflTransGen (LoopStep (parseTreeEntry (parseFileTree level) path)) (files, input) (files', before))
      (read : nextToken before = some (.ok (.string key, value)))
      (opened : expectStart .dictStart "File tree value must be a dictionary" value = .ok inner) (named : key ≠ [])
      (valid : fromUtf8 key = some name) : Calls ⟨level + 1, path, files, input⟩ ⟨level, path ++ [name], files', inner⟩

/-- Calls that are open at once below a call. -/
def TreeCall.Stacked : Nat → TreeCall → Prop
  | 0, _ => True
  | depth + 1, call => ∃ inner, call.Calls inner ∧ Stacked depth inner

/-- The bytes of a file tree to which the parser comes, behind its opening token. -/
inductive StartsTree (digests : Digests) (bytes : Bytes) : Bytes → Prop
  | intro {input rest value after left fields more opening tree : Bytes} {token : BencodeToken}
      {file read : MetaInfoFile} (dict : nextToken bytes = some (.ok (.dictStart, input)))
      (root : ReflTransGen (LoopStep (parseRootEntry digests)) (.fromBytes bytes, input) (file, rest))
      (isInfo : nextToken rest = some (.ok (.string (ascii "info"), value)))
      (found : expectToken value = .ok (token, after)) (skipped : skipValue token after = .ok left)
      (opened : expectStart .dictStart "info must be a dictionary" (value.take (value.length - left.length)) = .ok fields)
      (info : ReflTransGen (LoopStep parseInfoEntry) (file, fields) (read, more))
      (isTree : nextToken more = some (.ok (.string (ascii "file tree"), opening)))
      (start : expectStart .dictStart "file tree must be a dictionary" opening = .ok tree) : StartsTree digests bytes tree

/-- The first call for a tree. -/
def firstCall (tree : Bytes) : TreeCall := ⟨tree.length + 1, [], [], tree⟩

/-- How many calls are open at once at some moment. -/
inductive DepthReached (digests : Digests) (bytes : Bytes) : Nat → Prop
  | outside : DepthReached digests bytes 0
  | inside {tree : Bytes} {depth : Nat} (starts : StartsTree digests bytes tree) (stacked : (firstCall tree).Stacked depth) :
      DepthReached digests bytes (depth + 1)

/-- A tree in which more directories are open at once than the limit of the decoder, its root included. -/
def TooDeep (digests : Digests) (bytes : Bytes) : Prop :=
  ∃ tree, StartsTree digests bytes tree ∧ Descends maxDepth tree

section Nesting

variable {path : List Text} {files files' : List TreeFile} {input rest last : Bytes} {level : Nat}

theorem readProperties_length {inner : Bytes}
    (loop : readUntilEnd true parseTreeProperty (0, []) inner = .ok (properties, rest)) : rest.length < inner.length :=
  length_of_reaches (fun _ _ _ _ => parseTreeProperty_length) (reaches_of_untilEnd loop)

theorem Passed.length (passed : Passed input last) : last.length ≤ input.length := by
  induction passed with
  | here input => exact Nat.le_refl _
  | file read loop _ ih =>
    have first := length_of_nextToken read
    have second := readProperties_length loop
    rw [length_cons] at first
    omega
  | directory read _ _ _ _ inside later =>
    have first := length_of_nextToken read
    rw [length_cons] at first inside
    omega

/-- The rounds of a directory pass whole entries, if those of the directories in it do. -/
theorem passed_of_reaches {first final : List TreeFile × Bytes}
    (below : ∀ path files input files' rest, parseFileTree level path files input = .ok (files', rest) →
      Passed input (101 :: rest))
    (reaches : ReflTransGen (LoopStep (parseTreeEntry (parseFileTree level) path)) first final) :
    Passed first.2 final.2 := by
  induction reaches using ReflTransGen.head_induction_on with
  | refl => exact .here _
  | head step _ ih =>
    cases step with
    | round read _ ran =>
      obtain ⟨key, inner, rfl, rfl, entry⟩ := parseTreeEntry_eq_ok.mp ran
      rcases entry with ⟨rfl, properties, loop, _⟩ | ⟨named, name, valid, ran⟩
      · exact .file read loop ih
      · exact .directory read named valid (below _ _ _ _ _ ran) ih

theorem passed_of_parseFileTree (done : parseFileTree level path files input = .ok (files', rest)) :
    Passed input (101 :: rest) := by
  induction level generalizing path files input files' rest with
  | zero => cases done
  | succ level ih => exact passed_of_reaches (fun _ _ _ _ _ => ih) (reaches_of_untilEnd done)

theorem parseTreeEntry_length
    (ran : parseTreeEntry (parseFileTree level) path files token input = .ok result) : result.2.length ≤ input.length := by
  obtain ⟨key, inner, rfl, rfl, entry⟩ := parseTreeEntry_eq_ok.mp ran
  rcases entry with ⟨rfl, properties, loop, _⟩ | ⟨_, name, _, ran⟩
  · have shorter := readProperties_length loop
    rw [length_cons]
    omega
  · have shorter := (passed_of_parseFileTree ran).length
    rw [length_cons] at shorter ⊢
    omega

/-- Whole entries are passed by the rounds of a call whose bound is large enough. -/
theorem reaches_of_passed (passed : Passed input last) (enough : input.length ≤ level) :
    ∃ files', ReflTransGen (LoopStep (parseTreeEntry (parseFileTree level) path)) (files, input) (files', last) := by
  induction passed generalizing path files level with
  | here input => exact ⟨files, .refl⟩
  | @file input properties rest last result read loop _ ih =>
    have first := length_of_nextToken read
    have second := readProperties_length loop
    rw [length_cons] at first
    obtain ⟨files', onward⟩ := @ih path (files ++ [(joinSlash path, result)]) level (by omega)
    refine ⟨files', .head (.round read (fun same => (nomatch same)) ?_) onward⟩
    exact parseTreeEntry_eq_ok.mpr ⟨[], properties, rfl, rfl, .inl ⟨rfl, result, loop, rfl⟩⟩
  | @directory input key inner rest last name read named valid passed _ inside later =>
    have first := length_of_nextToken read
    have second := passed.length
    rw [length_cons] at first second
    cases level with
    | zero => omega
    | succ level =>
      obtain ⟨found, rounds⟩ := @inside (path ++ [name]) files level (by omega)
      have whole : parseFileTree (level + 1) (path ++ [name]) files inner = .ok (found, rest) :=
        @untilEnd_of_reaches _ _ (inner.length + 1) (found, rest) (fun _ _ _ _ => parseTreeEntry_length) (files, inner)
          rounds (Nat.lt_succ_self _)
      obtain ⟨files', onward⟩ := @later path found (level + 1) (by omega)
      refine ⟨files', .head (.round read (fun same => (nomatch same)) ?_) onward⟩
      exact parseTreeEntry_eq_ok.mpr ⟨key, inner, rfl, rfl, .inr ⟨named, name, valid, whole⟩⟩

theorem stacked_iff_descends (enough : input.length < level) :
    TreeCall.Stacked depth ⟨level, path, files, input⟩ ↔ Descends depth input := by
  induction depth generalizing level path files input with
  | zero => exact Iff.rfl
  | succ depth ih =>
    constructor
    · rintro ⟨inner, calls, stacked⟩
      cases calls with
      | @directory level _ _ files' _ before key value inner name reaches read opened named valid =>
        obtain rfl := expectStart_dict.mp opened
        have passed := passed_of_reaches (fun _ _ _ _ _ => passed_of_parseFileTree) reaches
        have first := length_of_nextToken read
        have second := passed.length
        rw [length_cons] at first
        dsimp only at second
        exact ⟨before, key, inner, name, passed, read, named, valid, (ih (by omega)).mp stacked⟩
    · rintro ⟨before, key, inner, name, passed, read, named, valid, descends⟩
      cases level with
      | zero => cases enough
      | succ level =>
        obtain ⟨files', reaches⟩ := @reaches_of_passed path files input before level passed (by omega)
        have first := length_of_nextToken read
        have second := passed.length
        rw [length_cons] at first
        exact ⟨_, .directory reaches read (expectStart_dict.mpr rfl) named valid, (ih (by omega)).mpr descends⟩

theorem Descends.le {less : Nat} (descends : Descends depth input) (order : less ≤ depth) : Descends less input := by
  induction less generalizing depth input with
  | zero => trivial
  | succ less ih =>
    cases depth with
    | zero => cases order
    | succ depth =>
      obtain ⟨before, key, inner, name, passed, read, named, valid, descends⟩ := descends
      exact ⟨before, key, inner, name, passed, read, named, valid, ih descends (Nat.le_of_succ_le_succ order)⟩

theorem firstCall_stacked {tree : Bytes} : (firstCall tree).Stacked depth ↔ Descends depth tree :=
  stacked_iff_descends (Nat.lt_succ_self tree.length)

/-- The calls nest as deep as the tree, and nothing else stops them. -/
theorem recursion_bounded_iff (digests : Digests) (bytes : Bytes) :
    (∀ depth, DepthReached digests bytes depth → depth ≤ maxDepth) ∧
      (TooDeep digests bytes → (parse digests (.fromBytes bytes)).isOk = false) ↔
    ¬TooDeep digests bytes := by
  constructor
  · rintro ⟨bounded, _⟩ ⟨tree, starts, descends⟩
    exact Nat.not_succ_le_self maxDepth (bounded _ (.inside starts (firstCall_stacked.mpr descends)))
  · intro shallow
    refine ⟨fun depth reached => ?_, fun deep => absurd deep shallow⟩
    cases reached with
    | outside => exact Nat.zero_le _
    | @inside tree depth starts stacked =>
      by_contra deeper
      exact shallow ⟨tree, starts, (firstCall_stacked.mp stacked).le (by omega)⟩

end Nesting

section Deep

/-- A file below a chain of directories. -/
def deepTree : Nat → BNode
  | 0 => .dictionary [([], .dictionary [])]
  | levels + 1 => .dictionary [(ascii "a", deepTree levels)]

def deepInfo (levels : Nat) : Entries :=
  [(ascii "file tree", deepTree levels), (ascii "meta version", .number (ascii "2")),
    (ascii "name", .string (ascii "a")), (ascii "piece length", .number (ascii "1"))]

def deepRoot (levels : Nat) : Entries :=
  [(ascii "announce", .string (ascii "u")), (ascii "info", .dictionary (deepInfo levels))]

def deepTorrent (levels : Nat) : Bytes := spell (.dictionary (deepRoot levels))

section

variable (levels : Nat)
include levels

theorem deepTree_proper : Proper (levels + 2) (deepTree levels) := by
  have short : (ascii "a").length ≤ maxStringLen := by decide
  induction levels with
  | zero => exact forall_mem_singleton.mpr ⟨by decide, forall_mem_nil _⟩
  | succ levels ih => exact forall_mem_singleton.mpr ⟨short, ih⟩

theorem deepTree_readable : ReadableTree (deepTree levels) := by
  have named : ascii "a" ≠ [] := by decide
  have valid : fromUtf8 (ascii "a") = some (text "a") := by decide +kernel
  induction levels with
  | zero => exact readableTree_file rfl
  | succ levels ih =>
    refine .directory ?_ ?_ ?_
    · exact forall_mem_singleton.mpr fun empty => absurd empty named
    · exact forall_mem_singleton.mpr fun _ => ⟨text "a", valid⟩
    · exact forall_mem_singleton.mpr fun _ => ih

theorem deepInfo_proper : Proper (levels + 3) (.dictionary (deepInfo levels)) := by
  have number : ∀ digit : Nat, digit < 10 → Proper (levels + 2) (.number (decimal digit)) :=
    fun digit small => ⟨digit, ⟨by omega, by omega⟩, rfl⟩
  have name : (ascii "a").length ≤ maxStringLen := by decide
  show ∀ entry ∈ deepInfo levels, entry.1.length ≤ maxStringLen ∧ Proper (levels + 2) entry.2
  simp only [deepInfo, forall_mem_cons]
  exact ⟨⟨by decide, deepTree_proper levels⟩, ⟨by decide, number 2 (by decide)⟩, ⟨by decide, name⟩,
    ⟨by decide, number 1 (by decide)⟩, forall_mem_nil _⟩

theorem deepRoot_proper : Proper (levels + 4) (.dictionary (deepRoot levels)) := by
  have announce : (ascii "u").length ≤ maxStringLen := by decide
  show ∀ entry ∈ deepRoot levels, entry.1.length ≤ maxStringLen ∧ Proper (levels + 3) entry.2
  simp only [deepRoot, forall_mem_cons]
  exact ⟨⟨by decide, announce⟩, ⟨by decide, deepInfo_proper levels⟩, forall_mem_nil _⟩

theorem deepInfo_readable : ∀ entry ∈ deepInfo levels, ReadableEntry entry := by
  simp only [deepInfo, forall_mem_cons]
  exact ⟨readableEntry_tree (deepTree_readable levels), readableEntry_field (by decide) rfl,
    readableEntry_field (by decide) rfl, readableEntry_field (by decide) rfl, forall_mem_nil _⟩

theorem deepRoot_readable : ∀ entry ∈ deepRoot levels, ReadableRoot entry := by
  simp only [deepRoot, forall_mem_cons]
  exact ⟨readableRoot_field (by decide) rfl, readableRoot_info (deepInfo_readable levels), forall_mem_nil _⟩

theorem deepRoot_whole : ∀ entry ∈ deepRoot levels, readsWhole entry = true := by
  simp only [deepRoot, forall_mem_cons]
  exact ⟨rfl, readsWhole_of_ne _ (by decide) (by decide), forall_mem_nil _⟩

end

variable {digests : Digests}

theorem deepTorrent_accepted (levels : Nat) : ∃ file, parse digests (.fromBytes (deepTorrent levels)) = .ok file := by
  have proper := deepRoot_proper levels
  obtain ⟨run, ran⟩ := @run_exists digests (.fromBytes (deepTorrent levels)) _ _ proper (deepRoot_readable levels)
  obtain ⟨start, blank, applied⟩ := run_info (deepInfo_proper levels) (deepInfo_readable levels)
    (show ∀ entry ∈ [(ascii "announce", BNode.string (ascii "u"))] ++ [], entry.1 ≠ ascii "info" by decide) ran
  have distinct : ((deepInfo levels).map Prod.fst).Nodup := by
    simp only [deepInfo, map_cons, map_nil]
    decide
  have announce : run.get (text "announce") = some (ascii "u") := by
    rw [get_of_run (by decide) (by simp only [deepRoot, map_cons, map_nil]; decide) ran]
    rfl
  have field := fun {name : String} => @infoField_of_applied digests run _ _ _ distinct blank applied name
  have version : run.get (text "meta version") = some (ascii "2") :=
    field (by decide)
  have name : run.get (text "name") = some (ascii "a") :=
    field (by decide)
  have pieceLength : run.get (text "piece length") = some (ascii "1") :=
    field (by decide)
  have hash : (run.get (text "info hash")).isSome = true := by
    rw [applied _ (by decide)]
    exact infoHash_isSome _
  have isV2 : run.isV2 = true := by
    rw [isV2, version]
    decide +kernel
  have checked : run.checkFields = .ok () :=
    checkFields_eq_ok (Option.isSome_of_eq_some announce) (Option.isSome_of_eq_some name)
      (Option.isSome_of_eq_some pieceLength) (.inl isV2) hash
  refine ⟨{ run with parsed := true }, ?_⟩
  rw [deepTorrent, ← append_nil (spell _)] at ran ⊢
  rw [← toOption_eq_some, parse_run (fun entry member => delimited_of_proper (proper entry member).2) (deepRoot_whole levels),
    ran, Option.bind_some, checked]
  rfl

theorem spell_deepTree (levels : Nat) : spell (deepTree levels) = 100 :: (deepTree levels).body := by
  cases levels with
  | zero => exact spell_dictionary _
  | succ levels => exact spell_dictionary _

theorem deepTree_descends (levels : Nat) (rest : Bytes) : Descends levels ((deepTree levels).body ++ rest) := by
  have named : ascii "a" ≠ [] := by decide
  have valid : fromUtf8 (ascii "a") = some (text "a") := by decide +kernel
  induction levels generalizing rest with
  | zero => trivial
  | succ levels ih =>
    have shape : (deepTree (levels + 1)).body ++ rest =
        encodeString (ascii "a") ++ 100 :: ((deepTree levels).body ++ 101 :: rest) := by
      rw [deepTree, body, flatMap_singleton, spellPair, spell_deepTree]
      simp only [append_assoc, cons_append, nil_append]
    rw [shape]
    exact ⟨_, ascii "a", _, text "a", .here _, nextToken_stringWord (by decide), named, valid, ih _⟩

theorem parseRootEntry_ok {file : MetaInfoFile} {entry : Bytes × BNode} {rest : Bytes}
    (proper : Proper depth entry.2) (readable : ReadableRoot entry) (whole : readsWhole entry = true) :
    ∃ next, parseRootEntry digests file (.string entry.1) (spell entry.2 ++ rest) = .ok (next, rest) := by
  obtain ⟨next, effect⟩ := @rootEffect_exists digests file _ _ proper readable
  refine ⟨next, toOption_eq_some.mp ?_⟩
  rw [parseRootEntry_run (delimited_of_proper proper) whole, effect]
  rfl

theorem deepTorrent_starts (levels : Nat) :
    ∃ rest, StartsTree digests (deepTorrent levels) ((deepTree levels).body ++ rest) := by
  have proper := deepInfo_proper levels
  obtain ⟨first, _⟩ := forall_mem_cons.mp (deepRoot_readable levels)
  obtain ⟨next, ran⟩ := @parseRootEntry_ok 1 digests (.fromBytes (deepTorrent levels)) (ascii "announce", .string (ascii "u"))
    (encodeString (ascii "info") ++ (spell (.dictionary (deepInfo levels)) ++ [101]))
    (show (ascii "u").length ≤ maxStringLen by decide) first rfl
  have raw : ∀ value : Bytes, (value ++ [101]).take ((value ++ [101]).length - [(101 : UInt8)].length) = value :=
    fun value => take_left' (by rw [length_append, Nat.add_sub_cancel])
  have fields : spell (.dictionary (deepInfo levels)) = 100 :: (encodeString (ascii "file tree") ++
      (spell (deepTree levels) ++ (((deepInfo levels).tail.flatMap spellPair) ++ [101]))) := by
    rw [spell_dictionary, deepInfo, flatMap_cons, spellPair]
    simp only [append_assoc, cons_append, tail_cons]
  have dict : nextToken (deepTorrent levels) = some (.ok (.dictStart, encodeString (ascii "announce") ++
      (spell (.string (ascii "u")) ++ (encodeString (ascii "info") ++
        (spell (.dictionary (deepInfo levels)) ++ [101]))))) := by
    rw [deepTorrent, spell_dictionary, deepRoot, flatMap_cons, flatMap_singleton, spellPair, spellPair]
    simp only [append_assoc, cons_append]
    rfl
  refine ⟨(deepInfo levels).tail.flatMap spellPair ++ [101], .intro dict
    (.single (.round (nextToken_stringWord (by decide)) (by intro same; cases same) ran))
    (nextToken_stringWord (by decide)) (expectToken_spell proper) (skipValue_ok proper)
    (expectStart_dict.mpr ((raw _).trans fields)) .refl (nextToken_stringWord (by decide)) ?_⟩
  rw [expectStart_dict, spell_deepTree]
  rfl

/-- No bound on the calls holds for the torrents that are accepted. -/
theorem recursion_unbounded : ¬∃ bound, ∀ bytes file depth, parse lengthDigests (.fromBytes bytes) = .ok file →
    DepthReached lengthDigests bytes depth → depth ≤ bound := by
  rintro ⟨bound, bounded⟩
  obtain ⟨file, accepted⟩ := @deepTorrent_accepted lengthDigests bound
  obtain ⟨rest, starts⟩ := @deepTorrent_starts lengthDigests bound
  have reached := DepthReached.inside starts (firstCall_stacked.mpr (deepTree_descends bound rest))
  exact Nat.not_succ_le_self bound (bounded _ file _ accepted reached)

end Deep

end MetaInfoFile

end BitTorrent
