import Mathlib.Tactic

/-! # Parsers that read exactly a language

A parser takes the symbols that are left and gives a value and the symbols after it.  It reads a
language of words with their values when it succeeds on a word followed by anything, and on
nothing else.
-/

namespace Parsing

open List

universe u v w

variable {S : Type u} {ε : Type v} {α β : Type w}

/-- Words of a language with the values that they stand for. -/
abbrev Language (S : Type u) (α : Type w) := List S → α → Prop

def Reads (parse : List S → Except ε (α × List S)) (words : Language S α) : Prop :=
  ∀ input value rest, parse input = .ok (value, rest) ↔ ∃ word, words word value ∧ input = word ++ rest

section Reads

variable {parse : List S → Except ε (α × List S)} {words : Language S α}

theorem Reads.run (reads : Reads parse words) {word : List S} {value : α} (member : words word value) (rest : List S) :
    parse (word ++ rest) = .ok (value, rest) :=
  (reads _ _ _).mpr ⟨word, member, rfl⟩

theorem Reads.unique (reads : Reads parse words) {first second rest other : List S} {left right : α}
    (member : words first left) (also : words second right) (same : first ++ rest = second ++ other) :
    left = right ∧ first = second ∧ rest = other := by
  have run := reads.run member rest
  rw [same, reads.run also other] at run
  cases run
  exact ⟨rfl, append_cancel_right same, rfl⟩

end Reads

/-- A word of the first language followed by one of the second. -/
def Seq (first : Language S α) (second : Language S β) : Language S (α × β) := fun word value =>
  ∃ front back, first front value.1 ∧ second back value.2 ∧ word = front ++ back

theorem Reads.seq {first : List S → Except ε (α × List S)} {second : List S → Except ε (β × List S)}
    {fronts : Language S α} {backs : Language S β} (readsFirst : Reads first fronts)
    (readsSecond : Reads second backs) :
    Reads (fun input => do
      let (left, input) ← first input
      let (right, input) ← second input
      return ((left, right), input)) (Seq fronts backs) := by
  intro input value rest
  constructor
  · intro parsed
    dsimp only at parsed
    cases ran : first input with
    | error reason =>
      rw [ran] at parsed
      cases parsed
    | ok found =>
      obtain ⟨left, middle⟩ := found
      simp only [ran, bind, Except.bind] at parsed
      cases again : second middle with
      | error reason =>
        rw [again] at parsed
        cases parsed
      | ok found =>
        rw [again] at parsed
        cases parsed
        obtain ⟨front, frontWord, rfl⟩ := (readsFirst _ _ _).mp ran
        obtain ⟨back, backWord, rfl⟩ := (readsSecond _ _ _).mp again
        exact ⟨front ++ back, ⟨front, back, frontWord, backWord, rfl⟩, (append_assoc ..).symm⟩
  · rintro ⟨word, ⟨front, back, frontWord, backWord, rfl⟩, rfl⟩
    rw [append_assoc]
    simp only [readsFirst.run frontWord, readsSecond.run backWord, bind, Except.bind]
    rfl

section Many

variable [DecidableEq S] (stop : S) (exhausted : ε) (parse : List S → Except ε (α × List S))

/-- Values up to the symbol `stop`, in a bounded number of rounds. -/
def manyUntil : Nat → List S → Except ε (List α × List S)
  | 0, _ => .error exhausted
  | rounds + 1, input =>
    if input.head? = some stop then .ok ([], input.tail)
    else do
      let (value, input) ← parse input
      let (values, input) ← manyUntil rounds input
      return (value :: values, input)

/-- Words one after the other, and then the symbol `stop`. -/
def Many (stop : S) (words : Language S α) : Language S (List α) := fun word values =>
  ∃ parts, Forall₂ words parts values ∧ word = parts.flatten ++ [stop]

variable {stop exhausted parse} {words : Language S α}

theorem manyUntil_sound (reads : Reads parse words) {rounds : Nat} {input rest : List S} {values : List α}
    (parsed : manyUntil stop exhausted parse rounds input = .ok (values, rest)) :
    ∃ word, Many stop words word values ∧ input = word ++ rest := by
  induction rounds generalizing input values with
  | zero => cases parsed
  | succ rounds ih =>
    rw [manyUntil] at parsed
    split at parsed
    case isTrue ends =>
      cases parsed
      obtain ⟨tail, rfl⟩ := head?_eq_some_iff.mp ends
      exact ⟨[stop], ⟨[], .nil, rfl⟩, rfl⟩
    case isFalse =>
      cases ran : parse input with
      | error reason =>
        rw [ran] at parsed
        cases parsed
      | ok found =>
        obtain ⟨value, middle⟩ := found
        simp only [ran, bind, Except.bind] at parsed
        cases again : manyUntil stop exhausted parse rounds middle with
        | error reason =>
          rw [again] at parsed
          cases parsed
        | ok found =>
          rw [again] at parsed
          cases parsed
          obtain ⟨front, frontWord, rfl⟩ := (reads _ _ _).mp ran
          obtain ⟨back, ⟨parts, partWords, rfl⟩, rfl⟩ := ih again
          refine ⟨(front :: parts).flatten ++ [stop], ⟨front :: parts, .cons frontWord partWords, rfl⟩, ?_⟩
          simp only [flatten_cons, append_assoc]

/-- No word starts with the symbol. -/
def Avoids (stop : S) (words : Language S α) : Prop :=
  ∀ word value, words word value → ∃ first rest, word = first :: rest ∧ first ≠ stop

theorem manyUntil_complete (reads : Reads parse words) (avoids : Avoids stop words) {rounds : Nat}
    {parts : List (List S)} {values : List α} (rest : List S) (members : Forall₂ words parts values)
    (enough : parts.flatten.length < rounds) :
    manyUntil stop exhausted parse rounds (parts.flatten ++ stop :: rest) = .ok (values, rest) := by
  induction members generalizing rounds with
  | nil =>
    cases rounds with
    | zero => exact absurd enough (Nat.not_lt_zero _)
    | succ rounds =>
      rw [manyUntil, if_pos (by rfl)]
      rfl
  | @cons part value parts values member members ih =>
    cases rounds with
    | zero => exact absurd enough (Nat.not_lt_zero _)
    | succ rounds =>
      obtain ⟨first, more, rfl, different⟩ := avoids part value member
      rw [flatten_cons, length_append, length_cons] at enough
      have next := @ih rounds (by omega)
      rw [flatten_cons, append_assoc, manyUntil, if_neg]
      · simp only [reads.run member, next, bind, Except.bind]
        rfl
      · simpa using different

theorem Reads.manyUntil (reads : Reads parse words) (avoids : Avoids stop words) :
    Reads (fun input => manyUntil stop exhausted parse (input.length + 1) input) (Many stop words) := by
  intro input values rest
  constructor
  · exact manyUntil_sound reads
  · rintro ⟨word, ⟨parts, members, rfl⟩, rfl⟩
    simp only [append_assoc, singleton_append]
    apply manyUntil_complete reads avoids rest members
    simp only [length_append]
    omega

end Many

section Renders

variable {words : Language S α}

/-- A language in which each value has one word, or none. -/
def Renders (words : Language S α) (good : α → Prop) (render : α → List S) : Prop :=
  ∀ word value, words word value ↔ good value ∧ word = render value

theorem Renders.seq {fronts : Language S α} {backs : Language S β} {goodFront : α → Prop} {goodBack : β → Prop}
    {renderFront : α → List S} {renderBack : β → List S} (first : Renders fronts goodFront renderFront)
    (second : Renders backs goodBack renderBack) :
    Renders (Seq fronts backs) (fun value => goodFront value.1 ∧ goodBack value.2)
      fun value => renderFront value.1 ++ renderBack value.2 := by
  intro word value
  constructor
  · intro member
    obtain ⟨front, back, left, right, rfl⟩ := member
    obtain ⟨goodLeft, rfl⟩ := (first front value.1).mp left
    obtain ⟨goodRight, rfl⟩ := (second back value.2).mp right
    exact ⟨⟨goodLeft, goodRight⟩, rfl⟩
  · intro rendered
    obtain ⟨⟨goodLeft, goodRight⟩, rfl⟩ := rendered
    exact ⟨_, _, (first _ _).mpr ⟨goodLeft, rfl⟩, (second _ _).mpr ⟨goodRight, rfl⟩, rfl⟩

theorem Renders.forall₂ {good : α → Prop} {render : α → List S} (renders : Renders words good render)
    {parts : List (List S)} {values : List α} :
    Forall₂ words parts values ↔ (∀ value ∈ values, good value) ∧ parts = values.map render := by
  induction values generalizing parts with
  | nil => simp
  | cons value values ih =>
    rw [forall₂_cons_right_iff, forall_mem_cons, map_cons]
    constructor
    · intro related
      obtain ⟨part, rest, member, later, rfl⟩ := related
      obtain ⟨first, rfl⟩ := (renders part value).mp member
      obtain ⟨others, rfl⟩ := ih.mp later
      exact ⟨⟨first, others⟩, rfl⟩
    · intro rendered
      obtain ⟨⟨first, others⟩, rfl⟩ := rendered
      exact ⟨_, _, (renders _ _).mpr ⟨first, rfl⟩, ih.mpr ⟨others, rfl⟩, rfl⟩

theorem Renders.many {good : α → Prop} {render : α → List S} (renders : Renders words good render) (stop : S) :
    Renders (Many stop words) (fun values => ∀ value ∈ values, good value)
      fun values => values.flatMap render ++ [stop] := by
  intro word values
  constructor
  · intro member
    obtain ⟨parts, related, rfl⟩ := member
    obtain ⟨each, rfl⟩ := renders.forall₂.mp related
    exact ⟨each, by simp only [flatMap_def]⟩
  · intro rendered
    obtain ⟨each, rfl⟩ := rendered
    exact ⟨_, renders.forall₂.mpr ⟨each, rfl⟩, by simp only [flatMap_def]⟩

end Renders

end Parsing
