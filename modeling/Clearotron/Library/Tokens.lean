import Mathlib.Data.List.Infix

/-!
# A token index

A text is cut into maximal runs of token characters. A phrase of tokens is found where its
tokens stand in a row in the text, the last of them read as a prefix. What starts with a
text holds its tokens as a phrase, wherever the text ends, so a search by phrase may narrow
a search by prefix; a text without a token character is a phrase that nothing holds.
-/

namespace Clearotron

variable {α : Type*}

/-- The tokens of a text, the one that is being read included. -/
def tokensFrom (isToken : α → Bool) : List α → List α → List (List α)
  | open', [] => if open'.isEmpty then [] else [open']
  | open', c :: rest =>
    if isToken c then tokensFrom isToken (open' ++ [c]) rest
    else (if open'.isEmpty then [] else [open']) ++ tokensFrom isToken [] rest

def tokens (isToken : α → Bool) (text : List α) : List (List α) := tokensFrom isToken [] text

example : tokens (· ≠ ' ') ['a', ' ', 'b', 'c'] = [['a'], ['b', 'c']] := by
  simp [tokens, tokensFrom]

variable {isToken : α → Bool}

/-- A token that is being read is the start of the next one. -/
theorem tokensFrom_head {cur : List α} (named : cur ≠ []) (rest : List α) :
    ∃ t ts, tokensFrom isToken cur rest = t :: ts ∧ cur <+: t := by
  induction rest generalizing cur with
  | nil => exact ⟨cur, [], by simp [tokensFrom, named], List.prefix_rfl⟩
  | cons c rest ih =>
      unfold tokensFrom
      split
      · obtain ⟨t, ts, isTokens, pre⟩ := @ih (cur ++ [c]) (by simp)
        exact ⟨t, ts, isTokens, (List.prefix_append cur [c]).trans pre⟩
      · refine ⟨cur, tokensFrom isToken [] rest, ?_, List.prefix_rfl⟩
        rw [if_neg (by simp [named])]
        rfl

/-- A text has a token where it has a token character. -/
theorem tokensFrom_eq_nil {cur term : List α} :
    tokensFrom isToken cur term = [] ↔ cur = [] ∧ ∀ c ∈ term, isToken c = false := by
  induction term generalizing cur with
  | nil => simp [tokensFrom]
  | cons c term ih =>
      unfold tokensFrom
      split
      · rename_i letter
        rw [ih]
        simp [letter]
      · rename_i blank
        rw [List.append_eq_nil_iff, ih]
        simp [blank]

theorem tokens_eq_nil {term : List α} :
    tokens isToken term = [] ↔ ∀ c ∈ term, isToken c = false := by
  unfold tokens
  rw [tokensFrom_eq_nil]
  simp

theorem tokensFrom_cons_token {c : α} {s : List α} (letter : isToken c = true) (cur : List α) :
    tokensFrom isToken cur (c :: s) = tokensFrom isToken (cur ++ [c]) s := by
  rw [tokensFrom, if_pos letter]

theorem tokensFrom_cons_blank {c : α} {s : List α} (blank : isToken c = false) (cur : List α) :
    tokensFrom isToken cur (c :: s) =
      (if cur.isEmpty then [] else [cur]) ++ tokensFrom isToken [] s := by
  rw [tokensFrom, if_neg (by simp [blank])]

theorem tokensFrom_append {word : List α} (plain : ∀ c ∈ word, isToken c = true)
    (cur rest : List α) :
    tokensFrom isToken cur (word ++ rest) = tokensFrom isToken (cur ++ word) rest := by
  induction word generalizing cur with
  | nil => simp
  | cons c word ih =>
      obtain ⟨letter, plain⟩ := List.forall_mem_cons.mp plain
      rw [List.cons_append, tokensFrom, if_pos letter, ih plain, List.append_assoc]
      rfl

/-- A word alone is its one token. -/
theorem tokens_word {word : List α} (named : word ≠ []) (plain : ∀ c ∈ word, isToken c = true) :
    tokens isToken word = [word] := by
  have alone := tokensFrom_append plain [] []
  rw [List.append_nil] at alone
  rw [tokens, alone]
  simp [tokensFrom, named]

/-- A word in front of a blank is the first token. -/
theorem tokens_word_append {word : List α} {c : α} (named : word ≠ [])
    (plain : ∀ c ∈ word, isToken c = true) (blank : isToken c = false) (rest : List α) :
    tokens isToken (word ++ c :: rest) = word :: tokens isToken rest := by
  rw [tokens, tokensFrom_append plain, tokensFrom, if_neg (by simp [blank])]
  simp [named, tokens]

/-- A token is of the text's token characters. -/
theorem mem_tokensFrom {cur text t : List α} (plain : ∀ c ∈ cur, isToken c = true)
    (mem : t ∈ tokensFrom isToken cur text) :
    t ≠ [] ∧ ∀ c ∈ t, isToken c = true ∧ (c ∈ cur ∨ c ∈ text) := by
  induction text generalizing cur with
  | nil =>
      rw [tokensFrom] at mem
      split at mem
      · cases mem
      · rename_i named
        obtain rfl := List.mem_singleton.mp mem
        exact ⟨by simpa using named, fun c there => ⟨plain c there, .inl there⟩⟩
  | cons d text ih =>
      rw [tokensFrom] at mem
      split at mem
      · rename_i letter
        have longer : ∀ c ∈ cur ++ [d], isToken c = true := by
          intro c there
          obtain there | there := List.mem_append.mp there
          · exact plain c there
          · exact List.mem_singleton.mp there ▸ letter
        obtain ⟨named, each⟩ := ih longer mem
        refine ⟨named, fun c there => ⟨(each c there).1, ?_⟩⟩
        have from' := (each c there).2
        simp only [List.mem_append, List.mem_cons] at from' ⊢
        tauto
      · obtain here | later := List.mem_append.mp mem
        · split at here
          · cases here
          · rename_i named
            obtain rfl := List.mem_singleton.mp here
            exact ⟨by simpa using named, fun c there => ⟨plain c there, .inl there⟩⟩
        · obtain ⟨named, each⟩ := ih (by simp) later
          refine ⟨named, fun c there => ⟨(each c there).1, ?_⟩⟩
          have from' := (each c there).2
          simp only [List.not_mem_nil, false_or] at from'
          exact .inr (List.mem_cons_of_mem _ from')

theorem mem_tokens {text t : List α} (mem : t ∈ tokens isToken text) :
    t ≠ [] ∧ ∀ c ∈ t, isToken c = true ∧ c ∈ text := by
  obtain ⟨named, each⟩ := mem_tokensFrom (by simp) mem
  exact ⟨named, fun c there => ⟨(each c there).1, by simpa using (each c there).2⟩⟩

variable [DecidableEq α]

/-- The tokens start with those of the phrase, the last of it a prefix. -/
def startsPhrase : List (List α) → List (List α) → Bool
  | [], _ => true
  | _ :: _, [] => false
  | [q], t :: _ => q.isPrefixOf t
  | q :: qs, t :: ts => q = t && startsPhrase qs ts

/-- The phrase stands somewhere in the tokens; one without tokens never does. -/
def holdsPhrase (phrase text : List (List α)) : Bool :=
  !phrase.isEmpty && text.tails.any (startsPhrase phrase)

theorem startsPhrase_cons {q : List α} {qs ts : List (List α)} (rest : startsPhrase qs ts = true) :
    startsPhrase (q :: qs) (q :: ts) = true := by
  cases qs with
  | nil => simp [startsPhrase]
  | cons q' qs => simpa [startsPhrase] using rest

theorem startsPhrase_tokensFrom (cur term rest : List α) :
    startsPhrase (tokensFrom isToken cur term) (tokensFrom isToken cur (term ++ rest)) = true := by
  induction term generalizing cur with
  | nil =>
      by_cases named : cur = []
      · simp [tokensFrom, named, startsPhrase]
      · obtain ⟨t, ts, isTokens, pre⟩ := tokensFrom_head named rest
        have one : tokensFrom isToken cur [] = [cur] := by simp [tokensFrom, named]
        rw [List.nil_append, isTokens, one]
        exact List.isPrefixOf_iff_prefix.mpr pre
  | cons c term ih =>
      rw [List.cons_append]
      unfold tokensFrom
      split
      · exact ih _
      · split
        · exact ih []
        · exact startsPhrase_cons (ih [])

/-- A text that starts with a term holds its tokens as a phrase, if it has any. -/
theorem holdsPhrase_of_prefix {term text : List α} (starts : term <+: text)
    (named : tokens isToken term ≠ []) :
    holdsPhrase (tokens isToken term) (tokens isToken text) = true := by
  obtain ⟨rest, rfl⟩ := starts
  unfold holdsPhrase
  rw [Bool.and_eq_true, List.any_eq_true]
  refine ⟨by simpa using named, _, (List.mem_tails ..).mpr List.suffix_rfl, ?_⟩
  exact startsPhrase_tokensFrom [] term rest

end Clearotron
