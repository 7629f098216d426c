import Mathlib.Data.List.TakeWhile
import ChimeraMQ.Foundation.Address
import ChimeraMQ.Foundation.Wildcards

/-!
# Topic exchanges

The bindings of a topic exchange have patterns of words with dots between them.
A star matches one word and a hash any number of them.
-/

namespace ChimeraMQ
namespace Exchange

open Foundation

/-- Match words from where the two cursors are; the lists are what follows. -/
def matchParts : List Bytes -> List Bytes -> Bool
  | [], key => key.isEmpty
  | p :: pattern, [] =>
    ((p :: pattern).dropWhile (fun part => part = ascii "#")).isEmpty
  | p :: pattern, k :: key =>
    if p = ascii "#" then
      (k :: key).tails.any (fun rest => matchParts pattern rest)
    else if p = ascii "*" then matchParts pattern key
    else if p ≠ k then false
    else matchParts pattern key

def topicMatch (pattern key : Bytes) : Bool :=
  if pattern = ascii "#" then true
  else if pattern = key then true
  else matchParts (splitOn 46 pattern) (splitOn 46 key)

/-!
## Matching
-/

theorem star_ne_hash : ascii "*" ≠ ascii "#" := by
  decide

theorem dropWhile_isEmpty_iff (pattern : List Bytes) :
    (pattern.dropWhile (fun part => part = ascii "#")).isEmpty = true <->
      forall part, part ∈ pattern -> part = ascii "#" := by
  simp [List.dropWhile_eq_nil_iff]

theorem matchParts_iff (pattern key : List Bytes) :
    matchParts pattern key = true <->
      Expands (ascii "*") (ascii "#") pattern key := by
  induction pattern generalizing key with
  | nil => simp [matchParts, expands_nil]
  | cons p pattern ih =>
  cases key with
  | nil =>
    rw [matchParts, dropWhile_isEmpty_iff,
      expands_nil_right star_ne_hash]
  | cons k key =>
  rw [matchParts]
  by_cases hhash : p = ascii "#"
  · rw [if_pos hhash, hhash, expands_many, List.any_eq_true]
    simp only [List.mem_tails, ih]
  rw [if_neg hhash]
  by_cases hstar : p = ascii "*"
  · rw [if_pos hstar, hstar, expands_one star_ne_hash, ih]
  rw [if_neg hstar, expands_item hhash hstar]
  by_cases hk : p = k
  · simp [hk, ih]
  · simp [hk]

theorem matchParts_hash (key : List Bytes) :
    matchParts (splitOn 46 (ascii "#")) key = true := by
  rw [show splitOn 46 (ascii "#") = [ascii "#"] by decide, matchParts_iff,
    expands_many]
  exact ⟨[], List.nil_suffix, expands_nil.mpr rfl⟩

theorem topicMatch_eq_matchParts (pattern key : Bytes) :
    topicMatch pattern key =
      matchParts (splitOn 46 pattern) (splitOn 46 key) := by
  unfold topicMatch
  by_cases hhash : pattern = ascii "#"
  · rw [if_pos hhash, hhash, matchParts_hash]
  rw [if_neg hhash]
  by_cases hkey : pattern = key
  · rw [if_pos hkey, hkey]
    exact ((matchParts_iff _ _).mpr (expands_refl _)).symm
  · rw [if_neg hkey]

/--
A pattern matches the keys whose words it becomes when stars and hashes are
replaced; the tests that come first change nothing.
-/
theorem topicMatch_expands (pattern key : Bytes) :
    topicMatch pattern key =
        matchParts (splitOn 46 pattern) (splitOn 46 key) ∧
      (topicMatch pattern key = true <->
        Expands (ascii "*") (ascii "#") (splitOn 46 pattern)
          (splitOn 46 key)) := by
  constructor
  · exact topicMatch_eq_matchParts pattern key
  · rw [topicMatch_eq_matchParts]
    exact matchParts_iff _ _

example : topicMatch (ascii "*.server.#") (ascii "app.server") = true := by
  decide

end Exchange
end ChimeraMQ
