import CarrotDb.Machine
import CarrotDb.FloatText
import Mathlib

/-! `sortedset.cpp`: members with scores, once in a hash map by member and
once in a set ordered by score and member. -/
namespace CarrotDb

/-- `std::unordered_map` and `std::map`, up to their order of iteration. -/
abbrev Map (κ : Type) (α : Type) := Finmap fun _ : κ => α

/-- `operator<` of a score and a member, which `operator<=>` decides: scores
that are unordered leave both entries unordered. -/
def scoreLess (a b : Float × Bytes) : Bool :=
  a.1 < b.1 || (a.1 == b.1 && a.2 < b.2)

/-- Neither entry is less than the other. -/
def scoreTied (a b : Float × Bytes) : Bool := !scoreLess a b && !scoreLess b a

/-- `SortedSet`; `sets` is listed in order. -/
structure SortedSet where
  hashMap : Map Bytes Float
  sets : List (Float × Bytes)
  length : Nat
  isGeo : Bool

namespace SortedSet

/-- `SortedSet` as its constructor leaves it. -/
def new : SortedSet := ⟨∅, [], 0, false⟩

/-- Whether `operator<` is a strict weak order on entries, as `std::set` asks
of those it holds and the one that is looked up. A not-a-number is tied with
two entries that are not tied with each other. -/
def comparable (entries : List (Float × Bytes)) : Bool :=
  entries.all fun a => !scoreLess a a && entries.all fun b => entries.all fun c =>
    (!(scoreLess a b && scoreLess b c) || scoreLess a c) &&
      (!(scoreTied a b && scoreTied b c) || scoreTied a c)

/-- `sets.insert(entry)`. -/
def insertEntry (entry : Float × Bytes) : List (Float × Bytes) → List (Float × Bytes)
  | [] => [entry]
  | head :: rest =>
    if scoreLess entry head then entry :: head :: rest
    else if scoreLess head entry then head :: insertEntry entry rest
    else head :: rest

/-- `sets.erase(entry)`. -/
def eraseEntry (entry : Float × Bytes) : List (Float × Bytes) → List (Float × Bytes)
  | [] => []
  | head :: rest =>
    if scoreLess entry head then head :: rest
    else if scoreLess head entry then head :: eraseEntry entry rest
    else rest

/-- The position of `sets.find(entry)`. -/
def findEntry (entry : Float × Bytes) (sets : List (Float × Bytes)) : Option Nat :=
  sets.findIdx? fun other => scoreTied entry other

/-- A set operation that compares with an entry. -/
def guarded (sets : List (Float × Bytes)) (entry : Float × Bytes) (result : α) : Exec α :=
  if comparable (entry :: sets) then .ok result else .error .undefinedBehaviour

/-- `SortedSet::insert`: whether the member already existed. -/
def insert (set : SortedSet) (key : Bytes) (score : Float) : Exec (SortedSet × Bool) := do
  let (set, alreadyExists) ←
    match set.hashMap.lookup key with
    | some oldScore => do
      let sets ← guarded set.sets (oldScore, key) (eraseEntry (oldScore, key) set.sets)
      pure ({ set with
        hashMap := set.hashMap.erase key, sets, length := sub64 set.length 1 }, true)
    | none => pure (set, false)
  let sets ← guarded set.sets (score, key) (insertEntry (score, key) set.sets)
  pure ({ set with
    hashMap := set.hashMap.insert key score, sets, length := u64 (set.length + 1) }, alreadyExists)

/-- `SortedSet::remove`. -/
def remove (set : SortedSet) (member : Bytes) : Exec (SortedSet × Bool) :=
  match set.hashMap.lookup member with
  | none => pure (set, false)
  | some score => do
    let sets ← guarded set.sets (score, member) (eraseEntry (score, member) set.sets)
    pure ({ set with
      hashMap := set.hashMap.erase member, sets, length := sub64 set.length 1 }, true)

/-- `SortedSet::rank`. -/
def rank (set : SortedSet) (member : Bytes) : Exec (Option Nat) :=
  match set.hashMap.lookup member with
  | none => pure none
  | some score => guarded set.sets (score, member) (findEntry (score, member) set.sets)

/-- `SortedSet::score`. -/
def score (set : SortedSet) (member : Bytes) : Option Float := set.hashMap.lookup member

/-- `SortedSet::range`. -/
def range (set : SortedSet) (start stop : Int) : List Bytes :=
  let sz : Int := set.sets.length
  if sz = 0 then []
  else
    let start := if start < 0 then sz + start else start
    let stop := if stop < 0 then sz + stop else stop
    let start := if start < 0 then 0 else start
    let stop := if stop ≥ sz then sz - 1 else stop
    if start > stop then []
    else ((set.sets.drop start.toNat).take (stop - start + 1).toNat).map Prod.snd

/-- `SortedSet::size`. -/
def size (set : SortedSet) : Nat := set.length

end SortedSet

end CarrotDb
