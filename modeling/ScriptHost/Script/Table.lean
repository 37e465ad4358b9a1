import ScriptHost.Script.Entries

/-!
# Tables

A table holds a list of items at the positions from one on and, beside it, entries under all other
keys.  There is room for so many entries; when it is used up, the table grows: its list then takes
up the longest run of positions, a power of two, more than half of which have a value, and room is
made for the rest.  A value may become nil; its key keeps its place until the table grows, so that a
traversal may clear the entries that it meets.

A list with holes has more than one length.  The one that is found depends on the horizon of the
table: the search starts there, and a length found inside the list moves it, as does an access to an
item behind it.
-/

namespace ScriptHost

namespace Table

/-- Lists are at most this long. -/
def lengthLimit : Nat := 0x80000000

/-- The index of the item that a key is the position of, in a list of some length. -/
def itemIndex? (length : Nat) : Value → Option Nat
  | .int i => if 1 ≤ i.toInt ∧ i.toInt ≤ length then some (i.toInt.toNat - 1) else none
  | _ => none

/-- Entries go with a list of some length: no position of the list is among their keys. -/
def Apart (length : Nat) (entries : Entries) : Prop :=
  length ≤ lengthLimit ∧
    ∀ key v : Value, entries.get? key = some v → key.asKey = key ∧ itemIndex? length key = none

theorem apart_empty {length : Nat} (short : length ≤ lengthLimit) : Apart length .empty :=
  ⟨short, fun key v found => by simp [Entries.get?, Entries.place?, Entries.empty] at found⟩

theorem Apart.insert {length : Nat} {entries : Entries} (apart : Apart length entries)
    {key : Value} (beside : itemIndex? length key.asKey = none) (v : Value) :
    Apart length (entries.insert key.asKey v) := by
  refine ⟨apart.1, fun other w found => ?_⟩
  rw [Entries.get?_insert] at found
  by_cases same : key.asKey = other
  · subst same
    exact ⟨key.asKey_asKey, beside⟩
  · simp only [beq_iff_eq, same, if_false] at found
    exact apart.2 other w found

end Table

structure Table where
  items : Array Value
  /-- Those under all other keys; integral numbers among these are integers. -/
  entries : Entries
  room : Nat
  metatable : Option TableId
  /-- The position at which the search for the length starts. -/
  horizon : Nat
  sound : Table.Apart items.size entries

namespace Table

/-- A table of nothing but places for items and for entries. -/
def bare (length room : Nat) (metatable : Option TableId) : Table where
  items := .replicate (min length lengthLimit) .nil
  entries := .empty
  room
  metatable
  horizon := min length lengthLimit
  sound := apart_empty (by rw [Array.size_replicate]; exact Nat.min_le_right _ _)

def empty : Table := bare 0 0 none

instance : Inhabited Table := ⟨empty⟩

/-- Whether a value can be a key at all. -/
def isKey : Value → Bool
  | .nil => false
  | .float x => !x.isNaN
  | _ => true

/-- The least power of two that is no smaller; nothing needs no power. -/
def roomFor : Nat → Nat
  | 0 => 0
  | 1 => 1
  | n + 2 => Nat.pow 2 (Nat.log2 (n + 1) + 1)

/-- A table with places for items and for entries. -/
def ofSize (items : Nat) (entries : Nat := 0) : Table :=
  bare items (roomFor entries) none

def get (t : Table) (key : Value) : Value :=
  let key := key.asKey
  match itemIndex? t.items.size key with
  | some index => t.items[index]?.getD .nil
  | none => (t.entries.get? key).getD .nil

/-- The table after an access to a key. -/
def touch (t : Table) (key : Value) : Table :=
  if t.horizon < t.items.size then
    match itemIndex? t.items.size key.asKey with
    | some index => { t with horizon := max t.horizon (index + 1) }
    | none => t
  else t

/-- The pairs from an item on, as positions and values. -/
def positioned : Nat → List Value → List (Value × Value)
  | _, [] => []
  | position, v :: rest => (.int (.ofNat position), v) :: positioned (position + 1) rest

/-- All pairs as a traversal meets them, those without a value included. -/
def ordered (t : Table) : List (Value × Value) :=
  positioned 1 t.items.toList ++ t.entries.toList

/-- The pairs whose values are not nil, as a traversal meets them. -/
def live (t : Table) : List (Value × Value) := t.ordered.filter fun (_, v) => !v.isNil

/-- The number of the power of two that first reaches a position. -/
def powerOf (position : Nat) : Nat := if position ≤ 1 then 0 else Nat.log2 (position - 1) + 1

/-- Lists have at most so many powers of two of items. -/
def powerLimit : Nat := 31

/-- How many keys first lie within each power of two. -/
def census (keys : List Value) : Array Nat :=
  keys.foldl (fun counts key =>
    match key with
    | .int i => if 1 ≤ i.toInt then counts.modify (powerOf i.toInt.toNat) (· + 1) else counts
    | _ => counts) (.replicate (powerLimit + 1) 0)

/--
The best length of a list, found going up the powers of two: more than half of its positions are
taken.  `passed` keys lie within the powers before, and `total` within all.
-/
def bestLength (total : Nat) : List Nat → Nat → Nat → Nat → Nat
  | [], _, _, best => best
  | count :: counts, length, passed, best =>
    if total ≤ length / 2 then best
    else
      let passed := passed + count
      bestLength total counts (2 * length) passed (if length / 2 < passed then length else best)

/-- The table with another item; the horizon does not stay before it. -/
def putItem (t : Table) (index : Nat) (v : Value) : Table :=
  { t with
    items := t.items.setIfInBounds index v
    horizon := max t.horizon (index + 1)
    sound := by simpa using t.sound }

/-- The table with a pair among its entries. -/
def putEntry (t : Table) (key v : Value) (beside : itemIndex? t.items.size key.asKey = none) :
    Table :=
  { t with entries := t.entries.insert key.asKey v, sound := t.sound.insert beside v }

/-- The table with a pair where it belongs, whatever the room. -/
def put (t : Table) (key v : Value) : Table :=
  match place : itemIndex? t.items.size key.asKey with
  | some index => t.putItem index v
  | none => t.putEntry key v place

/-- A table of some length and room that holds the given pairs. -/
def ofPairs (length room : Nat) (metatable : Option TableId) (pairs : List (Value × Value)) :
    Table :=
  pairs.foldl (fun t (key, v) => t.put key v) (bare length room metatable)

/-- The table with one more pair, for whose key there was no room. -/
def grow (t : Table) (key v : Value) : Table :=
  let pairs := t.live ++ [(key, v)]
  let counts := census (pairs.map (·.1))
  let length := bestLength (counts.foldl (· + ·) 0) counts.toList 1 0 0
  let rest := pairs.countP fun (key, _) => (itemIndex? length key).isNone
  ofPairs length (roomFor rest) t.metatable pairs

def set (t : Table) (key v : Value) : Table :=
  match place : itemIndex? t.items.size key.asKey with
  | some index => t.putItem index v
  | none =>
    if (t.entries.place? key.asKey).isSome then t.putEntry key v place
    else if v.isNil then t
    else if t.entries.size < t.room then t.putEntry key v place
    else t.grow key.asKey v

/-- The table with a list of at least some length. -/
def lengthen (t : Table) (length : Nat) : Table :=
  if length ≤ t.items.size then t else ofPairs length t.room t.metatable t.live

/-- The pair at a place of the traversal. -/
def pairAt? (t : Table) (place : Nat) : Option (Value × Value) :=
  match t.items[place]? with
  | some v => some (.int (.ofNat (place + 1)), v)
  | none => t.entries.pairs[place - t.items.size]?

/-- The first pair with a value among so many from a place of the traversal on. -/
def firstFrom (t : Table) : Nat → Nat → Option (Value × Value)
  | 0, _ => none
  | count + 1, place =>
    match t.pairAt? place with
    | some (key, v) => if v.isNil then firstFrom t count (place + 1) else some (key, v)
    | none => none

/-- The place after that of a key in the traversal; nil stands before all keys. -/
def placeAfter? (t : Table) (key : Value) : Option Nat :=
  if key.isNil then some 0
  else
    match itemIndex? t.items.size key.asKey with
    | some index => some (index + 1)
    | none => (t.entries.place? key.asKey).map fun place => t.items.size + place + 1

/-- The first live pair after a key, the first of all after nil; `none` if there is no such key. -/
def next? (t : Table) (key : Value) : Option (Option (Value × Value)) :=
  (t.placeAfter? key).map fun place => t.firstFrom (t.items.size + t.entries.size - place) place

/-- The table without the values of some pairs, the keys of which keep their places. -/
def clear (t : Table) (gone : Value → Value → Bool) : Table :=
  let cleared := t.live.foldl (fun t (key, v) => if gone key v then t.set key .nil else t) t
  { cleared with horizon := t.horizon }

def item (t : Table) (index : Nat) : Value := t.get (.int (.ofNat index))

/-- Halves an interval that starts before a present item and ends at a missing one. -/
def halve (t : Table) : Nat → Nat → Nat → Nat
  | 0, low, _ => low
  | fuel + 1, low, high =>
    if high - low ≤ 1 then low
    else
      let middle := (low + high) / 2
      if (t.item middle).isNil then halve t fuel low middle else halve t fuel middle high

/-- Doubles a position until its item is missing, then goes back to the last one present. -/
def searchOn (t : Table) : Nat → Nat → Nat
  | 0, low => low
  | fuel + 1, low =>
    let high := 2 * low
    if (t.item high).isNil then t.halve 64 low high else searchOn t fuel high

def isMissing (t : Table) (index : Nat) : Bool := (t.item index).isNil

/-- Whether a size is a power of two, as nothing is too. -/
def isPower (size : Nat) : Bool := roomFor size == size

/--
The length, which is a number of items after which the next is missing, and the horizon after the
search.  The horizon may stand inside a list only if the size of the list is the least power of two
from there on.
-/
def search (t : Table) : Nat × Nat :=
  let size := t.items.size
  let horizon := t.horizon
  if 0 < horizon ∧ t.isMissing horizon then
    if 2 ≤ horizon ∧ !t.isMissing (horizon - 1) then
      (horizon - 1, if isPower size && !isPower (horizon - 1) then horizon - 1 else horizon)
    else
      let length := t.halve 64 0 horizon
      (length, if isPower size ∧ size / 2 < length then length else horizon)
  else if horizon < size ∧ t.isMissing (horizon + 1) then (horizon, horizon)
  else if horizon < size ∧ t.isMissing size then
    let length := t.halve 64 horizon size
    (length, length)
  else if t.isMissing (size + 1) then (size, horizon)
  else (t.searchOn 64 (max size 1), horizon)

end Table

end ScriptHost
