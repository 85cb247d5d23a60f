import CarrotDb.Machine
import Mathlib

/-! `radix-tree.cpp`: a compressing radix tree from byte strings to byte
strings. A node's children are a `std::map`, here the list of its pairs in
key order. -/
namespace CarrotDb.RadixTree

mutual
/-- `RadixTreeNode`. -/
inductive RadixTreeNode where
  | node (data : Bytes) (isDataPresent : Bool) (children : Children)
/-- `std::map<std::string, std::unique_ptr<RadixTreeNode>>`, in key order. -/
inductive Children where
  | nil
  | cons (key : Bytes) (child : RadixTreeNode) (rest : Children)
end

/-- A node as `RadixTreeNode()` makes it. -/
def emptyNode : RadixTreeNode := .node [] false .nil

/-- A node with data and no children. -/
def leaf (value : Bytes) : RadixTreeNode := .node value true .nil

/-- `children[key] = node`. -/
def Children.assign (key : Bytes) (node : RadixTreeNode) : Children → Children
  | .nil => .cons key node .nil
  | .cons existing child rest =>
    if key = existing then .cons key node rest
    else if key < existing then .cons key node (.cons existing child rest)
    else .cons existing child (rest.assign key node)

/-- `children.emplace(key, node)`, which keeps an existing pair. -/
def Children.emplace (key : Bytes) (node : RadixTreeNode) : Children → Children
  | .nil => .cons key node .nil
  | .cons existing child rest =>
    if key = existing then .cons existing child rest
    else if key < existing then .cons key node (.cons existing child rest)
    else .cons existing child (rest.emplace key node)

/-- `children.erase(it)` for the pair of a key. -/
def Children.erase (key : Bytes) : Children → Children
  | .nil => .nil
  | .cons existing child rest =>
    if key = existing then rest else .cons existing child (rest.erase key)

/-- `matchedLength`. -/
def matchedLength : Bytes → Bytes → Nat
  | a :: newKey, b :: existingKey => if a = b then matchedLength newKey existingKey + 1 else 0
  | _, _ => 0

/-- The search of `insertImpl` for the best match so far; it stops early when
the whole key matches. -/
def bestMatch (key : Bytes) :
    Children → Nat → Option (Bytes × RadixTreeNode) → Nat × Option (Bytes × RadixTreeNode)
  | .nil, bestMatchedLength, bestIt => (bestMatchedLength, bestIt)
  | .cons existing child rest, bestMatchedLength, bestIt =>
    let length := matchedLength key existing
    if length > bestMatchedLength then
      if length = key.length then (length, some (existing, child))
      else bestMatch key rest length (some (existing, child))
    else bestMatch key rest bestMatchedLength bestIt

/-- The split node that takes the place of a child whose key goes on
differently, or goes on at all, behind the matched part. -/
def splitNode (key oldKey : Bytes) (oldChild : RadixTreeNode) (matched : Nat) (value : Bytes) :
    RadixTreeNode :=
  let children := Children.cons (oldKey.drop matched) oldChild .nil
  if matched = key.length then .node value true children
  else .node [] false (children.emplace (key.drop matched) (leaf value))

/-- `insertImpl`. Every round drops matched bytes from the key, so the rounds
never run out before the key does. -/
def insertImpl (value : Bytes) : (rounds : Nat) → RadixTreeNode → Bytes → RadixTreeNode
  | 0, node, _ => node
  | rounds + 1, .node data isDataPresent children, key =>
    if key = [] then .node value true children
    else
      match bestMatch key children 0 none with
      | (0, _) => .node data isDataPresent (children.assign key (leaf value))
      | (_, none) => .node data isDataPresent (children.assign key (leaf value))
      | (matched, some (existing, child)) =>
        if matched = existing.length then
          .node data isDataPresent
            (children.assign existing (insertImpl value rounds child (key.drop matched)))
        else
          .node data isDataPresent
            ((children.erase existing).emplace (key.take matched)
              (splitNode key existing child matched value))

/-- `RadixTree::insert`, which makes the root on first use. -/
def insert (root : Option RadixTreeNode) (key value : Bytes) : RadixTreeNode :=
  insertImpl value (key.length + 1) (root.getD emptyNode) key

/-- The loop of `search` over the children: the first one whose whole key
starts the remaining key, and what remains behind it. -/
def findChild (remainingKey : Bytes) : Children → Option (Bytes × RadixTreeNode)
  | .nil => none
  | .cons existing child rest =>
    let len := matchedLength remainingKey existing
    if len = existing.length then some (remainingKey.drop len, child)
    else findChild remainingKey rest

/-- The loop of `search` down the tree; `none` when the rounds run out. -/
def searchFrom : (rounds : Nat) → RadixTreeNode → Bytes → Option Bytes
  | 0, _, _ => none
  | rounds + 1, .node data isDataPresent children, remainingKey =>
    if remainingKey = [] then some (if isDataPresent then data else [])
    else
      match findChild remainingKey children with
      | none => some []
      | some (remainingKey, child) => searchFrom rounds child remainingKey

/-- `RadixTree::search`, given as many rounds as the key has bytes and one
more. -/
def search (root : Option RadixTreeNode) (key : Bytes) : Option Bytes :=
  match root with
  | none => some []
  | some root => searchFrom (key.length + 1) root key

/-! ## Range search -/

mutual
/-- `rangeSearchImpl`: the pairs it appends to `result`. -/
def rangeSearchImpl (startKey endKey : Bytes) (isExclusive : Bool) :
    RadixTreeNode → Bytes → List (Bytes × Bytes)
  | .node data isDataPresent children, currentKey =>
    (if isDataPresent ∧ startKey ≤ currentKey ∧ currentKey ≤ endKey ∧
        ¬ (isExclusive ∧ currentKey = startKey) then [(currentKey, data)] else []) ++
      rangeSearchChildren startKey endKey isExclusive children currentKey
/-- Its loop over the children, which returns at the first one behind the
range and passes over those in front of it. -/
def rangeSearchChildren (startKey endKey : Bytes) (isExclusive : Bool) :
    Children → Bytes → List (Bytes × Bytes)
  | .nil, _ => []
  | .cons key child rest, currentKey =>
    let newKey := currentKey ++ key
    if newKey > endKey then []
    else
      let isPrefixStillExists := startKey.length ≥ newKey.length ∧ startKey.take newKey.length = newKey
      if newKey ≤ startKey ∧ ¬ isPrefixStillExists then
        rangeSearchChildren startKey endKey isExclusive rest currentKey
      else
        rangeSearchImpl startKey endKey isExclusive child newKey ++
          rangeSearchChildren startKey endKey isExclusive rest currentKey
end

/-- `RadixTree::rangeSearch`. -/
def rangeSearch (root : Option RadixTreeNode) (startKey endKey : Bytes) (isExclusive : Bool) :
    List (Bytes × Bytes) :=
  match root with
  | none => []
  | some root => rangeSearchImpl startKey endKey isExclusive root []

end CarrotDb.RadixTree
