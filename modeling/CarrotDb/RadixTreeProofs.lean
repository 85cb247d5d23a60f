import CarrotDb.RadixTree
import CarrotDb.Lib.PrefixOrder
import CarrotDb.Lib.SortedMap

/-! The radix tree is a sorted map. Its pairs, read off in key order, are
updated by an insertion in exactly one place, and a range search lists
exactly the pairs of the range. -/
namespace CarrotDb.RadixTree
open PrefixOrder SortedMap

mutual
/-- The pairs below a node that lies at a path, in key order. -/
def entries : RadixTreeNode → Bytes → List (Bytes × Bytes)
  | .node data isDataPresent children, path =>
    (if isDataPresent then [(path, data)] else []) ++ childEntries children path
def childEntries : Children → Bytes → List (Bytes × Bytes)
  | .nil, _ => []
  | .cons key child rest, path => entries child (path ++ key) ++ childEntries rest path
end

/-- Every key starts with a greater byte. -/
def Above (first : UInt8) : Children → Prop
  | .nil => True
  | .cons key _ rest => (∃ byte more, key = byte :: more ∧ first < byte) ∧ Above first rest

mutual
/-- No key is empty, and siblings start with different bytes in order. -/
def Valid : RadixTreeNode → Prop
  | .node _ _ children => ValidChildren children
def ValidChildren : Children → Prop
  | .nil => True
  | .cons key child rest =>
    (∃ first more, key = first :: more ∧ Above first rest) ∧ Valid child ∧ ValidChildren rest
end

mutual
theorem entries_extending (node : RadixTreeNode) (path : Bytes) :
    ∀ pair ∈ entries node path, path <+: pair.1 := by
  intro pair member
  cases node with
  | node data isDataPresent children =>
    rw [entries, List.mem_append] at member
    rcases member with own | below
    · split at own
      · exact List.mem_singleton.mp own ▸ List.prefix_rfl
      · exact absurd own List.not_mem_nil
    · exact childEntries_extending children path pair below
theorem childEntries_extending (children : Children) (path : Bytes) :
    ∀ pair ∈ childEntries children path, path <+: pair.1 := by
  intro pair member
  cases children with
  | nil => exact absurd member List.not_mem_nil
  | cons key child rest =>
    rw [childEntries, List.mem_append] at member
    rcases member with here | later
    · exact (List.prefix_append path key).trans (entries_extending child (path ++ key) pair here)
    · exact childEntries_extending rest path pair later
end

private theorem above_trans {low high : UInt8} (less : low < high) :
    (children : Children) → Above high children → Above low children
  | .nil, _ => trivial
  | .cons _ _ rest, ⟨⟨byte, more, shape, greater⟩, later⟩ =>
    ⟨⟨byte, more, shape, lt_trans less greater⟩, above_trans less rest later⟩

/-- Everything below greater siblings is greater than anything that goes on
with the smaller byte. -/
theorem childEntries_above {first : UInt8} (children : Children) (above : Above first children)
    (path tail : Bytes) : ∀ pair ∈ childEntries children path, path ++ first :: tail < pair.1 := by
  intro pair member
  cases children with
  | nil => exact absurd member List.not_mem_nil
  | cons key child rest =>
    obtain ⟨⟨byte, more, rfl, greater⟩, later⟩ := above
    rw [childEntries, List.mem_append] at member
    rcases member with here | behind
    · obtain ⟨ending, shape⟩ := entries_extending child (path ++ byte :: more) pair here
      rw [← shape, List.append_assoc]
      exact append_lt_of_head greater
    · exact childEntries_above rest later path tail pair behind

/-- Everything below a node is smaller than anything that goes on with a
greater byte than its own key. -/
private theorem entries_below {first byte : UInt8} (less : first < byte) (node : RadixTreeNode)
    (path more tail : Bytes) :
    ∀ pair ∈ entries node (path ++ first :: more), pair.1 < path ++ byte :: tail := by
  intro pair member
  obtain ⟨ending, shape⟩ := entries_extending node (path ++ first :: more) pair member
  rw [← shape, List.append_assoc]
  exact append_lt_of_head less

private theorem entries_above {first byte : UInt8} (less : byte < first) (node : RadixTreeNode)
    (path more tail : Bytes) :
    ∀ pair ∈ entries node (path ++ first :: more), path ++ byte :: tail < pair.1 := by
  intro pair member
  obtain ⟨ending, shape⟩ := entries_extending node (path ++ first :: more) pair member
  rw [← shape, List.append_assoc]
  exact append_lt_of_head less

/-- What lies strictly below a path is greater than the path. -/
private theorem entries_longer {key : Bytes} (nonempty : key ≠ []) (node : RadixTreeNode)
    (path : Bytes) : ∀ pair ∈ entries node (path ++ key), path < pair.1 := by
  intro pair member
  obtain ⟨ending, shape⟩ := entries_extending node (path ++ key) pair member
  refine lt_of_le_of_ne (shape ▸ (List.append_assoc path key ending) ▸ le_append _ _) fun same => ?_
  have lengths := congrArg List.length (same.trans shape.symm)
  have positive := List.length_pos_iff.mpr nonempty
  simp only [List.length_append] at lengths
  omega

/-- What lies below the children of a node is greater than the node's path. -/
theorem childEntries_longer (children : Children) (valid : ValidChildren children)
    (path : Bytes) : ∀ pair ∈ childEntries children path, path < pair.1 := by
  intro pair member
  cases children with
  | nil => exact absurd member List.not_mem_nil
  | cons key child rest =>
    obtain ⟨⟨first, more, rfl, -⟩, -, validRest⟩ := valid
    rw [childEntries, List.mem_append] at member
    rcases member with here | later
    · exact entries_longer (List.cons_ne_nil _ _) child path pair here
    · exact childEntries_longer rest validRest path pair later

/-! ## Insertion -/

private theorem matchedLength_split (key existing : Bytes) :
    ∃ newTail oldTail, key = key.take (matchedLength key existing) ++ newTail ∧
      existing = key.take (matchedLength key existing) ++ oldTail ∧
      newTail = key.drop (matchedLength key existing) ∧
      oldTail = existing.drop (matchedLength key existing) ∧
      (key.take (matchedLength key existing)).length = matchedLength key existing ∧
      (newTail = [] ∨ oldTail = [] ∨ newTail.head? ≠ oldTail.head?) := by
  induction key generalizing existing with
  | nil => exact ⟨[], existing, by simp [matchedLength]⟩
  | cons a key ih =>
    cases existing with
    | nil => exact ⟨a :: key, [], by simp [matchedLength]⟩
    | cons b existing =>
      by_cases same : a = b
      · subst same
        obtain ⟨newTail, oldTail, first, second, third, fourth, size, apart⟩ := ih existing
        rw [matchedLength, if_pos rfl]
        refine ⟨newTail, oldTail, ?_, ?_, ?_, ?_, ?_, apart⟩
        · rw [List.take_succ_cons, List.cons_append, ← first]
        · rw [List.take_succ_cons, List.cons_append, ← second]
        · rwa [List.drop_succ_cons]
        · rwa [List.drop_succ_cons]
        · rw [List.take_succ_cons, List.length_cons, size]
      · rw [matchedLength, if_neg same]
        exact ⟨a :: key, b :: existing, by simp [same]⟩

private theorem matchedLength_cons_of_ne {a b : UInt8} (different : a ≠ b) (key existing : Bytes) :
    matchedLength (a :: key) (b :: existing) = 0 := by rw [matchedLength, if_neg different]

private theorem matchedLength_cons_self (a : UInt8) (key existing : Bytes) :
    matchedLength (a :: key) (a :: existing) = matchedLength key existing + 1 := by
  rw [matchedLength, if_pos rfl]

/-- What a round of insertion does to the children, told child by child: the
first one that shares a byte with the key takes it, and a key that shares
none goes in front of the first greater one. -/
def place (deeper : RadixTreeNode → Bytes → RadixTreeNode) (key value : Bytes) :
    Children → Children
  | .nil => .cons key (leaf value) .nil
  | .cons existing child rest =>
    if matchedLength key existing = 0 then
      if key < existing then .cons key (leaf value) (.cons existing child rest)
      else .cons existing child (place deeper key value rest)
    else if matchedLength key existing = existing.length then
      .cons existing (deeper child (key.drop (matchedLength key existing))) rest
    else
      .cons (key.take (matchedLength key existing))
        (splitNode key existing child (matchedLength key existing) value) rest

/-- What `insertImpl` does with the best match it found. -/
def settle (deeper : RadixTreeNode → Bytes → RadixTreeNode) (key value : Bytes)
    (children : Children) : Nat × Option (Bytes × RadixTreeNode) → Children
  | (0, _) => children.assign key (leaf value)
  | (_, none) => children.assign key (leaf value)
  | (matched + 1, some (existing, child)) =>
    if matched + 1 = existing.length then
      children.assign existing (deeper child (key.drop (matched + 1)))
    else
      (children.erase existing).emplace (key.take (matched + 1))
        (splitNode key existing child (matched + 1) value)

theorem insertImpl_settle (value : Bytes) (rounds : Nat) (data : Bytes)
    (isDataPresent : Bool) (children : Children) {key : Bytes} (nonempty : key ≠ []) :
    insertImpl value (rounds + 1) (.node data isDataPresent children) key =
      .node data isDataPresent
        (settle (insertImpl value rounds) key value children (bestMatch key children 0 none)) := by
  rw [insertImpl, if_neg nonempty]
  rcases bestMatch key children 0 none with ⟨_ | matched, _ | ⟨existing, child⟩⟩
  · rfl
  · rfl
  · rfl
  · dsimp only [settle]
    by_cases full : matched + 1 = existing.length
    · rw [if_pos full]
      exact if_pos full
    · rw [if_neg full]
      exact if_neg full

private theorem bestMatch_above {first : UInt8} {tail : Bytes} :
    (children : Children) → Above first children → (best : Nat) →
      (bestIt : Option (Bytes × RadixTreeNode)) →
      bestMatch (first :: tail) children best bestIt = (best, bestIt)
  | .nil, _, _, _ => rfl
  | .cons _ _ rest, ⟨⟨byte, more, shape, greater⟩, later⟩, best, bestIt => by
    subst shape
    rw [bestMatch]
    simp only [matchedLength_cons_of_ne (ne_of_lt greater), gt_iff_lt, Nat.not_lt_zero, ↓reduceIte]
    exact bestMatch_above rest later best bestIt

private theorem bestMatch_head {first : UInt8} {tail more : Bytes} {child : RadixTreeNode}
    {rest : Children} (above : Above first rest) :
    bestMatch (first :: tail) (.cons (first :: more) child rest) 0 none =
      (matchedLength (first :: tail) (first :: more), some (first :: more, child)) := by
  rw [bestMatch]
  simp only [matchedLength_cons_self, gt_iff_lt, Nat.succ_pos, ↓reduceIte]
  split
  · rfl
  · exact bestMatch_above rest above _ _

private theorem bestMatch_skip {first byte : UInt8} {tail more : Bytes} {child : RadixTreeNode}
    (different : first ≠ byte) (rest : Children) :
    bestMatch (first :: tail) (.cons (byte :: more) child rest) 0 none =
      bestMatch (first :: tail) rest 0 none := by
  rw [bestMatch]
  simp only [matchedLength_cons_of_ne different, gt_iff_lt, Nat.lt_irrefl, ↓reduceIte]

/-- A match that was found starts with the key's first byte. -/
private theorem bestMatch_found {first : UInt8} {tail : Bytes} :
    (children : Children) → ValidChildren children →
      bestMatch (first :: tail) children 0 none = (0, none) ∨
      ∃ matched more child, bestMatch (first :: tail) children 0 none =
        (matched + 1, some (first :: more, child))
  | .nil, _ => .inl rfl
  | .cons key child rest, ⟨⟨byte, more, shape, above⟩, _, validRest⟩ => by
    subst shape
    by_cases same : first = byte
    · subst same
      exact .inr ⟨matchedLength tail more, more, child, by
        rw [bestMatch_head above, matchedLength_cons_self]⟩
    · rw [bestMatch_skip same]
      exact bestMatch_found rest validRest

private theorem assign_skip {first byte : UInt8} {tail more : Bytes} {child node : RadixTreeNode}
    {rest : Children} (less : byte < first) :
    Children.assign (first :: tail) node (.cons (byte :: more) child rest) =
      .cons (byte :: more) child (rest.assign (first :: tail) node) := by
  rw [Children.assign, if_neg (by simp [ne_of_gt less]),
    if_neg (not_lt_of_gt (List.cons_lt_cons_iff.mpr (.inl less)))]

private theorem emplace_skip {first byte : UInt8} {tail more : Bytes} {child node : RadixTreeNode}
    {rest : Children} (less : byte < first) :
    Children.emplace (first :: tail) node (.cons (byte :: more) child rest) =
      .cons (byte :: more) child (rest.emplace (first :: tail) node) := by
  rw [Children.emplace, if_neg (by simp [ne_of_gt less]),
    if_neg (not_lt_of_gt (List.cons_lt_cons_iff.mpr (.inl less)))]

private theorem emplace_front {first : UInt8} {tail : Bytes} {node : RadixTreeNode}
    {children : Children} (above : Above first children) :
    Children.emplace (first :: tail) node children = .cons (first :: tail) node children := by
  cases children with
  | nil => rfl
  | cons key child rest =>
    obtain ⟨⟨byte, more, rfl, greater⟩, -⟩ := above
    rw [Children.emplace, if_neg (by simp [ne_of_lt greater]),
      if_pos (List.cons_lt_cons_iff.mpr (.inl greater))]

private theorem erase_skip {first byte : UInt8} {tail more : Bytes} {child : RadixTreeNode}
    {rest : Children} (different : first ≠ byte) :
    Children.erase (first :: tail) (.cons (byte :: more) child rest) =
      .cons (byte :: more) child (rest.erase (first :: tail)) := by
  rw [Children.erase, if_neg (by simp [different])]

private theorem settle_skip (deeper : RadixTreeNode → Bytes → RadixTreeNode) {first byte : UInt8}
    {tail more value : Bytes} {child : RadixTreeNode} {rest : Children} (less : byte < first)
    (found : (Nat × Option (Bytes × RadixTreeNode)))
    (shape : found = (0, none) ∨
      ∃ matched ending other, found = (matched + 1, some (first :: ending, other))) :
    settle deeper (first :: tail) value (.cons (byte :: more) child rest) found =
      .cons (byte :: more) child (settle deeper (first :: tail) value rest found) := by
  rcases shape with rfl | ⟨matched, ending, other, rfl⟩
  · exact assign_skip less
  · dsimp only [settle]
    split
    · exact assign_skip less
    · rw [erase_skip (ne_of_gt less), List.take_succ_cons, emplace_skip less]

/-- The search for the best match and the changes made with it place the key
where its first byte belongs. -/
theorem settle_eq_place (deeper : RadixTreeNode → Bytes → RadixTreeNode) (value : Bytes)
    (first : UInt8) (tail : Bytes) : (children : Children) → ValidChildren children →
      settle deeper (first :: tail) value children (bestMatch (first :: tail) children 0 none) =
        place deeper (first :: tail) value children
  | .nil, _ => rfl
  | .cons key child rest, ⟨⟨byte, more, shape, above⟩, _, validRest⟩ => by
    subst shape
    rw [place]
    rcases lt_trichotomy first byte with less | rfl | greater
    · have order : first :: tail < byte :: more := List.cons_lt_cons_iff.mpr (.inl less)
      rw [bestMatch_skip (ne_of_lt less), bestMatch_above rest (above_trans less rest above),
        matchedLength_cons_of_ne (ne_of_lt less), if_pos rfl, if_pos order]
      dsimp only [settle]
      rw [Children.assign, if_neg (ne_of_lt order), if_pos order]
    · rw [bestMatch_head above, matchedLength_cons_self, if_neg (Nat.succ_ne_zero _)]
      dsimp only [settle]
      split
      · rw [Children.assign, if_pos rfl]
      · rw [Children.erase, if_pos rfl, List.take_succ_cons, emplace_front above]
    · have order : ¬ first :: tail < byte :: more :=
        not_lt_of_gt (List.cons_lt_cons_iff.mpr (.inl greater))
      rw [bestMatch_skip (ne_of_gt greater), matchedLength_cons_of_ne (ne_of_gt greater),
        if_pos rfl, if_neg order,
        settle_skip deeper greater _ (bestMatch_found rest validRest),
        settle_eq_place deeper value first tail rest validRest]

/-- The tails of a split start with different bytes, or the new one is
empty. -/
private theorem splitNode_cases (shared newTail oldTail value : Bytes) (child : RadixTreeNode)
    (nonempty : oldTail ≠ []) (apart : newTail = [] ∨ oldTail = [] ∨ newTail.head? ≠ oldTail.head?) :
    (newTail = [] ∧ splitNode (shared ++ newTail) (shared ++ oldTail) child shared.length value =
        .node value true (.cons oldTail child .nil)) ∨
    (∃ a b more rest, newTail = a :: more ∧ oldTail = b :: rest ∧ a < b ∧
      splitNode (shared ++ newTail) (shared ++ oldTail) child shared.length value =
        .node [] false (.cons newTail (leaf value) (.cons oldTail child .nil))) ∨
    (∃ a b more rest, newTail = a :: more ∧ oldTail = b :: rest ∧ b < a ∧
      splitNode (shared ++ newTail) (shared ++ oldTail) child shared.length value =
        .node [] false (.cons oldTail child (.cons newTail (leaf value) .nil))) := by
  obtain ⟨b, rest, rfl⟩ := List.exists_cons_of_ne_nil nonempty
  rw [splitNode]
  simp only [List.drop_left]
  cases newTail with
  | nil => exact .inl ⟨rfl, by simp⟩
  | cons a more =>
    have different : a ≠ b := by simpa using apart
    have longer : shared.length ≠ (shared ++ a :: more).length := by
      simp only [List.length_append, List.length_cons]
      omega
    simp only [if_neg longer]
    rcases lt_or_gt_of_ne different with less | greater
    · refine .inr (.inl ⟨a, b, more, rest, rfl, rfl, less, ?_⟩)
      have above : Above a (.cons (b :: rest) child .nil) := ⟨⟨b, rest, rfl, less⟩, trivial⟩
      rw [emplace_front above]
    · refine .inr (.inr ⟨a, b, more, rest, rfl, rfl, greater, ?_⟩)
      rw [emplace_skip greater]
      rfl

private theorem splitNode_entries (shared newTail oldTail value path : Bytes)
    (child : RadixTreeNode) (nonempty : oldTail ≠ [])
    (apart : newTail = [] ∨ oldTail = [] ∨ newTail.head? ≠ oldTail.head?) :
    entries (splitNode (shared ++ newTail) (shared ++ oldTail) child shared.length value)
        (path ++ shared) =
      upsert (path ++ (shared ++ newTail)) value (entries child (path ++ (shared ++ oldTail))) := by
  rw [← List.append_assoc path, ← List.append_assoc path]
  rcases splitNode_cases shared newTail oldTail value child nonempty apart with
    ⟨rfl, shape⟩ | ⟨a, b, more, rest, rfl, rfl, less, shape⟩ |
    ⟨a, b, more, rest, rfl, rfl, less, shape⟩
  · rw [shape, List.append_nil, upsert_front (entries_longer nonempty child (path ++ shared))]
    simp [entries, childEntries]
  · rw [shape, upsert_front (entries_above less child (path ++ shared) rest more)]
    simp [entries, childEntries, leaf]
  · rw [shape, upsert_last (entries_below less child (path ++ shared) rest more)]
    simp [entries, childEntries, leaf]

private theorem splitNode_valid (shared newTail oldTail value : Bytes) {child : RadixTreeNode}
    (valid : Valid child) (nonempty : oldTail ≠ [])
    (apart : newTail = [] ∨ oldTail = [] ∨ newTail.head? ≠ oldTail.head?) :
    Valid (splitNode (shared ++ newTail) (shared ++ oldTail) child shared.length value) := by
  rcases splitNode_cases shared newTail oldTail value child nonempty apart with
    ⟨rfl, shape⟩ | ⟨a, b, more, rest, rfl, rfl, less, shape⟩ |
    ⟨a, b, more, rest, rfl, rfl, less, shape⟩
  · obtain ⟨b, rest, rfl⟩ := List.exists_cons_of_ne_nil nonempty
    rw [shape]
    exact ⟨⟨b, rest, rfl, trivial⟩, valid, trivial⟩
  · rw [shape]
    exact ⟨⟨a, more, rfl, ⟨b, rest, rfl, less⟩, trivial⟩, trivial,
      ⟨b, rest, rfl, trivial⟩, valid, trivial⟩
  · rw [shape]
    exact ⟨⟨b, rest, rfl, ⟨a, more, rfl, less⟩, trivial⟩, valid,
      ⟨a, more, rfl, trivial⟩, trivial, trivial⟩

/-- The descent is right at every child: it binds the key below the child. -/
def Descends (deeper : RadixTreeNode → Bytes → RadixTreeNode) (value : Bytes) (size : Nat) : Prop :=
  ∀ child key path, Valid child → key.length ≤ size →
    Valid (deeper child key) ∧ entries (deeper child key) path =
      upsert (path ++ key) value (entries child path)

private theorem place_above (deeper : RadixTreeNode → Bytes → RadixTreeNode) {low first : UInt8}
    {tail value : Bytes} (less : low < first) : (children : Children) → Above low children →
      Above low (place deeper (first :: tail) value children)
  | .nil, _ => ⟨⟨first, tail, rfl, less⟩, trivial⟩
  | .cons key child rest, ⟨⟨byte, more, shape, greater⟩, later⟩ => by
    subst shape
    rw [place]
    rcases eq_or_ne first byte with rfl | different
    · rw [matchedLength_cons_self, if_neg (Nat.succ_ne_zero _)]
      split
      · exact ⟨⟨first, more, rfl, greater⟩, later⟩
      · exact ⟨⟨first, _, List.take_succ_cons, less⟩, later⟩
    · rw [matchedLength_cons_of_ne different, if_pos rfl]
      split
      · exact ⟨⟨first, tail, rfl, less⟩, ⟨byte, more, rfl, greater⟩, later⟩
      · exact ⟨⟨byte, more, rfl, greater⟩, place_above deeper less rest later⟩

/-- Placing a key binds it and keeps the children in order. -/
theorem place_entries {deeper : RadixTreeNode → Bytes → RadixTreeNode} {value : Bytes}
    (first : UInt8) (tail path : Bytes) (descends : Descends deeper value tail.length) :
    (children : Children) → ValidChildren children →
      ValidChildren (place deeper (first :: tail) value children) ∧
      childEntries (place deeper (first :: tail) value children) path =
        upsert (path ++ first :: tail) value (childEntries children path)
  | .nil, _ => ⟨⟨⟨first, tail, rfl, trivial⟩, trivial, trivial⟩, by
      simp [place, childEntries, entries, leaf, upsert]⟩
  | .cons key child rest, ⟨⟨byte, more, shape, above⟩, validChild, validRest⟩ => by
    subst shape
    rw [place]
    rcases lt_trichotomy first byte with less | rfl | greater
    · have order : first :: tail < byte :: more := List.cons_lt_cons_iff.mpr (.inl less)
      have whole : Above first (.cons (byte :: more) child rest) :=
        ⟨⟨byte, more, rfl, less⟩, above_trans less rest above⟩
      rw [matchedLength_cons_of_ne (ne_of_lt less), if_pos rfl, if_pos order,
        upsert_front (childEntries_above _ whole path tail)]
      refine ⟨⟨⟨first, tail, rfl, whole⟩, trivial, ⟨byte, more, rfl, above⟩, validChild, validRest⟩, ?_⟩
      simp [childEntries, entries, leaf]
    · obtain ⟨newTail, oldTail, keySplit, oldSplit, newShape, oldShape, size, apart⟩ :=
        matchedLength_split (first :: tail) (first :: more)
      rw [matchedLength_cons_self] at keySplit oldSplit newShape oldShape size ⊢
      rw [if_neg (Nat.succ_ne_zero _), childEntries,
        upsert_append_left (childEntries_above rest above path tail)]
      generalize matchedLength tail more = before at *
      by_cases full : before + 1 = (first :: more).length
      · have empty : oldTail = [] := by rw [oldShape, full, List.drop_length]
        have bound : ((first :: tail).drop (before + 1)).length ≤ tail.length := by
          simp only [List.length_drop, List.length_cons]
          omega
        obtain ⟨valid, below⟩ := descends child _ (path ++ first :: more) validChild bound
        have whole : first :: tail = (first :: more) ++ (first :: tail).drop (before + 1) := by
          rw [empty, List.append_nil] at oldSplit
          rw [← newShape, oldSplit]
          exact keySplit
        rw [if_pos full]
        refine ⟨⟨⟨first, more, rfl, above⟩, valid, validRest⟩, ?_⟩
        rw [childEntries, below, List.append_assoc, ← whole]
      · have nonempty : oldTail ≠ [] := by
          intro empty
          rw [empty, List.append_nil] at oldSplit
          exact full (by rw [← size, ← oldSplit])
        rw [if_neg full]
        have entriesSplit := splitNode_entries ((first :: tail).take (before + 1)) newTail oldTail
          value path child nonempty apart
        have validSplit := splitNode_valid ((first :: tail).take (before + 1)) newTail oldTail
          value validChild nonempty apart
        rw [← keySplit, ← oldSplit, size] at entriesSplit validSplit
        refine ⟨⟨⟨first, tail.take before, rfl, above⟩, validSplit, validRest⟩, ?_⟩
        rw [childEntries, entriesSplit]
    · have order : ¬ first :: tail < byte :: more :=
        not_lt_of_gt (List.cons_lt_cons_iff.mpr (.inl greater))
      obtain ⟨valid, below⟩ := place_entries first tail path descends rest validRest
      rw [matchedLength_cons_of_ne (ne_of_gt greater), if_pos rfl, if_neg order]
      refine ⟨⟨⟨byte, more, rfl, place_above deeper greater rest above⟩, validChild, valid⟩, ?_⟩
      rw [childEntries, below, childEntries,
        upsert_append_right (entries_below greater child path more tail)]

private theorem insertImpl_empty (value : Bytes) (rounds : Nat) (data : Bytes)
    (isDataPresent : Bool) {children : Children} (valid : ValidChildren children) (path : Bytes) :
    Valid (insertImpl value (rounds + 1) (.node data isDataPresent children) []) ∧
      entries (insertImpl value (rounds + 1) (.node data isDataPresent children) []) path =
        upsert (path ++ []) value (entries (.node data isDataPresent children) path) := by
  rw [insertImpl, if_pos rfl]
  refine ⟨valid, ?_⟩
  have below := childEntries_longer children valid path
  rw [entries, entries, List.append_nil, upsert_append_left below]
  cases isDataPresent <;> simp [upsert]

theorem insertImpl_descends (value : Bytes) (rounds : Nat) :
    Descends (insertImpl value (rounds + 1)) value rounds := by
  induction rounds with
  | zero =>
    rintro ⟨data, isDataPresent, children⟩ key path valid size
    obtain rfl := List.length_eq_zero_iff.mp (Nat.le_zero.mp size)
    exact insertImpl_empty value 0 data isDataPresent valid path
  | succ rounds ih =>
    rintro ⟨data, isDataPresent, children⟩ key path valid size
    cases key with
    | nil => exact insertImpl_empty value (rounds + 1) data isDataPresent valid path
    | cons first tail =>
      rw [insertImpl_settle _ _ _ _ _ (List.cons_ne_nil _ _), settle_eq_place _ _ _ _ _ valid]
      have descends : Descends (insertImpl value (rounds + 1)) value tail.length :=
        fun child key path valid bound =>
          ih child key path valid (Nat.le_trans bound (Nat.le_of_succ_le_succ size))
      obtain ⟨placed, below⟩ := place_entries first tail path descends children valid
      refine ⟨placed, ?_⟩
      rw [entries, entries, below]
      refine (upsert_append_right ?_ _).symm
      intro own member
      split at member
      · rw [List.mem_singleton.mp member]
        have grown := (append_lt_append_left path).mpr (List.nil_lt_cons first tail)
        rwa [List.append_nil] at grown
      · exact absurd member List.not_mem_nil

/-- Insertion binds its key and leaves every other pair as it was. -/
theorem insert_entries (root : RadixTreeNode) (valid : Valid root) (key value : Bytes) :
    Valid (insert (some root) key value) ∧
      entries (insert (some root) key value) [] = upsert key value (entries root []) := by
  obtain ⟨placed, below⟩ :=
    insertImpl_descends value key.length root key [] valid (Nat.le_refl _)
  exact ⟨placed, below⟩

/-! ## Range search -/

/-- The condition on a pair that `rangeSearchImpl` checks at its node. -/
def InRange (startKey endKey : Bytes) (isExclusive : Bool) (key : Bytes) : Prop :=
  startKey ≤ key ∧ key ≤ endKey ∧ ¬ (isExclusive ∧ key = startKey)

instance : Decidable (InRange startKey endKey isExclusive key) :=
  inferInstanceAs (Decidable (_ ∧ _ ∧ ¬ _))

private theorem filter_none {startKey endKey : Bytes} {isExclusive : Bool}
    {pairs : List (Bytes × Bytes)}
    (outside : ∀ pair ∈ pairs, pair.1 < startKey ∨ endKey < pair.1) :
    pairs.filter (fun pair => InRange startKey endKey isExclusive pair.1) = [] := by
  rw [List.filter_eq_nil_iff]
  intro pair member held
  rw [decide_eq_true_eq] at held
  rcases outside pair member with below | above
  · exact not_lt_of_ge held.1 below
  · exact not_lt_of_ge held.2.1 above

mutual
/-- The pruned walk lists exactly the pairs of the range, in order. -/
theorem rangeSearchImpl_eq (startKey endKey : Bytes) (isExclusive : Bool) (node : RadixTreeNode)
    (valid : Valid node) (path : Bytes) :
    rangeSearchImpl startKey endKey isExclusive node path =
      (entries node path).filter fun pair => InRange startKey endKey isExclusive pair.1 := by
  cases node with
  | node data isDataPresent children =>
    rw [rangeSearchImpl, entries, List.filter_append,
      rangeSearchChildren_eq startKey endKey isExclusive children valid path]
    cases isDataPresent <;> cases isExclusive <;> simp [InRange, List.filter_cons]
theorem rangeSearchChildren_eq (startKey endKey : Bytes) (isExclusive : Bool)
    (children : Children) (valid : ValidChildren children) (path : Bytes) :
    rangeSearchChildren startKey endKey isExclusive children path =
      (childEntries children path).filter fun pair => InRange startKey endKey isExclusive pair.1 := by
  cases children with
  | nil => rfl
  | cons key child rest =>
    obtain ⟨⟨first, more, rfl, above⟩, validChild, validRest⟩ := valid
    rw [rangeSearchChildren, childEntries, List.filter_append]
    dsimp only
    split
    · rename_i behind
      rw [filter_none, filter_none, List.append_nil]
      · intro pair member
        exact .inr (lt_trans behind (childEntries_above rest above path more pair member))
      · intro pair member
        obtain ⟨ending, shape⟩ := entries_extending child _ pair member
        exact .inr (lt_of_lt_of_le behind (shape ▸ le_append _ ending))
    · rw [← rangeSearchChildren_eq startKey endKey isExclusive rest validRest path]
      split
      · rename_i passed
        rw [filter_none, List.nil_append]
        intro pair member
        obtain ⟨ending, shape⟩ := entries_extending child _ pair member
        refine .inl (shape ▸ append_lt_of_not_prefix passed.1 ?_ ending)
        rintro held
        exact passed.2 ⟨held.length_le, (List.prefix_iff_eq_take.mp held).symm⟩
      · rw [← rangeSearchImpl_eq startKey endKey isExclusive child validChild _]
end

/-- A search lists exactly the pairs of the range. -/
theorem rangeSearch_eq (root : RadixTreeNode) (valid : Valid root) (startKey endKey : Bytes)
    (isExclusive : Bool) :
    rangeSearch (some root) startKey endKey isExclusive =
      (entries root []).filter fun pair => InRange startKey endKey isExclusive pair.1 :=
  rangeSearchImpl_eq startKey endKey isExclusive root valid []

end CarrotDb.RadixTree
