import CarrotDb.RadixTreeProofs

/-! Radix trees built by insertions, in whatever order. Each is the map of
the values its keys were given last: a search finds them, and a range search
lists them. -/
namespace CarrotDb.RadixTree
open PrefixOrder SortedMap

/-- The tree after a run of insertions into a new one. -/
def inserts (calls : List (Bytes × Bytes)) : Option RadixTreeNode :=
  calls.foldl (fun root call => some (insert root call.1 call.2)) none

theorem inserts_concat (calls : List (Bytes × Bytes)) (call : Bytes × Bytes) :
    inserts (calls ++ [call]) = some (insert (inserts calls) call.1 call.2) := by
  rw [inserts, List.foldl_append]
  rfl

/-- What a tree binds; nothing before the first insertion. -/
def bindings (root : Option RadixTreeNode) : List (Bytes × Bytes) :=
  root.elim [] fun root => entries root []

/-- Each insertion is an assignment to the map, and keeps the tree valid. -/
theorem inserts_assigned (calls : List (Bytes × Bytes)) :
    (∀ root, inserts calls = some root → Valid root) ∧
      bindings (inserts calls) = assigned calls := by
  induction calls using List.reverseRecOn with
  | nil => exact ⟨fun _ absent => (nomatch absent), rfl⟩
  | append_singleton calls call ih =>
    obtain ⟨valid, bound⟩ := ih
    have start : Valid ((inserts calls).getD emptyNode) := by
      cases made : inserts calls with
      | none => trivial
      | some root => exact valid root made
    have before : entries ((inserts calls).getD emptyNode) [] = assigned calls := by
      rw [← bound]
      cases inserts calls <;> rfl
    obtain ⟨placed, below⟩ := insert_entries _ start call.1 call.2
    rw [inserts_concat, assigned_concat]
    constructor
    · rintro root made
      cases made
      exact placed
    · rw [← before, ← below]
      rfl

/-- A range search lists exactly the keys of the range with the values they
were given last, each key once and in increasing order. -/
theorem rangeSearch_inserts (calls : List (Bytes × Bytes)) (startKey endKey : Bytes)
    (isExclusive : Bool) :
    Increasing (rangeSearch (inserts calls) startKey endKey isExclusive) ∧
      ∀ key value, (key, value) ∈ rangeSearch (inserts calls) startKey endKey isExclusive ↔
        latest calls key = some value ∧ startKey ≤ key ∧ key ≤ endKey ∧
          ¬ (isExclusive = true ∧ key = startKey) := by
  obtain ⟨valid, bound⟩ := inserts_assigned calls
  have listed : rangeSearch (inserts calls) startKey endKey isExclusive =
      (assigned calls).filter fun pair => InRange startKey endKey isExclusive pair.1 := by
    rw [← bound]
    cases made : inserts calls with
    | none => rfl
    | some root => exact rangeSearch_eq root (valid root made) startKey endKey isExclusive
  rw [listed]
  refine ⟨List.Pairwise.filter _ (assigned_increasing calls), fun key value => ?_⟩
  rw [List.mem_filter, mem_assigned, decide_eq_true_eq]
  rfl

theorem matchedLength_full (key existing : Bytes) :
    matchedLength key existing = existing.length ↔ existing <+: key := by
  induction key generalizing existing with
  | nil => cases existing <;> simp [matchedLength]
  | cons a key ih =>
    cases existing with
    | nil => simp [matchedLength]
    | cons b existing =>
      rw [matchedLength, List.cons_prefix_cons]
      by_cases same : a = b
      · simp [same, ih]
      · simp [same, Ne.symm same]

/-- Below the children a key is bound where the search descends, and nowhere
when it finds no child. -/
private theorem findChild_entries {first : UInt8} {tail path : Bytes} :
    (children : Children) → ValidChildren children →
      match findChild (first :: tail) children with
      | none => ∀ value, (path ++ first :: tail, value) ∉ childEntries children path
      | some (rest, child) => ∃ label, label ≠ [] ∧ first :: tail = label ++ rest ∧ Valid child ∧
          ∀ value, (path ++ first :: tail, value) ∈ childEntries children path ↔
            (path ++ label ++ rest, value) ∈ entries child (path ++ label)
  | .nil, _ => fun _ absent => nomatch absent
  | .cons key child others, ⟨⟨byte, more, shape, above⟩, validChild, validOthers⟩ => by
    subst shape
    rw [findChild]
    by_cases fits : matchedLength (first :: tail) (byte :: more) = (byte :: more).length
    · obtain ⟨rest, whole⟩ := (matchedLength_full _ _).mp fits
      obtain ⟨rfl, behind⟩ := List.cons.inj whole
      rw [if_pos fits, fits, ← whole, List.drop_left]
      refine ⟨_, List.cons_ne_nil _ _, rfl, validChild, fun value => ?_⟩
      rw [childEntries, List.mem_append, List.append_assoc]
      refine or_iff_left fun member => ?_
      exact lt_irrefl _ (childEntries_above others above path (more ++ rest) _ member)
    · have elsewhere : ∀ value, (path ++ first :: tail, value) ∈
          childEntries (.cons (byte :: more) child others) path ↔
            (path ++ first :: tail, value) ∈ childEntries others path := by
        intro value
        rw [childEntries, List.mem_append]
        refine or_iff_right fun member => ?_
        obtain ⟨ending, whole⟩ := entries_extending child _ _ member
        rw [List.append_assoc] at whole
        exact fits ((matchedLength_full _ _).mpr ⟨ending, List.append_cancel_left whole⟩)
      rw [if_neg fits]
      have later := @findChild_entries first tail path others validOthers
      simp only [elsewhere]
      exact later

/-- A search finds what is bound at the key, or nothing when nothing is. -/
theorem searchFrom_entries {node : RadixTreeNode} (valid : Valid node) {rounds : Nat} {key : Bytes}
    (enough : key.length < rounds) (path : Bytes) :
    ∃ found, searchFrom rounds node key = some found ∧
      ((path ++ key, found) ∈ entries node path ∨
        found = [] ∧ ∀ value, (path ++ key, value) ∉ entries node path) := by
  induction rounds generalizing node key path with
  | zero => exact absurd enough (Nat.not_lt_zero _)
  | succ rounds ih =>
    obtain ⟨data, isDataPresent, children⟩ := node
    rw [searchFrom]
    cases key with
    | nil =>
      have below : ∀ value, (path, value) ∉ childEntries children path := fun value member =>
        lt_irrefl path (childEntries_longer children valid path _ member)
      cases isDataPresent with
      | true => exact ⟨data, rfl, .inl (by simp [entries])⟩
      | false => exact ⟨[], rfl, .inr ⟨rfl, by simpa [entries] using below⟩⟩
    | cons first tail =>
      have own : ∀ value, (path ++ first :: tail, value) ∈
          entries (.node data isDataPresent children) path ↔
            (path ++ first :: tail, value) ∈ childEntries children path := by
        intro value
        rw [entries, List.mem_append]
        refine or_iff_right fun member => ?_
        split at member
        · have longer := congrArg List.length (Prod.mk.inj (List.mem_singleton.mp member)).1
          simp at longer
        · exact absurd member List.not_mem_nil
      have descent := @findChild_entries first tail path children valid
      rw [if_neg (List.cons_ne_nil _ _)]
      simp only [own]
      cases goes : findChild (first :: tail) children with
      | none =>
        rw [goes] at descent
        exact ⟨[], rfl, .inr ⟨rfl, descent⟩⟩
      | some edge =>
        obtain ⟨rest, child⟩ := edge
        rw [goes] at descent
        obtain ⟨label, nonempty, whole, validChild, same⟩ := descent
        have shorter : rest.length < rounds := by
          have positive := List.length_pos_iff.mpr nonempty
          rw [whole, List.length_append] at enough
          omega
        obtain ⟨found, ran, bound⟩ := ih validChild shorter (path ++ label)
        refine ⟨found, ran, ?_⟩
        simpa only [same] using bound

/-! ## The shape of the tree -/

/-- The keys of the edges that leave a node. -/
def Children.labels : Children → List Bytes
  | .nil => []
  | .cons key _ rest => key :: rest.labels

mutual
/-- No edge is empty, no two edges of a node start with the same byte, and a
leaf carries data. -/
def WellFormed : RadixTreeNode → Prop
  | .node _ isDataPresent children =>
    (∀ label ∈ children.labels, label ≠ []) ∧ (children.labels.map List.head?).Nodup ∧
      (children.labels = [] → isDataPresent = true) ∧ WellFormedChildren children
def WellFormedChildren : Children → Prop
  | .nil => True
  | .cons _ child rest => WellFormed child ∧ WellFormedChildren rest
end

mutual
/-- Leaves carry data. -/
def Loaded : RadixTreeNode → Prop
  | .node _ isDataPresent children =>
    (children.labels = [] → isDataPresent = true) ∧ LoadedChildren children
def LoadedChildren : Children → Prop
  | .nil => True
  | .cons _ child rest => Loaded child ∧ LoadedChildren rest
end

private theorem above_labels {first : UInt8} : (children : Children) → Above first children →
    ∀ label ∈ children.labels, ∃ byte, label.head? = some byte ∧ first < byte
  | .nil, _ => fun _ absent => nomatch absent
  | .cons _ _ rest, ⟨⟨byte, more, shape, greater⟩, later⟩ => by
    subst shape
    rw [Children.labels, List.forall_mem_cons]
    exact ⟨⟨byte, rfl, greater⟩, above_labels rest later⟩

private theorem labels_of_valid : (children : Children) → ValidChildren children →
    (∀ label ∈ children.labels, label ≠ []) ∧ (children.labels.map List.head?).Nodup
  | .nil, _ => ⟨fun _ absent => (nomatch absent), List.nodup_nil⟩
  | .cons _ _ rest, ⟨⟨first, more, shape, above⟩, _, validRest⟩ => by
    subst shape
    obtain ⟨nonempty, apart⟩ := labels_of_valid rest validRest
    rw [Children.labels, List.forall_mem_cons, List.map_cons, List.nodup_cons]
    refine ⟨⟨List.cons_ne_nil _ _, nonempty⟩, fun member => ?_, apart⟩
    obtain ⟨label, later, same⟩ := List.mem_map.mp member
    obtain ⟨byte, head, greater⟩ := above_labels rest above label later
    rw [head] at same
    exact ne_of_gt greater (Option.some.inj same)

mutual
theorem wellFormed_of_loaded (node : RadixTreeNode) (valid : Valid node) (loaded : Loaded node) :
    WellFormed node := by
  cases node with
  | node data isDataPresent children =>
    obtain ⟨nonempty, apart⟩ := labels_of_valid children valid
    exact ⟨nonempty, apart, loaded.1, wellFormedChildren_of_loaded children valid loaded.2⟩
theorem wellFormedChildren_of_loaded (children : Children) (valid : ValidChildren children)
    (loaded : LoadedChildren children) : WellFormedChildren children := by
  cases children with
  | nil => trivial
  | cons key child rest =>
    exact ⟨wellFormed_of_loaded child valid.2.1 loaded.1,
      wellFormedChildren_of_loaded rest valid.2.2 loaded.2⟩
end

theorem leaf_loaded (value : Bytes) : Loaded (leaf value) := ⟨fun _ => rfl, trivial⟩

private theorem emplace_loaded {node : RadixTreeNode} (loaded : Loaded node) (key : Bytes) :
    (children : Children) → LoadedChildren children →
      LoadedChildren (children.emplace key node) ∧ (children.emplace key node).labels ≠ []
  | .nil, _ => ⟨⟨loaded, trivial⟩, List.cons_ne_nil _ _⟩
  | .cons existing child rest, ⟨here, later⟩ => by
    rw [Children.emplace]
    split
    · exact ⟨⟨here, later⟩, List.cons_ne_nil _ _⟩
    · split
      · exact ⟨⟨loaded, here, later⟩, List.cons_ne_nil _ _⟩
      · exact ⟨⟨here, (emplace_loaded loaded key rest later).1⟩, List.cons_ne_nil _ _⟩

private theorem splitNode_loaded {child : RadixTreeNode} (loaded : Loaded child)
    (key oldKey : Bytes) (matched : Nat) (value : Bytes) :
    Loaded (splitNode key oldKey child matched value) := by
  unfold splitNode
  dsimp only
  split
  · exact ⟨fun _ => rfl, loaded, trivial⟩
  · obtain ⟨kept, nonempty⟩ := emplace_loaded (leaf_loaded value) (key.drop matched)
      (.cons (oldKey.drop matched) child .nil) ⟨loaded, trivial⟩
    exact ⟨fun empty => absurd empty nonempty, kept⟩

/-- Placing a key leaves a child, and no leaf without data, when the descent
leaves none. -/
private theorem place_loaded {deeper : RadixTreeNode → Bytes → RadixTreeNode} {value : Bytes}
    (first : UInt8) (tail : Bytes)
    (loads : ∀ child key, Valid child → Loaded child → key.length ≤ tail.length →
      Loaded (deeper child key)) :
    (children : Children) → ValidChildren children → LoadedChildren children →
      LoadedChildren (place deeper (first :: tail) value children) ∧
        (place deeper (first :: tail) value children).labels ≠ []
  | .nil, _, _ => ⟨⟨leaf_loaded value, trivial⟩, List.cons_ne_nil _ _⟩
  | .cons key child rest, ⟨⟨byte, more, shape, _⟩, validChild, validRest⟩, ⟨here, later⟩ => by
    subst shape
    rw [place]
    split
    · split
      · exact ⟨⟨leaf_loaded value, here, later⟩, List.cons_ne_nil _ _⟩
      · exact ⟨⟨here, (place_loaded first tail loads rest validRest later).1⟩, List.cons_ne_nil _ _⟩
    · split
      · have shorter : ((first :: tail).drop (matchedLength (first :: tail) (byte :: more))).length ≤
            tail.length := by
          rw [List.length_drop, List.length_cons]
          omega
        exact ⟨⟨loads child _ validChild here shorter, later⟩, List.cons_ne_nil _ _⟩
      · exact ⟨⟨splitNode_loaded here _ _ _ _, later⟩, List.cons_ne_nil _ _⟩

/-- Insertion below a node whose children are loaded loads the node. -/
theorem insertImpl_loaded (value data : Bytes) (isDataPresent : Bool) {children : Children}
    (valid : ValidChildren children) (loaded : LoadedChildren children) {rounds : Nat} {key : Bytes}
    (enough : key.length ≤ rounds) :
    Loaded (insertImpl value (rounds + 1) (.node data isDataPresent children) key) := by
  induction rounds generalizing data isDataPresent children key with
  | zero =>
    obtain rfl := List.length_eq_zero_iff.mp (Nat.le_zero.mp enough)
    rw [insertImpl, if_pos rfl]
    exact ⟨fun _ => rfl, loaded⟩
  | succ rounds ih =>
    cases key with
    | nil =>
      rw [insertImpl, if_pos rfl]
      exact ⟨fun _ => rfl, loaded⟩
    | cons first tail =>
      rw [insertImpl_settle _ _ _ _ _ (List.cons_ne_nil _ _), settle_eq_place _ _ _ _ _ valid]
      have loads : ∀ child key, Valid child → Loaded child → key.length ≤ tail.length →
          Loaded (insertImpl value (rounds + 1) child key) := by
        rintro ⟨data, isDataPresent, children⟩ key valid loaded short
        exact ih data isDataPresent valid loaded.2
          (Nat.le_trans short (Nat.le_of_succ_le_succ enough))
      obtain ⟨kept, nonempty⟩ := @place_loaded _ value first tail loads children valid loaded
      exact ⟨fun empty => absurd empty nonempty, kept⟩

theorem inserts_loaded (calls : List (Bytes × Bytes)) :
    ∀ root, inserts calls = some root → Loaded root := by
  induction calls using List.reverseRecOn with
  | nil => exact fun _ absent => nomatch absent
  | append_singleton calls call ih =>
    rintro root made
    rw [inserts_concat] at made
    cases made
    have valid := (inserts_assigned calls).1
    cases before : inserts calls with
    | none => exact @insertImpl_loaded call.2 [] false .nil trivial trivial _ _ (Nat.le_refl _)
    | some root =>
      have validRoot := valid root before
      have loadedRoot := ih root before
      obtain ⟨data, isDataPresent, children⟩ := root
      exact insertImpl_loaded call.2 data isDataPresent validRoot loadedRoot.2 (Nat.le_refl _)

/-- After any insertions a search gives the value its key was given last, or
the empty string, and the tree is well formed. -/
theorem search_inserts (calls : List (Bytes × Bytes)) :
    (∀ key, search (inserts calls) key = some ((latest calls key).getD [])) ∧
      ∀ root, inserts calls = some root → WellFormed root := by
  obtain ⟨valid, bound⟩ := inserts_assigned calls
  constructor
  · intro key
    cases made : inserts calls with
    | none =>
      rw [made] at bound
      have missing : latest calls key = none := by
        cases given : latest calls key with
        | none => rfl
        | some value =>
          have member := (mem_assigned calls key value).mpr given
          rw [← bound] at member
          exact nomatch member
      rw [missing]
      rfl
    | some root =>
      obtain ⟨found, ran, member⟩ :=
        searchFrom_entries (valid root made) (Nat.lt_succ_self key.length) []
      rw [made] at bound
      have pairs : entries root [] = assigned calls := bound
      rw [List.nil_append, pairs] at member
      rw [search, ran]
      rcases member with here | ⟨rfl, nowhere⟩
      · rw [(mem_assigned calls key found).mp here]
        rfl
      · cases given : latest calls key with
        | none => rfl
        | some value => exact absurd ((mem_assigned calls key value).mpr given) (nowhere value)
  · intro root made
    exact wellFormed_of_loaded root (valid root made) (inserts_loaded calls root made)

end CarrotDb.RadixTree
