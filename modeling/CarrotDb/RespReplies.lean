import CarrotDb.RespParsing
import CarrotDb.Lib.SelfDelimiting

/-! Complete replies. A line ends at its carriage return, a bulk string after
the bytes it announces, an array after the replies it announces; so the bytes
a connection has been sent fall into replies in one way. -/
namespace CarrotDb.Resp
open CarrotDb.Decimal

/-- One complete reply. -/
inductive Reply : Bytes → Prop where
  | line (mark : UInt8) (text : Bytes) (known : mark = 43 ∨ mark = 45 ∨ mark = 58)
    (clean : 13 ∉ text) : Reply (mark :: (text ++ crlf))
  | null (mark : UInt8) (known : mark = 36 ∨ mark = 42) : Reply (mark :: ascii "-1\r\n")
  | bulk (text : Bytes) : Reply (encodeBulkString text)
  | array (items : List Bytes) (all : ∀ item ∈ items, Reply item) :
    Reply (encodeArrayHeader items.length ++ items.flatten)

/-- Two lines that start with the same text up to a carriage return. -/
private theorem line_cancel {one two x y : Bytes} (first : 13 ∉ one) (second : 13 ∉ two)
    (same : one ++ (crlf ++ x) = two ++ (crlf ++ y)) : one = two ∧ x = y := by
  induction one generalizing two with
  | nil =>
    cases two with
    | nil => exact ⟨rfl, List.append_cancel_left same⟩
    | cons b two =>
      obtain rfl : 13 = b := (List.cons.inj same).1
      exact absurd List.mem_cons_self second
  | cons a one ih =>
    cases two with
    | nil =>
      obtain rfl : a = 13 := (List.cons.inj same).1
      exact absurd List.mem_cons_self first
    | cons b two =>
      obtain ⟨rfl, rest⟩ := List.cons.inj same
      obtain ⟨rfl, tail⟩ := ih (fun inside => first (List.mem_cons_of_mem _ inside))
        (fun inside => second (List.mem_cons_of_mem _ inside)) rest
      exact ⟨rfl, tail⟩

private theorem clean_toDecimal (n : Nat) : 13 ∉ toDecimal n := not_mem_toDecimal (by decide) n

private theorem clean_minusOne : (13 : UInt8) ∉ ([45, 49] : Bytes) := by decide

private theorem minusOne_ne (n : Nat) : ([45, 49] : Bytes) ≠ toDecimal n := fun same =>
  absurd (toDecimal_digits n 45 (same ▸ List.mem_cons_self)) (by decide)

theorem bulk_cancel {one two x y : Bytes}
    (same : encodeBulkString one ++ x = encodeBulkString two ++ y) : one = two := by
  rw [encodeBulkString, encodeBulkString] at same
  simp only [List.cons_append, List.append_assoc] at same
  obtain ⟨length, rest⟩ :=
    line_cancel (clean_toDecimal _) (clean_toDecimal _) (List.cons.inj same).2
  exact (List.append_inj rest (toDecimal_injective length)).1

theorem header_cancel {m n : Nat} {x y : Bytes}
    (same : encodeArrayHeader m ++ x = encodeArrayHeader n ++ y) : m = n ∧ x = y := by
  rw [encodeArrayHeader, encodeArrayHeader] at same
  simp only [List.cons_append, List.append_assoc] at same
  obtain ⟨count, rest⟩ :=
    line_cancel (clean_toDecimal _) (clean_toDecimal _) (List.cons.inj same).2
  exact ⟨toDecimal_injective count, rest⟩

/-- A null and a count or a length are told apart behind the mark. -/
private theorem null_ne {mark other : UInt8} {n : Nat} {x y : Bytes} :
    mark :: ascii "-1\r\n" ++ x ≠ other :: (toDecimal n ++ (crlf ++ y)) := fun same =>
  minusOne_ne n (line_cancel clean_minusOne (clean_toDecimal n) (List.cons.inj same).2).1

theorem reply_cancel {r s : Bytes} (first : Reply r) (second : Reply s) {x y : Bytes}
    (same : r ++ x = s ++ y) : r = s := by
  induction first generalizing s x y with
  | line mark text known clean =>
    cases second with
    | line other text' known' clean' =>
      rw [List.cons_append, List.cons_append, List.append_assoc, List.append_assoc] at same
      obtain ⟨rfl, rest⟩ := List.cons.inj same
      rw [(line_cancel clean clean' rest).1]
    | null other known' =>
      obtain ⟨rfl, -⟩ := List.cons.inj same
      rcases known' with rfl | rfl <;> exact absurd known (by decide)
    | bulk =>
      obtain ⟨rfl, -⟩ := List.cons.inj same
      exact absurd known (by decide)
    | array =>
      obtain ⟨rfl, -⟩ := List.cons.inj same
      exact absurd known (by decide)
  | null mark known =>
    cases second with
    | line other text' known' clean' =>
      obtain ⟨rfl, -⟩ := List.cons.inj same
      rcases known with rfl | rfl <;> exact absurd known' (by decide)
    | null other known' => rw [(List.cons.inj same).1]
    | bulk text =>
      rw [encodeBulkString] at same
      simp only [List.cons_append, List.append_assoc] at same
      exact absurd same null_ne
    | array items all =>
      rw [encodeArrayHeader] at same
      simp only [List.cons_append, List.append_assoc] at same
      exact absurd same null_ne
  | bulk text =>
    cases second with
    | line other text' known' clean' =>
      obtain ⟨rfl, -⟩ := List.cons.inj same
      exact absurd known' (by decide)
    | null other known' =>
      rw [encodeBulkString] at same
      simp only [List.cons_append, List.append_assoc] at same
      exact absurd same.symm null_ne
    | bulk text' => rw [bulk_cancel same]
    | array items all => exact absurd (List.cons.inj same).1 (by decide)
  | array items all ih =>
    cases second with
    | line other text' known' clean' =>
      obtain ⟨rfl, -⟩ := List.cons.inj same
      exact absurd known' (by decide)
    | null other known' =>
      rw [encodeArrayHeader] at same
      simp only [List.cons_append, List.append_assoc] at same
      exact absurd same.symm null_ne
    | bulk text' => exact absurd (List.cons.inj same).1 (by decide)
    | array items' all' =>
      rw [List.append_assoc, List.append_assoc] at same
      obtain ⟨count, rest⟩ := header_cancel same
      rw [count, flatten_cancel (fun v member w member' x y => ih v member (all' w member')) count rest]

theorem replies_selfDelimiting : SelfDelimiting {bytes | Reply bytes} :=
  fun _ first _ second _ _ same => reply_cancel first second same

theorem reply_ne_nil {r : Bytes} (reply : Reply r) : r ≠ [] := by
  cases reply <;> exact List.cons_ne_nil _ _

/-- The replies a run of bytes is made of. -/
def Replies (rs : List Bytes) (bytes : Bytes) : Prop := (∀ r ∈ rs, Reply r) ∧ bytes = rs.flatten

theorem replies_unique {rs ss : List Bytes} {bytes : Bytes} (first : Replies rs bytes)
    (second : Replies ss bytes) : rs = ss :=
  replies_selfDelimiting.eq_of_flatten (fun empty => reply_ne_nil empty rfl) first.1 second.1
    (first.2.symm.trans second.2)

/-! ## The replies of the encoders -/

theorem reply_simpleString {text : Bytes} (clean : 13 ∉ text) : Reply (encodeSimpleString text) :=
  .line 43 text (.inl rfl) clean

theorem reply_integer (value : Int) : Reply (encodeInteger value) := by
  refine .line 58 _ (.inr (.inr rfl)) ?_
  rw [intToDecimal]
  split
  · exact List.not_mem_cons_of_ne_of_not_mem (by decide) (clean_toDecimal _)
  · exact clean_toDecimal _

theorem reply_error {message errorType : Bytes} (clean : 13 ∉ message) (cleanType : 13 ∉ errorType) :
    Reply (encodeError message errorType) := by
  have shape : encodeError message errorType = 45 :: ((errorType ++ 32 :: message) ++ crlf) := by
    rw [encodeError, List.append_assoc, List.cons_append]
  rw [shape]
  refine .line 45 _ (.inr (.inl rfl)) fun inside => ?_
  rcases List.mem_append.mp inside with inside | inside
  · exact cleanType inside
  · exact List.not_mem_cons_of_ne_of_not_mem (by decide) clean inside

theorem reply_nullBulkString : Reply encodeNullBulkString := .null 36 (.inl rfl)

theorem reply_nullArray : Reply encodeNullArray := .null 42 (.inr rfl)

theorem reply_emptyArray : Reply encodeEmptyArray := .array [] fun _ absent => nomatch absent

/-- An array of as many replies as its header says. -/
theorem reply_array {rs : List Bytes} {count : Nat} {bytes : Bytes} (replies : Replies rs bytes)
    (length : rs.length = count) : Reply (encodeArrayHeader count ++ bytes) := by
  rw [← length, replies.2]
  exact .array rs replies.1

theorem replies_bulkStrings (items : List Bytes) :
    Replies (items.map encodeBulkString) (items.flatMap encodeBulkString) := by
  refine ⟨fun r member => ?_, List.flatMap_def.symm ▸ rfl⟩
  obtain ⟨item, -, rfl⟩ := List.mem_map.mp member
  exact .bulk item

theorem reply_bulkStringArray (items : List Bytes) : Reply (encodeBulkStringArray items) :=
  reply_array (replies_bulkStrings items) (List.length_map _)

theorem replies_nil : Replies [] [] := ⟨fun _ absent => (nomatch absent), rfl⟩

theorem replies_single {r : Bytes} (reply : Reply r) : Replies [r] r :=
  ⟨fun s member => (List.mem_singleton.mp member) ▸ reply, by simp⟩

theorem Replies.append {rs ss : List Bytes} {first second : Bytes} (one : Replies rs first)
    (two : Replies ss second) : Replies (rs ++ ss) (first ++ second) := by
  refine ⟨fun r member => ?_, by rw [one.2, two.2, List.flatten_append]⟩
  rcases List.mem_append.mp member with left | right
  · exact one.1 r left
  · exact two.1 r right

end CarrotDb.Resp
