import CarrotDb.CommandParser
import CarrotDb.RespParsing

/-! Parsers as programs over tokens: where they stop in a read buffer, how
many arguments of a frame they want, and how many tokens they take at most. -/
namespace CarrotDb
open Decimal Resp

theorem le_calculateLengthFrom (text : Bytes) (position length : Nat) :
    position ≤ (calculateLengthFrom text position length).2.2 := by
  induction text generalizing position length with
  | nil => exact Nat.le_add_right _ _
  | cons x rest ih =>
    unfold calculateLengthFrom
    split
    · exact Nat.le_add_right _ _
    · split
      · exact (Nat.le_succ _).trans (ih _ _)
      · exact le_rfl

theorem le_scanFrom (text : Bytes) (position : Nat) : position ≤ scanFrom text position := by
  induction text generalizing position with
  | nil => exact le_rfl
  | cons x rest ih =>
    unfold scanFrom
    split
    · exact le_rfl
    · exact (Nat.le_succ _).trans (ih _)

/-- The bytes a token starts with. -/
def startsToken (byte : Option UInt8) : Bool := byte == some 42 || byte == some 36

theorem parse_other {buffer : Bytes} {position : Nat}
    (other : startsToken buffer[position]? = false) :
    parse buffer position = (unknownToken, position) := by
  rw [startsToken, Bool.or_eq_false_iff, beq_eq_false_iff_ne, beq_eq_false_iff_ne] at other
  rw [parse, if_neg other.1, if_neg other.2]

/-- Behind a star or a dollar sign the position moves on. -/
theorem lt_parse {buffer : Bytes} {position : Nat} (starts : startsToken buffer[position]? = true) :
    position < (parse buffer position).2 := by
  have moved := le_calculateLengthFrom (buffer.drop (position + 1)) (position + 1) 0
  rw [← calculateLength] at moved
  rw [startsToken, Bool.or_eq_true, beq_iff_eq, beq_iff_eq] at starts
  rcases computed : calculateLength buffer (position + 1) with ⟨verdict, length, behind⟩
  rw [computed] at moved
  have scanned := le_scanFrom (buffer.drop behind) behind
  by_cases star : buffer[position]? = some 42
  · rw [parse, if_pos star, computed]
    cases verdict <;> exact moved
  · rw [parse, if_neg star, if_pos (starts.resolve_left star), computed]
    cases verdict with
    | false => exact moved
    | true =>
      dsimp only at moved ⊢
      omega

theorem le_parse (buffer : Bytes) (position : Nat) : position ≤ (parse buffer position).2 := by
  cases starts : startsToken buffer[position]? with
  | true => exact (lt_parse starts).le
  | false =>
    rw [parse_other starts]

namespace Tokens

/-- A parser never steps back. -/
theorem le_of_run {parser : Tokens α} (ran : parser.run buffer position = .ok (value, behind)) :
    position ≤ behind := by
  induction parser generalizing position with
  | done result =>
    obtain ⟨_, _, same⟩ := exec_bind_ok.mp ran
    cases same
    exact le_rfl
  | read next ih => exact (le_parse buffer position).trans (ih _ ran)

/-- How many tokens a parser takes, where the arguments stand as bulk strings
and behind them nothing is a token. -/
def count : Tokens α → List Bytes → Exec Nat
  | .done result, _ => do
    let _ ← result
    pure 0
  | .read next, arg :: args => do pure ((← (next ⟨true, arg⟩).count args) + 1)
  | .read next, [] => do pure ((← (next ⟨false, [42]⟩).count []) + 1)

/-- The result of a parser on arguments, where behind the last of them every
token is missing. -/
def valueOn : Tokens α → List Bytes → Exec α
  | .done result, _ => result
  | .read next, arg :: args => (next ⟨true, arg⟩).valueOn args
  | .read next, [] => (next ⟨false, [42]⟩).valueOn []

theorem valueOn_of_count {parser : Tokens α} {args : List Bytes}
    (counted : parser.count args = .ok n) : ∃ result, parser.valueOn args = .ok result := by
  induction parser generalizing args n with
  | done result =>
    obtain ⟨value, has, _⟩ := exec_bind_ok.mp counted
    exact ⟨value, has⟩
  | read next ih =>
    cases args with
    | nil =>
      obtain ⟨m, fewer, _⟩ := exec_bind_ok.mp counted
      exact ih _ fewer
    | cons arg args =>
      obtain ⟨m, fewer, _⟩ := exec_bind_ok.mp counted
      exact ih _ fewer

/-- Arguments that stand in the buffer and read back whole. -/
structure Written (buffer : Bytes) (position : Nat) (args : List Bytes) : Prop where
  held : Holds buffer position (args.flatMap encodeBulkString)
  small : ∀ arg ∈ args, arg.length < 2 ^ 64
  clean : ∀ arg ∈ args, 13 ∉ arg

theorem Written.tail (written : Written buffer position (arg :: args)) :
    Written buffer (position + (encodeBulkString arg).length) args :=
  ⟨(holds_append.mp written.held).2, fun x member => written.small x (List.mem_cons_of_mem _ member),
    fun x member => written.clean x (List.mem_cons_of_mem _ member)⟩

theorem run_read {next : Token → Tokens α} (written : Written buffer position (arg :: args)) :
    (Tokens.read next).run buffer position =
      (next ⟨true, arg⟩).run buffer (position + (encodeBulkString arg).length) := by
  obtain ⟨token, parsed, bulk, text⟩ := parse_clean (holds_append.mp written.held).1
    (written.small arg (List.mem_cons_self ..)) (written.clean arg (List.mem_cons_self ..))
  rw [run, parsed]
  dsimp only
  rw [bulk, text]
  rfl

/-- The position behind the first arguments. -/
def behind (position : Nat) (args : List Bytes) : Nat :=
  position + (args.flatMap encodeBulkString).length

theorem behind_cons (position : Nat) (arg : Bytes) (args : List Bytes) :
    behind position (arg :: args) = behind (position + (encodeBulkString arg).length) args := by
  rw [behind, behind, List.flatMap_cons, List.length_append, Nat.add_assoc]

/-- A parser that takes no more than there is ends behind what it took. -/
theorem run_within {parser : Tokens α} (written : Written buffer position args)
    (counted : parser.count args = .ok n) (within : n ≤ args.length) :
    ∃ value, parser.run buffer position = .ok (value, behind position (args.take n)) := by
  induction parser generalizing position args n with
  | done result =>
    obtain ⟨value, has, none⟩ := exec_bind_ok.mp counted
    cases none
    exact ⟨value, by rw [run, has]; rfl⟩
  | read next ih =>
    cases args with
    | nil =>
      obtain ⟨m, -, more⟩ := exec_bind_ok.mp counted
      cases more
      exact absurd within (Nat.not_succ_le_zero _)
    | cons arg args =>
      obtain ⟨m, fewer, more⟩ := exec_bind_ok.mp counted
      cases more
      obtain ⟨value, ran⟩ := ih _ written.tail fewer (Nat.le_of_succ_le_succ within)
      refine ⟨value, ?_⟩
      rw [run_read written, ran, List.take_succ_cons, behind_cons]

/-- A parser that wants more than there is reads on behind the last argument. -/
theorem run_beyond {parser : Tokens α} (written : Written buffer position args)
    (counted : parser.count args = .ok n) (beyond : args.length < n) :
    ∃ next m, parser.run buffer position = (Tokens.read next).run buffer (behind position args) ∧
      (Tokens.read next).count [] = .ok m := by
  induction parser generalizing position args n with
  | done result =>
    obtain ⟨value, has, none⟩ := exec_bind_ok.mp counted
    cases none
    exact absurd beyond (Nat.not_lt_zero _)
  | read next ih =>
    cases args with
    | nil => exact ⟨next, n, rfl, counted⟩
    | cons arg args =>
      obtain ⟨m, fewer, more⟩ := exec_bind_ok.mp counted
      cases more
      rw [run_read written, behind_cons]
      exact ih _ written.tail fewer (Nat.lt_of_succ_lt_succ beyond)

/-- A parser that takes the arguments, or that wants more of them where nothing
is a token, finds what they stand for. -/
theorem run_valueOn {parser : Tokens α} (star : tokenText buffer unknownToken = [42])
    (written : Written buffer position args) (counted : parser.count args = .ok n)
    (taken : n = args.length ∨
      args.length < n ∧ startsToken buffer[behind position args]? = false) :
    parser.run buffer position =
      parser.valueOn args >>= fun result => .ok (result, behind position args) := by
  induction parser generalizing position args n with
  | done result =>
    obtain ⟨value, -, none⟩ := exec_bind_ok.mp counted
    cases none
    rcases taken with all | ⟨beyond, -⟩
    · rw [List.length_eq_zero_iff.mp all.symm]
      rfl
    · exact absurd beyond (Nat.not_lt_zero _)
  | read next ih =>
    cases args with
    | nil =>
      obtain ⟨m, fewer, more⟩ := exec_bind_ok.mp counted
      cases more
      have other : startsToken buffer[position]? = false := by
        rcases taken with none | ⟨-, nothing⟩
        · cases none
        · exact nothing
      have rest := ih ⟨false, [42]⟩ ⟨written.held, written.small, written.clean⟩ fewer
        ((Nat.eq_zero_or_pos m).imp_right fun more => ⟨more, other⟩)
      rw [run, parse_other other]
      dsimp only
      rw [star]
      exact rest
    | cons arg args =>
      obtain ⟨m, fewer, more⟩ := exec_bind_ok.mp counted
      cases more
      rw [run_read written, behind_cons]
      rw [behind_cons, List.length_cons] at taken
      exact ih _ written.tail fewer (taken.imp Nat.succ.inj (And.imp_left Nat.lt_of_succ_lt_succ))

@[simp] theorem pure_bind (value : α) (next : α → Tokens β) :
    ((pure value : Tokens α) >>= next) = next value := rfl

@[simp] theorem parseToken_bind (next : Token → Tokens β) : (parseToken >>= next) = .read next := rfl

@[simp] theorem read_bind (next : Token → Tokens α) (finish : α → Tokens β) :
    (Tokens.read next >>= finish) = .read fun token => next token >>= finish := rfl

theorem decrement_above {total : Int} {count : Nat} (above : -2 ^ 31 ≤ total - count)
    (next : Int → Tokens α) : (decrement total count >>= next) = next (total - count) := by
  rw [decrement, if_neg (not_lt.mpr above)]
  rfl

theorem decrement_bind (total count : Nat) (small : count ≤ 2 ^ 31) (next : Int → Tokens α) :
    (decrement total count >>= next) = next (total - count) :=
  decrement_above (by omega) next

/-- A parser wants a number of the arguments: it takes just these, or more
than there are if there are fewer. -/
def Wants (parser : Tokens α) (args : List Bytes) (wanted : Nat) : Prop :=
  ∃ n, parser.count args = .ok n ∧ (n = wanted ∨ args.length < n ∧ args.length < wanted)

theorem Wants.change {parser : Tokens α} (wants : parser.Wants args wanted)
    (same : wanted = wanted' ∨ args.length < wanted ∧ args.length < wanted') :
    parser.Wants args wanted' := by
  obtain ⟨n, counted, agrees⟩ := wants
  exact ⟨n, counted, by omega⟩

theorem wants_done (value : α) (args : List Bytes) : (Tokens.done (.ok value)).Wants args 0 :=
  ⟨0, rfl, .inl rfl⟩

theorem wants_read {next : Token → Tokens α} {args : List Bytes}
    (wants : ∀ arg rest, args = arg :: rest → (next ⟨true, arg⟩).Wants rest wanted)
    (stops : args = [] → ∃ n, (next ⟨false, [42]⟩).count [] = .ok n) :
    (Tokens.read next).Wants args (wanted + 1) := by
  cases args with
  | nil =>
    obtain ⟨n, counted⟩ := stops rfl
    refine ⟨n + 1, by rw [count, counted]; rfl, .inr ⟨?_, ?_⟩⟩
    · exact Nat.succ_pos n
    · exact Nat.succ_pos wanted
  | cons arg rest =>
    obtain ⟨n, counted, agrees⟩ := wants arg rest rfl
    refine ⟨n + 1, by rw [count, counted]; rfl, ?_⟩
    rw [List.length_cons]
    omega

theorem wants_expect {next : Bytes → Tokens Command} {args : List Bytes}
    (wants : ∀ arg rest, args = arg :: rest → (next arg).Wants rest wanted) :
    (expectBulkString next).Wants args (1 + wanted) := by
  rw [Nat.add_comm]
  exact wants_read wants fun _ => ⟨0, rfl⟩

theorem count_expect_cons (next : Bytes → Tokens Command) (arg : Bytes) (args : List Bytes) :
    (expectBulkString next).count (arg :: args) =
      ((next arg).count args >>= fun n => pure (n + 1)) := rfl

theorem bind_assoc (parser : Tokens α) (f : α → Tokens β) (g : β → Tokens γ) :
    ((parser >>= f) >>= g) = parser >>= fun value => f value >>= g := by
  induction parser with
  | done result => cases result <;> rfl
  | read next ih => exact congrArg Tokens.read (funext fun token => ih token)

/-! ## Bounds -/

/-- A parser takes at most a number of tokens, whatever they are. -/
def AtMost : Tokens α → Nat → Prop
  | .done _, _ => True
  | .read _, 0 => False
  | .read next, bound + 1 => ∀ token, (next token).AtMost bound

/-- A parser that ends within the arguments has a count. -/
theorem run_atMost {parser : Tokens α} (bounded : parser.AtMost bound)
    (written : Written buffer position args) (enough : bound ≤ args.length)
    (ran : parser.run buffer position = .ok (value, behind')) :
    ∃ n ≤ bound, parser.count args = .ok n := by
  induction parser generalizing position args bound with
  | done result =>
    obtain ⟨value, has, _⟩ := exec_bind_ok.mp ran
    exact ⟨0, Nat.zero_le _, by rw [count, has]; rfl⟩
  | read next ih =>
    cases bound with
    | zero => exact bounded.elim
    | succ bound =>
      cases args with
      | nil => exact absurd enough (Nat.not_succ_le_zero _)
      | cons arg args =>
        rw [run_read written] at ran
        obtain ⟨n, few, counted⟩ :=
          ih _ (bounded _) written.tail (Nat.le_of_succ_le_succ enough) ran
        exact ⟨n + 1, Nat.succ_le_succ few, by rw [count, counted]; rfl⟩

theorem AtMost.mono {parser : Tokens α} (bounded : parser.AtMost bound) (le : bound ≤ bound') :
    parser.AtMost bound' := by
  induction parser generalizing bound bound' with
  | done result => trivial
  | read next ih =>
    cases bound with
    | zero => exact bounded.elim
    | succ bound =>
      cases bound' with
      | zero => exact absurd le (Nat.not_succ_le_zero _)
      | succ bound' => exact fun token => ih _ (bounded token) (Nat.le_of_succ_le_succ le)

theorem AtMost.bind {parser : Tokens α} {next : α → Tokens β} (first : parser.AtMost m)
    (second : ∀ value, (next value).AtMost n) : (parser >>= next).AtMost (m + n) := by
  induction parser generalizing m with
  | done result =>
    cases result with
    | error fault => trivial
    | ok value => exact (second value).mono (Nat.le_add_left _ _)
  | read more ih =>
    cases m with
    | zero => exact first.elim
    | succ m =>
      rw [Nat.succ_add]
      exact fun token => ih _ (first token)

theorem atMost_done (value : α) (bound : Nat) : (Tokens.done (.ok value)).AtMost bound := trivial

theorem atMost_read {next : Token → Tokens α} (bounded : ∀ token, (next token).AtMost bound) :
    (Tokens.read next).AtMost (bound + 1) := bounded

theorem atMost_expect {next : Bytes → Tokens Command} (bounded : ∀ text, (next text).AtMost bound) :
    (expectBulkString next).AtMost (bound + 1) := by
  rw [expectBulkString, parseToken_bind]
  refine atMost_read fun token => ?_
  split
  · exact bounded _
  · trivial

theorem atMost_decrement {total : Int} {consumed : Nat} {next : Int → Tokens α}
    (bounded : (next (total - consumed)).AtMost bound) :
    (decrement total consumed >>= next).AtMost bound := by
  unfold decrement
  split
  · trivial
  · exact bounded

end Tokens

end CarrotDb
