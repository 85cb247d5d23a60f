import CarrotDb.CommandTokens

/-! How many arguments of a frame each of the commands takes. Some parsers take
a fixed number, some all there are, some only whole pairs or triples. -/
namespace CarrotDb
open Decimal Resp

section Arity
variable (args : List Bytes)

/-- A pair of texts that both read as numbers and are not outside the allowed
ranges, as not-a-number never is. -/
def acceptedPoint (lon lat : Bytes) : Option (Float × Float) := do
  let longitude ← FloatText.stod lon
  let latitude ← FloatText.stod lat
  if outsideAllowed longitude latitude then none else some (longitude, latitude)

/-- The geohash is defined for all points in front of the first refused one. -/
def encodable : List Bytes → Bool
  | lon :: lat :: _ :: rest =>
    match acceptedPoint lon lat with
    | none => true
    | some (longitude, latitude) =>
      (allowedGeoHash.geoHashEncode longitude latitude 26 ⟨0, 0⟩).isOk && encodable rest
  | _ => true

/-- The arguments behind the keyword of XREAD, in pairs of a key and an id. -/
def pairedArguments (left : Nat) : Nat := if left % 2 = 0 then left else 0

/-- The first argument is a word, in any letter case. -/
def leads (word : String) : Bool := args.head?.any fun arg => isEqual arg (ascii word)

/-- How many arguments the parser of a command wants when it is sent these. -/
def wantedArguments : List (Bytes × Nat) :=
  let k := args.length
  let first := leads args
  [(ascii "PING", 0),
    (ascii "ECHO", 1),
    (ascii "SET", 2 + (k - 2)),
    (ascii "GET", 1),
    (ascii "TYPE", 1),
    (ascii "INCR", 1),
    (ascii "RPUSH", 1 + (k - 1)),
    (ascii "LPUSH", 1 + (k - 1)),
    (ascii "LRANGE", 3),
    (ascii "LLEN", 1),
    (ascii "LPOP", 1 + min 1 (k - 1)),
    (ascii "BLPOP", k),
    (ascii "XADD", 2 + (k - 2) / 2 * 2),
    (ascii "XRANGE", 3),
    (ascii "XREAD", 1 + if first "BLOCK" then 2 + pairedArguments (k - 3)
      else if first "STREAMS" then pairedArguments (k - 1) else 0),
    (ascii "MULTI", 0),
    (ascii "EXEC", 0),
    (ascii "DISCARD", 0),
    (ascii "INFO", 1),
    (ascii "REPLCONF", 1 + if first "listening-port" || first "capa" || first "GETACK" || first "ACK"
      then 1 else 0),
    (ascii "PSYNC", 1 + min 1 (k - 1)),
    (ascii "WAIT", 2),
    (ascii "CONFIG", 1 + if first "GET" then k - 1 else 0),
    (ascii "KEYS", 1),
    (ascii "SUBSCRIBE", 1),
    (ascii "PUBLISH", 2),
    (ascii "UNSUBSCRIBE", 1),
    (ascii "ZADD", 1 + (k - 1) / 2 * 2),
    (ascii "ZRANK", 2),
    (ascii "ZRANGE", 3),
    (ascii "ZCARD", 1),
    (ascii "ZSCORE", 2),
    (ascii "ZREM", 1 + (k - 1)),
    (ascii "GEOADD", 1 + (k - 1) / 3 * 3),
    (ascii "GEOPOS", 1 + (k - 1)),
    (ascii "GEODIST", 3),
    (ascii "GEOSEARCH", 7),
    (ascii "ACL", if first "WHOAMI" then 1 else if first "GETUSER" then if k = 2 then 2 else 1
      else if first "SETUSER" then k else min 1 k),
    (ascii "AUTH", 2)]

end Arity

namespace Tokens

/-- A loop over arguments that are there takes one for each round. -/
theorem wants_strings {finish : List Bytes → Tokens α} {args : List Bytes} {rounds : Nat}
    (enough : rounds ≤ args.length)
    (wants : ∀ values, (finish values).Wants (args.drop rounds) wanted) :
    (parseStrings rounds >>= finish).Wants args (rounds + wanted) := by
  induction rounds generalizing args finish with
  | zero =>
    rw [Nat.zero_add]
    exact wants []
  | succ rounds ih =>
    cases args with
    | nil => exact absurd enough (Nat.not_succ_le_zero _)
    | cons arg rest =>
      rw [Nat.succ_add]
      refine wants_read (fun other tail same => ?_) (fun absent => nomatch absent)
      cases same
      show (parseStrings rounds >>= _ >>= finish).Wants rest _
      rw [bind_assoc]
      exact ih (Nat.le_of_succ_le_succ enough) fun values => wants _

theorem wants_setFlags {finish : Option Nat × Option Nat → α} {args : List Bytes} {rounds : Nat}
    (enough : rounds ≤ args.length) (ex px : Option Nat) :
    (parseSetFlags rounds ex px >>= fun flags => pure (finish flags)).Wants args rounds := by
  fun_induction parseSetFlags rounds ex px generalizing args with
  | case1 ex px => exact wants_done _ _
  | case2 ex px =>
    exact wants_read (fun _ _ _ => wants_done _ _) (fun absent => absurd enough (by simp [absent]))
  | case3 total ex px ihValue ihPx ihOther =>
    rcases args with _ | ⟨flag, _ | ⟨value, rest⟩⟩
    · exact absurd enough (by simp)
    · exact absurd enough (by simp)
    · rw [List.length_cons, List.length_cons] at enough
      rw [parseToken_bind, read_bind]
      refine wants_read (fun arg tail same => ?_) (fun absent => nomatch absent)
      cases same
      simp only [Bool.not_true, Bool.false_eq_true, if_false]
      split
      · refine wants_read (fun arg tail same => ?_) (fun absent => nomatch absent)
        cases same
        exact ihValue ⟨true, value⟩ _ _ (by omega)
      · split
        · refine wants_read (fun arg tail same => ?_) (fun absent => nomatch absent)
          cases same
          exact ihPx ⟨true, value⟩ _ _ (by omega)
        · exact ihOther (by rw [List.length_cons]; omega)

theorem wants_fieldValues {finish : List (Bytes × Bytes) → α} {args : List Bytes} {rounds : Nat}
    (enough : rounds ≤ args.length) :
    (parseFieldValues rounds >>= fun pairs => pure (finish pairs)).Wants args (rounds / 2 * 2) := by
  fun_induction parseFieldValues rounds generalizing args finish with
  | case1 total ih =>
    rcases args with _ | ⟨field, _ | ⟨value, rest⟩⟩
    · exact absurd enough (by simp)
    · exact absurd enough (by simp)
    · rw [List.length_cons, List.length_cons] at enough
      rw [show (total + 2) / 2 * 2 = total / 2 * 2 + 1 + 1 by omega]
      simp only [parseToken_bind, read_bind]
      refine wants_read (fun _ _ same => ?_) (fun absent => nomatch absent)
      cases same
      refine wants_read (fun _ _ same => ?_) (fun absent => nomatch absent)
      cases same
      rw [bind_assoc]
      exact ih (by omega)
  | case2 total short =>
    have few : total / 2 * 2 = 0 := by
      rcases total with _ | _ | total
      · rfl
      · rfl
      · exact absurd rfl (short total)
    rw [few]
    exact wants_done _ _

theorem wants_scoreMembers {finish : List (Float × Bytes) → α} {args : List Bytes} {rounds : Nat}
    (enough : rounds ≤ args.length) :
    (parseScoreMembers rounds >>= fun pairs => pure (finish pairs)).Wants args (rounds / 2 * 2) := by
  fun_induction parseScoreMembers rounds generalizing args finish with
  | case1 total ih =>
    rcases args with _ | ⟨score, _ | ⟨member, rest⟩⟩
    · exact absurd enough (by simp)
    · exact absurd enough (by simp)
    · rw [List.length_cons, List.length_cons] at enough
      rw [show (total + 2) / 2 * 2 = total / 2 * 2 + 1 + 1 by omega]
      simp only [parseToken_bind, read_bind]
      refine wants_read (fun _ _ same => ?_) (fun absent => nomatch absent)
      cases same
      refine wants_read (fun _ _ same => ?_) (fun absent => nomatch absent)
      cases same
      simp only [Bool.not_true, Bool.or_self, Bool.false_eq_true, if_false, bind_assoc]
      exact ih (by omega)
  | case2 total short =>
    have few : total / 2 * 2 = 0 := by
      rcases total with _ | _ | total
      · rfl
      · rfl
      · exact absurd rfl (short total)
    rw [few]
    exact wants_done _ _

theorem wants_parameters {args : List Bytes} {rounds : Nat} (enough : rounds ≤ args.length)
    (parameters : List Bytes) : (parseParameters rounds parameters).Wants args rounds := by
  induction rounds generalizing args parameters with
  | zero => exact wants_done _ _
  | succ rounds ih =>
    rw [parseParameters, Nat.add_comm]
    refine wants_expect fun arg rest same => ?_
    subst same
    exact ih (Nat.le_of_succ_le_succ enough) _

theorem wants_rules {finish : Option Bytes × List Bytes → α} {args : List Bytes} {rounds : Nat}
    (enough : rounds ≤ args.length) (password : Option Bytes) (flags : List Bytes) :
    (parseRules rounds password flags >>= fun rules => pure (finish rules)).Wants args rounds := by
  induction rounds generalizing args password flags with
  | zero => exact wants_done _ _
  | succ rounds ih =>
    rw [parseRules, parseToken_bind, read_bind]
    refine wants_read (fun arg rest same => ?_) (fun absent => absurd enough (by simp [absent]))
    subst same
    have left := Nat.le_of_succ_le_succ enough
    simp only [Bool.not_true, Bool.false_eq_true, if_false]
    split
    · exact ih left _ _
    · exact ih left _ _
    · exact ih left _ _
    · exact ih left _ _

/-- A refused point is read without being encoded. -/
private theorem readGeoPoint_refused {point : GeoPoint} {lon lat : Bytes}
    (refused : point.invalidLatLon = true ∨ acceptedPoint lon lat = none) (member : Bytes) :
    ∃ next, readGeoPoint point lon lat member = .ok next ∧ next.invalidLatLon = true := by
  have invalid : (point.invalidLatLon || (FloatText.stod lon).isNone ||
      (FloatText.stod lat).isNone || outsideAllowed ((FloatText.stod lon).getD point.longitude)
        ((FloatText.stod lat).getD point.latitude)) = true := by
    rcases refused with refused | refused
    · simp [refused]
    · unfold acceptedPoint at refused
      cases longitude : FloatText.stod lon with
      | none => simp
      | some x =>
        cases latitude : FloatText.stod lat with
        | none => simp
        | some y =>
          have outside : outsideAllowed x y = true := by simpa [longitude, latitude] using refused
          simp [outside]
  unfold readGeoPoint
  dsimp only
  rw [invalid]
  exact ⟨_, rfl, rfl⟩

/-- A point that is not refused is read and encoded. -/
theorem readGeoPoint_accepted {point : GeoPoint} {lon lat : Bytes}
    (open_ : point.invalidLatLon = false)
    (accepted : acceptedPoint lon lat = some (longitude, latitude)) (member : Bytes) :
    readGeoPoint point lon lat member =
      (allowedGeoHash.geoHashEncode longitude latitude 26 ⟨0, 0⟩ >>= fun encoded =>
        pure ⟨longitude, latitude, encoded.2.bits.toFloat, member, false⟩) := by
  unfold acceptedPoint at accepted
  unfold readGeoPoint
  cases read : FloatText.stod lon with
  | none => simp [read] at accepted
  | some x =>
    cases read' : FloatText.stod lat with
    | none => simp [read, read'] at accepted
    | some y =>
      cases outside : outsideAllowed x y with
      | true => simp [read, read', outside] at accepted
      | false =>
        simp [read, read', outside] at accepted
        obtain ⟨rfl, rfl⟩ := accepted
        simp [open_, outside]

/-- The loop of GEOADD has its result just where its points are encodable. -/
theorem wants_geoPoints {finish : GeoPoint → α} {args : List Bytes} (point : GeoPoint)
    (defined : point.invalidLatLon = true ∨ encodable args = true) :
    (parseGeoPoints args.length point >>= fun point => pure (finish point)).Wants args
      (args.length / 3 * 3) := by
  match args with
  | [] => exact wants_done _ _
  | [_] =>
    have done : parseGeoPoints 1 point = pure point := by simp [parseGeoPoints]
    rw [List.length_singleton, done]
    exact wants_done _ _
  | [_, _] =>
    have done : parseGeoPoints 2 point = pure point := by simp [parseGeoPoints]
    rw [List.length_cons, List.length_singleton, done]
    exact wants_done _ _
  | lon :: lat :: member :: rest =>
    have step : ∃ next, readGeoPoint point lon lat member = .ok next ∧
        (next.invalidLatLon = true ∨ encodable rest = true) := by
      cases invalid : point.invalidLatLon with
      | true =>
        obtain ⟨next, read, refused⟩ := @readGeoPoint_refused point lon lat (.inl invalid) member
        exact ⟨next, read, .inl refused⟩
      | false =>
        have codes := defined.resolve_left (by simp [invalid])
        unfold encodable at codes
        cases accepted : acceptedPoint lon lat with
        | none =>
          obtain ⟨next, read, refused⟩ := @readGeoPoint_refused point lon lat (.inr accepted) member
          exact ⟨next, read, .inl refused⟩
        | some pair =>
          rw [accepted] at codes
          dsimp only at codes
          rw [Bool.and_eq_true] at codes
          obtain ⟨encoded, has⟩ := exec_of_isOk codes.1
          have read := readGeoPoint_accepted invalid accepted member
          rw [has, exec_ok_bind] at read
          exact ⟨_, read, .inr codes.2⟩
    obtain ⟨next, read, still⟩ := step
    rw [List.length_cons, List.length_cons, List.length_cons,
      show (rest.length + 3) / 3 * 3 = rest.length / 3 * 3 + 1 + 1 + 1 by omega]
    simp only [parseGeoPoints, parseToken_bind, read_bind]
    refine wants_read (fun _ _ same => ?_) (fun absent => nomatch absent)
    cases same
    refine wants_read (fun _ _ same => ?_) (fun absent => nomatch absent)
    cases same
    refine wants_read (fun _ _ same => ?_) (fun absent => nomatch absent)
    cases same
    simp only [Bool.not_true, Bool.or_self, Bool.false_eq_true, if_false, read]
    exact wants_geoPoints next still

theorem encodable_of_count {finish : GeoPoint → α} {args : List Bytes} {point : GeoPoint}
    (invalid : point.invalidLatLon = false)
    (counted : (parseGeoPoints args.length point >>= fun point => pure (finish point)).count args =
      .ok n) : encodable args = true := by
  match args with
  | [] => rfl
  | [_] => rfl
  | [_, _] => rfl
  | lon :: lat :: member :: rest =>
    rw [List.length_cons, List.length_cons, List.length_cons] at counted
    simp only [parseGeoPoints, parseToken_bind, read_bind] at counted
    obtain ⟨_, counted, _⟩ := exec_bind_ok.mp counted
    obtain ⟨_, counted, _⟩ := exec_bind_ok.mp counted
    obtain ⟨_, counted, _⟩ := exec_bind_ok.mp counted
    simp only [Bool.not_true, Bool.or_self, Bool.false_eq_true, if_false] at counted
    unfold encodable
    cases accepted : acceptedPoint lon lat with
    | none => rfl
    | some pair =>
      rw [readGeoPoint_accepted invalid accepted] at counted
      dsimp only
      cases encoding : allowedGeoHash.geoHashEncode pair.1 pair.2 26 ⟨0, 0⟩ with
      | error fault =>
        rw [encoding] at counted
        cases counted
      | ok encoded =>
        rw [encoding] at counted
        rw [encodable_of_count rfl counted]
        rfl

/-! ## The parsers one by one -/

theorem wants_one (make : Bytes → Command) (args : List Bytes) :
    (expectBulkString fun a => pure (make a)).Wants args 1 :=
  wants_expect fun _ _ _ => wants_done _ _

theorem wants_two (make : Bytes → Bytes → Command) (args : List Bytes) :
    (expectBulkString fun a => expectBulkString fun b => pure (make a b)).Wants args 2 :=
  wants_expect fun _ _ _ => wants_one _ _

theorem wants_three (make : Bytes → Bytes → Bytes → Command) (args : List Bytes) :
    (expectBulkString fun a => expectBulkString fun b => expectBulkString fun c =>
      pure (make a b c)).Wants args 3 :=
  wants_expect fun _ _ _ => wants_two _ _

theorem wants_indexRange (make : Bytes → Int → Int → Command) (args : List Bytes) :
    (parseIndexRange make).Wants args 3 := by
  rw [parseIndexRange, show 3 = 1 + (1 + (1 + 0)) by rfl]
  refine wants_expect fun _ _ _ => wants_expect fun _ _ _ => wants_expect fun _ _ _ => ?_
  split <;> exact wants_done _ _

/-- A key and a loop over the arguments behind it. -/
theorem wants_keyed (make : Bytes → List Bytes → Command) (args : List Bytes) :
    (expectBulkString fun key => do
      let total ← decrement args.length 1
      pure (make key (← parseStrings total.toNat))).Wants args (1 + (args.length - 1)) := by
  refine wants_expect fun key rest same => ?_
  subst same
  rw [decrement_bind _ _ (by decide), Int.toNat_sub, List.length_cons, Nat.add_sub_cancel]
  exact wants_strings le_rfl fun _ => wants_done _ _

theorem wants_set (args : List Bytes) :
    (parseSetCommand args.length).Wants args (2 + (args.length - 2)) := by
  rw [show 2 + (args.length - 2) = 1 + (1 + (args.length - 2)) by omega]
  refine wants_expect fun _ rest same => wants_expect fun _ rest' same' => ?_
  subst same same'
  rw [decrement_bind _ _ (by decide), Int.toNat_sub, List.length_cons, List.length_cons,
    show rest'.length + 1 + 1 - 2 = rest'.length by omega]
  exact wants_setFlags le_rfl none none

theorem wants_lpop (args : List Bytes) :
    (parseLpopCommand args.length).Wants args (1 + min 1 (args.length - 1)) := by
  refine wants_expect fun key rest same => ?_
  subst same
  rw [decrement_bind _ _ (by decide), List.length_cons]
  cases rest with
  | nil => exact wants_done _ _
  | cons count rest =>
    rw [if_pos (by rw [List.length_cons]; omega), show min 1 ((count :: rest).length + 1 - 1) = 1 by
      rw [List.length_cons]; omega]
    exact wants_read (fun _ _ _ => wants_done _ _) (fun absent => nomatch absent)

theorem wants_blpop (args : List Bytes) : (parseBlpopCommand args.length).Wants args args.length := by
  rcases List.eq_nil_or_concat' args with rfl | ⟨keys, timeout, rfl⟩
  · exact wants_done _ _
  · rw [parseBlpopCommand]
    have rounds : (((keys ++ [timeout]).length : Int) - 1).toNat = keys.length := by simp
    have taken : (keys ++ [timeout]).length = keys.length + 1 := by simp
    rw [rounds, taken]
    refine wants_strings (by omega) fun values => ?_
    rw [List.drop_left, if_pos (by omega)]
    exact wants_read (fun _ _ _ => wants_done _ _) (fun absent => nomatch absent)

theorem wants_xadd (args : List Bytes) :
    (parseXaddCommand args.length).Wants args (2 + (args.length - 2) / 2 * 2) := by
  rw [show 2 + (args.length - 2) / 2 * 2 = 1 + (1 + (args.length - 2) / 2 * 2) by omega]
  refine wants_expect fun _ rest same => wants_expect fun _ rest' same' => ?_
  subst same same'
  rw [decrement_bind _ _ (by decide), Int.toNat_sub, List.length_cons, List.length_cons,
    show rest'.length + 1 + 1 - 2 = rest'.length by omega]
  exact wants_fieldValues le_rfl

theorem wants_zadd (args : List Bytes) :
    (parseZaddCommand args.length).Wants args (1 + (args.length - 1) / 2 * 2) := by
  refine wants_expect fun key rest same => ?_
  subst same
  rw [decrement_bind _ _ (by decide), Int.toNat_sub, List.length_cons, Nat.add_sub_cancel]
  exact wants_scoreMembers le_rfl

theorem wants_geoAdd {args : List Bytes} (codes : encodable args.tail = true) :
    (parseGeoAddCommand args.length).Wants args (1 + (args.length - 1) / 3 * 3) := by
  refine wants_expect fun key rest same => ?_
  subst same
  rw [decrement_bind _ _ (by decide), Int.toNat_sub, List.length_cons, Nat.add_sub_cancel]
  exact wants_geoPoints {} (.inr codes)

theorem wants_streams {args : List Bytes} {total : Int} (blockTimeout : Option Float)
    (left : total = args.length ∨ args.length = 0 ∧ total ≤ 0) :
    (parseStreams blockTimeout total).Wants args (pairedArguments args.length) := by
  unfold parseStreams pairedArguments
  rcases left with rfl | ⟨none, negative⟩
  · by_cases even : args.length % 2 = 0
    · have half : ((args.length : Int) / 2).toNat = args.length / 2 := by omega
      rw [if_neg (by omega), if_pos even, half]
      have whole : args.length = args.length / 2 + (args.length / 2 + 0) := by omega
      refine Wants.change (wants_strings (by omega) fun keys => ?_) (.inl whole.symm)
      refine wants_strings ?_ fun ids => wants_done _ _
      rw [List.length_drop]
      omega
    · rw [if_pos (by omega), if_neg even]
      exact wants_done _ _
  · have zero : (total / 2).toNat = 0 := by omega
    rw [none]
    split
    · exact wants_done _ _
    · rw [zero]
      exact wants_done _ _

theorem streams_stop (blockTimeout : Option Float) {total : Int} (none : total ≤ 0) :
    ∃ n, (parseStreams blockTimeout total).count [] = .ok n := by
  obtain ⟨n, counted, -⟩ := @wants_streams [] total blockTimeout (.inr ⟨rfl, none⟩)
  exact ⟨n, counted⟩

theorem leads_cons (first : Bytes) (rest : List Bytes) (word : String) :
    leads (first :: rest) word = isEqual first (ascii word) := rfl

/-- A token that is taken whatever it is. -/
theorem wants_token (make : Token → Command) (args : List Bytes) :
    (parseToken >>= fun token => pure (make token)).Wants args 1 :=
  wants_read (fun _ _ _ => wants_done _ _) fun _ => ⟨0, rfl⟩

theorem wants_xread (args : List Bytes) : (parseXreadCommand args.length).Wants args
    (1 + if leads args "BLOCK" then 2 + pairedArguments (args.length - 3)
      else if leads args "STREAMS" then pairedArguments (args.length - 1) else 0) := by
  refine wants_expect fun first rest same => ?_
  subst same
  rw [leads_cons, leads_cons]
  by_cases block : isEqual first (ascii "BLOCK") = true
  · rw [if_pos block, if_pos block, parseToken_bind, Nat.add_comm 2]
    refine wants_read (fun timeout others same => ?_) (fun few => ?_)
    · subst same
      rw [decrement_bind _ _ (by decide), parseToken_bind]
      refine wants_read (fun streams rest same => ?_) (fun few => ?_)
      · subst same
        rw [decrement_above (by omega), List.length_cons, List.length_cons, List.length_cons]
        exact wants_streams _ (.inl (by omega))
      · subst few
        rw [List.length_cons, List.length_singleton, decrement_above (by omega)]
        exact streams_stop _ (by omega)
    · subst few
      rw [decrement_bind _ _ (by decide), parseToken_bind, List.length_singleton]
      have stops : ∀ blockTimeout, ∃ n, (decrement ((1 : Nat) - (2 : Nat)) 1 >>= fun total =>
          parseStreams blockTimeout total).count [] = .ok n := by
        intro blockTimeout
        rw [decrement_above (by omega)]
        exact streams_stop _ (by omega)
      obtain ⟨n, counted⟩ := stops none
      exact ⟨n + 1, by rw [count]; exact congrArg (· >>= fun n => pure (n + 1)) counted⟩
  · rw [if_neg block, if_neg block]
    by_cases streams : isEqual first (ascii "STREAMS") = true
    · rw [if_pos streams, if_pos streams, decrement_bind _ _ (by decide), List.length_cons,
        Nat.add_sub_cancel]
      exact wants_streams _ (.inl (by omega))
    · rw [if_neg streams, if_neg streams]
      exact wants_done _ _

theorem wants_replConf (args : List Bytes) : parseReplConfCommand.Wants args
    (1 + if leads args "listening-port" || leads args "capa" || leads args "GETACK" ||
      leads args "ACK" then 1 else 0) := by
  refine wants_expect fun first rest same => ?_
  subst same
  rw [leads_cons, leads_cons, leads_cons, leads_cons]
  by_cases port : isEqual first (ascii "listening-port") = true
  · rw [if_pos port, if_pos (by simp [port])]
    exact wants_token _ _
  · rw [if_neg port]
    by_cases capa : isEqual first (ascii "capa") = true
    · rw [if_pos capa, if_pos (by simp [capa])]
      exact wants_token _ _
    · rw [if_neg capa]
      by_cases getAck : isEqual first (ascii "GETACK") = true
      · rw [if_pos getAck, if_pos (by simp [getAck])]
        exact wants_token _ _
      · rw [if_neg getAck]
        by_cases ack : isEqual first (ascii "ACK") = true
        · rw [if_pos ack, if_pos (by simp [ack])]
          exact wants_token _ _
        · rw [if_neg ack, if_neg (by simp [port, capa, getAck, ack])]
          exact wants_done _ _

theorem wants_psync (args : List Bytes) :
    (parsePsyncCommand args.length).Wants args (1 + min 1 (args.length - 1)) := by
  refine wants_expect fun replId rest same => ?_
  subst same
  cases rest with
  | nil => exact wants_done _ _
  | cons offset rest =>
    rw [if_pos (by rw [List.length_cons, List.length_cons]; omega),
      show min 1 ((replId :: offset :: rest).length - 1) = 1 by
        rw [List.length_cons, List.length_cons]; omega]
    exact wants_one _ _

theorem wants_wait (args : List Bytes) : parseWaitCommand.Wants args 2 :=
  wants_expect fun _ _ _ => wants_token _ _

theorem wants_getConfig (args : List Bytes) : (parseGetConfigCommand args.length).Wants args
    (1 + if leads args "GET" then args.length - 1 else 0) := by
  refine wants_expect fun commandType rest same => ?_
  subst same
  rw [leads_cons]
  by_cases get : isEqual commandType (ascii "GET") = true
  · rw [if_pos get, if_pos get, decrement_bind _ _ (by decide), Int.toNat_sub, List.length_cons,
      Nat.add_sub_cancel]
    exact wants_parameters le_rfl []
  · rw [if_neg get, if_neg get]
    exact wants_done _ _

theorem wants_geoSearch (args : List Bytes) : parseGeoSearchCommand.Wants args 7 := by
  rw [parseGeoSearchCommand, show 7 = 1 + (1 + (1 + (1 + (1 + (1 + (0 + 1)))))) by rfl]
  refine wants_expect fun _ _ _ => wants_expect fun _ _ _ => wants_expect fun _ _ _ =>
    wants_expect fun _ _ _ => wants_expect fun _ _ _ => wants_expect fun _ _ _ =>
      wants_read (fun _ _ _ => ?_) (fun _ => ⟨0, ?_⟩)
  · dsimp only
    split <;> exact wants_done _ _
  · dsimp only
    split <;> rfl

theorem wants_acl (args : List Bytes) : (parseACLCommand args.length).Wants args
    (if leads args "WHOAMI" then 1 else if leads args "GETUSER" then if args.length = 2 then 2 else 1
      else if leads args "SETUSER" then args.length else min 1 args.length) := by
  cases args with
  | nil => exact wants_done _ _
  | cons first rest =>
    rw [parseACLCommand, if_neg (by rw [List.length_cons]; omega)]
    rw [leads_cons, leads_cons, leads_cons]
    rw [show (if isEqual first (ascii "WHOAMI") then 1
      else if isEqual first (ascii "GETUSER") then if (first :: rest).length = 2 then 2 else 1
      else if isEqual first (ascii "SETUSER") then (first :: rest).length
      else min 1 (first :: rest).length) = 1 + (if isEqual first (ascii "WHOAMI") then 0
      else if isEqual first (ascii "GETUSER") then if rest.length = 1 then 1 else 0
      else if isEqual first (ascii "SETUSER") then rest.length else 0) by
        rw [List.length_cons]
        split_ifs <;> omega]
    refine wants_expect fun cmdName others same => ?_
    cases same
    by_cases whoami : isEqual first (ascii "WHOAMI") = true
    · rw [if_pos whoami, if_pos whoami]
      exact wants_done _ _
    · rw [if_neg whoami, if_neg whoami]
      by_cases getUser : isEqual first (ascii "GETUSER") = true
      · rw [if_pos getUser, if_pos getUser, List.length_cons]
        by_cases more : rest.length > 1
        · rw [if_pos (by omega), if_neg (by omega)]
          exact wants_done _ _
        · rw [if_neg (by omega)]
          by_cases one : rest.length = 1
          · rw [if_pos (by omega), if_pos one]
            exact wants_one _ _
          · rw [if_neg (by omega), if_neg one]
            exact wants_done _ _
      · rw [if_neg getUser, if_neg getUser]
        by_cases setUser : isEqual first (ascii "SETUSER") = true
        · rw [if_pos setUser, if_pos setUser, List.length_cons]
          cases rest with
          | nil => exact wants_done _ _
          | cons username rules =>
            have rounds : (((rules.length + 1 + 1 : Nat) : Int) - 2).toNat = rules.length := by omega
            rw [if_neg (by rw [List.length_cons]; omega), List.length_cons, rounds,
              Nat.add_comm rules.length]
            refine wants_expect fun _ _ same => ?_
            cases same
            exact wants_rules le_rfl none []
        · rw [if_neg setUser, if_neg setUser]
          exact wants_done _ _

/-- A row of the table of parsers and one of the table of numbers. -/
def Agrees (args : List Bytes) (parser : Bytes × Tokens Command) (wanted : Bytes × Nat) : Prop :=
  parser.1 = wanted.1 ∧
    ((parser.1 = ascii "GEOADD" → encodable args.tail = true) → parser.2.Wants args wanted.2)

private theorem row {name : Bytes} {parser : Tokens Command} (wants : parser.Wants args wanted)
    (rest : List.Forall₂ (Agrees args) parsers numbers) :
    List.Forall₂ (Agrees args) ((name, parser) :: parsers) ((name, wanted) :: numbers) :=
  .cons ⟨rfl, fun _ => wants⟩ rest

/-- Each parser wants what the table says. -/
theorem parsers_want (args : List Bytes) :
    List.Forall₂ (Agrees args) (commandParsers args.length) (wantedArguments args) :=
  row (wants_done _ _) <| row (wants_one _ _) <| row (wants_set _) <| row (wants_one _ _) <|
    row (wants_one _ _) <| row (wants_one _ _) <| row (wants_keyed _ _) <|
    row (wants_keyed _ _) <| row (wants_indexRange _ _) <| row (wants_one _ _) <|
    row (wants_lpop _) <| row (wants_blpop _) <| row (wants_xadd _) <| row (wants_three _ _) <|
    row (wants_xread _) <| row (wants_done _ _) <| row (wants_done _ _) <| row (wants_done _ _) <|
    row (wants_one _ _) <| row (wants_replConf _) <| row (wants_psync _) <| row (wants_wait _) <|
    row (wants_getConfig _) <| row (wants_one _ _) <| row (wants_one _ _) <|
    row (wants_two _ _) <| row (wants_one _ _) <| row (wants_zadd _) <| row (wants_two _ _) <|
    row (wants_indexRange _ _) <| row (wants_one _ _) <| row (wants_two _ _) <|
    row (wants_keyed _ _) <| .cons ⟨rfl, fun codes => wants_geoAdd (codes rfl)⟩ <|
    row (wants_keyed _ _) <| row (wants_three _ _) <| row (wants_geoSearch _) <|
    row (wants_acl _) <| row (wants_two _ _) <| .nil

/-! ## Bounds -/

theorem atMost_strings (rounds : Nat) : (parseStrings rounds).AtMost rounds := by
  induction rounds with
  | zero => trivial
  | succ rounds ih =>
    rw [parseStrings, parseToken_bind]
    exact atMost_read fun _ => ih.bind fun _ => atMost_done _ 0

theorem atMost_setFlags (rounds : Nat) (ex px : Option Nat) :
    (parseSetFlags rounds ex px).AtMost rounds := by
  fun_induction parseSetFlags rounds ex px with
  | case1 => trivial
  | case2 => exact atMost_read fun _ => atMost_done _ 0
  | case3 total ex px ihValue ihPx ihOther =>
    simp only [parseToken_bind]
    refine atMost_read fun flag => ?_
    split
    · trivial
    · split
      · exact atMost_read fun value => ihValue value _ _
      · split
        · exact atMost_read fun value => ihPx value _ _
        · exact ihOther

theorem atMost_fieldValues (rounds : Nat) : (parseFieldValues rounds).AtMost rounds := by
  fun_induction parseFieldValues rounds with
  | case1 total ih =>
    simp only [parseToken_bind]
    exact atMost_read fun _ => atMost_read fun _ => ih.bind fun _ => atMost_done _ 0
  | case2 => trivial

theorem atMost_scoreMembers (rounds : Nat) : (parseScoreMembers rounds).AtMost rounds := by
  fun_induction parseScoreMembers rounds with
  | case1 total ih =>
    simp only [parseToken_bind]
    refine atMost_read fun _ => atMost_read fun _ => ?_
    split
    · trivial
    · exact ih.bind fun _ => atMost_done _ 0
  | case2 => trivial

theorem atMost_geoPoints (rounds : Nat) (point : GeoPoint) :
    (parseGeoPoints rounds point).AtMost rounds := by
  fun_induction parseGeoPoints rounds point with
  | case1 total point ih =>
    simp only [parseToken_bind]
    refine atMost_read fun _ => atMost_read fun _ => atMost_read fun _ => ?_
    split
    · trivial
    · cases readGeoPoint point _ _ _ with
      | error fault => trivial
      | ok next => exact ih next
  | case2 => trivial

theorem atMost_parameters (rounds : Nat) (parameters : List Bytes) :
    (parseParameters rounds parameters).AtMost rounds := by
  induction rounds generalizing parameters with
  | zero => trivial
  | succ rounds ih => exact atMost_expect fun _ => ih _

theorem atMost_rules (rounds : Nat) (password : Option Bytes) (flags : List Bytes) :
    (parseRules rounds password flags).AtMost rounds := by
  induction rounds generalizing password flags with
  | zero => trivial
  | succ rounds ih =>
    rw [parseRules, parseToken_bind]
    refine atMost_read fun token => ?_
    split
    · trivial
    · split <;> exact ih _ _

theorem atMost_streams (blockTimeout : Option Float) (total : Int) :
    (parseStreams blockTimeout total).AtMost total.toNat := by
  unfold parseStreams
  split
  · trivial
  · rename_i even
    have both := (atMost_strings (total / 2).toNat).bind fun keys =>
      (atMost_strings (total / 2).toNat).bind fun ids =>
        atMost_done (Command.xread blockTimeout keys ids) 0
    exact both.mono (by omega)

theorem atMost_geoAdd (total : Int) : (parseGeoAddCommand total).AtMost (1 + (total - 1).toNat) := by
  rw [Nat.add_comm]
  exact atMost_expect fun _ => atMost_decrement ((atMost_geoPoints _ _).bind fun _ => atMost_done _ 0)

private theorem atMost_one (make : Bytes → Command) :
    (expectBulkString fun a => pure (make a)).AtMost 1 := atMost_expect fun _ => atMost_done _ 0

private theorem atMost_two (make : Bytes → Bytes → Command) :
    (expectBulkString fun a => expectBulkString fun b => pure (make a b)).AtMost 2 :=
  atMost_expect fun _ => atMost_one _

private theorem atMost_three (make : Bytes → Bytes → Bytes → Command) :
    (expectBulkString fun a => expectBulkString fun b => expectBulkString fun c =>
      pure (make a b c)).AtMost 3 := atMost_expect fun _ => atMost_two _

private theorem atMost_indexRange (make : Bytes → Int → Int → Command) :
    (parseIndexRange make).AtMost 3 := by
  refine atMost_expect fun _ => atMost_expect fun _ => @atMost_expect 0 _ fun _ => ?_
  split <;> trivial

private theorem atMost_keyed (make : Bytes → List Bytes → Command) (total : Int) :
    (expectBulkString fun key => do
      let total ← decrement total 1
      pure (make key (← parseStrings total.toNat))).AtMost ((total - 1).toNat + 1) :=
  atMost_expect fun _ => atMost_decrement ((atMost_strings _).bind fun _ => atMost_done _ 0)

private theorem atMost_lpop (total : Int) : (parseLpopCommand total).AtMost 2 := by
  refine atMost_expect fun _ => @atMost_decrement _ 1 _ _ _ ?_
  split
  · exact atMost_read fun _ => atMost_done _ 0
  · trivial

private theorem atMost_blpop (total : Int) :
    (parseBlpopCommand total).AtMost ((total - 1).toNat + 1) := by
  refine (atMost_strings _).bind fun keys => ?_
  split
  · exact atMost_read fun _ => atMost_done _ 0
  · trivial

private theorem atMost_xread (total : Int) : (parseXreadCommand total).AtMost (3 + total.toNat) := by
  refine (@atMost_expect (2 + total.toNat) _ fun first => ?_).mono (by omega)
  split
  · rw [parseToken_bind]
    refine AtMost.mono (atMost_read fun timeout => atMost_decrement ?_) (Nat.add_comm _ 2).le
    rw [parseToken_bind]
    exact atMost_read fun streams => atMost_decrement ((atMost_streams _ _).mono (by omega))
  · split
    · exact atMost_decrement ((atMost_streams _ _).mono (by omega))
    · trivial

private theorem atMost_replConf : parseReplConfCommand.AtMost 2 := by
  refine @atMost_expect 1 _ fun confType => ?_
  repeat' split
  all_goals first | exact atMost_read fun _ => atMost_done _ 0 | trivial

private theorem atMost_psync (total : Int) : (parsePsyncCommand total).AtMost 2 := by
  refine @atMost_expect 1 _ fun replId => ?_
  split
  · exact atMost_one _
  · trivial

private theorem atMost_getConfig (total : Int) :
    (parseGetConfigCommand total).AtMost ((total - 1).toNat + 1) := by
  refine atMost_expect fun commandType => ?_
  split
  · exact atMost_decrement (atMost_parameters _ _)
  · trivial

private theorem atMost_geoSearch : parseGeoSearchCommand.AtMost 7 := by
  refine atMost_expect fun _ => atMost_expect fun _ => atMost_expect fun _ => atMost_expect fun _ =>
    atMost_expect fun _ => atMost_expect fun _ => @atMost_read _ 0 _ fun _ => ?_
  dsimp only
  split <;> trivial

private theorem atMost_acl (total : Int) : (parseACLCommand total).AtMost (2 + total.toNat) := by
  unfold parseACLCommand
  split
  · trivial
  · refine (@atMost_expect (1 + total.toNat) _ fun cmdName => ?_).mono (by omega)
    split
    · trivial
    · split
      · split
        · trivial
        · split
          · exact (atMost_one _).mono (by omega)
          · trivial
      · split
        · split
          · trivial
          · refine AtMost.mono (atMost_expect fun _ =>
              (atMost_rules (total - 2).toNat _ _).bind fun _ => atMost_done _ 0) (by omega)
        · trivial

/-- No parser takes many more than the announced number. -/
theorem parsers_atMost (total : Int) :
    ∀ parser ∈ commandParsers total, parser.2.AtMost (7 + total.toNat) := by
  simp only [commandParsers, List.forall_mem_cons, List.not_mem_nil]
  have one (make : Bytes → Command) := (atMost_one make).mono (show 1 ≤ 7 + total.toNat by omega)
  have two (make : Bytes → Bytes → Command) :=
    (atMost_two make).mono (show 2 ≤ 7 + total.toNat by omega)
  have three (make : Bytes → Bytes → Bytes → Command) :=
    (atMost_three make).mono (show 3 ≤ 7 + total.toNat by omega)
  have indexRange (make : Bytes → Int → Int → Command) :=
    (atMost_indexRange make).mono (show 3 ≤ 7 + total.toNat by omega)
  have keyed (make : Bytes → List Bytes → Command) :=
    (atMost_keyed make total).mono (show (total - 1).toNat + 1 ≤ 7 + total.toNat by omega)
  have set : (parseSetCommand total).AtMost (7 + total.toNat) :=
    AtMost.mono (atMost_expect fun _ => atMost_expect fun _ => atMost_decrement
      ((atMost_setFlags _ _ _).bind fun _ => atMost_done _ 0)) (by omega)
  have xadd : (parseXaddCommand total).AtMost (7 + total.toNat) :=
    AtMost.mono (atMost_expect fun _ => atMost_expect fun _ => atMost_decrement
      ((atMost_fieldValues _).bind fun _ => atMost_done _ 0)) (by omega)
  have wait : parseWaitCommand.AtMost (7 + total.toNat) :=
    AtMost.mono (atMost_expect fun _ => atMost_read fun _ => atMost_done _ 0) (by omega)
  have zadd : (parseZaddCommand total).AtMost (7 + total.toNat) :=
    AtMost.mono (atMost_expect fun _ => atMost_decrement
      ((atMost_scoreMembers _).bind fun _ => atMost_done _ 0)) (by omega)
  exact ⟨trivial, one _, set, one _, one _, one _, keyed _, keyed _, indexRange _, one _,
    (atMost_lpop total).mono (by omega), (atMost_blpop total).mono (by omega), xadd, three _,
    (atMost_xread total).mono (by omega), trivial, trivial, trivial, one _,
    atMost_replConf.mono (by omega), (atMost_psync total).mono (by omega), wait,
    (atMost_getConfig total).mono (by omega), one _, one _, two _, one _, zadd, two _, indexRange _,
    one _, two _, keyed _, (atMost_geoAdd total).mono (by omega), keyed _, three _,
    atMost_geoSearch.mono (by omega), (atMost_acl total).mono (by omega), two _, nofun⟩

end Tokens

end CarrotDb
