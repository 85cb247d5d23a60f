import CarrotDb.CommandReplay
import CarrotDb.ExpiredKeys

/-! Which passwords ACL SETUSER leaves. The parser takes the text of a key rule
or a command rule for a password as it takes that of a password rule, so the
last rule of any of these kinds decides what AUTH accepts afterwards. -/
namespace CarrotDb
open Resp Lockstep

/-- The text of the last rule with one of some marks. -/
def lastText (marks : List UInt8) (rules : List Bytes) : Option Bytes :=
  (rules.filterMap fun
    | mark :: text => if mark ∈ marks then some text else none
    | [] => none).getLast?

/-- `>`. -/
def passwordMarks : List UInt8 := [62]

/-- `>`, `+` and `~`. -/
def ruleMarks : List UInt8 := [62, 43, 126]

/-- The rules without a mark. -/
def plainRules (rules : List Bytes) : List Bytes :=
  rules.filter fun rule => !rule.head?.any (· ∈ ruleMarks)

theorem lastText_cons (marks : List UInt8) (mark : UInt8) (text : Bytes) (rules : List Bytes) :
    lastText marks ((mark :: text) :: rules) =
      if mark ∈ marks then some ((lastText marks rules).getD text) else lastText marks rules := by
  unfold lastText
  by_cases marked : mark ∈ marks
  · simp only [List.filterMap_cons, marked, if_true]
    cases rules.filterMap _ with
    | nil => rfl
    | cons first rest => simp [List.getLast?_cons]
  · simp [marked]

/-- A password rule has a mark. -/
theorem lastText_marked {rules : List Bytes} (unmarked : lastText ruleMarks rules = none) :
    lastText passwordMarks rules = none := by
  induction rules with
  | nil => rfl
  | cons rule rules ih =>
    cases rule with
    | nil => exact ih unmarked
    | cons mark text =>
      rw [lastText_cons] at unmarked ⊢
      by_cases marked : mark ∈ ruleMarks
      · simp [marked] at unmarked
      · have other : mark ∉ passwordMarks := fun member => marked (by simp_all [passwordMarks, ruleMarks])
        rw [if_neg marked] at unmarked
        rw [if_neg other]
        exact ih unmarked

/-- One round of the loop over the rules. -/
private theorem valueOn_rule (rule : Bytes) (rules : List Bytes) (password : Option Bytes)
    (flags : List Bytes) (finish : Option Bytes × List Bytes → Tokens α) :
    (parseRules (rules.length + 1) password flags >>= finish).valueOn (rule :: rules) =
      (parseRules rules.length
        (if rule.head?.any (· ∈ ruleMarks) then some rule.tail else password)
        (if rule.head?.any (· ∈ ruleMarks) then flags else flags ++ [rule]) >>= finish).valueOn
        rules := by
  rw [parseRules, Tokens.bind_assoc, Tokens.parseToken_bind, Tokens.valueOn_read]
  simp only [Bool.not_true, Bool.false_eq_true, if_false]
  split
  · simp [ruleMarks]
  · simp [ruleMarks]
  · simp [ruleMarks]
  · rename_i password_rule command_rule key_rule
    have unmarked : rule.head?.any (· ∈ ruleMarks) = false := by
      cases rule with
      | nil => rfl
      | cons mark text =>
        have no : mark ≠ 62 ∧ mark ≠ 43 ∧ mark ≠ 126 :=
          ⟨fun same => password_rule text (by rw [same]), fun same => command_rule text (by rw [same]),
            fun same => key_rule text (by rw [same])⟩
        simp [ruleMarks, no]
    simp [unmarked]

/-- What the loop over the rules makes of them. -/
theorem valueOn_rules (rules : List Bytes) (password : Option Bytes) (flags : List Bytes)
    (finish : Option Bytes × List Bytes → Tokens α) :
    (parseRules rules.length password flags >>= finish).valueOn rules =
      (finish ((lastText ruleMarks rules).or password, flags ++ plainRules rules)).valueOn [] := by
  induction rules generalizing password flags with
  | nil =>
    simp [lastText, plainRules]
    rfl
  | cons rule rules ih =>
    rw [List.length_cons, valueOn_rule, ih]
    cases rule with
    | nil =>
      have kept : plainRules ([] :: rules) = [] :: plainRules rules := rfl
      have last : lastText ruleMarks ([] :: rules) = lastText ruleMarks rules := rfl
      simp [kept, last]
    | cons mark text =>
      rw [lastText_cons]
      by_cases marked : mark ∈ ruleMarks
      · cases lastText ruleMarks rules <;> simp [marked, plainRules]
      · simp [marked, plainRules]

/-- The command that ACL SETUSER is parsed to. -/
theorem commandOf_setuser (username : Bytes) (rules : List Bytes) :
    commandOf (ascii "ACL") (ascii "SETUSER" :: username :: rules) =
      .ok (.aclSetUser username (lastText ruleMarks rules) (plainRules rules)) := by
  have rounds : (((rules.length + 1 + 1 : Nat) : Int) - 2).toNat = rules.length := by omega
  have parser : commandParser (ascii "ACL") ((ascii "SETUSER" :: username :: rules).length : Nat) =
      some (parseACLCommand ((ascii "SETUSER" :: username :: rules).length : Nat)) := rfl
  rw [commandOf, parser]
  dsimp only
  unfold parseACLCommand
  simp only [List.length_cons]
  rw [if_neg (by omega), Tokens.valueOn_expect, if_neg (by decide), if_neg (by decide),
    if_pos (by decide), if_neg (by omega), Tokens.valueOn_expect, rounds]
  have parsed := valueOn_rules rules none [] fun found =>
    (pure (.aclSetUser username found.1 found.2) : Tokens Command)
  simpa using parsed

/-- The value of a hexadecimal digit. -/
private def digitValue (digit : UInt8) : Nat :=
  if digit.toNat < 58 then digit.toNat - 48 else digit.toNat - 87

private theorem digitValue_digit {n : Nat} (small : n < 16) :
    digitValue (if n < 10 then UInt8.ofNat (48 + n) else UInt8.ofNat (87 + n)) = n := by
  have each : ∀ n : Fin 16, digitValue
      (if n.val < 10 then UInt8.ofNat (48 + n.val) else UInt8.ofNat (87 + n.val)) = n.val := by
    decide
  exact each ⟨n, small⟩

theorem hexByte_injective {first second : UInt8} (same : hexByte first = hexByte second) :
    first = second := by
  have bound := first.toNat_lt
  have bound' := second.toNat_lt
  unfold hexByte at same
  simp only [List.cons.injEq, and_true] at same
  have high := congrArg digitValue same.1
  have low := congrArg digitValue same.2
  rw [digitValue_digit (by omega), digitValue_digit (by omega)] at high low
  apply UInt8.toNat_inj.mp
  omega

theorem hexBytes_injective {first second : Bytes}
    (same : first.flatMap hexByte = second.flatMap hexByte) : first = second := by
  induction first generalizing second with
  | nil =>
    cases second with
    | nil => rfl
    | cons byte rest => simp [hexByte] at same
  | cons byte rest ih =>
    cases second with
    | nil => simp [hexByte] at same
    | cons byte' rest' =>
      have split := List.append_inj same rfl
      rw [hexByte_injective split.1, ih split.2]

variable {hash : Bytes → Bytes} {env : Env}

theorem hashSha256_injective (injective : Function.Injective hash) (hashing : env.sha256 = hash)
    {first second : Bytes} :
    hashSha256 env first = hashSha256 env second ↔ first = second := by
  constructor
  · intro same
    unfold hashSha256 at same
    rw [hashing] at same
    exact injective (hexBytes_injective same)
  · exact congrArg _

theorem hashSha256_nonempty (nonempty : ∀ input, hash input ≠ []) (hashing : env.sha256 = hash)
    (input : Bytes) : hashSha256 env input ≠ [] := by
  unfold hashSha256
  rw [hashing]
  cases found : hash input with
  | nil => exact absurd found (nonempty input)
  | cons byte rest => simp [hexByte]

theorem hashSha256_congr {other : Env} (same : env.sha256 = other.sha256) (input : Bytes) :
    hashSha256 env input = hashSha256 other input := by
  unfold hashSha256
  rw [same]

/-- AUTH for a user succeeds with a password. -/
def ACLManager.Admits (acl : ACLManager) (env : Env) (username password : Bytes) : Prop :=
  ∃ user, acl.getUser username = some user ∧ user.isEnabled = true ∧
    (user.nopass = true ∨ hashSha256 env password ∈ user.passwords)

variable {acl : ACLManager} {c : Context} {db : DB} {rdbFilePath username password : Bytes}
  {envs : List Env}

theorem handleAuth_admits :
    Effect.authenticate username ∈ handleAuth c username password ↔
      c.acl.Admits c.env username password := by
  unfold handleAuth ACLManager.Admits
  cases found : c.acl.getUser username with
  | none => simp
  | some user =>
    by_cases known : hashSha256 c.env password ∈ user.passwords <;>
      cases enabled : user.isEnabled <;> cases free : user.nopass <;> simp [enabled, free, known]

/-- What AUTH accepts behind a SETUSER of an enabled user: the password it
gives, or what it accepted before. -/
theorem admits_setUser (injective : Function.Injective hash) (nonempty : ∀ input, hash input ≠ [])
    (enabled : ∀ user, acl.getUser username = some user → user.isEnabled = true)
    {env' : Env} (hashing : env.sha256 = hash) (hashing' : env'.sha256 = hash)
    (given : Option Bytes) (flags : List Bytes) (password : Bytes) :
    (acl.setUser username ((given.map (hashSha256 env)).getD []) flags).Admits env' username
        password ↔
      match given with
      | some text => password = text
      | none => acl.Admits env' username password := by
  unfold ACLManager.Admits ACLManager.setUser ACLManager.getUser
  unfold ACLManager.getUser at enabled
  simp only [Finmap.lookup_insert, Option.some.injEq, exists_eq_left']
  have known : ((acl.users.lookup username).getD ⟨[], [], true, false⟩).isEnabled = true := by
    cases found : acl.users.lookup username with
    | none => rfl
    | some user => exact enabled user found
  cases given with
  | some text =>
    have hashed := hashSha256_nonempty nonempty hashing text
    have same : hashSha256 env' password = hashSha256 env text ↔ password = text := by
      rw [hashSha256_congr (hashing'.trans hashing.symm)]
      exact hashSha256_injective injective hashing
    simp [hashed, known, same]
  | none =>
    cases found : acl.users.lookup username with
    | none => simp
    | some user => simp

/-! ## Requests -/

/-- A request that changes what a user is. -/
def Command.SetsUser (command : Command) (username : Bytes) : Prop :=
  ∃ password flags, command = .aclSetUser username password flags

theorem execute_users {executed : Executed} (other : ¬ c.command.SetsUser username)
    (ran : execute db c rdbFilePath envs = .ok executed) :
    executed.acl.getUser username = c.acl.getUser username := by
  unfold execute at ran
  dsimp only at ran
  split at ran
  · cases ran
    rfl
  · split at ran
    · cases ran
      rfl
    · split at ran
      · obtain ⟨outcome, -, ran⟩ := exec_bind_ok.mp ran
        cases ran
        rfl
      · split at ran
        · obtain ⟨outcome, -, ran⟩ := exec_bind_ok.mp ran
          cases ran
          rfl
        · rename_i name password flags asked
          cases ran
          have different : username ≠ name := fun same =>
            other ⟨password, flags, by rw [asked, same]⟩
          unfold ACLManager.getUser handleAclSetuser ACLManager.setUser
          exact Finmap.lookup_insert_of_ne _ different
        · cases ran
          rfl
        · obtain ⟨outcome, -, ran⟩ := exec_bind_ok.mp ran
          cases ran
          rfl

/-- A client that is connected, and neither in a transaction nor subscribed. -/
def Session.Free (session : Session) (fd : Fd) : Prop :=
  ∃ client, session.clients.lookup fd = some client ∧ client.multi = false ∧ client.pubSub = false

/-- An AUTH request succeeds. -/
def Session.Admits (rdbFilePath : Bytes) (session : Session) (request : Request) (username : Bytes) :
    Prop :=
  ∃ effects next, session.step rdbFilePath request = .ok (effects, next) ∧
    Effect.authenticate username ∈ effects

variable {session after last : Session} {request : Request} {requests : List Request}
  {effects : List Effect} {outputs : List (List Effect)} {rules : List Bytes} {fd : Fd}

theorem session_admits (free : session.Free request.fd)
    (asked : request.command = .auth username password) :
    session.Admits rdbFilePath request username ↔ session.acl.Admits request.env username password := by
  obtain ⟨client, connected, multi, pubSub⟩ := free
  have ran : execute session.db (session.context client request) rdbFilePath request.queue =
      .ok ⟨session.db, session.acl, handleAuth (session.context client request) username password,
        some request.command⟩ := by
    simp [execute, Session.context, asked, multi, pubSub, Command.commandType]
  refine Iff.trans ?_ (handleAuth_admits (c := session.context client request))
  unfold Session.Admits Session.step
  rw [connected]
  dsimp only
  rw [ran]
  simp

theorem run_users (others : ∀ request ∈ requests, ¬ request.command.SetsUser username)
    (ran : run (Session.step rdbFilePath) session requests = .ok (outputs, last)) :
    last.acl.getUser username = session.acl.getUser username := by
  induction requests generalizing session outputs with
  | nil =>
    cases ran
    rfl
  | cons request requests ih =>
    obtain ⟨⟨effects, next⟩, stepped, ran⟩ := exec_bind_ok.mp ran
    obtain ⟨⟨later, last'⟩, ran, same⟩ := exec_bind_ok.mp ran
    cases same
    rw [ih (fun other member => others other (List.mem_cons_of_mem _ member)) ran]
    unfold Session.step at stepped
    cases connected : session.clients.lookup request.fd with
    | none =>
      rw [connected] at stepped
      cases stepped
      rfl
    | some client =>
      rw [connected] at stepped
      obtain ⟨executed, inside, stepped⟩ := exec_bind_ok.mp stepped
      cases stepped
      exact execute_users (others request List.mem_cons_self) inside

/-- SETUSER of a client that is free. -/
theorem setuser_users (free : session.Free request.fd) {given : Option Bytes} {flags : List Bytes}
    (asked : request.command = .aclSetUser username given flags)
    (ran : session.step rdbFilePath request = .ok (effects, after)) :
    after.acl =
      session.acl.setUser username ((given.map (hashSha256 request.env)).getD []) [] := by
  obtain ⟨client, connected, multi, pubSub⟩ := free
  unfold Session.step at ran
  rw [connected] at ran
  obtain ⟨executed, inside, ran⟩ := exec_bind_ok.mp ran
  cases ran
  simp [execute, Session.context, asked, multi, pubSub, Command.commandType, handleAclSetuser] at inside
  rw [← inside]

/-- After ACL SETUSER, and as long as no other one is sent for the user, AUTH
accepts exactly the text of the last password rule (or what it accepted before,
where there is none), if and only if no key or command rule behind it has
another text (or, where there is none, none has a text but the one that was the
only password before). -/
theorem setuser_password_iff (injective : Function.Injective hash)
    (nonempty : ∀ input, hash input ≠ []) (hashing : request.env.sha256 = hash)
    (free : session.Free request.fd)
    (asked : commandOf (ascii "ACL") (ascii "SETUSER" :: username :: rules) = .ok request.command)
    (enabled : ∀ user, session.acl.getUser username = some user → user.isEnabled = true)
    (set : session.step rdbFilePath request = .ok (effects, after))
    (others : ∀ request ∈ requests, ¬ request.command.SetsUser username)
    (ran : run (Session.step rdbFilePath) after requests = .ok (outputs, last))
    (later : last.Free fd) :
    (∀ password env queue, env.sha256 = hash →
      (last.Admits rdbFilePath ⟨fd, .auth username password, env, queue⟩ username ↔
        match lastText passwordMarks rules with
        | some text => password = text
        | none => session.acl.Admits request.env username password)) ↔
      match lastText passwordMarks rules with
      | some text => lastText ruleMarks rules = some text
      | none => ∀ text ∈ lastText ruleMarks rules, ∀ password,
        session.acl.Admits request.env username password ↔ password = text := by
  rw [commandOf_setuser] at asked
  have parsed := (Except.ok.inj asked).symm
  have users := run_users others ran
  -- What AUTH accepts is decided by the last rule with any mark.
  have accepts {password : Bytes} {env : Env} {queue : List Env} (hashing' : env.sha256 = hash) :
      last.Admits rdbFilePath ⟨fd, .auth username password, env, queue⟩ username ↔
        match lastText ruleMarks rules with
        | some text => password = text
        | none => session.acl.Admits request.env username password := by
    have same : session.acl.Admits env username password ↔
        session.acl.Admits request.env username password := by
      unfold ACLManager.Admits
      rw [hashSha256_congr (hashing'.trans hashing.symm)]
    rw [session_admits later rfl]
    unfold ACLManager.Admits
    rw [users, setuser_users free parsed set]
    have decided := admits_setUser injective nonempty enabled hashing hashing' (lastText ruleMarks rules)
      [] password
    unfold ACLManager.Admits at decided
    rw [decided]
    cases lastText ruleMarks rules with
    | some text => rfl
    | none => exact same
  constructor
  · intro claim
    have asked (password : Bytes) := claim password request.env [] hashing
    simp only [accepts hashing] at asked
    cases given : lastText ruleMarks rules with
    | none =>
      rw [lastText_marked given]
      simp
    | some text =>
      cases secret : lastText passwordMarks rules with
      | none =>
        simp only [given, secret] at asked
        intro other same password
        cases same
        exact (asked password).symm
      | some secret' =>
        simp only [given, secret] at asked
        rw [(asked text).mp rfl]
  · intro holds password env queue hashing'
    rw [accepts hashing']
    cases secret : lastText passwordMarks rules with
    | some text =>
      rw [secret] at holds
      rw [holds]
    | none =>
      rw [secret] at holds
      cases given : lastText ruleMarks rules with
      | none => rfl
      | some text => exact (holds text given password).symm

/-- One client that has just connected. -/
def oneClient : Session where
  db := {}
  acl := .new
  clients := Finmap.singleton 5 {}

/-- A hash function that agrees with the digest of one text. -/
def sampleHash (input : Bytes) : Bytes :=
  if input = ascii "secret" then
    [43, 184, 13, 83, 123, 29, 163, 227, 139, 211, 3, 97, 170, 133, 86, 134, 189, 224, 234, 205, 113,
      98, 254, 246, 162, 95, 233, 123, 245, 39, 162, 91]
  else 0 :: input

/-- A machine with that hash function. -/
def sampleEnv : Env := { Context.sample.env with sha256 := sampleHash }

/-- `ACL SETUSER alice on >secret` makes that her password. -/
theorem setuser_password_secret :
    ∃ effects after, oneClient.step [] ⟨5, .aclSetUser (ascii "alice") (some (ascii "secret"))
        [ascii "on"], sampleEnv, []⟩ = .ok (effects, after) ∧
      after.Admits [] ⟨5, .auth (ascii "alice") (ascii "secret"), sampleEnv, []⟩ (ascii "alice") := by
  have injective : Function.Injective sampleHash := by
    intro first second same
    unfold sampleHash at same
    split at same <;> split at same <;> simp_all
  have nonempty : ∀ input, sampleHash input ≠ [] := by
    intro input
    unfold sampleHash
    split <;> simp
  have free : oneClient.Free 5 := ⟨{}, rfl, rfl, rfl⟩
  refine ⟨_, _, rfl, ?_⟩
  have asked : commandOf (ascii "ACL") [ascii "SETUSER", ascii "alice", ascii "on", ascii ">secret"] =
      .ok (.aclSetUser (ascii "alice") (some (ascii "secret")) [ascii "on"]) := rfl
  have set : oneClient.step [] ⟨5, .aclSetUser (ascii "alice") (some (ascii "secret")) [ascii "on"],
      sampleEnv, []⟩ = .ok (_, _) := rfl
  have nothing : ∀ request ∈ ([] : List Request), ¬ request.command.SetsUser (ascii "alice") := by simp
  have decided := setuser_password_iff injective nonempty rfl free asked (by decide) set nothing rfl
    (⟨_, rfl, rfl, rfl⟩ : Session.Free _ 5)
  exact (decided.mpr rfl (ascii "secret") sampleEnv [] rfl).mpr rfl

/-- `ACL SETUSER alice on >secret ~* +@all` makes `@all` her password. -/
theorem setuser_takes_rule :
    ∃ command effects after,
      commandOf (ascii "ACL") [ascii "SETUSER", ascii "alice", ascii "on", ascii ">secret",
        ascii "~*", ascii "+@all"] = .ok command ∧
      oneClient.step [] ⟨5, command, sampleEnv, []⟩ = .ok (effects, after) ∧
      ¬ after.Admits [] ⟨5, .auth (ascii "alice") (ascii "secret"), sampleEnv, []⟩ (ascii "alice") ∧
      after.Admits [] ⟨5, .auth (ascii "alice") (ascii "@all"), sampleEnv, []⟩ (ascii "alice") := by
  refine ⟨_, _, _, rfl, rfl, ?_, ?_⟩
  · rw [session_admits ⟨_, rfl, rfl, rfl⟩ rfl]
    rintro ⟨user, found, -, known⟩
    cases found
    revert known
    decide
  · rw [session_admits ⟨_, rfl, rfl, rfl⟩ rfl]
    exact ⟨_, rfl, rfl, .inr (by decide)⟩

end CarrotDb
