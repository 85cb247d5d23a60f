import CarrotDb.DbExecute

/-! What the effects of a request do to the clients. -/
namespace CarrotDb

/-- The client an effect is about. -/
def Effect.target (served : Fd) : Effect → Option Fd
  | .write fd _ | .dirty fd => some fd
  | .reply _ | .beginTransaction | .endTransaction | .queue _ | .subscribe | .unsubscribe
  | .authenticate _ => some served
  | .block | .unblock _ | .ready _ => none

/-- An effect on the client it is about. -/
def Effect.apply : Effect → Client → Client
  | .reply bytes, client => { client with writeBuffer := client.writeBuffer ++ bytes }
  | .write _ bytes, client => { client with writeBuffer := client.writeBuffer ++ bytes }
  | .dirty _, client => { client with dirty := true }
  | .beginTransaction, client => { client with multi := true }
  | .endTransaction, client =>
    { client with queuedCommands := [], multi := false, dirty := false, pubSub := false }
  | .queue command, client => { client with queuedCommands := client.queuedCommands ++ [command] }
  | .subscribe, client =>
    { client with pubSub := true, totalSubscribedChannels := u64 (client.totalSubscribedChannels + 1) }
  | .unsubscribe, client =>
    { client with totalSubscribedChannels := sub64 client.totalSubscribedChannels 1 }
  | .authenticate username, client => { client with user := some username, isAuthenticated := true }
  | .block, client | .unblock _, client | .ready _, client => client

/-- The effects of a request on one of the clients. -/
def applyEffects (served fd : Fd) (effects : List Effect) (client : Client) : Client :=
  effects.foldl (fun client effect =>
    if effect.target served = some fd then effect.apply client else client) client

/-- What no effect changes of a client, a request leaves as it was. -/
theorem applyEffects_keeps {β : Type} {view : Client → β}
    (keeps : ∀ (effect : Effect) (client : Client), view (effect.apply client) = view client)
    (served fd : Fd) (effects : List Effect) (client : Client) :
    view (applyEffects served fd effects client) = view client := by
  induction effects generalizing client with
  | nil => rfl
  | cons effect rest ih =>
    have step : applyEffects served fd (effect :: rest) client = applyEffects served fd rest
        (if effect.target served = some fd then effect.apply client else client) := rfl
    rw [step, ih]
    split
    · exact keeps effect client
    · rfl

private theorem readBuffer_subscribed (client : Client) (channels : Nat) :
    ({ client with totalSubscribedChannels := channels } : Client).readBuffer =
      client.readBuffer := rfl

/-- The read buffer is left to the parser. -/
theorem Effect.apply_readBuffer (effect : Effect) (client : Client) :
    (effect.apply client).readBuffer = client.readBuffer := by
  cases effect with
  | unsubscribe => exact readBuffer_subscribed client _
  | subscribe => exact readBuffer_subscribed { client with pubSub := true } _
  | _ => rfl

/-- One of the clients of a table, changed. -/
def modifyClient (clients : Map Fd Client) (fd : Fd) (change : Client → Client) : Map Fd Client :=
  match clients.lookup fd with
  | some client => clients.insert fd (change client)
  | none => clients

/-- The effects of a request on all clients. -/
def applyToClients (served : Fd) (effects : List Effect) (clients : Map Fd Client) : Map Fd Client :=
  effects.foldl (fun clients effect =>
    match effect.target served with
    | some fd => modifyClient clients fd effect.apply
    | none => clients) clients

theorem lookup_modifyClient (clients : Map Fd Client) (fd other : Fd) (change : Client → Client) :
    (modifyClient clients fd change).lookup other =
      (clients.lookup other).map (if fd = other then change else id) := by
  rw [modifyClient]
  by_cases same : fd = other
  · subst same
    cases lookup : clients.lookup fd with
    | none => rw [lookup]; rfl
    | some client => rw [Finmap.lookup_insert, if_pos rfl]; rfl
  · rw [if_neg same, Option.map_id]
    cases lookup : clients.lookup fd with
    | none => rfl
    | some client => exact Finmap.lookup_insert_of_ne _ (Ne.symm same)

/-- What a change leaves of a client, it leaves of all of them. -/
theorem view_modifyClient {β : Type} {view : Client → β} {change : Client → Client}
    (kept : ∀ client, view (change client) = view client) (clients : Map Fd Client) (fd other : Fd) :
    ((modifyClient clients fd change).lookup other).map view = (clients.lookup other).map view := by
  rw [lookup_modifyClient, Option.map_map]
  congr 1
  funext client
  rw [Function.comp_apply]
  split
  · exact kept client
  · rfl

/-- Each client sees the effects that are about it. -/
theorem lookup_applyToClients (served fd : Fd) (effects : List Effect) (clients : Map Fd Client) :
    (applyToClients served effects clients).lookup fd =
      (clients.lookup fd).map (applyEffects served fd effects) := by
  induction effects generalizing clients with
  | nil => exact Option.map_id'.symm
  | cons effect rest ih =>
    rw [applyToClients, List.foldl_cons]
    refine (ih _).trans ?_
    have step : (match effect.target served with
        | some fd => modifyClient clients fd effect.apply
        | none => clients).lookup fd = (clients.lookup fd).map fun client =>
          if effect.target served = some fd then effect.apply client else client := by
      cases target : effect.target served with
      | none => simp
      | some other =>
        dsimp only
        rw [lookup_modifyClient]
        by_cases same : other = fd
        · simp [same]
        · simp [same]
    rw [step, Option.map_map]
    rfl

/-- What no effect changes of a client, a request leaves of all of them. -/
theorem view_applyToClients {β : Type} {view : Client → β}
    (keeps : ∀ (effect : Effect) (client : Client), view (effect.apply client) = view client)
    (served : Fd) (effects : List Effect) (clients : Map Fd Client) (fd : Fd) :
    ((applyToClients served effects clients).lookup fd).map view =
      (clients.lookup fd).map view := by
  rw [lookup_applyToClients, Option.map_map]
  congr 1
  funext client
  exact applyEffects_keeps keeps served fd effects client

end CarrotDb
