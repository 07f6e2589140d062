import Mathlib
import DocSql.Proofs.SessionCalls

/-! # The schema is enforced over whole runs

A client makes queries in a session, one at a time, and runs them as often as it likes; meanwhile
others may change the store at any time, and make any of its calls fail.  This module looks at such
runs step by step (`Client.Event`).  If the session enforces the schema, no search reaches the store
unless every collection of its SELECT is known at that moment, and a collection is known only if the
store has named it or rows have been inserted into it.

One step is described by `Event.Sound`; there is one lemma for each kind of step, and the run follows
by induction.
-/
namespace DocSql
open List

variable {result : Compiled Rows}

/-! ### Steps of a client -/

/-- Runs a SELECT, with a change of the store between the check of its collections and its search. -/
def Query.rowsAround (q : Query) (meanwhile : Outside) : SessionM Rows := do
  match q.command with
  | .select query command =>
    if (← get).enforceSchema then Session.checkCollections query.collections
    Session.onStore (modify meanwhile.change)
    let cursor ← Session.onStore (openCursor command)
    return { cursor, shape := query.shape, enforceSchema := (← get).enforceSchema, sql := q.sql,
             params := q.params }
  | _ => throw (.undecodable .rowsOfCommand)

theorem Query.rowsAround_none (q : Query) : q.rowsAround .none = q.rows := by
  cases q.command <;> rfl

/-- Runs any other command, with a change of the store between the two calls of an insertion. -/
def Query.executeAround (q : Query) (meanwhile : Outside) : SessionM (Nat × Query) :=
  match q.command with
  | .insert i => do
    let outcome ← Session.onStore (i.executeAround meanwhile)
    Session.remember [i.collection]
    return (outcome.count, { q with lastRowId := outcome.lastRowId })
  | _ => q.execute

theorem Query.executeAround_none (q : Query) : q.executeAround .none = q.execute := by
  unfold executeAround execute
  cases q.command <;> rfl

/-- A session, and the query at hand. -/
structure Client where
  session : Session
  query : Option Query := none

namespace Client

/-- What can happen. -/
inductive Step where
  | make (sql : String) (params : List Value)
  | rows (meanwhile : Outside)
  | execute (meanwhile : Outside)
  /-- Something happens to the store. -/
  | outside (change : Outside)

/-- What a step comes to. -/
inductive Outcome where
  | made
  | refused (e : QueryError)
  | rows (result : Compiled Rows)
  | executed (result : Compiled Nat)
  | changed
  /-- There is no query to run. -/
  | idle

/-- Takes a step. -/
def step (c : Client) : Step → Outcome × Client
  | .make sql params =>
    match Query.compile sql params with
    | .ok q => (.made, { c with query := some q })
    | .error e => (.refused e, { c with query := none })
  | .rows meanwhile =>
    match c.query with
    | none => (.idle, c)
    | some q =>
      let run := effect (q.rowsAround meanwhile) c.session
      (.rows run.1, { c with session := run.2 })
  | .execute meanwhile =>
    match c.query with
    | none => (.idle, c)
    | some q =>
      let run := effect (q.executeAround meanwhile) c.session
      match run.1 with
      | .ok (count, q) => (.executed (.ok count), { session := run.2, query := some q })
      | .error fault => (.executed (.error fault), { c with session := run.2 })
  | .outside o =>
    (.changed, { c with session := { c.session with store := o.change c.session.store } })

/-- A step that has been taken. -/
structure Event where
  before : Client
  step : Step
  outcome : Outcome
  after : Client

/-- The event of a step. -/
def event (c : Client) (step : Step) : Event :=
  { before := c, step, outcome := (c.step step).1, after := (c.step step).2 }

/-- Takes steps one after the other. -/
def run : Client → List Step → List Event × Client
  | c, [] => ([], c)
  | c, step :: steps =>
    let rest := run (c.event step).after steps
    (c.event step :: rest.1, rest.2)

/-- The calls of the store so far. -/
abbrev calls (c : Client) : List StoreCall := c.session.store.calls

/-- The collections that are known to exist. -/
abbrev cached (c : Client) : List String := c.session.cached

/-- The query at hand is a compiled one, and the session enforces the schema. -/
structure Strict (c : Client) : Prop where
  enforced : c.session.enforceSchema = true
  compiled : ∀ q, c.query = some q →
    ∃ q', Query.compile q.sql q.params = .ok q' ∧ q'.command = q.command

namespace Event

/-- The calls that the step has made. -/
def recorded (e : Event) : List StoreCall := e.after.calls.drop e.before.calls.length

/-- The step has run the query at hand, a SELECT. -/
def Reads (e : Event) (query : Select) (command : SelectCommand) : Prop :=
  (∃ meanwhile, e.step = .rows meanwhile) ∧
    ∃ q, e.before.query = some q ∧ q.command = .select query command

/-- The store has named a collection in the step. -/
def Names (e : Event) (name : String) : Prop :=
  (∃ meanwhile, e.step = .rows meanwhile) ∧ .listCollectionNames ∈ e.recorded ∧
    ∃ names store, effect Store.listCollectionNames e.before.session.store = (.ok names, store) ∧
      name ∈ names

/-- The step has executed an insertion into a collection. -/
def Inserts (e : Event) (name : String) : Prop :=
  (∃ meanwhile count, e.step = .execute meanwhile ∧ e.outcome = .executed (.ok count)) ∧
    ∃ q i, e.before.query = some q ∧ q.command = .insert i ∧ i.collection = name

/-- The step has failed before a search: it was refused to make a query, a collection was missing, or
a SELECT was to be executed. -/
inductive Fails (e : Event) : Prop
  | refused {error : QueryError} (h : e.outcome = .refused error)
  | missing {gap : SchemaGap} (h : e.outcome = .rows (.error (.migration gap)))
  | select {meanwhile : Outside} {q : Query} {query : Select} {command : SelectCommand}
      (h : e.step = .execute meanwhile) (hq : e.before.query = some q)
      (hselect : q.command = .select query command)

/-- A search that the step has made: the query at hand is a SELECT that was compiled from a text, its
collections were all known when the search was made, and the search is the one of its command. -/
def Justifies (e : Event) (call : StoreCall) : Prop :=
  ∃ query command, e.Reads query command ∧ call = command.call ∧
    (∃ sql params q, Query.compile sql params = .ok q ∧ q.command = .select query command) ∧
    ∃ checked : Session,
      effect (Session.checkCollections query.collections) e.before.session = (.ok (), checked) ∧
      (∀ c ∈ query.collections, c ∈ checked.cached) ∧ e.after.calls = checked.store.calls ++ [call]

/-- What holds of every step. -/
structure Sound (e : Event) : Prop where
  /-- The record grows. -/
  grows : e.after.calls = e.before.calls ++ e.recorded
  /-- No collection is forgotten. -/
  keeps : ∀ name ∈ e.before.cached, name ∈ e.after.cached
  /-- A new collection was named by the store or inserted into. -/
  learns : ∀ name ∈ e.after.cached, name ∈ e.before.cached ∨ e.Names name ∨ e.Inserts name
  /-- Searches are made for SELECTs whose collections are known. -/
  justified : ∀ call ∈ e.recorded, call.isSearch = true → e.Justifies call
  /-- Running a SELECT asks for the names of the collections once at most. -/
  asksOnce : ∀ meanwhile, e.step = .rows meanwhile →
    (e.recorded.filter StoreCall.isListing).length ≤ 1
  /-- It does not ask if all collections of the SELECT are known. -/
  asksNeeded : ∀ query command, e.Reads query command →
    (∀ c ∈ query.collections, c ∈ e.before.cached) → e.recorded.filter StoreCall.isListing = []
  /-- Nothing is searched by a step that fails before. -/
  silent : e.Fails → ∀ call ∈ e.recorded, call.isSearch = false

variable {e : Event}

theorem recorded_eq {new : List StoreCall} (h : e.after.calls = e.before.calls ++ new) :
    e.recorded = new := by
  rw [recorded, h, drop_left]

/-- A step that makes no call and learns nothing is sound. -/
theorem sound_of_quiet (hcalls : e.after.calls = e.before.calls)
    (hcached : e.after.cached = e.before.cached) : e.Sound := by
  have hrecorded : e.recorded = [] := recorded_eq (hcalls.trans (append_nil _).symm)
  constructor
  case grows => rw [hrecorded, hcalls, append_nil]
  case keeps => exact fun name h => hcached ▸ h
  case learns => exact fun name h => .inl (hcached ▸ h)
  all_goals simp [hrecorded]

end Event
end Client

/-! ### Executing -/

/-- What executing a query comes to. -/
structure Query.Executed (q : Query) (s : Session) (result : Compiled (Nat × Query)) (s' : Session) :
    Prop where
  records : ∃ new, s'.store.calls = s.store.calls ++ new ∧ ∀ call ∈ new, call.isSearch = false
  learns : s'.cached = s.cached ∨ ∃ i answer, q.command = .insert i ∧ result = .ok answer ∧
    s'.cached = Session.addName s.cached i.collection
  enforces : s'.enforceSchema = s.enforceSchema
  same : ∀ answer, result = .ok answer →
    answer.2.sql = q.sql ∧ answer.2.params = q.params ∧ answer.2.command = q.command

namespace Query

variable {q : Query} {s : Session}

/-- Executing a query changes the session only in what the store records, if it is no insertion. -/
theorem executed_of_records {result : Compiled (Nat × Query)} {store : Store}
    (hrecords : ∃ new, store.calls = s.store.calls ++ new ∧ ∀ call ∈ new, call.isSearch = false)
    (hresult : ∀ answer, result = .ok answer → answer.2 = q) :
    q.Executed s result { s with store } where
  records := hrecords
  learns := .inl rfl
  enforces := rfl
  same := by
    intro answer h
    rw [hresult answer h]
    exact ⟨rfl, rfl, rfl⟩

theorem executed_of_onStore {act : StoreM Nat}
    (hact : Store.Records (fun call => call.isSearch = false) act) :
    q.Executed s (effect (do return (← Session.onStore act, q) : SessionM (Nat × Query)) s).1
      (effect (do return (← Session.onStore act, q) : SessionM (Nat × Query)) s).2 := by
  have hrun := Session.effect_onStore act s
  cases hresult : (effect act s.store).1 with
  | error fault =>
    rw [hresult] at hrun
    rw [effect_bind_of_error hrun]
    exact executed_of_records (hact s.store) fun answer h => by cases h
  | ok count =>
    rw [hresult] at hrun
    rw [effect_bind_of_ok hrun, effect_pure]
    exact executed_of_records (hact s.store) fun answer h => by cases h; rfl

theorem executed (q : Query) (meanwhile : Outside) (s : Session) :
    q.Executed s (effect (q.executeAround meanwhile) s).1 (effect (q.executeAround meanwhile) s).2 := by
  cases hcommand : q.command with
  | select query command =>
    simp only [executeAround, execute, hcommand]
    exact executed_of_records ⟨[], by simp, by simp⟩ fun answer h => by cases h
  | schema hint =>
    simp only [executeAround, execute, hcommand]
    exact executed_of_records ⟨[], by simp, by simp⟩ fun answer h => by cases h; rfl
  | update u =>
    simp only [executeAround, execute, hcommand]
    exact executed_of_onStore (Store.records_perform (.updateMany ..) rfl)
  | delete d =>
    simp only [executeAround, execute, hcommand]
    exact executed_of_onStore (Store.records_perform (.deleteMany ..) rfl)
  | insert i =>
    simp only [executeAround, hcommand]
    have hrun := Session.effect_onStore (i.executeAround meanwhile) s
    have hrecords := i.records_executeAround meanwhile s.store
    cases hresult : (effect (i.executeAround meanwhile) s.store).1 with
    | error fault =>
      rw [hresult] at hrun
      rw [effect_bind_of_error hrun]
      exact executed_of_records hrecords fun answer h => by cases h
    | ok outcome =>
      rw [hresult] at hrun
      rw [effect_bind_of_ok hrun]
      refine ⟨hrecords, .inr ⟨i, _, hcommand, rfl, rfl⟩, rfl, ?_⟩
      rintro answer ⟨⟩
      exact ⟨rfl, rfl, hcommand.symm⟩

/-! ### Reading -/

/-- What running a SELECT comes to. -/
inductive Read (q : Query) (s : Session) : Compiled Rows → Session → Prop
  | noSelect (h : ∀ query command, q.command ≠ .select query command) :
      Read q s (.error (.undecodable .rowsOfCommand)) s
  | unchecked {query : Select} {command : SelectCommand} {fault : Fault} {s' : Session}
      (select : q.command = .select query command)
      (check : effect (Session.checkCollections query.collections) s = (.error fault, s')) :
      Read q s (.error fault) s'
  | searched {query : Select} {command : SelectCommand} {checked s' : Session}
      {result : Compiled Rows} (select : q.command = .select query command)
      (check : effect (Session.checkCollections query.collections) s = (.ok (), checked))
      (same : s'.enforceSchema = checked.enforceSchema ∧ s'.cached = checked.cached)
      (calls : s'.store.calls = checked.store.calls ++ [command.call])
      (faults : ∀ fault, result = .error fault → ∃ why, fault = .store why) :
      Read q s result s'

theorem read (q : Query) (meanwhile : Outside) (h : s.enforceSchema = true) :
    q.Read s (effect (q.rowsAround meanwhile) s).1 (effect (q.rowsAround meanwhile) s).2 := by
  cases hcommand : q.command with
  | select query command =>
    simp only [rowsAround, hcommand]
    rw [effect_get_bind, if_pos h]
    rcases hcheck : effect (Session.checkCollections query.collections) s with ⟨fault | _, checked⟩
    · rw [effect_bind_of_error hcheck]
      exact .unchecked hcommand hcheck
    · have hchange : effect (Session.onStore (modify meanwhile.change)) checked =
          (.ok (), { checked with store := meanwhile.change checked.store }) := rfl
      rw [effect_bind_of_ok hcheck, effect_bind_of_ok hchange]
      obtain ⟨hcalls, hfaults⟩ := effect_openCursor command (meanwhile.change checked.store)
      rw [meanwhile.quiet] at hcalls
      have hopen := Session.effect_onStore (openCursor command)
        { checked with store := meanwhile.change checked.store }
      cases hresult : (effect (openCursor command) (meanwhile.change checked.store)).1 with
      | error fault =>
        rw [hresult] at hopen
        rw [effect_bind_of_error hopen]
        refine .searched hcommand hcheck ⟨rfl, rfl⟩ hcalls fun fault' h => ?_
        cases h
        exact hfaults fault hresult
      | ok cursor =>
        rw [hresult] at hopen
        rw [effect_bind_of_ok hopen]
        exact .searched hcommand hcheck ⟨rfl, rfl⟩ hcalls fun fault h => by cases h
  | insert | update | delete | schema =>
    simp only [rowsAround, hcommand]
    exact .noSelect (by simp [hcommand])

end Query

/-- What a check of collections does to a session, and the calls that it makes. -/
structure Session.Asked (s : Session) (collections : List String) (s' : Session)
    (asked : List StoreCall) : Prop where
  calls : s'.store.calls = s.store.calls ++ asked
  once : asked = [] ∨ asked = [.listCollectionNames]
  needed : (∀ c ∈ collections, c ∈ s.cached) → asked = []
  keeps : ∀ name ∈ s.cached, name ∈ s'.cached
  learns : ∀ name ∈ s'.cached, name ∈ s.cached ∨
    asked = [.listCollectionNames] ∧ s.store.failure = none ∧ name ∈ s.store.collections.keys
  enforces : s'.enforceSchema = s.enforceSchema

namespace Session

variable {s s' : Session} {collections : List String}
variable {result : Compiled Unit}

theorem asked_listed {c : String} (hc : c ∈ collections ∧ c ∉ s.cached)
    (hready : s.store.failure = none) :
    s.Asked collections s.listed [.listCollectionNames] where
  calls := rfl
  once := .inr rfl
  needed h := absurd (h c hc.1) hc.2
  keeps _ h := mem_cached_listed.mpr (.inl h)
  learns _ h := (mem_cached_listed.mp h).imp_right fun hname => ⟨rfl, hready, hname⟩
  enforces := rfl

theorem Checked.asked (h : Checked s collections result s') :
    ∃ asked, s.Asked collections s' asked := by
  cases h with
  | known all =>
    exact ⟨[], (append_nil _).symm, .inl rfl, fun _ => rfl, fun _ h => h, fun _ h => .inl h, rfl⟩
  | @failed why c unknown failure =>
    exact ⟨[.listCollectionNames], rfl, .inr rfl, fun h => absurd (h c unknown.1) unknown.2,
      fun _ h => h, fun _ h => .inl h, rfl⟩
  | found unknown ready _ | missing unknown ready _ => exact ⟨_, asked_listed unknown ready⟩

theorem Checked.all_cached (h : Checked s collections (.ok ()) s') :
    ∀ c ∈ collections, c ∈ s'.cached := by
  cases h with
  | known all => exact all
  | found _ _ all => exact all

theorem checked_of_effect (h : effect (checkCollections collections) s = (result, s')) :
    Checked s collections result s' := by
  have hchecked := checked s collections
  rw [h] at hchecked
  exact hchecked

end Session

theorem Query.Read.enforces {q : Query} {s s' : Session} (h : q.Read s result s') :
    s'.enforceSchema = s.enforceSchema := by
  cases h with
  | noSelect => rfl
  | unchecked _ check =>
    obtain ⟨_, hasked⟩ := (Session.checked_of_effect check).asked
    exact hasked.enforces
  | searched _ check same =>
    obtain ⟨_, hasked⟩ := (Session.checked_of_effect check).asked
    exact same.1.trans hasked.enforces

/-! ### Single steps -/

namespace Client

variable {meanwhile : Outside}

namespace Event

variable {e : Event}

/-- Running a SELECT is sound, whatever its check has asked and whether a search has followed. -/
theorem sound_of_asked {collections : List String} {checked : Session} {asked : List StoreCall}
    (searched : List StoreCall) (hstep : e.step = .rows meanwhile)
    (hasked : e.before.session.Asked collections checked asked)
    (hcached : e.after.cached = checked.cached)
    (hcalls : e.after.calls = checked.store.calls ++ searched)
    (hcollections : ∀ query command, e.Reads query command → query.collections = collections)
    (hsearched : ∀ call ∈ searched, call.isListing = false ∧ e.Justifies call)
    (hsilent : e.Fails → searched = []) : e.Sound := by
  have hrecorded : e.recorded = asked ++ searched := by
    refine recorded_eq ?_
    rw [hcalls, hasked.calls, append_assoc]
  have hlistings : e.recorded.filter StoreCall.isListing = asked := by
    have hnone : searched.filter StoreCall.isListing = [] :=
      filter_eq_nil_iff.mpr fun call h => by simp [(hsearched call h).1]
    rw [hrecorded, filter_append, hnone, append_nil]
    rcases hasked.once with rfl | rfl <;> rfl
  have hasks : ∀ call ∈ asked, call.isSearch = false := by
    rcases hasked.once with rfl | rfl <;> simp [StoreCall.isSearch]
  constructor
  case grows => rw [hrecorded, hcalls, hasked.calls, append_assoc]
  case keeps =>
    intro name h
    rw [hcached]
    exact hasked.keeps name h
  case learns =>
    intro name h
    rw [hcached] at h
    refine (hasked.learns name h).imp_right fun hname => .inl ?_
    obtain ⟨rfl, hready, hname⟩ := hname
    exact ⟨⟨meanwhile, hstep⟩, by simp [hrecorded], _, _, Store.effect_listCollectionNames hready, hname⟩
  case justified =>
    intro call hcall hsearch
    rw [hrecorded] at hcall
    rcases mem_append.mp hcall with h | h
    · simp [hasks call h] at hsearch
    · exact (hsearched call h).2
  case asksOnce =>
    intro _ _
    rw [hlistings]
    rcases hasked.once with rfl | rfl <;> simp
  case asksNeeded =>
    intro query command hreads hknown
    rw [hlistings]
    rw [hcollections query command hreads] at hknown
    exact hasked.needed hknown
  case silent =>
    intro hfails call hcall
    rw [hrecorded, hsilent hfails, append_nil] at hcall
    exact hasks call hcall

end Event

variable {c : Client} {q : Query}

theorem reads_event_iff (hquery : c.query = some q) {query : Select} {command : SelectCommand} :
    (c.event (.rows meanwhile)).Reads query command ↔ q.command = .select query command := by
  constructor
  · rintro ⟨_, q', hq', hselect⟩
    rw [show (c.event (.rows meanwhile)).before = c from rfl, hquery] at hq'
    cases hq'
    exact hselect
  · exact fun h => ⟨⟨meanwhile, rfl⟩, q, hquery, h⟩

theorem event_rows (hquery : c.query = some q) (meanwhile : Outside) : c.event (.rows meanwhile) =
      { before := c, step := .rows meanwhile
        outcome := .rows (effect (q.rowsAround meanwhile) c.session).1
        after := { c with session := (effect (q.rowsAround meanwhile) c.session).2 } } := by
  simp only [event, step, hquery]

/-- Of the ways to fail before a search, running a SELECT has one. -/
theorem outcome_of_fails {e : Event} (hstep : e.step = .rows meanwhile)
    (houtcome : e.outcome = .rows result) (h : e.Fails) :
    ∃ gap, result = .error (.migration gap) := by
  cases h with
  | refused h => cases houtcome.symm.trans h
  | @missing gap h =>
    cases houtcome.symm.trans h
    exact ⟨gap, rfl⟩
  | select h => cases hstep.symm.trans h

theorem sound_rows (hstrict : c.Strict) (hquery : c.query = some q) (meanwhile : Outside) :
    (c.event (.rows meanwhile)).Sound := by
  have hevent := event_rows hquery meanwhile
  have hread := q.read meanwhile hstrict.enforced
  have hcollections {query : Select} {command : SelectCommand}
      (hselect : q.command = .select query command) : ∀ query' command',
      (c.event (.rows meanwhile)).Reads query' command' → query'.collections = query.collections := by
    intro query' command' h
    rw [reads_event_iff hquery, hselect] at h
    cases h
    rfl
  generalize effect (q.rowsAround meanwhile) c.session = run at hevent hread
  obtain ⟨result, s'⟩ := run
  have houtcome := congrArg Event.outcome hevent
  have hafter := congrArg (fun e => e.after.session) hevent
  cases hread with
  | noSelect h =>
    exact Event.sound_of_quiet (congrArg (·.store.calls) hafter) (congrArg (·.cached) hafter)
  | unchecked select check =>
    obtain ⟨asked, hasked⟩ := (Session.checked_of_effect check).asked
    refine Event.sound_of_asked [] rfl hasked (congrArg (·.cached) hafter) ?_
      (hcollections select) nofun fun _ => rfl
    rw [append_nil]
    exact congrArg (·.store.calls) hafter
  | @searched query command checked _ _ select check same calls faults =>
    obtain ⟨asked, hasked⟩ := (Session.checked_of_effect check).asked
    have hcalls := (congrArg (·.store.calls) hafter).trans calls
    refine Event.sound_of_asked _ rfl hasked ((congrArg (·.cached) hafter).trans same.2) hcalls
      (hcollections select) ?_ ?_
    · intro call hcall
      cases mem_singleton.mp hcall
      obtain ⟨q', hcompile, hcommand⟩ := hstrict.compiled q hquery
      refine ⟨by cases command <;> rfl, query, command, (reads_event_iff hquery).mpr select, rfl,
        ⟨_, _, q', hcompile, hcommand.trans select⟩, checked, check,
        (Session.checked_of_effect check).all_cached, hcalls⟩
    · intro hfails
      obtain ⟨gap, hgap⟩ := outcome_of_fails rfl houtcome hfails
      obtain ⟨why, hwhy⟩ := faults _ hgap
      cases hwhy

theorem event_execute (hquery : c.query = some q) (meanwhile : Outside) :
    (c.event (.execute meanwhile)).after.session =
        (effect (q.executeAround meanwhile) c.session).2 ∧
      ∀ answer, (effect (q.executeAround meanwhile) c.session).1 = .ok answer →
        (c.event (.execute meanwhile)).outcome = .executed (.ok answer.1) := by
  simp only [event, step, hquery]
  cases (effect (q.executeAround meanwhile) c.session).1 with
  | error fault => exact ⟨rfl, fun answer h => by cases h⟩
  | ok answer => exact ⟨rfl, fun answer h => by cases h; rfl⟩

theorem sound_execute (hquery : c.query = some q) (meanwhile : Outside) :
    (c.event (.execute meanwhile)).Sound := by
  obtain ⟨hafter, houtcome⟩ := event_execute hquery meanwhile
  have hexecuted := q.executed meanwhile c.session
  rw [← hafter] at hexecuted
  obtain ⟨new, hnew, hquiet⟩ := hexecuted.records
  have hrecorded : (c.event (.execute meanwhile)).recorded = new := Event.recorded_eq hnew
  constructor
  case grows => rw [hrecorded]; exact hnew
  case keeps =>
    intro name h
    rcases hexecuted.learns with hcached | ⟨i, answer, _, _, hcached⟩
    all_goals rw [cached, hcached]
    · exact h
    · exact Session.mem_addName.mpr (.inl h)
  case learns =>
    intro name h
    rcases hexecuted.learns with hcached | ⟨i, answer, hinsert, hanswer, hcached⟩
    all_goals rw [cached, hcached] at h
    · exact .inl h
    · refine (Session.mem_addName.mp h).imp_right fun hname => .inr ?_
      exact ⟨⟨meanwhile, _, rfl, houtcome answer hanswer⟩, q, i, hquery, hinsert, hname.symm⟩
  case justified =>
    intro call hcall hsearch
    rw [hrecorded] at hcall
    simp [hquiet call hcall] at hsearch
  case asksOnce => exact fun _ h => nomatch h
  case asksNeeded =>
    rintro _ _ ⟨⟨_, h⟩, _⟩
    cases h
  case silent =>
    intro _ call hcall
    exact hquiet call (hrecorded ▸ hcall)

/-- A step that leaves the session as it is, is sound. -/
theorem sound_of_session {step : Step} (h : (c.step step).2.session = c.session) :
    (c.event step).Sound :=
  Event.sound_of_quiet (congrArg (·.store.calls) h) (congrArg (·.cached) h)

/-- Every step is sound. -/
theorem sound_event (hstrict : c.Strict) (step : Step) : (c.event step).Sound := by
  cases step with
  | make sql params =>
    refine sound_of_session ?_
    rw [Client.step]
    split <;> rfl
  | rows meanwhile =>
    cases hquery : c.query with
    | none => exact sound_of_session (by rw [Client.step, hquery])
    | some q => exact sound_rows hstrict hquery meanwhile
  | execute meanwhile =>
    cases hquery : c.query with
    | none => exact sound_of_session (by rw [Client.step, hquery])
    | some q => exact sound_execute hquery meanwhile
  | outside o => exact Event.sound_of_quiet (o.quiet _) rfl

/-! ### Runs -/

theorem compile_same {sql : String} {params : List Value} (h : Query.compile sql params = .ok q) :
    q.sql = sql ∧ q.params = params := by
  unfold Query.compile at h
  dsimp only at h
  split at h
  · cases h
    exact ⟨rfl, rfl⟩
  · cases h

/-- A step keeps the session strict, and its query a compiled one. -/
theorem Strict.step (hstrict : c.Strict) (step : Step) : (c.step step).2.Strict := by
  cases step with
  | make sql params =>
    rw [Client.step]
    split
    · rename_i q hcompile
      refine ⟨hstrict.enforced, fun q' hq' => ?_⟩
      cases hq'
      obtain ⟨hsql, hparams⟩ := compile_same hcompile
      exact ⟨q, by rw [hsql, hparams, hcompile], rfl⟩
    · exact ⟨hstrict.enforced, fun q h => by cases h⟩
  | rows meanwhile =>
    rw [Client.step]
    cases hquery : c.query with
    | none => exact hstrict
    | some q =>
      refine ⟨?_, fun q' hq' => hstrict.compiled q' (hquery ▸ hq')⟩
      exact (q.read meanwhile hstrict.enforced).enforces.trans hstrict.enforced
  | execute meanwhile =>
    rw [Client.step]
    cases hquery : c.query with
    | none => exact hstrict
    | some q =>
      have hexecuted := q.executed meanwhile c.session
      have henforced := hexecuted.enforces.trans hstrict.enforced
      dsimp only
      split
      · rename_i count q' hresult
        refine ⟨henforced, fun q'' hq'' => ?_⟩
        cases hq''
        obtain ⟨hsql, hparams, hcommand⟩ := hexecuted.same _ hresult
        obtain ⟨compiled, hcompile, hsame⟩ := hstrict.compiled q hquery
        exact ⟨compiled, by rw [hsql, hparams, hcompile], hsame.trans hcommand.symm⟩
      · exact ⟨henforced, fun q' hq' => hstrict.compiled q' (hquery ▸ hq')⟩
  | outside o => exact ⟨hstrict.enforced, hstrict.compiled⟩

/-- Every step of a run is sound, and the record of the store holds the calls of the steps. -/
theorem sound_run (hstrict : c.Strict) (steps : List Step) : (∀ e ∈ (c.run steps).1, e.Sound) ∧
      (c.run steps).2.calls = c.calls ++ (c.run steps).1.flatMap Event.recorded ∧
      ∀ name ∈ c.cached, name ∈ (c.run steps).2.cached := by
  induction steps generalizing c with
  | nil => exact ⟨fun e he => absurd he not_mem_nil, (append_nil _).symm, fun _ h => h⟩
  | cons step steps ih =>
    have hsound := sound_event hstrict step
    obtain ⟨hall, hcalls, hcached⟩ := ih (hstrict.step step)
    refine ⟨?_, ?_, fun name h => hcached name (hsound.keeps name h)⟩
    · intro e he
      rcases mem_cons.mp he with rfl | he
      · exact hsound
      · exact hall e he
    · rw [run, flatMap_cons, ← append_assoc]
      exact hcalls.trans (congrArg (· ++ _) hsound.grows)

end Client

/-- A session that enforces the schema enforces it in every run: every step is sound, whatever
happens to the store.  The record of the store is what it was and the calls of the steps, and what was
known to exist stays known. -/
theorem Session.schema_enforced (session : Session) (h : session.enforceSchema = true)
    (steps : List Client.Step) :
    let run := Client.run { session } steps
    (∀ e ∈ run.1, e.Sound) ∧
      run.2.calls = session.store.calls ++ run.1.flatMap Client.Event.recorded ∧
      ∀ name ∈ session.cached, name ∈ run.2.cached :=
  Client.sound_run ⟨h, fun q hq => by cases hq⟩ steps

namespace Client.Sample

/-- A session that knows nothing yet. -/
def fresh : Session := { store := { collections := [("t", [])] }, enforceSchema := true }

/-- A SELECT that is run three times: the store fails when it is asked for its collections, then when
it is asked for documents, and then not any more. -/
def thirdTime : List Step :=
  [.make "SELECT a FROM t" [], .outside (.fail "down"), .rows .none, .rows (.fail "reset"),
    .rows .none, .execute .none]

/-- The collections are asked for twice, since the first time failed, and then known. -/
theorem thirdTime_sound :
    fresh.enforceSchema = true ∧
      ((run { session := fresh } thirdTime).1.map fun e =>
          e.recorded.map fun call => (call.isListing, call.isSearch)) =
        [[], [], [(true, false)], [(true, false), (false, true)], [(false, true)], []] ∧
      ∀ e ∈ (run { session := fresh } thirdTime).1, e.Sound :=
  ⟨rfl, by cbv, (Session.schema_enforced fresh rfl thirdTime).1⟩

end Client.Sample

end DocSql
