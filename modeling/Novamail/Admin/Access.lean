/-
  `server.ts`: who may call the Admin API, and what the audit log says of it.

  One hook decides before a handler runs, another writes the log after the response.  They look at
  different things, the path here and the whole URL there, the session here and the status there.
  Together they give what an operator relies on: a configuration changes only at the hand of an
  administrator or of the holder of the API key, and the log has one line for every such change
  under the right name, unless its insertion fails (`audit_log`).  The order of the lines says
  nothing: nobody waits for an insertion, so those of requests that overlap overtake one another.
-/
import Mathlib.Algebra.Order.Group.Multiset
import Mathlib.Tactic.Abel
import Novamail.Core.System
import Novamail.Admin.Statements

namespace Novamail.Admin

open Novamail.Core

/-! ## The hooks -/

/-- `session.user`. -/
structure Operator where
  email : String
  role : Option String
  deriving DecidableEq, Repr

/-- A request, as far as the hooks read it. -/
structure Request where
  method : String
  url : String
  /-- What `getSession` finds for its cookies; nothing if it fails. -/
  session : Option Operator
  /-- The header `x-api-key`. -/
  apiKey : Option String
  deriving DecidableEq, Repr

/-- `s.toUpperCase()`, of a method. -/
def upper (s : String) : String := String.ofList (s.toList.map Char.toUpper)

/-- `req.url.split("?")[0]`. -/
def Request.path (r : Request) : String := String.ofList (r.url.toList.takeWhile (· ≠ '?'))

/-- `OPEN_PATHS`. -/
def openPaths : List String := ["/healthz", "/readyz"]

/-- `MUTATING`. -/
def mutating : List String := ["POST", "PUT", "PATCH", "DELETE"]

/-- `MUTATING.has(req.method.toUpperCase())`. -/
def Request.mutates (r : Request) : Bool := mutating.contains (upper r.method)

/-- `s.startsWith("/api/auth/")`. -/
def isAuth (s : String) : Bool := "/api/auth/".toList.isPrefixOf s.toList

/-- What the `onRequest` hook does: the fields of the request that it sets, and the reply it sends,
    after which no handler runs. -/
structure Gate where
  actor : Option String := none
  role : Option String := none
  reply : Option (Nat × String) := none
  deriving DecidableEq, Repr

/-- The second half of the `onRequest` hook, with `NOVAMAIL_ADMIN_API_KEY`. -/
def authorize (apiKey : Option String) (r : Request) : Gate :=
  match r.session with
  | some user =>
    let role := user.role.getD "user"
    if role ≠ "admin" ∧ r.mutates = true then
      { actor := some user.email, role := some role
        reply := some (403, "read-only: your operator role cannot make changes") }
    else { actor := some user.email, role := some role }
  | none =>
    -- an empty key is no key
    if apiKey.any fun k => k ≠ "" && r.apiKey = some k then { actor := some "api-key" }
    else { reply := some (401, "unauthorized") }

/-- The `onRequest` hook. -/
def onRequest (apiKey : Option String) (r : Request) : Gate :=
  if openPaths.contains r.path || isAuth r.path then {} else authorize apiKey r

/-- A row of `audit_log`. -/
structure AuditRow where
  actor : String
  action : String
  target : String
  deriving DecidableEq, Repr

/-- The `onResponse` hook: the row that it inserts, given the route that the request matched. -/
def onResponse (r : Request) (actor route : Option String) (status : Nat) : Option AuditRow :=
  if r.mutates = false then none
  else if 400 ≤ status then none
  else if isAuth r.url then none
  else some { actor := actor.getD "unknown"
              action := upper r.method ++ " " ++ route.getD r.url
              target := r.path }

/-! ## The routes -/

/-- A segment of a route. -/
inductive Segment where
  | text (s : String)
  | param (name : String)
  | rest
  deriving DecidableEq, Repr

/-- A registered route. -/
structure Route where
  method : String
  segments : List Segment
  deriving DecidableEq, Repr

/-- `routeOptions.url`. -/
def Route.url (r : Route) : String :=
  String.join (r.segments.map fun
    | .text s => "/" ++ s
    | .param name => "/:" ++ name
    | .rest => "/*")

/-- The routes of a resource in `RESOURCES`. -/
def crud (name : String) : List Route :=
  [⟨"GET", [.text "api", .text name]⟩, ⟨"POST", [.text "api", .text name]⟩,
    ⟨"PUT", [.text "api", .text name, .param "id"]⟩,
    ⟨"DELETE", [.text "api", .text name, .param "id"]⟩]

/-- The other routes of `routes.ts`. -/
def configRoutes : List Route :=
  crud "accounts" ++
  [⟨"POST", [.text "api", .text "providers", .param "id", .text "test"]⟩,
    ⟨"GET", [.text "api", .text "secrets"]⟩,
    ⟨"PUT", [.text "api", .text "secrets", .param "ref"]⟩,
    ⟨"DELETE", [.text "api", .text "secrets", .param "ref"]⟩,
    ⟨"GET", [.text "api", .text "settings"]⟩,
    ⟨"PUT", [.text "api", .text "settings", .param "key"]⟩,
    ⟨"POST", [.text "api", .text "messages", .param "id", .text "requeue"]⟩,
    ⟨"GET", [.text "api", .text "audit"]⟩,
    ⟨"POST", [.text "api", .text "dkim-keys", .text "generate"]⟩,
    ⟨"GET", [.text "api", .text "suppressions"]⟩,
    ⟨"POST", [.text "api", .text "suppressions"]⟩,
    ⟨"DELETE", [.text "api", .text "suppressions", .param "address"]⟩,
    ⟨"POST", [.text "api", .text "feedback", .param "provider"]⟩,
    ⟨"GET", [.text "api", .text "messages"]⟩,
    ⟨"GET", [.text "api", .text "messages", .param "id", .text "events"]⟩]

/-- The routes of `telemetry.ts`, `deliverability.ts` and `alerts.ts`. -/
def serviceRoutes : List Route :=
  crud "alert-channels" ++
  [⟨"POST", [.text "api", .text "alert-channels", .param "id", .text "test"]⟩,
    ⟨"GET", [.text "api", .text "queues"]⟩,
    ⟨"GET", [.text "api", .text "metrics"]⟩,
    ⟨"POST", [.text "api", .text "queues", .param "name", .text "purge"]⟩,
    ⟨"GET", [.text "api", .text "deliverability"]⟩,
    ⟨"GET", [.text "api", .text "deliverability", .text "summary"]⟩,
    ⟨"POST", [.text "api", .text "deliverability", .text "check"]⟩,
    ⟨"POST", [.text "api", .text "deliverability", .param "domain", .text "check"]⟩,
    ⟨"GET", [.text "api", .text "deliverability", .param "domain"]⟩]

/-- All routes. -/
def apiRoutes : List Route :=
  [⟨"GET", [.text "api", .text "auth", .rest]⟩, ⟨"POST", [.text "api", .text "auth", .rest]⟩,
    ⟨"GET", [.text "healthz"]⟩, ⟨"GET", [.text "readyz"]⟩] ++
  (resources.flatMap fun e => crud e.1) ++ configRoutes ++ serviceRoutes

/-- The segments of a path. -/
def pathSegments (path : String) : List String := (path.toList.splitOn '/').tail.map String.ofList

/-- A route covers these segments. -/
def covers : List Segment → List String → Bool
  | [], [] => true
  | .rest :: _, _ => true
  | .param _ :: ps, s :: ss => s ≠ "" && covers ps ss
  | .text t :: ps, s :: ss => t = s && covers ps ss
  | _, _ => false

/-- How Fastify reads a path: percent signs are decoded before the routes are tried. -/
structure Router where
  decode : String → String
  /-- A path without one is left alone. -/
  plain : ∀ p, '%' ∉ p.toList → decode p = p

/-- The route takes the request; a `GET` is also taken for a `HEAD`. -/
def Route.Takes (R : Router) (r : Request) (route : Route) : Prop :=
  (route.method = r.method ∨ route.method = "GET" ∧ r.method = "HEAD") ∧
    covers route.segments (pathSegments (R.decode r.path)) = true

instance (R : Router) (r : Request) (route : Route) : Decidable (route.Takes R r) :=
  inferInstanceAs (Decidable ((_ ∨ _ ∧ _) ∧ _))

/-- What Fastify does with a request that the hook lets pass: a route takes it, its body parses, and
    the handler answers; or there is no such route, or the body does not parse. -/
inductive Service where
  | handled (route : Route) (status : Nat)
  | refused (status : Nat)
  deriving DecidableEq, Repr

namespace Service

/-- The status. -/
def status : Service → Nat
  | handled _ status => status
  | refused status => status

/-- The route whose handler was called. -/
def route : Service → Option Route
  | handled route _ => some route
  | refused _ => none

end Service

/-- A request, and what Fastify does with it. -/
structure Visit (R : Router) where
  request : Request
  service : Service
  routed : ∀ route, service.route = some route → route ∈ apiRoutes ∧ route.Takes R request
  /-- 404, or 400, 413 or 415. -/
  refused : service.route = none → 400 ≤ service.status

section
variable {R : Router}

/-- A handler is called. -/
def Visit.called (apiKey : Option String) (v : Visit R) : Bool :=
  (onRequest apiKey v.request).reply.isNone && v.service.route.isSome

/-- The row that the log is to get. -/
def Visit.audit (apiKey : Option String) (v : Visit R) : Option AuditRow :=
  onResponse v.request (onRequest apiKey v.request).actor (v.service.route.map (·.url))
    ((onRequest apiKey v.request).reply.elim v.service.status (·.1))

end

/-! ## The log -/

/-- The insertions under way, and the rows of `audit_log`. -/
structure Audit where
  pending : Multiset AuditRow
  log : List AuditRow

/-- What happens next. -/
inductive AuditLabel (R : Router) where
  /-- A request is answered, and its row, if there is one, sent off. -/
  | visit (v : Visit R)
  /-- An insertion is done. -/
  | insert (row : AuditRow)
  /-- An insertion fails, or the process dies before it. -/
  | lose (row : AuditRow)

/-- One step.  `Promise`s of different requests do not wait for one another. -/
inductive AuditStep (R : Router) (apiKey : Option String) : Audit → AuditLabel R → Audit → Prop where
  | visit {s : Audit} (v : Visit R) :
      AuditStep R apiKey s (.visit v)
        { s with pending := (v.audit apiKey).elim 0 (fun row => {row}) + s.pending }
  | insert {s : Audit} (row : AuditRow) (h : row ∈ s.pending) :
      AuditStep R apiKey s (.insert row) ⟨s.pending.erase row, s.log ++ [row]⟩
  | lose {s : Audit} (row : AuditRow) (h : row ∈ s.pending) :
      AuditStep R apiKey s (.lose row) { s with pending := s.pending.erase row }

/-- The requests of a run. -/
def visits {R : Router} (ls : List (AuditLabel R)) : List (Visit R) :=
  ls.filterMap fun
    | .visit v => some v
    | _ => none

/-- The rows whose insertions failed. -/
def lostRows {R : Router} (ls : List (AuditLabel R)) : List AuditRow :=
  ls.filterMap fun
    | .lose row => some row
    | _ => none

theorem visits_append {R : Router} (ls ls' : List (AuditLabel R)) :
    visits (ls ++ ls') = visits ls ++ visits ls' := List.filterMap_append

theorem lostRows_append {R : Router} (ls ls' : List (AuditLabel R)) :
    lostRows (ls ++ ls') = lostRows ls ++ lostRows ls' := List.filterMap_append

/-! ## What an operator relies on -/

/-- A request for a change of the configuration: neither a login nor a probe. -/
def Request.changes (r : Request) : Bool :=
  r.mutates && !(openPaths.contains r.path || isAuth r.path)

/-- An administrator is logged in, or nobody is and the request has the key. -/
def Request.permitted (apiKey : Option String) (r : Request) : Bool :=
  match r.session with
  | some user => user.role = some "admin"
  | none => apiKey.any fun k => k ≠ "" && r.apiKey = some k

/-- Who makes the request. -/
def Request.holder (r : Request) : String := (r.session.map (·.email)).getD "api-key"

/-- The request was a change, and it succeeded. -/
def Visit.succeeded {R : Router} (apiKey : Option String) (v : Visit R) : Bool :=
  v.request.changes && v.called apiKey && decide (v.service.status < 400)

/-- The line of a change. -/
def Visit.row {R : Router} (v : Visit R) : AuditRow where
  actor := v.request.holder
  action := upper v.request.method ++ " " ++ (v.service.route.map (·.url)).getD v.request.url
  target := v.request.path

/-! ## The hooks agree -/

theorem isPrefixOf_takeWhile {f : Char → Bool} (p l : List Char) (hp : p.all f = true) :
    p.isPrefixOf (l.takeWhile f) = p.isPrefixOf l := by
  induction p generalizing l with
  | nil => rw [List.isPrefixOf_nil_left, List.isPrefixOf_nil_left]
  | cons c p ih =>
    rw [List.all_cons, Bool.and_eq_true] at hp
    cases l with
    | nil => rfl
    | cons d l =>
      by_cases hd : f d = true
      · rw [List.takeWhile_cons_of_pos hd, List.isPrefixOf_cons_cons, List.isPrefixOf_cons_cons,
          ih l hp.2]
      · have hne : (c == d) = false := by
          refine beq_eq_false_iff_ne.mpr fun h => hd ?_
          rw [← h]
          exact hp.1
        rw [List.takeWhile_cons_of_neg hd, List.isPrefixOf_cons_cons, hne]
        rfl

/-- The path is a login's exactly when the URL is. -/
theorem isAuth_path (r : Request) : isAuth r.path = isAuth r.url := by
  have hpath : r.path.toList = r.url.toList.takeWhile (· ≠ '?') := String.toList_ofList
  unfold isAuth
  rw [hpath]
  exact isPrefixOf_takeWhile _ _ (by decide)

section
variable {R : Router} {apiKey : Option String} {r : Request} {v : Visit R}

theorem mutates_of_changes (hr : r.changes = true) : r.mutates = true :=
  (Bool.and_eq_true_iff.mp hr).1

theorem onRequest_of_changes (hr : r.changes = true) :
    onRequest apiKey r = authorize apiKey r := by
  have hguarded := (Bool.and_eq_true_iff.mp hr).2
  rw [Bool.not_eq_true'] at hguarded
  refine if_neg ?_
  rw [hguarded]
  exact Bool.false_ne_true

/-- Every reply of the hook is an error. -/
theorem reply_error {code : Nat} {error : String}
    (h : (authorize apiKey r).reply = some (code, error)) : 400 ≤ code := by
  unfold authorize at h
  split at h
  · dsimp only at h
    split at h
    · cases h
      omega
    · cases h
  · split at h
    · cases h
    · cases h
      omega

variable (apiKey) in
/-- A change is let through exactly for those who may make it. -/
theorem reply_of_changes (hr : r.changes = true) :
    (authorize apiKey r).reply.isNone = r.permitted apiKey := by
  unfold authorize Request.permitted
  rw [mutates_of_changes hr]
  cases r.session with
  | some user =>
    by_cases hrole : user.role = some "admin"
    · simp [hrole]
    · have hother : user.role.getD "user" ≠ "admin" := by
        cases hu : user.role with
        | none => decide
        | some role =>
          intro he
          exact hrole (hu.trans (congrArg some he))
      simp [hrole, hother]
  | none =>
    dsimp only
    split
    · rename_i hkey
      rw [hkey]
      rfl
    · rename_i hkey
      rw [Bool.not_eq_true] at hkey
      rw [hkey]
      rfl

/-- The actor of a permitted request is who makes it. -/
theorem actor_of_permitted (hp : r.permitted apiKey = true) :
    (authorize apiKey r).actor = some r.holder := by
  unfold Request.permitted at hp
  unfold authorize Request.holder
  cases hs : r.session with
  | some user =>
    dsimp only
    split <;> rfl
  | none =>
    rw [hs] at hp
    dsimp only at hp ⊢
    rw [hp]
    rfl

/-- No route but those for reading covers an open path. -/
theorem open_routes : (apiRoutes.all fun route => openPaths.all fun p =>
    !covers route.segments (pathSegments p) || route.method = "GET") = true := by decide

/-- A probe that is to change something is refused. -/
theorem Visit.open_refused (v : Visit R) (hopen : openPaths.contains v.request.path = true)
    (hm : v.request.mutates = true) : 400 ≤ v.service.status := by
  refine v.refused (Option.eq_none_iff_forall_ne_some.mpr fun route hroute => ?_)
  obtain ⟨hmem, hmethod, hcovers⟩ := v.routed route hroute
  have hpath : v.request.path ∈ openPaths := List.contains_iff_mem.mp hopen
  have hplain : ∀ p ∈ openPaths, '%' ∉ p.toList := by decide
  rw [R.plain _ (hplain _ hpath)] at hcovers
  have hget : route.method = "GET" := by
    have hall := List.all_eq_true.mp (List.all_eq_true.mp open_routes route hmem) _ hpath
    rw [hcovers] at hall
    exact of_decide_eq_true hall
  have hreads : mutating.contains (upper "GET") = false ∧ mutating.contains (upper "HEAD") = false := by
    decide
  have hmutates : mutating.contains (upper v.request.method) = true := hm
  rcases hmethod with heq | ⟨-, heq⟩
  · rw [← heq, hget, hreads.1] at hmutates
    cases hmutates
  · rw [heq, hreads.2] at hmutates
    cases hmutates

/-- What is no change leaves no line. -/
theorem audit_of_not_changes (hv : v.request.changes = false) : v.audit apiKey = none := by
  unfold Visit.audit onResponse
  by_cases hm : v.request.mutates = true
  · rw [Request.changes, hm, Bool.true_and, Bool.not_eq_false', Bool.or_eq_true] at hv
    rcases hv with hopen | hauth
    · have hstatus := v.open_refused hopen hm
      have hgate : onRequest apiKey v.request = {} := by
        refine if_pos ?_
        rw [hopen]
        rfl
      rw [hgate, if_neg (by rw [hm]; decide)]
      exact if_pos hstatus
    · rw [isAuth_path] at hauth
      rw [hauth, if_pos rfl, ite_self, ite_self]
  · exact if_pos (Bool.not_eq_true _ ▸ hm)

/-- A change that was let through leaves its line if it succeeded. -/
theorem onResponse_of_changes (hr : r.changes = true) (actor : String) (route : Option String)
    (status : Nat) : onResponse r (some actor) route status =
      if status < 400 then
        some ⟨actor, upper r.method ++ " " ++ route.getD r.url, r.path⟩ else none := by
  have hauth : isAuth r.url = false := by
    have hguarded := (Bool.and_eq_true_iff.mp hr).2
    rw [Bool.not_eq_true', Bool.or_eq_false_iff] at hguarded
    rw [← isAuth_path]
    exact hguarded.2
  unfold onResponse
  rw [mutates_of_changes hr, hauth, if_neg (by decide)]
  by_cases hstatus : status < 400
  · rw [if_pos hstatus, if_neg (by omega), if_neg (by decide)]
    rfl
  · rw [if_neg hstatus, if_pos (by omega)]

/-- A change reaches a handler for those who may make it, if there is one. -/
theorem called_of_changes (apiKey : Option String) (hr : v.request.changes = true) :
    v.called apiKey = (v.request.permitted apiKey && v.service.route.isSome) := by
  unfold Visit.called
  rw [onRequest_of_changes hr, reply_of_changes apiKey hr]

theorem audit_eq (v : Visit R) :
    v.audit apiKey = if v.succeeded apiKey then some v.row else none := by
  by_cases hr : v.request.changes = true
  · unfold Visit.succeeded
    rw [called_of_changes apiKey hr, hr, Bool.true_and]
    unfold Visit.audit
    rw [onRequest_of_changes hr]
    have hreply := reply_of_changes apiKey hr
    cases hp : v.request.permitted apiKey with
    | true =>
      rw [hp, Option.isNone_iff_eq_none] at hreply
      rw [hreply, actor_of_permitted hp]
      show onResponse _ _ _ v.service.status = _
      rw [onResponse_of_changes hr]
      cases hroute : v.service.route with
      | none =>
        have hstatus := v.refused hroute
        rw [if_neg (by omega)]
        rfl
      | some route =>
        by_cases hstatus : v.service.status < 400
        · rw [if_pos hstatus, decide_eq_true hstatus, Visit.row, hroute]
          rfl
        · rw [if_neg hstatus, decide_eq_false hstatus]
          rfl
    | false =>
      rw [hp] at hreply
      have hsome := Option.isNone_eq_false_iff.mp hreply
      obtain ⟨⟨code, error⟩, hrep⟩ := Option.isSome_iff_exists.mp hsome
      have hcode := reply_error hrep
      rw [hrep, Bool.false_and, Bool.false_and, if_neg Bool.false_ne_true]
      unfold onResponse
      rw [if_neg (by rw [mutates_of_changes hr]; decide)]
      exact if_pos hcode
  · rw [Bool.not_eq_true] at hr
    rw [audit_of_not_changes hr, if_neg]
    unfold Visit.succeeded
    rw [hr]
    exact Bool.false_ne_true

/-! ## The log over all interleavings -/

/-- The rows that a run is to write: logged, under way, or lost. -/
structure Accounted (apiKey : Option String) (ls : List (AuditLabel R)) (s : Audit) : Prop where
  rows : (s.log : Multiset AuditRow) + s.pending + (lostRows ls : Multiset AuditRow) =
    (((visits ls).filter (Visit.succeeded apiKey)).map Visit.row : List AuditRow)

/-- One more step. -/
theorem Accounted.step {ls : List (AuditLabel R)} {s s' : Audit} {l : AuditLabel R}
    (h : Accounted apiKey ls s) (hst : AuditStep R apiKey s l s') :
    Accounted apiKey (ls ++ [l]) s' := by
  have hrows := h.rows
  constructor
  rw [visits_append, lostRows_append]
  cases hst with
  | visit v =>
    have hone : visits [AuditLabel.visit v] = [v] := rfl
    have hnone : lostRows (R := R) [.visit v] = [] := rfl
    rw [hone, hnone, List.append_nil, List.filter_append, List.map_append, ← Multiset.coe_add,
      ← hrows, audit_eq]
    cases hv : v.succeeded apiKey with
    | true =>
      rw [List.filter_cons_of_pos hv, if_pos rfl]
      show _ + ({v.row} + s.pending) + _ = _ + ({v.row} : Multiset AuditRow)
      abel
    | false =>
      rw [List.filter_cons_of_neg (by rw [hv]; exact Bool.false_ne_true),
        if_neg Bool.false_ne_true]
      show _ + (0 + s.pending) + _ = _ + (0 : Multiset AuditRow)
      abel
  | insert row hin =>
    have hvisits : visits (R := R) [.insert row] = [] := rfl
    have hlost : lostRows (R := R) [.insert row] = [] := rfl
    rw [hvisits, hlost, List.append_nil, List.append_nil, ← hrows, ← Multiset.coe_add]
    conv_rhs => rw [← Multiset.cons_erase hin, ← Multiset.singleton_add]
    show _ + ({row} : Multiset AuditRow) + _ + _ = _
    abel
  | lose row hin =>
    have hvisits : visits (R := R) [.lose row] = [] := rfl
    have hlost : lostRows (R := R) [.lose row] = [row] := rfl
    rw [hvisits, hlost, List.append_nil, ← hrows, ← Multiset.coe_add]
    conv_rhs => rw [← Multiset.cons_erase hin, ← Multiset.singleton_add]
    show _ + _ + (_ + ({row} : Multiset AuditRow)) = _
    abel

end

/-! ## Requests that overlap -/

end Novamail.Admin
