import HttpExchange.Route.Table
import Mathlib.Data.List.Forall2

/-!
Building a table and looking routes up in it. A table holds its registrations in their order, and a
request is answered by the earliest of them that fits.
-/

namespace HttpExchange

variable {α : Type} {method : Method} {path : String} {e : RouteError}
variable {r : Registration α} {registrations more : List (Registration α)}
variable {route : Route α} {routes : List (Route α)} {table : RouteTable α}

namespace Registration

/-- The template of a registration can be read, and this is its route. -/
structure Becomes (r : Registration α) (route : Route α) : Prop where
  method : route.method = r.method
  template : Template.parse r.template = .ok route.template
  handler : route.handler = r.handler

structure Fits (r : Registration α) (method : Method) (path : String)
    (parameters : List (String × String)) : Prop where
  method : r.method = method
  matched : ∃ template, Template.parse r.template = .ok template ∧
    template.match? path = some parameters

/-- The earliest registration that fits a request, with what it leads to. -/
def Answers (registrations : List (Registration α)) (method : Method) (path : String)
    (handler : α) (parameters : List (String × String)) : Prop :=
  ∃ front r back, registrations = front ++ r :: back ∧ r.handler = handler ∧
    r.Fits method path parameters ∧ ∀ q ∈ front, ∀ others, ¬ q.Fits method path others

def answer? (method : Method) (path : String) (r : Registration α) :
    Option (α × List (String × String)) :=
  match Template.parse r.template with
  | .ok template => RouteTable.answer? method path ⟨r.method, template, r.handler⟩
  | .error _ => none

theorem Becomes.eq {t : Template} (becomes : r.Becomes route)
    (read : Template.parse r.template = .ok t) : route = ⟨r.method, t, r.handler⟩ := by
  obtain ⟨method, template, handler⟩ := route
  obtain ⟨rfl, same, rfl⟩ := becomes
  cases read.symm.trans same
  rfl

theorem Becomes.answer?_eq (becomes : r.Becomes route) :
    RouteTable.answer? method path route = r.answer? method path := by
  rw [answer?, becomes.template, becomes.eq becomes.template]

theorem answer?_eq_some_iff {handler : α} {parameters : List (String × String)} :
    r.answer? method path = some (handler, parameters) ↔
      r.handler = handler ∧ r.Fits method path parameters := by
  rw [answer?]
  cases read : Template.parse r.template with
  | error other =>
      refine ⟨nofun, ?_⟩
      rintro ⟨_, _, t, readable, _⟩
      cases read.symm.trans readable
  | ok t =>
      dsimp only [RouteTable.answer?]
      constructor
      · intro answered
        split at answered
        · next same =>
            obtain ⟨_, matched, pair⟩ := Option.map_eq_some_iff.mp answered
            cases pair
            exact ⟨rfl, same, t, read, matched⟩
        · cases answered
      · rintro ⟨rfl, same, t', readable, matched⟩
        cases read.symm.trans readable
        rw [if_pos same, matched]
        rfl

theorem answer?_eq_none_iff :
    r.answer? method path = none ↔ ∀ parameters, ¬ r.Fits method path parameters := by
  rw [Option.eq_none_iff_forall_ne_some, Prod.forall]
  simp only [ne_eq, answer?_eq_some_iff, not_and]
  exact ⟨fun never parameters => never r.handler parameters rfl,
    fun never _ parameters _ => never parameters⟩

theorem answer?_of_ne (other : r.method ≠ method) : r.answer? method path = none :=
  answer?_eq_none_iff.mpr fun _ fits => other fits.method

theorem findSome?_answer? {handler : α} {parameters : List (String × String)} :
    registrations.findSome? (answer? method path) = some (handler, parameters) ↔
      Answers registrations method path handler parameters := by
  simp only [Answers, List.findSome?_eq_some_iff, answer?_eq_some_iff, answer?_eq_none_iff,
    and_assoc]

theorem findSome?_filter (registrations : List (Registration α)) :
    (registrations.filter (·.method = method)).findSome? (answer? method path) =
      registrations.findSome? (answer? method path) := by
  induction registrations with
  | nil => rfl
  | cons r registrations ih =>
      by_cases same : r.method = method
      · rw [List.filter_cons_of_pos (by exact decide_eq_true same), List.findSome?_cons, ih,
          List.findSome?_cons]
      · rw [List.filter_cons_of_neg (by exact mt of_decide_eq_true same), ih, List.findSome?_cons,
          answer?_of_ne same]

end Registration

open Registration (Becomes Fits Answers)

namespace RouteBuilder

theorem register_ok {t : Template} (read : Template.parse r.template = .ok t) :
    register ⟨routes, none⟩ r = ⟨routes ++ [⟨r.method, t, r.handler⟩], none⟩ := by
  simp only [register, read]

theorem register_error (refused : Template.parse r.template = .error e) :
    register ⟨routes, none⟩ r = ⟨routes, some e⟩ := by
  simp only [register, refused]

theorem foldl_failed (registrations : List (Registration α)) :
    registrations.foldl register ⟨routes, some e⟩ = ⟨routes, some e⟩ := by
  induction registrations with
  | nil => rfl
  | cons r registrations ih => exact ih

theorem build_foldl_eq_ok_iff : (registrations.foldl register ⟨routes, none⟩).build = .ok table ↔
    ∃ rest, List.Forall₂ Becomes registrations rest ∧ table.routes = routes ++ rest := by
  induction registrations generalizing routes with
  | nil =>
      obtain ⟨all⟩ := table
      simp only [List.foldl_nil, List.forall₂_nil_left_iff, exists_eq_left, List.append_nil, build,
        Except.ok.injEq, RouteTable.mk.injEq]
      exact eq_comm
  | cons r registrations ih =>
      rw [List.foldl_cons]
      cases read : Template.parse r.template with
      | error other =>
          rw [register_error read, foldl_failed]
          refine ⟨nofun, ?_⟩
          rintro ⟨_, becomes, _⟩
          cases becomes with
          | cons first => cases read.symm.trans first.template
      | ok t =>
          rw [register_ok read, ih]
          constructor
          · rintro ⟨rest, becomes, all⟩
            refine ⟨⟨r.method, t, r.handler⟩ :: rest, .cons ⟨rfl, read, rfl⟩ becomes, ?_⟩
            rw [all, List.append_assoc, List.singleton_append]
          · rintro ⟨_, becomes, all⟩
            cases becomes with
            | cons first becomes =>
                refine ⟨_, becomes, ?_⟩
                rw [all, first.eq read, List.append_assoc, List.singleton_append]

theorem build_foldl_eq_error_iff :
    (registrations.foldl register ⟨routes, none⟩).build = .error e ↔
      ∃ front r back, registrations = front ++ r :: back ∧
        (∀ q ∈ front, ∃ t, Template.parse q.template = .ok t) ∧
        Template.parse r.template = .error e := by
  induction registrations generalizing routes with
  | nil =>
      refine ⟨nofun, ?_⟩
      rintro ⟨front, r, back, none, _⟩
      exact absurd none.symm (List.append_ne_nil_of_right_ne_nil front (List.cons_ne_nil _ _))
  | cons r registrations ih =>
      simp only [List.cons_eq_append_iff]
      rw [List.foldl_cons]
      cases read : Template.parse r.template with
      | error other =>
          rw [register_error read, foldl_failed]
          constructor
          · intro failed
            cases failed
            exact ⟨[], r, registrations, .inl ⟨rfl, rfl⟩, List.forall_mem_nil _, read⟩
          · rintro ⟨_, _, _, ⟨rfl, same⟩ | ⟨front, rfl, same⟩, readable, refused⟩
            · cases same
              cases read.symm.trans refused
              rfl
            · obtain ⟨t, first⟩ := readable r List.mem_cons_self
              cases read.symm.trans first
      | ok t =>
          rw [register_ok read, ih]
          constructor
          · rintro ⟨front, last, back, rfl, readable, refused⟩
            exact ⟨r :: front, last, back, .inr ⟨front, rfl, rfl⟩,
              List.forall_mem_cons.mpr ⟨⟨t, read⟩, readable⟩, refused⟩
          · rintro ⟨_, last, back, ⟨rfl, same⟩ | ⟨front, rfl, same⟩, readable, refused⟩
            · cases same
              cases read.symm.trans refused
            · exact ⟨front, last, back, same, (List.forall_mem_cons.mp readable).2, refused⟩

end RouteBuilder

namespace RouteTable

theorem build_eq_ok_iff :
    build registrations = .ok table ↔ List.Forall₂ Becomes registrations table.routes := by
  rw [build, RouteBuilder.build_foldl_eq_ok_iff]
  simp only [List.nil_append, exists_eq_right']

theorem build_eq_error_iff : build registrations = .error e ↔
    ∃ front r back, registrations = front ++ r :: back ∧
      (∀ q ∈ front, ∃ t, Template.parse q.template = .ok t) ∧
      Template.parse r.template = .error e :=
  RouteBuilder.build_foldl_eq_error_iff

theorem find?_eq (becomes : List.Forall₂ Becomes registrations table.routes) :
    table.find? method path = registrations.findSome? (Registration.answer? method path) := by
  obtain ⟨routes⟩ := table
  show routes.findSome? (answer? method path) = _
  dsimp only at becomes
  induction becomes with
  | nil => rfl
  | cons first _ ih => rw [List.findSome?_cons, first.answer?_eq, ih, List.findSome?_cons]

theorem build_fails_iff : (∃ e, build registrations = .error e) ↔
    ∃ r ∈ registrations, ∃ e, Template.parse r.template = .error e := by
  constructor
  · rintro ⟨e, failed⟩
    obtain ⟨front, r, back, rfl, _, refused⟩ := build_eq_error_iff.mp failed
    exact ⟨r, List.mem_append_right front List.mem_cons_self, e, refused⟩
  · rintro ⟨r, member, e, refused⟩
    cases built : build registrations with
    | error other => exact ⟨other, rfl⟩
    | ok table =>
        obtain ⟨n, rfl⟩ := List.get_of_mem member
        obtain ⟨long, becomes⟩ := List.forall₂_iff_get.mp (build_eq_ok_iff.mp built)
        cases refused.symm.trans (becomes n n.2 (long ▸ n.2)).template

/-- A table is built unless a template cannot be read, and the first such template is the error. The
table holds the registrations in their order, and a request is answered by the earliest of its
method whose template matches the path. So what is registered later changes no answer that was
found, and what is registered for other methods changes none at all. -/
theorem build_lookup (registrations : List (Registration α)) :
    ((∃ e, build registrations = .error e) ↔
      ∃ r ∈ registrations, ∃ e, Template.parse r.template = .error e) ∧
    (∀ e, build registrations = .error e ↔
      ∃ front r back, registrations = front ++ r :: back ∧
        (∀ q ∈ front, ∃ t, Template.parse q.template = .ok t) ∧
        Template.parse r.template = .error e) ∧
    ∀ table, build registrations = .ok table →
      List.Forall₂ Becomes registrations table.routes ∧
      ∀ method path,
        (∀ handler parameters, table.find? method path = some (handler, parameters) ↔
          Answers registrations method path handler parameters) ∧
        (table.find? method path = none ↔
          ∀ r ∈ registrations, ∀ parameters, ¬ r.Fits method path parameters) ∧
        (∀ more larger answer, build (registrations ++ more) = .ok larger →
          table.find? method path = some answer → larger.find? method path = some answer) ∧
        ∀ others another, build others = .ok another →
          others.filter (·.method = method) = registrations.filter (·.method = method) →
          another.find? method path = table.find? method path := by
  refine ⟨build_fails_iff, fun e => build_eq_error_iff, fun table built => ?_⟩
  have becomes := build_eq_ok_iff.mp built
  refine ⟨becomes, fun method path => ?_⟩
  rw [find?_eq becomes]
  refine ⟨fun handler parameters => Registration.findSome?_answer?, ?_, ?_, ?_⟩
  · simp only [List.findSome?_eq_none_iff, Registration.answer?_eq_none_iff]
  · intro more larger answer grown found
    rw [find?_eq (build_eq_ok_iff.mp grown), List.findSome?_append, found, Option.some_or]
  · intro others another built' same
    rw [find?_eq (build_eq_ok_iff.mp built'), ← Registration.findSome?_filter others, same,
      Registration.findSome?_filter]

/-- The earlier of two templates that match answers, though the later is the closer one, and the
route of another method before them does not count. Of two templates that cannot be read the first
is the error. -/
theorem build_lookup_items :
    let item : Registration Nat := ⟨.get, "/items/\x7bid\x7d", 1⟩
    let remove : Registration Nat := ⟨.delete, "/items/new", 2⟩
    let fresh : Registration Nat := ⟨.get, "/items/new", 3⟩
    let broken : Registration Nat := ⟨.get, "items", 4⟩
    ∃ table, build [remove, item, fresh] = .ok table ∧
      Answers [remove, item, fresh] .get "/items/new" 1 [("id", "new")] ∧
      table.find? .get "/items/new" = some (1, [("id", "new")]) ∧
      build [item, broken, fresh, ⟨.get, "/\x7b\x7d", 5⟩] = .error (.missingSlash "items") := by
  intro item remove fresh broken
  let new : Template := ⟨"/items/new", [.literal "items", .literal "new"]⟩
  let withId : Template := ⟨"/items/\x7bid\x7d", [.literal "items", .parameter "id"]⟩
  let table : RouteTable Nat := ⟨[⟨.delete, new, 2⟩, ⟨.get, withId, 1⟩, ⟨.get, new, 3⟩]⟩
  have readItem : Template.parse item.template = .ok withId := by decide
  have readFresh : Template.parse fresh.template = .ok new := by decide
  have built : build [remove, item, fresh] = .ok table := build_eq_ok_iff.mpr
    (.cons ⟨rfl, readFresh, rfl⟩ (.cons ⟨rfl, readItem, rfl⟩ (.cons ⟨rfl, readFresh, rfl⟩ .nil)))
  have found : table.find? .get "/items/new" = some (1, [("id", "new")]) := by decide
  obtain ⟨_, lookup⟩ := (build_lookup [remove, item, fresh]).2.2 table built
  obtain ⟨answers, _⟩ := lookup .get "/items/new"
  obtain ⟨_, failed, _⟩ := build_lookup [item, broken, fresh, ⟨.get, "/\x7b\x7d", 5⟩]
  refine ⟨table, built, (answers 1 _).mp found, found, (failed _).mpr ?_⟩
  exact ⟨[item], broken, _, rfl, List.forall_mem_singleton.mpr ⟨withId, readItem⟩, by decide⟩

end RouteTable

end HttpExchange
