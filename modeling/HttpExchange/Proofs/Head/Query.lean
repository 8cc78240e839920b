import HttpExchange.Head.Request
import HttpExchange.Proofs.Text.Split
import HttpExchange.Route.Table
import Mathlib.Data.List.Nodup

/-!
The query of a target. A name has the value that the last of its pieces gives it; a query that is
written from pairs is read back as these pairs, and has no part in the choice of a route.
-/

namespace HttpExchange

namespace Fields

variable {map : Fields} {name value : String}

theorem lookup_insert (map : Fields) (name value n : String) :
    (map.insert name value).lookup n = if n = name then some value else map.lookup n := by
  induction map with
  | nil =>
      rw [insert, List.lookup_cons]
      by_cases same : n = name
      · simp only [same, beq_self_eq_true, if_true]
      · simp only [beq_false_of_ne same, if_neg same]
  | cons field map ih =>
      rw [insert]
      by_cases here : field.1 = name
      · rw [if_pos here, List.lookup_cons, List.lookup_cons, here]
        by_cases same : n = name
        · simp only [same, beq_self_eq_true, if_true]
        · simp only [beq_false_of_ne same, if_neg same]
      · rw [if_neg here, List.lookup_cons, ih, List.lookup_cons]
        by_cases same : n = field.1
        · simp only [same, beq_self_eq_true, if_neg here]
        · simp only [beq_false_of_ne same]

theorem mem_insert_names {n : String} (member : n ∈ (map.insert name value).map Prod.fst) :
    n = name ∨ n ∈ map.map Prod.fst := by
  induction map with
  | nil => exact .inl (List.mem_singleton.mp member)
  | cons field map ih =>
      rw [insert] at member
      split at member
      · exact (List.mem_cons.mp member).imp_right (List.mem_cons_of_mem _)
      · rcases List.mem_cons.mp member with rfl | later
        · exact .inr List.mem_cons_self
        · exact (ih later).imp_right (List.mem_cons_of_mem _)

theorem nodup_insert (distinct : (map.map Prod.fst).Nodup) (name value : String) :
    ((map.insert name value).map Prod.fst).Nodup := by
  induction map with
  | nil => exact List.nodup_singleton name
  | cons field map ih =>
      rw [List.map_cons, List.nodup_cons] at distinct
      rw [insert]
      split
      · next here =>
          rw [List.map_cons, List.nodup_cons, ← here]
          exact distinct
      · next apart =>
          rw [List.map_cons, List.nodup_cons]
          refine ⟨fun member => ?_, ih distinct.2⟩
          exact (mem_insert_names member).elim apart distinct.1

/-- The last pair with a name gives its value. -/
theorem lookup_foldl_insert (pairs : List (String × String)) (map : Fields) (n : String) :
    (pairs.foldl (fun map pair => map.insert pair.1 pair.2) map).lookup n =
      (pairs.reverse.lookup n).or (map.lookup n) := by
  induction pairs generalizing map with
  | nil => rfl
  | cons pair pairs ih =>
      rw [List.foldl_cons, ih, lookup_insert, List.reverse_cons, List.lookup_append,
        Option.or_assoc,
        List.lookup_cons]
      by_cases same : n = pair.1
      · simp only [same, beq_self_eq_true, if_true, Option.some_or]
      · simp only [beq_false_of_ne same, if_neg same, List.lookup_nil, Option.none_or]

theorem nodup_foldl_insert (pairs : List (String × String))
    (distinct : (map.map Prod.fst).Nodup) :
    ((pairs.foldl (fun map pair => map.insert pair.1 pair.2) map).map Prod.fst).Nodup := by
  induction pairs generalizing map with
  | nil => exact distinct
  | cons pair pairs ih => exact ih (nodup_insert distinct pair.1 pair.2)

end Fields

namespace RequestHead

/-- What a piece of a query tells: a name, and behind its first equals sign a value. A piece without
the sign is a name. -/
inductive Tells : List Char → (name value : String) → Prop where
  | valued {name : List Char} (value : List Char) (free : '=' ∉ name) :
      Tells (name ++ '=' :: value) (String.ofList name) (String.ofList value)
  | bare {name : List Char} (some : name ≠ []) (free : '=' ∉ name) :
      Tells name (String.ofList name) ""

/-- A target gives a value to a name: behind its first question mark, of the pieces between
ampersands that have this name the last one tells so. -/
inductive Gives (target name value : String) : Prop where
  | last {path piece : List Char} {front back : List (List Char)}
      (whole : target.toList = path ++ '?' :: Text.join '&' (front ++ piece :: back))
      (first : '?' ∉ path) (apart : ∀ p ∈ front ++ piece :: back, '&' ∉ p)
      (tells : Tells piece name value) (later : ∀ p ∈ back, ∀ v, ¬ Tells p name v)

def pieceOf (pair : String × String) : List Char := pair.1.toList ++ '=' :: pair.2.toList

def written (pairs : List (String × String)) : String :=
  String.ofList (Text.join '&' (pairs.map pieceOf))

/-- A pair that a query can carry. -/
structure Plain (pair : String × String) : Prop where
  noSign : '=' ∉ pair.1.toList
  name : '&' ∉ pair.1.toList
  value : '&' ∉ pair.2.toList

instance (pair : String × String) : Decidable (Plain pair) :=
  decidable_of_iff ('=' ∉ pair.1.toList ∧ '&' ∉ pair.1.toList ∧ '&' ∉ pair.2.toList)
    ⟨fun plain => ⟨plain.1, plain.2.1, plain.2.2⟩, fun plain => ⟨plain.1, plain.2, plain.3⟩⟩

variable {target name value : String} {piece path query : List Char} {pieces : List (List Char)}
  {pairs : List (String × String)}

theorem queryPair_eq_iff (some : piece ≠ []) :
    queryPair piece = (name, value) ↔ Tells piece name value := by
  rw [queryPair]
  cases found : Text.cut '=' piece with
  | none =>
      have free := Text.cut_eq_none_iff.mp found
      constructor
      · rintro ⟨⟩
        exact .bare some free
      · intro tells
        cases tells with
        | valued => exact absurd (List.mem_append_right _ List.mem_cons_self) free
        | bare => rfl
  | some parts =>
      obtain ⟨rfl, free⟩ := Text.cut_eq_some_iff.mp found
      constructor
      · rintro ⟨⟩
        exact .valued _ free
      · generalize whole : parts.1 ++ '=' :: parts.2 = piece at found some
        intro tells
        cases tells with
        | valued v free' =>
            cases (Text.cut_append free' v).symm.trans found
            rfl
        | bare _ free' => exact absurd (whole ▸ List.mem_append_right _ List.mem_cons_self) free'

theorem Tells.ne_nil (tells : Tells piece name value) : piece ≠ [] := by
  cases tells with
  | valued => exact List.append_ne_nil_of_right_ne_nil _ (List.cons_ne_nil _ _)
  | bare some => exact some

def said? (name : String) (piece : List Char) : Option String :=
  if piece ≠ [] ∧ (queryPair piece).1 = name then some (queryPair piece).2 else none

theorem said?_eq_some_iff : said? name piece = some value ↔ Tells piece name value := by
  rw [said?, Option.ite_none_right_eq_some, Option.some_inj]
  constructor
  · rintro ⟨⟨some, rfl⟩, rfl⟩
    exact (queryPair_eq_iff some).mp rfl
  · intro tells
    rw [(queryPair_eq_iff tells.ne_nil).mpr tells]
    exact ⟨⟨tells.ne_nil, rfl⟩, rfl⟩

theorem lookup_queryPair (pieces : List (List Char)) (name : String) :
    ((pieces.filter fun piece => !piece.isEmpty).map queryPair).lookup name =
      pieces.findSome? (said? name) := by
  induction pieces with
  | nil => rfl
  | cons piece pieces ih =>
      rw [List.findSome?_cons, ← ih, said?]
      cases piece with
      | nil => rfl
      | cons c piece =>
          rw [List.filter_cons_of_pos (by rfl), List.map_cons, List.lookup_cons]
          by_cases same : name = (queryPair (c :: piece)).1
          · simp [same]
          · simp [beq_false_of_ne same, Ne.symm same]

theorem lookup_pieces_eq_some_iff :
    ((pieces.filter fun piece => !piece.isEmpty).map queryPair).reverse.lookup name = some value ↔
      ∃ front piece back, pieces = front ++ piece :: back ∧ Tells piece name value ∧
        ∀ p ∈ back, ∀ v, ¬ Tells p name v := by
  have silent : ∀ p, said? name p = none ↔ ∀ v, ¬ Tells p name v := by
    intro p
    rw [Option.eq_none_iff_forall_ne_some]
    exact forall_congr' fun v => not_congr said?_eq_some_iff
  rw [← List.map_reverse, ← List.filter_reverse, lookup_queryPair, List.findSome?_eq_some_iff]
  constructor
  · rintro ⟨back, piece, front, whole, here, later⟩
    refine ⟨front.reverse, piece, back.reverse, ?_, said?_eq_some_iff.mp here, fun p member => ?_⟩
    · rw [List.reverse_eq_append_iff.mp whole, List.reverse_cons, List.append_assoc]
      rfl
    · exact (silent p).mp (later p (List.mem_reverse.mp member))
  · rintro ⟨front, piece, back, rfl, here, later⟩
    refine ⟨back.reverse, piece, front.reverse, ?_, said?_eq_some_iff.mpr here, fun p member => ?_⟩
    · rw [List.reverse_append, List.reverse_cons, List.append_assoc]
      rfl
    · exact (silent p).mpr (later p (List.mem_reverse.mp member))

theorem pathOf_toList (target : String) :
    (pathOf target).toList = target.toList.takeWhile fun c => c ≠ '?' := by
  rw [pathOf]
  cases found : Text.cut '?' target.toList with
  | none =>
      have free := Text.cut_eq_none_iff.mp found
      refine (List.takeWhile_eq_self_iff.mpr fun c member => ?_).symm
      exact decide_eq_true (ne_of_mem_of_not_mem member free)
  | some parts =>
      obtain ⟨whole, free⟩ := Text.cut_eq_some_iff.mp found
      have before : ∀ c ∈ parts.1, decide (c ≠ '?') = true :=
        fun c member => decide_eq_true (ne_of_mem_of_not_mem member free)
      rw [whole, List.takeWhile_append_of_pos before, List.takeWhile_cons_of_neg (by decide),
        List.append_nil]
      exact String.toList_ofList

theorem lookup_queryOf (target name : String) :
    (queryOf target).lookup name = (queryPairs target).reverse.lookup name := by
  rw [queryOf, Fields.lookup_foldl_insert, List.lookup_nil, Option.or_none]

theorem queryValue?_eq_some_iff (head : RequestHead) (name value : String) :
    head.queryValue? name = some value ↔ Gives head.target name value := by
  rw [queryValue?, RequestHead.query, lookup_queryOf, queryPairs]
  cases found : Text.cut '?' head.target.toList with
  | none =>
      have free := Text.cut_eq_none_iff.mp found
      refine iff_of_false nofun ?_
      rintro ⟨whole, _⟩
      exact free (whole ▸ List.mem_append_right _ List.mem_cons_self)
  | some parts =>
      obtain ⟨whole, free⟩ := Text.cut_eq_some_iff.mp found
      refine lookup_pieces_eq_some_iff.trans ⟨?_, ?_⟩
      · rintro ⟨front, piece, back, pieces, tells, later⟩
        obtain ⟨joined, _, apart⟩ := Text.splitOn_eq_iff.mp pieces
        exact .last (joined ▸ whole) free apart tells later
      · rintro ⟨whole', free', apart, tells, later⟩
        rw [whole', Text.cut_append free'] at found
        cases found
        refine ⟨_, _, _, Text.splitOn_join ?_ apart, tells, later⟩
        exact List.append_ne_nil_of_right_ne_nil _ (List.cons_ne_nil _ _)

theorem cut_asked {path : String} (free : '?' ∉ path.toList) (query : String) :
    Text.cut '?' (path ++ "?" ++ query).toList = some (path.toList, query.toList) := by
  rw [String.toList_append, String.toList_append, List.append_assoc]
  exact Text.cut_append free query.toList

theorem pathOf_of_notMem {path : String} (free : '?' ∉ path.toList) : pathOf path = path := by
  rw [pathOf, Text.cut_eq_none_iff.mpr free]

theorem pathOf_asked {path : String} (free : '?' ∉ path.toList) (query : String) :
    pathOf (path ++ "?" ++ query) = path := by
  rw [pathOf, cut_asked free]
  exact String.ofList_toList

theorem isEmpty_pieceOf (pair : String × String) : (pieceOf pair).isEmpty = false :=
  List.isEmpty_eq_false_iff.mpr (List.append_ne_nil_of_right_ne_nil _ (List.cons_ne_nil _ _))

theorem notMem_pieceOf {pair : String × String} (plain : Plain pair) : '&' ∉ pieceOf pair :=
  Text.notMem_append_cons plain.name (by decide) plain.value

theorem queryPair_pieceOf {pair : String × String} (plain : Plain pair) :
    queryPair (pieceOf pair) = pair := by
  rw [queryPair, pieceOf, Text.cut_append plain.noSign]
  simp only [String.ofList_toList]

/-- The pairs that a query is written from are the pairs that it is read as. -/
theorem queryPairs_written {path : String} (free : '?' ∉ path.toList)
    (plain : ∀ pair ∈ pairs, Plain pair) : queryPairs (path ++ "?" ++ written pairs) = pairs := by
  have apart : ∀ p ∈ pairs.map pieceOf, '&' ∉ p := by
    intro p member
    obtain ⟨pair, inside, rfl⟩ := List.mem_map.mp member
    exact notMem_pieceOf (plain pair inside)
  have some : ∀ p ∈ pairs.map pieceOf, (!p.isEmpty) = true := by
    intro p member
    obtain ⟨pair, _, rfl⟩ := List.mem_map.mp member
    exact congrArg (!·) (isEmpty_pieceOf pair)
  have each : (pairs.map pieceOf).map queryPair = pairs := by
    have same : ∀ pair ∈ pairs, (queryPair ∘ pieceOf) pair = id pair :=
      fun pair member => queryPair_pieceOf (plain pair member)
    rw [List.map_map, List.map_congr_left same, List.map_id]
  rw [queryPairs, cut_asked free, written, String.toList_ofList]
  by_cases none : pairs = []
  · rw [none]
    rfl
  · simp only
    rw [Text.splitOn_join (mt List.map_eq_nil_iff.mp none) apart, List.filter_eq_self.mpr some,
      each]

/-- What a target says. Its path is what stands before the first question mark. A name has the value
that the last piece with this name gives it, and there is one value for each name. A query that is
written from pairs gives each name the value of its last pair, whatever signs the values have, and
leads to the same route as the path alone. -/
theorem query_last_wins (head : RequestHead) :
    head.path.toList = (head.target.toList.takeWhile fun c => c ≠ '?') ∧
      (∀ name value, head.queryValue? name = some value ↔ Gives head.target name value) ∧
      (head.query.map Prod.fst).Nodup ∧
      ∀ (path : String) (pairs : List (String × String)), '?' ∉ path.toList →
        (∀ pair ∈ pairs, Plain pair) →
        let asked := { head with target := path ++ "?" ++ written pairs }
        asked.path = path ∧ (∀ name, asked.queryValue? name = pairs.reverse.lookup name) ∧
          ∀ (α : Type) (table : RouteTable α), table.find? asked.method asked.path =
            table.find? head.method { head with target := path }.path := by
  refine ⟨pathOf_toList head.target, head.queryValue?_eq_some_iff,
    Fields.nodup_foldl_insert _ List.nodup_nil, fun path pairs free plain => ?_⟩
  intro asked
  have same : asked.path = path := pathOf_asked free _
  refine ⟨same, fun name => ?_, fun α table => ?_⟩
  · rw [queryValue?, RequestHead.query, lookup_queryOf, queryPairs_written free plain]
  · rw [same, RequestHead.path, pathOf_of_notMem free]

/-- A name that comes twice, a value with the signs that cut, and a pair of nothing. -/
theorem query_last_wins_twice :
    let pairs := [("q", "a=b?"), ("", ""), ("q", "c"), ("page", "=1")]
    let head : RequestHead := ⟨.get, "/s?q=a=b?&=&q=c&page==1", .http11, []⟩
    '?' ∉ "/s".toList ∧ (∀ pair ∈ pairs, Plain pair) ∧
      head.target = "/s" ++ "?" ++ written pairs ∧ head.path = "/s" ∧
      head.queryValue? "q" = some "c" ∧ Gives head.target "q" "c" ∧
      ∀ table : RouteTable Nat, table.find? head.method head.path =
        table.find? head.method { head with target := "/s" }.path := by
  intro pairs head
  have free : '?' ∉ "/s".toList := by decide
  have plain : ∀ pair ∈ pairs, Plain pair := by decide
  have target : head.target = "/s" ++ "?" ++ written pairs := by decide +kernel
  obtain ⟨_, gives, _, asks⟩ := query_last_wins head
  obtain ⟨path, values, routes⟩ := asks "/s" pairs free plain
  have value : head.queryValue? "q" = some "c" := by
    rw [queryValue?, RequestHead.query, target]
    exact values "q"
  have short : head.path = "/s" := by
    rw [RequestHead.path, target]
    exact path
  refine ⟨free, plain, target, short, value, (gives "q" "c").mp value, fun table => ?_⟩
  rw [short]
  rw [path] at routes
  exact routes Nat table

end RequestHead

end HttpExchange
