import HttpExchange.Proofs.Head.Owned
import HttpExchange.Proofs.Text.Pieces

/-!
Which value of a field is sent. A field of the request comes before a default of its name, and no
name is sent twice. The host is the exception: only the request can take its place, and a default
of that name is sent behind it.
-/

namespace HttpExchange.Draft

open Fields (IsToken OneLine Apart Statable valuesOf)

variable {d : Draft} {config : ClientConfig}

/-- Fields as they may be given: names that may be sent, none of them twice, and none of them
derived. -/
structure Given (fields : List (String × String)) : Prop where
  token : ∀ field ∈ fields, IsToken field.1
  free : ∀ field ∈ fields, Fields.isReserved field.1 = false
  apart : Apart fields

/-- The values that are sent: one for each name but the host's, and that is the request's if it
gives one, and else that of the defaults. -/
structure Precedence (d : Draft) (config : ClientConfig) (sent : List (String × String)) : Prop where
  own : ∀ field ∈ d.fields, valuesOf sent field.1 = [field.2]
  defaults : ∀ field ∈ config.defaults, d.names field.1 = false →
    sameName field.1 "Host" = false → valuesOf sent field.1 = [field.2]
  /-- Behind the address stands the host of the defaults, if they have one. -/
  host : d.names "Host" = false →
    valuesOf sent "Host" = config.address.text :: (Fields.find? config.defaults "Host").toList
  once : ∀ n, sameName n "Host" = false ∨ d.names "Host" = true → (valuesOf sent n).length ≤ 1

theorem Given.valuesOf_eq {fields : List (String × String)} (given : Given fields)
    {field : String × String} (member : field ∈ fields) : valuesOf fields field.1 = [field.2] := by
  rw [Fields.valuesOf_eq_toList given.apart, Fields.find?_of_mem given.apart member,
    Option.toList_some]

theorem Given.statable {fields : List (String × String)} (given : Given fields)
    (oneLine : ∀ field ∈ fields, OneLine field.2) : ∀ field ∈ fields, Statable field :=
  fun field member => ⟨(given.token field member).isLabel, oneLine field member⟩

theorem names_of_mem {field : String × String} (member : field ∈ d.fields) :
    d.names field.1 = true := List.any_eq_true.mpr ⟨field, member, sameName_refl field.1⟩

theorem lined_head (noLf : '\n' ∉ d.target.toList) (own : ∀ field ∈ d.fields, Statable field)
    (defaults : ∀ field ∈ config.defaults, Statable field) :
    ∃ text, d.head config = Utf8.encodeChars text ∧
      Text.Lined text (RequestHead.firstLine d.method d.target ::
        ((d.sentFields config).map Fields.lineOf ++ [[]])) := by
  have each : ∀ line ∈ RequestHead.firstLine d.method d.target ::
      (d.sentFields config).map Fields.lineOf, '\n' ∉ line := by
    rw [List.forall_mem_cons, List.forall_mem_map, sentFields_eq]
    exact ⟨lf_notMem_firstLine noLf, fun field member =>
      Fields.lf_notMem_lineOf (statable_sentFields own defaults field member)⟩
  refine ⟨_, d.head_eq config, Text.lines_eq_iff.mp ?_⟩
  rw [Wire.lines_headText each, List.cons_append]

theorem precedence (own : Given d.fields) (defaults : Given config.defaults) :
    d.Precedence config (d.sentFields config) := by
  refine ⟨fun field member => ?_, fun field member unnamed other => ?_, fun unnamed => ?_,
    fun n some => ?_⟩
  · rw [valuesOf_sentFields_unreserved (own.free field member), names_of_mem member, if_pos rfl,
      own.valuesOf_eq member]
  · rw [sameName_comm] at other
    rw [valuesOf_sentFields_unreserved (defaults.free field member), unnamed, other,
      defaults.valuesOf_eq member]
    rfl
  · rw [valuesOf_sentFields_unreserved (by decide), unnamed, if_pos (sameName_refl "Host"),
      Fields.valuesOf_eq_toList defaults.apart]
    rfl
  · cases reserved : Fields.isReserved n with
    | true =>
        rw [valuesOf_sentFields reserved, ← Fields.valuesOf_append]
        exact Fields.apart_iff_length_le.mp (d.parted config).apart n
    | false =>
        rw [valuesOf_sentFields_unreserved reserved]
        cases named : d.names n with
        | true => exact Fields.apart_iff_length_le.mp own.apart n
        | false =>
            have other : sameName "Host" n = false := by
              rw [Bool.eq_false_iff]
              intro host
              rcases some with apart | given
              · rw [sameName_comm, host] at apart
                cases apart
              · rw [names_congr host, named] at given
                cases given
            rw [other]
            exact Fields.apart_iff_length_le.mp defaults.apart n

theorem apart_sentFields_iff (precedence : d.Precedence config (d.sentFields config)) :
    Apart (d.sentFields config) ↔
      d.names "Host" = true ∨ Fields.has config.defaults "Host" = false := by
  rw [Fields.apart_iff_length_le, Fields.has, Option.isSome_eq_false_iff,
    Option.isNone_iff_eq_none]
  constructor
  · intro once
    cases named : d.names "Host" with
    | true => exact .inl rfl
    | false =>
        have few := once "Host"
        rw [precedence.host named] at few
        cases found : Fields.find? config.defaults "Host" with
        | none => exact .inr rfl
        | some host =>
            rw [found] at few
            exact absurd few (Nat.not_le_of_lt (Nat.le_refl 2))
  · intro single n
    by_cases host : sameName n "Host" = true
    · rw [Fields.valuesOf_congr host]
      cases named : d.names "Host" with
      | true => exact precedence.once "Host" (.inr named)
      | false =>
          rcases single with given | none
          · cases named.symm.trans given
          · rw [precedence.host named, none]
            exact Nat.le_refl 1
    · exact precedence.once n (.inl (Bool.eq_false_iff.mpr host))

/-- The head of a request has a line for each field that is sent. Each name has one of them, and its
value is the request's, or else that of the defaults, or the address of the server if neither names
the host. Only where the defaults name the host and the request does not, there are two lines with
that name: one with the address, and one with the default. -/
theorem head_precedence (own : Given d.fields) (defaults : Given config.defaults) :
    d.head config = Wire.headOf (RequestHead.firstLine d.method d.target ::
      (d.sentFields config).map Fields.lineOf) ∧
    ('\n' ∉ d.target.toList → (∀ field ∈ d.fields, OneLine field.2) →
      (∀ field ∈ config.defaults, OneLine field.2) →
      ∃ text, d.head config = Utf8.encodeChars text ∧
        Text.Lined text (RequestHead.firstLine d.method d.target ::
          ((d.sentFields config).map Fields.lineOf ++ [[]]))) ∧
    d.Precedence config (d.sentFields config) ∧
    (Apart (d.sentFields config) ↔
      d.names "Host" = true ∨ Fields.has config.defaults "Host" = false) := by
  have precedence := precedence own defaults
  refine ⟨d.head_eq config, fun noLf values values' => ?_, precedence,
    apart_sentFields_iff precedence⟩
  exact lined_head noLf (own.statable values) (defaults.statable values')

theorem head_precedence_agent :
    let d : Draft := { method := .get, target := "/", fields := [("user-agent", "probe")] }
    let config : ClientConfig := { defaults := [("User-Agent", "agent"), ("Accept", "*/*")] }
    Given d.fields ∧ Given config.defaults ∧ Apart (d.sentFields config) ∧
      valuesOf (d.sentFields config) "user-agent" = ["probe"] ∧
      valuesOf (d.sentFields config) "Accept" = ["*/*"] ∧
      valuesOf (d.sentFields config) "Host" = [config.address.text] := by
  intro d config
  have own : Given d.fields := ⟨by decide, by decide, List.pairwise_singleton _ _⟩
  have defaults : Given config.defaults :=
    ⟨by decide, by decide, List.pairwise_pair.mpr (by decide)⟩
  obtain ⟨_, _, precedence, apart⟩ := head_precedence own defaults
  refine ⟨own, defaults, apart.mpr (.inr (by decide)), ?_, ?_, ?_⟩
  · exact precedence.own ("user-agent", "probe") List.mem_cons_self
  · exact precedence.defaults ("Accept", "*/*") (by decide) (by decide) (by decide)
  · exact precedence.host (by decide)

/-- A default host does not take the place of the address. -/
theorem host_sent_twice :
    ¬ ∀ (d : Draft) (config : ClientConfig), Given d.fields → Given config.defaults →
      ∀ text sent, d.head config = Utf8.encodeChars text →
        Text.Lined text (RequestHead.firstLine d.method d.target ::
          (sent.map Fields.lineOf ++ [[]])) →
        (∀ field ∈ sent, IsToken field.1) → Apart sent := by
  intro each
  let d : Draft := { method := .get, target := "/" }
  let config : ClientConfig := { defaults := [("Host", "example.com")] }
  have own : Given d.fields := ⟨by decide, by decide, .nil⟩
  have defaults : Given config.defaults := ⟨by decide, by decide, List.pairwise_singleton _ _⟩
  obtain ⟨text, written, lined⟩ : ∃ text, d.head config = Utf8.encodeChars text ∧
      Text.Lined text (RequestHead.firstLine d.method d.target ::
        ((d.sentFields config).map Fields.lineOf ++ [[]])) :=
    lined_head (by decide) (own.statable (by decide)) (defaults.statable (by decide))
  have apart := each d config own defaults text _ written lined (by decide)
  exact absurd (List.pairwise_cons.mp apart).1 (by decide)

end HttpExchange.Draft
