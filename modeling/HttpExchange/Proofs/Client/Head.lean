import HttpExchange.Client.Draft
import HttpExchange.Proofs.Address
import HttpExchange.Proofs.Framing
import HttpExchange.Proofs.Head.Parse

/-!
The head of a request and what a server makes of it. The host, the defaults and the caller's own
fields stand under the names that the caller left for them; the framing is the one that the body is
sent with, also where none is announced.
-/

namespace HttpExchange.Draft

variable {d : Draft} {config : ClientConfig}

/-- The target is one that may be sent, and so are the fields. The defaults leave the host to the
client, and give no name twice. -/
structure Proper (d : Draft) (config : ClientConfig) : Prop where
  target : RequestHead.Sendable d.target
  own : ∀ field ∈ d.fields, Fields.Clean field
  defaults : ∀ field ∈ config.defaults, Fields.Clean field
  noHost : ∀ field ∈ config.defaults, sameName field.1 "Host" = false
  apart : Fields.Apart config.defaults

theorem toList_requestLine (method target : String) :
    (method ++ " " ++ target ++ " HTTP/1.1\r\n").toList =
      (method.toList ++ ' ' :: (target.toList ++ ' ' :: "HTTP/1.1".toList)) ++ ['\r', '\n'] := by
  rw [String.toList_append, String.toList_append, String.toList_append]
  simp only [List.append_assoc, List.cons_append]
  rfl

theorem head_eq (d : Draft) (config : ClientConfig) : d.head config = Wire.headOf
    (RequestHead.firstLine d.method d.target :: (d.sentFields config).map Fields.lineOf) := by
  have first : Utf8.encode (d.method.token ++ " " ++ d.target ++ " HTTP/1.1\r\n") =
      Utf8.encodeChars (RequestHead.firstLine d.method d.target ++ ['\r', '\n']) :=
    congrArg Utf8.encodeChars (toList_requestLine d.method.token d.target)
  rw [Fields.headOf_lineOf, head, first]

theorem names_congr {a b : String} (same : sameName a b = true) : d.names a = d.names b := by
  rw [names, Fields.named_congr same, names]

theorem valuesOf_of_names {n : String} (unnamed : d.names n = false) :
    Fields.valuesOf d.fields n = [] := by
  rw [names, List.any_eq_false] at unnamed
  apply Fields.valuesOf_eq_nil
  intro field member
  rw [Bool.eq_false_iff]
  exact unnamed field member

theorem valuesOf_ne_nil_of_names {n : String} (named : d.names n = true) :
    Fields.valuesOf d.fields n ≠ [] := by
  obtain ⟨field, member, same⟩ := List.any_eq_true.mp named
  apply List.ne_nil_of_mem
  exact List.mem_map_of_mem (List.mem_filter.mpr ⟨member, same⟩)

theorem mem_hostField {field : String × String} (member : field ∈ d.hostField config) :
    field = ("Host", config.address.text) := by
  rw [hostField] at member
  split at member
  · exact absurd member List.not_mem_nil
  · exact List.mem_singleton.mp member

theorem clean_hostField {field : String × String} (member : field ∈ d.hostField config) :
    Fields.Clean field := by
  cases mem_hostField member
  have name : Fields.IsToken "Host" := by decide
  have blankless := config.address.isBlank_of_mem_text
  exact ⟨⟨name, .of_blankless blankless⟩, Fields.trimmed_of_blankless blankless⟩

theorem mem_framingField {field : String × String} (member : field ∈ d.framingField) :
    field ∈ d.body.framing.field?.toList := by
  rw [framingField] at member
  split at member
  · exact absurd member List.not_mem_nil
  · exact member

theorem clean_sentFields (proper : d.Proper config) :
    ∀ field ∈ d.sentFields config, Fields.Clean field := by
  intro field member
  rw [sentFields, List.mem_append, List.mem_append, List.mem_append] at member
  rcases member with ((host | given) | derived) | ending
  · exact clean_hostField host
  · rw [givenFields, List.mem_filter, List.mem_append] at given
    rcases given.1 with default | own
    · exact proper.defaults field (List.mem_filter.mp default).1
    · exact proper.own field own
  · exact Framing.clean_field (mem_framingField derived)
  · cases List.mem_singleton.mp ending
    exact Fields.clean_close

theorem valuesOf_sentFields {n : String} (reserved : Fields.isReserved n = true) :
    Fields.valuesOf (d.sentFields config) n =
      Fields.valuesOf d.framingField n ++ Fields.valuesOf [(Fields.connection, "close")] n := by
  have free : Fields.isReserved "Host" = false := by decide
  have host : Fields.valuesOf (d.hostField config) n = [] := by
    apply Fields.valuesOf_of_isReserved_ne
    intro field member same
    rw [mem_hostField member, reserved, free] at same
    exact Bool.false_ne_true same
  rw [sentFields, Fields.valuesOf_append, Fields.valuesOf_append, Fields.valuesOf_append, host,
    givenFields, Fields.valuesOf_unreserved, if_pos reserved, List.nil_append, List.nil_append]

theorem valuesOf_hostField (d : Draft) (config : ClientConfig) (n : String) :
    Fields.valuesOf (d.hostField config) n =
      if d.names n then [] else if sameName "Host" n then [config.address.text] else [] := by
  rw [hostField]
  by_cases host : sameName "Host" n = true
  · rw [names_congr host]
    cases d.names n with
    | true => rfl
    | false =>
        rw [if_neg Bool.false_ne_true, if_neg Bool.false_ne_true]
        exact Fields.valuesOf_singleton _ n
  · rw [if_neg host, ite_self]
    split
    · rfl
    · rw [Fields.valuesOf_singleton, if_neg host]

theorem valuesOf_givenFields (d : Draft) (config : ClientConfig) {n : String}
    (free : Fields.isReserved n = false) :
    Fields.valuesOf (d.givenFields config) n =
      if d.names n then Fields.valuesOf d.fields n else Fields.valuesOf config.defaults n := by
  have defaults := Fields.valuesOf_filter (fun name => !d.names name)
    (fun same => congrArg (!·) (names_congr same)) config.defaults n
  rw [givenFields, Fields.valuesOf_unreserved, free, if_neg Bool.false_ne_true,
    Fields.valuesOf_append, defaults]
  cases named : d.names n with
  | true => rfl
  | false =>
      rw [valuesOf_of_names named, List.append_nil]
      rfl

/-- Under any other name stands what the caller gave, or else the host and the defaults. -/
theorem valuesOf_sentFields_unreserved {n : String} (free : Fields.isReserved n = false) :
    Fields.valuesOf (d.sentFields config) n =
      if d.names n then Fields.valuesOf d.fields n
      else (if sameName "Host" n then [config.address.text] else []) ++
        Fields.valuesOf config.defaults n := by
  have derived : Fields.valuesOf d.framingField n = [] := by
    apply Fields.valuesOf_of_isReserved_ne
    intro field member
    rw [free, Framing.reserved_of_field (mem_framingField member)]
    decide
  have ending : Fields.valuesOf [(Fields.connection, "close")] n = [] := by
    apply Fields.valuesOf_of_isReserved_ne
    intro field member
    cases List.mem_singleton.mp member
    rw [free]
    decide
  rw [sentFields, Fields.valuesOf_append, Fields.valuesOf_append, Fields.valuesOf_append, derived,
    ending, List.append_nil, List.append_nil, valuesOf_hostField, valuesOf_givenFields d config free]
  cases d.names n with
  | true => rfl
  | false => rfl

theorem valuesOf_sentFields_free
    (noHost : ∀ field ∈ config.defaults, sameName field.1 "Host" = false) {n : String}
    (free : Fields.isReserved n = false) :
    Fields.valuesOf (d.sentFields config) n =
      if d.names n then Fields.valuesOf d.fields n
      else if sameName "Host" n then [config.address.text]
      else Fields.valuesOf config.defaults n := by
  rw [valuesOf_sentFields_unreserved free]
  by_cases host : sameName "Host" n = true
  · have none : Fields.valuesOf config.defaults n = [] := by
      rw [← Fields.valuesOf_congr host]
      exact Fields.valuesOf_eq_nil noHost
    rw [none, if_pos host, List.append_nil]
  · rw [if_neg host, if_neg host, List.nil_append]

theorem valuesOf_closing_eq_nil {n : String}
    (which : n = Fields.transferEncoding ∨ n = Fields.contentLength) :
    Fields.valuesOf [(Fields.connection, "close")] n = [] := by
  rcases which with rfl | rfl
  · decide
  · decide

/-- The head is read back with the method and the target, and under each name the values that were
sent. -/
theorem parse_head (proper : d.Proper config) :
    ∃ fields, RequestHead.parse (d.head config) = .ok ⟨d.method, d.target, .http11, fields⟩ ∧
      ∀ n, Fields.find? fields n = Fields.joined (Fields.valuesOf (d.sentFields config) n) := by
  have clean := clean_sentFields proper
  have received : ∀ n, Fields.valuesOf ((d.sentFields config).map Fields.received) n =
      Fields.valuesOf (d.sentFields config) n := by
    intro n
    rw [Fields.valuesOf_received]
    exact Fields.map_trimmed_valuesOf (fun field member => (clean field member).tidy) n
  have single : (Fields.valuesOf ((d.sentFields config).map Fields.received)
      Fields.contentLength).length ≤ 1 := by
    have few : d.framingField.length ≤ 1 := by
      rw [framingField]
      split
      · exact Nat.zero_le 1
      · exact Framing.length_field_le d.body.framing
    rw [received, valuesOf_sentFields (by decide), valuesOf_closing_eq_nil (.inr rfl),
      List.append_nil, Fields.valuesOf, List.length_map]
    exact Nat.le_trans (List.length_filter_le _ _) few
  have host : Fields.valuesOf ((d.sentFields config).map Fields.received) "Host" ≠ [] := by
    rw [received, valuesOf_sentFields_free proper.noHost (by decide)]
    cases named : d.names "Host" with
    | true => exact valuesOf_ne_nil_of_names named
    | false => exact List.cons_ne_nil _ _
  obtain ⟨fields, read, spec⟩ := RequestHead.parse_headOf d.method proper.target
    (fun field member => (clean field member).toWritable) single host
  refine ⟨fields, ?_, ?_⟩
  · rw [head_eq, read]
  · intro n
    rw [spec, received]

variable {head : RequestHead}

theorem framing_agrees (small : ∀ b, d.body.content = .known b → b.length < Numeral.bound64)
    (spec : ∀ n, head.fields.find? n = Fields.joined (Fields.valuesOf (d.sentFields config) n)) :
    Framing.ofRequest head = .ok d.body.framing := by
  have known : Framing.Announces head.fields d.framingField := by
    intro n which
    have reserved : Fields.isReserved n = true := by rcases which with rfl | rfl <;> decide
    rw [spec, valuesOf_sentFields reserved, valuesOf_closing_eq_nil which, List.append_nil]
  rw [framingField] at known
  rw [Framing.ofRequest]
  by_cases empty : d.body.framing = .empty
  · rw [if_pos empty] at known
    rw [Framing.announced_none known, empty]
    rfl
  · rw [if_neg empty] at known
    rw [Framing.announced_field (Body.announceable_framing small) known]
    rfl

theorem wantsClose_sent
    (spec : ∀ n, head.fields.find? n = Fields.joined (Fields.valuesOf (d.sentFields config) n)) :
    head.wantsClose = true := by
  have derived : Fields.valuesOf d.framingField Fields.connection = [] := by
    apply Fields.valuesOf_eq_nil
    intro field member
    exact Framing.not_connection_of_field (mem_framingField member)
  have closes : head.field? Fields.connection = some "close" := by
    rw [RequestHead.field?, spec, valuesOf_sentFields (by decide), derived]
    decide
  rw [RequestHead.wantsClose, closes]
  exact if_pos (sameName_refl "close")

/-- A head that says what the caller gave: the host, the defaults that the caller left, and the
caller's own fields, those with one name as one. -/
structure ReadBack (d : Draft) (config : ClientConfig) (head : RequestHead) : Prop where
  method : head.method = d.method
  target : head.target = d.target
  version : head.version = .http11
  host : head.field? "Host" =
    if d.names "Host" then Fields.joined (Fields.valuesOf d.fields "Host")
    else some config.address.text
  defaults : ∀ field ∈ config.defaults, Fields.isReserved field.1 = false →
    d.names field.1 = false → head.field? field.1 = some field.2
  own : ∀ field ∈ d.fields, Fields.isReserved field.1 = false →
    head.field? field.1 = Fields.joined (Fields.valuesOf d.fields field.1)
  others : ∀ n, Fields.isReserved n = false → d.names n = false → sameName "Host" n = false →
    head.field? n = Fields.find? config.defaults n
  closing : head.wantsClose = true

theorem readBack_of_find? (proper : d.Proper config) {fields : Fields}
    (spec : ∀ n, fields.find? n = Fields.joined (Fields.valuesOf (d.sentFields config) n)) :
    d.ReadBack config ⟨d.method, d.target, .http11, fields⟩ := by
  have free : ∀ n, Fields.isReserved n = false → fields.find? n =
      Fields.joined (if d.names n then Fields.valuesOf d.fields n
        else if sameName "Host" n then [config.address.text]
        else Fields.valuesOf config.defaults n) := by
    intro n free
    rw [spec, valuesOf_sentFields_free proper.noHost free]
  have others : ∀ n, Fields.isReserved n = false → d.names n = false → sameName "Host" n = false →
      fields.find? n = Fields.find? config.defaults n := by
    intro n own unnamed apart
    rw [free n own, unnamed, apart, if_neg Bool.false_ne_true, if_neg Bool.false_ne_true,
      Fields.valuesOf_eq_toList proper.apart, Fields.joined_toList]
  have closing : (⟨d.method, d.target, .http11, fields⟩ : RequestHead).wantsClose = true :=
    wantsClose_sent spec
  refine ⟨rfl, rfl, rfl, ?_, ?_, ?_, others, closing⟩
  · rw [RequestHead.field?, free "Host" (by decide), if_pos (sameName_refl "Host")]
    cases d.names "Host" with
    | true => rfl
    | false => exact Fields.joined_toList (some config.address.text)
  · intro field member own unnamed
    have apart : sameName "Host" field.1 = false := by
      rw [sameName_comm]
      exact proper.noHost field member
    exact (others field.1 own unnamed apart).trans (Fields.find?_of_mem proper.apart member)
  · intro field member own
    have named : d.names field.1 = true :=
      List.any_eq_true.mpr ⟨field, member, sameName_refl field.1⟩
    rw [RequestHead.field?, free field.1 own, if_pos named]

end HttpExchange.Draft
