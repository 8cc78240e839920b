import HttpExchange.Proofs.Client.Head
import HttpExchange.Proofs.Head.Form
import HttpExchange.Proofs.Head.Written
import HttpExchange.Proofs.Server.Head

/-!
Who has a say in the derived fields. The fields that delimit the body and end the connection are read
off a head as server and client derived them, whatever the caller named its own fields, as long as
none of these has a derived name with blanks around it.
-/

namespace HttpExchange

open Fields (Statable Parted Owns Owned Apart Folds stripped valuesOf)

theorem Framing.apart_field (f : Framing) : Apart f.field?.toList := by
  cases f.field? with
  | none => exact .nil
  | some field => exact List.pairwise_singleton _ field

theorem Framing.apart_field_closing {given : List (String × String)} {f : Framing}
    (some : given.Sublist f.field?.toList) (value : String) :
    Apart (given ++ [(Fields.connection, value)]) := by
  refine List.pairwise_append.mpr ⟨f.apart_field.sublist some, List.pairwise_singleton _ _, ?_⟩
  intro field member closing last
  rw [List.mem_singleton.mp last]
  exact not_connection_of_field (some.subset member)

namespace Response

variable {r : Response}

def derivedFields (r : Response) (close : Bool) : List (String × String) :=
  r.announced ++ closing close

theorem sublist_announced (r : Response) : r.announced.Sublist r.body.framing.field?.toList := by
  rw [announced]
  split
  · exact List.nil_sublist _
  · exact .refl _

theorem sublist_closing (close : Bool) :
    (closing close).Sublist [(Fields.connection, "close")] := by
  cases close with
  | true => exact .refl _
  | false => exact List.nil_sublist _

theorem parted (r : Response) (close : Bool) : Parted r.ownFields (r.derivedFields close) := by
  refine ⟨fun field member => (mem_ownFields.mp member).2, fun field member => ?_, ?_⟩
  · rcases List.mem_append.mp member with framing | ending
    · exact Framing.clean_field (r.sublist_announced.subset framing)
    · cases List.mem_singleton.mp ((sublist_closing close).subset ending)
      exact Fields.clean_close
  · exact (Framing.apart_field_closing r.sublist_announced "close").sublist
      ((sublist_closing close).append_left r.announced)

theorem opening_firstLine (s : Status) :
    ResponseHead.opening (ResponseHead.firstLine s) = .ok (.http11, s.code, s.reason) := by
  have none : ∀ field ∈ ([] : List (String × String)), Fields.Writable field :=
    List.forall_mem_nil _
  obtain ⟨fields, parsed, _⟩ := ResponseHead.parse_headOf s none (Nat.zero_le 1)
  have laid := Fields.laid_headOf (ResponseHead.headLine_firstLine s).noLf
    fun field member => (none field member).statable
  exact (ResponseHead.parse_laid laid parsed).1

/-- A client reads the head of a response in this way. -/
theorem owns (statable : ∀ field ∈ r.fields, Statable field) (close : Bool) :
    Owns r.ownFields (r.derivedFields close)
      ((ResponseHead.parse (r.head close)).map ResponseHead.fields) := by
  have parted := r.parted close
  have each : ∀ field ∈ r.ownFields ++ r.derivedFields close, Statable field := by
    rw [List.forall_mem_append]
    exact ⟨fun field member => statable field (mem_ownFields.mp member).1,
      fun field member => (parted.clean field member).statable⟩
  have laid := Fields.laid_headOf (ResponseHead.headLine_firstLine r.status).noLf each
  rw [head_eq]
  exact parted.owns ResponseHead.parses laid (opening_firstLine r.status) fun _ _ => rfl

end Response

namespace Draft

variable {d : Draft} {config : ClientConfig}

/-- The host, the defaults and the caller's own fields, as they are sent. -/
def freeFields (d : Draft) (config : ClientConfig) : List (String × String) :=
  d.hostField config ++ d.givenFields config

def derivedFields (d : Draft) : List (String × String) :=
  d.framingField ++ [(Fields.connection, "close")]

/-- The first line is one line, and it is accepted. -/
structure Opens (d : Draft) : Prop where
  noLf : '\n' ∉ d.target.toList
  said : ∃ said, RequestHead.opening (RequestHead.firstLine d.method d.target) = .ok said

theorem opens_of_sendable (sendable : RequestHead.Sendable d.target) : d.Opens := by
  refine ⟨fun member => absurd (sendable.blankless _ member) (by decide), ?_⟩
  have words := Text.words_eq_iff.mp (RequestHead.words_firstLine d.method sendable)
  have aim := RequestHead.isTarget_iff.mp sendable.form
  exact ⟨_, RequestHead.opening_eq_ok_iff.mpr ⟨"HTTP/1.1", .http11, aim, words⟩⟩

theorem sentFields_eq (d : Draft) (config : ClientConfig) :
    d.sentFields config = d.freeFields config ++ d.derivedFields := by
  rw [sentFields, freeFields, derivedFields, List.append_assoc]

theorem mem_givenFields {field : String × String} (member : field ∈ d.givenFields config) :
    (field ∈ config.defaults ∨ field ∈ d.fields) ∧ Fields.isReserved field.1 = false := by
  rw [givenFields, List.mem_filter, List.mem_append, Bool.not_eq_true'] at member
  exact ⟨member.1.imp_left fun default => (List.mem_filter.mp default).1, member.2⟩

theorem sublist_framingField (d : Draft) :
    d.framingField.Sublist d.body.framing.field?.toList := by
  rw [framingField]
  split
  · exact List.nil_sublist _
  · exact .refl _

theorem parted (d : Draft) (config : ClientConfig) :
    Parted (d.freeFields config) d.derivedFields := by
  refine ⟨fun field member => ?_, fun field member => ?_,
    Framing.apart_field_closing d.sublist_framingField "close"⟩
  · rcases List.mem_append.mp member with host | given
    · rw [mem_hostField host]
      exact (by decide : Fields.isReserved "Host" = false)
    · exact (mem_givenFields given).2
  · rcases List.mem_append.mp member with framing | ending
    · exact Framing.clean_field (mem_framingField framing)
    · rw [List.mem_singleton.mp ending]
      exact Fields.clean_close

theorem lf_notMem_firstLine (noLf : '\n' ∉ d.target.toList) :
    '\n' ∉ RequestHead.firstLine d.method d.target := by
  have method : '\n' ∉ d.method.token.toList := by cases d.method <;> decide
  exact Text.notMem_append_cons method (by decide)
    (Text.notMem_append_cons noLf (by decide) (by decide))

theorem host_stated (d : Draft) (config : ClientConfig) (more : List (String × String)) :
    valuesOf ((d.freeFields config ++ more).map stripped) "Host" ≠ [] := by
  have blankless : ∀ c ∈ "Host".toList, isBlank c = false := Text.isBlank_of_any (by decide)
  have found : ∃ field ∈ d.freeFields config, sameName field.1 "Host" = true := by
    cases named : d.names "Host" with
    | true =>
        obtain ⟨field, member, same⟩ := List.any_eq_true.mp named
        have free : Fields.isReserved field.1 = false := Fields.isReserved_congr same
        refine ⟨field, List.mem_append_right _ (List.mem_filter.mpr ⟨?_, ?_⟩), same⟩
        · exact List.mem_append_right _ member
        · rw [free, Bool.not_false]
    | false =>
        refine ⟨("Host", config.address.text), List.mem_append_left _ ?_, sameName_refl "Host"⟩
        rw [hostField, named, if_neg Bool.false_ne_true]
        exact List.mem_singleton_self _
  obtain ⟨field, member, same⟩ := found
  refine Fields.valuesOf_ne_nil_iff.mpr ⟨stripped field, ?_, ?_⟩
  · exact List.mem_map_of_mem (List.mem_append_left _ member)
  · rwa [stripped, Fields.trimmed_of_blankless (blankless_of_sameName same blankless)]

theorem statable_sentFields (own : ∀ field ∈ d.fields, Statable field)
    (defaults : ∀ field ∈ config.defaults, Statable field) :
    ∀ field ∈ d.freeFields config ++ d.derivedFields, Statable field := by
  rw [List.forall_mem_append]
  refine ⟨fun field member => ?_, fun field member =>
    ((d.parted config).clean field member).statable⟩
  rcases List.mem_append.mp member with host | given
  · exact (clean_hostField host).statable
  · exact (mem_givenFields given).1.elim (defaults field) (own field)

/-- A server reads the head of a request in this way. -/
theorem owns (opens : d.Opens) (own : ∀ field ∈ d.fields, Statable field)
    (defaults : ∀ field ∈ config.defaults, Statable field) :
    Owns (d.freeFields config) d.derivedFields
      ((RequestHead.parse (d.head config)).map RequestHead.fields) := by
  have each := statable_sentFields own defaults
  obtain ⟨said, opened⟩ := opens.said
  have laid := Fields.laid_headOf (lf_notMem_firstLine opens.noLf) each
  rw [head_eq, sentFields_eq]
  refine (d.parted config).owns RequestHead.parses laid opened fun fields folds => ?_
  have named : fields.has "Host" = true :=
    (folds.has_iff "Host").mpr (d.host_stated config d.derivedFields)
  rw [RequestHead.close, named, Bool.not_true, Bool.and_false, if_neg Bool.false_ne_true]
  rfl

end Draft

/-- Off the head of a response and off that of a request the derived fields are read as they were
derived, if and only if no other field has a derived name with blanks around it, or only says the
derived length once more. Fields that have such a name count like derived ones, and where the content
lengths differ for it the head is refused. -/
theorem heads_owned (r : Response) (close : Bool) (d : Draft) (config : ClientConfig) :
    ((∀ field ∈ r.fields, Statable field) →
      Owns r.ownFields (r.derivedFields close)
        ((ResponseHead.parse (r.head close)).map ResponseHead.fields)) ∧
    (d.Opens → (∀ field ∈ d.fields, Statable field) →
      (∀ field ∈ config.defaults, Statable field) →
      Owns (d.freeFields config) d.derivedFields
        ((RequestHead.parse (d.head config)).map RequestHead.fields)) :=
  ⟨fun statable => Response.owns statable close,
    fun opens own defaults => Draft.owns opens own defaults⟩

/-- Fields with derived names, in any spelling, are not taken over. -/
theorem heads_owned_close :
    let r : Response := {
      status := .ok
      fields := [("content-length", "99"), ("Transfer-Encoding", "gzip"), ("X-Tag", "a")]
      body := .ofBytes [97, 98, 99] }
    let d : Draft := {
      method := .post
      target := "/items"
      fields := [("CONNECTION", "keep-alive"), ("X-Tag", "b")]
      body := .ofProducer (.script [.chunk [1]]) }
    (∃ fields, (ResponseHead.parse (r.head true)).map ResponseHead.fields = .ok fields ∧
      fields.find? "Content-Length" = some "3" ∧ fields.find? "transfer-encoding" = none ∧
      fields.find? "Connection" = some "close") ∧
    ∃ fields, (RequestHead.parse (d.head {})).map RequestHead.fields = .ok fields ∧
      fields.find? "Content-Length" = none ∧ fields.find? "transfer-encoding" = some "chunked" ∧
      fields.find? "Connection" = some "close" := by
  intro r d
  have harmless {own derived : List (String × String)}
      (none : ∀ field ∈ own, Fields.slips field = false) :
      ∀ field ∈ own, Fields.slips field = true → Fields.Harmless derived (stripped field) :=
    fun field member slip => absurd (slip.symm.trans (none field member)) (by decide)
  obtain ⟨response, request⟩ := heads_owned r true d {}
  constructor
  · have statable : ∀ field ∈ r.fields, Statable field := by decide +kernel
    have none : ∀ field ∈ r.ownFields, Fields.slips field = false := by
      have all : ∀ field ∈ r.fields, Fields.slips field = false := by decide +kernel
      exact fun field member => all field (Response.mem_ownFields.mp member).1
    obtain ⟨fields, read, owned⟩ := (response statable).owned.mpr (harmless none)
    refine ⟨fields, read, ?_, ?_, ?_⟩
    · rw [owned "Content-Length" (by decide)]
      decide +kernel
    · rw [owned "transfer-encoding" (by decide)]
      decide +kernel
    · rw [owned "Connection" (by decide)]
      decide +kernel
  · have opens : d.Opens := Draft.opens_of_sendable (by decide)
    have own : ∀ field ∈ d.fields, Statable field := by decide +kernel
    have defaults : ∀ field ∈ ({} : ClientConfig).defaults, Statable field := by decide +kernel
    have none : ∀ field ∈ d.freeFields {}, Fields.slips field = false := by decide +kernel
    obtain ⟨fields, read, owned⟩ := (request opens own defaults).owned.mpr (harmless none)
    refine ⟨fields, read, ?_, ?_, ?_⟩
    · rw [owned "Content-Length" (by decide)]
      decide
    · rw [owned "transfer-encoding" (by decide)]
      decide
    · rw [owned "Connection" (by decide)]
      decide

/-- A name with a blank in front of it is let through, and read as a content length. -/
theorem content_length_slips :
    ¬ ∀ (r : Response) (close : Bool), (∀ field ∈ r.fields, Statable field) →
      ∃ fields, (ResponseHead.parse (r.head close)).map ResponseHead.fields = .ok fields ∧
        Owned (r.derivedFields close) fields := by
  intro always
  let r : Response :=
    { status := .ok, fields := [(" Content-Length", "99")], body := .ofBytes [97, 98, 99] }
  obtain ⟨fields, read, _⟩ := always r true (by decide +kernel)
  have refused : (ResponseHead.parse (r.head true)).map ResponseHead.fields = .error .badField := by
    decide +kernel
  cases read.symm.trans refused

end HttpExchange
