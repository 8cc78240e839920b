import HttpExchange.Head.Request
import HttpExchange.Head.Response
import HttpExchange.Proofs.Head.Folding
import HttpExchange.Proofs.Text.Utf8

/-!
Which heads are accepted. The first line says what it has to, every line up to the first empty one
states a field, the content lengths among them agree, and a request of version 1.1 names its host.
-/

namespace HttpExchange

open Fields (States Agree Folds block valuesOf)

/-- The bytes are the text of a head with this first line, and behind it lines that state these
fields, up to the first empty one. -/
def Laid (x : Bytes) (first : List Char) (given : List (String × String)) : Prop :=
  ∃ text rest, x = Utf8.encodeChars text ∧ Text.lines text = first :: rest ∧
    List.Forall₂ States (block rest) given

variable {x : Bytes} {first : List Char} {rest : List (List Char)}
  {given : List (String × String)} {fields : Fields}

theorem Laid.unique {first' : List Char} {given' : List (String × String)}
    (one : Laid x first given) (two : Laid x first' given') : first = first' ∧ given = given' := by
  obtain ⟨text, rest, rfl, lines, states⟩ := one
  obtain ⟨text', rest', same, lines', states'⟩ := two
  have decoded := Utf8.decodeChars_encodeChars text
  rw [same, Utf8.decodeChars_encodeChars] at decoded
  cases decoded
  cases lines.symm.trans lines'
  exact ⟨rfl, Fields.forall₂_states_unique states states'⟩

theorem laid_encodeChars {text : List Char} (rest : List (List Char))
    (lines : Text.lines text = first :: rest)
    (read : (block rest).map Fields.splitLine = given.map .ok) :
    Laid (Utf8.encodeChars text) first given :=
  ⟨text, rest, rfl, lines, Fields.forall₂_states read⟩

theorem Laid.tidy (laid : Laid x first given) {n : String} :
    ∀ value ∈ valuesOf given n, Fields.trimmed value = value := by
  obtain ⟨_, _, _, _, states⟩ := laid
  exact Fields.tidy_of_states states n

section

variable {α β : Type} {parse : Bytes → Except HeadError α}
  {opening : List Char → Except HeadError β} {close : β → Fields → Except HeadError α}
  {notText : HeadError} {head : α}

/-- A head from its lines. The first one is looked at before the others, which are folded. -/
def readLines (opening : List Char → Except HeadError β)
    (close : β → Fields → Except HeadError α) : List (List Char) → Except HeadError α
  | [] => .error .empty
  | first :: rest => (opening first).bind fun said => (Fields.ofLines rest).bind (close said)

theorem readLines_eq_ok_iff : readLines opening close (first :: rest) = .ok head ↔
    ∃ said fields, opening first = .ok said ∧ Fields.ofLines rest = .ok fields ∧
      close said fields = .ok head := by
  rw [readLines]
  rcases opening first with e | said
  · exact ⟨nofun, nofun⟩
  rcases Fields.ofLines rest with e | fields
  · exact ⟨nofun, nofun⟩
  constructor
  · intro closed
    exact ⟨said, fields, rfl, rfl, closed⟩
  · rintro ⟨_, _, ⟨⟩, ⟨⟩, closed⟩
    exact closed

/-- Heads are parsed by their lines if they are text, and refused otherwise. A head that begins with
an empty line is refused for it. -/
structure Parses (parse : Bytes → Except HeadError α) (opening : List Char → Except HeadError β)
    (close : β → Fields → Except HeadError α) (notText : HeadError) : Prop where
  text : ∀ text, parse (Utf8.encodeChars text) = readLines opening close (Text.lines text)
  notText : ∀ x, ¬ Utf8.IsText x → parse x = .error notText
  blank : ∃ e, opening [] = .error e

namespace Parses

theorem laid (parses : Parses parse opening close notText) (parsed : parse x = .ok head) :
    ∃ first given, Laid x first given := by
  by_cases isText : Utf8.IsText x
  · obtain ⟨text, rfl⟩ := isText
    rw [parses.text] at parsed
    cases lines : Text.lines text with
    | nil =>
        rw [lines] at parsed
        cases parsed
    | cons first rest =>
        rw [lines] at parsed
        obtain ⟨_, _, _, read, _⟩ := readLines_eq_ok_iff.mp parsed
        obtain ⟨given, states, _⟩ := Fields.states_of_ofLines read
        exact ⟨first, given, text, rest, rfl, lines, states⟩
  · rw [parses.notText x isText] at parsed
    cases parsed

theorem said (parses : Parses parse opening close notText) (laid : Laid x first given)
    (parsed : parse x = .ok head) :
    ∃ said fields, opening first = .ok said ∧ Folds given fields ∧ close said fields = .ok head := by
  obtain ⟨text, rest, rfl, lines, states⟩ := laid
  rw [parses.text, lines] at parsed
  obtain ⟨said, fields, opened, read, closed⟩ := readLines_eq_ok_iff.mp parsed
  obtain ⟨given', states', folds⟩ := Fields.states_of_ofLines read
  cases Fields.forall₂_states_unique states states'
  exact ⟨said, fields, opened, folds, closed⟩

theorem of_agree (parses : Parses parse opening close notText) (laid : Laid x first given)
    {said : β} (opened : opening first = .ok said) (agree : Agree given) :
    ∃ fields, Folds given fields ∧ parse x = close said fields := by
  obtain ⟨text, rest, rfl, lines, states⟩ := laid
  obtain ⟨fields, read, folds⟩ := Fields.ofLines_of_agree states agree
  refine ⟨fields, folds, ?_⟩
  rw [parses.text, lines, readLines, opened, read]
  rfl

theorem of_refused (parses : Parses parse opening close notText) (laid : Laid x first given)
    {e : HeadError} (refused : opening first = .error e) : parse x = .error e := by
  obtain ⟨text, rest, rfl, lines, states⟩ := laid
  rw [parses.text, lines, readLines, refused]
  rfl

theorem of_not_agree (parses : Parses parse opening close notText) (laid : Laid x first given)
    {said : β} (opened : opening first = .ok said) (differ : ¬ Agree given) :
    parse x = .error .badField := by
  obtain ⟨text, rest, rfl, lines, states⟩ := laid
  rw [parses.text, lines, readLines, opened, Fields.ofLines_of_not_agree states differ]
  rfl

/-- A head whose content lengths differ is refused for them, or for its first line whatever
follows. -/
theorem refused_of_not_agree (parses : Parses parse opening close notText)
    (laid : Laid x first given) (differ : ¬ Agree given) :
    ∃ e, parse x = .error e ∧
      (e = .badField ∨ ∀ y given', Laid y first given' → parse y = .error e) := by
  rcases opened : opening first with e | said
  · refine ⟨e, parses.of_refused laid opened, .inr fun y given' laid' => ?_⟩
    exact parses.of_refused laid' opened
  · exact ⟨.badField, parses.of_not_agree laid opened differ, .inl rfl⟩

end Parses

end

namespace RequestHead

variable {head : RequestHead} {said : Method × String × Version}

def opening (first : List Char) : Except HeadError (Method × String × Version) :=
  match Text.words first with
  | [method, target, version] => do
    let method ← Method.parse (String.ofList method)
    if !isTarget target then throw .badTarget
    let version ← Version.parse (String.ofList version)
    return (method, String.ofList target, version)
  | _ => .error (.badRequestLine (String.ofList first))

def close (said : Method × String × Version) (fields : Fields) : Except HeadError RequestHead :=
  if said.2.2 == .http11 && !fields.has "Host" then .error (.missingField "Host")
  else .ok ⟨said.1, said.2.1, said.2.2, fields⟩

theorem ofLines_cons (first : List Char) (rest : List (List Char)) :
    ofLines (first :: rest) =
      (opening first).bind fun said => (Fields.ofLines rest).bind (close said) := by
  rw [ofLines, opening]
  rcases Text.words first with _ | ⟨method, _ | ⟨target, _ | ⟨version, _ | _⟩⟩⟩
  case cons.cons.cons.nil =>
    simp only [bind, Except.bind, pure, Except.pure, throw, throwThe, MonadExceptOf.throw]
    rcases Method.parse (String.ofList method) with e | m
    · rfl
    cases isTarget target with
    | false => rfl
    | true =>
        rcases Version.parse (String.ofList version) with e | v
        · rfl
        rcases Fields.ofLines rest with e | fields
        · rfl
        cases refused : v == .http11 && !fields.has "Host" <;>
          simp only [Bool.not_true, Bool.false_eq_true, if_false, if_true, refused, close]
  all_goals rfl

theorem ofLines_eq (lines : List (List Char)) : ofLines lines = readLines opening close lines := by
  cases lines with
  | nil => rfl
  | cons first rest => exact ofLines_cons first rest

theorem parses : Parses parse opening close (.badRequestLine "Invalid UTF-8") := by
  refine ⟨fun text => ?_, fun x other => ?_, _, rfl⟩
  · rw [parse, Utf8.decodeChars_encodeChars]
    exact ofLines_eq _
  · obtain ⟨e, refused⟩ := Utf8.decodeChars_of_not_isText other
    rw [parse, refused]

theorem close_eq_ok_iff : close said fields = .ok head ↔
    said = (head.method, head.target, head.version) ∧ fields = head.fields ∧
      (head.version = .http11 → head.fields.has "Host" = true) := by
  obtain ⟨method, target, version, found⟩ := head
  obtain ⟨m, t, v⟩ := said
  rw [close]
  constructor
  · intro accepted
    split at accepted
    · cases accepted
    · next named =>
        cases accepted
        refine ⟨rfl, rfl, ?_⟩
        rintro rfl
        simpa using named
  · rintro ⟨⟨⟩, rfl, named⟩
    rw [if_neg]
    simpa using named

theorem parse_laid (laid : Laid x first given) (parsed : parse x = .ok head) :
    opening first = .ok (head.method, head.target, head.version) ∧ Folds given head.fields ∧
      (head.version = .http11 → valuesOf given "Host" ≠ []) := by
  obtain ⟨said, fields, opened, folds, closed⟩ := parses.said laid parsed
  obtain ⟨rfl, rfl, named⟩ := close_eq_ok_iff.mp closed
  exact ⟨opened, folds, fun version => (folds.has_iff "Host").mp (named version)⟩

theorem laid_of_parse (parsed : parse x = .ok head) : ∃ first given, Laid x first given :=
  parses.laid parsed

theorem refused_of_not_agree (laid : Laid x first given) (differ : ¬ Agree given) :
    ∃ e, parse x = .error e ∧
      (e = .badField ∨ ∀ y given', Laid y first given' → parse y = .error e) :=
  parses.refused_of_not_agree laid differ

theorem parse_of_opening (laid : Laid x first given) {method : Method} {target : String}
    {version : Version} (said : opening first = .ok (method, target, version))
    (agree : Agree given) (named : version = .http11 → valuesOf given "Host" ≠ []) :
    ∃ fields, parse x = .ok ⟨method, target, version, fields⟩ ∧ Folds given fields := by
  obtain ⟨fields, folds, parsed⟩ := parses.of_agree laid said agree
  refine ⟨fields, parsed.trans (close_eq_ok_iff.mpr ⟨rfl, rfl, fun one => ?_⟩), folds⟩
  exact (folds.has_iff "Host").mpr (named one)

end RequestHead

namespace ResponseHead

variable {head : ResponseHead}

def opening (first : List Char) : Except HeadError (Version × Nat × String) :=
  match Text.cut ' ' first with
  | none => .error (.badStatusLine (String.ofList first))
  | some (version, tail) => do
    let (status, reason) := (Text.cut ' ' tail).getD (tail, [])
    let version ← Version.parse (String.ofList version)
    let status ← parseStatus status
    return (version, status, String.ofList (Text.trim reason))

def close (said : Version × Nat × String) (fields : Fields) : Except HeadError ResponseHead :=
  .ok ⟨said.1, said.2.1, said.2.2, fields⟩

theorem ofLines_cons (first : List Char) (rest : List (List Char)) :
    ofLines (first :: rest) =
      (opening first).bind fun said => (Fields.ofLines rest).bind (close said) := by
  rw [ofLines, opening]
  rcases Text.cut ' ' first with _ | ⟨version, tail⟩
  · rfl
  · simp only [bind, Except.bind, pure, Except.pure]
    rcases Version.parse (String.ofList version) with e | v
    · rfl
    rcases parseStatus ((Text.cut ' ' tail).getD (tail, [])).1 with e | status
    · rfl
    rcases Fields.ofLines rest with e | fields <;> rfl

theorem ofLines_eq (lines : List (List Char)) : ofLines lines = readLines opening close lines := by
  cases lines with
  | nil => rfl
  | cons first rest => exact ofLines_cons first rest

theorem parses : Parses parse opening close (.badStatusLine "Invalid UTF-8") := by
  refine ⟨fun text => ?_, fun x other => ?_, _, rfl⟩
  · rw [parse, Utf8.decodeChars_encodeChars]
    exact ofLines_eq _
  · obtain ⟨e, refused⟩ := Utf8.decodeChars_of_not_isText other
    rw [parse, refused]

theorem parse_laid (laid : Laid x first given) (parsed : parse x = .ok head) :
    opening first = .ok (head.version, head.status, head.reason) ∧ Folds given head.fields := by
  obtain ⟨said, fields, opened, folds, closed⟩ := parses.said laid parsed
  cases closed
  exact ⟨opened, folds⟩

theorem laid_of_parse (parsed : parse x = .ok head) : ∃ first given, Laid x first given :=
  parses.laid parsed

theorem refused_of_not_agree (laid : Laid x first given) (differ : ¬ Agree given) :
    ∃ e, parse x = .error e ∧
      (e = .badField ∨ ∀ y given', Laid y first given' → parse y = .error e) :=
  parses.refused_of_not_agree laid differ

theorem parse_of_opening (laid : Laid x first given) {version : Version} {status : Nat}
    {reason : String} (said : opening first = .ok (version, status, reason))
    (agree : Agree given) :
    ∃ fields, parse x = .ok ⟨version, status, reason, fields⟩ ∧ Folds given fields := by
  obtain ⟨fields, folds, parsed⟩ := parses.of_agree laid said agree
  exact ⟨fields, parsed, folds⟩

end ResponseHead

end HttpExchange
