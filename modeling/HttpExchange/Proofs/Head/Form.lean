import HttpExchange.Proofs.Head.Accepting
import HttpExchange.Proofs.Text.Pieces

/-!
The form of a request head. What is accepted is said of the text alone: its lines, the words of the
first one, and the fields that the others state.
-/

namespace HttpExchange

open Fields (States Agree block valuesOf)

/-- How a version is spelled in a first line. The third one has two spellings. -/
inductive Version.Spelled : Version → String → Prop where
  | http10 : Spelled .http10 "HTTP/1.0"
  | http11 : Spelled .http11 "HTTP/1.1"
  | http2 : Spelled .http2 "HTTP/2"
  | http2Long : Spelled .http2 "HTTP/2.0"

theorem Version.parse_eq_ok_iff {text : String} {v : Version} :
    parse text = .ok v ↔ v.Spelled text := by
  constructor
  · intro read
    rw [parse] at read
    split at read
    · next same =>
        cases read
        exact same ▸ .http10
    split at read
    · next same =>
        cases read
        exact same ▸ .http11
    split at read
    · next same =>
        cases read
        rcases same with same | same
        · exact same ▸ .http2
        · exact same ▸ .http2Long
    · cases read
  · intro spelled
    cases spelled <;> simp [parse]

theorem Version.Spelled.http11_iff {text : String} {v : Version} (spelled : v.Spelled text) :
    v = .http11 ↔ text = "HTTP/1.1" := by
  cases spelled <;> decide

theorem Method.parse_eq_ok_iff {text : String} {m : Method} :
    parse text = .ok m ↔ text = m.token := by
  rw [parse, ← ofToken?_eq_some_iff]
  cases found : ofToken? text with
  | none => exact ⟨nofun, nofun⟩
  | some m' => rw [Except.ok.injEq, Option.some.injEq]

namespace RequestHead

variable {x : Bytes} {text first : List Char} {method target version : String}
  {given : List (String × String)} {head : RequestHead} {m : Method} {v : Version}

/-- A target is a path from the root, or it stands for the server as a whole. -/
def Target (target : String) : Prop := (∃ path, target.toList = '/' :: path) ∨ target = "*"

theorem isTarget_iff : isTarget target.toList = true ↔ Target target := by
  rw [isTarget, Target, Bool.or_eq_true, beq_iff_eq, beq_iff_eq, List.head?_eq_some_iff]
  refine or_congr Iff.rfl ?_
  rw [← String.toList_inj]
  rfl

/-- The text of a request head: three words in the first line, which are a method, a target and a
version, and behind it lines that state these fields, up to the first empty one. Their content
lengths agree, and a host is among them where the version requires one. -/
structure Form (text : List Char) (method target version : String)
    (given : List (String × String)) : Prop where
  lines : ∃ first rest, Text.Lined text (first :: rest) ∧
    Text.Worded first [method.toList, target.toList, version.toList] ∧
    List.Forall₂ States (block rest) given
  known : ∃ m : Method, m.token = method
  aim : Target target
  spelled : ∃ v : Version, v.Spelled version
  agree : Agree given
  host : version = "HTTP/1.1" → ∃ field ∈ given, sameName field.1 "Host" = true

def Documented (x : Bytes) (method target version : String) : Prop :=
  ∃ text given, x = Utf8.encodeChars text ∧ Form text method target version given

theorem opening_eq_ok_iff : opening first = .ok (m, target, v) ↔
    ∃ version, v.Spelled version ∧ Target target ∧
      Text.Worded first [m.token.toList, target.toList, version.toList] := by
  constructor
  · intro said
    unfold opening at said
    split at said
    · next method target' version words =>
        simp only [bind, Except.bind, pure, Except.pure, throw, throwThe,
          MonadExceptOf.throw] at said
        rcases known : Method.parse (String.ofList method) with e | m'
        · simp only [known, reduceCtorEq] at said
        rcases aim : isTarget target'
        · simp only [known, aim, Bool.not_false, if_true, reduceCtorEq] at said
        simp only [known, aim, Bool.not_true, Bool.false_eq_true, if_false] at said
        rcases spelled : Version.parse (String.ofList version) with e | v'
        · simp only [spelled, reduceCtorEq] at said
        simp only [spelled] at said
        cases said
        refine ⟨String.ofList version, Version.parse_eq_ok_iff.mp spelled, ?_, ?_⟩
        · rwa [← isTarget_iff, String.toList_ofList]
        · rw [← Method.parse_eq_ok_iff.mp known, String.toList_ofList, String.toList_ofList,
            String.toList_ofList]
          exact Text.words_eq_iff.mp words
    · cases said
  · rintro ⟨version, spelled, aim, words⟩
    rw [opening, Text.words_eq_iff.mpr words]
    simp only [String.ofList_toList, Method.parse_eq_ok_iff.mpr rfl, isTarget_iff.mpr aim,
      Version.parse_eq_ok_iff.mpr spelled]
    rfl

theorem documented_of_parse (parsed : parse x = .ok head) :
    ∃ version, head.version.Spelled version ∧
      Documented x head.method.token head.target version := by
  obtain ⟨first, given, laid⟩ := laid_of_parse parsed
  obtain ⟨said, folds, named⟩ := parse_laid laid parsed
  obtain ⟨version, spelled, aim, words⟩ := opening_eq_ok_iff.mp said
  obtain ⟨text, rest, encoded, lines, states⟩ := laid
  refine ⟨version, spelled, text, given, encoded, ?_, ⟨head.method, rfl⟩, aim,
    ⟨head.version, spelled⟩, folds.agree, ?_⟩
  · exact ⟨first, rest, Text.lines_eq_iff.mp lines, words, states⟩
  · intro one
    exact Fields.valuesOf_ne_nil_iff.mp (named (spelled.http11_iff.mpr one))

theorem parse_of_documented (documented : Documented x method target version) :
    ∃ head, parse x = .ok head ∧ head.method.token = method ∧ head.target = target ∧
      head.version.Spelled version := by
  obtain ⟨text, given, encoded, form⟩ := documented
  obtain ⟨first, rest, lines, words, states⟩ := form.lines
  obtain ⟨m, rfl⟩ := form.known
  obtain ⟨v, spelled⟩ := form.spelled
  have laid : Laid x first given := ⟨text, rest, encoded, Text.lines_eq_iff.mpr lines, states⟩
  have said := opening_eq_ok_iff.mpr ⟨version, spelled, form.aim, words⟩
  obtain ⟨fields, parsed, _⟩ := parse_of_opening laid said form.agree fun one =>
    Fields.valuesOf_ne_nil_iff.mpr (form.host (spelled.http11_iff.mp one))
  exact ⟨_, parsed, rfl, rfl, spelled⟩

/-- A request head is accepted if and only if it has the documented form. Method and target are then
two of the words of its first line, as they stand there, and the version is the one that the third
word spells. -/
theorem parse_accepts (x : Bytes) :
    ((∃ head, parse x = .ok head) ↔
        ∃ method target version, Documented x method target version) ∧
      ∀ head method target version, parse x = .ok head → Documented x method target version →
        head.method.token = method ∧ head.target = target ∧ head.version.Spelled version := by
  refine ⟨⟨?_, ?_⟩, ?_⟩
  · rintro ⟨head, parsed⟩
    obtain ⟨version, _, documented⟩ := documented_of_parse parsed
    exact ⟨head.method.token, head.target, version, documented⟩
  · rintro ⟨method, target, version, documented⟩
    obtain ⟨head, parsed, _⟩ := parse_of_documented documented
    exact ⟨head, parsed⟩
  · intro head method target version parsed documented
    obtain ⟨head', parsed', words⟩ := parse_of_documented documented
    cases parsed.symm.trans parsed'
    exact words

theorem parse_accepts_options :
    Documented (Utf8.encode "OPTIONS * HTTP/1.1\r\nHost: h\r\n\r\n") "OPTIONS" "*" "HTTP/1.1" := by
  let x := Utf8.encode "OPTIONS * HTTP/1.1\r\nHost: h\r\n\r\n"
  have parsed : parse x = .ok ⟨.options, "*", .http11, [("Host", "h")]⟩ := by decide +kernel
  obtain ⟨accepted, words⟩ := parse_accepts x
  obtain ⟨method, target, version, documented⟩ := accepted.mp ⟨_, parsed⟩
  obtain ⟨rfl, rfl, spelled⟩ := words _ method target version parsed documented
  rwa [spelled.http11_iff.mp rfl] at documented

/-- The version does not keep its spelling: the third one has two, and is written in one of them. -/
theorem version_respelled :
    ¬ ∀ x : Bytes, ((∃ head, parse x = .ok head) ↔
        ∃ method target version, Documented x method target version) ∧
      ∀ head method target version, parse x = .ok head → Documented x method target version →
        head.method.token = method ∧ head.target = target ∧ head.version.token = version := by
  intro always
  let text := "GET / HTTP/2.0\r\n\r\n".toList
  let head : RequestHead := ⟨.get, "/", .http2, []⟩
  have parsed : parse (Utf8.encodeChars text) = .ok head := by decide +kernel
  have documented : Documented (Utf8.encodeChars text) "GET" "/" "HTTP/2.0" := by
    refine ⟨text, [], rfl, ?_, ⟨.get, rfl⟩, .inl ⟨[], rfl⟩, ⟨.http2, .http2Long⟩, nofun, by decide⟩
    refine ⟨"GET / HTTP/2.0".toList, [[]], ?_, ?_, .nil⟩
    · exact Text.lines_eq_iff.mp (by decide +kernel)
    · exact Text.words_eq_iff.mp (by decide +kernel)
  obtain ⟨_, _, kept⟩ := (always (Utf8.encodeChars text)).2 head _ _ _ parsed documented
  exact absurd kept (by decide)

end RequestHead

end HttpExchange
