import HttpExchange.Proofs.Head.Accepting
import HttpExchange.Proofs.Head.Spelling
import HttpExchange.Proofs.Text.Pieces
import HttpExchange.Proofs.Wire.Taking

/-!
What stands behind a head. A parser stops at the first empty line, but everything it is given has to
be text.
-/

namespace HttpExchange

variable {x h s front back : Bytes} {text : List Char} {ls more : List (List Char)}

/-- The first empty line of the bytes is their last line. -/
def BlankLast (h : Bytes) : Prop :=
  ∃ (lines : List Bytes) (ending : Bytes),
    (∀ line ∈ lines, ∃ text, Bytes.Line text line ∧ text ≠ []) ∧ Bytes.Line [] ending ∧
    h = lines.flatten ++ ending

/-- A head is read up to its blank line. -/
theorem blankLast_of_readHead {limit : Nat} {r r' : Reader} {c c' : Clock}
    (read : Wire.readHead limit r c = (.ok (some h), r', c')) : BlankLast h := by
  obtain ⟨⟨lines, ending, _, each, blank, whole⟩, _⟩ := Wire.readHead_takes read
  exact ⟨lines, ending, each, blank, whole⟩

theorem ended_flatten {lines : List Bytes} (each : ∀ line ∈ lines, ∃ text, Bytes.Line text line) :
    lines.flatten = [] ∨ ∃ front, lines.flatten = front ++ [Bytes.lf] := by
  rcases List.eq_nil_or_concat' lines with rfl | ⟨before, last, rfl⟩
  · exact .inl rfl
  · obtain ⟨_, isLine⟩ := each last (List.mem_append_right before List.mem_cons_self)
    obtain ⟨front, rfl, _⟩ := isLine.front
    exact .inr ⟨before.flatten ++ front, by simp⟩

theorem text_split (ended : front = [] ∨ ∃ line, front = line ++ [Bytes.lf])
    (encoded : front ++ back = Utf8.encodeChars text) :
    ∃ before behind, text = before ++ behind ∧ front = Utf8.encodeChars before ∧
      back = Utf8.encodeChars behind ∧ (before = [] ∨ before.getLast? = some '\n') := by
  rcases ended with rfl | ⟨line, rfl⟩
  · exact ⟨[], text, rfl, rfl, encoded, .inl rfl⟩
  · rw [List.append_assoc] at encoded
    obtain ⟨before, behind, rfl, rfl, rfl⟩ := Utf8.encodeChars_eq_append_lf encoded.symm
    refine ⟨before ++ ['\n'], behind, List.append_cons before '\n' behind, ?_, rfl, .inr ?_⟩
    · rw [Utf8.encodeChars_append]
      rfl
    · exact List.getLast?_concat

theorem lines_blank {ending : Bytes} (blank : Bytes.Line [] ending)
    (encoded : ending = Utf8.encodeChars text) : Text.lines text = [[]] := by
  have read := Utf8.decodeChars_eq_ok_iff.mpr encoded
  cases blank with
  | crlf =>
      cases read.symm.trans (Utf8.decodeChars_encodeChars ['\r', '\n'])
      rfl
  | bare =>
      cases read.symm.trans (Utf8.decodeChars_encodeChars ['\n'])
      rfl

theorem BlankLast.ended (last : BlankLast h) : ∃ front, h = front ++ [Bytes.lf] := by
  obtain ⟨lines, ending, _, blank, rfl⟩ := last
  obtain ⟨front, rfl, _⟩ := blank.front
  exact ⟨lines.flatten ++ front, (List.append_assoc _ _ _).symm⟩

theorem BlankLast.lines (last : BlankLast h) (encoded : h = Utf8.encodeChars text) :
    ∃ ls, Text.lines text = ls ++ [[]] := by
  obtain ⟨lines, ending, each, blank, rfl⟩ := last
  have lined : ∀ line ∈ lines, ∃ text, Bytes.Line text line := fun line member =>
    (each line member).imp fun _ isLine => isLine.1
  obtain ⟨before, behind, rfl, _, empty, ended⟩ := text_split (ended_flatten lined) encoded
  exact ⟨Text.lines before, by rw [Text.lines_append_of_ended ended, lines_blank blank empty]⟩

namespace Parses

variable {α β : Type} {parse : Bytes → Except HeadError α}
  {opening : List Char → Except HeadError β} {close : β → Fields → Except HeadError α}
  {notText : HeadError}

theorem readLines_append (parses : Parses parse opening close notText) (ls more : List (List Char)) :
    readLines opening close (ls ++ [] :: more) = readLines opening close (ls ++ [[]]) := by
  cases ls with
  | nil =>
      obtain ⟨e, refused⟩ := parses.blank
      rw [List.nil_append, List.nil_append, readLines, readLines, refused]
      rfl
  | cons first ls =>
      rw [List.cons_append, List.cons_append, readLines, readLines,
        Fields.ofLines_congr (Fields.block_append ls more)]

/-- Text behind the empty line makes no difference. -/
theorem append_text (parses : Parses parse opening close notText) (last : BlankLast h)
    (isText : Utf8.IsText s) : parse (h ++ s) = parse h := by
  by_cases whole : Utf8.IsText (h ++ s)
  · obtain ⟨text, encoded⟩ := whole
    obtain ⟨before, behind, rfl, rfl, rfl, ended⟩ := text_split (.inr last.ended) encoded
    obtain ⟨ls, lines⟩ := last.lines rfl
    calc parse (Utf8.encodeChars before ++ Utf8.encodeChars behind)
        = readLines opening close (ls ++ [] :: Text.lines behind) := by
          rw [encoded, parses.text, Text.lines_append_of_ended ended, lines, List.append_assoc,
            List.singleton_append]
      _ = readLines opening close (ls ++ [[]]) := parses.readLines_append ls (Text.lines behind)
      _ = parse (Utf8.encodeChars before) := by rw [← lines, ← parses.text]
  · have other : ¬ Utf8.IsText h := by
      rintro ⟨text, rfl⟩
      obtain ⟨behind, rfl⟩ := isText
      exact whole ⟨text ++ behind, (Utf8.encodeChars_append text behind).symm⟩
    rw [parses.notText _ whole, parses.notText _ other]

/-- Anything else there is looked at, and refused. -/
theorem append_not_text (parses : Parses parse opening close notText) (last : BlankLast h)
    (other : ¬ Utf8.IsText s) : parse (h ++ s) = .error notText := by
  refine parses.notText _ fun ⟨text, encoded⟩ => other ?_
  obtain ⟨_, behind, _, _, encoded, _⟩ := text_split (.inr last.ended) encoded
  exact ⟨behind, encoded⟩

end Parses

/-- Behind a head, whose first empty line is its last one, any text is ignored, whatever the parser
says of the head. Bytes that are no text make it refuse every head. -/
theorem parse_append (last : BlankLast h) (s : Bytes) :
    (Utf8.IsText s → RequestHead.parse (h ++ s) = RequestHead.parse h ∧
      ResponseHead.parse (h ++ s) = ResponseHead.parse h) ∧
    (¬ Utf8.IsText s → RequestHead.parse (h ++ s) = .error (.badRequestLine "Invalid UTF-8") ∧
      ResponseHead.parse (h ++ s) = .error (.badStatusLine "Invalid UTF-8")) := by
  refine ⟨fun isText => ⟨?_, ?_⟩, fun other => ⟨?_, ?_⟩⟩
  · exact RequestHead.parses.append_text last isText
  · exact ResponseHead.parses.append_text last isText
  · exact RequestHead.parses.append_not_text last other
  · exact ResponseHead.parses.append_not_text last other

theorem blankLast_get : BlankLast (Utf8.encode "GET / HTTP/1.1\r\nHost: h\r\n\r\n") := by
  let first := Utf8.encode "GET / HTTP/1.1"
  let second := Utf8.encode "Host: h"
  refine ⟨[first ++ Bytes.crlf, second ++ Bytes.crlf], Bytes.crlf, ?_, .crlf List.not_mem_nil, ?_⟩
  · rw [List.forall_mem_cons, List.forall_mem_singleton]
    exact ⟨⟨first, .crlf (by decide +kernel), by decide +kernel⟩,
      second, .crlf (by decide +kernel), by decide +kernel⟩
  · decide +kernel

theorem not_isText_ff : ¬ Utf8.IsText [0xff] := by
  rintro ⟨text, encoded⟩
  have refused : Utf8.decodeChars [0xff] = .error (.invalid 0 1) := by decide +kernel
  cases refused.symm.trans (Utf8.decodeChars_eq_ok_iff.mpr encoded)

theorem parse_append_get :
    BlankLast (Utf8.encode "GET / HTTP/1.1\r\nHost: h\r\n\r\n") ∧
    RequestHead.parse (Utf8.encode "GET / HTTP/1.1\r\nHost: h\r\n\r\n" ++ Utf8.encode "a: b") =
      .ok ⟨.get, "/", .http11, [("Host", "h")]⟩ ∧
    RequestHead.parse (Utf8.encode "GET / HTTP/1.1\r\nHost: h\r\n\r\n" ++ [0xff]) =
      .error (.badRequestLine "Invalid UTF-8") := by
  refine ⟨blankLast_get, ?_, ((parse_append blankLast_get [0xff]).2 not_isText_ff).1⟩
  obtain ⟨same, _⟩ := (parse_append blankLast_get (Utf8.encode "a: b")).1 ⟨_, rfl⟩
  rw [same]
  decide +kernel

/-- Not everything behind a head is ignored. -/
theorem trailing_byte_heeded :
    ¬ ∀ h s : Bytes, BlankLast h → RequestHead.parse (h ++ s) = RequestHead.parse h ∧
      ResponseHead.parse (h ++ s) = ResponseHead.parse h := by
  intro always
  obtain ⟨same, _⟩ := always (Utf8.encode "GET / HTTP/1.1\r\nHost: h\r\n\r\n") [0xff] blankLast_get
  revert same
  decide +kernel

end HttpExchange
