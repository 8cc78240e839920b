import HttpExchange.Head.Request
import HttpExchange.Head.Response
import HttpExchange.Proofs.Head.Fields
import HttpExchange.Proofs.Text.Numeral

/-!
Heads are read back from their lines: what the first line says, and under each name the values of
its lines.
-/

namespace HttpExchange

namespace ResponseHead

def firstLine (s : Status) : List Char := "HTTP/1.1".toList ++ ' ' :: s.line.toList

theorem toList_line (s : Status) :
    s.line.toList = Numeral.write 10 s.code ++ ' ' :: s.reason.toList := by
  rw [Status.line, Numeral.decimal, String.toList_append, String.toList_append,
    String.toList_ofList, List.append_assoc]
  rfl

theorem firstLine_eq (s : Status) : firstLine s =
    "HTTP/1.1".toList ++ ' ' :: (Numeral.write 10 s.code ++ ' ' :: s.reason.toList) :=
  congrArg (fun line => "HTTP/1.1".toList ++ ' ' :: line) (toList_line s)

theorem headLine_firstLine (s : Status) : Wire.HeadLine (firstLine s) := by
  have inside {c : Char} (blank : isBlank c = true) (apart : c ≠ ' ')
      (version : c ∉ "HTTP/1.1".toList) (reason : c ∉ s.reason.toList) : c ∉ firstLine s := by
    rw [firstLine_eq]
    exact Text.notMem_append_cons version apart
      (Text.notMem_append_cons (Numeral.notMem_write_of_isBlank blank s.code) apart reason)
  have reason : '\r' ∉ s.reason.toList ∧ '\n' ∉ s.reason.toList := by cases s <;> decide
  refine ⟨List.append_ne_nil_of_right_ne_nil _ (List.cons_ne_nil _ _), ?_, ?_⟩
  · exact inside (by decide) (by decide) (by decide) reason.1
  · exact inside (by decide) (by decide) (by decide) reason.2

theorem parseStatus_code (s : Status) : parseStatus (Numeral.write 10 s.code) = .ok s.code := by
  have range : 100 ≤ s.code ∧ s.code < 1000 ∧ s.code < Numeral.bound16 := by cases s <;> decide
  have size : (Utf8.encodeChars (Numeral.write 10 s.code)).length = 3 := by
    rw [Utf8.length_encodeChars_of_ascii fun c member =>
      Numeral.ascii_of_mem_write (by decide) (by decide) member]
    exact Numeral.length_write_hundreds range.1 range.2.1
  rw [parseStatus, size, if_neg (by decide),
    Numeral.read_write (by decide) (by decide) range.2.2]

theorem trim_reason (s : Status) : Text.trim s.reason.toList = s.reason.toList := by
  cases s <;> decide

theorem parse_headOf (s : Status) {given : List (String × String)}
    (writable : ∀ field ∈ given, Fields.Writable field)
    (single : (Fields.valuesOf (given.map Fields.received) Fields.contentLength).length ≤ 1) :
    ∃ fields, parse (Wire.headOf (firstLine s :: given.map Fields.lineOf)) =
        .ok ⟨.http11, s.code, s.reason, fields⟩ ∧
      ∀ n, Fields.find? fields n = Fields.joined (Fields.valuesOf (given.map Fields.received) n) := by
  have each := Fields.headLines (headLine_firstLine s) writable
  obtain ⟨fields, read, spec⟩ :=
    Fields.ofLines_lineOf (fun field member => (writable field member).name) single
  refine ⟨fields, ?_, spec⟩
  have version : Text.cut ' ' (firstLine s) = some ("HTTP/1.1".toList, s.line.toList) :=
    Text.cut_append (by decide) s.line.toList
  have digits : ' ' ∉ Numeral.write 10 s.code :=
    Numeral.notMem_write_of_isBlank (by decide) s.code
  have status : Text.cut ' ' s.line.toList = some (Numeral.write 10 s.code, s.reason.toList) := by
    rw [toList_line]
    exact Text.cut_append digits s.reason.toList
  rw [parse, Wire.headOf, Utf8.decodeChars_encodeChars]
  simp only [Wire.lines_headText fun line member => (each line member).noLf]
  rw [List.cons_append, ofLines, version]
  simp only [status, Option.getD_some, String.ofList_toList, trim_reason, parseStatus_code, read]
  rw [show Version.parse "HTTP/1.1" = .ok .http11 from Version.parse_token .http11]
  rfl

end ResponseHead

namespace RequestHead

def firstLine (m : Method) (target : String) : List Char :=
  m.token.toList ++ ' ' :: (target.toList ++ ' ' :: "HTTP/1.1".toList)

/-- A target that may be sent: absolute or standing for the server as a whole, and one word. -/
structure Sendable (target : String) : Prop where
  form : isTarget target.toList = true
  blankless : ∀ c ∈ target.toList, isBlank c = false

instance (target : String) : Decidable (Sendable target) :=
  decidable_of_iff (isTarget target.toList = true ∧ target.toList.any isBlank = false)
    ⟨fun one => ⟨one.1, Text.isBlank_of_any one.2⟩, fun one => ⟨one.form,
      List.any_eq_false.mpr fun c member => Bool.eq_false_iff.mp (one.blankless c member)⟩⟩

theorem Sendable.some {target : String} (sendable : Sendable target) : target.toList ≠ [] := by
  intro none
  have form := sendable.form
  rw [none] at form
  exact absurd form (by decide)

theorem token_some (m : Method) : m.token.toList ≠ [] := by
  cases m <;> decide

theorem token_blankless (m : Method) : ∀ c ∈ m.token.toList, isBlank c = false := by
  apply Text.isBlank_of_any
  cases m <;> decide

theorem words_firstLine (m : Method) {target : String} (sendable : Sendable target) :
    Text.words (firstLine m target) = [m.token.toList, target.toList, "HTTP/1.1".toList] := by
  rw [firstLine, Text.words_append (token_some m) (token_blankless m) (by decide),
    Text.words_append sendable.some sendable.blankless (by decide),
    Text.words_eq_self (by decide) (Text.isBlank_of_any (by decide))]

theorem headLine_firstLine (m : Method) {target : String} (sendable : Sendable target) :
    Wire.HeadLine (firstLine m target) := by
  have inside {c : Char} (blank : isBlank c = true) (apart : c ≠ ' ')
      (version : c ∉ "HTTP/1.1".toList) : c ∉ firstLine m target := by
    have first : c ∉ m.token.toList := fun member =>
      absurd (blank.symm.trans (token_blankless m c member)) (by decide)
    have second : c ∉ target.toList := fun member =>
      absurd (blank.symm.trans (sendable.blankless c member)) (by decide)
    exact Text.notMem_append_cons first apart (Text.notMem_append_cons second apart version)
  refine ⟨List.append_ne_nil_of_left_ne_nil (token_some m) _, ?_, ?_⟩
  · exact inside (by decide) (by decide) (by decide)
  · exact inside (by decide) (by decide) (by decide)

theorem parse_headOf (m : Method) {target : String} (sendable : Sendable target)
    {given : List (String × String)} (writable : ∀ field ∈ given, Fields.Writable field)
    (single : (Fields.valuesOf (given.map Fields.received) Fields.contentLength).length ≤ 1)
    (host : Fields.valuesOf (given.map Fields.received) "Host" ≠ []) :
    ∃ fields, parse (Wire.headOf (firstLine m target :: given.map Fields.lineOf)) =
        .ok ⟨m, target, .http11, fields⟩ ∧
      ∀ n, Fields.find? fields n = Fields.joined (Fields.valuesOf (given.map Fields.received) n) := by
  have each := Fields.headLines (headLine_firstLine m sendable) writable
  obtain ⟨fields, read, spec⟩ :=
    Fields.ofLines_lineOf (fun field member => (writable field member).name) single
  refine ⟨fields, ?_, spec⟩
  have named : fields.has "Host" = true := by
    rw [Fields.has, spec, Option.isSome_iff_ne_none, ne_eq, Fields.joined_eq_none]
    exact host
  have method : Method.parse m.token = .ok m := by rw [Method.parse, Method.ofToken?_token]
  rw [parse, Wire.headOf, Utf8.decodeChars_encodeChars]
  simp only [Wire.lines_headText fun line member => (each line member).noLf]
  rw [List.cons_append, ofLines, words_firstLine m sendable]
  have version : Version.parse "HTTP/1.1" = .ok .http11 := Version.parse_token .http11
  simp only [String.ofList_toList, method, sendable.form, version, read, bind, Except.bind,
    Bool.not_true, Bool.false_eq_true, if_false, named, Bool.and_false]
  rfl

end RequestHead

end HttpExchange
