import HttpExchange.Proofs.Framing
import HttpExchange.Proofs.Head.Parse
import HttpExchange.Server.Connection

/-!
The head of a response and what a client makes of it. Whatever the handler set, the client takes
the framing from it that the server sends the body with.
-/

namespace HttpExchange.Response

variable {r : Response}

/-- The fields of the handler as they are sent: all that are not derived, in the order of their
lines. -/
def ownFields (r : Response) : List (String × String) :=
  (r.fields.filter fun field => !Fields.isReserved field.1).mergeSort fun a b =>
    Bytes.le (Utf8.encode (Fields.writeLine a.1 a.2)) (Utf8.encode (Fields.writeLine b.1 b.2))

/-- The field that announces the body, where the status allows one. -/
def announced (r : Response) : List (String × String) :=
  if r.status.forbidsBody then [] else r.body.framing.field?.toList

/-- The field that announces the end of the connection. -/
def closing (close : Bool) : List (String × String) :=
  if close then [(Fields.connection, "close")] else []

def sentFields (r : Response) (close : Bool) : List (String × String) :=
  r.ownFields ++ (r.announced ++ closing close)

theorem perm_ownFields (r : Response) :
    r.ownFields.Perm (r.fields.filter fun field => !Fields.isReserved field.1) :=
  List.mergeSort_perm _ _

theorem mem_ownFields {field : String × String} :
    field ∈ r.ownFields ↔ field ∈ r.fields ∧ Fields.isReserved field.1 = false := by
  rw [r.perm_ownFields.mem_iff, List.mem_filter, Bool.not_eq_true']

theorem flatMap_ownFields (r : Response) :
    r.ownFields.flatMap (fun field => Utf8.encode (Fields.writeLine field.1 field.2)) =
      r.fieldLines.flatten := by
  rw [ownFields, fieldLines, List.flatMap_def]
  congr 1
  exact List.map_mergeSort fun _ _ _ _ => rfl

theorem toList_statusLine (line : String) : ("HTTP/1.1 " ++ line ++ "\r\n").toList =
    ("HTTP/1.1".toList ++ ' ' :: line.toList) ++ ['\r', '\n'] := by
  rw [String.toList_append, String.toList_append]
  rfl

theorem head_eq (r : Response) (close : Bool) : r.head close =
    Wire.headOf (ResponseHead.firstLine r.status :: (r.sentFields close).map Fields.lineOf) := by
  have first : Utf8.encode ("HTTP/1.1 " ++ r.status.line ++ "\r\n") =
      Utf8.encodeChars (ResponseHead.firstLine r.status ++ ['\r', '\n']) :=
    congrArg Utf8.encodeChars (toList_statusLine r.status.line)
  have framing : r.announced.flatMap (fun field => Utf8.encode (Fields.writeLine field.1 field.2)) =
      r.framingLine := by
    rw [announced, framingLine]
    cases r.status.forbidsBody with
    | true => rfl
    | false => exact Framing.flatMap_field r.body.framing
  have ending : (closing close).flatMap
      (fun field => Utf8.encode (Fields.writeLine field.1 field.2)) = closeLine close := by
    cases close with
    | true => exact List.append_nil _
    | false => rfl
  rw [Fields.headOf_lineOf, sentFields, List.flatMap_append, List.flatMap_append, framing, ending,
    flatMap_ownFields, head, first, ← List.append_assoc, ← List.append_assoc]

theorem writable_sentFields (writable : ∀ field ∈ r.fields, Fields.Writable field) (close : Bool) :
    ∀ field ∈ r.sentFields close, Fields.Writable field := by
  intro field member
  rw [sentFields, List.mem_append, List.mem_append] at member
  rcases member with own | derived | ending
  · exact writable field (mem_ownFields.mp own).1
  · rw [announced] at derived
    split at derived
    · exact absurd derived List.not_mem_nil
    · exact (Framing.clean_field derived).toWritable
  · rw [closing] at ending
    split at ending
    · cases List.mem_singleton.mp ending
      exact Fields.clean_close.toWritable
    · exact absurd ending List.not_mem_nil

theorem reserved_of_announced {field : String × String} (member : field ∈ r.announced) :
    Fields.isReserved field.1 = true := by
  rw [announced] at member
  split at member
  · exact absurd member List.not_mem_nil
  · exact Framing.reserved_of_field member

theorem reserved_of_closing {close : Bool} {field : String × String}
    (member : field ∈ closing close) : Fields.isReserved field.1 = true := by
  cases close with
  | true =>
      cases List.mem_singleton.mp member
      decide
  | false => exact absurd member List.not_mem_nil

/-- Under a derived name stands what the server derives, and nothing of the handler's. -/
theorem valuesOf_sentFields {n : String} (reserved : Fields.isReserved n = true) (close : Bool) :
    Fields.valuesOf (r.sentFields close) n =
      Fields.valuesOf r.announced n ++ Fields.valuesOf (closing close) n := by
  have own : Fields.valuesOf r.ownFields n = [] := by
    apply Fields.valuesOf_of_isReserved_ne
    intro field member
    rw [reserved, (mem_ownFields.mp member).2]
    decide
  rw [sentFields, Fields.valuesOf_append, Fields.valuesOf_append, own, List.nil_append]

theorem valuesOf_sentFields_free (apart : Fields.Apart r.fields) {n : String}
    (free : Fields.isReserved n = false) (close : Bool) :
    Fields.valuesOf (r.sentFields close) n = (Fields.find? r.fields n).toList := by
  have derived : Fields.valuesOf r.announced n = [] := by
    apply Fields.valuesOf_of_isReserved_ne
    intro field member
    rw [free, reserved_of_announced member]
    decide
  have ending : Fields.valuesOf (closing close) n = [] := by
    apply Fields.valuesOf_of_isReserved_ne
    intro field member
    rw [free, reserved_of_closing member]
    decide
  have own := Fields.valuesOf_perm r.perm_ownFields n
  rw [Fields.valuesOf_unreserved, free, if_neg Bool.false_ne_true,
    Fields.valuesOf_eq_toList apart] at own
  rw [sentFields, Fields.valuesOf_append, Fields.valuesOf_append, derived, ending, List.append_nil,
    List.append_nil]
  cases value : Fields.find? r.fields n with
  | none =>
      rw [value] at own
      exact own.eq_nil
  | some value' =>
      rw [value] at own
      exact List.perm_singleton.mp own

theorem length_valuesOf_announced_le (r : Response) (n : String) :
    (Fields.valuesOf r.announced n).length ≤ 1 := by
  rw [announced]
  split
  · exact Nat.zero_le 1
  · rw [Fields.valuesOf, List.length_map]
    exact Nat.le_trans (List.length_filter_le _ _) (Framing.length_field_le r.body.framing)

/-- The head is read back with the status, and under each name the values that were sent. -/
theorem parse_head (writable : ∀ field ∈ r.fields, Fields.Writable field) (close : Bool) :
    ∃ fields, ResponseHead.parse (r.head close) =
        .ok ⟨.http11, r.status.code, r.status.reason, fields⟩ ∧
      ∀ n, Fields.find? fields n =
        Fields.joined ((Fields.valuesOf (r.sentFields close) n).map Fields.trimmed) := by
  have single : (Fields.valuesOf ((r.sentFields close).map Fields.received)
      Fields.contentLength).length ≤ 1 := by
    have closes : Fields.valuesOf (closing close) Fields.contentLength = [] := by
      cases close <;> decide
    rw [Fields.valuesOf_received, List.length_map, valuesOf_sentFields (by decide), closes,
      List.append_nil]
    exact length_valuesOf_announced_le r Fields.contentLength
  obtain ⟨fields, read, spec⟩ :=
    ResponseHead.parse_headOf r.status (writable_sentFields writable close) single
  refine ⟨fields, ?_, fun n => ?_⟩
  · rw [head_eq, read]
  · rw [spec, Fields.valuesOf_received]

/-- No other response is without a body than one to a request for the head alone, or one whose
status forbids a body. -/
theorem bodiless_code (method : Method) (s : Status) :
    Framing.bodiless method s.code = decide (method = .head ∨ s.forbidsBody = true) := by
  cases method <;> cases s <;> rfl

theorem framing_agrees (small : ∀ b, r.body.content = .known b → b.length < Numeral.bound64)
    {close : Bool} {head : ResponseHead} (status : head.status = r.status.code)
    (spec : ∀ n, head.fields.find? n =
      Fields.joined ((Fields.valuesOf (r.sentFields close) n).map Fields.trimmed))
    (method : Method) : Framing.ofResponse head method = .ok (r.strip method).body.framing := by
  rw [Framing.ofResponse, status, bodiless_code, strip]
  by_cases none : method = .head ∨ r.status.forbidsBody = true
  · rw [if_pos (decide_eq_true none), if_pos none]
    rfl
  · rw [if_neg (by rwa [decide_eq_true_iff]), if_neg none]
    have allowed : r.status.forbidsBody = false :=
      Bool.eq_false_iff.mpr fun forbidden => none (.inr forbidden)
    have derived : r.announced = r.body.framing.field?.toList := by
      rw [announced, allowed]
      rfl
    have known : Framing.Announces head.fields r.body.framing.field?.toList := by
      intro n which
      have reserved : Fields.isReserved n = true := by rcases which with rfl | rfl <;> decide
      have closes : Fields.valuesOf (closing close) n = [] := by
        rcases which with rfl | rfl <;> cases close <;> decide
      rw [spec, valuesOf_sentFields reserved, closes, List.append_nil, derived,
        Fields.map_trimmed_valuesOf fun field member => (Framing.clean_field member).tidy]
    rw [Framing.announced_field (Body.announceable_framing small) known]
    rfl

theorem field_connection {close : Bool} {fields : Fields}
    (spec : ∀ n, fields.find? n =
      Fields.joined ((Fields.valuesOf (r.sentFields close) n).map Fields.trimmed)) :
    fields.find? Fields.connection = if close then some "close" else none := by
  have derived : Fields.valuesOf r.announced Fields.connection = [] := by
    apply Fields.valuesOf_eq_nil
    intro field member
    rw [announced] at member
    split at member
    · exact absurd member List.not_mem_nil
    · exact Framing.not_connection_of_field member
  rw [spec, valuesOf_sentFields (by decide), derived, List.nil_append]
  cases close <;> decide

end HttpExchange.Response
