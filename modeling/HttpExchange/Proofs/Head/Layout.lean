import HttpExchange.Proofs.Head.Announced
import Mathlib.Logic.Relation

/-!
The framing does not depend on how the lines of a head are laid out. Lines of different names may
stand in any order, names may be written in any case, a list of encodings may be spread over lines,
and a content length may be repeated: the head is accepted as before, and its body is framed as
before.
-/

namespace HttpExchange

open Fields (Agree Folds valuesOf valuesOf_append valuesOf_singleton trimmed)
open Framing (EndsChunked LastElement endsChunked announced)

/-- One step from the fields that the lines of a head state to the same fields in another layout. -/
inductive Relaid : List (String × String) → List (String × String) → Prop where
  /-- Two lines with different names change places. -/
  | swap (front back : List (String × String)) {a b : String × String}
      (apart : sameName a.1 b.1 = false) :
      Relaid (front ++ a :: b :: back) (front ++ b :: a :: back)
  /-- A name is written in another case. -/
  | recase (front back : List (String × String)) {name name' : String} (value : String)
      (same : sameName name name' = true) :
      Relaid (front ++ (name, value) :: back) (front ++ (name', value) :: back)
  /-- A list of encodings is split at a comma. -/
  | split (front back : List (String × String)) {name name' value : String} {one two : List Char}
      (encoding : sameName name Fields.transferEncoding = true)
      (encoding' : sameName name' Fields.transferEncoding = true)
      (list : value.toList = one ++ ',' :: two) :
      Relaid (front ++ (name, value) :: back)
        (front ++ (name, trimmed (String.ofList one)) ::
          (name', trimmed (String.ofList two)) :: back)
  /-- A content length is stated once more. -/
  | again (front back : List (String × String)) {name : String} (value : String)
      (length : sameName name Fields.contentLength = true) :
      Relaid (front ++ (name, value) :: back) (front ++ (name, value) :: (name, value) :: back)

/-- What of the fields is left in any layout: which names there are, which content lengths are
stated, and whether chunks are announced. -/
structure Alike (given given' : List (String × String)) : Prop where
  present : ∀ n, valuesOf given n = [] ↔ valuesOf given' n = []
  lengths : ∀ v, v ∈ valuesOf given Fields.contentLength ↔ v ∈ valuesOf given' Fields.contentLength
  chunked : EndsChunked given ↔ EndsChunked given'

namespace Alike

variable {given given' given₁ : List (String × String)} {fields fields' : Fields}

theorem refl (given : List (String × String)) : Alike given given :=
  ⟨fun _ => .rfl, fun _ => .rfl, .rfl⟩

theorem symm (alike : Alike given given') : Alike given' given :=
  ⟨fun n => (alike.present n).symm, fun v => (alike.lengths v).symm, alike.chunked.symm⟩

theorem trans (first : Alike given given₁) (second : Alike given₁ given') : Alike given given' :=
  ⟨fun n => (first.present n).trans (second.present n),
    fun v => (first.lengths v).trans (second.lengths v), first.chunked.trans second.chunked⟩

theorem of_values (same : ∀ n, valuesOf given n = valuesOf given' n) : Alike given given' := by
  refine ⟨fun n => by rw [same], fun v => by rw [same], ?_⟩
  rw [EndsChunked, EndsChunked, same]

theorem valuesOf_cons (field : String × String) (given : List (String × String)) (n : String) :
    valuesOf (field :: given) n =
      (if sameName field.1 n then [field.2] else []) ++ valuesOf given n := by
  rw [← List.singleton_append, valuesOf_append, valuesOf_singleton]

theorem of_split (front back : List (String × String)) {name name' value : String}
    {one two : List Char} (encoding : sameName name Fields.transferEncoding = true)
    (encoding' : sameName name' Fields.transferEncoding = true)
    (list : value.toList = one ++ ',' :: two) :
    Alike (front ++ (name, value) :: back)
      (front ++ (name, trimmed (String.ofList one)) ::
        (name', trimmed (String.ofList two)) :: back) := by
  have names : sameName name name' = true := sameName_common encoding encoding'
  have other : sameName name Fields.contentLength = false := by
    rw [sameName_congr encoding]
    decide
  have other' : sameName name' Fields.contentLength = false := by
    rw [← sameName_congr names, other]
  refine ⟨fun n => ?_, fun v => ?_, ?_⟩
  · simp only [valuesOf_append, valuesOf_cons, ← sameName_congr names, List.append_eq_nil_iff]
    by_cases here : sameName name n = true
    · simp only [if_pos here, List.cons_ne_nil, false_and, and_false]
    · simp only [if_neg here, true_and]
  · simp only [valuesOf_append, valuesOf_cons, other, other', Bool.false_eq_true, if_false,
      List.nil_append]
  -- only where no line of encodings follows is the last element in the line that is split
  · let n := Fields.transferEncoding
    have whole : valuesOf (front ++ (name, value) :: back) n =
        valuesOf front n ++ ([value] ++ valuesOf back n) := by
      rw [valuesOf_append, valuesOf_cons, if_pos encoding]
    have parts : valuesOf (front ++ (name, trimmed (String.ofList one)) ::
        (name', trimmed (String.ofList two)) :: back) n =
        valuesOf front n ++ ([trimmed (String.ofList one)] ++
          ([trimmed (String.ofList two)] ++ valuesOf back n)) := by
      rw [valuesOf_append, valuesOf_cons, valuesOf_cons, if_pos encoding, if_pos encoding']
    rcases List.eq_nil_or_concat' (valuesOf back n) with none | ⟨init, last, some⟩
    · rw [none] at whole parts
      have found := congrArg List.getLast? whole
      have found' := congrArg List.getLast? parts
      simp only [List.getLast?_append, List.append_nil, List.getLast?_singleton,
        Option.some_or] at found found'
      rw [Framing.endsChunked_iff_of_last found, Framing.endsChunked_iff_of_last found',
        Framing.endsChunked_behind (String.ofList two) (by rwa [String.toList_ofList])]
    · rw [some] at whole parts
      have found := congrArg List.getLast? whole
      have found' := congrArg List.getLast? parts
      simp only [List.getLast?_append, List.getLast?_singleton, Option.some_or] at found found'
      rw [Framing.endsChunked_iff_of_last found, Framing.endsChunked_iff_of_last found']

theorem of_again (front back : List (String × String)) {name : String} (value : String)
    (length : sameName name Fields.contentLength = true) :
    Alike (front ++ (name, value) :: back)
      (front ++ (name, value) :: (name, value) :: back) := by
  have other : sameName name Fields.transferEncoding = false := by
    rw [sameName_congr length]
    decide
  refine ⟨fun n => ?_, fun v => ?_, ?_⟩
  · simp only [valuesOf_append, valuesOf_cons, List.append_eq_nil_iff, and_self_left]
  · simp only [valuesOf_append, valuesOf_cons, if_pos length, List.mem_append,
      List.mem_singleton, or_self_left]
  · rw [EndsChunked, EndsChunked]
    simp only [valuesOf_append, valuesOf_cons, other, Bool.false_eq_true, if_false,
      List.nil_append]

theorem of_relaid (relaid : Relaid given given') : Alike given given' := by
  cases relaid with
  | @swap front back a b apart =>
      refine of_values fun n => ?_
      rw [valuesOf_append, valuesOf_append, valuesOf_cons, valuesOf_cons, valuesOf_cons,
        valuesOf_cons]
      by_cases first : sameName a.1 n = true
      · by_cases second : sameName b.1 n = true
        · exact absurd ((sameName_common first second).symm.trans apart) (by decide)
        · rw [if_pos first, if_neg second, List.nil_append, List.nil_append]
      · rw [if_neg first, List.nil_append, List.nil_append]
  | recase front back value same =>
      refine of_values fun n => ?_
      rw [valuesOf_append, valuesOf_append, valuesOf_cons, valuesOf_cons, sameName_congr same]
  | @split front back name name' value one two encoding encoding' list =>
      exact of_split front back encoding encoding' list
  | @again front back name value length =>
      exact of_again front back value length

theorem of_eqvGen (relaid : Relation.EqvGen Relaid given given') : Alike given given' := by
  induction relaid with
  | rel _ _ step => exact of_relaid step
  | refl given => exact refl given
  | symm _ _ _ ih => exact ih.symm
  | trans _ _ _ _ _ first second => exact first.trans second

theorem agree (alike : Alike given given') (agree : Agree given) : Agree given' :=
  fun v first w second => agree v ((alike.lengths v).mpr first) w ((alike.lengths w).mpr second)

theorem head?_eq (alike : Alike given given') (agree : Agree given) :
    (valuesOf given Fields.contentLength).head? = (valuesOf given' Fields.contentLength).head? := by
  cases values : valuesOf given Fields.contentLength with
  | nil => rw [(alike.present _).mp values]
  | cons v rest =>
      cases values' : valuesOf given' Fields.contentLength with
      | nil =>
          have none := (alike.present _).mpr values'
          exact absurd (values.symm.trans none) (List.cons_ne_nil v rest)
      | cons w rest' =>
          have first : v ∈ valuesOf given Fields.contentLength := values ▸ List.mem_cons_self
          have second : w ∈ valuesOf given' Fields.contentLength := values' ▸ List.mem_cons_self
          rw [List.head?_cons, List.head?_cons, agree v first w ((alike.lengths w).mpr second)]

/-- Fields that are folded from alike lines announce the same framing. -/
theorem announced_eq (alike : Alike given given') (folds : Folds given fields)
    (folds' : Folds given' fields') : announced fields' = announced fields := by
  by_cases chunked : EndsChunked given
  · rw [Framing.announced_chunked folds chunked,
      Framing.announced_chunked folds' (alike.chunked.mp chunked)]
  · rw [Framing.announced_plain folds chunked,
      Framing.announced_plain folds' (mt alike.chunked.mpr chunked), alike.head?_eq folds.agree]

end Alike

/-- However the lines of an accepted head are laid out, it is accepted, and its body is framed as
before. Where the last encoding that the lines list is the chunked one, the body is in chunks,
whatever they say of its length. -/
theorem framing_of_relaid (x : Bytes) :
    (∀ head, RequestHead.parse x = .ok head → ∃ first given, Laid x first given ∧
      (EndsChunked given → Framing.ofRequest head = .ok .chunked) ∧
      ∀ y given', Laid y first given' → Relation.EqvGen Relaid given given' →
        ∃ fields, RequestHead.parse y = .ok { head with fields } ∧
          Framing.ofRequest { head with fields } = Framing.ofRequest head) ∧
    ∀ head, ResponseHead.parse x = .ok head → ∃ first given, Laid x first given ∧
      (EndsChunked given → ∀ method, Framing.bodiless method head.status = false →
        Framing.ofResponse head method = .ok .chunked) ∧
      ∀ y given', Laid y first given' → Relation.EqvGen Relaid given given' →
        ∃ fields, ResponseHead.parse y = .ok { head with fields } ∧ ∀ method,
          Framing.ofResponse { head with fields } method = Framing.ofResponse head method := by
  refine ⟨fun head parsed => ?_, fun head parsed => ?_⟩
  · obtain ⟨first, given, laid⟩ := RequestHead.laid_of_parse parsed
    obtain ⟨said, folds, named⟩ := RequestHead.parse_laid laid parsed
    refine ⟨first, given, laid, fun chunked => ?_, fun y given' laid' relaid => ?_⟩
    · rw [Framing.ofRequest, Framing.announced_chunked folds chunked]
      rfl
    · have alike := Alike.of_eqvGen relaid
      obtain ⟨fields, parsed', folds'⟩ := RequestHead.parse_of_opening laid' said
        (alike.agree folds.agree) fun version => mt (alike.present _).mpr (named version)
      refine ⟨fields, parsed', ?_⟩
      rw [Framing.ofRequest, alike.announced_eq folds folds', Framing.ofRequest]
  · obtain ⟨first, given, laid⟩ := ResponseHead.laid_of_parse parsed
    obtain ⟨said, folds⟩ := ResponseHead.parse_laid laid parsed
    refine ⟨first, given, laid, fun chunked method allowed => ?_, fun y given' laid' relaid => ?_⟩
    · rw [Framing.ofResponse, allowed, if_neg Bool.false_ne_true,
        Framing.announced_chunked folds chunked]
      rfl
    · have alike := Alike.of_eqvGen relaid
      obtain ⟨fields, parsed', folds'⟩ :=
        ResponseHead.parse_of_opening laid' said (alike.agree folds.agree)
      refine ⟨fields, parsed', fun method => ?_⟩
      rw [Framing.ofResponse, alike.announced_eq folds folds', Framing.ofResponse]

/-- A list of encodings that is spread over two lines, with a length repeated between them. -/
theorem relaid_gzip_chunked :
    let x := Utf8.encodeChars ("POST / HTTP/1.1\r\nHost: h\r\nContent-Length: 3\r\n" ++
      "Transfer-Encoding: gzip, Chunked\r\n\r\n").toList
    let y := Utf8.encodeChars ("POST / HTTP/1.1\r\nHOST: h\r\nTransfer-Encoding: gzip\r\n" ++
      "Content-Length: 3\r\nContent-Length: 3\r\ntransfer-encoding:Chunked\r\n\r\n").toList
    ∃ head fields, RequestHead.parse x = .ok head ∧
      RequestHead.parse y = .ok { head with fields } ∧
      Framing.ofRequest { head with fields } = .ok .chunked := by
  intro x y
  let given := [("Host", "h"), ("Content-Length", "3"), ("Transfer-Encoding", "gzip, Chunked")]
  let given' := [("HOST", "h"), ("Transfer-Encoding", "gzip"), ("Content-Length", "3"),
    ("Content-Length", "3"), ("transfer-encoding", "Chunked")]
  have laid : Laid x "POST / HTTP/1.1".toList given :=
    laid_encodeChars ["Host: h".toList, "Content-Length: 3".toList,
      "Transfer-Encoding: gzip, Chunked".toList, []] (by decide +kernel) (by decide +kernel)
  have laid' : Laid y "POST / HTTP/1.1".toList given' :=
    laid_encodeChars ["HOST: h".toList, "Transfer-Encoding: gzip".toList,
      "Content-Length: 3".toList, "Content-Length: 3".toList, "transfer-encoding:Chunked".toList,
      []] (by decide +kernel) (by decide +kernel)
  have relaid : Relation.EqvGen Relaid given given' := by
    let host := ("HOST", "h")
    let size := ("Content-Length", "3")
    let one := ("Transfer-Encoding", "gzip")
    let two := ("transfer-encoding", "Chunked")
    have parts : Relaid [host, size, size, ("Transfer-Encoding", "gzip, Chunked")]
        [host, size, size, one, two] := by
      have trimmed₁ : trimmed (String.ofList "gzip".toList) = "gzip" := by decide +kernel
      have trimmed₂ : trimmed (String.ofList " Chunked".toList) = "Chunked" := by decide +kernel
      have list : "gzip, Chunked".toList = "gzip".toList ++ ',' :: " Chunked".toList := by decide
      have encoding : sameName "Transfer-Encoding" Fields.transferEncoding = true := by decide
      have encoding' : sameName "transfer-encoding" Fields.transferEncoding = true := by decide
      have parts := Relaid.split [host, size, size] [] encoding encoding' list
      rwa [trimmed₁, trimmed₂] at parts
    have named : sameName "Host" "HOST" = true := by decide
    refine .trans _ _ _ (.rel _ _ (.recase [] _ "h" named)) ?_
    refine .trans _ _ _ (.rel _ _ (.again [host] _ "3" (by decide))) ?_
    refine .trans _ _ _ (.rel _ _ parts) ?_
    have apart : sameName size.1 one.1 = false := by decide
    refine .trans _ [host, size, one, size, two] _ (.rel _ _ (.swap [host, size] [two] apart)) ?_
    exact .rel _ _ (.swap [host] [size, two] apart)
  let head : RequestHead := ⟨.post, "/", .http11, given⟩
  have parsed : RequestHead.parse x = .ok head := by decide +kernel
  obtain ⟨first, given₁, laid₁, chunked, relaying⟩ := (framing_of_relaid x).1 head parsed
  obtain ⟨rfl, rfl⟩ := laid.unique laid₁
  obtain ⟨fields, parsed', framed⟩ := relaying y given' laid' relaid
  refine ⟨head, fields, parsed, parsed', framed.trans (chunked ?_)⟩
  exact ⟨"gzip, Chunked", " Chunked".toList, by decide +kernel, .behind "gzip".toList (by decide),
    by decide +kernel⟩

end HttpExchange
