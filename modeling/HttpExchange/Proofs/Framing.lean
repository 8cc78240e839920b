import HttpExchange.Body.Content
import HttpExchange.Framing
import HttpExchange.Proofs.Head.Fields
import HttpExchange.Proofs.Text.Numeral

/-!
The field that announces a framing is understood as that framing.
-/

namespace HttpExchange

theorem Fields.clean_close : Clean (connection, "close") := by decide

namespace Framing

theorem flatMap_field (f : Framing) :
    f.field?.toList.flatMap (fun field => Utf8.encode (Fields.writeLine field.1 field.2)) =
      match f.field? with
      | some (name, value) => Utf8.encode (Fields.writeLine name value)
      | none => [] := by
  cases f.field? with
  | none => rfl
  | some field => exact List.append_nil _

theorem isBlank_of_mem_decimal (n : Nat) : ∀ c ∈ (Numeral.decimal n).toList, isBlank c = false := by
  rw [Numeral.decimal, String.toList_ofList]
  intro c member
  exact Numeral.isBlank_of_mem_write (by decide) (by decide) member

theorem clean_field {f : Framing} {field : String × String} (member : field ∈ f.field?.toList) :
    Fields.Clean field := by
  cases f with
  | empty =>
      cases List.mem_singleton.mp member
      decide
  | length n =>
      cases List.mem_singleton.mp member
      have name : Fields.IsToken Fields.contentLength := by decide
      have blankless := isBlank_of_mem_decimal n
      exact ⟨⟨name, .of_blankless blankless⟩, Fields.trimmed_of_blankless blankless⟩
  | chunked =>
      cases List.mem_singleton.mp member
      decide
  | untilClose => exact absurd member List.not_mem_nil

theorem length_field_le (f : Framing) : f.field?.toList.length ≤ 1 := by
  cases f.field? with
  | none => exact Nat.zero_le 1
  | some field => exact Nat.le_refl 1

theorem reserved_of_field {f : Framing} {field : String × String}
    (member : field ∈ f.field?.toList) : Fields.isReserved field.1 = true := by
  cases f with
  | untilClose => exact absurd member List.not_mem_nil
  | empty | length n =>
      cases List.mem_singleton.mp member
      exact (by decide : Fields.isReserved Fields.contentLength = true)
  | chunked =>
      cases List.mem_singleton.mp member
      exact (by decide : Fields.isReserved Fields.transferEncoding = true)

theorem not_connection_of_field {f : Framing} {field : String × String}
    (member : field ∈ f.field?.toList) : sameName field.1 Fields.connection = false := by
  cases f with
  | untilClose => exact absurd member List.not_mem_nil
  | empty | length n =>
      cases List.mem_singleton.mp member
      exact (by decide : sameName Fields.contentLength Fields.connection = false)
  | chunked =>
      cases List.mem_singleton.mp member
      exact (by decide : sameName Fields.transferEncoding Fields.connection = false)

/-- The framing can be announced: it has an end of its own, a length of zero is none, and a length
has at most 64 bits. -/
def Announceable : Framing → Prop
  | length n => 0 < n ∧ n < Numeral.bound64
  | empty | chunked => True
  | untilClose => False

theorem ofLength_decimal {n : Nat} (pos : 0 < n) (small : n < Numeral.bound64) :
    ofLength (Numeral.decimal n) = .ok (length n) := by
  have read : Numeral.read 10 Numeral.bound64 (Numeral.write 10 n) = some n :=
    Numeral.read_write (by decide) (by decide) small
  obtain ⟨n, rfl⟩ : ∃ m, n = m + 1 := ⟨n - 1, by omega⟩
  rw [ofLength, Text.trim_eq_self (isBlank_of_mem_decimal (n + 1)), Numeral.decimal,
    String.toList_ofList, read]
  rfl

theorem ofLength_zero : ofLength "0" = .ok empty := by
  have read : Numeral.read 10 Numeral.bound64 (Text.trim "0".toList) = some 0 := by decide
  rw [ofLength, read]
  rfl

/-- Fields that say of the body only what the sender announces. -/
def Announces (fields : Fields) (given : List (String × String)) : Prop :=
  ∀ n, n = Fields.transferEncoding ∨ n = Fields.contentLength →
    fields.find? n = Fields.joined (Fields.valuesOf given n)

theorem announced_field {f : Framing} (sound : f.Announceable) {fields : Fields}
    (known : Announces fields f.field?.toList) : announced fields = .ok (some f) := by
  have encoding := known Fields.transferEncoding (.inl rfl)
  have size := known Fields.contentLength (.inr rfl)
  have other : sameName Fields.contentLength Fields.transferEncoding = false := by decide
  cases f with
  | empty =>
      rw [field?, Option.toList_some, Fields.valuesOf_singleton, if_neg (by decide)] at encoding
      rw [field?, Option.toList_some, Fields.valuesOf_singleton, if_pos (by decide)] at size
      rw [announced, encoding, size, if_neg (by decide)]
      simp only [Fields.joined, String.intercalate_singleton, ofLength_zero, Except.map]
  | length n =>
      rw [field?, Option.toList_some, Fields.valuesOf_singleton, if_neg (by rw [other]; decide)]
        at encoding
      rw [field?, Option.toList_some, Fields.valuesOf_singleton,
        if_pos (sameName_refl Fields.contentLength)] at size
      rw [announced, encoding, size, if_neg (by decide)]
      simp only [Fields.joined, String.intercalate_singleton, ofLength_decimal sound.1 sound.2,
        Except.map]
  | chunked =>
      rw [field?, Option.toList_some, Fields.valuesOf_singleton, if_pos (by decide)] at encoding
      rw [announced, encoding, Fields.joined, String.intercalate_singleton, if_pos (by decide)]
  | untilClose => exact sound.elim

theorem announced_none {fields : Fields} (known : Announces fields []) :
    announced fields = .ok none := by
  have encoding := known Fields.transferEncoding (.inl rfl)
  have size := known Fields.contentLength (.inr rfl)
  rw [Fields.valuesOf, List.filter_nil, List.map_nil, Fields.joined] at encoding size
  rw [announced, encoding, size, if_neg (by decide)]

end Framing

theorem Body.announceable_framing {body : Body}
    (small : ∀ b, body.content = .known b → b.length < Numeral.bound64) :
    body.framing.Announceable := by
  obtain ⟨content, consumed⟩ := body
  cases content with
  | empty => exact trivial
  | stream p => exact trivial
  | known b =>
      cases b with
      | nil => exact trivial
      | cons first more => exact ⟨Nat.succ_pos _, small _ rfl⟩

end HttpExchange
