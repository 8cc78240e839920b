import HttpExchange.Address
import HttpExchange.Proofs.Text.Numeral
import HttpExchange.Proofs.Text.Split

/-!
The text of an address is one word.
-/

namespace HttpExchange

namespace Machine

theorem isBlank_of_mem_writeBytes (a b c d : UInt8) :
    ∀ x ∈ writeBytes a b c d, isBlank x = false := by
  apply Text.isBlank_of_mem_join (by decide)
  intro piece member x inside
  obtain ⟨byte, _, rfl⟩ := List.mem_map.mp member
  exact Numeral.isBlank_of_mem_write (by decide) (by decide) inside

theorem isBlank_of_mem_writeRun (groups : List UInt16) :
    ∀ x ∈ writeRun groups, isBlank x = false := by
  apply Text.isBlank_of_mem_join (by decide)
  intro piece member x inside
  obtain ⟨group, _, rfl⟩ := List.mem_map.mp member
  obtain ⟨digit, written, rfl⟩ := List.mem_map.mp inside
  obtain ⟨d, few, rfl⟩ := Numeral.mem_write (by decide) written
  have table : ∀ d < 16, isBlank (foldChar (Numeral.digitChar d)) = false := by decide
  exact table d few

theorem isBlank_of_mem_writeGroups (groups : List UInt16) :
    ∀ x ∈ writeGroups groups, isBlank x = false := by
  unfold writeGroups
  split
  · rw [List.forall_mem_append]
    exact ⟨Text.isBlank_of_any (by decide), isBlank_of_mem_writeBytes _ _ _ _⟩
  · simp only
    split
    · exact isBlank_of_mem_writeRun _
    · rw [List.forall_mem_append, List.forall_mem_cons, List.forall_mem_cons]
      exact ⟨isBlank_of_mem_writeRun _, by decide, by decide, isBlank_of_mem_writeRun _⟩

theorem isBlank_of_mem_write (machine : Machine) : ∀ x ∈ machine.write, isBlank x = false := by
  cases machine with
  | v4 a b c d => exact isBlank_of_mem_writeBytes a b c d
  | v6 groups zone =>
      have zoned : ∀ x ∈ (if zone = 0 then [] else '%' :: Numeral.write 10 zone.toNat),
          isBlank x = false := by
        split
        · intro x member
          exact absurd member List.not_mem_nil
        · rw [List.forall_mem_cons]
          exact ⟨by decide, fun x => Numeral.isBlank_of_mem_write (by decide) (by decide)⟩
      rw [write]
      simp only [List.cons_append]
      rw [List.forall_mem_cons, List.forall_mem_append, List.forall_mem_append]
      exact ⟨by decide, ⟨isBlank_of_mem_writeGroups _, zoned⟩, Text.isBlank_of_any (by decide)⟩

end Machine

theorem Address.isBlank_of_mem_text (address : Address) :
    ∀ x ∈ address.text.toList, isBlank x = false := by
  rw [text, String.toList_ofList, List.forall_mem_append, List.forall_mem_cons]
  exact ⟨address.machine.isBlank_of_mem_write, by decide,
    fun x => Numeral.isBlank_of_mem_write (by decide) (by decide)⟩

end HttpExchange
