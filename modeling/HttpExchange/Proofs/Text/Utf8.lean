import HttpExchange.Text.Utf8

/-!
A text is read back from its bytes, and no other bytes are read as it. A byte below 0x80 among them
is a character of its own, so that whoever looks for an ASCII character may look for its byte.
-/

namespace HttpExchange.Utf8

theorem toNat_toUInt8 {n : Nat} (small : n < 256) : n.toUInt8.toNat = n := by
  simp only [Nat.toUInt8, UInt8.toNat_ofNat', Nat.reducePow, Nat.mod_eq_of_lt small]

theorem lead_toUInt8 {n : Nat} (small : n < 256) :
    lead n.toUInt8 =
      if n < 0x80 then some (0, 0, 0)
      else if n < 0xC2 then none
      else if n < 0xE0 then some (1, 0x80, 0xBF)
      else if n = 0xE0 then some (2, 0xA0, 0xBF)
      else if n = 0xED then some (2, 0x80, 0x9F)
      else if n < 0xF0 then some (2, 0x80, 0xBF)
      else if n = 0xF0 then some (3, 0x90, 0xBF)
      else if n < 0xF4 then some (3, 0x80, 0xBF)
      else if n = 0xF4 then some (3, 0x80, 0x8F)
      else none := by
  simp only [lead, UInt8.lt_iff_toNat_lt, ← UInt8.toNat_inj, toNat_toUInt8 small,
    UInt8.reduceToNat]

theorem continuation_cons {more taken bits n : Nat} {low high : UInt8} (rest : Bytes)
    (lower : low.toNat ≤ n) (upper : n ≤ high.toNat) :
    continuation (more + 1) low high taken bits (n.toUInt8 :: rest) =
      continuation more 0x80 0xBF (taken + 1) (bits * 0x40 + (n - 0x80)) rest := by
  have small : n < 256 := Nat.lt_of_le_of_lt upper high.toNat_lt
  have within : low ≤ n.toUInt8 ∧ n.toUInt8 ≤ high := by
    rw [UInt8.le_iff_toNat_le, UInt8.le_iff_toNat_le, toNat_toUInt8 small]
    exact ⟨lower, upper⟩
  rw [continuation, if_pos within, toNat_toUInt8 small]

theorem leadBits_zero (b : UInt8) : leadBits 0 b = b.toNat := rfl

theorem leadBits_one (b : UInt8) : leadBits 1 b = b.toNat - 0xC0 := rfl

theorem leadBits_two (b : UInt8) : leadBits 2 b = b.toNat - 0xE0 := rfl

theorem leadBits_three (b : UInt8) : leadBits 3 b = b.toNat - 0xF0 := rfl

theorem decodeChar_one {n : Nat} (rest : Bytes) (small : n < 0x80) :
    decodeChar n.toUInt8 rest = .ok (Char.ofNat n, rest) := by
  have first : lead n.toUInt8 = some (0, 0, 0) := by
    rw [lead_toUInt8 (by omega), if_pos small]
  simp only [decodeChar, first, continuation, leadBits_zero, Except.map]
  rw [toNat_toUInt8 (by omega)]

theorem decodeChar_two {n : Nat} (rest : Bytes) (lower : 0x80 ≤ n) (upper : n < 0x800) :
    decodeChar (0xC0 + n / 0x40).toUInt8 ((0x80 + n % 0x40).toUInt8 :: rest) =
      .ok (Char.ofNat n, rest) := by
  have first : lead (0xC0 + n / 0x40).toUInt8 = some (1, 0x80, 0xBF) := by
    rw [lead_toUInt8 (by omega), if_neg (by omega), if_neg (by omega), if_pos (by omega)]
  have bits : leadBits 1 (0xC0 + n / 0x40).toUInt8 = n / 0x40 := by
    rw [leadBits_one, toNat_toUInt8 (by omega), Nat.add_sub_cancel_left]
  simp only [decodeChar, first, bits]
  rw [continuation_cons rest (by simp) (by simp; omega), continuation]
  have number : n / 0x40 * 0x40 + (0x80 + n % 0x40 - 0x80) = n := by omega
  simp only [Except.map, number]

theorem decodeChar_three {n : Nat} (rest : Bytes) (lower : 0x800 ≤ n) (upper : n < 0x10000)
    (scalar : n < 0xD800 ∨ 0xDFFF < n) :
    decodeChar (0xE0 + n / 0x1000).toUInt8
        ((0x80 + n / 0x40 % 0x40).toUInt8 :: (0x80 + n % 0x40).toUInt8 :: rest) =
      .ok (Char.ofNat n, rest) := by
  have bits : leadBits 2 (0xE0 + n / 0x1000).toUInt8 = n / 0x1000 := by
    rw [leadBits_two, toNat_toUInt8 (by omega), Nat.add_sub_cancel_left]
  obtain ⟨low, high, first, least, most⟩ : ∃ low high : UInt8,
      lead (0xE0 + n / 0x1000).toUInt8 = some (2, low, high) ∧
        low.toNat ≤ 0x80 + n / 0x40 % 0x40 ∧ 0x80 + n / 0x40 % 0x40 ≤ high.toNat := by
    rw [lead_toUInt8 (by omega), if_neg (by omega), if_neg (by omega), if_neg (by omega)]
    split
    · exact ⟨_, _, rfl, by simp; omega, by simp; omega⟩
    · split
      · exact ⟨_, _, rfl, by simp, by simp; omega⟩
      · rw [if_pos (by omega)]
        exact ⟨_, _, rfl, by simp, by simp; omega⟩
  simp only [decodeChar, first, bits]
  rw [continuation_cons _ least most, continuation_cons rest (by simp) (by simp; omega),
    continuation]
  have number : (n / 0x1000 * 0x40 + (0x80 + n / 0x40 % 0x40 - 0x80)) * 0x40 +
      (0x80 + n % 0x40 - 0x80) = n := by omega
  simp only [Except.map, number]

theorem decodeChar_four {n : Nat} (rest : Bytes) (lower : 0x10000 ≤ n) (upper : n < 0x110000) :
    decodeChar (0xF0 + n / 0x40000).toUInt8
        ((0x80 + n / 0x1000 % 0x40).toUInt8 :: (0x80 + n / 0x40 % 0x40).toUInt8 ::
          (0x80 + n % 0x40).toUInt8 :: rest) =
      .ok (Char.ofNat n, rest) := by
  have bits : leadBits 3 (0xF0 + n / 0x40000).toUInt8 = n / 0x40000 := by
    rw [leadBits_three, toNat_toUInt8 (by omega), Nat.add_sub_cancel_left]
  obtain ⟨low, high, first, least, most⟩ : ∃ low high : UInt8,
      lead (0xF0 + n / 0x40000).toUInt8 = some (3, low, high) ∧
        low.toNat ≤ 0x80 + n / 0x1000 % 0x40 ∧ 0x80 + n / 0x1000 % 0x40 ≤ high.toNat := by
    rw [lead_toUInt8 (by omega), if_neg (by omega), if_neg (by omega), if_neg (by omega),
      if_neg (by omega), if_neg (by omega), if_neg (by omega)]
    split
    · exact ⟨_, _, rfl, by simp; omega, by simp; omega⟩
    · split
      · exact ⟨_, _, rfl, by simp, by simp; omega⟩
      · rw [if_pos (by omega)]
        exact ⟨_, _, rfl, by simp, by simp; omega⟩
  simp only [decodeChar, first, bits]
  rw [continuation_cons _ least most, continuation_cons _ (by simp) (by simp; omega),
    continuation_cons rest (by simp) (by simp; omega), continuation]
  have number : ((n / 0x40000 * 0x40 + (0x80 + n / 0x1000 % 0x40 - 0x80)) * 0x40 +
      (0x80 + n / 0x40 % 0x40 - 0x80)) * 0x40 + (0x80 + n % 0x40 - 0x80) = n := by omega
  simp only [Except.map, number]

theorem number_of_char (c : Char) : c.toNat < 0xD800 ∨ 0xDFFF < c.toNat ∧ c.toNat < 0x110000 :=
  c.valid

/-- A character is read back from its bytes, and nothing behind them is touched. -/
theorem decodeChar_encodeChar (c : Char) (rest : Bytes) :
    ∃ b tail, encodeChar c = b :: tail ∧ decodeChar b (tail ++ rest) = .ok (c, rest) := by
  have number := number_of_char c
  unfold encodeChar
  simp only
  split
  · refine ⟨_, _, rfl, ?_⟩
    rw [List.nil_append, decodeChar_one rest (by omega), Char.ofNat_toNat]
  · split
    · refine ⟨_, _, rfl, ?_⟩
      rw [List.cons_append, List.nil_append, decodeChar_two rest (by omega) (by omega),
        Char.ofNat_toNat]
    · split
      · refine ⟨_, _, rfl, ?_⟩
        rw [List.cons_append, List.cons_append, List.nil_append,
          decodeChar_three rest (by omega) (by omega) (by omega), Char.ofNat_toNat]
      · refine ⟨_, _, rfl, ?_⟩
        rw [List.cons_append, List.cons_append, List.cons_append, List.nil_append,
          decodeChar_four rest (by omega) (by omega), Char.ofNat_toNat]

theorem decodeOnto_encodeChars (index : Nat) (before cs : List Char) :
    decodeOnto index before (encodeChars cs) = .ok (before.reverse ++ cs) := by
  induction cs generalizing index before with
  | nil => rw [encodeChars, List.flatMap_nil, decodeOnto, List.append_nil]
  | cons c cs ih =>
      obtain ⟨b, tail, bytes, read⟩ := decodeChar_encodeChar c (encodeChars cs)
      have whole : encodeChars (c :: cs) = b :: (tail ++ encodeChars cs) := by
        simp only [encodeChars, List.flatMap_cons, bytes, List.cons_append]
      rw [whole, decodeOnto]
      split
      · next failed => rw [read] at failed; cases failed
      · next failed => rw [read] at failed; cases failed
      · next read' =>
          rw [read] at read'
          cases read'
          rw [ih, List.reverse_cons, List.append_assoc, List.singleton_append]

theorem decodeChars_encodeChars (cs : List Char) : decodeChars (encodeChars cs) = .ok cs :=
  decodeOnto_encodeChars 0 [] cs

theorem encodeChars_append (s t : List Char) :
    encodeChars (s ++ t) = encodeChars s ++ encodeChars t := List.flatMap_append

theorem encodeChar_ne_nil (c : Char) : encodeChar c ≠ [] := by
  unfold encodeChar
  simp only
  split
  · exact List.cons_ne_nil _ _
  · split
    · exact List.cons_ne_nil _ _
    · split <;> exact List.cons_ne_nil _ _

theorem encodeChars_ne_nil {cs : List Char} (some : cs ≠ []) : encodeChars cs ≠ [] := by
  cases cs with
  | nil => exact absurd rfl some
  | cons c cs => exact List.append_ne_nil_of_left_ne_nil (encodeChar_ne_nil c) _

theorem encodeChar_ascii {c : Char} (ascii : c.toNat < 0x80) : encodeChar c = [c.toNat.toUInt8] := by
  simp only [encodeChar, if_pos ascii]

theorem length_encodeChars_of_ascii {cs : List Char} (ascii : ∀ c ∈ cs, c.toNat < 0x80) :
    (encodeChars cs).length = cs.length := by
  induction cs with
  | nil => rfl
  | cons c cs ih =>
      have first := ascii c List.mem_cons_self
      have rest := ih fun x member => ascii x (List.mem_cons_of_mem c member)
      rw [encodeChars, List.flatMap_cons, encodeChar_ascii first, List.length_append, ← encodeChars,
        rest, List.length_singleton, List.length_cons, Nat.add_comm]

theorem ascii_of_mem_encodeChar {c : Char} {b : UInt8} (member : b ∈ encodeChar c)
    (ascii : b.toNat < 0x80) : b.toNat = c.toNat := by
  have number := number_of_char c
  unfold encodeChar at member
  simp only at member
  split at member
  · rw [List.mem_singleton] at member
    rw [member, toNat_toUInt8 (by omega)]
  · split at member
    · simp only [List.mem_cons, List.not_mem_nil, or_false] at member
      rcases member with rfl | rfl <;> rw [toNat_toUInt8 (by omega)] at ascii <;> omega
    · split at member
      · simp only [List.mem_cons, List.not_mem_nil, or_false] at member
        rcases member with rfl | rfl | rfl <;> rw [toNat_toUInt8 (by omega)] at ascii <;> omega
      · simp only [List.mem_cons, List.not_mem_nil, or_false] at member
        rcases member with rfl | rfl | rfl | rfl <;> rw [toNat_toUInt8 (by omega)] at ascii <;> omega

theorem eq_of_lf_mem_encodeChar {c : Char} (member : Bytes.lf ∈ encodeChar c) : c = '\n' := by
  have number : c.toNat = '\n'.toNat := (ascii_of_mem_encodeChar member (by decide)).symm
  rw [← Char.ofNat_toNat c, number, Char.ofNat_toNat]

theorem lf_notMem_encodeChars {cs : List Char} (noLf : '\n' ∉ cs) : Bytes.lf ∉ encodeChars cs := by
  intro member
  obtain ⟨c, present, byte⟩ := List.mem_flatMap.mp member
  exact noLf (eq_of_lf_mem_encodeChar byte ▸ present)

/-- A line feed among the bytes of a text is a character of it. -/
theorem encodeChars_eq_append_lf {cs : List Char} {front back : Bytes}
    (same : encodeChars cs = front ++ Bytes.lf :: back) :
    ∃ before behind, cs = before ++ '\n' :: behind ∧ front = encodeChars before ∧
      back = encodeChars behind := by
  induction cs generalizing front with
  | nil => exact absurd same.symm (List.append_ne_nil_of_right_ne_nil _ (List.cons_ne_nil _ _))
  | cons c cs ih =>
      have later (front : Bytes) (rest : encodeChars cs = front ++ Bytes.lf :: back) :
          ∃ before behind, c :: cs = before ++ '\n' :: behind ∧
            encodeChar c ++ front = encodeChars before ∧ back = encodeChars behind := by
        obtain ⟨before, behind, rfl, rfl, last⟩ := ih rest
        exact ⟨c :: before, behind, rfl, rfl, last⟩
      rw [encodeChars, List.flatMap_cons, ← encodeChars] at same
      rcases List.append_eq_append_iff.mp same with ⟨inside, rfl, rest⟩ | ⟨beyond, char, rest⟩
      · exact later inside rest
      cases beyond with
      | nil =>
          have whole := later [] rest.symm
          rwa [char, List.append_nil, List.append_nil] at whole
      | cons b beyond =>
          obtain ⟨rfl, rfl⟩ := List.cons.inj rest
          obtain rfl : c = '\n' :=
            eq_of_lf_mem_encodeChar (char ▸ List.mem_append_right front List.mem_cons_self)
          cases front with
          | nil =>
              cases char
              exact ⟨[], cs, rfl, rfl, rfl⟩
          | cons d front =>
              have none := (List.cons.inj char).2.symm
              exact absurd none (List.append_ne_nil_of_right_ne_nil front (List.cons_ne_nil _ _))

theorem toUInt8_toNat (b : UInt8) : b.toNat.toUInt8 = b := by
  rw [← UInt8.toNat_inj, toNat_toUInt8 b.toNat_lt]

theorem toNat_ofNat {n : Nat} (scalar : n < 0xD800 ∨ 0xDFFF < n ∧ n < 0x110000) :
    (Char.ofNat n).toNat = n := by
  rw [Char.ofNat, dif_pos scalar]
  rfl

theorem continuation_ok {more taken bits n : Nat} {low high : UInt8} {rest tail : Bytes}
    (read : continuation (more + 1) low high taken bits rest = .ok (n, tail)) :
    ∃ m later, rest = m.toUInt8 :: later ∧ low.toNat ≤ m ∧ m ≤ high.toNat ∧
      continuation more 0x80 0xBF (taken + 1) (bits * 0x40 + (m - 0x80)) later = .ok (n, tail) := by
  cases rest with
  | nil => cases read
  | cons b rest =>
      rw [continuation] at read
      split at read
      · next within =>
          rw [UInt8.le_iff_toNat_le, UInt8.le_iff_toNat_le] at within
          refine ⟨b.toNat, rest, ?_, within.1, within.2, read⟩
          rw [toUInt8_toNat]
      · cases read

theorem continuation_done {taken bits n : Nat} {low high : UInt8} {rest tail : Bytes}
    (read : continuation 0 low high taken bits rest = .ok (n, tail)) : n = bits ∧ tail = rest := by
  rw [continuation, Except.ok.injEq, Prod.mk.injEq] at read
  exact ⟨read.1.symm, read.2.symm⟩

/-- A first byte asks for none, one, two or three others. The range of the next one leaves out what
has a shorter form and what is no character. -/
theorem lead_ok {n more : Nat} {low high : UInt8} (small : n < 256)
    (read : lead n.toUInt8 = some (more, low, high)) :
    (more = 0 ∧ n < 0x80) ∨
    (more = 1 ∧ 0xC2 ≤ n ∧ n < 0xE0 ∧ low = 0x80 ∧ high = 0xBF) ∨
    (more = 2 ∧ 0xE0 ≤ n ∧ n < 0xF0 ∧ 0x80 ≤ low.toNat ∧ high.toNat ≤ 0xBF ∧
      (n = 0xE0 → 0xA0 ≤ low.toNat) ∧ (n = 0xED → high.toNat ≤ 0x9F)) ∨
    (more = 3 ∧ 0xF0 ≤ n ∧ n ≤ 0xF4 ∧ 0x80 ≤ low.toNat ∧ high.toNat ≤ 0xBF ∧
      (n = 0xF0 → 0x90 ≤ low.toNat) ∧ (n = 0xF4 → high.toNat ≤ 0x8F)) := by
  rw [lead_toUInt8 small] at read
  by_cases one : n < 0x80
  · rw [if_pos one] at read
    cases read
    exact .inl ⟨rfl, one⟩
  rw [if_neg one] at read
  by_cases none : n < 0xC2
  · rw [if_pos none] at read
    cases read
  rw [if_neg none] at read
  by_cases two : n < 0xE0
  · rw [if_pos two] at read
    cases read
    exact .inr (.inl ⟨rfl, by omega, two, rfl, rfl⟩)
  rw [if_neg two] at read
  by_cases three : n < 0xF0
  · refine .inr (.inr (.inl ?_))
    rw [if_pos three] at read
    split at read
    · cases read
      exact ⟨rfl, by omega, three, by decide, by decide, fun _ => by decide, by omega⟩
    split at read
    · cases read
      exact ⟨rfl, by omega, three, by decide, by decide, by omega, fun _ => by decide⟩
    · cases read
      exact ⟨rfl, by omega, three, by decide, by decide, by omega, by omega⟩
  · refine .inr (.inr (.inr ?_))
    rw [if_neg (by omega), if_neg (by omega), if_neg three] at read
    split at read
    · cases read
      exact ⟨rfl, by omega, by omega, by decide, by decide, fun _ => by decide, by omega⟩
    split at read
    · cases read
      exact ⟨rfl, by omega, by omega, by decide, by decide, by omega, by omega⟩
    split at read
    · cases read
      exact ⟨rfl, by omega, by omega, by decide, by decide, by omega, fun _ => by decide⟩
    · cases read

theorem encodeChar_one {n : Nat} (small : n < 0x80) : encodeChar (Char.ofNat n) = [n.toUInt8] := by
  rw [encodeChar, toNat_ofNat (by omega), if_pos small]

theorem encodeChar_two {n x : Nat} (lower : 0xC2 ≤ n) (upper : n < 0xE0) (least : 0x80 ≤ x)
    (most : x ≤ 0xBF) : encodeChar (Char.ofNat ((n - 0xC0) * 0x40 + (x - 0x80))) =
      [n.toUInt8, x.toUInt8] := by
  obtain ⟨k, number⟩ : ∃ k, (n - 0xC0) * 0x40 + (x - 0x80) = k := ⟨_, rfl⟩
  rw [number, encodeChar, toNat_ofNat (by omega), if_neg (by omega), if_pos (by omega),
    show 0xC0 + k / 0x40 = n by omega, show 0x80 + k % 0x40 = x by omega]

theorem encodeChar_three {n x y : Nat} (lower : 0xE0 ≤ n) (upper : n < 0xF0) (least : 0x80 ≤ x)
    (most : x ≤ 0xBF) (long : n = 0xE0 → 0xA0 ≤ x) (scalar : n = 0xED → x ≤ 0x9F)
    (least' : 0x80 ≤ y) (most' : y ≤ 0xBF) :
    encodeChar (Char.ofNat (((n - 0xE0) * 0x40 + (x - 0x80)) * 0x40 + (y - 0x80))) =
      [n.toUInt8, x.toUInt8, y.toUInt8] := by
  obtain ⟨k, number⟩ : ∃ k, ((n - 0xE0) * 0x40 + (x - 0x80)) * 0x40 + (y - 0x80) = k := ⟨_, rfl⟩
  rw [number, encodeChar, toNat_ofNat (by omega), if_neg (by omega), if_neg (by omega),
    if_pos (by omega), show 0xE0 + k / 0x1000 = n by omega,
    show 0x80 + k / 0x40 % 0x40 = x by omega, show 0x80 + k % 0x40 = y by omega]

theorem encodeChar_four {n x y z : Nat} (lower : 0xF0 ≤ n) (upper : n ≤ 0xF4) (least : 0x80 ≤ x)
    (most : x ≤ 0xBF) (long : n = 0xF0 → 0x90 ≤ x) (scalar : n = 0xF4 → x ≤ 0x8F)
    (least' : 0x80 ≤ y) (most' : y ≤ 0xBF) (least'' : 0x80 ≤ z) (most'' : z ≤ 0xBF) :
    encodeChar (Char.ofNat
        ((((n - 0xF0) * 0x40 + (x - 0x80)) * 0x40 + (y - 0x80)) * 0x40 + (z - 0x80))) =
      [n.toUInt8, x.toUInt8, y.toUInt8, z.toUInt8] := by
  obtain ⟨k, number⟩ : ∃ k,
    (((n - 0xF0) * 0x40 + (x - 0x80)) * 0x40 + (y - 0x80)) * 0x40 + (z - 0x80) = k := ⟨_, rfl⟩
  rw [number, encodeChar, toNat_ofNat (by omega), if_neg (by omega), if_neg (by omega),
    if_neg (by omega), show 0xF0 + k / 0x40000 = n by omega,
    show 0x80 + k / 0x1000 % 0x40 = x by omega, show 0x80 + k / 0x40 % 0x40 = y by omega,
    show 0x80 + k % 0x40 = z by omega]

theorem decodeChar_ok {b : UInt8} {rest tail : Bytes} {c : Char}
    (read : decodeChar b rest = .ok (c, tail)) : b :: rest = encodeChar c ++ tail := by
  obtain ⟨n, small, rfl⟩ : ∃ n < 256, b = n.toUInt8 := ⟨b.toNat, b.toNat_lt, (toUInt8_toNat b).symm⟩
  unfold decodeChar at read
  split at read
  · cases read
  next more low high first =>
  rcases taken : continuation more low high 1 (leadBits more n.toUInt8) rest with e | ⟨k, after⟩
  · rw [taken] at read
    cases read
  rw [taken] at read
  cases read
  rcases lead_ok small first with ⟨rfl, ascii⟩ | ⟨rfl, lower, upper, rfl, rfl⟩ |
    ⟨rfl, lower, upper, low₀, high₀, long, scalar⟩ | ⟨rfl, lower, upper, low₀, high₀, long, scalar⟩
  · obtain ⟨number, behind⟩ := continuation_done taken
    rw [number, behind, leadBits_zero, toNat_toUInt8 small, encodeChar_one ascii,
      List.singleton_append]
  · obtain ⟨x, rest, rfl, least, most, taken⟩ := continuation_ok taken
    obtain ⟨number, behind⟩ := continuation_done taken
    rw [number, behind, leadBits_one, toNat_toUInt8 small, encodeChar_two lower upper least most,
      List.cons_append, List.singleton_append]
  · obtain ⟨x, rest, rfl, least, most, taken⟩ := continuation_ok taken
    obtain ⟨y, rest, rfl, least', most', taken⟩ := continuation_ok taken
    obtain ⟨number, behind⟩ := continuation_done taken
    rw [number, behind, leadBits_two, toNat_toUInt8 small, encodeChar_three lower upper (by omega)
      (by omega) (by omega) (by omega) least' most', List.cons_append, List.cons_append,
      List.singleton_append]
  · obtain ⟨x, rest, rfl, least, most, taken⟩ := continuation_ok taken
    obtain ⟨y, rest, rfl, least', most', taken⟩ := continuation_ok taken
    obtain ⟨z, rest, rfl, least'', most'', taken⟩ := continuation_ok taken
    obtain ⟨number, behind⟩ := continuation_done taken
    rw [number, behind, leadBits_three, toNat_toUInt8 small, encodeChar_four lower upper (by omega)
      (by omega) (by omega) (by omega) least' most' least'' most'', List.cons_append,
      List.cons_append, List.cons_append, List.singleton_append]

theorem decodeOnto_ok {index : Nat} {before cs : List Char} {input : Bytes}
    (read : decodeOnto index before input = .ok cs) :
    ∃ behind, cs = before.reverse ++ behind ∧ input = encodeChars behind := by
  fun_induction decodeOnto index before input with
  | case1 => 
      cases read
      exact ⟨[], (List.append_nil _).symm, rfl⟩
  | case2 | case3 => cases read
  | case4 index before b rest c tail first ih =>
      obtain ⟨behind, rfl, rfl⟩ := ih read
      refine ⟨c :: behind, ?_, ?_⟩
      · rw [List.reverse_cons, List.append_assoc, List.singleton_append]
      · rw [decodeChar_ok first]
        rfl

/-- Bytes are text exactly if they are the bytes of it. -/
theorem decodeChars_eq_ok_iff {input : Bytes} {cs : List Char} :
    decodeChars input = .ok cs ↔ input = encodeChars cs := by
  constructor
  · intro read
    obtain ⟨behind, rfl, bytes⟩ := decodeOnto_ok read
    exact bytes
  · rintro rfl
    exact decodeChars_encodeChars cs

/-- The bytes are those of a text. -/
def IsText (input : Bytes) : Prop := ∃ cs, input = encodeChars cs

theorem decodeChars_of_not_isText {input : Bytes} (other : ¬ IsText input) :
    ∃ e, decodeChars input = .error e := by
  cases read : decodeChars input with
  | error e => exact ⟨e, rfl⟩
  | ok cs => exact absurd ⟨cs, decodeChars_eq_ok_iff.mp read⟩ other

end HttpExchange.Utf8
