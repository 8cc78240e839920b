import HttpExchange.Proofs.Wire.Supply
import HttpExchange.Wire.Head

/-!
Readers that no read tells apart. How many bytes are in the buffer, how those behind it are cut into
segments, and how much the buffer holds make no difference to what is read off a connection, and
neither do the pauses, failures and silence that may come behind known bytes.
-/

namespace HttpExchange

/-- Both readers are in front of the same bytes, and behind these the same happens. -/
def Reader.Alike (r r' : Reader) : Prop := ∃ x tail, r.Holds x tail ∧ r'.Holds x tail

namespace Arrival

theorem take_rooms (patient : Bool) {room room' : Nat} (pos : 0 < room) (pos' : 0 < room')
    (arrivals : List Arrival) (c : Clock) :
    (∃ (b : UInt8) (first : Bytes) (rest : List Bytes) (first' : Bytes) (rest' : List Bytes)
        (tail : List Arrival) (c' : Clock),
      take patient room arrivals c = (.ok (b :: first), rest.map bytes ++ tail, c') ∧
      take patient room' arrivals c = (.ok (b :: first'), rest'.map bytes ++ tail, c') ∧
      first ++ rest.flatten = first' ++ rest'.flatten) ∨
    take patient room arrivals c = take patient room' arrivals c ∧
      ∀ b first, (take patient room arrivals c).1 ≠ .ok (b :: first) := by
  induction arrivals generalizing c with
  | nil =>
      refine .inr ⟨rfl, ?_⟩
      intro b first same
      cases same
  | cons arrival arrivals ih =>
      cases arrival with
      | bytes segment =>
          cases segment with
          | nil =>
              simp only [take, List.isEmpty_nil, if_true]
              exact ih c
          | cons b segment =>
              have whole : [b :: segment].flatten = b :: segment := List.flatten_singleton
              obtain ⟨first, rest, taken, all⟩ :=
                take_segments patient pos [b :: segment] arrivals c whole
              obtain ⟨first', rest', taken', all'⟩ :=
                take_segments patient pos' [b :: segment] arrivals c whole
              exact .inl ⟨b, first, rest, first', rest', arrivals, c, taken, taken',
                all.trans all'.symm⟩
      | fault e =>
          simp only [take]
          split
          · exact ih c
          · refine .inr ⟨rfl, ?_⟩
            intro b first same
            cases same
      | pause ms =>
          rcases waited : c.waitUntil (c.now + ms) with ⟨awake, c₁⟩
          simp only [take, waited]
          cases awake with
          | true => exact ih c₁
          | false =>
              refine .inr ⟨rfl, ?_⟩
              intro b first same
              cases same
      | «until» moment =>
          rcases waited : c.waitUntil moment with ⟨awake, c₁⟩
          simp only [take, waited]
          cases awake with
          | true => exact ih c₁
          | false =>
              refine .inr ⟨rfl, ?_⟩
              intro b first same
              cases same
      | silence =>
          refine .inr ⟨rfl, ?_⟩
          intro b first same
          cases same

end Arrival

namespace Reader

variable {r r₁ r' : Reader} {c c' : Clock} {x : Bytes} {tail : List Arrival}

theorem Holds.alike (holds : r.Holds x tail) (holds' : r'.Holds x tail) : r.Alike r' :=
  ⟨x, tail, holds, holds'⟩

theorem holds_buffer {buffer : Bytes} {capacity : Nat} (room : 0 < capacity)
    (segments : List Bytes) (tail : List Arrival) :
    ({ arrivals := segments.map .bytes ++ tail, buffer, capacity } : Reader).Holds
      (buffer ++ segments.flatten) tail :=
  ⟨room, segments, rfl, rfl⟩

/-- A reader in front of no bytes takes the next one off the script, whatever is in its segments. -/
theorem next_holds_nil (holds : r.Holds [] tail) (room : Nat) (c : Clock) :
    r.next room c = next room { arrivals := tail, capacity := r.capacity } c := by
  obtain ⟨_, segments, arrivals, whole⟩ := holds
  rw [List.append_eq_nil_iff] at whole
  unfold next
  simp only [whole.1, arrivals, Arrival.take_no_segments segments tail c whole.2]

namespace Alike

theorem next (alike : r.Alike r') {room room' : Nat} (pos : 0 < room) (pos' : 0 < room')
    {out : Outcome IoFault (Option UInt8)} (eq : r.next room c = (out, r₁, c')) :
    ∃ r₁', r'.next room' c = (out, r₁', c') ∧ r₁.Alike r₁' := by
  obtain ⟨x, tail, holds, holds'⟩ := alike
  cases x with
  | cons b x =>
      obtain ⟨r₂, read, later, _⟩ := next_holds holds pos c
      obtain ⟨r₂', read', later', _⟩ := next_holds holds' pos' c
      cases read.symm.trans eq
      exact ⟨r₂', read', later.alike later'⟩
  | nil =>
      rw [next_holds_nil holds] at eq
      rw [next_holds_nil holds']
      unfold Reader.next at eq ⊢
      rcases Arrival.take_rooms true pos pos' tail c with
        ⟨b, first, rest, first', rest', left, c₂, taken, taken', same⟩ | ⟨same, other⟩
      · simp only [taken] at eq
        simp only [taken']
        cases eq
        refine ⟨_, rfl, (holds_buffer holds.room rest left).alike ?_⟩
        rw [same]
        exact holds_buffer holds'.room rest' left
      · -- nothing but the script has changed
        have bare : ∀ left, ({ arrivals := left, capacity := r.capacity } : Reader).Alike
            { arrivals := left, capacity := r'.capacity } := fun left =>
          (holds_segments holds.room [] left).alike (holds_segments holds'.room [] left)
        simp only [← same]
        rcases taken : Arrival.take true room tail c with ⟨(_ | ⟨b, first⟩) | e | _, left, c₂⟩
        · simp only [taken] at eq ⊢
          cases eq
          exact ⟨_, rfl, bare left⟩
        · rw [taken] at other
          exact absurd rfl (other b first)
        · simp only [taken] at eq ⊢
          cases eq
          exact ⟨_, rfl, bare left⟩
        · simp only [taken] at eq ⊢
          cases eq
          exact ⟨_, rfl, bare left⟩

theorem room (alike : r.Alike r') : 0 < r.capacity ∧ 0 < r'.capacity := by
  obtain ⟨x, tail, holds, holds'⟩ := alike
  exact ⟨holds.room, holds'.room⟩

theorem next_filling (alike : r.Alike r') {out : Outcome IoFault (Option UInt8)}
    (eq : r.next r.capacity c = (out, r₁, c')) :
    ∃ r₁', r'.next r'.capacity c = (out, r₁', c') ∧ r₁.Alike r₁' :=
  alike.next alike.room.1 alike.room.2 eq

theorem next_counting (alike : r.Alike r') {count : Nat} {out : Outcome IoFault (Option UInt8)}
    (eq : r.next (max (count + 1) r.capacity) c = (out, r₁, c')) :
    ∃ r₁', r'.next (max (count + 1) r'.capacity) c = (out, r₁', c') ∧ r₁.Alike r₁' :=
  alike.next (by omega) (by omega) eq

theorem putBack (alike : r.Alike r') (before : Bytes) :
    (r.putBack before).Alike (r'.putBack before) := by
  obtain ⟨x, tail, ⟨room, segments, arrivals, whole⟩, ⟨room', segments', arrivals', whole'⟩⟩ := alike
  have front : ∀ {buffer rest : Bytes}, buffer ++ rest = x →
      before.reverseAux buffer ++ rest = before.reverse ++ x := by
    rintro buffer rest rfl
    rw [List.reverseAux_eq, List.append_assoc]
  exact ⟨before.reverse ++ x, tail, ⟨room, segments, arrivals, front whole⟩,
    ⟨room', segments', arrivals', front whole'⟩⟩

theorem lineOnto (alike : r.Alike r') {budget : Nat} {before : Bytes} {out : Outcome IoFault Bytes}
    (eq : lineOnto budget before r c = (out, r₁, c')) :
    ∃ r₁', Reader.lineOnto budget before r' c = (out, r₁', c') ∧ r₁.Alike r₁' := by
  fun_induction Reader.lineOnto budget before r c generalizing r' with
  | case1 =>
      cases eq
      exact ⟨r', rfl, alike⟩
  | case2 budget before r c r₂ c₂ read =>
      cases eq
      obtain ⟨r₂', read', alike'⟩ := alike.next_filling read
      refine ⟨r₂', ?_, alike'⟩
      rw [Reader.lineOnto]
      simp only [read', if_true]
  | case3 budget before r c b r₂ c₂ read other ih =>
      obtain ⟨r₂', read', alike'⟩ := alike.next_filling read
      obtain ⟨r₁', rest, later⟩ := ih alike' eq
      refine ⟨r₁', ?_, later⟩
      rw [Reader.lineOnto]
      simp only [read', if_neg other, rest]
  | case4 budget before r c r₂ c₂ read | case5 budget before r c e r₂ c₂ read =>
      cases eq
      obtain ⟨r₂', read', alike'⟩ := alike.next_filling read
      refine ⟨r₂', ?_, alike'⟩
      rw [Reader.lineOnto]
      simp only [read']
  | case6 budget before r c r₂ c₂ read =>
      cases eq
      obtain ⟨r₂', read', alike'⟩ := alike.next_filling read
      refine ⟨r₂'.putBack before, ?_, alike'.putBack before⟩
      rw [Reader.lineOnto]
      simp only [read']

theorem exactlyOnto (alike : r.Alike r') {count : Nat} {before : Bytes}
    {out : Outcome IoFault (Option Bytes)} (eq : exactlyOnto count before r c = (out, r₁, c')) :
    ∃ r₁', Reader.exactlyOnto count before r' c = (out, r₁', c') ∧ r₁.Alike r₁' := by
  fun_induction Reader.exactlyOnto count before r c generalizing r' with
  | case1 =>
      cases eq
      exact ⟨r', rfl, alike⟩
  | case2 count before r c b r₂ c₂ read ih =>
      obtain ⟨r₂', read', alike'⟩ := alike.next_counting read
      obtain ⟨r₁', rest, later⟩ := ih alike' eq
      refine ⟨r₁', ?_, later⟩
      rw [Reader.exactlyOnto]
      simp only [read', rest]
  | case3 count before r c r₂ c₂ read | case4 count before r c e r₂ c₂ read =>
      cases eq
      obtain ⟨r₂', read', alike'⟩ := alike.next_counting read
      refine ⟨r₂', ?_, alike'⟩
      rw [Reader.exactlyOnto]
      simp only [read']
  | case5 count before r c r₂ c₂ read =>
      cases eq
      obtain ⟨r₂', read', alike'⟩ := alike.next_counting read
      refine ⟨r₂'.putBack before, ?_, alike'.putBack before⟩
      rw [Reader.exactlyOnto]
      simp only [read']

theorem headOnto (alike : r.Alike r') {limit budget : Nat} {lines line : Bytes}
    {out : Outcome WireError (Option Bytes)}
    (eq : Wire.headOnto limit budget lines line r c = (out, r₁, c')) :
    ∃ r₁', Wire.headOnto limit budget lines line r' c = (out, r₁', c') ∧ r₁.Alike r₁' := by
  fun_induction Wire.headOnto limit budget lines line r c generalizing r' with
  | case1 =>
      cases eq
      exact ⟨r', rfl, alike⟩
  | case2 budget lines line r c b r₂ c₂ read other ih =>
      obtain ⟨r₂', read', alike'⟩ := alike.next_filling read
      obtain ⟨r₁', rest, later⟩ := ih alike' eq
      refine ⟨r₁', ?_, later⟩
      rw [Wire.headOnto]
      simp only [read', if_pos other, rest]
  | case3 budget lines line r c b r₂ c₂ read same filled ih =>
      obtain ⟨r₂', read', alike'⟩ := alike.next_filling read
      obtain ⟨r₁', rest, later⟩ := ih alike' eq
      refine ⟨r₁', ?_, later⟩
      rw [Wire.headOnto]
      simp only [read', if_neg same, if_pos filled, rest]
  | case4 budget lines line r c b r₂ c₂ read same blank none ih =>
      obtain ⟨r₂', read', alike'⟩ := alike.next_filling read
      obtain ⟨r₁', rest, later⟩ := ih alike' eq
      refine ⟨r₁', ?_, later⟩
      rw [Wire.headOnto]
      simp only [read', if_neg same, if_neg blank, if_pos none, rest]
  | case5 budget lines line r c b r₂ c₂ read same blank some =>
      cases eq
      obtain ⟨r₂', read', alike'⟩ := alike.next_filling read
      refine ⟨r₂', ?_, alike'⟩
      rw [Wire.headOnto]
      simp only [read', if_neg same, if_neg blank, if_neg some]
  | case6 budget lines line r c r₂ c₂ read | case7 budget lines line r c e r₂ c₂ read
  | case8 budget lines line r c r₂ c₂ read =>
      cases eq
      obtain ⟨r₂', read', alike'⟩ := alike.next_filling read
      refine ⟨r₂', ?_, alike'⟩
      rw [Wire.headOnto]
      simp only [read']

theorem readHead (alike : r.Alike r') {limit : Nat} {out : Outcome WireError (Option Bytes)}
    (eq : Wire.readHead limit r c = (out, r₁, c')) :
    ∃ r₁', Wire.readHead limit r' c = (out, r₁', c') ∧ r₁.Alike r₁' :=
  alike.headOnto eq

end Alike

end Reader

end HttpExchange
