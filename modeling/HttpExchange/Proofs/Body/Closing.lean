import HttpExchange.Proofs.Body.Stopping

/-!
Bodies that end with the connection. They are cut where the buffer ends, and where they exceed the
bound, but nothing is lost: all that arrives before the connection ends or fails is given, in order.
Only how the connection ended tells whether the body is whole.
-/

namespace HttpExchange

namespace Arrival

theorem length_take_le {patient : Bool} {room : Nat} {arrivals left : List Arrival} {c c' : Clock}
    {b : Bytes} (eq : take patient room arrivals c = (.ok b, left, c')) : b.length ≤ room := by
  fun_induction take patient room arrivals c with
  | case1 =>
      cases eq
      exact Nat.zero_le room
  | case2 _ _ _ _ ih | case4 _ _ _ _ ih | case6 _ _ _ _ _ ih | case8 _ _ _ _ _ ih => exact ih eq
  | case3 segment rest c some remaining =>
      cases eq
      exact List.length_take_le room segment
  | case5 | case7 | case9 | case10 => cases eq

end Arrival

namespace Reader

variable {r : Reader} {most : Nat} {x : Bytes} {tail : List Arrival}

/-- What there is: some of the bytes ahead, no more than the buffer can hold. -/
theorem available_holds (pos : 0 < most) (some : x ≠ []) (fits : r.buffer.length ≤ r.capacity)
    (holds : r.Holds x tail) (c : Clock) :
    ∃ b y r', x = b ++ y ∧ b ≠ [] ∧ b.length ≤ min r.capacity most ∧
      r.available most c = (.ok b, r', c) ∧ r'.Holds y tail ∧ r'.capacity = r.capacity ∧
      r'.buffer.length ≤ r'.capacity := by
  obtain ⟨most, rfl⟩ : ∃ n, most = n + 1 := ⟨most - 1, by omega⟩
  obtain ⟨room, segments, arrivals, rfl⟩ := holds
  unfold available
  cases buffered : r.buffer with
  | cons a buffer =>
      rw [buffered, List.length_cons] at fits
      refine ⟨(a :: buffer).take (most + 1), (a :: buffer).drop (most + 1) ++ segments.flatten, _,
        ?_, List.cons_ne_nil _ _, ?_, rfl, ⟨room, segments, arrivals, rfl⟩, rfl, ?_⟩
      · rw [← List.append_assoc, List.take_append_drop]
      · simp only [List.length_take, List.length_cons]
        omega
      · simp only [List.length_drop, List.length_cons]
        omega
  | nil =>
      rw [buffered, List.nil_append] at some
      obtain ⟨a, whole, same⟩ := List.exists_cons_of_ne_nil some
      obtain ⟨first, rest, taken, more⟩ :=
        Arrival.take_segments false room segments tail c same
      have short := Arrival.length_take_le taken
      rw [List.length_cons] at short
      simp only [arrivals, taken]
      refine ⟨(a :: first).take (most + 1), (a :: first).drop (most + 1) ++ rest.flatten, _, ?_,
        List.cons_ne_nil _ _, ?_, rfl, ⟨room, rest, rfl, rfl⟩, rfl, ?_⟩
      · rw [← List.append_assoc, List.take_append_drop, List.cons_append, more, ← same]
        rfl
      · simp only [List.length_take, List.length_cons]
        omega
      · simp only [List.length_drop, List.length_cons]
        omega

theorem available_spent (most : Nat) (holds : r.Holds [] []) (c : Clock) :
    ∃ r', r.available most c = (.ok [], r', c) := by
  obtain ⟨_, segments, arrivals, whole⟩ := holds
  rw [List.append_eq_nil_iff] at whole
  unfold available
  simp only [whole.1, arrivals, Arrival.take_no_segments segments [] c whole.2, Arrival.take,
    List.take_nil]
  exact ⟨_, rfl⟩

/-- A failure that stands there is told, even one that passes. -/
theorem available_fault {e : IoFault} {rest : List Arrival} (most : Nat)
    (holds : r.Holds [] (.fault e :: rest)) (c : Clock) :
    ∃ r', r.available most c = (.error e, r', c) := by
  obtain ⟨_, segments, arrivals, whole⟩ := holds
  rw [List.append_eq_nil_iff] at whole
  unfold available
  simp only [whole.1, arrivals, Arrival.take_no_segments segments _ c whole.2, Arrival.take,
    Bool.false_and, Bool.false_eq_true, if_false]
  exact ⟨_, rfl⟩

end Reader

namespace Decoder

variable {bound : Nat} {r : Reader} {x : Bytes} {tail : List Arrival}

/-- All that arrives is given before anything else happens. -/
theorem drain_arrived (bound : Nat) (fits : r.buffer.length ≤ r.capacity) (holds : r.Holds x tail)
    (c : Clock) :
    ∃ pieces r', pieces.flatten = x ∧
      (∀ b ∈ pieces, 1 ≤ b.length ∧ b.length ≤ min r.capacity (max 1 bound)) ∧ r'.Holds [] tail ∧
      (start .untilClose bound).drain r c =
        ((start .untilClose bound).drain r' c).behind pieces := by
  induction size : x.length using Nat.strongRecOn generalizing x r with
  | ind n ih =>
      subst size
      by_cases none : x = []
      · subst none
        exact ⟨[], r, rfl, List.forall_mem_nil _, holds, rfl⟩
      · obtain ⟨b, y, r₁, rfl, some, small, read, holds₁, same, fits₁⟩ :=
          Reader.available_holds (show 0 < max 1 bound by omega) none fits holds c
        have pos := List.length_pos_iff.mpr some
        have shorter : y.length < (b ++ y).length := by
          rw [List.length_append]
          omega
        obtain ⟨pieces, r', rfl, each, holds', rest⟩ := ih y.length shorter fits₁ holds₁ rfl
        have each := List.forall_mem_cons.mpr ⟨⟨pos, small⟩, same ▸ each⟩
        refine ⟨b :: pieces, r', rfl, each, holds', ?_⟩
        have step :
            advance .untilClose (max 1 bound) r c = (.ok (.data b), .untilClose, r₁, c) := by
          rw [advance, read]
          simp only [List.isEmpty_iff, if_neg some]
        calc (start .untilClose bound).drain r c
          _ = ((start .untilClose bound).drain r₁ c).behind [b] :=
              drain_of_advance_data (d := start .untilClose bound) step
          _ = (((start .untilClose bound).drain r' c).behind pieces).behind [b] := by rw [rest]
          _ = ((start .untilClose bound).drain r' c).behind (b :: pieces) :=
              Decoded.behind_behind [b] pieces _

/-- A body that ends with the connection gives all bytes that were received, in order and in pieces
that are not empty and longer neither than the buffer nor than the bound. It ends in order exactly if
the input ended and no read failed before. A failure ends it behind the last byte: with a body that is
cut short if the peer has gone away, and else with the failure itself. -/
theorem drain_closing (bound : Nat) (fits : r.buffer.length ≤ r.capacity) (holds : r.Holds x tail)
    (last : tail = [] ∨ ∃ e rest, tail = .fault e :: rest) (c : Clock) :
    let body := (start .untilClose bound).drain r c
    body.pieces.flatten = x ∧
      (∀ b ∈ body.pieces, 1 ≤ b.length ∧ b.length ≤ min r.capacity (max 1 bound)) ∧
      (body.ending = .ok () ↔ tail = []) ∧
      ∀ e rest, tail = .fault e :: rest → body.ending = .error
        (if e.kind ∈ [.unexpectedEof, .connectionReset, .connectionAborted, .brokenPipe] then
          .incomplete
        else .io e) := by
  intro body
  obtain ⟨pieces, r₁, rfl, each, holds₁, drained⟩ := drain_arrived bound fits holds c
  have behind : body = ((start .untilClose bound).drain r₁ c).behind pieces := drained
  rcases last with rfl | ⟨e, rest, rfl⟩
  · obtain ⟨r', read⟩ := Reader.available_spent (max 1 bound) holds₁ c
    have step : advance .untilClose (max 1 bound) r₁ c = (.ok .ended, .done, r', c) := by
      rw [advance, read]
      rfl
    have ended := drain_of_advance_ended (d := start .untilClose bound) step
    have whole := behind.trans (congrArg (Decoded.behind pieces) ended)
    rw [whole, Decoded.behind, List.append_nil]
    exact ⟨rfl, each, ⟨fun _ => rfl, fun _ => rfl⟩, fun _ _ other => by cases other⟩
  · obtain ⟨r', read⟩ := Reader.available_fault (max 1 bound) holds₁ c
    have step : advance .untilClose (max 1 bound) r₁ c =
        (.error (.ofRead e), .untilClose, r', c) := by
      rw [advance, read]
    have failed := drain_of_advance_error (d := start .untilClose bound) step
    have whole := behind.trans (congrArg (Decoded.behind pieces) failed)
    rw [whole, Decoded.behind, List.append_nil]
    have unlike : Outcome.error (WireError.ofRead e) = .ok () ↔ Arrival.fault e :: rest = [] := by
      constructor <;> intro other <;> cases other
    refine ⟨rfl, each, unlike, fun _ _ same => ?_⟩
    cases same
    exact congrArg Outcome.error (WireError.ofRead_eq e)

/-- Two segments for a buffer of two bytes and pieces of up to three, and then the end, a peer that
has gone away, or an interruption. -/
theorem drain_closing_resets :
    let r (tail : List Arrival) : Reader :=
      { arrivals := [.bytes [1, 2, 3], .bytes [4]] ++ tail, capacity := 2 }
    let body (tail : List Arrival) := (start .untilClose 3).drain (r tail) { limit := 0 }
    let whole (tail : List Arrival) : Prop := (r tail).Holds [1, 2, 3, 4] tail ∧
      (body tail).pieces.flatten = [1, 2, 3, 4] ∧ ∀ b ∈ (body tail).pieces, b.length ≤ 2
    let gone : IoFault := ⟨.connectionReset, "reset"⟩
    let interrupted : IoFault := ⟨.interrupted, "again"⟩
    (whole [] ∧ (body []).ending = .ok ()) ∧
      (whole [.fault gone] ∧ (body [.fault gone]).ending = .error .incomplete) ∧
      whole [.fault interrupted] ∧
        (body [.fault interrupted]).ending = .error (.io interrupted) := by
  intro r body whole gone interrupted
  have holds (tail : List Arrival) : (r tail).Holds [1, 2, 3, 4] tail :=
    Reader.holds_segments Nat.two_pos [[1, 2, 3], [4]] tail
  have fits (tail : List Arrival) : (r tail).buffer.length ≤ (r tail).capacity := Nat.zero_le 2
  have told (tail : List Arrival) (last : tail = [] ∨ ∃ e rest, tail = .fault e :: rest) :=
    drain_closing 3 (fits tail) (holds tail) last { limit := 0 }
  have kept (tail : List Arrival) (last : tail = [] ∨ ∃ e rest, tail = .fault e :: rest) :
      whole tail :=
    ⟨holds tail, (told tail last).1, fun b member => ((told tail last).2.1 b member).2⟩
  have fails (e : IoFault) :
      [Arrival.fault e] = [] ∨ ∃ e' rest, [Arrival.fault e] = .fault e' :: rest := .inr ⟨e, [], rfl⟩
  exact ⟨⟨kept [] (.inl rfl), (told [] (.inl rfl)).2.2.1.mpr rfl⟩,
    ⟨kept _ (fails gone), (told _ (fails gone)).2.2.2 gone [] rfl⟩,
    kept _ (fails interrupted), (told _ (fails interrupted)).2.2.2 interrupted [] rfl⟩

end Decoder

end HttpExchange
