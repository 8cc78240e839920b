import HttpExchange.Lifecycle

/-!
What the phase of an exchange tells about its past. An exchange begins with its head or with its
end, and once it is aborted only its history tells these two apart.
-/

namespace HttpExchange

namespace Phase

variable {phase next : Phase}

theorem allows_opened (allowed : opened.allows next = true) : next = headSent ∨ next = aborted := by
  cases next with
  | headSent => exact .inl rfl
  | aborted => exact .inr rfl
  | opened | streaming | completed => cases allowed

theorem isCommitted_of_allows (allowed : phase.allows next = true) : next.isCommitted = true := by
  cases next with
  | headSent | streaming | completed | aborted => rfl
  | opened => cases phase <;> cases allowed

theorem not_allows_of_isTerminal (terminal : phase.isTerminal = true) (next : Phase) :
    phase.allows next = false := by
  cases phase with
  | completed | aborted => cases next <;> rfl
  | opened | headSent | streaming => cases terminal

end Phase

namespace Exchange

inductive Call where
  | advance (next : Phase)
  | abort
  deriving DecidableEq, Repr

def Call.target : Call → Phase
  | advance next => next
  | abort => .aborted

def call (x : Exchange) : Call → Bool × Exchange
  | .advance next => x.advance next
  | .abort => x.abort

def calls (x : Exchange) : List Call → List (Call × Bool) × Exchange
  | [] => ([], x)
  | c :: cs =>
    let (moved, x) := x.call c
    let (log, x) := x.calls cs
    ((c, moved) :: log, x)

variable {x : Exchange} {c : Call}

theorem call_allowed (allowed : x.phase.allows c.target = true) :
    x.call c = (true, { x with phase := c.target }) := by
  cases c <;> exact if_pos allowed

theorem call_refused (refused : x.phase.allows c.target = false) : x.call c = (false, x) := by
  cases c <;> exact if_neg (Bool.eq_false_iff.mp refused)

theorem call_cases (x : Exchange) (c : Call) :
    x.phase.allows c.target = true ∧ x.call c = (true, { x with phase := c.target }) ∨
      x.call c = (false, x) := by
  cases allowed : x.phase.allows c.target with
  | true => exact .inl ⟨rfl, call_allowed allowed⟩
  | false => exact .inr (call_refused allowed)

theorem calls_terminal (terminal : x.phase.isTerminal = true) (cs : List Call) :
    (x.calls cs).2 = x ∧ ∀ entry ∈ (x.calls cs).1, entry.2 = false := by
  induction cs with
  | nil => exact ⟨rfl, List.forall_mem_nil _⟩
  | cons c cs ih =>
      simp only [calls, call_refused (Phase.not_allows_of_isTerminal terminal c.target)]
      exact ⟨ih.1, List.forall_mem_cons.mpr ⟨rfl, ih.2⟩⟩

theorem calls_committed (committed : x.phase.isCommitted = true) (cs : List Call) :
    (x.calls cs).2.phase.isCommitted = true := by
  induction cs generalizing x with
  | nil => exact committed
  | cons c cs ih =>
      rcases call_cases x c with ⟨allowed, moved⟩ | refused
      · simp only [calls, moved]
        exact ih (Phase.isCommitted_of_allows allowed)
      · simp only [calls, refused]
        exact ih committed

/-- How an exchange began: not yet, with its head, or with its end. What is called in front of that
does not move it. -/
inductive Begun : List (Call × Bool) → Phase → Prop where
  | not {log : List (Call × Bool)} (still : ∀ entry ∈ log, entry.2 = false) : Begun log .opened
  | head {phase : Phase} (front back : List (Call × Bool))
      (still : ∀ entry ∈ front, entry.2 = false) (behind : phase.isCommitted = true) :
      Begun (front ++ (.advance .headSent, true) :: back) phase
  | ended {c : Call} (front back : List (Call × Bool))
      (still : ∀ entry ∈ front, entry.2 = false) (target : c.target = .aborted)
      (later : ∀ entry ∈ back, entry.2 = false) : Begun (front ++ (c, true) :: back) .aborted

theorem Begun.cons {log : List (Call × Bool)} {phase : Phase} (begun : Begun log phase) (c : Call) :
    Begun ((c, false) :: log) phase := by
  cases begun with
  | not still => exact .not (List.forall_mem_cons.mpr ⟨rfl, still⟩)
  | head front back still behind =>
      exact .head ((c, false) :: front) back (List.forall_mem_cons.mpr ⟨rfl, still⟩) behind
  | ended front back still target later =>
      exact .ended ((c, false) :: front) back (List.forall_mem_cons.mpr ⟨rfl, still⟩) target later

theorem calls_begun (opened : x.phase = .opened) (cs : List Call) :
    Begun (x.calls cs).1 (x.calls cs).2.phase := by
  induction cs with
  | nil => exact opened ▸ .not (List.forall_mem_nil _)
  | cons c cs ih =>
      rcases call_cases x c with ⟨allowed, moved⟩ | refused
      · rw [opened] at allowed
        simp only [calls, moved]
        rcases Phase.allows_opened allowed with head | ended
        · obtain rfl : c = .advance .headSent := by
            cases c with
            | advance next => exact congrArg Call.advance head
            | abort => cases head
          exact .head [] _ (List.forall_mem_nil _) (calls_committed rfl cs)
        · obtain ⟨same, later⟩ := calls_terminal (x := { x with phase := .aborted }) rfl cs
          rw [ended, same]
          exact .ended [] _ (List.forall_mem_nil _) ended later
      · simp only [calls, refused]
        exact ih.cons c

theorem Begun.isCommitted_iff {log : List (Call × Bool)} {phase : Phase}
    (begun : Begun log phase) :
    phase.isCommitted = true ↔ (.advance .headSent, true) ∈ log ∨ phase = .aborted := by
  cases begun with
  | not still =>
      refine ⟨nofun, ?_⟩
      rintro (sent | aborted)
      · cases still _ sent
      · cases aborted
  | head _ _ _ behind =>
      exact iff_of_true behind (.inl (List.mem_append_right _ List.mem_cons_self))
  | ended => exact iff_of_true rfl (.inr rfl)

theorem calls_append (x : Exchange) (cs more : List Call) :
    x.calls (cs ++ more) =
      ((x.calls cs).1 ++ ((x.calls cs).2.calls more).1, ((x.calls cs).2.calls more).2) := by
  induction cs generalizing x with
  | nil => rfl
  | cons c cs ih => simp only [List.cons_append, calls, ih]

/-- The phase tells whether the head was sent, unless the exchange is aborted: one that was aborted
before its head counts as committed as well. What counts as committed does so for good, and nothing
moves an exchange behind its end. -/
theorem committed_unless_aborted (id : Nat) (cs : List Call) :
    ∃ log x, calls { id } cs = (log, x) ∧ Begun log x.phase ∧
      (x.phase.isCommitted = true ↔
        (.advance .headSent, true) ∈ log ∨ x.phase = .aborted) ∧
      ∀ more, ∃ later x', calls { id } (cs ++ more) = (log ++ later, x') ∧
        (x.phase.isCommitted = true → x'.phase.isCommitted = true) ∧
        (x.phase.isTerminal = true → x' = x ∧ ∀ entry ∈ later, entry.2 = false) := by
  have begun : Begun (calls { id } cs).1 (calls { id } cs).2.phase := calls_begun rfl cs
  refine ⟨_, _, rfl, begun, begun.isCommitted_iff, fun more => ?_⟩
  refine ⟨_, _, calls_append { id } cs more, fun committed => ?_, fun terminal => ?_⟩
  · exact calls_committed committed more
  · exact calls_terminal terminal more

/-- The flag does not say whether the head was sent: here it never was. -/
theorem aborted_before_head :
    ¬ ∀ id cs, (calls { id } cs).2.phase.isCommitted = true ↔
      (.advance .headSent, true) ∈ (calls { id } cs).1 := by
  intro truthful
  have sent : (.advance .headSent, true) ∈ (calls { id := 1 } [.abort]).1 :=
    (truthful 1 [.abort]).mp rfl
  exact absurd sent (by decide)

end Exchange

end HttpExchange
