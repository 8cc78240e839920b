import HttpExchange.Proofs.Body.History

/-!
Links that are alike to everyone who writes to them and reads the body off them. What a likeness
has to say is said of a single read and a single write; it carries over to producers, to a delivery
and to all that a body is collected from.
-/

namespace HttpExchange

/-- Each call on one of two links that are alike has the outcome that it has on the other one, and
they are alike behind it. -/
structure Link.Likeness (S : Link → Link → Prop) : Prop where
  clock : ∀ {l l' : Link}, S l l' → l'.clock = l.clock
  body : ∀ {l l' : Link}, S l l' → l'.body = l.body
  timed : ∀ {l l' : Link} (c : Clock), S l l' → S { l with clock := c } { l' with clock := c }
  readPiece : ∀ {l l' l₁ : Link} {out : Outcome WireError Piece}, S l l' →
    l.readPiece = (out, l₁) → ∃ l₁', l'.readPiece = (out, l₁') ∧ S l₁ l₁'
  writeAll : ∀ {l l' l₁ : Link} {b : Bytes} {out : Outcome WireError Unit}, S l l' →
    l.writeAll b = (out, l₁) → ∃ l₁', l'.writeAll b = (out, l₁') ∧ S l₁ l₁'
  flush : ∀ {l l' l₁ : Link} {out : Outcome WireError Unit}, S l l' →
    l.flush = (out, l₁) → ∃ l₁', l'.flush = (out, l₁') ∧ S l₁ l₁'
  notePull : ∀ {l l' : Link}, S l l' → S l.notePull l'.notePull
  shutdown : ∀ {l l' : Link}, S l l' → S l.shutdown l'.shutdown

theorem Producer.collectOnto_eq (before : List Bytes) (p : Producer) (l : Link) :
    collectOnto before p l = match p.pull l with
      | (.chunk b, p, l) => collectOnto (b :: before) p l
      | (.ended, _, l) => (.ok before.reverse.flatten, l)
      | (.failed cause, _, l) => (.error cause.whileReading, l)
      | (.cancelled, _, l) => (.stuck, l)
      | (.stuck, _, l) => (.stuck, l) := by
  rw [collectOnto]
  split <;> next asked => rw [asked]

namespace Link.Likeness

variable {S : Link → Link → Prop} {l l' l₁ : Link} {p p₁ : Producer} {pulled : Pull}
  {permit permit₁ : Bool} {d d₁ : Delivery} {b : Bytes}

theorem waitUntil (like : Likeness S) (alike : S l l') {moment : Nat} {awake : Bool}
    (eq : l.waitUntil moment = (awake, l₁)) :
    ∃ l₁', l'.waitUntil moment = (awake, l₁') ∧ S l₁ l₁' := by
  rcases waited : l.clock.waitUntil moment with ⟨answer, clock⟩
  rw [Link.waitUntil, waited] at eq
  rw [Link.waitUntil, like.clock alike, waited]
  cases eq
  exact ⟨_, rfl, like.timed clock alike⟩

theorem waitForever (like : Likeness S) (alike : S l l') : S l.waitForever l'.waitForever := by
  rw [Link.waitForever, Link.waitForever, like.clock alike]
  exact like.timed _ alike

theorem send (like : Likeness S) (alike : S l l') {out : Outcome WireError Unit}
    (eq : l.send b = (out, l₁)) : ∃ l₁', l'.send b = (out, l₁') ∧ S l₁ l₁' := by
  rw [Delivery.send_eq] at eq ⊢
  rcases wrote : l.writeAll b with ⟨answer, l₂⟩
  obtain ⟨l₂', wrote', later⟩ := like.writeAll alike wrote
  rw [wrote] at eq
  rw [wrote']
  rcases answer with _ | e | _
  · exact like.flush later eq
  · cases eq
    exact ⟨l₂', rfl, later⟩
  · cases eq
    exact ⟨l₂', rfl, later⟩

theorem pullScript (like : Likeness S) (alike : S l l') {steps steps₁ : List Yield}
    (eq : Producer.pullScript permit steps l = (pulled, steps₁, permit₁, l₁)) :
    ∃ l₁', Producer.pullScript permit steps l' = (pulled, steps₁, permit₁, l₁') ∧ S l₁ l₁' := by
  have now : ∀ {l l'}, S l l' → l'.clock.now = l.clock.now := fun alike =>
    congrArg Clock.now (like.clock alike)
  fun_induction Producer.pullScript permit steps l generalizing l' with
  | case1 =>
      cases eq
      exact ⟨l', rfl, alike⟩
  | case2 | case3 | case4 =>
      cases eq
      exact ⟨_, rfl, like.notePull alike⟩
  | case5 _ _ _ ih => exact ih alike eq
  | case6 rest l =>
      cases eq
      exact ⟨l', if_pos rfl, alike⟩
  | case7 permit rest l open_ ih =>
      obtain ⟨l₁', later, alike'⟩ := ih alike eq
      refine ⟨l₁', ?_, alike'⟩
      rw [Producer.pullScript, if_neg open_, later]
  | case8 ms rest l =>
      cases eq
      refine ⟨l', ?_, alike⟩
      rw [Producer.pullScript, if_pos rfl, now alike]
  | case9 permit ms rest l open_ l₂ awake ih =>
      obtain ⟨l₂', awake', alike'⟩ := like.waitUntil alike awake
      obtain ⟨l₁', later, alike''⟩ := ih alike' eq
      refine ⟨l₁', ?_, alike''⟩
      rw [Producer.pullScript, if_neg open_, now alike, awake']
      exact later
  | case10 permit ms rest l open_ l₂ asleep =>
      cases eq
      obtain ⟨l₂', asleep', alike'⟩ := like.waitUntil alike asleep
      refine ⟨l₂', ?_, alike'⟩
      rw [Producer.pullScript, if_neg open_, now alike, asleep']
  | case11 moment rest l =>
      cases eq
      exact ⟨l', if_pos rfl, alike⟩
  | case12 permit moment rest l open_ l₂ awake ih =>
      obtain ⟨l₂', awake', alike'⟩ := like.waitUntil alike awake
      obtain ⟨l₁', later, alike''⟩ := ih alike' eq
      refine ⟨l₁', ?_, alike''⟩
      rw [Producer.pullScript, if_neg open_, awake']
      exact later
  | case13 permit moment rest l open_ l₂ asleep =>
      cases eq
      obtain ⟨l₂', asleep', alike'⟩ := like.waitUntil alike asleep
      refine ⟨l₂', ?_, alike'⟩
      rw [Producer.pullScript, if_neg open_, asleep']
  | case14 rest l =>
      cases eq
      exact ⟨l', if_pos rfl, alike⟩
  | case15 permit rest l open_ =>
      cases eq
      refine ⟨_, ?_, like.waitForever alike⟩
      rw [Producer.pullScript, if_neg open_]

theorem ask (like : Likeness S) (alike : S l l') (eq : p.ask l = (pulled, p₁, permit, l₁)) :
    ∃ l₁', p.ask l' = (pulled, p₁, permit, l₁') ∧ S l₁ l₁' := by
  cases p with
  | script steps =>
      rcases asked : Producer.pullScript false steps l with ⟨answer, steps₁, granted, l₂⟩
      obtain ⟨l₂', asked', later⟩ := like.pullScript alike asked
      rw [Producer.ask, asked] at eq
      rw [Producer.ask, asked']
      cases eq
      exact ⟨l₂', rfl, later⟩
  | known b =>
      cases eq
      exact ⟨l', rfl, alike⟩
  | incoming =>
      rcases read : l.readPiece with ⟨answer, l₂⟩
      obtain ⟨l₂', read', later⟩ := like.readPiece alike read
      rw [Producer.ask, read] at eq
      rw [Producer.ask, read']
      rcases answer with (b | _) | e | _
      all_goals
        cases eq
        exact ⟨l₂', rfl, later⟩

theorem askBefore (like : Likeness S) (alike : S l l') {moment : Nat}
    (eq : p.askBefore moment l = (pulled, p₁, permit, l₁)) :
    ∃ l₁', p.askBefore moment l' = (pulled, p₁, permit, l₁') ∧ S l₁ l₁' := by
  have clock := like.clock alike
  unfold Producer.askBefore at eq ⊢
  rw [clock]
  split at eq
  · next late =>
      rw [if_pos late]
      cases eq
      exact ⟨l', rfl, alike⟩
  · next early =>
      rw [if_neg early]
      rcases asked : p.ask { l with clock := l.clock.within moment } with ⟨answer, p₂, granted, l₂⟩
      obtain ⟨l₂', asked', later⟩ := like.ask (like.timed _ alike) asked
      have now : l₂'.clock.now = l₂.clock.now := congrArg Clock.now (like.clock later)
      have wake : l₂'.clock.wake = l₂.clock.wake := congrArg Clock.wake (like.clock later)
      rw [asked] at eq
      rw [asked']
      cases answer with
      | stuck =>
          simp only at eq ⊢
          rw [now, wake]
          split at eq
          · next ends =>
              rw [if_pos ends]
              cases eq
              exact ⟨_, rfl, like.timed _ later⟩
          · next goes =>
              rw [if_neg goes]
              cases eq
              exact ⟨_, rfl, like.timed _ later⟩
      | chunk b | failed cause | ended | cancelled =>
          simp only at eq ⊢
          rw [now]
          cases eq
          exact ⟨_, rfl, like.timed _ later⟩

theorem pull (like : Likeness S) (alike : S l l') (eq : p.pull l = (pulled, p₁, l₁)) :
    ∃ l₁', p.pull l' = (pulled, p₁, l₁') ∧ S l₁ l₁' := by
  rcases asked : p.ask l with ⟨answer, p₂, granted, l₂⟩
  obtain ⟨l₂', asked', later⟩ := like.ask alike asked
  rw [Producer.pull, asked] at eq
  rw [Producer.pull, asked']
  cases eq
  exact ⟨l₂', rfl, later⟩

theorem collectOnto (like : Likeness S) (alike : S l l') {before : List Bytes}
    {out : Outcome BodyError Bytes} (eq : Producer.collectOnto before p l = (out, l₁)) :
    ∃ l₁', Producer.collectOnto before p l' = (out, l₁') ∧ S l₁ l₁' := by
  fun_induction Producer.collectOnto before p l generalizing l' with
  | case1 before p l b p₂ l₂ asked ih =>
      obtain ⟨l₂', asked', later⟩ := like.pull alike asked
      obtain ⟨l₁', rest, alike'⟩ := ih later eq
      refine ⟨l₁', ?_, alike'⟩
      rw [Producer.collectOnto_eq, asked']
      exact rest
  | case2 before p l p₂ l₂ asked | case3 before p l cause p₂ l₂ asked
  | case4 before p l p₂ l₂ asked | case5 before p l p₂ l₂ asked =>
      obtain ⟨l₂', asked', later⟩ := like.pull alike asked
      cases eq
      refine ⟨l₂', ?_, later⟩
      rw [Producer.collectOnto_eq, asked']

theorem demand (like : Likeness S) (alike : S l l') {deadline : Option Nat}
    (eq : d.demand deadline p l = (pulled, p₁, d₁, l₁)) :
    ∃ l₁', d.demand deadline p l' = (pulled, p₁, d₁, l₁') ∧ S l₁ l₁' := by
  unfold Delivery.demand at eq ⊢
  split at eq
  · next met =>
      rw [if_pos met]
      cases eq
      exact ⟨l', rfl, alike⟩
  · next open_ =>
      rw [if_neg open_]
      cases deadline with
      | none =>
          rcases asked : p.ask l with ⟨answer, p₂, granted, l₂⟩
          obtain ⟨l₂', asked', later⟩ := like.ask alike asked
          simp only [asked] at eq
          simp only [asked']
          cases eq
          exact ⟨l₂', rfl, later⟩
      | some moment =>
          rcases asked : p.askBefore moment l with ⟨answer, p₂, granted, l₂⟩
          obtain ⟨l₂', asked', later⟩ := like.askBefore alike asked
          simp only [asked] at eq
          simp only [asked']
          cases eq
          exact ⟨l₂', rfl, later⟩

theorem deliver (like : Likeness S) (alike : S l l') {out : Outcome BodyError Unit}
    (eq : d.deliver b l = (out, d₁, l₁)) :
    ∃ l₁', d.deliver b l' = (out, d₁, l₁') ∧ S l₁ l₁' := by
  unfold Delivery.deliver at eq ⊢
  split at eq
  · cases eq
    exact ⟨l', rfl, alike⟩
  · rcases wrote : l.writeAll (d.head.getD [] ++ d.framing.frame b) with ⟨answer, l₂⟩
    obtain ⟨l₂', wrote', later⟩ := like.writeAll alike wrote
    rw [wrote] at eq
    rw [wrote']
    rcases answer with _ | e | _
    all_goals
      cases eq
      exact ⟨l₂', rfl, later⟩

theorem finish (like : Likeness S) (alike : S l l') {out : Outcome BodyError Nat}
    (eq : d.finish l = (out, d₁, l₁)) : ∃ l₁', d.finish l' = (out, d₁, l₁') ∧ S l₁ l₁' := by
  unfold Delivery.finish at eq ⊢
  split at eq
  · cases eq
    exact ⟨l', rfl, alike⟩
  · rcases sent : l.send (d.head.getD [] ++ d.framing.terminator) with ⟨answer, l₂⟩
    obtain ⟨l₂', sent', later⟩ := like.send alike sent
    rw [sent] at eq
    rw [sent']
    cases eq
    exact ⟨l₂', rfl, later⟩

theorem loop (like : Likeness S) (alike : S l l') {patience : Patience} {last : Nat}
    {out : Outcome BodyError Nat} (eq : d.loop patience last p l = (out, d₁, l₁)) :
    ∃ l₁', d.loop patience last p l' = (out, d₁, l₁') ∧ S l₁ l₁' := by
  fun_induction Delivery.loop patience last d p l generalizing l' with
  | case1 last d p l b p₂ d₂ l₂ asked none ih =>
      obtain ⟨l₂', asked', later⟩ := like.demand alike asked
      obtain ⟨l₁', rest, alike'⟩ := ih later eq
      refine ⟨l₁', ?_, alike'⟩
      rw [Delivery.loop_eq, asked']
      simp only [if_pos none, like.clock later, rest]
  | case2 last d p l b p₂ d₂ l₂ asked some d₃ l₃ wrote l₄ passed ih =>
      obtain ⟨l₂', asked', alike₂⟩ := like.demand alike asked
      obtain ⟨l₃', wrote', alike₃⟩ := like.deliver alike₂ wrote
      obtain ⟨l₄', passed', alike₄⟩ := like.flush alike₃ passed
      obtain ⟨l₁', rest, alike'⟩ := ih alike₄ eq
      refine ⟨l₁', ?_, alike'⟩
      rw [Delivery.loop_eq, asked']
      simp only [if_neg some, wrote', passed', like.clock alike₂, rest]
  | case3 last d p l b p₂ d₂ l₂ asked some d₃ l₃ wrote e l₄ passed
  | case4 last d p l b p₂ d₂ l₂ asked some d₃ l₃ wrote l₄ passed =>
      obtain ⟨l₂', asked', alike₂⟩ := like.demand alike asked
      obtain ⟨l₃', wrote', alike₃⟩ := like.deliver alike₂ wrote
      obtain ⟨l₄', passed', alike₄⟩ := like.flush alike₃ passed
      cases eq
      refine ⟨l₄', ?_, alike₄⟩
      rw [Delivery.loop_eq, asked']
      simp only [if_neg some, wrote', passed']
  | case5 last d p l b p₂ d₂ l₂ asked some e d₃ l₃ wrote
  | case6 last d p l b p₂ d₂ l₂ asked some d₃ l₃ wrote =>
      obtain ⟨l₂', asked', alike₂⟩ := like.demand alike asked
      obtain ⟨l₃', wrote', alike₃⟩ := like.deliver alike₂ wrote
      cases eq
      refine ⟨l₃', ?_, alike₃⟩
      rw [Delivery.loop_eq, asked']
      simp only [if_neg some, wrote']
  | case8 last d p l p₂ d₂ l₂ asked =>
      obtain ⟨l₂', asked', alike₂⟩ := like.demand alike asked
      obtain ⟨l₁', finished, later⟩ := like.finish alike₂ eq
      refine ⟨l₁', ?_, later⟩
      rw [Delivery.loop_eq, asked']
      exact finished
  | case7 last d p l cause p₂ d₂ l₂ asked | case9 last d p l p₂ d₂ l₂ asked
  | case10 last d p l p₂ d₂ l₂ asked =>
      obtain ⟨l₂', asked', alike₂⟩ := like.demand alike asked
      cases eq
      refine ⟨l₂', ?_, alike₂⟩
      rw [Delivery.loop_eq, asked']

theorem start (like : Likeness S) (alike : S l l') {patience : Patience}
    {out : Outcome BodyError Nat} (eq : d.start patience p l = (out, d₁, l₁)) :
    ∃ l₁', d.start patience p l' = (out, d₁, l₁') ∧ S l₁ l₁' := by
  rcases passed : l.flush with ⟨answer, l₂⟩
  obtain ⟨l₂', passed', later⟩ := like.flush alike passed
  rw [Delivery.start, passed] at eq
  rw [Delivery.start, passed']
  rcases answer with _ | e | _
  · simp only [like.clock alike]
    exact like.loop later eq
  · cases eq
    exact ⟨l₂', rfl, later⟩
  · cases eq
    exact ⟨l₂', rfl, later⟩

theorem run (like : Likeness S) (alike : S l l') {patience : Patience}
    {out : Outcome BodyError Nat} (eq : d.run patience p l = (out, d₁, l₁)) :
    ∃ l₁', d.run patience p l' = (out, d₁, l₁') ∧ S l₁ l₁' := by
  unfold Delivery.run at eq ⊢
  cases stage : d.stage with
  | failed | finished =>
      rw [stage] at eq
      cases eq
      exact ⟨l', rfl, alike⟩
  | ready =>
      rcases started : d.start patience p l with ⟨answer, d₂, l₂⟩
      obtain ⟨l₂', started', later⟩ := like.start alike started
      rw [stage] at eq
      simp only [started] at eq
      simp only [started']
      cases eq
      exact ⟨l₂', rfl, later⟩

end Link.Likeness

end HttpExchange
