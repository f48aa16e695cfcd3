import QuotaManager.Logic.Program

/-! Two programs that take turns on one environment. Seen through a view of it each of
them is a list of edits. A part of the view that both edit with one request each depends
on nothing but the order of these two requests. -/

namespace Program
variable {σ ρ χ γ α β : Type} {reply : ρ → Type}

section interleave
variable (serve : σ → (request : ρ) → reply request × σ)

/-- A turn of a program; one that has ended does nothing. -/
def advance : Program ρ reply α → σ → Program ρ reply α × σ
  | .done value, world => (.done value, world)
  | .ask request next, world => (next (serve world request).1, (serve world request).2)

/-- The first program has the turns that are `true`, the second one the others. -/
def interleave : List Bool → Program ρ reply α → Program ρ reply β → σ →
    Program ρ reply α × Program ρ reply β × σ
  | [], first, second, world => (first, second, world)
  | true :: turns, first, second, world =>
    interleave turns (first.advance serve world).1 second (first.advance serve world).2
  | false :: turns, first, second, world =>
    interleave turns first (second.advance serve world).1 (second.advance serve world).2

variable (view : σ → χ) (kept : σ → Prop)

/-- What the requests of a program do to the view, one after the other. -/
def Edits : Program ρ reply α → List (χ → χ) → Prop
  | .done _, [] => True
  | .ask request next, edit :: rest => ∀ world, kept world →
      kept (serve world request).2 ∧ view (serve world request).2 = edit (view world) ∧
        (next (serve world request).1).Edits rest
  | _, _ => False

end interleave

/-- The edits of both lists in the order of the turns. -/
def merge {ε : Type} : List Bool → List ε → List ε → List ε
  | [], _, _ => []
  | true :: turns, edit :: first, second => edit :: merge turns first second
  | true :: turns, [], second => merge turns [] second
  | false :: turns, first, edit :: second => edit :: merge turns first second
  | false :: turns, first, [] => merge turns first []

section Edits
variable {serve : σ → (request : ρ) → reply request × σ} {view : σ → χ} {kept : σ → Prop} {first : Program ρ reply α}
  {second : Program ρ reply β} {edits others : List (χ → χ)} {world : σ}

theorem Edits.ended (does : first.Edits serve view kept []) : ∃ value, first = .done value := by
  cases first with
  | done value => exact ⟨value, rfl⟩
  | ask request next => exact does.elim

theorem Edits.advance {edit : χ → χ} (does : first.Edits serve view kept (edit :: edits)) (start : kept world) :
    kept (first.advance serve world).2 ∧ view (first.advance serve world).2 = edit (view world) ∧
      (first.advance serve world).1.Edits serve view kept edits := by
  cases first with
  | done value => exact does.elim
  | ask request next => exact does world start

theorem Edits.interleave (does : first.Edits serve view kept edits) (also : second.Edits serve view kept others)
    (start : kept world) (turns : List Bool) :
    view (interleave serve turns first second world).2.2 =
      (merge turns edits others).foldl (fun seen edit => edit seen) (view world) := by
  induction turns generalizing first second edits others world with
  | nil => rfl
  | cons turn turns ih =>
    cases turn with
    | true =>
      cases edits with
      | nil =>
        obtain ⟨value, rfl⟩ := does.ended
        exact ih does also start
      | cons edit rest =>
        obtain ⟨stays, seen, later⟩ := does.advance start
        simp only [Program.interleave, merge, List.foldl_cons, ← seen]
        exact ih later also stays
    | false =>
      cases others with
      | nil =>
        obtain ⟨value, rfl⟩ := also.ended
        have same := ih does also start
        cases edits <;> exact same
      | cons edit rest =>
        obtain ⟨stays, seen, later⟩ := also.advance start
        have same := ih does later stays
        rw [seen] at same
        cases edits <;> exact same

/-- Programs that have ended have had a turn for each edit. -/
theorem Edits.turns (does : first.Edits serve view kept edits) (also : second.Edits serve view kept others)
    (start : kept world) {turns : List Bool} {value : α} {result : β} {final : σ}
    (ended : Program.interleave serve turns first second world = (.done value, .done result, final)) :
    edits.length ≤ turns.count true ∧ others.length ≤ turns.count false := by
  induction turns generalizing first second edits others world with
  | nil =>
    simp only [Program.interleave, Prod.mk.injEq] at ended
    obtain ⟨rfl, rfl, _⟩ := ended
    cases edits with
    | nil =>
      cases others with
      | nil => exact ⟨Nat.le_refl _, Nat.le_refl _⟩
      | cons => exact also.elim
    | cons => exact does.elim
  | cons turn turns ih =>
    cases turn with
    | true =>
      simp only [List.count_cons_self, List.count_cons_of_ne (show true ≠ false by decide)]
      cases edits with
      | nil =>
        obtain ⟨value, rfl⟩ := does.ended
        exact ⟨Nat.zero_le _, (ih does also start ended).2⟩
      | cons edit rest =>
        obtain ⟨stays, _, later⟩ := does.advance start
        obtain ⟨left, right⟩ := ih later also stays ended
        exact ⟨Nat.succ_le_succ left, right⟩
    | false =>
      simp only [List.count_cons_self, List.count_cons_of_ne (show false ≠ true by decide)]
      cases others with
      | nil =>
        obtain ⟨value, rfl⟩ := also.ended
        exact ⟨(ih does also start ended).1, Nat.zero_le _⟩
      | cons edit rest =>
        obtain ⟨stays, _, later⟩ := also.advance start
        obtain ⟨left, right⟩ := ih does later stays ended
        exact ⟨left, Nat.succ_le_succ right⟩

/-- A program that runs alone does its edits in order. -/
theorem Edits.exec {ω : Type} {serve : σ → (request : ρ) → ω → reply request × σ} {outcome : ρ → ω}
    (does : first.Edits (fun world request => serve world request (outcome request)) view kept edits) (start : kept world) :
    kept (first.exec serve outcome world).2 ∧
      view (first.exec serve outcome world).2 = edits.foldl (fun seen edit => edit seen) (view world) := by
  induction first generalizing edits world with
  | done value =>
    cases edits with
    | nil => exact ⟨start, rfl⟩
    | cons => exact does.elim
  | ask request next ih =>
    cases edits with
    | nil => exact does.elim
    | cons edit rest =>
      obtain ⟨stays, seen, later⟩ := does world start
      obtain ⟨kept, same⟩ := ih _ later stays
      refine ⟨kept, ?_⟩
      rw [List.foldl_cons, ← seen]
      exact same

end Edits

section order

/-- The order of the first program's `k`-th request and the second one's `l`-th; there is none for 0. -/
def order : Nat → Nat → List Bool → List Bool
  | _, _, [] => []
  | k, l, true :: turns => if k = 1 then true :: order 0 l turns else order (k - 1) l turns
  | k, l, false :: turns => if l = 1 then false :: order k 0 turns else order k (l - 1) turns

/-- Only the edit at the given place touches this part of the view. -/
def Pinned (part : χ → γ) (edit : γ → γ) : Nat → List (χ → χ) → Prop
  | place, [] => place = 0
  | place, edits :: rest => (∀ seen, part (edits seen) = if place = 1 then edit (part seen) else part seen) ∧
      Pinned part edit (place - 1) rest

theorem merge_pinned {part : χ → γ} {edit : Bool → γ → γ} {k l : Nat} {edits others : List (χ → χ)}
    (first : Pinned part (edit true) k edits) (second : Pinned part (edit false) l others) (turns : List Bool) (seen : χ) :
    part ((merge turns edits others).foldl (fun seen edit => edit seen) seen) =
      (order k l turns).foldl (fun value who => edit who value) (part seen) := by
  induction turns generalizing k l edits others seen with
  | nil => rfl
  | cons turn turns ih =>
    cases turn with
    | true =>
      cases edits with
      | nil =>
        have none : k = 0 := first
        subst none
        exact ih first second seen
      | cons one rest =>
        obtain ⟨here, later⟩ := first
        simp only [merge, List.foldl_cons, order]
        rw [ih later second (one seen), here seen]
        split
        next place => rw [place]; rfl
        · rfl
    | false =>
      cases others with
      | nil =>
        have none : l = 0 := second
        subst none
        have same := ih first second seen
        cases edits <;> exact same
      | cons one rest =>
        obtain ⟨here, later⟩ := second
        have same := ih first later (one seen)
        rw [here seen] at same
        have onward : part ((merge (false :: turns) edits (one :: rest)).foldl (fun seen edit => edit seen) seen) =
            part ((merge turns edits rest).foldl (fun seen edit => edit seen) (one seen)) := by
          cases edits <;> rfl
        rw [onward, same]
        simp only [order]
        split
        next place => rw [place]; rfl
        · rfl

theorem order_none (turns : List Bool) : order 0 0 turns = [] := by
  induction turns with
  | nil => rfl
  | cons turn turns ih => cases turn <;> exact ih

theorem order_first {k : Nat} {turns : List Bool} (one : 1 ≤ k) (enough : k ≤ turns.count true) : order k 0 turns = [true] := by
  induction turns generalizing k with
  | nil => exact absurd (Nat.le_trans one enough) (by simp)
  | cons turn turns ih =>
    cases turn with
    | true =>
      simp only [List.count_cons_self] at enough
      simp only [order]
      split
      next here =>
        rw [order_none]
      next later => exact ih (by omega) (by omega)
    | false =>
      simp only [List.count_cons_of_ne (show false ≠ true by decide)] at enough
      exact ih one enough

theorem order_second {l : Nat} {turns : List Bool} (one : 1 ≤ l) (enough : l ≤ turns.count false) : order 0 l turns = [false] := by
  induction turns generalizing l with
  | nil => exact absurd (Nat.le_trans one enough) (by simp)
  | cons turn turns ih =>
    cases turn with
    | true =>
      simp only [List.count_cons_of_ne (show true ≠ false by decide)] at enough
      exact ih one enough
    | false =>
      simp only [List.count_cons_self] at enough
      simp only [order]
      split
      next here =>
        rw [order_none]
      next later => exact ih (by omega) (by omega)

/-- When both requests are made, one of them comes first. -/
theorem order_cases {k l : Nat} {turns : List Bool} (one : 1 ≤ k) (two : 1 ≤ l) (enough : k ≤ turns.count true)
    (also : l ≤ turns.count false) : order k l turns = [true, false] ∨ order k l turns = [false, true] := by
  induction turns generalizing k l with
  | nil => exact absurd (Nat.le_trans one enough) (by simp)
  | cons turn turns ih =>
    cases turn with
    | true =>
      simp only [List.count_cons_self, List.count_cons_of_ne (show true ≠ false by decide)] at enough also
      simp only [order]
      split
      next here => exact .inl (by rw [order_second two also])
      next later => exact ih (by omega) two (by omega) also
    | false =>
      simp only [List.count_cons_self, List.count_cons_of_ne (show false ≠ true by decide)] at enough also
      simp only [order]
      split
      next here => exact .inr (by rw [order_first one enough])
      next later => exact ih one (by omega) enough (by omega)

end order
end Program
