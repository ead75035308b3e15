import Mathlib.Data.List.Basic

/-!
# Mailboxes With a Stop

A server takes the letters of a queue in their order and serves one at a time.
A stop in the queue makes it end when it gets there, and it may also end before.
A letter is held while the server serves it, or while it waits ahead of any stop
and the server goes on.

## Main definitions

* `Mail`: A letter or a stop.
* `ahead`: The letters ahead of any stop.
* `letters`: All the letters.
* `Mailbox`: A queue and what its server does.
* `Mailbox.Holds`: A letter that is served or will be.
* `Mailbox.Open`: A mailbox that holds the next letter posted.
* `Mailbox.post`, `Mailbox.halt`, `Mailbox.cease`: A letter or a stop is put in the
  queue, and the server ends.

## Theorems

* `ahead_append_item`, `ahead_append_of_stop`, `ahead_append_stop`: What is put
  last.
* `mem_ahead_append`: What is ahead after something is put last.
* `Mailbox.holds_post_iff`: Which mailboxes hold a letter that is posted.
* `Mailbox.Holds.post`, `Mailbox.Holds.halt`: Letters held stay held.
* `Mailbox.not_holds_cease`: A server that ends holds nothing.
-/

namespace Library

/-- What is put in the queue of a server. -/
inductive Mail (α : Type) where
  | item (a : α)
  | stop
  deriving DecidableEq

variable {α : Type}

/-- The letters ahead of any stop. -/
def ahead : List (Mail α) → List α
  | [] => []
  | .item a :: q => a :: ahead q
  | .stop :: _ => []

@[simp] theorem ahead_nil : ahead ([] : List (Mail α)) = [] := rfl

@[simp] theorem ahead_item (a : α) (q : List (Mail α)) : ahead (.item a :: q) = a :: ahead q := rfl

@[simp] theorem ahead_stop (q : List (Mail α)) : ahead (.stop :: q) = [] := rfl

/-- The letters of a queue. -/
def letters : List (Mail α) → List α
  | [] => []
  | .item a :: q => a :: letters q
  | .stop :: q => letters q

@[simp] theorem letters_nil : letters ([] : List (Mail α)) = [] := rfl

@[simp] theorem letters_item (a : α) (q : List (Mail α)) :
    letters (.item a :: q) = a :: letters q := rfl

@[simp] theorem letters_stop (q : List (Mail α)) : letters (.stop :: q) = letters q := rfl

@[simp] theorem letters_append (q q' : List (Mail α)) :
    letters (q ++ q') = letters q ++ letters q' := by
  induction q with
  | nil => rfl
  | cons x q ih =>
      cases x with
      | item a => simp [ih]
      | stop => exact ih

theorem mem_of_mem_ahead {a : α} {q : List (Mail α)} (h : a ∈ ahead q) : Mail.item a ∈ q := by
  induction q with
  | nil => exact absurd h (by simp)
  | cons x q ih =>
      cases x with
      | item b =>
          rcases List.mem_cons.mp h with heq | hrest
          · rw [heq]
            exact List.mem_cons_self
          · exact List.mem_cons_of_mem _ (ih hrest)
      | stop => exact absurd h (by simp)

theorem mem_letters_of_mem_ahead {a : α} {q : List (Mail α)} (h : a ∈ ahead q) : a ∈ letters q := by
  induction q with
  | nil => exact h
  | cons x q ih =>
      cases x with
      | item b =>
          rcases List.mem_cons.mp h with heq | hrest
          · rw [heq]
            exact List.mem_cons_self
          · exact List.mem_cons_of_mem _ (ih hrest)
      | stop => exact absurd h (by simp)

/-- What is ahead was, or is among what was put last. -/
theorem mem_ahead_append {a : α} {q q' : List (Mail α)} (h : a ∈ ahead (q ++ q')) :
    a ∈ ahead q ∨ a ∈ letters q' := by
  induction q with
  | nil => exact Or.inr (mem_letters_of_mem_ahead h)
  | cons x q ih =>
      cases x with
      | item b =>
          rcases List.mem_cons.mp h with heq | hrest
          · exact Or.inl (by rw [heq]; exact List.mem_cons_self)
          · exact (ih hrest).imp (List.mem_cons_of_mem _) id
      | stop => exact absurd h (by simp)

@[simp] theorem ahead_append_stop (q : List (Mail α)) : ahead (q ++ [.stop]) = ahead q := by
  induction q with
  | nil => rfl
  | cons x q ih =>
      cases x with
      | item a => simp [ih]
      | stop => rfl

theorem ahead_append_of_stop (a : α) (q : List (Mail α)) (hstop : Mail.stop ∈ q) :
    ahead (q ++ [.item a]) = ahead q := by
  induction q with
  | nil => exact absurd hstop (by simp)
  | cons x q ih =>
      cases x with
      | item b =>
          have hrest : Mail.stop ∈ q := by simpa using hstop
          simp [ih hrest]
      | stop => rfl

theorem ahead_append_item (a : α) (q : List (Mail α)) (hstop : Mail.stop ∉ q) :
    ahead (q ++ [.item a]) = ahead q ++ [a] := by
  induction q with
  | nil => rfl
  | cons x q ih =>
      cases x with
      | item b =>
          have hrest : Mail.stop ∉ q := fun hc => hstop (List.mem_cons_of_mem _ hc)
          simp [ih hrest]
      | stop => exact absurd List.mem_cons_self hstop

theorem ahead_map_item_append (letters : List α) (q : List (Mail α)) :
    ahead (letters.map .item ++ q) = letters ++ ahead q := by
  induction letters with
  | nil => rfl
  | cons a letters ih => rw [List.map_cons, List.cons_append, ahead_item, ih, List.cons_append]

/-- A queue, the letter the server is at, and whether the server has ended. -/
structure Mailbox (α : Type) where
  queue : List (Mail α)
  serving : Option α
  ended : Bool

namespace Mailbox

variable (m : Mailbox α)

/-- A letter is served, or waits ahead of any stop while the server goes on. -/
def Holds (a : α) : Prop := m.serving = some a ∨ m.ended = false ∧ a ∈ ahead m.queue

/-- The server goes on and no stop is in the queue. -/
def Open : Prop := m.ended = false ∧ Mail.stop ∉ m.queue

/-- A letter is put last. -/
def post (a : α) : Mailbox α := { m with queue := m.queue ++ [.item a] }

/-- A stop is put last. -/
def halt : Mailbox α := { m with queue := m.queue ++ [.stop] }

/-- The server ends. -/
def cease : Mailbox α := { m with serving := none, ended := true }

variable {m}

theorem Holds.post {a : α} (h : m.Holds a) (b : α) : (m.post b).Holds a := by
  rcases h with hserving | ⟨hended, hmem⟩
  · exact Or.inl hserving
  · refine Or.inr ⟨hended, ?_⟩
    unfold Mailbox.post
    by_cases hstop : Mail.stop ∈ m.queue
    · rw [ahead_append_of_stop b m.queue hstop]
      exact hmem
    · rw [ahead_append_item b m.queue hstop]
      exact List.mem_append_left _ hmem

theorem Holds.halt {a : α} (h : m.Holds a) : m.halt.Holds a := by
  rcases h with hserving | ⟨hended, hmem⟩
  · exact Or.inl hserving
  · refine Or.inr ⟨hended, ?_⟩
    unfold Mailbox.halt
    rw [ahead_append_stop]
    exact hmem

theorem Open.holds_post (h : m.Open) (a : α) : (m.post a).Holds a := by
  refine Or.inr ⟨h.1, ?_⟩
  unfold Mailbox.post
  rw [ahead_append_item a m.queue h.2]
  exact List.mem_append_right _ List.mem_cons_self

/-- A new letter is held exactly when the mailbox is open. -/
theorem holds_post_iff {a : α} (hserving : m.serving ≠ some a) (hnew : Mail.item a ∉ m.queue) :
    (m.post a).Holds a ↔ m.Open := by
  constructor
  · rintro (hat | ⟨hended, hmem⟩)
    · exact absurd hat hserving
    · refine ⟨hended, fun hstop => hnew (mem_of_mem_ahead ?_)⟩
      rwa [post, ahead_append_of_stop a m.queue hstop] at hmem
  · intro h
    exact h.holds_post a

theorem not_holds_cease (a : α) : ¬ m.cease.Holds a := by
  simp [Holds, cease]

end Mailbox

end Library
