import Mathlib.Data.List.Basic
import Mathlib.Data.List.Infix

/-!
# Computations that question an outside party

A session puts calls to a party outside the program and remembers every call it
made, in order, with the reply that came back. The party is arbitrary: its reply
may depend on the whole history, so a statement about every party is a statement
about every sequence of replies.

Two judgements are used. `Ensures` bounds the value a session returns, whatever
the party says; `Runs` also bounds the calls the session adds to the history. Both
come with one rule for each way sessions are put together, so a proof about a
program follows the program's own structure and never opens the state.
-/

namespace Clearotron

/-- A computation over the history of calls made so far. -/
abbrev Session (ε : Type) : Type → Type := StateM (List ε)

namespace Session

variable {ε α β γ : Type}

/-- Put one call to the outside party: `reply` is what it says after the history
so far, and `event` is the record of the call and its reply. -/
def call (reply : List ε → β) (event : β → ε) : Session ε β :=
  fun history => (reply history, history ++ [event (reply history)])

/-- Read a value that depends on the history without calling anyone. -/
def observe (reading : List ε → β) : Session ε β :=
  fun history => (reading history, history)

/-- Run a session and also return the calls it added. -/
def listen (m : Session ε α) : Session ε (α × List ε) :=
  fun history => (((m history).1, (m history).2.drop history.length), (m history).2)

/-- Whatever the outside party says, the value returned satisfies `post`. -/
def Ensures (m : Session ε α) (post : α → Prop) : Prop :=
  ∀ history, post (m history).1

/-- Whatever the outside party says, the session only extends the history, and the
calls it adds and the value it returns satisfy `post` together. -/
def Runs (m : Session ε α) (post : List ε → α → Prop) : Prop :=
  ∀ history, ∃ added, (m history).2 = history ++ added ∧ post added (m history).1

namespace Ensures

variable {m : Session ε α} {post post' : α → Prop}

theorem mono (h : Ensures m post) (imp : ∀ a, post a → post' a) : Ensures m post' :=
  fun history => imp _ (h history)

theorem both (h : Ensures m post) (h' : Ensures m post') :
    Ensures m (fun a => post a ∧ post' a) :=
  fun history => ⟨h history, h' history⟩

theorem pure {a : α} (h : post a) : Ensures (Pure.pure a : Session ε α) post :=
  fun _ => h

/-- Sequencing: what the first part guarantees is all the second may rely on. -/
theorem bind {k : α → Session ε β} {goal : β → Prop} (first : Ensures m post)
    (second : ∀ a, post a → Ensures (k a) goal) : Ensures (m >>= k) goal :=
  fun history => second _ (first history) _

/-- Sequencing when nothing is known of the first part. -/
theorem bind_any {k : α → Session ε β} {goal : β → Prop}
    (second : ∀ a, Ensures (k a) goal) : Ensures (m >>= k) goal :=
  fun history => second (m history).1 (m history).2

theorem call {reply : List ε → β} {event : β → ε} {goal : β → Prop}
    (h : ∀ history, goal (reply history)) : Ensures (Session.call reply event) goal :=
  fun history => h history

theorem observe {reading : List ε → β} {goal : β → Prop}
    (h : ∀ history, goal (reading history)) : Ensures (Session.observe reading) goal :=
  fun history => h history

theorem listen (h : Ensures m post) : Ensures (Session.listen m) (fun a => post a.1) :=
  fun history => h history

end Ensures

namespace Runs

variable {m : Session ε α} {post post' : List ε → α → Prop}

theorem mono (h : Runs m post) (imp : ∀ added a, post added a → post' added a) :
    Runs m post' := by
  intro history
  obtain ⟨added, happ, hpost⟩ := h history
  exact ⟨added, happ, imp added _ hpost⟩

theorem pure {a : α} (h : post [] a) : Runs (Pure.pure a : Session ε α) post :=
  fun history => ⟨[], (List.append_nil history).symm, h⟩

/-- Sequencing: the second part's calls follow the first part's. -/
theorem bind {k : α → Session ε β} {goal : List ε → β → Prop} (first : Runs m post)
    (second : ∀ added a, post added a →
      Runs (k a) (fun more b => goal (added ++ more) b)) : Runs (m >>= k) goal := by
  intro history
  obtain ⟨added, happ, hpost⟩ := first history
  obtain ⟨more, hmore, hgoal⟩ := second added _ hpost (m history).2
  refine ⟨added ++ more, ?_, hgoal⟩
  calc ((m >>= k) history).2 = (m history).2 ++ more := hmore
    _ = history ++ (added ++ more) := by rw [happ, List.append_assoc]

theorem map {f : α → β} {goal : List ε → β → Prop} (h : Runs m post)
    (imp : ∀ added a, post added a → goal added (f a)) : Runs (f <$> m) goal := by
  intro history
  obtain ⟨added, happ, hpost⟩ := h history
  exact ⟨added, happ, imp added _ hpost⟩

theorem call {reply : List ε → β} {event : β → ε} {goal : List ε → β → Prop}
    (h : ∀ history, goal [event (reply history)] (reply history)) :
    Runs (Session.call reply event) goal :=
  fun history => ⟨_, rfl, h history⟩

theorem observe {reading : List ε → β} {goal : List ε → β → Prop}
    (h : ∀ history, goal [] (reading history)) : Runs (Session.observe reading) goal :=
  fun history => ⟨[], (List.append_nil history).symm, h history⟩

/-- What a session is heard to add is what it added. -/
theorem listen (h : Runs m post) :
    Runs (Session.listen m) (fun added a => a.2 = added ∧ post added a.1) := by
  intro history
  obtain ⟨added, happ, hpost⟩ := h history
  refine ⟨added, happ, ?_, hpost⟩
  change (m history).2.drop history.length = added
  rw [happ, List.drop_left]

/-- A continuation matters only at the values the first part can return. -/
theorem bind_congr {k k' : α → Session ε β} (first : Runs m post)
    (same : ∀ added a, post added a → k a = k' a) : m >>= k = m >>= k' := by
  funext history
  obtain ⟨added, -, hpost⟩ := first history
  exact congrFun (same added _ hpost) (m history).2

end Runs

end Session

end Clearotron
