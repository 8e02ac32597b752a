import Mathlib.Tactic.Common

/-!
# Machines with embedded actions

The state machine language Ragel, as far as it consists of regular expressions with entering
actions `r > a` and leaving actions `r % a`. A machine reads a text in all ways at once: the
actions of a byte are those of every alternative that can read it, in the order in which they
are embedded, and an action that is embedded several times is executed the first time only. A
leaving action waits in the final states and moves to whatever is read next by the machine
behind, or to the end of the text. So does the entering action of a machine that can read
nothing: with the empty text, such a machine is entered when it is left.
-/

namespace Sylar.Library.Ragel

universe u v w

/-- A regular expression over letters `β` with actions `α`. -/
inductive Machine (β : Type u) (α : Type v) where
  /-- The empty text. -/
  | lambda
  /-- One letter of a class. -/
  | one (letters : β → Bool)
  /-- One machine behind the other. -/
  | cat (first second : Machine β α)
  /-- Either of two machines. -/
  | alt (left right : Machine β α)
  /-- Any number of times. -/
  | star (body : Machine β α)
  /-- `body > action`. -/
  | entering (action : α) (body : Machine β α)
  /-- `body % action`. -/
  | leaving (action : α) (body : Machine β α)

namespace Machine

variable {β : Type u} {α : Type v}

/-- `body?`. -/
def opt (body : Machine β α) : Machine β α := alt body lambda

/-- `body+`. -/
def plus (body : Machine β α) : Machine β α := cat body (star body)

/-- `body{count}` in front of `rest`. -/
def times : Nat → Machine β α → Machine β α → Machine β α
  | 0, _, rest => rest
  | count + 1, body, rest => cat body (times count body rest)

/-- `body{0,count}`. -/
def upTo : Nat → Machine β α → Machine β α
  | 0, _ => lambda
  | count + 1, body => opt (cat body (upTo count body))

/-- The actions get numbers in the order in which they are embedded: entering actions before
those of the body, leaving actions behind them. -/
def number : Machine β α → Nat → Machine β (Nat × α) × Nat
  | lambda, n => (lambda, n)
  | one letters, n => (one letters, n)
  | cat first second, n =>
      let (first, n) := first.number n
      let (second, n) := second.number n
      (cat first second, n)
  | alt left right, n =>
      let (left, n) := left.number n
      let (right, n) := right.number n
      (alt left right, n)
  | star body, n =>
      let (body, n) := body.number n
      (star body, n)
  | entering action body, n =>
      let (body, after) := body.number (n + 1)
      (entering (n, action) body, after)
  | leaving action body, n =>
      let (body, n) := body.number n
      (leaving (n, action) body, n + 1)

/-- All actions, in the order in which they are embedded. -/
def embedded : Machine β α → List α
  | lambda | one _ => []
  | cat first second => first.embedded ++ second.embedded
  | alt left right => left.embedded ++ right.embedded
  | star body => body.embedded
  | entering action body => action :: body.embedded
  | leaving action body => body.embedded ++ [action]

/-- The machine can end here. -/
def final : Machine β α → Bool
  | lambda | star _ => true
  | one _ => false
  | cat first second => first.final && second.final
  | alt left right => left.final || right.final
  | entering _ body | leaving _ body => body.final

/-- The actions of a final state that wait for what is read next. The entering action of a machine
that is final at its start is one of them. -/
def pending : Machine β α → List α
  | lambda | one _ => []
  | cat first second => first.pending ++ second.pending
  | alt left right =>
      (if left.final then left.pending else []) ++ if right.final then right.pending else []
  | star body => if body.final then body.pending else []
  | entering action body => action :: body.pending
  | leaving action body => body.pending ++ [action]

/-- The ways to read a letter: the actions and what is left to read. -/
def moves : Machine β α → β → List (List α × Machine β α)
  | lambda, _ => []
  | one letters, letter => if letters letter then [([], lambda)] else []
  | cat first second, letter =>
      (first.moves letter).map (fun move => (move.1, cat move.2 second)) ++
        if first.final then
          (second.moves letter).map fun move => (first.pending ++ move.1, move.2)
        else []
  | alt left right, letter => left.moves letter ++ right.moves letter
  | star body, letter => (body.moves letter).map fun move => (move.1, cat move.2 (star body))
  | entering action body, letter =>
      (body.moves letter).map fun move => (action :: move.1, move.2)
  | leaving action body, letter =>
      (body.moves letter).map fun move => (move.1, leaving action move.2)

end Machine

open Machine

variable {β : Type u} {α : Type v}

/-- What is left to read, in all the ways to read a letter. -/
def next (states : List (Machine β α)) (letter : β) : List (Machine β α) :=
  states.flatMap fun machine => (machine.moves letter).map (·.2)

/-- The actions of a letter, in all the ways to read it. -/
def fired (states : List (Machine β α)) (letter : β) : List α :=
  states.flatMap fun machine => (machine.moves letter).flatMap (·.1)

/-- The waiting actions at the end of the text. -/
def left (states : List (Machine β α)) : List α :=
  (states.filter (·.final)).flatMap (·.pending)

section Run

variable {σ : Type w} {ε : Type w} [DecidableEq α]

/-- Execute actions in the order in which they are embedded, each of them once. -/
def execute (order : List (Nat × α)) (act : List β → σ → α → Except ε σ)
    (actions : List (Nat × α)) (text : List β) (state : σ) : Except ε σ :=
  ((order.filter fun action => actions.contains action).map Prod.snd).eraseDups.foldlM
    (act text) state

/-- Run over a text. The actions see the text from the current letter on. The result is `none`
when the text is not read to its end, or ends too early. -/
def run (order : List (Nat × α)) (act : List β → σ → α → Except ε σ) :
    List (Machine β (Nat × α)) → List β → σ → Except ε (Option σ)
  | states, [], state =>
      if states.any (·.final) then some <$> execute order act (left states) [] state
      else pure none
  | states, letter :: text, state =>
      if (next states letter).isEmpty then pure none
      else do
        let state ← execute order act (fired states letter) (letter :: text) state
        run order act (next states letter) text state

end Run

end Sylar.Library.Ragel
