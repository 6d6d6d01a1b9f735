import Mathlib.Tactic

/-!
# Stages of a pipeline

A stage takes a sequence in at one end and puts it out at the other, in order and unchanged, holding
the rest in between. It may stop for good, and then what it holds is lost but what it has put out
stands. In a row of stages the output of the last is a beginning of the input of the first, whatever
each of them holds.
-/

namespace NervesP2P

variable {α : Type}

/-- The stage has put out its input up to what it holds; `none` when it has stopped, and then it has
put out some beginning of its input. -/
def Stage (held : Option (List α)) (input output : List α) : Prop :=
  match held with
  | some rest => output ++ rest = input
  | none => output <+: input

/-- One move of a stage: what it holds, what it takes in, what it puts out, and what it holds
afterwards. -/
inductive Moves (held : Option (List α)) : List α → List α → Option (List α) → Prop
  /-- Input goes to the end of what is held. -/
  | take {held' : Option (List α)} (items : List α) (h : held' = held.map (· ++ items)) :
      Moves held items [] held'
  /-- Output comes from its beginning. -/
  | put {held' : Option (List α)} (items rest : List α) (h : held = some (items ++ rest))
      (h' : held' = some rest) : Moves held [] items held'
  | keep {held' : Option (List α)} (h : held' = held) : Moves held [] [] held'
  | stop {held' : Option (List α)} (h : held' = none) : Moves held [] [] held'

namespace Stage

variable {held held' : Option (List α)} {input output taken given : List α}

theorem output_le_input (h : Stage held input output) : output <+: input := by
  cases held with
  | some rest => exact ⟨rest, h⟩
  | none => exact h

/-- **The step lemma**: a move keeps the order. -/
theorem moves (h : Stage held input output) (hmove : Moves held taken given held') :
    Stage held' (input ++ taken) (output ++ given) := by
  cases hmove with
  | take items heq =>
    rw [heq, List.append_nil]
    cases held with
    | some rest => exact ((List.append_assoc _ _ _).symm).trans (congrArg (· ++ taken) h)
    | none => exact h.output_le_input.trans (List.prefix_append _ _)
  | put items rest heq heq' =>
    rw [heq] at h
    rw [heq', List.append_nil]
    exact (List.append_assoc _ _ _).trans h
  | keep heq =>
    rw [heq, List.append_nil, List.append_nil]
    exact h
  | stop heq =>
    rw [heq, List.append_nil, List.append_nil]
    exact h.output_le_input

end Stage

end NervesP2P
