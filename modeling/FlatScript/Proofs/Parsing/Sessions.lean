import Mathlib.Data.List.Forall2
import FlatScript.Proofs.Parsing.Positions

/-!
# Sessions with a parser

A parser can be asked again and again, for programs and for expressions, and it goes on from where
it has stopped, also after a failure.  Whatever the tokens are, such a session is safe: every
question is answered, every position that is looked at has a token, and no answer leads back.

The session of the walks is the one in which something could go wrong.  A step of it is compared
with the answer of the parser, and the whole of it follows by induction on the questions.
-/

namespace FlatScript

/-- What a parser can be asked for. -/
inductive Question where
  | program
  | comparison
  | sum
  deriving DecidableEq

namespace Question

/-- The parser that answers. -/
def parser : Question → Parser Node
  | .program => Parser.readProgram
  | .comparison => Parser.readComparison
  | .sum => Parser.readSum

/-- The walk that answers. -/
def walk : Question → Nat → Walk Node
  | .program, fuel => Walk.program fuel
  | .comparison, fuel => Walk.expression fuel (.chain .comparison)
  | .sum, fuel => Walk.expression fuel (.chain .sum)

/-- The answer of the parser, and where it leaves the cursor. -/
def answer (question : Question) (cursor : Cursor) : Except SyntaxError Node × Cursor :=
  match question.parser cursor with
  | .ok node after => (.ok node, after)
  | .error error after => (.error error, after)

/-- The number of tokens that are taken at least if something is read.  A program may be empty. -/
def gain : Question → Nat
  | .program => 0
  | .comparison => 1
  | .sum => 1

end Question

/-- The answers to questions that are asked one after the other. -/
def Parser.session : List Question → Cursor → List (Except SyntaxError Node × Cursor)
  | [], _ => []
  | question :: questions, cursor =>
    question.answer cursor :: session questions (question.answer cursor).2

/-- A question, the answer of the walk, and the positions before and after. -/
structure Step where
  question : Question
  start : Nat
  answer : Except Stop Node
  stop : Nat

/-- The steps of walks that answer questions one after the other, each from where the one before has
stopped, unless one of them uses up the fuel. -/
def Walk.session (fuel : Nat) (tokens : List Token) : List Question → Nat → Option (List Step)
  | [], _ => some []
  | question :: questions, position => do
    let (answer, stop) ← (question.walk fuel).runFrom tokens position
    let steps ← session fuel tokens questions stop
    return ⟨question, position, answer, stop⟩ :: steps

namespace Step

/-- A step stays among the tokens and does not lead back.  An expression that has been read leads
forward, and a program to the last token or just behind an end token that has been passed. -/
structure Safe (tokens : List Token) (step : Step) : Prop where
  inRange : step.answer ≠ .error .outOfRange
  stop_lt : step.stop < tokens.length
  start_le : step.start ≤ step.stop
  expression : ∀ node, step.answer = .ok node → step.question ≠ .program → step.start < step.stop
  program : ∀ node, step.answer = .ok node → step.question = .program →
    step.stop + 1 = tokens.length ∨
      step.start < step.stop ∧ tokens[step.stop - 1]?.map Token.kind = some .eof

/-- The step gives the answer of the parser, and leads to where that leaves the cursor. -/
structure Agrees (tokens : List Token) (step : Step)
    (answered : Except SyntaxError Node × Cursor) : Prop where
  answer : step.answer = answered.1.mapError .fault
  stop : answered.2.At tokens step.stop

end Step

variable {tokens : List Token} {start : Nat} {cursor : Cursor}

/-- Each question has a walk that ends as its parser does. -/
theorem Question.exists_ended (question : Question) (hat : cursor.At tokens start) :
    ∃ result, Walk.Comes question.walk tokens start result ∧
      Ended tokens start question.gain result (question.parser cursor) := by
  have hbound := Nat.le_refl cursor.ahead.length
  cases question with
  | program => exact program_follows _ hat rfl hbound
  | comparison => exact expression_follows (.chain .comparison) _ _ hat rfl hbound
  | sum => exact expression_follows (.chain .sum) _ _ hat rfl hbound

/-- **One question.**  The walk ends, it is safe, and it agrees with the parser. -/
theorem Question.exists_step (question : Question) (hat : cursor.At tokens start) :
    ∃ answer stop, Walk.Comes question.walk tokens start (answer, stop) ∧
      Step.Safe tokens ⟨question, start, answer, stop⟩ ∧
      Step.Agrees tokens ⟨question, start, answer, stop⟩ (question.answer cursor) := by
  obtain ⟨result, hcomes, hended⟩ := question.exists_ended hat
  unfold Question.answer
  generalize hparser : question.parser cursor = parsed at hended
  cases hended with
  | @ok node stop after hstop hgain =>
      have hlength := hstop.length_eq
      refine ⟨.ok node, stop, hcomes, ⟨?_, ?_, ?_, ?_, ?_⟩, ⟨rfl, hstop⟩⟩
      · intro herror
        cases herror
      · dsimp only
        omega
      · dsimp only
        omega
      · intro _ _ hexpression
        cases question with
        | program => exact absurd rfl hexpression
        | comparison => exact hgain
        | sum => exact hgain
      · rintro _ _ ⟨⟩
        exact program_stops hat hparser hstop
  | @error error stop after hstop hgain =>
      have hlength := hstop.length_eq
      refine ⟨.error (.fault error), stop, hcomes, ⟨?_, ?_, ?_, ?_, ?_⟩, ⟨rfl, hstop⟩⟩
      · intro herror
        cases herror
      · dsimp only
        omega
      · exact hgain
      · intro _ herror
        cases herror
      · intro _ herror
        cases herror

/-- **Any number of questions**, by induction. -/
theorem Walk.exists_session (questions : List Question) (hat : cursor.At tokens start) :
    ∃ steps, (∃ enough, ∀ fuel, enough ≤ fuel →
        Walk.session fuel tokens questions start = some steps) ∧
      (∀ step ∈ steps, start ≤ step.start) ∧
      steps.Pairwise (fun earlier later => earlier.stop ≤ later.start) ∧
      (∀ step ∈ steps, step.Safe tokens) ∧
      List.Forall₂ (Step.Agrees tokens) steps (Parser.session questions cursor) := by
  induction questions generalizing start cursor with
  | nil => exact ⟨[], ⟨0, fun _ _ => rfl⟩, by simp, .nil, by simp, .nil⟩
  | cons question questions ih =>
      obtain ⟨answer, stop, ⟨enough, hcomes⟩, hsafe, hagrees⟩ := question.exists_step hat
      obtain ⟨steps, ⟨enough', hsession⟩, hlater, hpairwise, hall, hrest⟩ := ih hagrees.stop
      refine ⟨⟨question, start, answer, stop⟩ :: steps,
        ⟨max enough enough', fun fuel hfuel => ?_⟩, ?_, ?_, ?_, .cons hagrees hrest⟩
      · have hfirst := hcomes fuel (by omega)
        have hothers := hsession fuel (by omega)
        simp [Walk.session, hfirst, hothers]
      · have hforward : start ≤ stop := hsafe.start_le
        intro step hstep
        rcases List.mem_cons.mp hstep with rfl | hstep
        · exact Nat.le_refl start
        · exact Nat.le_trans hforward (hlater step hstep)
      · exact List.pairwise_cons.mpr ⟨hlater, hpairwise⟩
      · exact List.forall_mem_cons.mpr ⟨hsafe, hall⟩

/-- **Parsing is safe on any tokens.**  They are kept with an end token behind them.  Whatever is
asked for, one after the other and whether or not it is found, the walks over them end: with enough
fuel they come to answers that more fuel does not change.  They never look at a position that has no
token, each goes on from where the one before has stopped, and none leads back; an expression that
is found takes a token, and a program that is found ends at the last token or just behind an end
token that it has taken.  Their answers are those of the parser, whose cursor stands at their
positions. -/
theorem sessions_are_safe (tokens : List Token) (questions : List Question) :
    (∃ body finish, stored tokens = body ++ [finish] ∧ finish.kind = .eof) ∧
    ∃ steps, (∃ enough, ∀ fuel, enough ≤ fuel →
        Walk.session fuel (stored tokens) questions 0 = some steps) ∧
      steps.Pairwise (fun earlier later => earlier.stop ≤ later.start) ∧
      (∀ step ∈ steps, step.Safe (stored tokens)) ∧
      List.Forall₂ (Step.Agrees (stored tokens)) steps
        (Parser.session questions (Cursor.ofTokens tokens)) := by
  have hat := Cursor.ofTokens_at tokens
  obtain ⟨steps, hsession, -, hpairwise, hsafe, hagrees⟩ := Walk.exists_session questions hat
  obtain ⟨finish, hkind, -, hstored⟩ := hat
  exact ⟨⟨_, finish, hstored, hkind⟩, steps, hsession, hpairwise, hsafe, hagrees⟩

end FlatScript
