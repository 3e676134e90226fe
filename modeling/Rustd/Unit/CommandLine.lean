import Rustd.Base.Run

/-!
# Command lines

`src/unit/section_service.rs`: `split_argv` cuts a command line into arguments at blanks outside of
quotes. What stands between quotes belongs to one argument, but an argument is only kept if it has a
letter, so that of the arguments written in quotes exactly the empty ones are lost.
-/

namespace Rustd.Unit

open Base List

/-- The variables of the loop of `split_argv`. After a backslash the next letter is taken as it
is. -/
structure ArgvState where
  args : List (List Char)
  current : List Char
  inSingle : Bool
  inDouble : Bool
  escaped : Bool

namespace ArgvState

/-- `args.push`, for an argument that is not empty. -/
def flush (s : ArgvState) : ArgvState :=
  if s.current.isEmpty then s else { s with args := s.args ++ [s.current], current := [] }

/-- Part of `split_argv`, `src/unit/section_service.rs:258`. -/
def step (s : ArgvState) (c : Char) : ArgvState :=
  if s.escaped then { s with current := s.current ++ [c], escaped := false }
  else if c = '\x27' && !s.inDouble then { s with inSingle := !s.inSingle }
  else if c = '"' && !s.inSingle then { s with inDouble := !s.inDouble }
  else if c = '\\' && (s.inDouble || !s.inSingle) then { s with escaped := true }
  else if (c = ' ' || c = '\t') && !s.inSingle && !s.inDouble then s.flush
  else { s with current := s.current ++ [c] }

end ArgvState

/-- `split_argv` of `src/unit/section_service.rs:258`. -/
def splitArgv (line : List Char) : List (List Char) :=
  (run ArgvState.step ⟨[], [], false, false, false⟩ line).flush.args

/-! ### Quoted arguments -/

def escapeQuoted (c : Char) : List Char := if c = '"' || c = '\\' then ['\\', c] else [c]

def quoteArg (arg : List Char) : List Char := '"' :: arg.flatMap escapeQuoted ++ ['"']

def quoteArgs (args : List (List Char)) : List Char := [' '].intercalate (args.map quoteArg)

section

variable {args : List (List Char)} {current : List Char}

private theorem run_escaped (arg : List Char) :
    run ArgvState.step ⟨args, current, false, true, false⟩ (arg.flatMap escapeQuoted) =
      ⟨args, current ++ arg, false, true, false⟩ := by
  induction arg generalizing current with
  | nil => simp
  | cons c arg ih =>
    have hlr : run ArgvState.step ⟨args, current, false, true, false⟩ (escapeQuoted c) =
        ⟨args, current ++ [c], false, true, false⟩ := by
      by_cases hc : c = '"' ∨ c = '\\'
      · rcases hc with rfl | rfl <;> simp [escapeQuoted, ArgvState.step]
      · obtain ⟨hqu, hsls⟩ := not_or.mp hc
        simp [escapeQuoted, ArgvState.step, hqu, hsls]
    rw [List.flatMap_cons, run_append, hlr, ih, List.append_assoc, List.singleton_append]

private theorem run_quoteArg (arg : List Char) :
    run ArgvState.step ⟨args, [], false, false, false⟩ (quoteArg arg) =
      ⟨args, arg, false, false, false⟩ := by
  have hon : ArgvState.step ⟨args, [], false, false, false⟩ '"' =
      ⟨args, [], false, true, false⟩ := rfl
  rw [quoteArg, cons_append, run_cons, hon, run_append, run_escaped]
  rfl

private theorem flush_eq (args : List (List Char)) (arg : List Char) :
    ArgvState.flush ⟨args, arg, false, false, false⟩ =
      ⟨args ++ [arg].filter (· ≠ []), [], false, false, false⟩ := by
  cases arg <;> simp [ArgvState.flush]

private theorem run_quoteArgs (args i : List (List Char)) :
    (run ArgvState.step ⟨i, [], false, false, false⟩ (quoteArgs args)).flush.args =
      i ++ args.filter (· ≠ []) := by
  induction args generalizing i with
  | nil => simp [quoteArgs, ArgvState.flush]
  | cons arg args ih =>
    cases args with
    | nil =>
      have hli : quoteArgs [arg] = quoteArg arg := by simp [quoteArgs]
      rw [hli, run_quoteArg, flush_eq]
    | cons b args =>
      have hli : quoteArgs (arg :: b :: args) =
          quoteArg arg ++ ' ' :: quoteArgs (b :: args) := by
        simp [quoteArgs, intercalate_cons_cons]
      have hbl : ArgvState.step ⟨i, arg, false, false, false⟩ ' ' =
          ArgvState.flush ⟨i, arg, false, false, false⟩ := rfl
      rw [hli, run_append, run_quoteArg, run_cons, hbl, flush_eq, ih, append_assoc,
        ← filter_append, singleton_append]

end

/-- Of quoted arguments those with a letter are read back, so that all are read back exactly if none
is empty. -/
theorem splitArgv_quoteArgs (args : List (List Char)) :
    splitArgv (quoteArgs args) = args.filter (· ≠ []) ∧
      (splitArgv (quoteArgs args) = args ↔ [] ∉ args) := by
  have hsl : splitArgv (quoteArgs args) = args.filter (· ≠ []) := run_quoteArgs args []
  refine ⟨hsl, ?_⟩
  rw [hsl, filter_eq_self]
  simp only [decide_eq_true_eq]
  exact ⟨fun h hmem => h [] hmem rfl, fun h arg hmem heq => h (heq ▸ hmem)⟩

/-- An empty argument between two others is lost. -/
theorem empty_argument_lost :
    splitArgv (quoteArgs ["a".toList, [], "b c".toList]) = ["a".toList, "b c".toList] := by
  decide

end Rustd.Unit
