import ClassScript.Proofs.Grammar.Acceptance
import ClassScript.Proofs.Grammar.Prefixes
import ClassScript.Proofs.Grammar.Totality

set_option autoImplicit false

/-!
# The first syntax error

The first diagnostic that is no mere remark on a target or on a limit is placed at the first token
with which the tokens so far are no beginning of a program.  What stands before it could have been
continued, as every function of the parser sees to that (`Parser.program_foresees`).  And had the
token itself been right, then some program would start with these tokens, and reading that program
would have to go wrong at the same place, while the parser is complete.
-/

open ClassScript.Grammar ClassScript.Parser

namespace ClassScript

/-! ## Runs on programs -/

/-- A program under the relaxed rules is read with soft diagnostics only. -/
theorem exists_soft_run {ts : List Token} {ss : List Stmt} (h : Derives .relaxed .declarations ts ss)
    (closing : Token) (firstId : Nat) : ∃ statements c,
      program (programFuel ts.length) ⟨ts, closing, firstId, #[]⟩ = .ok statements c ∧
        ∀ d ∈ c.faults.toList, d.isSoft = true := by
  obtain ⟨tree, settled⟩ := settles h
  have complete : DeclarationsComplete ⟨false, true⟩ ts tree := completes rfl settled
  obtain ⟨statements, c, run, -, ⟨ds, faults, tolerated⟩, -⟩ :=
    complete.atTop (programFuel ts.length) ⟨ts, closing, firstId, #[]⟩ rfl
      (by rw [programFuel]; omega)
  refine ⟨statements, c, run, fun d hd => ?_⟩
  rw [faults] at hd
  exact (tolerated d (by simpa using hd)).2

/-- Reading stumbles over no program. -/
theorem not_stumbles {ts : List Token} {ss : List Stmt} (h : Derives .relaxed .declarations ts ss)
    (closing : Token) (firstId : Nat) :
    ¬ Stumbles (program (programFuel ts.length)) ⟨ts, closing, firstId, #[]⟩ := by
  obtain ⟨statements, c, run, soft⟩ := exists_soft_run h closing firstId
  rintro (⟨c', gone⟩ | hard)
  · cases run.symm.trans gone
  · obtain ⟨x, found⟩ := Option.isSome_iff_exists.1 hard
    rw [run, firstHard] at found
    have among : x ∈ c.faults.toList := by simpa [reported] using List.mem_of_find?_eq_some found
    have stops := List.find?_some found
    simp [soft x among] at stops

/-! ## Beginnings of programs -/

/-- What begins a list of declarations begins a program. -/
theorem begins_program {ts : List Token} (h : Begins (Derives .relaxed .declarations) ts) :
    Begins (Derives .relaxed .program) ts := by
  refine h.within [] [bare .endOfSource] (by simp) fun us ss hss => ?_
  exact ⟨ss, .program hss (bare_kind .endOfSource)⟩

/-- A program ends with its only closing token. -/
theorem closed_of_derives {ts : List Token} {tree : List Stmt}
    (h : Derives .relaxed .program ts tree) :
    ∃ us eof, ts = us ++ [eof] ∧ Unclosed us ∧ eof.kind = .endOfSource ∧
      Derives .relaxed .declarations us tree := by
  cases h with
  | @program us _ eof declared closes =>
    exact ⟨us, eof, rfl, declared.unclosed (by decide), closes, declared⟩

/-- If reading goes wrong wherever the same tokens come with the same next one, then no program has
all of these tokens at its start. -/
theorem not_begins_of_stumbles {ts r : List Token} {eof : Token} {firstId : Nat}
    (unclosed : Unclosed (ts ++ r)) (heof : eof.kind = .endOfSource)
    (none : ¬ ∃ tree, Derives .relaxed .program (ts ++ r ++ [eof]) tree)
    (stumbles : ∀ (n : Nat) {c : Cursor} {s : List Token},
      Alike ts r s ⟨ts ++ r, eof, firstId, #[]⟩ c → Stumbles (program n) c) :
    ¬ Begins (Derives .relaxed .program) (ts ++ [r.head?.getD eof]) := by
  rintro ⟨us, tree, h⟩
  obtain ⟨ws, last, parts, others, closes, declared⟩ := closed_of_derives h
  cases r with
  | nil =>
    rcases List.eq_nil_or_concat us with rfl | ⟨us, last', rfl⟩
    · exact none ⟨tree, by simpa using h⟩
    · -- the closing token would stand inside a program
      have inner : ws = ts ++ eof :: us :=
        (List.append_inj' (parts.symm.trans (by simp : _ = (ts ++ eof :: us) ++ [last'])) rfl).1
      simp [inner, heof] at others
  | cons t r =>
    rcases List.eq_nil_or_concat us with rfl | ⟨us, last', rfl⟩
    · -- a token inside the list would close a program
      have same : [last] = [t] :=
        (List.append_inj' (parts.symm.trans (by simp : _ = ts ++ [t])) rfl).2
      cases same
      simp [closes] at unclosed
    · have inner : ws = ts ++ t :: us :=
        (List.append_inj' (parts.symm.trans (by simp : _ = (ts ++ t :: us) ++ [last'])) rfl).1
      refine not_stumbles declared eof firstId (stumbles _ (s := t :: us) ?_)
      exact ⟨rfl, inner, rfl, rfl, rfl⟩

/-! ## The first fault -/

/-- **The first syntax error is at the earliest wrong token.**  A list of tokens that follows the
relaxed rules is rejected for targets and limits only.  Any other list has a first diagnostic of
another kind, and this one is placed at the token of the least index at which the tokens so far are
no beginning of a program; the closing token counts as the last of them.  A literal without a value
begins nothing. -/
theorem first_fault_is_earliest {tokens : List Token} (closed : ClosedOnce tokens) (firstId : Nat) :
    ((∃ tree, Derives .relaxed .program tokens tree) →
      (∃ statements, (parse tokens firstId).outcome = .program statements) ∨
        ∃ faults, (parse tokens firstId).outcome = .rejected faults ∧
          ∀ d ∈ faults, d.isSoft = true) ∧
    ((¬ ∃ tree, Derives .relaxed .program tokens tree) →
      ∃ before x after i t fault,
        (parse tokens firstId).outcome = .rejected (before ++ x :: after) ∧
        (∀ d ∈ before, d.isSoft = true) ∧ x.isSoft = false ∧
        tokens[i]? = some t ∧ x = .grammar t fault ∧
        ¬ Begins (Derives .relaxed .program) (tokens.take (i + 1)) ∧
        ∀ j ≤ i, Begins (Derives .relaxed .program) (tokens.take j)) := by
  obtain ⟨ts, eof, rfl, inner, heof⟩ := closed
  obtain ⟨statements, c, run, -, parsed⟩ := exists_parse (ts ++ [eof]) firstId
  rw [Cursor.start_closed inner heof] at run
  refine ⟨?_, fun none => ?_⟩
  · rintro ⟨tree, h⟩
    obtain ⟨us, last, parts, -, -, declared⟩ := closed_of_derives h
    obtain ⟨rfl, -⟩ : ts = us ∧ [eof] = [last] := List.append_inj' parts rfl
    obtain ⟨statements', c', run', soft⟩ := exists_soft_run declared eof firstId
    cases run.symm.trans run'
    rw [parsed]
    dsimp only
    split
    · exact .inl ⟨_, rfl⟩
    · exact .inr ⟨_, rfl, soft⟩
  · have sound := program_sound (d := .relaxed) (programFuel ts.length)
    obtain ⟨us, ds, reads, good⟩ := sound.ok heof run
    cases first : firstHard ⟨ts, eof, firstId, #[]⟩ (.ok statements c) with
    | none =>
      obtain ⟨declared, ended⟩ := good (tolerates_of_firstHard reads first)
      have all : ts = us := by simpa [ended] using reads.rest
      exact absurd ⟨_, .program (all ▸ declared) heof⟩ none
    | some x =>
      obtain ⟨before, after, reports, stops, soft⟩ : ∃ before after,
          c.faults.toList = before ++ x :: after ∧ x.isSoft = false ∧
            ∀ d ∈ before, d.isSoft = true := by
        obtain ⟨stops, before, after, reports, soft⟩ := List.find?_eq_some_iff_append.1 first
        exact ⟨before, after, reports, by simpa using stops, by simpa using soft⟩
      rw [← run] at first
      obtain ⟨ts₁, r, fault, rest, placed, begun, stumbles⟩ :=
        (program_foresees _).found heof first
      obtain rfl : ts = ts₁ ++ r := rest
      refine ⟨before, x, after, ts₁.length, r.head?.getD eof, fault, ?_, soft, stops, ?_, placed,
        ?_, ?_⟩
      · have some : c.faults.isEmpty = false := by
          rw [← Array.isEmpty_toList, reports]
          simp
        rw [parsed, some, reports]
        rfl
      · cases r <;> simp
      · have taken : (ts₁ ++ r ++ [eof]).take (ts₁.length + 1) = ts₁ ++ [r.head?.getD eof] := by
          cases r <;> simp [List.take_append]
        rw [taken]
        exact not_begins_of_stumbles inner heof none stumbles
      · intro j le
        refine (begins_program begun).shorten ?_
        rw [List.append_assoc, List.take_append_of_le_length le]
        exact List.take_prefix j ts₁

/-- The tokens of `print nil)`. -/
def strayParenthesis : List Token :=
  [⟨.kwPrint, "print", none, 1⟩, ⟨.kwNil, "nil", none, 1⟩, ⟨.rightParen, ")", none, 1⟩, .closing 1]

theorem parse_strayParenthesis : (parse strayParenthesis 0).outcome =
    .rejected [.grammar ⟨.rightParen, ")", none, 1⟩ (.expected .printEnd)] := rfl

theorem first_fault_is_earliest_strayParenthesis :
    ClosedOnce strayParenthesis ∧ (¬ ∃ tree, Derives .relaxed .program strayParenthesis tree) ∧
      ∃ i fault, strayParenthesis[i]? = some ⟨.rightParen, ")", none, 1⟩ ∧
        fault = GrammarFault.expected .printEnd ∧
        ¬ Begins (Derives .relaxed .program) (strayParenthesis.take (i + 1)) ∧
        ∀ j ≤ i, Begins (Derives .relaxed .program) (strayParenthesis.take j) := by
  have closed : ClosedOnce strayParenthesis :=
    ⟨strayParenthesis.dropLast, .closing 1, rfl, by decide, rfl⟩
  obtain ⟨right, wrong⟩ := first_fault_is_earliest closed 0
  have none : ¬ ∃ tree, Derives .relaxed .program strayParenthesis tree := by
    intro derives
    rcases right derives with ⟨statements, accepted⟩ | ⟨faults, rejected, soft⟩
    · cases parse_strayParenthesis.symm.trans accepted
    · cases parse_strayParenthesis.symm.trans rejected
      exact absurd (soft _ List.mem_cons_self) (by decide)
  obtain ⟨before, x, after, i, t, fault, rejected, -, -, place, rfl, stops, begins⟩ := wrong none
  have faults : [Diagnostic.grammar ⟨.rightParen, ")", Option.none, 1⟩ (.expected .printEnd)] =
      before ++ .grammar t fault :: after :=
    ParseOutcome.rejected.inj (parse_strayParenthesis.symm.trans rejected)
  cases before with
  | nil =>
    cases faults
    exact ⟨closed, none, i, _, place, rfl, stops, begins⟩
  | cons d ds => simp at faults

end ClassScript
